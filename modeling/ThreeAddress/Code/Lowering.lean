import ThreeAddress.Code.Instruction
import ThreeAddress.Diagnostic
import ThreeAddress.Program.Basic
import ThreeAddress.SymbolTable

/-!
# From programs to instructions

A program becomes a sequence of instructions that computes the same. Its variables and the temporaries
for its operators go into a symbol table on the way; a name must be declared before it is used, but not
in the same block.

## Main definitions

* `Lowering` is a lowering under way: its instructions, its next label, and the table.
* `Emitter` is an action on a lowering, which may fail, and then keeps what was made before.
* `Expr.lower` and `Stmt.lower` emit the instructions of a part of a program, and
  `Program.lower` those of the whole.
-/

namespace ThreeAddress

/-- A lowering under way: the instructions emitted so far, the number of the next label, and the table
of symbols. Labels are numbered through the whole sequence. -/
structure Lowering where
  code : Code
  nextLabel : Nat
  symbols : SymbolTable

/-- The lowering that has emitted nothing, beside a table of symbols. -/
def Lowering.start (symbols : SymbolTable) : Lowering :=
  ⟨#[], 0, symbols⟩

/-- An action on a lowering; a failure keeps what was emitted before it. -/
abbrev Emitter :=
  EStateM (Diagnostic NameFault) Lowering

namespace Emitter

variable {α : Type}

/-- Appends an instruction. -/
def emit (instruction : Instruction) : Emitter Unit :=
  modify fun t => { t with code := t.code.push instruction }

/-- A label that has not been used. -/
def newLabel : Emitter Label :=
  modifyGet fun t => (⟨t.nextLabel⟩, { t with nextLabel := t.nextLabel + 1 })

/-- The name of the next temporary. -/
def newTemporary : Emitter String :=
  modifyGet fun t =>
    let (symbol, symbols) := t.symbols.fresh
    (symbol.name, { t with symbols := symbols })

/-- Fails at a name of the source. -/
def failAt (source : Source) (name : Lexeme) (fault : NameFault) : Emitter α :=
  throw (.locatedAt fault name.span source)

/-- Declares a variable on a line. -/
def declare (source : Source) (name : Lexeme) (line : Nat) : Emitter Unit := do
  let t ← get
  match t.symbols.declare (.new name.text .declared none (some line)) with
  | .ok symbols => set { t with symbols := symbols }
  | .error fault => failAt source name fault

/-- Checks that a name has been declared. -/
def require (source : Source) (name : Lexeme) : Emitter Unit := do
  unless (← get).symbols.contains name.text do
    failAt source name (.undeclared name.text)

/-- The same action, whose failures interrupt the activity `context`. -/
def within (context : String) (action : Emitter α) : Emitter α := fun t =>
  match action t with
  | .ok a t' => .ok a t'
  | .error error t' => .error (error.addContext context) t'

end Emitter

open Emitter

/-- Emits the instructions for an expression, the left operand first, and yields the operand that holds
its value. Constants and variables need none. -/
def Expr.lower (source : Source) : Expr → Emitter Operand
  | .number value => return .constant value
  | .name lexeme => do
    require source lexeme
    return .name lexeme.text
  | .binary op lhs rhs => do
    let left ← lhs.lower source
    let right ← rhs.lower source
    let result ← newTemporary
    emit (.binary op left right result)
    return .name result

mutual

/-- Emits the instructions for a statement. A declared name is known in its own initializer. -/
def Stmt.lower (source : Source) : Stmt → Emitter Unit
  | .declare name init line => do
    Emitter.declare source name line
    let value ← init.lower source
    emit (.assign name.text value)
  | .assign name value _ => do
    require source name
    let operand ← value.lower source
    emit (.assign name.text operand)
  | .ifThen condition body _ => do
    let test ← condition.lower source
    let done ← newLabel
    emit (.ifFalse test done)
    within "compiling if branch" (body.lower source)
    emit (.label done)
  | .ifElse condition body otherwise _ => do
    let test ← condition.lower source
    let elsewhere ← newLabel
    let done ← newLabel
    emit (.ifFalse test elsewhere)
    within "compiling if branch" (body.lower source)
    emit (.goto done)
    emit (.label elsewhere)
    within "compiling else branch" (otherwise.lower source)
    emit (.label done)
  | .loop condition body _ => do
    let again ← newLabel
    let done ← newLabel
    emit (.label again)
    let test ← condition.lower source
    emit (.ifFalse test done)
    within "compiling loop body" (body.lower source)
    emit (.goto again)
    emit (.label done)
  | .block body => Stmt.lowerAll source body

/-- Emits the instructions for statements one after another. -/
def Stmt.lowerAll (source : Source) : List Stmt → Emitter Unit
  | [] => return ()
  | s :: rest => do
    s.lower source
    Stmt.lowerAll source rest

end

/-- The instructions of a program beside a table of symbols, and the lowering they came from, also on
failure. -/
def Program.lower (source : Source) (program : Program) (symbols : SymbolTable) :
    Except (Diagnostic NameFault) Code × Lowering :=
  match Stmt.lowerAll source program (.start symbols) with
  | .ok () t => (.ok t.code, t)
  | .error error t => (.error error, t)

end ThreeAddress
