import ThreeAddress.Code.Lowering
import ThreeAddress.Machine.Basic
import ThreeAddress.Program.Grammar
import ThreeAddress.Token.Cursor

/-!
# Compilations

A source goes through four phases: it is cut into tokens, read as a program, lowered to
instructions, and run. A compilation keeps what each phase made, and the failure that stopped it.

## Main definitions

* `Failure` is the failure of some phase.
* `Compilation` keeps what was made, and `Compilation.bindings` are the final words of the variables.
* `Source.compile` takes a source through the phases.
-/

namespace ThreeAddress

/-- Choices for a compilation: whether jumps without a label are looked for before the run. -/
structure Options where
  eagerLabelCheck : Bool

/-- A failure, by the phase that it stopped; the last phase may look for labels before it runs. -/
inductive Failure where
  | lex (error : Diagnostic LexFault)
  | parse (error : Diagnostic ParseFault)
  | symbol (error : Diagnostic NameFault)
  | label (fault : LabelFault)
  | run (failure : RunFailure)

/-- The text of a failure. -/
def Failure.message : Failure → String
  | lex error => error.render LexFault.message
  | parse error => error.render ParseFault.message
  | symbol error => error.render NameFault.message
  | label fault => fault.message
  | run failure => failure.message

/-- What the phases of a compilation made, and the failure that stopped it. The table of symbols is
there from the beginning of the third phase on. -/
structure Compilation where
  tokens : Option (List Token)
  program : Option Program
  code : Option Code
  symbols : Option SymbolTable
  execution : Option Execution
  failure : Option Failure

namespace Compilation

/-- A compilation that has made nothing yet. -/
def empty : Compilation :=
  ⟨none, none, none, none, none, none⟩

/-- Whether all phases came to their end. -/
def isSuccess (c : Compilation) : Bool :=
  c.failure.isNone

/-- The same compilation, stopped by a failure. -/
def stop (c : Compilation) (failure : Failure) : Compilation :=
  { c with failure := some failure }

/-- The final words of the variables, in the order of their declaration. -/
def bindings (c : Compilation) : List (String × Int64) :=
  match c.execution, c.symbols with
  | some execution, some symbols => execution.bindings symbols
  | _, _ => []

/-- The final word of a name. -/
def get? (c : Compilation) (name : String) : Option Int64 :=
  c.execution.bind (·.get? name)

end Compilation

/-- Gives symbols the given words as their values, one after another; a word without a symbol ends that,
and the table keeps what was changed before. -/
def SymbolTable.updateAll (symbols : SymbolTable) :
    List (String × Int64) → Except NameFault Unit × SymbolTable
  | [] => (.ok (), symbols)
  | (name, word) :: rest =>
    match symbols.update name word with
    | .ok updated => updated.updateAll rest
    | .error fault => (.error fault, symbols)

/-- The label check that the options ask for. -/
def Options.checkLabels (options : Options) (code : Code) : Except LabelFault Unit :=
  if options.eagerLabelCheck then code.checkLabels else .ok ()

/-- The end of the last phase, where `symbols` is the table of the third one: the final words of the
variables become their values. -/
def Compilation.finish (c : Compilation) (symbols : SymbolTable) :
    Except RunFailure Execution → Compilation
  | .error failure => c.stop (.run failure)
  | .ok execution =>
    match symbols.updateAll (execution.bindings symbols) with
    | (.ok (), updated) => { c with symbols := some updated, execution := some execution }
    | (.error fault, updated) => { c with symbols := some updated }.stop (.symbol (.ofKind fault))

/-- Takes a source through all phases; none if `fuel` instructions were not enough for the run. -/
def Source.compile (fuel : Nat) (options : Options) (source : Source) : Option Compilation :=
  let c := Compilation.empty
  match source.tokenize with
  | .error error => some (c.stop (.lex error))
  | .ok tokens =>
    let c := { c with tokens := some tokens }
    match Program.ofTokens source tokens with
    | .error error => some (c.stop (.parse error))
    | .ok program =>
      let c := { c with program := some program }
      match program.lower source .empty with
      | (.error error, t) => some ({ c with symbols := some t.symbols }.stop (.symbol error))
      | (.ok code, t) =>
        let c := { c with symbols := some t.symbols, code := some code }
        match options.checkLabels code with
        | .error fault => some (c.stop (.label fault))
        | .ok () => (code.run fuel t.symbols).map (c.finish t.symbols)

end ThreeAddress
