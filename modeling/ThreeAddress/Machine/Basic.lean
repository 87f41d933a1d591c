import ThreeAddress.Code.Labels
import ThreeAddress.Machine.Arithmetic
import ThreeAddress.SymbolTable

/-!
# The machine

A machine runs a sequence of instructions on a store of named words. A program counter points at the
next instruction; the machine halts when the counter has left the code. Labels are looked up when a jump
is taken.

## Main definitions

* `Machine` is what stays the same in a run, and `State` what changes.
* `Machine.step` executes one instruction, and `Machine.run` runs to the end within a number of steps.
* `Machine.perform` executes an instruction in place, and `Machine.attempt` is a step asked for by itself.
* `Code.run` runs instructions from the beginning, and `Execution.bindings` are the final words.
-/

namespace ThreeAddress

/-- The words by their names, in the order in which the names came. -/
abbrev Store := OrderedMap String Int64

/-- Why an instruction cannot be executed. -/
inductive RunFault where
  | undefinedVariable (name : String)
  | undefinedLabel (fault : LabelFault)
  | divisionByZero
deriving DecidableEq

/-- The text of a fault. -/
def RunFault.message : RunFault → String
  | undefinedVariable name => "variable " ++ Quoted.ofString name ++ " is not defined"
  | undefinedLabel fault => fault.message
  | divisionByZero => "division by zero"

/-- A fault with the place and the text of the instruction. -/
structure RunFailure where
  fault : RunFault
  pc : Nat
  instruction : String
deriving DecidableEq

/-- The text of the failure. -/
def RunFailure.message (failure : RunFailure) : String :=
  failure.fault.message ++ "\n    at instruction " ++ Decimal.ofNat failure.pc ++ ": " ++ failure.instruction

/-- Whether a machine has instructions left. -/
inductive Status where
  | running
  | halted
deriving DecidableEq

/-- What stays the same in a run: the instructions, the places of the labels, and the names of the
variables. -/
structure Machine where
  code : Code
  labels : OrderedMap Label Nat
  userVariables : List String

/-- What changes in a run: the store, the program counter, and the number of executed instructions. -/
structure State where
  store : Store
  pc : Nat
  steps : Nat

/-- What is left of a run that came to its end. -/
structure Execution where
  store : Store
  steps : Nat

/-- The value of an operand. -/
def Operand.resolve (store : Store) : Operand → Except RunFault Int64
  | .constant value => .ok value
  | .name symbol =>
    match store.get? symbol with
    | some value => .ok value
    | none => .error (.undefinedVariable symbol)

/-- The word that a symbol has at the beginning: a variable its value, or zero, and a temporary zero. -/
def Symbol.initialWord (s : Symbol) : Int64 :=
  match s.kind with
  | .declared => s.value.getD 0
  | .temporary => 0

/-- The store at the beginning, in the order of the table. -/
def SymbolTable.initialStore (symbols : SymbolTable) : Store :=
  .ofList (symbols.toList.map fun s => (s.name, s.initialWord))

namespace State

/-- The state before the first instruction. -/
def start (symbols : SymbolTable) : State :=
  ⟨symbols.initialStore, 0, 0⟩

/-- The state after an instruction that stored a word. -/
def storing (s : State) (name : String) (value : Int64) : State :=
  ⟨s.store.insert name value, s.pc + 1, s.steps + 1⟩

/-- The state after an instruction that left the store alone, with `pc` as the next place. -/
def goingTo (s : State) (pc : Nat) : State :=
  ⟨s.store, pc, s.steps + 1⟩

end State

namespace Machine

/-- A machine for a sequence of instructions with its symbols. -/
def load (code : Code) (symbols : SymbolTable) : Machine :=
  ⟨code, code.labels, symbols.userVariables.map Symbol.name⟩

/-- Whether there is an instruction to execute. -/
def status (m : Machine) (s : State) : Status :=
  if s.pc < m.code.size then .running else .halted

/-- The place of a label. -/
def resolveLabel (m : Machine) (label : Label) : Except RunFault Nat :=
  match m.labels.get? label with
  | some pc => .ok pc
  | none => .error (.undefinedLabel ⟨label⟩)

/-- The state after an instruction. The operands come first, the left one before the right one. -/
def execute (m : Machine) (s : State) : Instruction → Except RunFault State
  | .assign result value => do
    let word ← value.resolve s.store
    return s.storing result word
  | .binary op lhs rhs result => do
    let left ← lhs.resolve s.store
    let right ← rhs.resolve s.store
    match op.apply? left right with
    | some word => return s.storing result word
    | none => throw .divisionByZero
  | .label _ => return s.goingTo (s.pc + 1)
  | .goto target => do
    return s.goingTo (← m.resolveLabel target)
  | .ifFalse condition target => do
    if (← condition.resolve s.store) = 0 then return s.goingTo (← m.resolveLabel target)
    else return s.goingTo (s.pc + 1)
  | .ifTrue condition target => do
    if (← condition.resolve s.store) ≠ 0 then return s.goingTo (← m.resolveLabel target)
    else return s.goingTo (s.pc + 1)

/-- Executes the next instruction. A machine that has halted stays as it is. -/
def step (m : Machine) (s : State) : Except RunFailure State :=
  match m.code[s.pc]? with
  | none => .ok s
  | some instruction =>
    match m.execute s instruction with
    | .ok s' => .ok s'
    | .error fault => .error ⟨fault, s.pc, instruction.render⟩

/-- A machine that has halted takes no further step. -/
theorem step_of_halted {m : Machine} {s : State} (h : m.status s = .halted) : m.step s = .ok s := by
  have outside : m.code[s.pc]? = none := by
    rw [Array.getElem?_eq_none_iff]
    by_cases inside : s.pc < m.code.size
    · simp [status, inside] at h
    · omega
  rw [step, outside]

/-! ## Steps in place -/

/-- An action on the state of a machine. A failure keeps what was changed before it. -/
abbrev Action :=
  EStateM RunFault State

/-- The value of an operand. -/
def read (operand : Operand) : Action Int64 := do
  MonadExcept.ofExcept (operand.resolve (← get).store)

/-- Stores a word under a name. -/
def write (name : String) (word : Int64) : Action Unit :=
  modify fun s => { s with store := s.store.insert name word }

/-- The place to go to for a label. -/
def jump (m : Machine) (target : Label) : Action (Option Nat) := do
  return some (← MonadExcept.ofExcept (m.resolveLabel target))

/-- Executes an instruction in place, and yields the place to go to, if it jumps. -/
def perform (m : Machine) : Instruction → Action (Option Nat)
  | .assign result value => do
    write result (← read value)
    return none
  | .binary op lhs rhs result => do
    let left ← read lhs
    let right ← read rhs
    match op.apply? left right with
    | some word => do
      write result word
      return none
    | none => throw .divisionByZero
  | .label _ => return none
  | .goto target => m.jump target
  | .ifFalse condition target => do
    if (← read condition) = 0 then m.jump target else return none
  | .ifTrue condition target => do
    if (← read condition) ≠ 0 then m.jump target else return none

/-- Asks for one step, and tells what it came to and the state after it. The step works in place, and
what it changed before a failure stays changed. -/
def attempt (m : Machine) (s : State) : Except RunFailure Status × State :=
  match m.code[s.pc]? with
  | none => (.ok .halted, s)
  | some instruction =>
    match m.perform instruction s with
    | .ok place? s' =>
      let next := s'.goingTo (place?.getD (s'.pc + 1))
      (.ok (m.status next), next)
    | .error fault s' => (.error ⟨fault, s'.pc, instruction.render⟩, s')

/-! ## Runs -/

/-- Runs until the machine halts or fails; none if `fuel` instructions were not enough. -/
def run (m : Machine) : Nat → State → Option (Except RunFailure Execution)
  | 0, s => if m.status s = .halted then some (.ok ⟨s.store, s.steps⟩) else none
  | fuel + 1, s =>
    if m.status s = .halted then some (.ok ⟨s.store, s.steps⟩)
    else
      match m.step s with
      | .ok s' => m.run fuel s'
      | .error failure => some (.error failure)

/-- The variables with their words, in the order of their declaration. -/
def variableWords (m : Machine) (store : Store) : List (String × Int64) :=
  m.userVariables.filterMap fun name => (store.get? name).map fun word => (name, word)

end Machine

/-- Runs instructions with their symbols from the beginning. -/
def Code.run (fuel : Nat) (code : Code) (symbols : SymbolTable) :
    Option (Except RunFailure Execution) :=
  (Machine.load code symbols).run fuel (.start symbols)

namespace Execution

/-- The final word of a name. -/
def get? (e : Execution) (name : String) : Option Int64 :=
  e.store.get? name

/-- The final words of the variables of a table, in the order of their declaration. -/
def bindings (e : Execution) (symbols : SymbolTable) : List (String × Int64) :=
  symbols.userVariables.filterMap fun s => (e.get? s.name).map fun word => (s.name, word)

end Execution

end ThreeAddress
