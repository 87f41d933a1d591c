import ThreeAddress.Event
import ThreeAddress.Machine.Basic

/-!
# The log of a run

What a machine tells while it runs: each instruction before it is executed, the words of the variables
after each assignment to one of them, and the number of steps when it halts.

## Main definitions

* `Machine.stepLog` is told by one step, and `Machine.runLog` by a run.
-/

namespace ThreeAddress.Machine

/-- The words of the variables, if `instruction` assigned to one of them and left `store`. -/
def assignmentLog (m : Machine) (store : Store) : Instruction → List Event
  | .assign result _ => if result ∈ m.userVariables then [.userState (m.variableWords store)] else []
  | _ => []

/-- What the machine tells while it executes the next instruction. -/
def stepLog (m : Machine) (s : State) : List Event :=
  match m.code[s.pc]? with
  | none => []
  | some instruction =>
    .instruction s.pc instruction ::
      (match m.step s with
      | .ok s' => m.assignmentLog s'.store instruction
      | .error _ => [])

/-- What the machine tells while it runs, for at most `fuel` instructions. -/
def runLog (m : Machine) : Nat → State → List Event
  | 0, s => if m.status s = .halted then [.halted s.steps] else []
  | fuel + 1, s =>
    if m.status s = .halted then [.halted s.steps]
    else
      match m.step s with
      | .ok s' => m.stepLog s ++ m.runLog fuel s'
      | .error _ => m.stepLog s

end ThreeAddress.Machine
