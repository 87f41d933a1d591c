import ThreeAddress.Code.Instruction
import ThreeAddress.OrderedMap

/-!
# Labels and jumps

Where the labels of a sequence of instructions are, and whether every jump has one to go to.

## Main definitions

* `Code.labels` maps each label to its place; of several places the last one counts.
* `Code.checkLabels` finds the first jump to a label that is nowhere.
-/

namespace ThreeAddress

/-- A jump goes to a label that marks no place. -/
structure LabelFault where
  label : Label
deriving DecidableEq

/-- The text of the fault. -/
def LabelFault.message (fault : LabelFault) : String :=
  "label " ++ fault.label.render ++ " is not defined"

namespace Code

/-- The labels among the instructions, each with its index, where the first index is `index`. -/
def labelsFrom (index : Nat) : List Instruction → List (Label × Nat)
  | [] => []
  | .label l :: rest => (l, index) :: labelsFrom (index + 1) rest
  | _ :: rest => labelsFrom (index + 1) rest

/-- The place of each label; of several places the last one counts. -/
def labels (code : Code) : OrderedMap Label Nat :=
  .ofList (labelsFrom 0 code.toList)

/-- The labels that the instructions may jump to, in the order of the jumps. -/
def targets (code : Code) : List Label :=
  code.toList.filterMap Instruction.target?

/-- Checks that every jump has a label to go to, and reports the first one that has none. -/
def checkLabels (code : Code) : Except LabelFault Unit :=
  let places := code.labels
  match code.targets.find? fun target => (places.get? target).isNone with
  | some target => .error ⟨target⟩
  | none => .ok ()

end Code

end ThreeAddress
