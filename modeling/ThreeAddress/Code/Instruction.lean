import ThreeAddress.Program.Operator
import ThreeAddress.Text.Quoted

/-!
# Three-address instructions

Instructions that assign a name, apply an operator to two operands, mark a place, or jump to one.

## Main definitions

* `Label`, `Operand`, `Instruction` and `Code`.
* `Instruction.render` is an instruction in a listing, `Instruction.mnemonic` the name of its operation.
-/

namespace ThreeAddress

/-- A mark in a sequence of instructions. -/
structure Label where
  number : Nat
deriving DecidableEq

/-- The text of a label. -/
def Label.render (label : Label) : String :=
  "L" ++ Decimal.ofNat label.number

/-- What an instruction works on: a constant, or the value of a name. -/
inductive Operand where
  | constant (value : Int64)
  | name (symbol : String)
deriving DecidableEq

namespace Operand

/-- The text of an operand. -/
def render : Operand → String
  | constant value => Decimal.ofWord value
  | name symbol => symbol

/-- An operand as a dump. -/
def dump : Operand → Dump
  | constant value => .tuple "Constant" [.atom (Decimal.ofWord value)]
  | name symbol => .tuple "Name" [.atom (Quoted.ofString symbol)]

end Operand

/-- An instruction. The conditional jumps test whether an operand is zero. -/
inductive Instruction where
  | assign (result : String) (value : Operand)
  | binary (op : Operator) (lhs rhs : Operand) (result : String)
  | label (label : Label)
  | goto (target : Label)
  | ifFalse (condition : Operand) (target : Label)
  | ifTrue (condition : Operand) (target : Label)
deriving DecidableEq

/-- A sequence of instructions. -/
abbrev Code := Array Instruction

namespace Instruction

/-- The instruction in a listing. -/
def render : Instruction → String
  | assign result value => result ++ " = " ++ value.render
  | binary op lhs rhs result =>
    result ++ " = " ++ lhs.render ++ " " ++ op.symbol ++ " " ++ rhs.render
  | label l => l.render ++ ":"
  | goto target => "goto " ++ target.render
  | ifFalse condition target => "if_false " ++ condition.render ++ " goto " ++ target.render
  | ifTrue condition target => "if_true " ++ condition.render ++ " goto " ++ target.render

/-- The name of the operation. -/
def mnemonic : Instruction → String
  | assign .. => "ASSIGN"
  | binary op .. => op.mnemonic
  | label _ => "LABEL"
  | goto _ => "GOTO"
  | ifFalse .. => "IF_FALSE"
  | ifTrue .. => "IF_TRUE"

/-- The label that the instruction may jump to. -/
def target? : Instruction → Option Label
  | goto target | ifFalse _ target | ifTrue _ target => some target
  | assign .. | binary .. | label _ => none

/-- The instruction as a dump. -/
def dump : Instruction → Dump
  | assign result value =>
    .record "Assign" [("result", .atom (Quoted.ofString result)), ("value", value.dump)]
  | binary op lhs rhs result =>
    .record "Binary" [("opcode", .atom op.label), ("lhs", lhs.dump), ("rhs", rhs.dump),
      ("result", .atom (Quoted.ofString result))]
  | label l => .tuple "Label" [dumpLabel l]
  | goto target => .tuple "Goto" [dumpLabel target]
  | ifFalse condition target =>
    .record "IfFalse" [("condition", condition.dump), ("target", dumpLabel target)]
  | ifTrue condition target =>
    .record "IfTrue" [("condition", condition.dump), ("target", dumpLabel target)]
where
  /-- A label as a dump. -/
  dumpLabel (l : Label) : Dump :=
    .tuple "Label" [.atom (Decimal.ofNat l.number)]

end Instruction

end ThreeAddress
