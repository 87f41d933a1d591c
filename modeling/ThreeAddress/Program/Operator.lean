import ThreeAddress.Token.Basic

/-!
# Binary operators

The ten operators that combine two words, shared by expressions and by instructions, and the levels at
which they bind.

## Main definitions

* `Operator` with its `symbol` and its `mnemonic`.
* `Level` is how tightly an operator binds; `Level.operator?` is the operator that a token is at a level.
-/

namespace ThreeAddress

/-- How tightly an operator binds, the loosest level first. -/
inductive Level where
  | comparison
  | term
  | factor
deriving DecidableEq

/-- How many levels bind more tightly. -/
def Level.rank : Level → Nat
  | comparison => 2
  | term => 1
  | factor => 0

theorem Level.rank_le_two (level : Level) : level.rank ≤ 2 := by
  cases level <;> decide

/-- The operators that combine two words. -/
inductive Operator where
  | add
  | sub
  | mul
  | div
  | eq
  | ne
  | lt
  | gt
  | le
  | ge
deriving DecidableEq

namespace Operator

/-- All operators. -/
def all : List Operator :=
  [add, sub, mul, div, eq, ne, lt, gt, le, ge]

/-- The level at which the operator binds. -/
def level : Operator → Level
  | add | sub => .term
  | mul | div => .factor
  | eq | ne | lt | gt | le | ge => .comparison

/-- The sign of the operator, and whether an equals sign follows. -/
def signs : Operator → Sign × Bool
  | add => (.plus, false)
  | sub => (.minus, false)
  | mul => (.star, false)
  | div => (.slash, false)
  | eq => (.equals, true)
  | ne => (.bang, true)
  | lt => (.less, false)
  | gt => (.greater, false)
  | le => (.less, true)
  | ge => (.greater, true)

/-- The kind of token that stands for the operator. -/
def token (op : Operator) : TokenKind :=
  .operator op.signs.1 op.signs.2

/-- The operator as it is written in a source and in a listing. -/
def symbol : Operator → String
  | add => "+"
  | sub => "-"
  | mul => "*"
  | div => "/"
  | eq => "=="
  | ne => "!="
  | lt => "<"
  | gt => ">"
  | le => "<="
  | ge => ">="

/-- The name of the instruction that applies the operator. -/
def mnemonic : Operator → String
  | add => "ADD"
  | sub => "SUB"
  | mul => "MUL"
  | div => "DIV"
  | eq => "EQ"
  | ne => "NE"
  | lt => "LT"
  | gt => "GT"
  | le => "LE"
  | ge => "GE"

/-- The name of the operator in the dump of an instruction. -/
def label : Operator → String
  | add => "Add"
  | sub => "Sub"
  | mul => "Mul"
  | div => "Div"
  | eq => "Eq"
  | ne => "Ne"
  | lt => "Lt"
  | gt => "Gt"
  | le => "Le"
  | ge => "Ge"

/-- The operator in the dump of an expression, where its name is written out. -/
def dump : Operator → Dump
  | add => .tuple "Arithmetic" [.atom "Add"]
  | sub => .tuple "Arithmetic" [.atom "Subtract"]
  | mul => .tuple "Arithmetic" [.atom "Multiply"]
  | div => .tuple "Arithmetic" [.atom "Divide"]
  | eq => .tuple "Relational" [.atom "Equals"]
  | ne => .tuple "Relational" [.atom "NotEquals"]
  | lt => .tuple "Relational" [.atom "LessThan"]
  | gt => .tuple "Relational" [.atom "GreaterThan"]
  | le => .tuple "Relational" [.atom "LessEqual"]
  | ge => .tuple "Relational" [.atom "GreaterEqual"]

/-- Products and quotients are factors, sums and differences are terms, and all others compare. -/
theorem level_iff (op : Operator) :
    (op.level = .factor ↔ op.symbol ∈ ["*", "/"]) ∧ (op.level = .term ↔ op.symbol ∈ ["+", "-"]) ∧
      (op.level = .comparison ↔ op.symbol ∈ ["==", "!=", "<", ">", "<=", ">="]) := by
  cases op <;> decide

/-- The symbol of an operator is the text of its token. -/
theorem symbol_eq_operatorText (op : Operator) :
    op.symbol = TokenKind.operatorText op.signs.1 op.signs.2 := by
  cases op <;> rfl

/-- The signs before an equals sign are those of the operators that are written with one. -/
theorem takesEqual_iff {sign : Sign} : sign.takesEqual ↔ ∃ op : Operator, op.signs = (sign, true) := by
  constructor
  · intro takes
    cases sign with
    | equals => exact ⟨eq, rfl⟩
    | bang => exact ⟨ne, rfl⟩
    | less => exact ⟨le, rfl⟩
    | greater => exact ⟨ge, rfl⟩
    | _ => cases takes
  · rintro ⟨op, signs⟩
    cases op <;> cases signs <;> rfl

end Operator

/-- The operator of the level that a token of the given kind stands for. -/
def Level.operator? (level : Level) (kind : TokenKind) : Option Operator :=
  Operator.all.find? fun op => op.level = level && op.token = kind

end ThreeAddress
