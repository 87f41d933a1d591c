import ThreeAddress.Program.Operator

/-!
# Arithmetic of words

The operators on 64-bit words. Sums, differences and products wrap around; a quotient is rounded toward
negative infinity; a comparison is one if it holds and zero if not.

## Main definitions

* `floorDiv?` divides, unless the divisor is zero.
* `Operator.apply?` is the value of an operator.
-/

namespace ThreeAddress

/-- The quotient rounded toward negative infinity; none for a zero divisor. The division of words
rounds toward zero, which is one too much when the signs differ and a remainder is left. -/
def floorDiv? (lhs rhs : Int64) : Option Int64 :=
  if rhs = 0 then none
  else
    let quotient := lhs / rhs
    if lhs % rhs ≠ 0 ∧ ¬(lhs < 0 ↔ rhs < 0) then some (quotient - 1) else some quotient

/-- One if the condition holds, zero if not. -/
def truthValue (condition : Bool) : Int64 :=
  if condition then 1 else 0

/-- The value of an operator on two words; none for a division by zero. -/
def Operator.apply? (op : Operator) (lhs rhs : Int64) : Option Int64 :=
  match op with
  | add => some (lhs + rhs)
  | sub => some (lhs - rhs)
  | mul => some (lhs * rhs)
  | div => floorDiv? lhs rhs
  | eq => some (truthValue (lhs = rhs))
  | ne => some (truthValue (lhs ≠ rhs))
  | lt => some (truthValue (lhs < rhs))
  | gt => some (truthValue (lhs > rhs))
  | le => some (truthValue (lhs ≤ rhs))
  | ge => some (truthValue (lhs ≥ rhs))

end ThreeAddress
