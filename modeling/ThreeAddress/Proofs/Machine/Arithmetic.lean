import ThreeAddress.Machine.Arithmetic
import ThreeAddress.Proofs.Program.Meaning

/-!
# Words and integers

What the machine computes with words, told of the integers that the words stand for. The machine
corrects the truncated quotient of words where signs differ; this makes it the quotient rounded
down.

## Main definitions

* `floorDiv?_eq`: the quotient of the machine is the integer quotient rounded down.
* `Operator.apply?_eq_meaning?`: the machine applies operators as programs mean them.
-/

namespace ThreeAddress

theorem toInt_eq_zero_iff {a : Int64} : a.toInt = 0 ↔ a = 0 := by
  rw [← Int64.toInt_inj, Int64.toInt_zero]

/-- The quotient rounded down is one less than the truncated one where a remainder is left and the
signs differ. -/
theorem fdiv_eq_tdiv_sub {a b : Int} (hb : b ≠ 0) :
    a.fdiv b = a.tdiv b - if a.tmod b ≠ 0 ∧ ¬(a < 0 ↔ b < 0) then 1 else 0 := by
  have hd : b ∣ a ↔ a.tmod b = 0 := Int.dvd_iff_tmod_eq_zero
  rw [Int.fdiv_eq_tdiv]
  by_cases hm : a.tmod b = 0
  · simp [hd, hm]
  · rcases Int.lt_or_gt_of_ne hb with h | h
    · have hs : b.sign = -1 := Int.sign_eq_neg_one_of_neg h
      by_cases ha : a < 0 <;> simp [hd, hm, hs, ha] <;> omega
    · have hs : b.sign = 1 := Int.sign_eq_one_of_pos h
      by_cases ha : a < 0 <;> simp [hd, hm, hs, ha] <;> omega

/-- The quotient of the machine is the integer quotient rounded down, reduced to a word. -/
theorem floorDiv?_eq (a b : Int64) :
    floorDiv? a b = if b.toInt = 0 then none else some (.ofInt (a.toInt.fdiv b.toInt)) := by
  by_cases hb : b = 0
  · simp [floorDiv?, hb]
  · have hb' : b.toInt ≠ 0 := by rwa [ne_eq, toInt_eq_zero_iff]
    have quotient : Int64.ofInt (a.toInt.tdiv b.toInt) = a / b := by
      rw [← Int64.toInt_inj]
      simp
    have remainder : a % b ≠ 0 ↔ a.toInt.tmod b.toInt ≠ 0 := by
      rw [ne_eq, ← toInt_eq_zero_iff, Int64.toInt_mod]
    have sign : ∀ x : Int64, x < 0 ↔ x.toInt < 0 := fun x => Int64.lt_iff_toInt_lt
    rw [if_neg hb', fdiv_eq_tdiv_sub hb', Int64.ofInt_sub, quotient]
    simp only [floorDiv?, hb, if_false, remainder, sign]
    split <;> simp

/-- The machine applies operators as programs mean them. -/
theorem Operator.apply?_eq_meaning? (op : Operator) (a b : Int64) :
    op.apply? a b = op.meaning? a b := by
  cases op with
  | add | sub | mul => simp [meaning?, Operator.apply?]
  | div => exact floorDiv?_eq a b
  | eq | ne => by_cases h : a = b <;> simp [meaning?, Operator.apply?, truthValue, Int64.toInt_inj, h]
  | lt | gt => simp [meaning?, Operator.apply?, truthValue, Int64.lt_iff_toInt_lt]
  | le | ge => simp [meaning?, Operator.apply?, truthValue, Int64.le_iff_toInt_le]

end ThreeAddress
