import ThreeAddress.Proofs.Machine.Arithmetic
import Mathlib.Data.Rat.Floor

/-!
# Quotients rounded down

The machine divides words by truncating and then correcting. Here its quotient is compared with the
quotient of rational numbers: it is the floor of that, and what it leaves over has the sign of the
divisor. The floor is a word itself with one exception, the least word divided by minus one.

## Main definitions

* `floor_div_eq_fdiv` and `fdiv_eq_iff`: the integer quotient rounded down, told as the floor of a
  rational number and by the remainder that it leaves.
* `fdiv_toInt_lt_iff`: the one quotient of words that is too large for a word.
* `floorDiv?_eq_some_iff`: what the machine finds.
* `floorDiv_exact`: the division of words is exact.
-/

namespace ThreeAddress

/-! ## Integers -/

/-- The floor of a rational quotient is the integer quotient rounded down. -/
theorem floor_div_eq_fdiv (a b : ℤ) : ⌊(a / b : ℚ)⌋ = a.fdiv b := by
  obtain ⟨n, rfl | rfl⟩ := b.eq_nat_or_neg
  · rw [Int.fdiv_eq_ediv_of_nonneg a n.cast_nonneg]
    exact Rat.floor_intCast_div_natCast a n
  · -- the sign of the divisor moves to the dividend
    rw [← Int.neg_fdiv_neg, neg_neg, Int.fdiv_eq_ediv_of_nonneg _ n.cast_nonneg,
      ← Rat.floor_intCast_div_natCast]
    push_cast
    rw [div_neg, neg_div]

/-- The remainder of a division rounded down has the sign of the divisor and is smaller than it. -/
theorem fdiv_fmod_iff {a b q r : ℤ} (hb : b ≠ 0) :
    a.fdiv b = q ∧ a.fmod b = r ↔
      a = q * b + r ∧ (r = 0 ∨ r.sign = b.sign) ∧ |r| < |b| := by
  have sum : r + b * q = a ↔ a = q * b + r := by
    rw [mul_comm, add_comm, eq_comm]
  rcases lt_or_gt_of_ne hb with negative | positive
  · rw [Int.fdiv_fmod_unique' negative, sum, Int.sign_eq_neg_one_of_neg negative,
      Int.sign_eq_neg_one_iff_neg]
    grind
  · rw [Int.fdiv_fmod_unique positive, sum, Int.sign_eq_one_of_pos positive,
      Int.sign_eq_one_iff_pos]
    grind

/-- The quotient rounded down is the only one that leaves such a remainder. -/
theorem fdiv_eq_iff {a b q : ℤ} (hb : b ≠ 0) :
    a.fdiv b = q ↔ ∃ r, a = q * b + r ∧ (r = 0 ∨ r.sign = b.sign) ∧ |r| < |b| := by
  simp only [← fdiv_fmod_iff hb, exists_and_left, exists_eq', and_true]

/-! ## Words -/

section

variable (a b : Int64)

theorem neg_le_fdiv_toInt : -2 ^ 63 ≤ a.toInt.fdiv b.toInt := by
  have noFurther := Int.natAbs_fdiv_le_natAbs a.toInt b.toInt
  have := a.le_toInt
  have := a.toInt_lt
  omega

/-- Only the least word divided by minus one has a quotient that is too large for a word. -/
theorem fdiv_toInt_lt_iff :
    a.toInt.fdiv b.toInt < 2 ^ 63 ↔ ¬(a = Int64.minValue ∧ b = -1) := by
  rw [← not_le, not_iff_not, ← Int64.toInt_inj, ← Int64.toInt_inj, Int64.toInt_minValue,
    Int64.toInt_neg, Int64.toInt_one]
  constructor
  · intro large
    have noFurther := Int.natAbs_fdiv_le_natAbs a.toInt b.toInt
    have := a.le_toInt
    have := a.toInt_lt
    have least : a.toInt = -2 ^ 63 := by omega
    have quotient : a.toInt.fdiv b.toInt = 2 ^ 63 := by omega
    have divisor : b.toInt ≠ 0 := by
      intro zero
      simp [zero] at quotient
    obtain ⟨r, sum, -, small⟩ := (fdiv_eq_iff divisor).mp quotient
    refine ⟨least, ?_⟩
    grind
  · rintro ⟨least, divisor⟩
    simp [least, divisor]

/-- Reducing the quotient to a word changes it only there. -/
theorem bmod_fdiv_toInt_eq_iff :
    (a.toInt.fdiv b.toInt).bmod (2 ^ 64) = a.toInt.fdiv b.toInt ↔
      ¬(a = Int64.minValue ∧ b = -1) := by
  rw [← fdiv_toInt_lt_iff]
  have lower := neg_le_fdiv_toInt a b
  constructor
  · intro same
    have upper := Int.bmod_lt (x := a.toInt.fdiv b.toInt) (m := 2 ^ 64) (by decide)
    omega
  · intro upper
    exact Int.bmod_eq_of_le (by omega) (by omega)

/-- What the machine finds is the quotient rounded down, read as a word. -/
theorem floorDiv?_eq_some_iff (q : Int64) :
    floorDiv? a b = some q ↔ b ≠ 0 ∧ q.toInt = (a.toInt.fdiv b.toInt).bmod (2 ^ 64) := by
  rw [floorDiv?_eq, ne_eq, ← toInt_eq_zero_iff]
  split
  next zero => simp [zero]
  next divisor => simp [divisor, ← Int64.toInt_inj, eq_comm]

variable {a b}

/-- Where the truncated quotient is corrected, taking one away does not wrap around. -/
theorem toInt_div_sub_one (hb : b ≠ 0) (left : a % b ≠ 0) (signs : ¬(a < 0 ↔ b < 0)) :
    (a / b - 1).toInt = (a / b).toInt - 1 := by
  have whole : b ≠ -1 := by
    rintro rfl
    apply left
    rw [← Int64.toInt_inj]
    simp
  have corrected : a.toInt.fdiv b.toInt = a.toInt.tdiv b.toInt - 1 := by
    rw [ne_eq, ← toInt_eq_zero_iff, Int64.toInt_mod] at left
    rw [Int64.lt_iff_toInt_lt, Int64.lt_iff_toInt_lt, Int64.toInt_zero] at signs
    rw [fdiv_eq_tdiv_sub (by rwa [ne_eq, toInt_eq_zero_iff]), if_pos ⟨left, signs⟩]
  rw [Int64.toInt_sub, Int64.toInt_one, Int64.toInt_div_of_ne_right a b whole, ← corrected]
  exact (bmod_fdiv_toInt_eq_iff a b).mpr fun exception => whole exception.2

end

/-- Words are divided exactly. There is no quotient just for a zero divisor. Otherwise it is the floor
of the rational quotient, reduced to a word; this changes it only where the least word is divided by
minus one, and the correction of the truncated quotient never wraps around. With that one exception
the quotients are those that leave less than the divisor, with its sign. -/
theorem floorDiv_exact (lhs rhs : Int64) :
    (floorDiv? lhs rhs = none ↔ rhs = 0) ∧
    (∀ q, floorDiv? lhs rhs = some q →
      q.toInt = Int.bmod ⌊(lhs.toInt / rhs.toInt : ℚ)⌋ (2 ^ 64) ∧
      (q.toInt = ⌊(lhs.toInt / rhs.toInt : ℚ)⌋ ↔ ¬(lhs = Int64.minValue ∧ rhs = -1))) ∧
    (rhs ≠ 0 → lhs % rhs ≠ 0 → ¬(lhs < 0 ↔ rhs < 0) →
      (lhs / rhs - 1).toInt = (lhs / rhs).toInt - 1) ∧
    (¬(lhs = Int64.minValue ∧ rhs = -1) → ∀ q, floorDiv? lhs rhs = some q ↔
      ∃ r : ℤ, lhs.toInt = q.toInt * rhs.toInt + r ∧ (r = 0 ∨ r.sign = rhs.toInt.sign) ∧
        |r| < |rhs.toInt|) := by
  rw [floor_div_eq_fdiv]
  refine ⟨?_, ?_, toInt_div_sub_one, ?_⟩
  · rw [floorDiv?_eq, ← toInt_eq_zero_iff]
    split <;> simp_all
  · intro q found
    obtain ⟨-, value⟩ := (floorDiv?_eq_some_iff lhs rhs q).mp found
    refine ⟨value, ?_⟩
    rw [value]
    exact bmod_fdiv_toInt_eq_iff lhs rhs
  · intro fits q
    rw [floorDiv?_eq_some_iff, (bmod_fdiv_toInt_eq_iff lhs rhs).mpr fits, ne_eq,
      ← toInt_eq_zero_iff]
    by_cases divisor : rhs.toInt = 0
    · -- nothing is smaller than zero
      simp [divisor]
    · rw [and_iff_right divisor, eq_comm]
      exact fdiv_eq_iff divisor

/-- The least word divided by three: a remainder is left and the signs differ, so the truncated quotient
is corrected. -/
theorem floorDiv_exact_least :
    floorDiv? Int64.minValue 3 = some (-3074457345618258603) ∧
    (-3074457345618258603 : Int64).toInt = ⌊(Int64.minValue.toInt / (3 : Int64).toInt : ℚ)⌋ ∧
    (Int64.minValue / 3 - 1).toInt = (Int64.minValue / 3).toInt - 1 ∧
    ∃ r : ℤ, Int64.minValue.toInt = (-3074457345618258603 : Int64).toInt * (3 : Int64).toInt + r ∧
      (r = 0 ∨ r.sign = (3 : Int64).toInt.sign) ∧ |r| < |(3 : Int64).toInt| := by
  have quotient : floorDiv? Int64.minValue 3 = some (-3074457345618258603) := by decide
  have fits : ¬(Int64.minValue = Int64.minValue ∧ (3 : Int64) = -1) := by decide
  obtain ⟨-, floor, correction, remainder⟩ := floorDiv_exact Int64.minValue 3
  exact ⟨quotient, (floor _ quotient).2.mpr fits, correction (by decide) (by decide) (by decide),
    (remainder fits _).mp quotient⟩

end ThreeAddress
