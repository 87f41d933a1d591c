import ThreeAddress.Text.Decimal
import Mathlib.Algebra.Group.Nat.Defs

/-!
# What a numeral tells

A number is known by its numeral. The characters of a numeral are digits, with a minus sign before
them if the number is negative, and their count bounds the number. A text is read as a word just if it
is a numeral, perhaps with a plus sign or leading zeros, of an integer in the range of words.

## Main definitions

* `Decimal.ofNat_injective` and `Decimal.ofWord_injective`.
* `Decimal.isDigit_of_mem_ofNat` and `Decimal.mem_ofWord`: the characters of a numeral.
* `Decimal.length_digits_le_iff`: the numbers of at most so many digits.
* `Decimal.IsNumeral` says of which integer a text is a numeral; `Decimal.word?_eq_some_iff` that such
  texts are read, and `Decimal.word?_ofWord` that words are read back.
-/

namespace ThreeAddress.Decimal

@[simp] theorem toList_ofNat (n : Nat) : (ofNat n).toList = digits n :=
  String.toList_ofList

theorem ofNat_injective {m n : Nat} (h : ofNat m = ofNat n) : m = n := by
  have digits_eq : digits m = digits n := String.ofList_injective h
  rw [← value_digits m, digits_eq, value_digits]

theorem isDigit_of_mem_ofNat {n : Nat} {c : Char} (h : c ∈ (ofNat n).toList) : c.isDigit := by
  rw [toList_ofNat] at h
  exact isDigit_of_mem_digits h

/-- A number has at most `k + 1` digits just if it is below that power of ten. -/
theorem length_digits_le_iff {n k : Nat} : (digits n).length ≤ k + 1 ↔ n < 10 ^ (k + 1) := by
  induction n using digits.induct generalizing k with
  | case1 n small =>
    have : 10 ^ 1 ≤ 10 ^ (k + 1) := Nat.pow_le_pow_right (by decide) (by omega)
    rw [digits_of_lt small, List.length_singleton]
    omega
  | case2 n large ih =>
    rw [digits_of_le (by omega), List.length_append, List.length_singleton, Nat.add_le_add_iff_right]
    cases k with
    | zero =>
      have := List.length_pos_iff.mpr (digits_ne_nil (n / 10))
      omega
    | succ k => rw [ih, Nat.div_lt_iff_lt_mul (by decide), ← Nat.pow_succ]

/-! ## Integers and words -/

/-- The characters of an integer are digits, and a minus sign. -/
theorem mem_ofInt {z : Int} {c : Char} (h : c ∈ (ofInt z).toList) : c = '-' ∨ c.isDigit := by
  cases z with
  | ofNat n => exact .inr (isDigit_of_mem_ofNat h)
  | negSucc n =>
    rw [ofInt, String.toList_append, List.mem_append] at h
    exact h.imp (by simp) isDigit_of_mem_ofNat

theorem ofInt_injective {y z : Int} (h : ofInt y = ofInt z) : y = z := by
  -- a minus sign is no digit
  have unsigned : ∀ m n : Nat, ofNat m ≠ "-" ++ ofNat n := by
    intro m n same
    have sign : '-' ∈ (ofNat m).toList := by simp [same]
    exact absurd (isDigit_of_mem_ofNat sign) (by decide)
  cases y with
  | ofNat m =>
    cases z with
    | ofNat n => rw [ofNat_injective h]
    | negSucc n => exact absurd h (unsigned m (n + 1))
  | negSucc m =>
    cases z with
    | ofNat n => exact absurd h.symm (unsigned n (m + 1))
    | negSucc n =>
      have same : m + 1 = n + 1 := ofNat_injective ((String.append_right_inj "-").mp h)
      rw [Nat.succ.inj same]

theorem mem_ofWord {n : Int64} {c : Char} (h : c ∈ (ofWord n).toList) : c = '-' ∨ c.isDigit :=
  mem_ofInt h

theorem ofWord_injective {m n : Int64} (h : ofWord m = ofWord n) : m = n :=
  Int64.toInt_inj.mp (ofInt_injective h)

/-! ## Reading -/

/-- The text is a numeral of the integer: digits, at least one of them, with one sign before them or
none. -/
inductive IsNumeral : List Char → Int → Prop where
  | unsigned {ds : List Char} (some : ds ≠ []) (only : ∀ d ∈ ds, d.isDigit) : IsNumeral ds (value ds)
  | plus {ds : List Char} (some : ds ≠ []) (only : ∀ d ∈ ds, d.isDigit) :
      IsNumeral ('+' :: ds) (value ds)
  | minus {ds : List Char} (some : ds ≠ []) (only : ∀ d ∈ ds, d.isDigit) :
      IsNumeral ('-' :: ds) (-(value ds : Int))

section

variable {text ds : List Char} {n : Nat} {z : Int} {word : Int64}

theorem nat?_eq_some_iff :
    nat? text = some n ↔ (text ≠ [] ∧ ∀ d ∈ text, d.isDigit) ∧ value text = n := by
  rw [nat?, Option.ite_none_right_eq_some, Option.some_inj, List.all_eq_true]

theorem nat?_of_digits (some : ds ≠ []) (only : ∀ d ∈ ds, d.isDigit) : nat? ds = .some (value ds) :=
  nat?_eq_some_iff.mpr ⟨⟨some, only⟩, rfl⟩

theorem int?_of_digits (only : ∀ d ∈ ds, d.isDigit) : int? ds = (nat? ds).map fun n : Nat => (n : Int) := by
  rw [int?]
  · rintro ds rfl
    exact absurd (only '+' List.mem_cons_self) (by decide)
  · rintro ds rfl
    exact absurd (only '-' List.mem_cons_self) (by decide)

theorem int?_eq_some_iff : int? text = some z ↔ IsNumeral text z := by
  constructor
  · intro read
    rw [int?.eq_def] at read
    split at read
    all_goals
      obtain ⟨n, digits, rfl⟩ := Option.map_eq_some_iff.mp read
      obtain ⟨⟨some, only⟩, rfl⟩ := nat?_eq_some_iff.mp digits
    · exact .plus some only
    · exact .minus some only
    · exact .unsigned some only
  · rintro (⟨some, only⟩ | ⟨some, only⟩ | ⟨some, only⟩)
    · rw [int?_of_digits only, nat?_of_digits some only, Option.map_some]
    · rw [int?, nat?_of_digits some only, Option.map_some]
    · rw [int?, nat?_of_digits some only, Option.map_some]

/-- A text is read as a word just if it is a numeral of it. -/
theorem word?_eq_some_iff : word? text = some word ↔ IsNumeral text word.toInt := by
  rw [word?, Option.bind_eq_some_iff, ← int?_eq_some_iff]
  constructor
  · rintro ⟨z, read, inRange⟩
    obtain ⟨⟨least, most⟩, same⟩ := Option.ite_none_right_eq_some.mp inRange
    rw [read, ← Option.some_inj.mp same, Int64.toInt_ofInt_of_le least (Int.lt_add_one_of_le most)]
  · intro read
    refine ⟨word.toInt, read, ?_⟩
    rw [if_pos ⟨word.le_toInt, Int.le_of_lt_add_one word.toInt_lt⟩, Int64.ofInt_toInt]

/-- The numeral of an integer is one. -/
theorem isNumeral_ofInt (z : Int) : IsNumeral (ofInt z).toList z := by
  have only (n : Nat) : ∀ d ∈ digits n, d.isDigit := fun _ => isDigit_of_mem_digits
  cases z with
  | ofNat n =>
    have numeral := IsNumeral.unsigned (digits_ne_nil n) (only n)
    rwa [value_digits, ← toList_ofNat] at numeral
  | negSucc n =>
    have numeral := IsNumeral.minus (digits_ne_nil (n + 1)) (only (n + 1))
    have written : (ofInt (.negSucc n)).toList = '-' :: digits (n + 1) := by
      rw [ofInt, String.toList_append, toList_ofNat]
      rfl
    rwa [value_digits, ← written] at numeral

/-- A word that was written is read back. -/
theorem word?_ofWord (word : Int64) : word? (ofWord word).toList = some word :=
  word?_eq_some_iff.mpr (isNumeral_ofInt word.toInt)

end

end ThreeAddress.Decimal
