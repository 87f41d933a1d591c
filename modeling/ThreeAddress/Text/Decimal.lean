/-!
# Decimal numerals

Natural numbers, integers and 64-bit words in base ten. They are written without leading zeros; a text
that is read as one may have them, and a plus sign too.

## Main definitions

* `Decimal.digits` and `Decimal.value` write and read a natural number.
* `Decimal.ofNat`, `Decimal.ofInt` and `Decimal.ofWord` are the texts of numbers.
* `Decimal.nat?`, `Decimal.int?` and `Decimal.word?` read any text as a number, or refuse it.

Reading what was written gives the number back: `Decimal.value_digits`.
-/

namespace ThreeAddress.Decimal

/-- The digit for `n`, where `n` is below ten. -/
def digit (n : Nat) : Char :=
  Char.ofNat ('0'.toNat + n)

/-- The digits of `n`, most significant first. -/
def digits (n : Nat) : List Char :=
  if n < 10 then [digit n] else digits (n / 10) ++ [digit (n % 10)]

/-- The number that a run of digits stands for; leading zeros are allowed. -/
def value (ds : List Char) : Nat :=
  ds.foldl (fun n d => 10 * n + (d.toNat - '0'.toNat)) 0

theorem digits_of_lt {n : Nat} (h : n < 10) : digits n = [digit n] := by
  rw [digits, if_pos h]

theorem digits_of_le {n : Nat} (h : 10 ≤ n) : digits n = digits (n / 10) ++ [digit (n % 10)] := by
  rw [digits, if_neg (by omega)]

theorem digits_ne_nil (n : Nat) : digits n ≠ [] := by
  rw [digits]
  split <;> simp

theorem toNat_digit {n : Nat} (h : n < 10) : (digit n).toNat = '0'.toNat + n := by
  have below : ∀ m : Fin 10, (digit m).toNat = '0'.toNat + m := by decide
  exact below ⟨n, h⟩

theorem isDigit_digit {n : Nat} (h : n < 10) : (digit n).isDigit = true := by
  have below : ∀ m : Fin 10, (digit m).isDigit = true := by decide
  exact below ⟨n, h⟩

theorem value_append_singleton (ds : List Char) (d : Char) :
    value (ds ++ [d]) = 10 * value ds + (d.toNat - '0'.toNat) := by
  simp [value]

/-- Reading the digits of a number gives the number back. -/
theorem value_digits (n : Nat) : value (digits n) = n := by
  induction n using digits.induct with
  | case1 n h =>
    rw [digits_of_lt h]
    simp [value, toNat_digit h]
  | case2 n h ih =>
    rw [digits_of_le (by omega), value_append_singleton, ih, toNat_digit (by omega)]
    omega

/-- Nothing but digits is written. -/
theorem isDigit_of_mem_digits {n : Nat} {d : Char} (h : d ∈ digits n) : d.isDigit = true := by
  induction n using digits.induct with
  | case1 n hn =>
    rw [digits_of_lt hn, List.mem_singleton] at h
    rw [h]
    exact isDigit_digit hn
  | case2 n hn ih =>
    rw [digits_of_le (by omega), List.mem_append, List.mem_singleton] at h
    cases h with
    | inl earlier => exact ih earlier
    | inr last =>
      rw [last]
      exact isDigit_digit (by omega)

/-- The text of a natural number. -/
def ofNat (n : Nat) : String :=
  String.ofList (digits n)

/-- The text of an integer: a minus sign stands before the digits of a negative one. -/
def ofInt : Int → String
  | .ofNat n => ofNat n
  | .negSucc n => "-" ++ ofNat (n + 1)

/-- The text of a word, read as a signed number. -/
def ofWord (n : Int64) : String :=
  ofInt n.toInt

/-- The number that a text stands for: digits, at least one of them, and nothing else. -/
def nat? (text : List Char) : Option Nat :=
  if text ≠ [] ∧ text.all Char.isDigit then some (value text) else none

/-- The integer that a text stands for: one sign may stand before the digits. -/
def int? : List Char → Option Int
  | '+' :: ds => (nat? ds).map fun n : Nat => (n : Int)
  | '-' :: ds => (nat? ds).map fun n : Nat => -(n : Int)
  | ds => (nat? ds).map fun n : Nat => (n : Int)

/-- The word that a text stands for, if the integer is in the range of words. -/
def word? (text : List Char) : Option Int64 :=
  (int? text).bind fun z =>
    if Int64.minValue.toInt ≤ z ∧ z ≤ Int64.maxValue.toInt then some (Int64.ofInt z) else none

end ThreeAddress.Decimal
