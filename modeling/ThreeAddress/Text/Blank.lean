/-!
# Blank characters

The property White_Space: the characters that may stand between two tokens. It holds the ASCII blanks,
next line, the no-break spaces, the typographic spaces and the two separators of lines and paragraphs.

## Main definitions

* `Text.isBlank` decides the property for a character.
-/

namespace ThreeAddress.Text

/-- The ranges of blank characters, ends included. -/
def Blank.ranges : List (Nat × Nat) := [
  (0x9, 0xd), (0x20, 0x20), (0x85, 0x85), (0xa0, 0xa0), (0x1680, 0x1680), (0x2000, 0x200a),
  (0x2028, 0x2029), (0x202f, 0x202f), (0x205f, 0x205f), (0x3000, 0x3000)]

/-- A character of the property White_Space. -/
def isBlank (c : Char) : Bool :=
  Blank.ranges.any fun r => r.1 ≤ c.toNat && c.toNat ≤ r.2

/-- The blank characters one by one: the five controls from tab to carriage return and next line, the
seventeen separators of words, and those of lines and of paragraphs. -/
theorem isBlank_iff {c : Char} :
    isBlank c ↔ c.toNat ∈ [0x9, 0xa, 0xb, 0xc, 0xd, 0x85, 0x20, 0xa0, 0x1680, 0x2000, 0x2001, 0x2002,
      0x2003, 0x2004, 0x2005, 0x2006, 0x2007, 0x2008, 0x2009, 0x200a, 0x202f, 0x205f, 0x3000, 0x2028,
      0x2029] := by
  simp only [isBlank, Blank.ranges, List.any_cons, List.any_nil, Bool.or_eq_true, Bool.and_eq_true,
    decide_eq_true_eq, List.mem_cons, List.not_mem_nil, Bool.false_eq_true, or_false]
  omega

/-- The plain blanks are blank: space, tab, carriage return and line feed. -/
theorem isBlank_of_isWhitespace {c : Char} (h : c.isWhitespace = true) : isBlank c = true := by
  simp only [Char.isWhitespace, Bool.or_eq_true, decide_eq_true_eq] at h
  rcases h with ((rfl | rfl) | rfl) | rfl <;> decide

end ThreeAddress.Text
