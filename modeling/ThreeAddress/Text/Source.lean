import ThreeAddress.Text.Decimal

/-!
# Source texts and places in them

A source is a text with the name of the file it came from. Places in it are given twice: as a span of
bytes in the UTF-8 form of the text, and as a position of line and column for a reader.

## Main definitions

* `Source`, `Span` and `Position`.
* `Position.after` is the position behind a character: only a line feed ends a line.
* `lines` cuts a text at its line feeds, and `Source.locate?` finds the line that holds a byte offset.

Cutting loses nothing: `intercalate_lines`.
-/

namespace ThreeAddress

/-- A line and a column, both counted from one, the column in characters. -/
structure Position where
  line : Nat
  col : Nat
deriving DecidableEq

namespace Position

/-- The position of the first character of a text. -/
def start : Position :=
  ⟨1, 1⟩

/-- The position behind `c`, where `c` stands at `p`. -/
def after (p : Position) (c : Char) : Position :=
  if c = '\n' then ⟨p.line + 1, 1⟩ else ⟨p.line, p.col + 1⟩

/-- A position as a reader is told it: line and column with a colon between. -/
def render (p : Position) : String :=
  Decimal.ofNat p.line ++ ":" ++ Decimal.ofNat p.col

end Position

/-- The bytes from `offset` on, `length` of them. -/
structure Span where
  offset : Nat
  length : Nat
deriving DecidableEq

/-- The number of bytes that the characters take in UTF-8. -/
def byteLength : List Char → Nat
  | [] => 0
  | c :: cs => c.utf8Size + byteLength cs

@[simp] theorem byteLength_append (xs ys : List Char) :
    byteLength (xs ++ ys) = byteLength xs + byteLength ys := by
  induction xs with
  | nil => simp [byteLength]
  | cons c cs ih => simp [byteLength, ih, Nat.add_assoc]

/-- The text cut at its line feeds, which belong to no line; a text has at least one line. -/
def lines : List Char → List (List Char)
  | [] => [[]]
  | c :: cs =>
    if c = '\n' then [] :: lines cs
    else
      match lines cs with
      | [] => [[c]]
      | line :: rest => (c :: line) :: rest

theorem lines_ne_nil (cs : List Char) : lines cs ≠ [] := by
  cases cs with
  | nil => simp [lines]
  | cons c cs =>
    rw [lines]
    split
    · simp
    · split <;> simp

/-- Cutting a text loses nothing but the line feeds. -/
theorem intercalate_lines (cs : List Char) : List.intercalate ['\n'] (lines cs) = cs := by
  induction cs with
  | nil => rfl
  | cons c cs ih =>
    rw [lines]
    cases hl : lines cs with
    | nil => exact absurd hl (lines_ne_nil cs)
    | cons line rest =>
      rw [hl] at ih
      by_cases hc : c = '\n'
      · simp_all [List.intercalate]
      · cases rest <;> simp_all [List.intercalate]

/-- How many characters of the line lie before byte `offset`; none if the offset is past the end of the
line or inside a character. -/
def charsBefore? : List Char → Nat → Option Nat
  | _, 0 => some 0
  | [], _ + 1 => none
  | c :: cs, offset + 1 =>
    if c.utf8Size ≤ offset + 1 then (charsBefore? cs (offset + 1 - c.utf8Size)).map (· + 1) else none

/-- A line of a text with a position in it. -/
structure Snippet where
  position : Position
  line : String
deriving DecidableEq

/-- The place of byte `offset` among `rest`, the lines from number `line` on. Each line is followed by
the one byte of its line feed. -/
def locateFrom? (line : Nat) : List (List Char) → Nat → Option Snippet
  | [], _ => none
  | here :: rest, offset =>
    if offset ≤ byteLength here then
      (charsBefore? here offset).map fun before => ⟨⟨line, before + 1⟩, String.ofList here⟩
    else locateFrom? (line + 1) rest (offset - (byteLength here + 1))

/-- A text and the name of the file that holds it, if it has one. -/
structure Source where
  text : String
  file : Option String

namespace Source

/-- The characters of the text. -/
def chars (source : Source) : List Char :=
  source.text.toList

/-- The length of the text in bytes. -/
def size (source : Source) : Nat :=
  byteLength source.chars

/-- The line of the text that holds byte `offset` and the position of that byte; none past the end of
the text and inside a character. -/
def locate? (source : Source) (offset : Nat) : Option Snippet :=
  locateFrom? 1 (lines source.chars) offset

end Source

end ThreeAddress
