import ThreeAddress.Text.Extending
import ThreeAddress.Text.Invisible

/-!
# Quoted text

A text between quotation marks, in which every character can be read: the control characters in
everyday use have short forms, the quotation mark and the backslash are escaped, and a character that
cannot be seen, or that would join its neighbour, is written by its code.

## Main definitions

* `Quoted.ofString` and `Quoted.ofChar` quote a text and a character.
-/

namespace ThreeAddress.Quoted

/-- The code of `c` in lower-case hexadecimal digits. -/
def codeEscape (c : Char) : List Char :=
  ['\\', 'u', '{'] ++ Nat.toDigits 16 c.toNat ++ ['}']

/-- How `c` is written between two of the quotation marks `mark`. -/
def escape (mark c : Char) : List Char :=
  if c = '\x00' then ['\\', '0']
  else if c = '\t' then ['\\', 't']
  else if c = '\r' then ['\\', 'r']
  else if c = '\n' then ['\\', 'n']
  else if c = '\\' || c = mark then ['\\', c]
  else if Text.isExtending c || Text.isInvisible c then codeEscape c
  else [c]

/-- The characters between two of the quotation marks `mark`. -/
def enclose (mark : Char) (cs : List Char) : String :=
  String.ofList (mark :: cs.flatMap (escape mark) ++ [mark])

/-- A text in double quotation marks. -/
def ofString (s : String) : String :=
  enclose '"' s.toList

/-- A character in single quotation marks. -/
def ofChar (c : Char) : String :=
  enclose '\'' [c]

end ThreeAddress.Quoted
