/-!
# Padded text

Text filled up with spaces to a width. Widths count characters, and a text that is wider than its
column is never cut.

## Main definitions

* `Text.padLeft` sets a text flush right, `Text.padRight` flush left.
-/

namespace ThreeAddress.Text

/-- A run of `n` spaces. -/
def spaces (n : Nat) : String :=
  String.ofList (List.replicate n ' ')

/-- `s` flush right in a column of `width` characters. -/
def padLeft (width : Nat) (s : String) : String :=
  spaces (width - s.length) ++ s

/-- `s` flush left in a column of `width` characters. -/
def padRight (width : Nat) (s : String) : String :=
  s ++ spaces (width - s.length)

end ThreeAddress.Text
