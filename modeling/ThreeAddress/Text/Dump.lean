import ThreeAddress.Text.Padded

/-!
# Dumps of data

A dump shows a value as a tree of named constructors with their fields. It has two layouts: on one
line, and indented with one field a line.

## Main definitions

* `Dump` is the tree; `Dump.record`, `Dump.tuple` and `Dump.list` build its inner nodes.
* `Dump.inline` and `Dump.indented` are the two layouts.
-/

namespace ThreeAddress

/-- What stands around the fields of a node. -/
inductive Brackets where
  | braces
  | parentheses
  | square
deriving DecidableEq

/-- A value as text, or as a node with a head and labelled items. -/
inductive Dump where
  | atom (text : String)
  | node (head : String) (brackets : Brackets) (items : List (String × Dump))

namespace Brackets

/-- The opening bracket, on one line. -/
def opening : Brackets → String
  | braces => " \x7b "
  | parentheses => "("
  | square => "["

/-- The closing bracket, on one line. -/
def closing : Brackets → String
  | braces => " \x7d"
  | parentheses => ")"
  | square => "]"

/-- The opening bracket at the end of a line. -/
def openingLine : Brackets → String
  | braces => " \x7b\n"
  | parentheses => "(\n"
  | square => "[\n"

/-- The closing bracket at the beginning of a line. -/
def closingLine : Brackets → String
  | braces => "\x7d"
  | parentheses => ")"
  | square => "]"

/-- The brackets of a node without items: a list keeps its own. -/
def empty : Brackets → String
  | square => "[]"
  | _ => ""

end Brackets

namespace Dump

/-- A constructor with named fields. -/
def record (head : String) (fields : List (String × Dump)) : Dump :=
  node head .braces (fields.map fun field => (field.1 ++ ": ", field.2))

/-- A constructor with fields told apart by their order. -/
def tuple (head : String) (fields : List Dump) : Dump :=
  node head .parentheses (fields.map fun field => ("", field))

/-- A list of values. -/
def list (items : List Dump) : Dump :=
  node "" .square (items.map fun item => ("", item))

/-- The dump on one line. -/
def inline : Dump → String
  | atom text => text
  | node head brackets items =>
    if items.isEmpty then head ++ brackets.empty
    else
      head ++ brackets.opening
        ++ ", ".intercalate (items.attach.map fun item => item.1.1 ++ item.1.2.inline)
        ++ brackets.closing
decreasing_by
  have := List.sizeOf_lt_of_mem item.2
  have : sizeOf item.1 = 1 + sizeOf item.1.1 + sizeOf item.1.2 := rfl
  simp only [node.sizeOf_spec]
  omega

/-- The dump with one field a line, each line after the first indented by `margin` and four more. -/
def indentedBy (margin : Nat) : Dump → String
  | atom text => text
  | node head brackets items =>
    if items.isEmpty then head ++ brackets.empty
    else
      head ++ brackets.openingLine
        ++ String.join (items.attach.map fun item =>
          Text.spaces (margin + 4) ++ item.1.1 ++ item.1.2.indentedBy (margin + 4) ++ ",\n")
        ++ Text.spaces margin ++ brackets.closingLine
decreasing_by
  have := List.sizeOf_lt_of_mem item.2
  have : sizeOf item.1 = 1 + sizeOf item.1.1 + sizeOf item.1.2 := rfl
  simp only [node.sizeOf_spec]
  omega

/-- The dump with one field a line. -/
def indented (dump : Dump) : String :=
  dump.indentedBy 0

end Dump

end ThreeAddress
