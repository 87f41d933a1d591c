import ThreeAddress.Program.Basic
import ThreeAddress.Text.Quoted

/-!
# Dumps of programs

The tree of a program as a dump, in which every constructor and field is named. The statements of a
block are numbered fields.

## Main definitions

* `Expr.dump`, `Stmt.dump` and `Program.dump`.
-/

namespace ThreeAddress

/-- A natural number in a dump. -/
def Dump.nat (n : Nat) : Dump :=
  .atom (Decimal.ofNat n)

/-- A span as a dump. -/
def Span.dump (span : Span) : Dump :=
  .record "Span" [("offset", .nat span.offset), ("len", .nat span.length)]

/-- A lexeme as a dump. -/
def Lexeme.dump (lexeme : Lexeme) : Dump :=
  .record "Source" [("span", lexeme.span.dump), ("source", .atom (Quoted.ofString lexeme.text))]

/-- An expression as a dump. -/
def Expr.dump : Expr → Dump
  | number value => .tuple "Number" [.atom (Decimal.ofWord value)]
  | name lexeme => .tuple "Identifier" [lexeme.dump]
  | binary op lhs rhs => .record "Binary" [("operator", op.dump), ("lhs", lhs.dump), ("rhs", rhs.dump)]

/-- The items as fields with the numbers from `first` on. -/
def Dump.numbered (first : Nat) : List Dump → List (String × Dump)
  | [] => []
  | item :: rest => (Decimal.ofNat first, item) :: Dump.numbered (first + 1) rest

mutual

/-- A statement as a dump. -/
def Stmt.dump : Stmt → Dump
  | .declare name init line =>
    .record "VarDecl" [("name", name.dump), ("init", init.dump), ("line", .nat line)]
  | .assign name value line =>
    .record "Assign" [("name", name.dump), ("value", value.dump), ("line", .nat line)]
  | .ifThen condition body line =>
    .record "If" [("condition", condition.dump), ("true_branch", body.dump),
      ("false_branch", .atom "None"), ("line", .nat line)]
  | .ifElse condition body otherwise line =>
    .record "If" [("condition", condition.dump), ("true_branch", body.dump),
      ("false_branch", .tuple "Some" [otherwise.dump]), ("line", .nat line)]
  | .loop condition body line =>
    .record "While" [("condition", condition.dump), ("body", body.dump), ("line", .nat line)]
  | .block body => .tuple "Block" [.record "Block" (Dump.numbered 0 (Stmt.dumps body))]

/-- The statements of a sequence as dumps. -/
def Stmt.dumps : List Stmt → List Dump
  | [] => []
  | s :: rest => s.dump :: Stmt.dumps rest

end

/-- A program as a dump. -/
def Program.dump (program : Program) : Dump :=
  .tuple "Program" [.list (Stmt.dumps program)]

end ThreeAddress
