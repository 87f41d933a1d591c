import ThreeAddress.Program.Operator

/-!
# Programs

The tree of a program. A name keeps its lexeme, so that it can be found in the source again, and a
statement keeps the line of its first token.

## Main definitions

* `Expr`, `Stmt` and `Program`.
-/

namespace ThreeAddress

/-- An expression. -/
inductive Expr where
  | number (value : Int64)
  | name (lexeme : Lexeme)
  | binary (op : Operator) (lhs rhs : Expr)
deriving DecidableEq

/-- A statement, with the line of its first token. -/
inductive Stmt where
  | declare (name : Lexeme) (init : Expr) (line : Nat)
  | assign (name : Lexeme) (value : Expr) (line : Nat)
  | ifThen (condition : Expr) (body : Stmt) (line : Nat)
  | ifElse (condition : Expr) (body otherwise : Stmt) (line : Nat)
  | loop (condition : Expr) (body : Stmt) (line : Nat)
  | block (body : List Stmt)

/-- A sequence of statements. -/
abbrev Program := List Stmt

end ThreeAddress
