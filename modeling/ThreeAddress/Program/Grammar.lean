import ThreeAddress.Program.Rule

/-!
# The grammar

One rule for each part of a program. A rule is given its budget, the number of levels that may still
be opened: a statement takes one, a parenthesis takes one, and each operator of a chain takes one until
the chain ends. Chains of operators of one level fold to the left.

## Main definitions

* `Expr.rule`, `Stmt.rule`, `Block.rule` and `Program.rule`.
* `Program.ofTokens` reads a whole list of tokens as a program.
-/

namespace ThreeAddress

open Rule

/-- A number: a literal that stands for no word is refused where it stands. -/
def Expr.literal : Rule Expr := do
  let here ← lexeme
  match Decimal.word? here.text.toList with
  | some word =>
    advance
    return .number word
  | none => failAt here.span (.integerOutOfRange here.text (← line))

mutual

/-- A number, a name, or an expression in parentheses. -/
def Expr.primary (budget : Nat) : Rule Expr :=
  within "parsing primary expression" do
    match ← peek with
    | .openParen =>
      advance
      let inner ←
        match budget with
        | 0 => tooDeep
        | budget + 1 => contain (Expr.chain budget .comparison)
      discard (within "as the end of the expression" (eat .closeParen))
      return inner
    | .number => Expr.literal
    | .identifier =>
      let here ← lexeme
      advance
      return .name here
    | _ => reject (.description "open paren, identifier or number")
termination_by 8 * budget
decreasing_by simp only [Level.rank]; omega

/-- What the operators of a level combine: a chain of the next tighter level. -/
def Expr.operand (budget : Nat) (level : Level) : Rule Expr :=
  match level with
  | .comparison => Expr.chain budget .term
  | .term => Expr.chain budget .factor
  | .factor => Expr.primary budget
termination_by 8 * budget + 2 * level.rank + 1
decreasing_by all_goals simp only [Level.rank]; omega

/-- Operands of a level with its operators between them. -/
def Expr.chain (budget : Nat) (level : Level) : Rule Expr := do
  let first ← Expr.operand budget level
  Expr.links budget level first
termination_by 8 * budget + 2 * level.rank + 2
decreasing_by all_goals omega

/-- The rest of a chain that has come to `lhs`. -/
def Expr.links (budget : Nat) (level : Level) (lhs : Expr) : Rule Expr := do
  match level.operator? (← peek) with
  | none => return lhs
  | some op =>
    match budget with
    | 0 => tooDeep
    | budget + 1 =>
      link do
        advance
        let rhs ← Expr.operand budget level
        Expr.links budget level (.binary op lhs rhs)
termination_by 8 * budget
decreasing_by
  · have := level.rank_le_two
    omega
  · omega

end

/-- An expression. -/
def Expr.rule (budget : Nat) : Rule Expr :=
  within "parsing expression" (Expr.chain budget .comparison)

/-- A name, an equals sign, an expression and a semicolon. -/
def Stmt.assignment (budget : Nat) : Rule (Lexeme × Expr) := do
  let name ← identifier
  discard (eat (.operator .equals false))
  let value ← Expr.rule budget
  discard (eat .semicolon)
  return (name, value)

/-- An expression in parentheses, as the condition of a statement. -/
def Stmt.condition (budget : Nat) : Rule Expr :=
  within "parsing condition" do
    discard (eat .openParen)
    let condition ← Expr.rule budget
    discard (eat .closeParen)
    return condition

/-- Statements in braces, where `statement` is the rule for each of them. -/
def Block.rule (statement : Rule Stmt) : Rule (List Stmt) :=
  within "parsing statement block" do
    discard (eat .openBrace)
    let body ← many (fun kind => kind = .closeBrace || kind = .eof) statement
    discard (eat .closeBrace)
    return body

/-- The inside of a statement, where `statement` is the rule for the statements in it. An `else` belongs
to the nearest `if` before it. -/
def Stmt.body (budget : Nat) (statement : Rule Stmt) : Rule Stmt := do
  let line ← Rule.line
  match ← peek with
  | .keyword .kwVar =>
    keyword .kwVar
    let (name, init) ← assignment budget
    return .declare name init line
  | .identifier =>
    let (name, value) ← assignment budget
    return .assign name value line
  | .keyword .kwIf =>
    keyword .kwIf
    within "parsing if statement" do
      let condition ← condition budget
      let body ← statement
      if (← peek) = .keyword .kwElse then
        keyword .kwElse
        let otherwise ← statement
        return .ifElse condition body otherwise line
      else return .ifThen condition body line
  | .keyword .kwWhile =>
    keyword .kwWhile
    within "parsing while loop" do
      let condition ← condition budget
      let body ← statement
      return .loop condition body line
  | .openBrace => return .block (← Block.rule statement)
  | _ => reject (.description "statement")

/-- A statement, which takes one level of the budget for its inside. -/
def Stmt.rule : Nat → Rule Stmt
  | 0 => within "parsing statement" tooDeep
  | budget + 1 => within "parsing statement" (contain (Stmt.body budget (Stmt.rule budget)))

/-- Statements up to the end of the input. -/
def Program.rule (budget : Nat) : Rule Program :=
  many (fun kind => kind = .eof) (Stmt.rule budget)

/-- Reads all tokens of a source as a program. -/
def Program.ofTokens (source : Source) (tokens : List Token) : Except (Diagnostic ParseFault) Program :=
  match Program.rule maxNesting (.ofTokens source tokens) tokens with
  | .ok program _ => .ok program
  | .fail error _ _ => .error error

end ThreeAddress
