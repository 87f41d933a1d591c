import ThreeAddress.Program.Session

/-!
# Recursive descent

The grammar as actions that go down and come back up in a session. The depth is a part of the state:
`enter` raises it where that is allowed, `leaveTo` sets it, and nothing else changes it. A chain of
operators enters once for each of them and leaves at its end, so an error on the way leaves it raised.

The loops go on for as long as the tokens tell them to. An action is given a number of rounds and of
calls of itself, and is cut off if they do not suffice.

## Main definitions

* `Descent` is an action in a session that can be cut off.
* `Descent.enter`, `Descent.leaveTo` and `Descent.nested` keep account of the depth.
* `Descent.expression`, `Descent.statement`, `Descent.block` and `Descent.program` read the parts of a
  program, and `Call.descend` answers a call.
-/

namespace ThreeAddress

/-- An action in a session: what it comes to, or nothing if it is cut off before its end. -/
def Descent (α : Type) :=
  Session → Option (Session.Outcome α)

namespace Descent

variable {α β : Type}

instance : Monad Descent where
  pure a := fun s => some (.ok a, s)
  bind action next := fun s =>
    match action s with
    | some (.ok a, s') => next a s'
    | some (.error error, s') => some (.error error, s')
    | none => none

theorem pure_apply (a : α) (s : Session) : (pure a : Descent α) s = some (.ok a, s) := rfl

theorem bind_apply (action : Descent α) (next : α → Descent β) (s : Session) :
    (action >>= next) s =
      match action s with
      | some (.ok a, s') => next a s'
      | some (.error error, s') => some (.error error, s')
      | none => none := rfl

/-! ## The state -/

/-- Has no end. -/
def cutOff : Descent α := fun _ => none

/-- The kind of the next token. -/
def peek : Descent TokenKind := fun s => some (.ok s.peek, s)

/-- The line of the next token. -/
def line : Descent Nat := fun s => some (.ok s.line, s)

/-- The lexeme of the next token. -/
def lexeme : Descent Lexeme := fun s => some (.ok s.lexeme, s)

/-- The nesting depth. -/
def depth : Descent Nat := fun s => some (.ok s.depth, s)

/-- Goes past the next token, if there is one. -/
def accept : Descent Unit := fun s => some (.ok (), { s with rest := s.rest.tail })

/-- Goes down or up to a depth. -/
def leaveTo (depth : Nat) : Descent Unit := fun s => some (.ok (), { s with depth := depth })

/-- Ends with a value or an error. -/
def conclude (result : Except (Diagnostic ParseFault) α) : Descent α := fun s => some (result, s)

/-- The same action, whose value or error is the value. -/
def attempt (action : Descent α) : Descent (Except (Diagnostic ParseFault) α) := fun s =>
  (action s).map fun outcome => (.ok outcome.1, outcome.2)

/-- The same action, whose errors interrupt the activity `context`. -/
def within (context : String) (action : Descent α) : Descent α := fun s =>
  match action s with
  | some (.error error, s') => some (.error (error.addContext context), s')
  | outcome => outcome

/-! ## Single tokens -/

/-- Fails at the beginning of a span. -/
def failAt (span : Span) (fault : ParseFault) : Descent α := fun s =>
  some (.error (.locatedAt fault span s.site.source), s)

/-- Fails at the next token, which is not what was wanted. -/
def reject (wanted : Wanted) : Descent α := do
  failAt (← lexeme).span (.expected wanted (← peek) (← line))

/-- Checks that the next token is of the given kind. -/
def expect (kind : TokenKind) : Descent Unit := do
  if (← peek) = kind then return () else reject (.kind kind)

/-- Goes past a token of the given kind, and yields its lexeme. -/
def eat (kind : TokenKind) : Descent Lexeme := do
  expect kind
  let here ← lexeme
  accept
  return here

/-- Goes past a keyword. -/
def keyword (word : Keyword) : Descent Unit :=
  within "parsing keyword" do
    discard (eat (.keyword word))

/-- A name. -/
def identifier : Descent Lexeme :=
  within "parsing identifier" (eat .identifier)

/-! ## Levels -/

/-- Goes one level deeper, unless that is too deep. -/
def enter : Descent Unit := do
  let outer ← depth
  if maxNesting ≤ outer then failAt (← lexeme).span (.nestingTooDeep (← line))
  else leaveTo (outer + 1)

/-- Goes some levels deeper, and stops where it becomes too deep. -/
def enterTimes : Nat → Descent Unit
  | 0 => return ()
  | n + 1 => do
    enter
    enterTimes n

/-- The same action one level deeper. It comes back up whether it succeeds or fails. -/
def nested (action : Descent α) : Descent α := do
  let outer ← depth
  enter
  let result ← attempt action
  leaveTo outer
  conclude result

/-! ## Expressions -/

/-- The loop over the operators of a level that has come to `lhs`, where `next` is what they combine.
Each operator nests the expression so far one level deeper. -/
def links (level : Level) (next : Descent Expr) : Nat → Expr → Descent Expr
  | 0, _ => cutOff
  | rounds + 1, lhs => do
    match level.operator? (← peek) with
    | none => return lhs
    | some op =>
      enter
      accept
      let rhs ← next
      links level next rounds (.binary op lhs rhs)

/-- A chain of operators of a level. -/
def chain (level : Level) (rounds : Nat) (next : Descent Expr) : Descent Expr := do
  let outer ← depth
  let first ← next
  let folded ← links level next rounds first
  leaveTo outer
  return folded

/-- A number, a name, or an expression `inside` of parentheses. -/
def primary (inside : Descent Expr) : Descent Expr :=
  within "parsing primary expression" do
    match ← peek with
    | .openParen =>
      accept
      let inner ← nested inside
      discard (within "as the end of the expression" (eat .closeParen))
      return inner
    | .number =>
      let here ← lexeme
      let line ← line
      match Decimal.word? here.text.toList with
      | some word =>
        accept
        return .number word
      | none => failAt here.span (.integerOutOfRange here.text line)
    | .identifier =>
      let here ← lexeme
      accept
      return .name here
    | _ => reject (.description "open paren, identifier or number")

/-- Comparisons of sums of products, where `fuel` suffices for as many tokens less one. -/
def comparison : Nat → Descent Expr
  | 0 => cutOff
  | fuel + 1 =>
    chain .comparison (fuel + 1) <| chain .term (fuel + 1) <| chain .factor (fuel + 1) <|
      primary (comparison fuel)

/-- An expression. -/
def expression (fuel : Nat) : Descent Expr :=
  within "parsing expression" (comparison fuel)

/-! ## Statements -/

/-- A name, an equals sign, an expression and a semicolon. -/
def assignment (fuel : Nat) : Descent (Lexeme × Expr) := do
  let name ← identifier
  discard (eat (.operator .equals false))
  let value ← expression fuel
  discard (eat .semicolon)
  return (name, value)

/-- An expression in parentheses, as the condition of a statement. -/
def condition (fuel : Nat) : Descent Expr :=
  within "parsing condition" do
    discard (eat .openParen)
    let condition ← expression fuel
    discard (eat .closeParen)
    return condition

/-- The loop over statements up to a token of a kind to stop at, which has come to `body`. -/
def statements (stop : TokenKind → Bool) (statement : Descent Stmt) :
    Nat → List Stmt → Descent (List Stmt)
  | 0, _ => cutOff
  | rounds + 1, body => do
    if stop (← peek) then return body
    else
      let next ← statement
      statements stop statement rounds (body ++ [next])

/-- Statements in braces. A block that is not closed ends with the input. -/
def block (rounds : Nat) (statement : Descent Stmt) : Descent (List Stmt) :=
  within "parsing statement block" do
    discard (eat .openBrace)
    let body ← statements (fun kind => kind = .closeBrace || kind = .eof) statement rounds []
    discard (eat .closeBrace)
    return body

/-- The inside of a statement, where `statement` reads the statements in it. -/
def statementBody (fuel : Nat) (statement : Descent Stmt) : Descent Stmt := do
  let line ← line
  match ← peek with
  | .keyword .kwVar =>
    keyword .kwVar
    let (name, init) ← assignment fuel
    return .declare name init line
  | .identifier =>
    let (name, value) ← assignment fuel
    return .assign name value line
  | .keyword .kwIf =>
    keyword .kwIf
    within "parsing if statement" do
      let condition ← condition fuel
      let body ← statement
      if (← peek) = .keyword .kwElse then
        keyword .kwElse
        let otherwise ← statement
        return .ifElse condition body otherwise line
      else return .ifThen condition body line
  | .keyword .kwWhile =>
    keyword .kwWhile
    within "parsing while loop" do
      let condition ← condition fuel
      let body ← statement
      return .loop condition body line
  | .openBrace => return .block (← block fuel statement)
  | _ => reject (.description "statement")

/-- A statement, where `fuel` suffices for as many tokens less one. -/
def statement : Nat → Descent Stmt
  | 0 => cutOff
  | fuel + 1 => within "parsing statement" (nested (statementBody (fuel + 1) (statement fuel)))

/-- Statements up to the end of the input. -/
def program (fuel : Nat) : Descent Program :=
  statements (fun kind => kind = .eof) (statement fuel) fuel []

end Descent

/-- Answers a call by recursive descent. -/
def Call.descend (fuel : Nat) : Call → Descent Answer
  | .accept => do
    Descent.accept
    return .done
  | .expect kind => do
    Descent.expect kind
    return .done
  | .eat kind => return .lexeme (← Descent.eat kind)
  | .keyword word => do
    Descent.keyword word
    return .done
  | .reject description => Descent.reject (.description description)
  | .lexeme => return .lexeme (← Descent.lexeme)
  | .enter times => do
    Descent.enterTimes times
    return .done
  | .leaveTo depth => do
    Descent.leaveTo depth
    return .done
  | .program => return .program (← Descent.program fuel)
  | .statement => return .statement (← Descent.statement fuel)
  | .block => return .statement (.block (← Descent.block fuel (Descent.statement fuel)))
  | .expression => return .expression (← Descent.expression fuel)
  | .identifier => return .lexeme (← Descent.identifier)
  | .nested call => Descent.nested (call.descend fuel)
  | .within context call => Descent.within context (call.descend fuel)

end ThreeAddress
