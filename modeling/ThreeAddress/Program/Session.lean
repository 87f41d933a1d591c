import ThreeAddress.Program.Grammar

/-!
# Parsing sessions

A session stands in a list of tokens at some nesting depth and answers one call after another. A failed
call leaves it at the token where the rule stopped, and as deep as the rule had come.

## Main definitions

* `Session` is the state of a session, `Call` what it can be asked, and `Answer` what it yields.
* `Session.apply` applies a rule of the grammar, and `Session.perform` answers a call.
-/

namespace ThreeAddress

/-- The state of a session: the tokens that are left, and the nesting depth. -/
structure Session where
  site : Site
  rest : List Token
  depth : Nat

/-- What a session can be asked: to handle one token, to change its depth, to read a part of a program,
or to make another call one level deeper or within a context. -/
inductive Call where
  | accept
  | expect (kind : TokenKind)
  | eat (kind : TokenKind)
  | keyword (word : Keyword)
  | reject (description : String)
  | lexeme
  | enter (times : Nat)
  | leaveTo (depth : Nat)
  | program
  | statement
  | block
  | expression
  | identifier
  | nested (call : Call)
  | within (context : String) (call : Call)

/-- What a call that succeeds yields. -/
inductive Answer where
  | done
  | lexeme (lexeme : Lexeme)
  | expression (expr : Expr)
  | statement (stmt : Stmt)
  | program (program : Program)

namespace Session

/-- What a call comes to: a value or an error, and the session after it. -/
abbrev Outcome (α : Type) :=
  Except (Diagnostic ParseFault) α × Session

/-- The same outcome with another value. -/
def Outcome.map {α β : Type} (f : α → β) : Outcome α → Outcome β
  | (.ok a, s) => (.ok (f a), s)
  | (.error error, s) => (.error error, s)

/-- A session over a list of tokens of a source. -/
def ofTokens (source : Source) (tokens : List Token) : Session :=
  ⟨.ofTokens source tokens, tokens, 0⟩

/-- The kind of the next token. -/
def peek (s : Session) : TokenKind :=
  kindOf s.rest

/-- The line of the next token. -/
def line (s : Session) : Nat :=
  s.site.lineOf s.rest

/-- The lexeme of the next token. -/
def lexeme (s : Session) : Lexeme :=
  s.site.lexemeOf s.rest

/-- Applies a rule with the levels that are left as its budget. -/
def apply {α : Type} (s : Session) (rule : Nat → Rule α) : Outcome α :=
  match rule (maxNesting - s.depth) s.site s.rest with
  | .ok a rest => (.ok a, { s with rest := rest })
  | .fail error rest raised => (.error error, { s with rest := rest, depth := s.depth + raised })

/-- Goes one level deeper, unless that is too deep. -/
def enter (s : Session) : Outcome Unit :=
  if s.depth < maxNesting then (.ok (), { s with depth := s.depth + 1 }) else s.apply fun _ => .tooDeep

/-- Goes some levels deeper, and stops where it becomes too deep. -/
def enterTimes : Nat → Session → Outcome Unit
  | 0, s => (.ok (), s)
  | n + 1, s =>
    match s.enter with
    | (.ok (), s') => enterTimes n s'
    | (.error error, s') => (.error error, s')

/-- Answers a call. A nested call is made one level deeper, and comes back up whether it succeeds or
fails. -/
def perform : Call → Session → Outcome Answer
  | .accept, s => Outcome.map (fun _ => .done) (s.apply fun _ => .advance)
  | .expect kind, s => Outcome.map (fun _ => .done) (s.apply fun _ => .expect kind)
  | .eat kind, s => Outcome.map .lexeme (s.apply fun _ => .eat kind)
  | .keyword word, s => Outcome.map (fun _ => .done) (s.apply fun _ => .keyword word)
  | .reject description, s => s.apply fun _ => .reject (.description description)
  | .lexeme, s => (.ok (.lexeme s.lexeme), s)
  | .enter times, s => Outcome.map (fun _ => .done) (s.enterTimes times)
  | .leaveTo depth, s => (.ok .done, { s with depth := depth })
  | .program, s => Outcome.map .program (s.apply Program.rule)
  | .statement, s => Outcome.map .statement (s.apply Stmt.rule)
  | .block, s =>
    Outcome.map (fun body => .statement (.block body)) (s.apply fun budget => Block.rule (Stmt.rule budget))
  | .expression, s => Outcome.map .expression (s.apply Expr.rule)
  | .identifier, s => Outcome.map .lexeme (s.apply fun _ => .identifier)
  | .nested call, s =>
    match s.enter with
    | (.ok (), inner) =>
      let (result, last) := perform call inner
      (result, { last with depth := s.depth })
    | (.error error, s') => (.error error, s')
  | .within context call, s =>
    match perform call s with
    | (.ok a, s') => (.ok a, s')
    | (.error error, s') => (.error (error.addContext context), s')

end Session

end ThreeAddress
