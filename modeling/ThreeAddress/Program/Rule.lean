import ThreeAddress.Diagnostic
import ThreeAddress.Program.Basic

/-!
# Grammar rules

A rule reads tokens from the front of a list and yields a value, or fails at some token. Rules compose
as a monad. Beyond the last token a rule sees the end of the input, on the line of the last token.

Nesting is limited. A rule that goes deeper is given fewer levels to go; a rule that fails tells how
many levels it had gone down without coming back.

## Main definitions

* `Rule` and its outcome `Reply`.
* `Rule.eat`, `Rule.reject` and `Rule.many` are the building blocks of a grammar.
* `Rule.link` and `Rule.contain` keep account of the levels that a failure leaves open.
-/

namespace ThreeAddress

/-- The deepest nesting of a program. Statements, parentheses and the links of a chain of operators
each go one level down. -/
def maxNesting : Nat :=
  200

/-- What a rule was looking for: a kind of token, or something described in words. -/
inductive Wanted where
  | kind (kind : TokenKind)
  | description (text : String)
deriving DecidableEq

/-- What can be wrong with a sequence of tokens, and on which line. -/
inductive ParseFault where
  | expected (wanted : Wanted) (found : TokenKind) (line : Nat)
  | integerOutOfRange (literal : String) (line : Nat)
  | nestingTooDeep (line : Nat)
deriving DecidableEq

/-- The words for what was looked for. -/
def Wanted.describe : Wanted → String
  | kind k => k.describe
  | description text => text

namespace ParseFault

/-- The text of a fault. -/
def message : ParseFault → String
  | expected wanted found line =>
    "expected " ++ wanted.describe ++ ", but found instead " ++ found.describe ++ " at line "
      ++ Decimal.ofNat line
  | integerOutOfRange literal line =>
    "integer literal " ++ literal ++ " is out of range at line " ++ Decimal.ofNat line
  | nestingTooDeep line =>
    "program nests deeper than " ++ Decimal.ofNat maxNesting ++ " levels at line " ++ Decimal.ofNat line

/-- The line of a fault. -/
def line : ParseFault → Nat
  | expected _ _ line | integerOutOfRange _ line | nestingTooDeep line => line

end ParseFault

/-- What a rule knows besides the tokens: their source, and the line of the last of them. -/
structure Site where
  source : Source
  lastLine : Nat

namespace Site

/-- The site of a whole list of tokens. -/
def ofTokens (source : Source) (tokens : List Token) : Site :=
  ⟨source, (tokens.getLast?.map Token.line).getD 1⟩

/-- The line of the first of the tokens. -/
def lineOf (site : Site) : List Token → Nat
  | [] => site.lastLine
  | t :: _ => t.line

/-- The lexeme of the first of the tokens: an empty one at the end of the source if there is none. -/
def lexemeOf (site : Site) : List Token → Lexeme
  | [] => ⟨"", ⟨site.source.size, 0⟩⟩
  | t :: _ => t.lexeme

end Site

/-- The kind of the first of the tokens. -/
def kindOf : List Token → TokenKind
  | [] => .eof
  | t :: _ => t.kind

/-- The outcome of a rule: a value and the tokens left, or an error, the tokens left at the failure, and
the number of levels that were open there. -/
inductive Reply (α : Type) where
  | ok (value : α) (rest : List Token)
  | fail (error : Diagnostic ParseFault) (rest : List Token) (raised : Nat)

/-- A rule of the grammar. -/
def Rule (α : Type) :=
  Site → List Token → Reply α

namespace Rule

variable {α β : Type}

instance : Monad Rule where
  pure a := fun _ ts => .ok a ts
  bind rule next := fun site ts =>
    match rule site ts with
    | .ok a rest => next a site rest
    | .fail error rest raised => .fail error rest raised

theorem pure_apply (a : α) (site : Site) (ts : List Token) :
    (pure a : Rule α) site ts = .ok a ts := rfl

theorem bind_apply (rule : Rule α) (next : α → Rule β) (site : Site) (ts : List Token) :
    (rule >>= next) site ts =
      match rule site ts with
      | .ok a rest => next a site rest
      | .fail error rest raised => .fail error rest raised := rfl

/-- The kind of the next token. -/
def peek : Rule TokenKind := fun _ ts =>
  .ok (kindOf ts) ts

/-- The line of the next token. -/
def line : Rule Nat := fun site ts =>
  .ok (site.lineOf ts) ts

/-- The lexeme of the next token. -/
def lexeme : Rule Lexeme := fun site ts =>
  .ok (site.lexemeOf ts) ts

/-- Goes past the next token, if there is one. -/
def advance : Rule Unit := fun _ ts =>
  .ok () ts.tail

/-- Fails at the beginning of a span. -/
def failAt (span : Span) (fault : ParseFault) : Rule α := fun site ts =>
  .fail (.locatedAt fault span site.source) ts 0

/-- Fails at the next token, which is not what was wanted. -/
def reject (wanted : Wanted) : Rule α := do
  failAt (← lexeme).span (.expected wanted (← peek) (← line))

/-- Fails at the next token, which would lie too deep. -/
def tooDeep : Rule α := do
  failAt (← lexeme).span (.nestingTooDeep (← line))

/-- Checks that the next token is of the given kind. -/
def expect (kind : TokenKind) : Rule Unit := do
  if (← peek) = kind then return () else reject (.kind kind)

/-- Goes past a token of the given kind, and yields its lexeme. -/
def eat (kind : TokenKind) : Rule Lexeme := do
  expect kind
  let here ← lexeme
  advance
  return here

/-- The same rule, whose failures interrupt the activity `context`. -/
def within (context : String) (rule : Rule α) : Rule α := fun site ts =>
  match rule site ts with
  | .ok a rest => .ok a rest
  | .fail error rest raised => .fail (error.addContext context) rest raised

/-- The same rule one level deeper; a failure leaves the level open. -/
def link (rule : Rule α) : Rule α := fun site ts =>
  match rule site ts with
  | .ok a rest => .ok a rest
  | .fail error rest raised => .fail error rest (raised + 1)

/-- The same rule, whose failures leave no level open. -/
def contain (rule : Rule α) : Rule α := fun site ts =>
  match rule site ts with
  | .ok a rest => .ok a rest
  | .fail error rest _ => .fail error rest 0

/-- Repeats `item` until the next token is of a kind to stop at. An item that takes no token is the last
one. -/
def many (stop : TokenKind → Bool) (item : Rule α) (site : Site) (ts : List Token) : Reply (List α) :=
  if stop (kindOf ts) then .ok [] ts
  else
    match item site ts with
    | .fail error rest raised => .fail error rest raised
    | .ok a rest =>
      if rest.length < ts.length then
        match many stop item site rest with
        | .ok later rest' => .ok (a :: later) rest'
        | .fail error rest' raised => .fail error rest' raised
      else .ok [a] rest
termination_by ts.length

/-- Goes past a keyword. -/
def keyword (word : Keyword) : Rule Unit :=
  within "parsing keyword" do
    discard (eat (.keyword word))

/-- A name. -/
def identifier : Rule Lexeme :=
  within "parsing identifier" (eat .identifier)

end Rule

end ThreeAddress
