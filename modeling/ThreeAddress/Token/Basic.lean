import ThreeAddress.Text.Dump
import ThreeAddress.Text.Source

/-!
# Tokens

The words of the language: what kinds there are, what each is called in a message, and where a token
stands in its source.

## Main definitions

* `Keyword`, `Sign` and `TokenKind` are the kinds of tokens.
* `Lexeme` is a piece of the source with its span, and `Token` a lexeme of some kind.
* `TokenKind.describe` names a kind in a message, and `Token.render` shows a token in a log.
-/

namespace ThreeAddress

/-- The reserved words. -/
inductive Keyword where
  | kwVar
  | kwIf
  | kwElse
  | kwWhile
deriving DecidableEq

namespace Keyword

/-- The word itself. -/
def word : Keyword → String
  | kwVar => "var"
  | kwIf => "if"
  | kwElse => "else"
  | kwWhile => "while"

/-- The name of the keyword in a dump. -/
def label : Keyword → String
  | kwVar => "Var"
  | kwIf => "If"
  | kwElse => "Else"
  | kwWhile => "While"

/-- A name is reserved just if it is one of these four. -/
theorem exists_word_iff {name : String} :
    (∃ k : Keyword, k.word = name) ↔ name ∈ ["var", "if", "else", "while"] := by
  constructor
  · rintro ⟨k, rfl⟩
    cases k <;> simp [word]
  · simp only [List.mem_cons, List.not_mem_nil, or_false]
    rintro (rfl | rfl | rfl | rfl)
    · exact ⟨kwVar, rfl⟩
    · exact ⟨kwIf, rfl⟩
    · exact ⟨kwElse, rfl⟩
    · exact ⟨kwWhile, rfl⟩

/-- A dump shows the word with a capital letter. -/
theorem capitalize_word (k : Keyword) : k.word.capitalize = k.label := by
  cases k <;> decide

/-- The keyword that `name` spells, letter for letter. -/
def ofName? (name : String) : Option Keyword :=
  [kwVar, kwIf, kwElse, kwWhile].find? (·.word = name)

end Keyword

/-- The characters that begin an operator. -/
inductive Sign where
  | plus
  | minus
  | star
  | slash
  | bang
  | greater
  | less
  | equals
deriving DecidableEq

namespace Sign

/-- The character of the sign. -/
def char : Sign → Char
  | plus => '+'
  | minus => '-'
  | star => '*'
  | slash => '/'
  | bang => '!'
  | greater => '>'
  | less => '<'
  | equals => '='

/-- The name of the sign in a dump. -/
def label : Sign → String
  | plus => "Plus"
  | minus => "Minus"
  | star => "Star"
  | slash => "Slash"
  | bang => "ExclamationMark"
  | greater => "AngleRight"
  | less => "AngleLeft"
  | equals => "Equals"

/-- The sign that a character is. -/
def ofChar? (c : Char) : Option Sign :=
  [plus, minus, star, slash, bang, greater, less, equals].find? (·.char = c)

/-- The signs that form an operator of two characters with an equals sign behind them. -/
def takesEqual : Sign → Bool
  | equals | bang | less | greater => true
  | plus | minus | star | slash => false

end Sign

/-- The kinds of tokens; an operator is a sign, with or without an equals sign behind it. -/
inductive TokenKind where
  | openBrace
  | closeBrace
  | openParen
  | closeParen
  | number
  | identifier
  | keyword (word : Keyword)
  | semicolon
  | operator (sign : Sign) (withEqual : Bool)
  | eof
deriving DecidableEq

namespace TokenKind

/-- The text of an operator. -/
def operatorText (sign : Sign) (withEqual : Bool) : String :=
  String.ofList (if withEqual then [sign.char, '='] else [sign.char])

/-- What a token of the kind is called in a message. -/
def describe : TokenKind → String
  | openBrace => "opening brace '\x7b'"
  | closeBrace => "closing brace '\x7d'"
  | openParen => "opening parentheses '('"
  | closeParen => "closing parentheses ')'"
  | number => "number"
  | identifier => "identifier"
  | keyword k => "keyword `" ++ k.word ++ "`"
  | semicolon => "semicolon ';'"
  | operator sign withEqual => "operator `" ++ operatorText sign withEqual ++ "`"
  | eof => "end of input"

/-- The kind as a tree of constructors. -/
def dump : TokenKind → Dump
  | openBrace => .atom "OpenBrace"
  | closeBrace => .atom "CloseBrace"
  | openParen => .atom "OpenParen"
  | closeParen => .atom "CloseParen"
  | number => .atom "Number"
  | identifier => .atom "Identifier"
  | keyword k => .tuple "Keyword" [.atom k.label]
  | semicolon => .atom "Semicolon"
  | operator sign withEqual =>
    .record "Operator"
      [("kind", .atom sign.label), ("has_equal", .atom (if withEqual then "true" else "false"))]
  | eof => .atom "Eof"

/-- The parts of an operator; other kinds have none. -/
def operator? : TokenKind → Option (Sign × Bool)
  | operator sign withEqual => some (sign, withEqual)
  | _ => none

end TokenKind

/-- A piece of the source and the bytes it takes there. -/
structure Lexeme where
  text : String
  span : Span
deriving DecidableEq

/-- A lexeme of some kind, and where it begins. -/
structure Token where
  kind : TokenKind
  lexeme : Lexeme
  position : Position
deriving DecidableEq

namespace Token

/-- The text of the token, which is empty at the end of the input. -/
def text (t : Token) : String :=
  t.lexeme.text

/-- The line on which the token begins. -/
def line (t : Token) : Nat :=
  t.position.line

/-- The token as a line of a log: its position, kind and text, with tabs between. -/
def render (t : Token) : String :=
  if t.kind = .eof then t.position.render ++ "\tEOF"
  else t.position.render ++ "\t" ++ t.kind.dump.inline ++ "\t" ++ t.text

end Token

end ThreeAddress
