import ThreeAddress.Text.Blank
import ThreeAddress.Token.Basic

/-!
# The longest token

What a text begins with: the trivia that separate tokens, and the longest token. Both functions look
at characters alone; places are counted elsewhere.

## Main definitions

* `leadingTrivia` is the longest run of blanks and comments that a text begins with.
* `munch?` is the longest token that a text begins with.
-/

namespace ThreeAddress

/-- The trivia at the beginning of a text, where `inComment` tells that the text continues a comment.
A comment ends before the next line feed. -/
def triviaFrom (inComment : Bool) : List Char → List Char
  | [] => []
  | c :: cs =>
    if inComment then c :: triviaFrom (c ≠ '\n') cs
    else if Text.isBlank c then c :: triviaFrom false cs
    else if c = '/' && cs.head? = some '/' then c :: triviaFrom true cs
    else []

/-- The longest run of blanks and comments that a text begins with. -/
def leadingTrivia (cs : List Char) : List Char :=
  triviaFrom false cs

/-- A character that a name may begin with. -/
def startsName (c : Char) : Bool :=
  c.isAlpha || c = '_'

/-- A character that a name may go on with. -/
def continuesName (c : Char) : Bool :=
  c.isAlphanum || c = '_'

/-- The brackets and the semicolon, each a token by itself. -/
def delimiter? : Char → Option TokenKind
  | '{' => some .openBrace
  | '}' => some .closeBrace
  | '(' => some .openParen
  | ')' => some .closeParen
  | ';' => some .semicolon
  | _ => none

/-- The kind of a whole word: a keyword or a name. -/
def wordKind (word : List Char) : TokenKind :=
  match Keyword.ofName? (String.ofList word) with
  | some k => .keyword k
  | none => .identifier

/-- The operator that begins with the character `c` of `sign` and goes on with `rest`. An exclamation
mark alone is no operator. -/
def operatorAt? (sign : Sign) (c : Char) (rest : List Char) : Option (TokenKind × List Char) :=
  if sign.takesEqual && rest.head? = some '=' then some (.operator sign true, [c, '='])
  else if sign = .bang then none
  else some (.operator sign false, [c])

/-- The longest token that a text begins with, as its kind and its characters. -/
def munch? : List Char → Option (TokenKind × List Char)
  | [] => none
  | c :: rest =>
    if startsName c then
      let word := c :: rest.takeWhile continuesName
      some (wordKind word, word)
    else if c.isDigit then some (.number, c :: rest.takeWhile Char.isDigit)
    else
      match delimiter? c, Sign.ofChar? c with
      | some kind, _ => some (kind, [c])
      | none, some sign => operatorAt? sign c rest
      | none, none => none

/-- A token has at least one character. -/
theorem length_pos_of_munch? {cs : List Char} {kind : TokenKind} {literal : List Char}
    (h : munch? cs = some (kind, literal)) : 0 < literal.length := by
  cases cs with
  | nil => simp [munch?] at h
  | cons c rest =>
    simp only [munch?, operatorAt?] at h
    split at h
    · cases h; simp
    · split at h
      · cases h; simp
      · split at h
        · cases h; simp
        · split at h
          · cases h; simp
          · split at h
            · cases h
            · cases h; simp
        · cases h

end ThreeAddress
