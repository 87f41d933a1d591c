import ThreeAddress.Diagnostic
import ThreeAddress.Text.Quoted
import ThreeAddress.Token.Munch

/-!
# From text to tokens

A cursor stands somewhere in a source and yields one token after another. It can be asked for the next
token, for all that are left, or be read as a stream that ends at the first failure.

## Main definitions

* `Cursor` is a place in a source; `Cursor.past` moves it across characters.
* `Cursor.next` yields the next token, the end, or a failure.
* `Cursor.scan` yields the tokens up to the end or the first failure, and `Cursor.tokens` all of them.
* `Source.tokenize` yields the tokens of a whole source.
* `TokenStream` is the stream of the tokens that are left.
-/

namespace ThreeAddress

/-- What can be wrong with a text: a character at which no token begins. -/
inductive LexFault where
  | unexpectedChar (char : Char) (position : Position)
deriving DecidableEq

/-- The text of a fault. -/
def LexFault.message : LexFault → String
  | unexpectedChar char position =>
    "unexpected character " ++ Quoted.ofChar char ++ " at line " ++ Decimal.ofNat position.line
      ++ ", column " ++ Decimal.ofNat position.col

/-- A place in a source: the characters from there on, and where they begin. -/
structure Cursor where
  source : Source
  rest : List Char
  offset : Nat
  position : Position

namespace Cursor

/-- The cursor at the beginning of a source. -/
def ofSource (source : Source) : Cursor :=
  ⟨source, source.chars, 0, .start⟩

/-- The cursor behind the characters `passed`, which are the next ones. -/
def past (c : Cursor) (passed : List Char) : Cursor :=
  { c with
    rest := c.rest.drop passed.length
    offset := c.offset + byteLength passed
    position := passed.foldl Position.after c.position }

/-- The cursor behind the blanks and comments. -/
def skipTrivia (c : Cursor) : Cursor :=
  c.past (leadingTrivia c.rest)

/-- The token of the given kind whose characters are the next ones. -/
def tokenOf (c : Cursor) (kind : TokenKind) (literal : List Char) : Token :=
  ⟨kind, ⟨String.ofList literal, ⟨c.offset, byteLength literal⟩⟩, c.position⟩

/-- The failure at `char`, which is the next character. -/
def unexpected (c : Cursor) (char : Char) : Diagnostic LexFault :=
  .locatedAt (.unexpectedChar char c.position) ⟨c.offset, 1⟩ c.source

/-- The next token, or none at the end of the source. A failure leaves the cursor before the character
that begins no token, except that an exclamation mark is passed. -/
def next (c : Cursor) : Except (Diagnostic LexFault) (Option Token) × Cursor :=
  let here := c.skipTrivia
  match munch? here.rest, here.rest with
  | some (kind, literal), _ => (.ok (some (here.tokenOf kind literal)), here.past literal)
  | none, [] => (.ok none, here)
  | none, char :: _ => (.error (here.unexpected char), if char = '!' then here.past ['!'] else here)

@[simp] theorem rest_past (c : Cursor) (passed : List Char) :
    (c.past passed).rest = c.rest.drop passed.length := rfl

/-- Two moves are one move. -/
theorem past_past (c : Cursor) (xs ys : List Char) : (c.past xs).past ys = c.past (xs ++ ys) := by
  simp [past, List.drop_drop, Nat.add_assoc]

/-- A token takes at least one character off the source. -/
theorem length_rest_lt_of_next {c c' : Cursor} {t : Token} (h : c.next = (.ok (some t), c')) :
    c'.rest.length < c.rest.length := by
  simp only [next] at h
  split at h
  next kind literal hm =>
    have pos := length_pos_of_munch? hm
    have fits : c.skipTrivia.rest ≠ [] := by
      intro hnil
      simp [hnil, munch?] at hm
    have shrinks : c.skipTrivia.rest.length ≤ c.rest.length := by
      simp [skipTrivia]
    have : 0 < c.skipTrivia.rest.length := List.length_pos_iff.2 fits
    cases h
    simp only [rest_past, List.length_drop]
    omega
  · cases h
  · cases h

/-- The tokens up to the end or the first failure; then the cursor at the end, or the failure. -/
def scan (c : Cursor) : List Token × Except (Diagnostic LexFault) Cursor :=
  match _h : c.next with
  | (.ok (some t), c') =>
    let later := c'.scan
    (t :: later.1, later.2)
  | (.ok none, c') => ([], .ok c')
  | (.error e, _) => ([], .error e)
termination_by c.rest.length
decreasing_by exact length_rest_lt_of_next _h

/-- The token for the end of the input, where a cursor at the end stands. -/
def endToken (c : Cursor) : Token :=
  c.tokenOf .eof []

/-- All tokens that are left, the end of the input as the last one. -/
def tokens (c : Cursor) : Except (Diagnostic LexFault) (List Token) :=
  match c.scan with
  | (ts, .ok last) => .ok (ts ++ [last.endToken])
  | (_, .error e) => .error e

end Cursor

/-- All tokens of a source, the end of the input as the last one. -/
def Source.tokenize (source : Source) : Except (Diagnostic LexFault) (List Token) :=
  (Cursor.ofSource source).tokens

/-- The tokens that are left, one at a time; a stream that has ended stays ended. -/
structure TokenStream where
  cursor : Cursor
  ended : Bool

namespace TokenStream

/-- The stream of the tokens from a cursor on. -/
def ofCursor (cursor : Cursor) : TokenStream :=
  ⟨cursor, false⟩

/-- The next token or failure; the stream ends at the first failure, or with the input. -/
def next (s : TokenStream) : Option (Except (Diagnostic LexFault) Token) × TokenStream :=
  if s.ended then (none, s)
  else
    match s.cursor.next with
    | (.ok (some t), c) => (some (.ok t), ⟨c, false⟩)
    | (.ok none, c) => (none, ⟨c, true⟩)
    | (.error e, c) => (some (.error e), ⟨c, true⟩)

end TokenStream

end ThreeAddress
