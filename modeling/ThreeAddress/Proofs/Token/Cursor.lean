import ThreeAddress.Token.Cursor

/-!
# What a cursor yields

The scan of a text, token by token. A cursor that yields some tokens and stands elsewhere then has
these tokens before those that are left there; so a scan can be followed along the text.

## Main definitions

* `Cursor.Yields c ts c'`: from `c`, the scan yields `ts` and goes on from `c'`.
* `Cursor.yields_of_munch?` and `Cursor.yields_text`: a token at the front of the text.
-/

namespace ThreeAddress

namespace Cursor

variable {c c' c'' : Cursor} {ts us : List Token}

/-- The scan from `c` yields the tokens and goes on with the scan from `c'`. -/
def Yields (c : Cursor) (ts : List Token) (c' : Cursor) : Prop :=
  c.scan = (ts ++ c'.scan.1, c'.scan.2)

theorem Yields.refl (c : Cursor) : c.Yields [] c := rfl

theorem Yields.trans (first : c.Yields ts c') (second : c'.Yields us c'') :
    c.Yields (ts ++ us) c'' := by
  rw [Yields, first, second, List.append_assoc]

/-- A token that comes next is yielded. -/
theorem yields_of_next {t : Token} (h : c.next = (.ok (some t), c')) : c.Yields [t] c' := by
  rw [Yields, scan]
  split
  next => simp_all
  next => simp_all
  next => simp_all

/-- Where the end comes next, the scan is over. -/
theorem scan_of_end (h : c.next = (.ok none, c')) : c.scan = ([], .ok c') := by
  rw [scan]
  split <;> simp_all

/-- Where a failure comes next, the scan has failed. -/
theorem scan_of_failure {error : Diagnostic LexFault} (h : c.next = (.error error, c')) :
    c.scan = ([], .error error) := by
  rw [scan]
  split <;> simp_all

theorem skipTrivia_of_solid (solid : leadingTrivia c.rest = []) : c.skipTrivia = c := by
  simp [skipTrivia, solid, past, byteLength]

/-- The longest token is yielded where no trivia come before it. -/
theorem yields_of_munch? {kind : TokenKind} {literal : List Char} (solid : leadingTrivia c.rest = [])
    (longest : munch? c.rest = some (kind, literal)) :
    c.Yields [c.tokenOf kind literal] (c.past literal) := by
  apply yields_of_next
  simp only [next, skipTrivia_of_solid solid, longest]

/-- A token of some characters is yielded, and the rest of the text is left. -/
theorem yields_text {literal rest : List Char} {kind : TokenKind} (h : c.rest = literal ++ rest)
    (solid : leadingTrivia (literal ++ rest) = [])
    (longest : munch? (literal ++ rest) = some (kind, literal)) :
    ∃ t c', c.Yields [t] c' ∧ t.kind = kind ∧ t.text.toList = literal ∧ c'.rest = rest := by
  rw [← h] at solid longest
  refine ⟨c.tokenOf kind literal, c.past literal, yields_of_munch? solid longest, rfl, ?_, ?_⟩
  · exact String.toList_ofList
  · simp [h]

/-- A token of one character is yielded, and the rest of the text is left. -/
theorem yields_char {char : Char} {rest : List Char} {kind : TokenKind} (h : c.rest = char :: rest)
    (solid : leadingTrivia (char :: rest) = [])
    (longest : munch? (char :: rest) = some (kind, [char])) :
    ∃ t c', c.Yields [t] c' ∧ t.kind = kind ∧ t.text.toList = [char] ∧ c'.rest = rest :=
  yields_text h solid longest

/-- Where the same comes next, the scans are the same. -/
theorem scan_congr (h : c.next = c'.next) : c.scan = c'.scan := by
  rcases item : c'.next with ⟨error | (_ | t), last⟩
  · rw [scan_of_failure item, scan_of_failure (h.trans item)]
  · rw [scan_of_end item, scan_of_end (h.trans item)]
  · exact Eq.trans (yields_of_next (h.trans item)) (Eq.symm (yields_of_next item))

/-- The scan of an empty text is over. -/
theorem scan_of_rest_nil (h : c.rest = []) : c.scan = ([], .ok c) := by
  have solid : leadingTrivia c.rest = [] := by
    rw [h]
    rfl
  apply scan_of_end
  simp only [next, skipTrivia_of_solid solid, h, munch?]

end Cursor

/-- The tokens of a source are what its scan yields, and the end of the input. -/
theorem Source.tokenize_of_yields {source : Source} {ts : List Token} {c : Cursor}
    (yields : (Cursor.ofSource source).Yields ts c) (left : c.rest = []) :
    source.tokenize = .ok (ts ++ [c.endToken]) := by
  rw [Cursor.Yields, Cursor.scan_of_rest_nil left, List.append_nil] at yields
  simp only [Source.tokenize, Cursor.tokens]
  rw [yields]

end ThreeAddress
