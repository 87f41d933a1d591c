import ThreeAddress.Proofs.Text.Place

/-!
# Snippets

The line that a diagnostic shows is looked up by the offset of a byte. There is one just for the
offsets between two characters of the text, its two ends included; and then line, column and the
text of the line follow from the characters before the offset and those behind it.

## Main definitions

* `Position.behind_eq`: a counted position, told by the line feeds and the last line.
* `Position.behind_inj`: a position tells the place in a text.
* `Source.locate?_eq_some_iff`: what is found for an offset, told by a place of the text.
* `Source.isValid_iff`: places are the boundaries of characters.
* `Source.locate_exact`: what is found for every offset.
-/

namespace ThreeAddress

/-- The lines behind some characters are counted by their line feeds, the columns by what follows the
last of these. -/
theorem Position.behind_eq (before : List Char) :
    Position.behind before =
      ⟨1 + before.count '\n', 1 + (before.rtakeWhile (· != '\n')).length⟩ := by
  induction before using List.reverseRecOn with
  | nil => rfl
  | append_singleton before c ih =>
    have step : Position.behind (before ++ [c]) = (Position.behind before).after c := by
      simp [Position.behind]
    rw [step, ih, Position.after, List.rtakeWhile_concat, List.count_append]
    by_cases newline : c = '\n' <;> simp [newline, Nat.add_assoc]

/-- Every character leads on to another position. -/
theorem Position.eq_nil_of_behind_append {before passed : List Char}
    (same : behind (before ++ passed) = behind before) : passed = [] := by
  have here : behind (before ++ passed) = passed.foldl Position.after (behind before) :=
    List.foldl_append
  have newlines := congrArg Position.line same
  simp only [behind_eq, List.count_append] at newlines
  have within : '\n' ∉ passed := List.count_eq_zero.mp (by omega)
  rw [here, foldl_after_of_notMem within] at same
  have columns := congrArg Position.col same
  exact List.length_eq_zero_iff.mp (by simpa using columns)

/-- The position tells the place in a text. -/
theorem Position.behind_inj {before before' rest rest' : List Char}
    (text : before ++ rest = before' ++ rest') (same : behind before = behind before') :
    before = before' := by
  rcases List.prefix_or_prefix_of_prefix ⟨rest, text⟩ ⟨rest', rfl⟩ with ⟨passed, rfl⟩ | ⟨passed, rfl⟩
  · rw [eq_nil_of_behind_append same.symm, List.append_nil]
  · rw [eq_nil_of_behind_append same, List.append_nil]

/-- The length in bytes is that of the text. -/
theorem utf8ByteSize_ofList (cs : List Char) : (String.ofList cs).utf8ByteSize = byteLength cs := by
  induction cs with
  | nil => rfl
  | cons c cs ih =>
    rw [byteLength, ← ih, ← List.singleton_append, String.ofList_append, String.utf8ByteSize_append]
    simp

/-- Where something is found among lines, the offset is that of a place in their text. -/
theorem exists_of_locateFrom? {line offset : Nat} {ls : List (List Char)} {s : Snippet}
    (found : locateFrom? line ls offset = some s) :
    ∃ before rest, List.intercalate ['\n'] ls = before ++ rest ∧ byteLength before = offset := by
  induction ls generalizing line offset with
  | nil => simp [locateFrom?] at found
  | cons here others ih =>
    rw [locateFrom?] at found
    split at found
    next within =>
      obtain ⟨count, found, -⟩ := Option.map_eq_some_iff.mp found
      obtain ⟨before, rest, rfl, bytes, -⟩ := charsBefore?_eq_some_iff.mp found
      refine ⟨before, ?_⟩
      cases others <;> simp [bytes]
    next past =>
      have others_ne_nil : others ≠ [] := by
        rintro rfl
        simp [locateFrom?] at found
      obtain ⟨before, rest, text, bytes⟩ := ih found
      refine ⟨here ++ '\n' :: before, rest, ?_, ?_⟩
      · rw [List.intercalate_cons_of_ne_nil others_ne_nil, text]
        simp
      · have one : ('\n').utf8Size = 1 := by decide
        simp only [byteLength_append, byteLength, one]
        omega

namespace Source

variable (source : Source)

variable {source} in
/-- What is found for an offset is the line around the place with that offset, and the position that
leads there. -/
theorem locate?_eq_some_iff {offset : Nat} {s : Snippet} :
    source.locate? offset = some s ↔
      ∃ before rest, source.chars = before ++ rest ∧ byteLength before = offset ∧
        s = ⟨.behind before, String.ofList (lineAround before rest)⟩ := by
  constructor
  · intro found
    obtain ⟨before, rest, text, rfl⟩ := exists_of_locateFrom? found
    rw [intercalate_lines] at text
    rw [locate?_of_chars text, Option.some_inj] at found
    exact ⟨before, rest, text, rfl, found.symm⟩
  · rintro ⟨before, rest, text, rfl, rfl⟩
    exact locate?_of_chars text

variable {source} in
/-- No two offsets are found at one position. -/
theorem locate?_inj {offset offset' : Nat} {s s' : Snippet} (found : source.locate? offset = some s)
    (found' : source.locate? offset' = some s') (same : s.position = s'.position) :
    offset = offset' := by
  obtain ⟨before, rest, text, rfl, rfl⟩ := locate?_eq_some_iff.mp found
  obtain ⟨before', rest', text', rfl, rfl⟩ := locate?_eq_some_iff.mp found'
  rw [Position.behind_inj (text.symm.trans text') same]

/-- The places of a text are the boundaries of its characters. -/
theorem isValid_iff (offset : Nat) :
    String.Pos.Raw.IsValid source.text ⟨offset⟩ ↔
      ∃ before rest, source.chars = before ++ rest ∧ byteLength before = offset := by
  rw [String.Pos.Raw.isValid_iff_exists_take_toList]
  simp only [utf8ByteSize_ofList]
  constructor
  · rintro ⟨count, bytes⟩
    exact ⟨_, _, (List.take_append_drop count source.chars).symm, bytes.symm⟩
  · rintro ⟨before, rest, text, bytes⟩
    refine ⟨before.length, ?_⟩
    rw [chars] at text
    rw [text, List.take_left, bytes]

/-- Every offset is located. Something is found just for the boundaries of characters up to the end of
the text. Its line is one more than the line feeds before the offset, its column one more than the
characters behind the last of these, and its text what lies between two line feeds around the offset. -/
theorem locate_exact (offset : Nat) :
    ((source.locate? offset).isSome ↔
      offset ≤ source.text.utf8ByteSize ∧ String.Pos.Raw.IsValid source.text ⟨offset⟩) ∧
    ∀ s, source.locate? offset = some s ↔
      ∃ before rest, source.chars = before ++ rest ∧ byteLength before = offset ∧
        s.position.line = 1 + before.count '\n' ∧
        s.position.col = 1 + (before.rtakeWhile (· != '\n')).length ∧
        s.line = String.ofList (before.rtakeWhile (· != '\n') ++ rest.takeWhile (· != '\n')) := by
  constructor
  · simp only [isValid_iff, Option.isSome_iff_exists, locate?_eq_some_iff]
    constructor
    · rintro ⟨-, before, rest, text, rfl, -⟩
      have size : source.text.utf8ByteSize = byteLength before + byteLength rest := by
        rw [← byteLength_append, ← text, chars, ← utf8ByteSize_ofList, String.ofList_toList]
      exact ⟨by omega, before, rest, text, rfl⟩
    · rintro ⟨-, before, rest, text, bytes⟩
      exact ⟨_, before, rest, text, bytes, rfl⟩
  · rintro ⟨⟨line, col⟩, shown⟩
    simp only [locate?_eq_some_iff, Position.behind_eq, Snippet.mk.injEq, Position.mk.injEq,
      and_assoc, lineAround]

/-- Behind the last line feed is an empty line, and nothing is behind the end. -/
example : (⟨"a\n", none⟩ : Source).locate? 2 = some ⟨⟨2, 1⟩, ""⟩ ∧
    (⟨"a\n", none⟩ : Source).locate? 3 = none := by
  decide

end Source

end ThreeAddress
