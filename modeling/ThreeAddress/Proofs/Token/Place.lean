import ThreeAddress.Proofs.Text.Place
import ThreeAddress.Proofs.Token.Trivia
import ThreeAddress.Proofs.Token.Cursor
import Mathlib.Logic.Function.Iterate

/-!
# Where a cursor stands

A cursor keeps three accounts of the place that it has come to: the characters that are left, the
byte offset, and the position of line and column. They tell of one place, whatever was asked of the
cursor before, also when it went on after a failure.

## Main definitions

* `Cursor.Stands` says that the accounts of a cursor tell of the place behind some characters.
* `Source.cursorAfter` is the cursor after some calls for the next token.
* `Source.stands_cursorAfter`: the accounts never disagree.
-/

namespace ThreeAddress

namespace Cursor

variable {c : Cursor} {before passed rest : List Char}

/-- The cursor stands behind the characters `before` of its source, by all of its accounts. -/
structure Stands (c : Cursor) (before : List Char) : Prop where
  text : c.source.chars = before ++ c.rest
  offset : c.offset = byteLength before
  position : c.position = .behind before

theorem stands_ofSource (source : Source) : (ofSource source).Stands [] :=
  ⟨rfl, rfl, rfl⟩

@[simp] theorem source_past (c : Cursor) (passed : List Char) : (c.past passed).source = c.source := rfl

@[simp] theorem offset_past (c : Cursor) (passed : List Char) :
    (c.past passed).offset = c.offset + byteLength passed := rfl

/-- A cursor that goes past its next characters stands behind them. -/
theorem Stands.past (h : c.Stands before) (goes : c.rest = passed ++ rest) :
    (c.past passed).Stands (before ++ passed) where
  text := by rw [source_past, rest_past, h.text, goes, List.drop_left, List.append_assoc]
  offset := by rw [offset_past, h.offset, byteLength_append]
  position := by
    rw [Position.behind, List.foldl_append, ← Position.behind, ← h.position]
    rfl

/-- Between the places of a cursor lies the text that it went past, and behind each of them the text
that it has left. -/
theorem Stands.slice?_past (h : c.Stands before) (goes : c.rest = passed ++ rest) :
    c.source.slice? c.offset (c.past passed).offset = some passed ∧
      c.source.slice? c.offset c.source.size = some c.rest := by
  constructor
  · rw [offset_past, h.offset]
    exact Source.slice?_of_chars (by rw [h.text, goes])
  · exact Source.slice?_size_eq_some_iff.mpr ⟨before, h.text, h.offset.symm⟩

/-! ## The next token -/

/-- The trivia that a cursor skips are all trivia in front of it. -/
theorem skipTrivia_spec (c : Cursor) :
    c.rest = leadingTrivia c.rest ++ c.skipTrivia.rest ∧
      Trivia c.skipTrivia.rest (leadingTrivia c.rest) ∧ ¬BeginsTrivia c.skipTrivia.rest :=
  trivia_leadingTrivia c.rest

theorem Stands.skipTrivia (h : c.Stands before) :
    c.skipTrivia.Stands (before ++ leadingTrivia c.rest) :=
  h.past c.skipTrivia_spec.1

theorem next_of_munch? {kind : TokenKind} {literal : List Char}
    (h : munch? c.skipTrivia.rest = some (kind, literal)) :
    c.next = (.ok (some (c.skipTrivia.tokenOf kind literal)), c.skipTrivia.past literal) := by
  simp only [next, h]

theorem next_of_rest_nil (h : c.skipTrivia.rest = []) : c.next = (.ok none, c.skipTrivia) := by
  simp only [next, h, munch?]

theorem next_of_unexpected {char : Char} (h : c.skipTrivia.rest = char :: rest)
    (stuck : munch? (char :: rest) = none) :
    c.next = (.error (c.skipTrivia.unexpected char),
      if char = '!' then c.skipTrivia.past ['!'] else c.skipTrivia) := by
  simp only [next, h, stuck]

/-- Whatever comes next, the cursor goes past some of the characters that are left. -/
theorem exists_next_eq_past (c : Cursor) :
    ∃ passed rest, c.rest = passed ++ rest ∧ c.next.2 = c.past passed := by
  obtain ⟨skips, -, -⟩ := c.skipTrivia_spec
  cases munched : munch? c.skipTrivia.rest with
  | some found =>
    obtain ⟨rest, behind⟩ := (hasText_of_munch? munched).1
    refine ⟨leadingTrivia c.rest ++ found.2, rest, by rw [List.append_assoc, behind, ← skips], ?_⟩
    rw [next_of_munch? munched]
    exact past_past ..
  | none =>
    cases left : c.skipTrivia.rest with
    | nil => exact ⟨leadingTrivia c.rest, _, skips, by rw [next_of_rest_nil left]; rfl⟩
    | cons char rest =>
      rw [left] at munched
      rw [next_of_unexpected left munched]
      by_cases lone : char = '!'
      · refine ⟨leadingTrivia c.rest ++ ['!'], rest, ?_, ?_⟩
        · rw [List.append_assoc, List.singleton_append, ← lone, ← left, ← skips]
        · rw [if_pos lone]
          exact past_past ..
      · exact ⟨leadingTrivia c.rest, _, skips, by rw [if_neg lone]; rfl⟩

end Cursor

/-- The cursor after `n` calls for the next token, whatever they came to. -/
def Source.cursorAfter (source : Source) (n : Nat) : Cursor :=
  (fun c => c.next.2)^[n] (Cursor.ofSource source)

theorem Source.cursorAfter_succ (source : Source) (n : Nat) :
    source.cursorAfter (n + 1) = (source.cursorAfter n).next.2 :=
  Function.iterate_succ_apply' ..

/-- The accounts that a cursor keeps of its place never disagree. -/
theorem Source.stands_cursorAfter (source : Source) (n : Nat) :
    ∃ before, (source.cursorAfter n).Stands before ∧ (source.cursorAfter n).source = source := by
  induction n with
  | zero => exact ⟨[], Cursor.stands_ofSource source, rfl⟩
  | succ n ih =>
    obtain ⟨before, stands, same⟩ := ih
    obtain ⟨passed, rest, goes, moved⟩ := (source.cursorAfter n).exists_next_eq_past
    rw [cursorAfter_succ, moved]
    exact ⟨before ++ passed, stands.past goes, same⟩

end ThreeAddress
