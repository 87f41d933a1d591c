import ThreeAddress.Text.Source
import Mathlib.Data.List.DropRight

/-!
# Places in a text

A place in a text is told by the characters before it. These have a length in bytes, which is the
offset of the place, and they lead to a position of line and column when they are counted one after
another. Looking an offset up finds the same position; so offsets and counted positions never
disagree.

## Main definitions

* `Position.behind` is the position behind some characters, counted from the beginning of a text.
* `Source.slice?` is the piece of a text between two byte offsets.
* `Source.slice?_eq_some_iff`: the pieces are what a text is made of.
* `lineAround` is the line that a place of a text lies in.
* `Source.locate?_of_chars`: what is found for the offset of a place is its line and the counted
  position.
-/

namespace ThreeAddress

/-! ## Characters and bytes -/

theorem eq_nil_of_byteLength {cs : List Char} (h : byteLength cs = 0) : cs = [] := by
  cases cs with
  | nil => rfl
  | cons c cs =>
    have := c.utf8Size_pos
    simp only [byteLength] at h
    omega

/-- The characters before a place are found by their length in bytes. -/
theorem charsBefore?_append (before rest : List Char) :
    charsBefore? (before ++ rest) (byteLength before) = some before.length := by
  induction before with
  | nil => simp [byteLength, charsBefore?]
  | cons c cs ih =>
    obtain ⟨n, size⟩ := Nat.exists_eq_succ_of_ne_zero (Nat.ne_of_gt c.utf8Size_pos)
    have offset : byteLength (c :: cs) = n + byteLength cs + 1 := by
      simp only [byteLength]
      omega
    have left : n + byteLength cs + 1 - c.utf8Size = byteLength cs := by omega
    rw [offset, List.cons_append, charsBefore?, if_pos (by omega), left, ih]
    simp

/-- An offset is found just if it is the length of the characters before some place. -/
theorem charsBefore?_eq_some_iff {cs : List Char} {offset count : Nat} :
    charsBefore? cs offset = some count ↔
      ∃ before rest, cs = before ++ rest ∧ byteLength before = offset ∧ before.length = count := by
  constructor
  · intro found
    induction cs, offset using charsBefore?.induct generalizing count with
    | case1 cs =>
      rw [charsBefore?, Option.some_inj] at found
      exact ⟨[], cs, rfl, rfl, found⟩
    | case2 => simp [charsBefore?] at found
    | case3 c cs offset fits ih =>
      rw [charsBefore?, if_pos fits, Option.map_eq_some_iff] at found
      obtain ⟨less, found, rfl⟩ := found
      obtain ⟨before, rest, rfl, bytes, rfl⟩ := ih found
      refine ⟨c :: before, rest, rfl, ?_, rfl⟩
      simp only [byteLength]
      omega
    | case4 c cs offset large => simp [charsBefore?, large] at found
  · rintro ⟨before, rest, rfl, rfl, rfl⟩
    exact charsBefore?_append before rest

/-- The length in bytes tells how far a text was read. -/
theorem append_inj_of_byteLength {xs xs' ys ys' : List Char} (same : xs ++ ys = xs' ++ ys')
    (bytes : byteLength xs = byteLength xs') : xs = xs' ∧ ys = ys' := by
  have count := charsBefore?_append xs ys
  rw [same, bytes, charsBefore?_append, Option.some_inj] at count
  exact List.append_inj same count.symm

namespace Source

/-- The piece of the text from byte `start` up to byte `stop`; none if that runs backwards or past the
end of the text, or cuts a character. -/
def slice? (source : Source) (start stop : Nat) : Option (List Char) := do
  let first ← charsBefore? source.chars start
  let last ← charsBefore? source.chars stop
  if start ≤ stop then some ((source.chars.take last).drop first) else none

variable {source : Source} {start stop : Nat} {piece : List Char}

theorem slice?_of_chars {before rest : List Char} (text : source.chars = before ++ (piece ++ rest)) :
    source.slice? (byteLength before) (byteLength before + byteLength piece) = some piece := by
  have first : charsBefore? source.chars (byteLength before) = some before.length := by
    rw [text]
    exact charsBefore?_append before _
  have last : charsBefore? source.chars (byteLength before + byteLength piece) =
      some (before ++ piece).length := by
    rw [text, ← List.append_assoc, ← byteLength_append]
    exact charsBefore?_append (before ++ piece) rest
  simp only [slice?, first, last, Option.bind_eq_bind, Option.bind_some]
  rw [if_pos (Nat.le_add_right ..), text, ← List.append_assoc, List.take_left, List.drop_left]

/-- A piece of the text is what lies between the characters before it and those behind it. -/
theorem slice?_eq_some_iff :
    source.slice? start stop = some piece ↔
      ∃ before rest, source.chars = before ++ (piece ++ rest) ∧ byteLength before = start ∧
        byteLength before + byteLength piece = stop := by
  constructor
  · intro cut
    simp only [slice?, Option.bind_eq_bind, Option.bind_eq_some_iff] at cut
    obtain ⟨first, hfirst, last, hlast, cut⟩ := cut
    split at cut
    next forward =>
      obtain ⟨before, rest, text, rfl, rfl⟩ := charsBefore?_eq_some_iff.mp hfirst
      obtain ⟨before', rest', text', rfl, rfl⟩ := charsBefore?_eq_some_iff.mp hlast
      rw [text', List.take_left, Option.some_inj] at cut
      have nested : before <+: before' := by
        rcases List.prefix_or_prefix_of_prefix ⟨rest, text.symm⟩ ⟨rest', text'.symm⟩ with le | ⟨extra, rfl⟩
        · exact le
        · rw [byteLength_append] at forward
          have none : extra = [] := eq_nil_of_byteLength (by omega)
          simp [none]
      obtain ⟨middle, rfl⟩ := nested
      rw [List.drop_left] at cut
      subst cut
      exact ⟨before, rest', by rw [text', List.append_assoc], rfl, (byteLength_append ..).symm⟩
    next => cases cut
  · rintro ⟨before, rest, text, rfl, rfl⟩
    exact slice?_of_chars text

/-- The piece up to a place are all characters before it. -/
theorem slice?_zero_of_chars {before rest : List Char} (text : source.chars = before ++ rest) :
    source.slice? 0 (byteLength before) = some before :=
  slice?_eq_some_iff.mpr ⟨[], rest, text, rfl, by simp [byteLength]⟩

/-- Where the text from a place on is one piece, the place has all characters before it. -/
theorem slice?_size_eq_some_iff :
    source.slice? start source.size = some piece ↔
      ∃ before, source.chars = before ++ piece ∧ byteLength before = start := by
  rw [slice?_eq_some_iff]
  constructor
  · rintro ⟨before, rest, text, rfl, stop⟩
    have whole : source.size = byteLength before + (byteLength piece + byteLength rest) := by
      rw [size, text, byteLength_append, byteLength_append]
    have none : rest = [] := eq_nil_of_byteLength (by omega)
    exact ⟨before, by simpa [none] using text, rfl⟩
  · rintro ⟨before, text, rfl⟩
    exact ⟨before, [], by simpa using text, rfl, by rw [size, text, byteLength_append]⟩

end Source

/-! ## Lines -/

/-- The position behind some characters, counted from the beginning of a text. -/
def Position.behind (before : List Char) : Position :=
  before.foldl Position.after .start

/-- A line feed ends a line. -/
theorem lines_append_cons (cs rest : List Char) :
    lines (cs ++ '\n' :: rest) = lines cs ++ lines rest := by
  induction cs with
  | nil => simp [lines]
  | cons c cs ih =>
    obtain ⟨here, others, follows⟩ := List.exists_cons_of_ne_nil (lines_ne_nil cs)
    rw [follows] at ih
    by_cases newline : c = '\n' <;> simp [lines, newline, follows, ih]

/-- Without a line feed there is one line. -/
theorem lines_of_notMem {line : List Char} (within : '\n' ∉ line) : lines line = [line] := by
  induction line with
  | nil => rfl
  | cons c cs ih =>
    simp only [List.mem_cons, not_or] at within
    rw [lines, if_neg (Ne.symm within.1), ih within.2]

/-- Lines that are joined by line feeds are found again. -/
theorem lines_intercalate {ls : List (List Char)} (some_line : ls ≠ [])
    (within : ∀ line ∈ ls, '\n' ∉ line) : lines (List.intercalate ['\n'] ls) = ls := by
  induction ls with
  | nil => exact absurd rfl some_line
  | cons line others ih =>
    have here : lines line = [line] := lines_of_notMem (within line List.mem_cons_self)
    by_cases last : others = []
    · rw [last, List.intercalate_singleton, here]
    · rw [List.intercalate_cons_of_ne_nil last, List.append_assoc, List.singleton_append,
        lines_append_cons, here, ih last fun l mem => within l (List.mem_cons_of_mem _ mem),
        List.singleton_append]

/-- A line goes on up to its line feed. -/
theorem lines_append_newline {line rest : List Char} (within : '\n' ∉ line) :
    lines (line ++ '\n' :: rest) = line :: lines rest := by
  rw [lines_append_cons, lines_of_notMem within, List.singleton_append]

/-- The beginning of a line belongs to the first line of what follows. -/
theorem lines_append {line rest here : List Char} {others : List (List Char)} (within : '\n' ∉ line)
    (follows : lines rest = here :: others) : lines (line ++ rest) = (line ++ here) :: others := by
  induction line with
  | nil => exact follows
  | cons c cs ih =>
    simp only [List.mem_cons, not_or] at within
    rw [List.cons_append, lines, if_neg (Ne.symm within.1), ih within.2]
    rfl

theorem foldl_after_of_notMem {line : List Char} (within : '\n' ∉ line) (p : Position) :
    line.foldl Position.after p = ⟨p.line, p.col + line.length⟩ := by
  induction line generalizing p with
  | nil => rfl
  | cons c cs ih =>
    simp only [List.mem_cons, not_or] at within
    rw [List.foldl_cons, ih within.2, Position.after, if_neg (Ne.symm within.1), List.length_cons,
      Nat.add_assoc, Nat.add_comm 1]

/-- The first line goes up to the first line feed. -/
theorem exists_lines_eq (cs : List Char) : ∃ others, lines cs = cs.takeWhile (· != '\n') :: others := by
  induction cs with
  | nil => exact ⟨[], rfl⟩
  | cons c cs ih =>
    obtain ⟨others, follows⟩ := ih
    rw [lines, follows, List.takeWhile_cons]
    by_cases newline : c = '\n' <;> simp [newline]

/-- What comes before a line feed is no part of the line behind it. -/
theorem rtakeWhile_append_newline (xs ys : List Char) :
    (xs ++ '\n' :: ys).rtakeWhile (· != '\n') = ys.rtakeWhile (· != '\n') := by
  induction ys using List.reverseRecOn with
  | nil => exact List.rtakeWhile_concat_neg _ _ _ (by simp)
  | append_singleton ys y ih =>
    rw [← List.cons_append, ← List.append_assoc, List.rtakeWhile_concat, List.rtakeWhile_concat, ih]

/-- The line that a place lies in, told by the characters before it and those behind it. -/
def lineAround (before rest : List Char) : List Char :=
  before.rtakeWhile (· != '\n') ++ rest.takeWhile (· != '\n')

/-- Among the lines of a text, the one around a place is found, with the counted position. -/
theorem locateFrom?_append (line : Nat) (before rest : List Char) :
    locateFrom? line (lines (before ++ rest)) (byteLength before) =
      some ⟨before.foldl Position.after ⟨line, 1⟩, String.ofList (lineAround before rest)⟩ := by
  induction len : before.length using Nat.strongRecOn generalizing line before with
  | ind n ih =>
    subst len
    by_cases newline : '\n' ∈ before
    · -- the first line is left behind, and the place lies among the others
      obtain ⟨first, later, rfl, within⟩ := List.eq_append_cons_of_mem newline
      have bytes : byteLength (first ++ '\n' :: later) = byteLength first + 1 + byteLength later := by
        have one : ('\n').utf8Size = 1 := by decide
        simp only [byteLength_append, byteLength, one]
        omega
      rw [List.append_assoc, List.cons_append, lines_append_newline within, locateFrom?, bytes,
        if_neg (by omega), Nat.add_sub_cancel_left,
        ih _ (by simp [Nat.lt_add_left]) (line + 1) later rfl, List.foldl_append,
        foldl_after_of_notMem within, lineAround, lineAround, rtakeWhile_append_newline]
      rfl
    · have whole : before.rtakeWhile (· != '\n') = before :=
        List.rtakeWhile_eq_self_iff.mpr fun c mem => by
          rw [bne_iff_ne]
          rintro rfl
          exact newline mem
      obtain ⟨others, follows⟩ := exists_lines_eq rest
      rw [lines_append newline follows, locateFrom?,
        if_pos (by rw [byteLength_append]; omega), charsBefore?_append,
        foldl_after_of_notMem newline, lineAround, whole]
      simp [Nat.add_comm]

namespace Source

/-- What is found for the offset of a place is its line, with the position counted from the beginning. -/
theorem locate?_of_chars {source : Source} {before rest : List Char}
    (text : source.chars = before ++ rest) :
    source.locate? (byteLength before) =
      some ⟨.behind before, String.ofList (lineAround before rest)⟩ := by
  rw [locate?, text]
  exact locateFrom?_append 1 before rest

/-- The position that is found for an offset is the one behind the characters before it. -/
theorem position_locate? {source : Source} {before rest : List Char}
    (text : source.chars = before ++ rest) :
    (source.locate? (byteLength before)).map Snippet.position = some (.behind before) := by
  rw [locate?_of_chars text]
  rfl

end Source

end ThreeAddress
