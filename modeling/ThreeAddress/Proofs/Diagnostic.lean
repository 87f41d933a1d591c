import ThreeAddress.Diagnostic
import ThreeAddress.Proofs.Text.Decimal
import ThreeAddress.Proofs.Text.Padded
import ThreeAddress.Proofs.Text.Snippet

/-!
# Diagnostics on the screen

A diagnostic that has a place is shown in lines: above, what happened and where; then the line of the
source behind its number; then a caret; then the contexts. The caret should stand under the
character at the place. The number of the line takes three characters or as many as it has digits,
and the margin of the caret is fixed: so the caret is under the character on the first 999 lines, and
to the left of it from there on.

## Main definitions

* `Snippet.gutter` and `Snippet.marker` are the margin of the source line and the line with the caret.
* `Diagnostic.lines_render`: the lines of a located diagnostic.
* `Diagnostic.caret_exact`: where the caret stands.
-/

namespace ThreeAddress

namespace Snippet

/-- What stands to the left of the line of the source: its number and a bar. -/
def gutter (s : Snippet) : List Char :=
  (Text.padLeft 3 (Decimal.ofNat s.position.line) ++ " | ").toList

/-- The line below that one: a bar, and the caret. -/
def marker (s : Snippet) : List Char :=
  ("    | " ++ Text.padLeft s.position.col "^").toList

variable (s : Snippet)

theorem length_gutter : s.gutter.length = max 3 (Decimal.digits s.position.line).length + 3 := by
  have bar : " | ".toList.length = 3 := by decide
  rw [gutter, String.toList_append, List.length_append, bar, Text.toList_padLeft, List.length_append,
    List.length_replicate, ← String.length_toList, Decimal.toList_ofNat]
  omega

theorem newline_notMem_gutter : '\n' ∉ s.gutter := by
  have number : '\n' ∉ Decimal.digits s.position.line := fun mem =>
    absurd (Decimal.isDigit_of_mem_digits mem) (by decide)
  simp [gutter, number]

/-- The caret comes last, behind six characters and the columns before its own. -/
theorem marker_eq : ∃ margin : List Char, s.marker = margin ++ ['^'] ∧
    margin.length = 6 + (s.position.col - 1) ∧ '^' ∉ margin ∧ '\n' ∉ margin := by
  refine ⟨"    | ".toList ++ List.replicate (s.position.col - 1) ' ', ?_, ?_, ?_, ?_⟩
  · have one : "^".length = 1 := rfl
    simp [marker, one]
  · rw [List.length_append, List.length_replicate]
    rfl
  · simp
  · simp

theorem count_marker : s.marker.count '^' = 1 := by
  obtain ⟨margin, shape, -, free, -⟩ := s.marker_eq
  rw [shape, List.count_append, List.count_eq_zero_of_not_mem free]
  rfl

theorem idxOf_marker : s.marker.idxOf '^' = 6 + (s.position.col - 1) := by
  obtain ⟨margin, shape, length, free, -⟩ := s.marker_eq
  rw [shape, List.idxOf_append_of_notMem free, List.idxOf_cons_self, length, Nat.add_zero]

theorem newline_notMem_marker : '\n' ∉ s.marker := by
  obtain ⟨margin, shape, -, -, within⟩ := s.marker_eq
  simp [shape, within]

end Snippet

namespace Source

variable {source : Source} {offset : Nat} {s : Snippet}

/-- A line of a text holds no line feed. -/
theorem newline_notMem_of_locate? (found : source.locate? offset = some s) : '\n' ∉ s.line.toList := by
  obtain ⟨before, rest, -, -, rfl⟩ := locate?_eq_some_iff.mp found
  rw [String.toList_ofList, lineAround, List.mem_append, not_or]
  exact ⟨fun mem => absurd (List.mem_rtakeWhile_imp mem) (by decide),
    fun mem => absurd (List.mem_takeWhile_imp mem) (by decide)⟩

/-- A place of a text is at a character of its line, or at the end of the line. -/
theorem col_of_locate? (found : source.locate? offset = some s) :
    1 ≤ s.position.col ∧ s.position.col ≤ s.line.length + 1 := by
  obtain ⟨before, rest, -, -, rfl⟩ := locate?_eq_some_iff.mp found
  simp only [Position.behind_eq, String.length_ofList, lineAround, List.length_append]
  omega

/-- The only character behind `n` empty lines. -/
theorem locate?_behindEmptyLines (n : Nat) :
    (⟨String.ofList (List.replicate n '\n' ++ ['x']), none⟩ : Source).locate? n =
      some ⟨⟨1 + n, 1⟩, "x"⟩ := by
  have bytes : byteLength (List.replicate n '\n') = n := by
    induction n with
    | zero => rfl
    | succ n ih =>
      have one : ('\n').utf8Size = 1 := by decide
      rw [List.replicate_succ, byteLength, ih, one, Nat.add_comm]
  have noLine : (List.replicate n '\n').rtakeWhile (· != '\n') = [] := by
    rw [List.rtakeWhile, List.reverse_replicate]
    cases n <;> simp [List.replicate_succ]
  have text : chars ⟨String.ofList (List.replicate n '\n' ++ ['x']), none⟩ =
      List.replicate n '\n' ++ ['x'] := String.toList_ofList
  have found := locate?_of_chars text
  rw [bytes, Position.behind_eq, lineAround, noLine, List.count_replicate_self] at found
  exact found

end Source

namespace Diagnostic

variable {κ : Type} (message : κ → String) {d : Diagnostic κ} {s : Snippet}

/-- What is shown above the line of the source: the message, and the place. -/
def heading (d : Diagnostic κ) (s : Snippet) : String :=
  message d.kind ++ "\n   --> " ++ d.fileName ++ ":" ++ s.position.render ++ "\n    |"

/-- Contexts are shown below, each beginning a line. -/
theorem lines_append_contexts (cs : List Char) (contexts : List String) :
    lines (cs ++ (String.join (contexts.map fun context => "\nwhile " ++ context)).toList) =
      lines cs ++ contexts.flatMap fun context => lines ("while " ++ context).toList := by
  induction contexts generalizing cs with
  | nil => simp
  | cons context contexts ih =>
    have split : (String.join ((context :: contexts).map fun context => "\nwhile " ++ context)).toList =
        '\n' :: (("while " ++ context).toList ++
          (String.join (contexts.map fun context => "\nwhile " ++ context)).toList) := by
      simp
    rw [split, lines_append_cons, ih, List.flatMap_cons]

/-- The text of a place, with the line feeds that end its lines apart. -/
theorem renderSnippet_eq (fileName : String) :
    renderSnippet fileName s =
      "\n   --> " ++ fileName ++ ":" ++ s.position.render ++ ("\n    |" ++ "\n")
        ++ Text.padLeft 3 (Decimal.ofNat s.position.line) ++ " | " ++ s.line
        ++ ("\n" ++ "    | ") ++ Text.padLeft s.position.col "^" := rfl

/-- The lines of a diagnostic that has a place. -/
theorem lines_render (placed : d.snippet = some s) (within : '\n' ∉ s.line.toList) :
    lines (d.render message).toList =
      lines (heading message d s).toList ++ (s.gutter ++ s.line.toList) :: s.marker ::
        d.contexts.flatMap fun context => lines ("while " ++ context).toList := by
  have feed : "\n".toList = ['\n'] := rfl
  have split : (d.render message).toList =
      (heading message d s).toList ++ '\n' :: ((s.gutter ++ s.line.toList) ++ '\n' :: (s.marker ++
        (String.join (d.contexts.map fun context => "\nwhile " ++ context)).toList)) := by
    rw [render, placed]
    simp only [renderSnippet_eq, heading, Snippet.gutter, Snippet.marker, feed, String.toList_append,
      List.append_assoc, List.cons_append, List.nil_append]
  have shown : '\n' ∉ s.gutter ++ s.line.toList := by
    simp [s.newline_notMem_gutter, within]
  rw [split, lines_append_cons, lines_append_newline shown, lines_append_contexts,
    lines_of_notMem s.newline_notMem_marker, List.singleton_append]

/-- Where the caret of a located diagnostic stands. The line of the source is shown behind its gutter,
and the line below it has one caret. The character at the position stands behind the gutter and the
columns before its own; the caret stands to the left of that by the digits that the number of the line
has more than three. So it is under the character just on the lines before the thousandth. -/
theorem caret_exact {source : Source} {offset : Nat} (found : source.locate? offset = some s)
    (placed : d.snippet = some s) :
    lines (d.render message).toList =
      lines (heading message d s).toList ++ (s.gutter ++ s.line.toList) :: s.marker ::
        (d.contexts.flatMap fun context => lines ("while " ++ context).toList) ∧
    s.marker.count '^' = 1 ∧
    (1 ≤ s.position.col ∧ s.position.col ≤ s.line.length + 1) ∧
    s.marker.idxOf '^' + ((Decimal.digits s.position.line).length - 3) =
      s.gutter.length + (s.position.col - 1) ∧
    (s.marker.idxOf '^' = s.gutter.length + (s.position.col - 1) ↔ s.position.line < 1000) := by
  have threeDigits : (Decimal.digits s.position.line).length ≤ 3 ↔ s.position.line < 1000 :=
    Decimal.length_digits_le_iff
  refine ⟨lines_render message placed (Source.newline_notMem_of_locate? found), s.count_marker,
    Source.col_of_locate? found, ?_, ?_⟩
  · rw [s.idxOf_marker, s.length_gutter]
    omega
  · rw [s.idxOf_marker, s.length_gutter]
    omega

/-- On the second line of a text, behind a character of two bytes. -/
theorem caret_exact_secondLine :
    let source : Source := ⟨"a = 1;\nb = é @ 2;\n", some "b.txt"⟩
    let d : Diagnostic String := ((ofKind "unexpected").withSource 14 source).addContext "lexing"
    let s : Snippet := ⟨⟨2, 7⟩, "b = é @ 2;"⟩
    source.locate? 14 = some s ∧ d.snippet = some s ∧
      lines (d.render id).toList = ["unexpected", "   --> b.txt:2:7", "    |", "  2 | b = é @ 2;",
        "    |       ^", "while lexing"].map String.toList ∧
      s.marker.idxOf '^' = s.gutter.length + (s.position.col - 1) := by
  intro source d s
  have found : source.locate? 14 = some s := by decide
  have placed : d.snippet = some s := found
  obtain ⟨shown, -, -, -, aligned⟩ := caret_exact id found placed
  exact ⟨found, placed, shown.trans (by decide +kernel), aligned.mpr (by decide)⟩

/-- On the thousandth line the caret is not under the character. -/
theorem caret_thousandthLine :
    lines (((ofKind "boom").withSource 999
        ⟨String.ofList (List.replicate 999 '\n' ++ ['x']), none⟩).render id).toList =
      ["boom", "   --> <unknown source>:1000:1", "    |", "1000 | x", "    | ^"].map String.toList ∧
    "1000 | x".toList.idxOf 'x' ≠ "    | ^".toList.idxOf '^' := by
  refine ⟨?_, by decide⟩
  rw [withSource, Source.locate?_behindEmptyLines]
  change lines (render id ⟨"boom", none, some ⟨⟨1000, 1⟩, "x"⟩, []⟩).toList = _
  rw [lines_render id rfl (by decide)]
  decide +kernel

end Diagnostic

end ThreeAddress
