import ThreeAddress.Proofs.Program.Layout
import ThreeAddress.Proofs.Token.Tiling

/-!
# Tokens set apart anew

The tokens of a source, written down again one behind the other with a separator behind each. A blank
that a separator begins with ends every token: a name, a number or an operator could go on with some
character, but never with a blank, and a slash in front of a blank begins no comment. What else the
separator holds is trivia. So the new text has the same tokens, at other places.

## Main definitions

* `IsSpacing` and `IsSeparator` say what stands between two tokens.
* `respaced` is the text of some tokens with separators behind them.
* `munch?_before_blank`: a token in front of a blank is found.
* `Source.tokenize_respaced` is the main result.
-/

namespace ThreeAddress

/-! ## Separators -/

/-- Blanks, and comments with the line feeds that end them. -/
inductive IsSpacing : List Char → Prop where
  | nil : IsSpacing []
  | blank {c : Char} {cs : List Char} (blank : Text.isBlank c) (others : IsSpacing cs) :
      IsSpacing (c :: cs)
  | comment {body cs : List Char} (within : '\n' ∉ body) (others : IsSpacing cs) :
      IsSpacing ('/' :: '/' :: (body ++ '\n' :: cs))

/-- Blanks and comments of which the first one is a blank. -/
structure IsSeparator (gap : List Char) : Prop where
  starts : ∃ c cs, gap = c :: cs ∧ Text.isBlank c
  spacing : IsSpacing gap

/-- The texts of the tokens, each with its separator behind it. -/
def respaced (tokens : List Token) (gaps : List (List Char)) : List Char :=
  (List.zipWith (fun t gap => t.text.toList ++ gap) tokens gaps).flatten

variable {gap rest : List Char}

/-- Comments that a line feed ends are trivia, whatever comes behind them. -/
theorem IsSpacing.trivia (h : IsSpacing gap) (behind : List Char) : Trivia behind gap := by
  induction h with
  | nil => exact .nil
  | blank blank _ ih => exact .blank blank ih
  | comment within _ ih => exact .comment within (by simp [EndsLine]) (.blank isBlank_newline ih)

/-- Trivia in front of trivia. -/
theorem Trivia.append {gap' : List Char} (h : Trivia (gap' ++ rest) gap) (h' : Trivia rest gap') :
    Trivia rest (gap ++ gap') := by
  induction h with
  | nil => exact h'
  | blank blank _ ih => exact .blank blank ih
  | comment within ends _ ih =>
    rw [List.cons_append, List.cons_append, List.append_assoc]
    exact .comment within (by rwa [List.append_assoc]) ih

/-- Trivia in front of the end are all that there is. -/
theorem leadingTrivia_of_trivia (h : Trivia [] gap) : leadingTrivia gap = gap := by
  have found := leadingTrivia_append h (by simp [BeginsTrivia])
  rwa [List.append_nil] at found

/-! ## Tokens in front of a blank -/

section

variable {kind : TokenKind} {w : List Char}

/-- No token has a blank in it. -/
theorem TokenKind.HasText.not_isBlank (h : kind.HasText w) {c : Char} (mem : c ∈ w) :
    ¬Text.isBlank c := by
  have named (h : isIdentifier (String.ofList w)) : ¬Text.isBlank c :=
    not_isBlank_of_continuesName (continuesName_of_mem h (String.toList_ofList.symm ▸ mem))
  cases kind with
  | identifier => exact named h.1
  | keyword k => exact named (h ▸ k.isIdentifier_word)
  | number => exact not_isBlank_of_continuesName (continuesName_of_isDigit (h.2 c mem))
  | operator sign withEqual =>
    have signs : ¬Text.isBlank sign.char := by
      cases sign <;> decide
    cases withEqual with
    | true =>
      rw [h.1] at mem
      rcases List.mem_pair.mp mem with rfl | rfl
      · exact signs
      · decide
    | false =>
      rw [h.1, List.mem_singleton] at mem
      exact mem ▸ signs
  | eof => cases h
  | _ =>
    rw [h, List.mem_singleton] at mem
    subst mem
    decide

variable {c : Char} (blank : Text.isBlank c) (h : kind.HasText w) (cs : List Char)

include blank h

/-- A token ends where a blank comes. -/
theorem munch?_before_blank : munch? (w ++ c :: cs) = some (kind, w) := by
  obtain ⟨kind', more, munched, same⟩ := munch?_append h (c :: cs)
  obtain ⟨begins, hasText⟩ := hasText_of_munch? munched
  have last : more = [] := by
    cases more with
    | nil => rfl
    | cons d ds =>
      -- a longer token would go across the blank
      have next : d = c := (List.cons_prefix_cons.mp ((List.prefix_append_right_inj w).mp begins)).1
      exact absurd blank (next ▸ hasText.not_isBlank (by simp))
  rw [munched, same last, last, List.append_nil]

/-- No comment begins with a token in front of a blank. -/
theorem not_beginsTrivia_before_blank : ¬BeginsTrivia (w ++ c :: cs) := by
  obtain ⟨d, ds, rfl⟩ := List.exists_cons_of_ne_nil h.ne_nil
  rintro (⟨_, head, first⟩ | ⟨later, comment⟩)
  · cases head
    exact h.not_isBlank List.mem_cons_self first
  · cases ds with
    | nil =>
      cases comment
      exact ne_slash_of_isBlank blank rfl
    | cons e es =>
      cases comment
      exact h.slash_notMem_tail List.mem_cons_self

end

/-! ## The scan of the new text -/

namespace Cursor

variable {c : Cursor} {t last : Token} {ts : List Token} {gaps : List (List Char)}

/-- A token behind trivia and in front of a separator is yielded, and the separator is left. -/
theorem yields_separated (hasText : t.kind.HasText t.text.toList) (separator : IsSeparator gap)
    {front : List Char} (trivia : Trivia (t.text.toList ++ (gap ++ rest)) front)
    (left : c.rest = front ++ (t.text.toList ++ (gap ++ rest))) :
    ∃ t' c', c.Yields [t'] c' ∧ t'.word = t.word ∧ c'.rest = gap ++ rest := by
  obtain ⟨b, bs, rfl, blank⟩ := separator.starts
  have solid : ¬BeginsTrivia (t.text.toList ++ (b :: bs ++ rest)) :=
    not_beginsTrivia_before_blank blank hasText (bs ++ rest)
  have skipped : c.skipTrivia.rest = t.text.toList ++ (b :: bs ++ rest) := by
    rw [skipTrivia, rest_past, left, leadingTrivia_append trivia solid, List.drop_left]
  have munched : munch? c.skipTrivia.rest = some (t.kind, t.text.toList) := by
    rw [skipped]
    exact munch?_before_blank blank hasText (bs ++ rest)
  refine ⟨_, _, yields_of_next (next_of_munch? munched), ?_, ?_⟩
  · exact Prod.ext rfl String.ofList_toList
  · rw [rest_past, skipped, List.drop_left]

/-- A cursor in front of trivia and of nothing else yields nothing. -/
theorem yields_nil_of_trivia (trivia : Trivia [] c.rest) : ∃ c', c.Yields [] c' ∧ c'.rest = [] := by
  have finished : c.skipTrivia.rest = [] := by
    rw [skipTrivia, rest_past, leadingTrivia_of_trivia trivia, List.drop_length]
  refine ⟨c.skipTrivia, ?_, finished⟩
  rw [Yields, scan_of_end (next_of_rest_nil finished), scan_of_rest_nil finished]
  rfl

/-- The tokens are yielded one by one, and nothing is left. The induction is on the tokens: behind each
of them the scan stands in front of its separator. -/
theorem yields_respaced (ended : last.text = "") (hasText : ∀ t ∈ ts, t.kind.HasText t.text.toList)
    (enough : ts.length ≤ gaps.length) (separators : ∀ gap ∈ gaps, IsSeparator gap) {front : List Char}
    (trivia : Trivia (respaced (ts ++ [last]) gaps) front)
    (left : c.rest = front ++ respaced (ts ++ [last]) gaps) :
    ∃ ts' c', c.Yields ts' c' ∧ ts'.map Token.word = ts.map Token.word ∧ c'.rest = [] := by
  induction ts generalizing c gaps front with
  | nil =>
    have behind : Trivia [] (respaced [last] gaps) := by
      cases gaps with
      | nil => exact .nil
      | cons gap others =>
        have shape : respaced [last] (gap :: others) = gap := by simp [respaced, ended]
        rw [shape]
        exact (separators gap List.mem_cons_self).spacing.trivia []
    have whole : Trivia [] c.rest := by
      rw [left]
      exact Trivia.append (by rwa [List.append_nil]) behind
    obtain ⟨c', yields, finished⟩ := yields_nil_of_trivia whole
    exact ⟨[], c', yields, rfl, finished⟩
  | cons t ts ih =>
    cases gaps with
    | nil => cases enough
    | cons gap others =>
      rw [List.forall_mem_cons] at hasText separators
      have shape : respaced (t :: ts ++ [last]) (gap :: others) =
          t.text.toList ++ (gap ++ respaced (ts ++ [last]) others) := by simp [respaced]
      rw [shape] at trivia left
      obtain ⟨t', c₁, first, word, left₁⟩ := yields_separated hasText.1 separators.1 trivia left
      obtain ⟨ts', c₂, behind, words, finished⟩ := ih hasText.2 (Nat.le_of_succ_le_succ enough)
        separators.2 (separators.1.spacing.trivia _) left₁
      refine ⟨t' :: ts', c₂, first.trans behind, ?_, finished⟩
      rw [List.map_cons, List.map_cons, word, words]

end Cursor

namespace Source

variable {source : Source} {tokens : List Token} {gaps : List (List Char)} {front : List Char}

/-- The tokens of a source, written down again with any trivia in front and with any separator behind
each of them, are read as tokens of the same kinds and texts; behind the end of the input there may
be a separator or none. -/
theorem tokenize_respaced (lexed : source.tokenize = .ok tokens)
    (enough : tokens.length ≤ gaps.length + 1) (separators : ∀ gap ∈ gaps, IsSeparator gap)
    (trivia : Trivia (respaced tokens gaps) front) (file : Option String) :
    ∃ tokens', tokenize ⟨String.ofList (front ++ respaced tokens gaps), file⟩ = .ok tokens' ∧
      tokens'.map Token.word = tokens.map Token.word := by
  obtain ⟨ts, rfl, hasText⟩ := exists_of_tokenize lexed
  have enough : ts.length ≤ gaps.length := by simpa using enough
  let text := front ++ respaced (ts ++ [source.endToken]) gaps
  have start : (Cursor.ofSource ⟨String.ofList text, file⟩).rest = text := String.toList_ofList
  obtain ⟨ts', c, yields, words, left⟩ :=
    Cursor.yields_respaced rfl hasText enough separators trivia start
  refine ⟨_, tokenize_of_yields yields left, ?_⟩
  rw [List.map_append, List.map_append, words]
  rfl

/-- A quotient whose slash comes before a comment, with a comment in front and a line feed behind the
end of the input. Its six tokens are still there, and the end behind them. -/
theorem tokenize_respaced_quotient :
    let source : Source := ⟨"a=b/2;", none⟩
    let other : Source := ⟨"//=\na = b / //é;\n2 ; \n", some "other"⟩
    let written := [(TokenKind.identifier, "a"), (.operator .equals false, "="), (.identifier, "b"),
      (.operator .slash false, "/"), (.number, "2"), (.semicolon, ";"), (.eof, "")]
    ∃ tokens tokens', source.tokenize = .ok tokens ∧ other.tokenize = .ok tokens' ∧
      tokens.map Token.word = written ∧ tokens'.map Token.word = written := by
  intro source other written
  have blank : IsSeparator [' '] := ⟨⟨_, _, rfl, by decide⟩, .blank (by decide) .nil⟩
  have newline : IsSeparator ['\n'] := ⟨⟨_, _, rfl, by decide⟩, .blank (by decide) .nil⟩
  have comment : IsSeparator (' ' :: '/' :: '/' :: (['é', ';'] ++ ['\n'])) :=
    ⟨⟨_, _, rfl, by decide⟩, .blank (by decide) (.comment (by decide) .nil)⟩
  let gaps := [[' '], [' '], [' '], ' ' :: '/' :: '/' :: (['é', ';'] ++ ['\n']), [' '], [' '], ['\n']]
  have separators : ∀ gap ∈ gaps, IsSeparator gap := by
    simp only [gaps, List.forall_mem_cons]
    exact ⟨blank, blank, blank, comment, blank, blank, newline, List.forall_mem_nil _⟩
  have front : IsSpacing ('/' :: '/' :: (['='] ++ ['\n'])) := .comment (by decide) .nil
  cases lexed : source.tokenize with
  | error error =>
    have accepted : source.tokenize.isOk = true := by decide +kernel
    rw [lexed] at accepted
    cases accepted
  | ok tokens =>
    have told : source.tokenize.toOption.map (fun tokens => (tokens.map Token.word, respaced tokens gaps)) =
        some (written, "a = b / //é;\n2 ; \n".toList) := by decide +kernel
    rw [lexed, Except.toOption, Option.map_some, Option.some_inj, Prod.mk.injEq] at told
    obtain ⟨same, text⟩ := told
    have count : tokens.length = 7 := by
      rw [← List.length_map Token.word, same]
      rfl
    obtain ⟨tokens', lexed', words⟩ := tokenize_respaced lexed (by rw [count]; decide) separators
      (front.trivia _) (some "other")
    rw [text] at lexed'
    exact ⟨tokens, tokens', rfl, lexed', same, words.trans same⟩

end Source

end ThreeAddress
