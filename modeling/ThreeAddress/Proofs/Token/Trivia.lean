import ThreeAddress.Proofs.Token.Longest

/-!
# Trivia and splittings

What may stand between two tokens, and which texts consist of tokens and trivia at all. A text may
be split in many ways, since a word can be cut into shorter words. But as soon as it can be split
somehow, the longest trivia and the longest tokens split it too: to take them off the front leaves
a text that can still be split.

## Main definitions

* `Trivia` are blanks and comments in front of a text, and `BeginsTrivia` tells where some begin.
* `Splits` says that a text consists of blanks, comments and tokens.
* `leadingTrivia_append`: the trivia in front of a text are found.
* `Splits.of_trivia_append` and `Splits.of_longest`: what is found can be taken off.
-/

namespace ThreeAddress

/-- A text that is over, or begins with a line feed. -/
def EndsLine (text : List Char) : Prop :=
  ∀ c, text.head? = some c → c = '\n'

/-- Blanks and comments in front of the text `behind`. A comment goes on up to the next line feed, or
to the end of the text. -/
inductive Trivia (behind : List Char) : List Char → Prop where
  | nil : Trivia behind []
  | blank {c : Char} {cs : List Char} (blank : Text.isBlank c) (others : Trivia behind cs) :
      Trivia behind (c :: cs)
  | comment {body cs : List Char} (within : '\n' ∉ body) (ends : EndsLine (cs ++ behind))
      (others : Trivia behind cs) : Trivia behind ('/' :: '/' :: (body ++ cs))

/-- A blank or a comment begins here. -/
def BeginsTrivia (text : List Char) : Prop :=
  (∃ c, text.head? = some c ∧ Text.isBlank c) ∨ ['/', '/'] <+: text

theorem continuesName_of_isDigit {c : Char} (h : c.isDigit) : continuesName c := by
  simp [continuesName, Char.isAlphanum, h]

theorem not_isBlank_of_continuesName {c : Char} (h : continuesName c) : ¬Text.isBlank c := by
  have ascii : 48 ≤ c.toNat ∧ c.toNat ≤ 122 := by
    have shape : (((c.isUpper || c.isLower) || c.isDigit) || decide (c = '_')) = true := h
    simp only [Bool.or_eq_true, decide_eq_true_eq] at shape
    rcases shape with ((upper | lower) | digit) | rfl
    · obtain ⟨low, high⟩ := of_decide_eq_true upper
      exact ⟨Nat.le_trans (by decide) low, Nat.le_trans high (by decide)⟩
    · obtain ⟨low, high⟩ := Bool.and_eq_true_iff.mp lower
      exact ⟨Nat.le_trans (by decide) (of_decide_eq_true low),
        Nat.le_trans (of_decide_eq_true high) (by decide)⟩
    · obtain ⟨low, high⟩ := Char.isDigit_iff_toNat.mp digit
      exact ⟨low, Nat.le_trans high (by decide)⟩
    · decide
  simp only [Text.isBlank, Text.Blank.ranges, List.any_cons, List.any_nil, Bool.or_eq_true,
    Bool.and_eq_true, decide_eq_true_eq, Bool.false_eq_true, or_false]
  omega

theorem isBlank_newline : Text.isBlank '\n' := by
  decide

theorem ne_slash_of_isBlank {c : Char} (h : Text.isBlank c) : c ≠ '/' := by
  rintro rfl
  revert h
  decide

/-- A comment begins with two slashes and has a first line feed behind it, if any. -/
theorem exists_comment {text : List Char} (h : ['/', '/'] <+: text) :
    ∃ body rest, text = '/' :: '/' :: (body ++ rest) ∧ '\n' ∉ body ∧ EndsLine rest := by
  obtain ⟨later, rfl⟩ := h
  refine ⟨later.takeWhile (· ≠ '\n'), later.dropWhile (· ≠ '\n'), by simp, ?_, ?_⟩
  · intro mem
    simpa using List.all_eq_true.mp List.all_takeWhile _ mem
  · intro c head
    have stops := List.head?_dropWhile_not (fun c : Char => decide (c ≠ '\n')) later
    rw [head] at stops
    simpa using stops

/-! ## The trivia that are found -/

theorem leadingTrivia_blank {c : Char} (h : Text.isBlank c) (cs : List Char) :
    leadingTrivia (c :: cs) = c :: leadingTrivia cs := by
  simp [leadingTrivia, triviaFrom, h]

/-- Inside a comment, all is trivia up to the next line feed. -/
theorem triviaFrom_true_append {body rest : List Char} (within : '\n' ∉ body) (ends : EndsLine rest) :
    triviaFrom true (body ++ rest) = body ++ leadingTrivia rest := by
  induction body with
  | nil =>
    cases rest with
    | nil => rfl
    | cons c cs =>
      have newline : c = '\n' := ends c rfl
      simp [triviaFrom, leadingTrivia, newline, isBlank_newline]
  | cons c cs ih =>
    simp only [List.mem_cons, not_or] at within
    simp [triviaFrom, Ne.symm within.1, ih within.2]

theorem leadingTrivia_comment {body rest : List Char} (within : '\n' ∉ body) (ends : EndsLine rest) :
    leadingTrivia ('/' :: '/' :: (body ++ rest)) = '/' :: '/' :: (body ++ leadingTrivia rest) := by
  have slash : Text.isBlank '/' = false := by decide
  simp [leadingTrivia, triviaFrom, slash]
  exact triviaFrom_true_append within ends

theorem leadingTrivia_eq_nil {text : List Char} (h : ¬BeginsTrivia text) : leadingTrivia text = [] := by
  cases text with
  | nil => rfl
  | cons c cs =>
    simp only [BeginsTrivia, not_or] at h
    obtain ⟨notBlank, notComment⟩ := h
    have solid : ¬Text.isBlank c := fun blank => notBlank ⟨c, rfl, blank⟩
    have lone : ¬(c = '/' ∧ cs.head? = some '/') := by
      rintro ⟨rfl, second⟩
      obtain ⟨later, rfl⟩ := List.head?_eq_some_iff.mp second
      exact notComment ⟨later, rfl⟩
    simp [leadingTrivia, triviaFrom, solid, lone]

/-- The trivia in front of a text are found, all of them and no more. -/
theorem leadingTrivia_append {gap rest : List Char} (trivia : Trivia rest gap)
    (solid : ¬BeginsTrivia rest) : leadingTrivia (gap ++ rest) = gap := by
  induction trivia with
  | nil => exact leadingTrivia_eq_nil solid
  | blank blank _ ih => rw [List.cons_append, leadingTrivia_blank blank, ih]
  | comment within ends _ ih =>
    rw [List.cons_append, List.cons_append, List.append_assoc, leadingTrivia_comment within ends, ih]

/-- Every text begins with some trivia, behind which no others begin. -/
theorem exists_trivia (text : List Char) :
    ∃ gap rest, text = gap ++ rest ∧ Trivia rest gap ∧ ¬BeginsTrivia rest := by
  induction len : text.length using Nat.strongRecOn generalizing text with
  | ind n ih =>
    subst len
    by_cases begins : BeginsTrivia text
    · rcases begins with ⟨c, head, blank⟩ | comment
      · obtain ⟨cs, rfl⟩ := List.head?_eq_some_iff.mp head
        obtain ⟨gap, rest, rfl, trivia, solid⟩ := ih _ (Nat.lt_succ_self _) cs rfl
        exact ⟨c :: gap, rest, rfl, .blank blank trivia, solid⟩
      · obtain ⟨body, later, rfl, within, ends⟩ := exists_comment comment
        obtain ⟨gap, rest, rfl, trivia, solid⟩ :=
          ih _ (by simp only [List.length_cons, List.length_append]; omega) later rfl
        exact ⟨'/' :: '/' :: (body ++ gap), rest, by simp, .comment within ends trivia, solid⟩
    · exact ⟨[], text, rfl, .nil, begins⟩

/-- Behind the trivia that are found, no others begin. -/
theorem trivia_leadingTrivia (text : List Char) :
    text = leadingTrivia text ++ text.drop (leadingTrivia text).length ∧
      Trivia (text.drop (leadingTrivia text).length) (leadingTrivia text) ∧
      ¬BeginsTrivia (text.drop (leadingTrivia text).length) := by
  obtain ⟨gap, rest, rfl, trivia, solid⟩ := exists_trivia text
  rw [leadingTrivia_append trivia solid, List.drop_left]
  exact ⟨rfl, trivia, solid⟩

/-! ## Splittings -/

/-- The text consists of blanks, comments and tokens, one after another. -/
inductive Splits : List Char → Prop where
  | nil : Splits []
  | blank {c : Char} {rest : List Char} (blank : Text.isBlank c) (others : Splits rest) :
      Splits (c :: rest)
  | comment {body rest : List Char} (within : '\n' ∉ body) (ends : EndsLine rest)
      (others : Splits rest) : Splits ('/' :: '/' :: (body ++ rest))
  | token {kind : TokenKind} {literal rest : List Char} (hasText : kind.HasText literal)
      (others : Splits rest) : Splits (literal ++ rest)

/-- Trivia can be put in front of a text that splits. -/
theorem Splits.trivia_append {gap rest : List Char} (trivia : Trivia rest gap) (h : Splits rest) :
    Splits (gap ++ rest) := by
  induction trivia with
  | nil => exact h
  | blank blank _ ih => exact .blank blank ih
  | comment within ends _ ih =>
    rw [List.cons_append, List.cons_append, List.append_assoc]
    exact .comment within ends ih

namespace TokenKind.HasText

variable {kind : TokenKind} {w : List Char}

/-- A token is a word or a number, a single character, or a sign with an equals sign. -/
theorem shape (h : kind.HasText w) :
    (∀ c ∈ w, continuesName c) ∨ (∃ c, w = [c] ∧ c ≠ '\n') ∨ ∃ sign : Sign, w = [sign.char, '='] := by
  have named (h : isIdentifier (String.ofList w)) : ∀ c ∈ w, continuesName c := fun c mem =>
    continuesName_of_mem h (String.toList_ofList.symm ▸ mem)
  cases kind with
  | identifier => exact .inl (named h.1)
  | keyword k => exact .inl (named (h ▸ k.isIdentifier_word))
  | number => exact .inl fun c mem => by simp [continuesName, Char.isAlphanum, h.2 c mem]
  | operator sign withEqual =>
    cases withEqual with
    | true => exact .inr (.inr ⟨sign, h.1⟩)
    | false => exact .inr (.inl ⟨sign.char, h.1, by cases sign <;> decide⟩)
  | eof => cases h
  | _ => exact .inr (.inl ⟨_, h, by decide⟩)

/-- No token goes across the end of a line. -/
theorem newline_notMem (h : kind.HasText w) : '\n' ∉ w := by
  rcases h.shape with word | ⟨c, rfl, other⟩ | ⟨sign, rfl⟩
  · exact fun mem => absurd (word _ mem) (by decide)
  · simpa using other.symm
  · cases sign <;> decide

/-- A slash is a token by itself, and begins no other one. -/
theorem slash_notMem_tail {c : Char} (h : kind.HasText (c :: w)) : '/' ∉ w := by
  rcases h.shape with word | ⟨_, single, -⟩ | ⟨sign, pair⟩
  · exact fun mem => absurd (word _ (List.mem_cons_of_mem _ mem)) (by decide)
  · cases single
    exact List.not_mem_nil
  · cases pair
    decide

/-- Each further character of a token is a token by itself. -/
theorem single_of_mem_tail {c d : Char} (h : kind.HasText (c :: w)) (mem : d ∈ w) :
    ∃ kind' : TokenKind, kind'.HasText [d] := by
  rcases h.shape with word | ⟨_, single, -⟩ | ⟨sign, pair⟩
  · have continues := word d (List.mem_cons_of_mem _ mem)
    simp only [continuesName, Char.isAlphanum, Bool.or_eq_true] at continues
    rcases continues with (letter | digit) | underscore
    · exact ⟨_, hasText_wordKind (by simp [isIdentifier, startsName, letter])⟩
    · exact ⟨.number, by simp [HasText, digit]⟩
    · exact ⟨_, hasText_wordKind (by simp [isIdentifier, startsName, underscore])⟩
  · cases single
    cases mem
  · cases pair
    rw [List.mem_singleton.mp mem]
    exact ⟨.operator .equals false, rfl, by decide⟩

end TokenKind.HasText

/-- What lies behind the first `a` of a text lies behind each piece in front that has none. -/
theorem exists_append_cons_of_notMem {α : Type} {a : α} {piece later before rest : List α}
    (same : piece ++ later = before ++ a :: rest) (absent : a ∉ piece) :
    ∃ before', later = before' ++ a :: rest := by
  rcases List.append_eq_append_iff.mp same with ⟨between, -, here⟩ | ⟨between, rfl, here⟩
  · exact ⟨between, here⟩
  · cases between with
    | nil => exact ⟨[], here.symm⟩
    | cons b between =>
      cases here
      simp at absent

namespace Splits

/-- Single characters that are tokens can be put in front of a text that splits. -/
theorem singles_append {w rest : List Char} (singles : ∀ d ∈ w, ∃ kind : TokenKind, kind.HasText [d])
    (h : Splits rest) : Splits (w ++ rest) := by
  induction w with
  | nil => exact h
  | cons d w ih =>
    rw [List.forall_mem_cons] at singles
    obtain ⟨⟨kind, hasText⟩, others⟩ := singles
    have one : Splits ([d] ++ (w ++ rest)) := token hasText (ih others)
    exact one

/-- The first character can be taken off, unless a comment begins with it. -/
theorem tail {c : Char} {cs : List Char} (h : Splits (c :: cs)) (solid : ¬['/', '/'] <+: c :: cs) :
    Splits cs := by
  generalize whole : c :: cs = text at h solid
  cases h with
  | nil => cases whole
  | blank _ others =>
    cases whole
    exact others
  | comment => exact absurd ⟨_, rfl⟩ solid
  | @token kind literal rest hasText others =>
    obtain ⟨d, w, rfl⟩ := List.exists_cons_of_ne_nil hasText.ne_nil
    cases whole
    exact singles_append (fun _ mem => hasText.single_of_mem_tail mem) others

/-- A text that splits can be cut at the end of a line. -/
theorem from_newline {text before rest : List Char} (h : Splits text)
    (cut : text = before ++ '\n' :: rest) : Splits ('\n' :: rest) := by
  induction h generalizing before with
  | nil => simp at cut
  | @blank c later blank others ih =>
    cases before with
    | nil =>
      cases cut
      exact .blank blank others
    | cons d before =>
      cases cut
      exact ih rfl
  | @comment body later within ends others ih =>
    have absent : '\n' ∉ '/' :: '/' :: body := by simp [within]
    obtain ⟨before', here⟩ := exists_append_cons_of_notMem cut absent
    exact ih here
  | @token kind literal later hasText others ih =>
    obtain ⟨before', here⟩ := exists_append_cons_of_notMem cut hasText.newline_notMem
    exact ih here

/-- Trivia can be taken off the front. -/
theorem of_trivia_append {gap rest : List Char} (trivia : Trivia rest gap) (h : Splits (gap ++ rest)) :
    Splits rest := by
  induction trivia with
  | nil => exact h
  | @blank c cs blank _ ih =>
    refine ih (h.tail ?_)
    rintro ⟨later, begins⟩
    exact ne_slash_of_isBlank blank (List.cons.inj begins).1.symm
  | @comment body cs within ends _ ih =>
    apply ih
    cases left : cs ++ rest with
    | nil => exact .nil
    | cons c later =>
      have newline : c = '\n' := ends c (by rw [left]; rfl)
      subst newline
      have cut : '/' :: '/' :: (body ++ cs) ++ rest = '/' :: '/' :: body ++ '\n' :: later := by
        simp [left]
      exact h.from_newline cut

/-- A token can be taken off the front, if no comment begins there. -/
theorem of_token_append {kind : TokenKind} {literal rest : List Char} (hasText : kind.HasText literal)
    (solid : ¬['/', '/'] <+: literal ++ rest) (h : Splits (literal ++ rest)) : Splits rest := by
  have others (w : List Char) (noSlash : '/' ∉ w) (h : Splits (w ++ rest)) : Splits rest := by
    induction w with
    | nil => exact h
    | cons d w ih =>
      rw [List.mem_cons, not_or] at noSlash
      refine ih noSlash.2 (h.tail ?_)
      rintro ⟨later, begins⟩
      exact noSlash.1 (List.cons.inj begins).1
  obtain ⟨c, w, rfl⟩ := List.exists_cons_of_ne_nil hasText.ne_nil
  exact others w hasText.slash_notMem_tail (h.tail solid)

/-- A text that splits is over, or goes on with trivia or with a token. -/
theorem exists_token {text : List Char} (h : Splits text) (solid : ¬BeginsTrivia text)
    (goes : text ≠ []) : ∃ kind literal, literal <+: text ∧ TokenKind.HasText kind literal := by
  cases h with
  | nil => exact absurd rfl goes
  | blank blank _ => exact absurd (.inl ⟨_, rfl, blank⟩) solid
  | comment => exact absurd (.inr ⟨_, rfl⟩) solid
  | token hasText _ => exact ⟨_, _, ⟨_, rfl⟩, hasText⟩

end Splits

end ThreeAddress
