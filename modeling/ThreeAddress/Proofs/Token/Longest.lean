import ThreeAddress.Proofs.Program.Occurrence
import ThreeAddress.Token.Munch

/-!
# Longest tokens

The words of the language, told apart from any reading of a text: which texts the tokens of a kind
have. What a text is found to begin with is then the longest of these words that it begins with,
and nothing is found just where it begins with none.

## Main definitions

* `TokenKind.HasText` says which texts tokens of a kind have.
* `IsLongestToken` says that a text begins with a token, and with no longer one.
* `munch?_eq_some_iff` and `munch?_eq_none_iff`: what is found is the longest token.
-/

namespace ThreeAddress

/-- The texts that tokens of a kind have: one character or two, a run of digits, or a name. The end
of the input is not found in a text. -/
def TokenKind.HasText : TokenKind → List Char → Prop
  | openBrace, w => w = ['{']
  | closeBrace, w => w = ['}']
  | openParen, w => w = ['(']
  | closeParen, w => w = [')']
  | semicolon, w => w = [';']
  | number, w => w ≠ [] ∧ ∀ c ∈ w, c.isDigit
  | identifier, w => isIdentifier (String.ofList w) ∧ ∀ k : Keyword, k.word ≠ String.ofList w
  | keyword k, w => k.word = String.ofList w
  | operator sign true, w => w = [sign.char, '='] ∧ sign.takesEqual
  | operator sign false, w => w = [sign.char] ∧ sign ≠ .bang
  | eof, _ => False

/-- The text begins with the literal as a token of the kind, and with no longer token. -/
structure IsLongestToken (text : List Char) (kind : TokenKind) (literal : List Char) : Prop where
  begins : literal <+: text
  hasText : kind.HasText literal
  longest : ∀ (kind' : TokenKind) (literal' : List Char), literal' <+: text → kind'.HasText literal' →
    literal'.length ≤ literal.length

/-! ## Words -/

namespace Keyword

theorem ofName?_eq_some_iff {name : String} {k : Keyword} : ofName? name = some k ↔ k.word = name := by
  constructor
  · intro found
    simpa using List.find?_some found
  · rintro rfl
    cases k <;> decide

theorem ofName?_eq_none_iff {name : String} : ofName? name = none ↔ ∀ k : Keyword, k.word ≠ name := by
  simp only [Option.eq_none_iff_forall_ne_some, ne_eq, ofName?_eq_some_iff]

/-- A keyword is spelled like a name. -/
theorem isIdentifier_word (k : Keyword) : isIdentifier k.word := by
  cases k <;> decide

end Keyword

theorem isIdentifier_ofList_iff {w : List Char} :
    isIdentifier (String.ofList w) ↔
      ∃ c rest, w = c :: rest ∧ startsName c ∧ ∀ d ∈ rest, continuesName d := by
  cases w with
  | nil => simp [isIdentifier]
  | cons c rest =>
    simp only [isIdentifier, String.toList_ofList, Bool.and_eq_true, List.all_eq_true, List.cons.injEq]
    constructor
    · intro h
      exact ⟨c, rest, ⟨rfl, rfl⟩, h⟩
    · rintro ⟨c', rest', ⟨rfl, rfl⟩, h⟩
      exact h

/-- Every character of a name may go on with one. -/
theorem continuesName_of_mem {text : String} (named : isIdentifier text) {c : Char}
    (mem : c ∈ text.toList) : continuesName c := by
  obtain ⟨first, rest, split, starts, continues⟩ :=
    isIdentifier_ofList_iff.mp (text.ofList_toList.symm ▸ named)
  rw [split] at mem
  rcases List.mem_cons.mp mem with rfl | later
  · simp only [startsName, continuesName, Char.isAlphanum, Bool.or_eq_true] at starts ⊢
    exact starts.imp_left .inl
  · exact continues c later

/-- A word is a token of its kind. -/
theorem hasText_wordKind {word : List Char} (h : isIdentifier (String.ofList word)) :
    (wordKind word).HasText word := by
  rw [wordKind]
  cases found : Keyword.ofName? (String.ofList word) with
  | some k => exact Keyword.ofName?_eq_some_iff.mp found
  | none => exact ⟨h, Keyword.ofName?_eq_none_iff.mp found⟩

theorem startsName_eq_false_of_isDigit {c : Char} (h : c.isDigit) : startsName c = false := by
  have digit : c.toNat ≤ 57 := (Char.isDigit_iff_toNat.mp h).2
  have upper : ¬ 'A'.val ≤ c.val := fun letter =>
    absurd (UInt32.le_iff_toNat_le.mp letter) (Nat.not_le_of_lt (Nat.lt_of_le_of_lt digit (by decide)))
  have lower : ¬ 'a'.val ≤ c.val := fun letter =>
    absurd (UInt32.le_iff_toNat_le.mp letter) (Nat.not_le_of_lt (Nat.lt_of_le_of_lt digit (by decide)))
  have alpha : c.isAlpha = false :=
    Bool.or_eq_false_iff.mpr ⟨decide_eq_false (upper ·.1),
      Bool.and_eq_false_imp.mpr fun letter => absurd (of_decide_eq_true letter) lower⟩
  have underscore : c ≠ '_' := by
    rintro rfl
    revert digit
    decide
  rw [startsName, alpha, Bool.false_or]
  exact decide_eq_false underscore

theorem Sign.char_of_ofChar? {c : Char} {sign : Sign} (h : ofChar? c = some sign) : sign.char = c := by
  simpa using List.find?_some h

/-! ## What is found is a token -/

theorem hasText_of_delimiter? {c : Char} {kind : TokenKind} (h : delimiter? c = some kind) :
    kind.HasText [c] := by
  simp only [delimiter?] at h
  split at h <;> cases h <;> rfl

theorem hasText_of_operatorAt? {sign : Sign} {rest literal : List Char} {kind : TokenKind}
    (h : operatorAt? sign sign.char rest = some (kind, literal)) :
    literal <+: sign.char :: rest ∧ kind.HasText literal := by
  simp only [operatorAt?] at h
  split at h
  next equal =>
    cases h
    rw [Bool.and_eq_true, decide_eq_true_eq] at equal
    obtain ⟨later, rfl⟩ := List.head?_eq_some_iff.mp equal.2
    exact ⟨⟨later, rfl⟩, rfl, equal.1⟩
  next =>
    split at h
    next => cases h
    next lone =>
      cases h
      exact ⟨⟨rest, rfl⟩, rfl, lone⟩

/-- What is found at the beginning of a text is a token, and the text begins with it. -/
theorem hasText_of_munch? {text literal : List Char} {kind : TokenKind}
    (h : munch? text = some (kind, literal)) : literal <+: text ∧ kind.HasText literal := by
  cases text with
  | nil => cases h
  | cons c rest =>
    rw [munch?] at h
    split at h
    next starts =>
      cases h
      refine ⟨(List.prefix_cons_inj c).mpr (List.takeWhile_prefix _), hasText_wordKind ?_⟩
      exact isIdentifier_ofList_iff.mpr ⟨c, _, rfl, starts, List.all_eq_true.mp List.all_takeWhile⟩
    next =>
      split at h
      next digit =>
        cases h
        refine ⟨(List.prefix_cons_inj c).mpr (List.takeWhile_prefix _), by simp, ?_⟩
        exact List.forall_mem_cons.mpr ⟨digit, List.all_eq_true.mp List.all_takeWhile⟩
      next =>
        split at h
        next delimiter =>
          cases h
          exact ⟨⟨rest, rfl⟩, hasText_of_delimiter? delimiter⟩
        next sign =>
          rw [← Sign.char_of_ofChar? sign] at h ⊢
          exact hasText_of_operatorAt? h
        next => cases h

/-! ## No longer token is missed -/

/-- At a token, one is found that is at least as long; of the tokens with that very text there is
but one. -/
theorem munch?_append {kind : TokenKind} {w : List Char} (h : kind.HasText w) (rest : List Char) :
    ∃ kind' more, munch? (w ++ rest) = some (kind', w ++ more) ∧ (more = [] → kind' = kind) := by
  have word (named : isIdentifier (String.ofList w)) (same : wordKind w = kind) :
      ∃ kind' more, munch? (w ++ rest) = some (kind', w ++ more) ∧ (more = [] → kind' = kind) := by
    obtain ⟨c, cs, rfl, starts, continues⟩ := isIdentifier_ofList_iff.mp named
    refine ⟨wordKind (c :: (cs ++ rest.takeWhile continuesName)), rest.takeWhile continuesName, ?_, ?_⟩
    · rw [List.cons_append, munch?, if_pos starts, List.takeWhile_append_of_pos continues]
      rfl
    · intro last
      rw [last, List.append_nil, same]
  cases kind with
  | identifier =>
    refine word h.1 ?_
    rw [wordKind, Keyword.ofName?_eq_none_iff.mpr h.2]
  | keyword k =>
    refine word (h ▸ k.isIdentifier_word) ?_
    rw [wordKind, Keyword.ofName?_eq_some_iff.mpr h]
  | number =>
    obtain ⟨nonempty, digits⟩ := h
    obtain ⟨c, cs, rfl⟩ := List.exists_cons_of_ne_nil nonempty
    rw [List.forall_mem_cons] at digits
    refine ⟨.number, rest.takeWhile Char.isDigit, ?_, fun _ => rfl⟩
    rw [List.cons_append, munch?, if_neg (by simp [startsName_eq_false_of_isDigit digits.1]),
      if_pos digits.1, List.takeWhile_append_of_pos digits.2]
    rfl
  | operator sign withEqual =>
    cases withEqual with
    | true =>
      obtain ⟨rfl, takes⟩ := h
      refine ⟨.operator sign true, [], ?_, fun _ => rfl⟩
      cases sign <;> first | rfl | cases takes
    | false =>
      obtain ⟨rfl, lone⟩ := h
      have found : munch? (sign.char :: rest) = operatorAt? sign sign.char rest := by
        cases sign <;> rfl
      rw [List.singleton_append, found, operatorAt?]
      split
      next => exact ⟨_, ['='], rfl, fun h => absurd h (List.cons_ne_nil _ _)⟩
      next => exact ⟨_, [], rfl, fun _ => rfl⟩
  | eof => cases h
  | _ => exact ⟨_, [], by rw [h]; rfl, fun _ => rfl⟩

/-- A token has at least one character. -/
theorem TokenKind.HasText.ne_nil {kind : TokenKind} {w : List Char} (h : kind.HasText w) : w ≠ [] := by
  rintro rfl
  obtain ⟨_, _, munched, -⟩ := munch?_append h []
  cases munched

/-- A text is the text of one kind of token at most. -/
theorem TokenKind.HasText.unique {kind kind' : TokenKind} {w : List Char} (h : kind.HasText w)
    (h' : kind'.HasText w) : kind = kind' := by
  obtain ⟨found, more, munched, same⟩ := munch?_append h []
  obtain ⟨found', more', munched', same'⟩ := munch?_append h' []
  have none : more = [] := by
    have within := (hasText_of_munch? munched).1.length_le
    simp only [List.append_nil, List.length_append] at within
    exact List.length_eq_zero_iff.mp (by omega)
  subst none
  rw [munched, Option.some_inj, Prod.mk.injEq, List.append_cancel_left_eq] at munched'
  rw [← same rfl, ← same' munched'.2.symm, munched'.1]

variable {text literal : List Char} {kind : TokenKind}

theorem isLongestToken_of_munch? (h : munch? text = some (kind, literal)) :
    IsLongestToken text kind literal := by
  obtain ⟨begins, hasText⟩ := hasText_of_munch? h
  refine ⟨begins, hasText, ?_⟩
  rintro kind' literal' ⟨rest, rfl⟩ hasText'
  obtain ⟨_, more, munched, -⟩ := munch?_append hasText' rest
  rw [h, Option.some_inj, Prod.mk.injEq] at munched
  rw [munched.2, List.length_append]
  exact Nat.le_add_right ..

/-- What is found at the beginning of a text is the longest token that it begins with. -/
theorem munch?_eq_some_iff : munch? text = some (kind, literal) ↔ IsLongestToken text kind literal := by
  refine ⟨isLongestToken_of_munch?, fun h => ?_⟩
  obtain ⟨rest, rfl⟩ := h.begins
  obtain ⟨kind', more, munched, same⟩ := munch?_append h.hasText rest
  have found := isLongestToken_of_munch? munched
  have within := h.longest _ _ found.begins found.hasText
  have none : more = [] := by
    rw [List.length_append] at within
    exact List.length_eq_zero_iff.mp (by omega)
  rw [munched, same none, none, List.append_nil]

/-- Nothing is found just where a text begins with no token. -/
theorem munch?_eq_none_iff :
    munch? text = none ↔ ∀ kind literal, literal <+: text → ¬TokenKind.HasText kind literal := by
  constructor
  · rintro h kind _ ⟨rest, rfl⟩ hasText
    obtain ⟨_, _, munched, -⟩ := munch?_append hasText rest
    rw [h] at munched
    cases munched
  · intro h
    cases munched : munch? text with
    | none => rfl
    | some found =>
      obtain ⟨begins, hasText⟩ := hasText_of_munch? munched
      exact absurd hasText (h _ _ begins)

end ThreeAddress
