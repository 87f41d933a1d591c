import ThreeAddress.Text.Padded

/-!
# Columns of padded text

Words flush left in a column, with another word behind them. The two are told apart by the blanks
between them, as long as the first word leaves room for one; words that fill their columns run
together with what comes next.

## Main definitions

* `Text.EndsWord` says of what follows a word that the word goes no further.
* `Text.padRight_append_eq_iff`: when two such pairs of words are the same text.
-/

namespace ThreeAddress.Text

@[simp] theorem toList_spaces (n : Nat) : (spaces n).toList = List.replicate n ' ' :=
  String.toList_ofList

section

variable (width : Nat) (s : String)

@[simp] theorem toList_padLeft :
    (padLeft width s).toList = List.replicate (width - s.length) ' ' ++ s.toList := by
  rw [padLeft, String.toList_append, toList_spaces]

@[simp] theorem toList_padRight :
    (padRight width s).toList = s.toList ++ List.replicate (width - s.length) ' ' := by
  rw [padRight, String.toList_append, toList_spaces]

end

/-- A word that `rest` follows goes no further: nothing follows, or a blank. -/
def EndsWord (rest : List Char) : Prop :=
  ∀ c ∈ rest.head?, c = ' '

theorem endsWord_nil : EndsWord [] := by
  simp [EndsWord]

theorem endsWord_blank (rest : List Char) : EndsWord (' ' :: rest) := by
  simp [EndsWord]

/-- The first word of a text is what stands before its first blank. -/
theorem takeWhile_word {word rest : List Char} (within : ' ' ∉ word) (ends : EndsWord rest) :
    (word ++ rest).takeWhile (· != ' ') = word := by
  have letters : ∀ c ∈ word, (c != ' ') = true := by
    intro c mem
    rw [bne_iff_ne]
    rintro rfl
    exact within mem
  rw [List.takeWhile_append_of_pos letters]
  cases rest with
  | nil => simp
  | cons c rest => simp [ends c rfl]

theorem word_append_inj {word word' rest rest' : List Char} (within : ' ' ∉ word)
    (within' : ' ' ∉ word') (ends : EndsWord rest) (ends' : EndsWord rest')
    (same : word ++ rest = word' ++ rest') : word = word' ∧ rest = rest' := by
  have first : word = word' := by
    rw [← takeWhile_word within ends, same, takeWhile_word within' ends']
  subst first
  exact ⟨rfl, List.append_cancel_left same⟩

section

variable {width : Nat} {a b : String} {word word' rest rest' : List Char}

/-- A word in a column that it does not fill is followed by a blank. -/
theorem endsWord_padding (narrow : a.length < width) (rest : List Char) :
    EndsWord (List.replicate (width - a.length) ' ' ++ rest) := by
  obtain ⟨n, room⟩ := Nat.exists_eq_succ_of_ne_zero (Nat.sub_ne_zero_of_lt narrow)
  rw [room, List.replicate_succ]
  exact endsWord_blank _

/-- A word that does not fill its column is not mistaken for one that does. -/
theorem padRight_append_ne (within : ' ' ∉ a.toList) (within' : ' ' ∉ b.toList)
    (word_within' : ' ' ∉ word') (ends' : EndsWord rest') (narrow : a.length < width)
    (wide : width ≤ b.length) :
    (padRight width a).toList ++ rest ≠ (padRight width b).toList ++ (word' ++ rest') := by
  intro same
  rw [toList_padRight, toList_padRight, Nat.sub_eq_zero_of_le wide, List.replicate_zero,
    List.append_nil, List.append_assoc, ← List.append_assoc b.toList] at same
  have joined : ' ' ∉ b.toList ++ word' := by
    simp [within', word_within']
  obtain ⟨first, -⟩ := word_append_inj within joined (endsWord_padding narrow _) ends' same
  have length := congrArg List.length first
  rw [List.length_append, String.length_toList, String.length_toList] at length
  omega

/-- Two words one behind the other, the first in a column, are known from their text, except where both
first words fill the column: there only the two words together are known. -/
theorem padRight_append_eq_iff (within : ' ' ∉ a.toList) (within' : ' ' ∉ b.toList)
    (word_within : ' ' ∉ word) (word_within' : ' ' ∉ word') (ends : EndsWord rest)
    (ends' : EndsWord rest') :
    (padRight width a).toList ++ (word ++ rest) = (padRight width b).toList ++ (word' ++ rest') ↔
      rest = rest' ∧ (a = b ∧ word = word' ∨
        width ≤ a.length ∧ width ≤ b.length ∧ a.toList ++ word = b.toList ++ word') := by
  constructor
  · intro same
    rcases Nat.lt_or_ge a.length width with narrow | wide <;>
      rcases Nat.lt_or_ge b.length width with narrow' | wide'
    · rw [toList_padRight, toList_padRight, List.append_assoc, List.append_assoc] at same
      obtain ⟨first, behind⟩ := word_append_inj within within' (endsWord_padding narrow _)
        (endsWord_padding narrow' _) same
      have first := String.toList_inj.mp first
      subst first
      obtain ⟨second, rfl⟩ := word_append_inj word_within word_within' ends ends'
        (List.append_cancel_left behind)
      exact ⟨rfl, .inl ⟨rfl, second⟩⟩
    · exact absurd same (padRight_append_ne within within' word_within' ends' narrow wide')
    · exact absurd same.symm (padRight_append_ne within' within word_within ends narrow' wide)
    · rw [toList_padRight, toList_padRight, Nat.sub_eq_zero_of_le wide, Nat.sub_eq_zero_of_le wide',
        List.replicate_zero, List.append_nil, List.append_nil, ← List.append_assoc,
        ← List.append_assoc] at same
      obtain ⟨joined, rfl⟩ := word_append_inj (by simp [within, word_within])
        (by simp [within', word_within']) ends ends' same
      exact ⟨rfl, .inr ⟨wide, wide', joined⟩⟩
  · rintro ⟨rfl, ⟨rfl, rfl⟩ | ⟨wide, wide', joined⟩⟩
    · rfl
    · simp only [toList_padRight, Nat.sub_eq_zero_of_le wide, Nat.sub_eq_zero_of_le wide',
        List.replicate_zero, List.append_nil, ← List.append_assoc, joined]

end

end ThreeAddress.Text
