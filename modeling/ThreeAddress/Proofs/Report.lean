import ThreeAddress.Proofs.SymbolTable
import ThreeAddress.Proofs.Text.Padded
import ThreeAddress.Proofs.Text.Place
import ThreeAddress.Proofs.Token.Longest
import ThreeAddress.Report
import Mathlib.Data.List.Forall2

/-!
# What a report tells

The table of symbols is reported in columns, which are padded and never cut, and no blank is kept
between a text that fills its column and the next one. Names and kinds are known from their row all
the same. A value of twelve characters or more runs together with the line behind it: of these two
only the characters taken together are known.

## Main definitions

* `IsSymbolName` tells the names that come into a table.
* `Symbol.RunsTogether` says that value and line of a symbol are not set apart, and
  `Symbol.LooksLike` that two symbols have the same row.
* `SymbolTable.symbolRow_eq_iff`: rows are the same just for symbols that look alike.
* `SymbolTable.render_exact`: reports are the same just if the symbols look alike one by one.
-/

namespace ThreeAddress

/-! ## Names -/

/-- The names that come into a table: identifiers, and the names of temporaries. -/
def IsSymbolName (name : String) : Prop :=
  isIdentifier name ∨ ∃ n, name = SymbolTable.temporaryName n

/-- Names are made of letters, digits and underscores, and percent signs. -/
theorem IsSymbolName.mem {name : String} (named : IsSymbolName name) {c : Char}
    (mem : c ∈ name.toList) : c = '%' ∨ continuesName c := by
  rcases named with identifier | ⟨n, rfl⟩
  · exact .inr (continuesName_of_mem identifier mem)
  · have mem : c = '%' ∨ c = 't' ∨ c ∈ Decimal.digits n := by
      simpa [SymbolTable.temporaryName] using mem
    rcases mem with percent | rfl | digit
    · exact .inl percent
    · exact .inr (by decide)
    · have digit := Decimal.isDigit_of_mem_digits digit
      exact .inr (by simp [continuesName, Char.isAlphanum, digit])

theorem IsSymbolName.blank_notMem {name : String} (named : IsSymbolName name) : ' ' ∉ name.toList :=
  fun mem => absurd (named.mem mem) (by decide)

theorem IsSymbolName.newline_notMem {name : String} (named : IsSymbolName name) :
    '\n' ∉ name.toList :=
  fun mem => absurd (named.mem mem) (by decide)

/-! ## Rows -/

namespace Symbol

/-- The text of the value in the row of a symbol. -/
def valueText (s : Symbol) : String :=
  match s.value with
  | some value => Decimal.ofWord value
  | none => "undefined"

/-- The text of the line in the row of a symbol. -/
def lineText (s : Symbol) : String :=
  match s.line with
  | some line => Decimal.ofNat line
  | none => "-"

/-- The value fills its column, and a line stands directly behind it. -/
def RunsTogether (s : Symbol) : Prop :=
  12 ≤ s.valueText.length ∧ s.line.isSome

/-- The symbols have the same name and the same kind; and the same value and the same line, or values
and lines that run together to the same text. -/
structure LooksLike (s s' : Symbol) : Prop where
  name_eq : s.name = s'.name
  kind_eq : s.kind = s'.kind
  rest_eq : (s.value = s'.value ∧ s.line = s'.line) ∨
    (s.RunsTogether ∧ s'.RunsTogether ∧ s.valueText ++ s.lineText = s'.valueText ++ s'.lineText)

/-- What the report is to tell of a symbol. -/
def entry (s : Symbol) : String × SymbolKind × Option Int64 × Option Nat :=
  (s.name, s.kind, s.value, s.line)

variable {s s' : Symbol}

/-- The characters of a value. -/
theorem mem_valueText {c : Char} (mem : c ∈ s.valueText.toList) :
    c = '-' ∨ c.isDigit ∨ c ∈ "undefined".toList := by
  rw [valueText] at mem
  split at mem
  · exact (Decimal.mem_ofWord mem).imp_right .inl
  · exact .inr (.inr mem)

theorem mem_lineText {c : Char} (mem : c ∈ s.lineText.toList) : c = '-' ∨ c.isDigit := by
  rw [lineText] at mem
  split at mem
  · exact .inr (Decimal.isDigit_of_mem_ofNat mem)
  · exact .inl (by simpa using mem)

theorem valueText_inj : s.valueText = s'.valueText ↔ s.value = s'.value := by
  -- no number is written with a letter
  have undefined : ∀ n : Int64, Decimal.ofWord n ≠ "undefined" := by
    intro n same
    have letter : 'u' ∈ (Decimal.ofWord n).toList := by rw [same]; decide
    exact absurd (Decimal.mem_ofWord letter) (by decide)
  rw [valueText, valueText]
  cases s.value with
  | none => cases s'.value <;> simp [(undefined _).symm]
  | some n =>
    cases s'.value with
    | none => simp [undefined]
    | some n' => simpa using ⟨Decimal.ofWord_injective, congrArg Decimal.ofWord⟩

/-- A line is a number, and no number ends like the dash of a missing line. -/
theorem getLast?_lineText : s.lineText.toList.getLast? = some '-' ↔ s.line = none := by
  rw [lineText]
  cases s.line with
  | none => simp
  | some line =>
    simp only [reduceCtorEq, iff_false]
    intro dash
    exact absurd (Decimal.isDigit_of_mem_ofNat (List.mem_of_getLast? dash)) (by decide)

theorem lineText_ne_nil : s.lineText.toList ≠ [] := by
  rw [lineText]
  cases s.line with
  | none => simp
  | some line => simpa using Decimal.digits_ne_nil line

theorem lineText_inj : s.lineText = s'.lineText ↔ s.line = s'.line := by
  refine ⟨fun same => ?_, fun same => by rw [lineText, lineText, same]⟩
  have missing : s.line = none ↔ s'.line = none := by
    rw [← getLast?_lineText, same, getLast?_lineText]
  rw [lineText, lineText] at same
  cases line : s.line with
  | none => exact (missing.mp line).symm
  | some n =>
    cases line' : s'.line with
    | none => simp [missing.mpr line'] at line
    | some n' =>
      rw [line, line'] at same
      rw [Decimal.ofNat_injective same]

/-- What follows the name in a row. -/
def columns (s : Symbol) : List Char :=
  s.kind.word.toList ++ (List.replicate (12 - s.kind.word.length) ' ' ++
    ((Text.padRight 12 s.valueText).toList ++ (s.lineText.toList ++ [])))

theorem toList_symbolRow :
    (SymbolTable.symbolRow s).toList = (Text.padRight 10 s.name).toList ++ s.columns := by
  have columnwise : SymbolTable.symbolRow s =
      SymbolTable.row s.name s.kind.word s.valueText s.lineText := rfl
  rw [columnwise, SymbolTable.row, columns]
  simp

theorem blank_notMem_valueText : ' ' ∉ s.valueText.toList :=
  fun mem => absurd (mem_valueText mem) (by decide)

theorem blank_notMem_lineText : ' ' ∉ s.lineText.toList :=
  fun mem => absurd (mem_lineText mem) (by decide)

/-- The value and the line are known from the end of a row, unless they run together. -/
theorem value_line_eq_iff :
    (Text.padRight 12 s.valueText).toList ++ (s.lineText.toList ++ []) =
        (Text.padRight 12 s'.valueText).toList ++ (s'.lineText.toList ++ []) ↔
      (s.value = s'.value ∧ s.line = s'.line) ∨
        (s.RunsTogether ∧ s'.RunsTogether ∧
          s.valueText ++ s.lineText = s'.valueText ++ s'.lineText) := by
  rw [Text.padRight_append_eq_iff blank_notMem_valueText blank_notMem_valueText blank_notMem_lineText
    blank_notMem_lineText Text.endsWord_nil Text.endsWord_nil, String.toList_inj, valueText_inj,
    lineText_inj, ← String.toList_append, ← String.toList_append, String.toList_inj]
  constructor
  · rintro ⟨-, apart | ⟨wide, wide', joined⟩⟩
    · exact .inl apart
    · have last := congrArg (fun text : String => text.toList.getLast?) joined
      simp only [String.toList_append, List.getLast?_append_of_ne_nil _ lineText_ne_nil] at last
      have missing : s.line = none ↔ s'.line = none := by
        rw [← getLast?_lineText, last, getLast?_lineText]
      by_cases dash : s.line = none
      · -- two dashes: what stands before them is the same
        have same : s.line = s'.line := dash.trans (missing.mp dash).symm
        rw [lineText_inj.mpr same, String.append_left_inj, valueText_inj] at joined
        exact .inl ⟨joined, same⟩
      · have dash' := mt missing.mpr dash
        rw [← ne_eq, ← Option.isSome_iff_ne_none] at dash dash'
        exact .inr ⟨⟨wide, dash⟩, ⟨wide', dash'⟩, joined⟩
  · rintro (apart | ⟨⟨wide, -⟩, ⟨wide', -⟩, joined⟩)
    · exact ⟨rfl, .inl apart⟩
    · exact ⟨rfl, .inr ⟨wide, wide', joined⟩⟩

/-- A kind is known from the last letter of its word. -/
theorem append_word_inj {xs ys : List Char} {kind kind' : SymbolKind} :
    xs ++ kind.word.toList = ys ++ kind'.word.toList ↔ xs = ys ∧ kind = kind' := by
  constructor
  · intro same
    have last := congrArg List.getLast? same
    have kind_eq : kind = kind' := by
      cases kind <;> cases kind' <;> simp [SymbolKind.word] at last ⊢
    subst kind_eq
    exact ⟨List.append_cancel_right same, rfl⟩
  · rintro ⟨rfl, rfl⟩
    rfl

/-- Rows are the same just for symbols that look alike. -/
theorem symbolRow_eq_iff (named : IsSymbolName s.name) (named' : IsSymbolName s'.name) :
    SymbolTable.symbolRow s = SymbolTable.symbolRow s' ↔ s.LooksLike s' := by
  have narrow : ∀ kind : SymbolKind, kind.word.length < 12 := by
    intro kind
    cases kind <;> decide
  have blank : ∀ kind : SymbolKind, ' ' ∉ kind.word.toList := by
    intro kind
    cases kind <;> decide
  rw [← String.toList_inj, toList_symbolRow, toList_symbolRow, columns, columns,
    Text.padRight_append_eq_iff named.blank_notMem named'.blank_notMem (blank _) (blank _)
      (Text.endsWord_padding (narrow _) _) (Text.endsWord_padding (narrow _) _)]
  constructor
  · rintro ⟨rest, front⟩
    have front : s.name.toList = s'.name.toList ∧ s.kind = s'.kind := by
      rcases front with ⟨name_eq, word_eq⟩ | ⟨-, -, joined⟩
      · exact append_word_inj.mp (by rw [name_eq, word_eq])
      · exact append_word_inj.mp joined
    obtain ⟨name_eq, kind_eq⟩ := front
    rw [kind_eq] at rest
    exact ⟨String.toList_inj.mp name_eq, kind_eq,
      value_line_eq_iff.mp (List.append_cancel_left rest)⟩
  · rintro ⟨name_eq, kind_eq, rest_eq⟩
    rw [name_eq, kind_eq, value_line_eq_iff.mpr rest_eq]
    exact ⟨rfl, .inl ⟨rfl, rfl⟩⟩

theorem newline_notMem_symbolRow (named : IsSymbolName s.name) :
    '\n' ∉ (SymbolTable.symbolRow s).toList := by
  have word : '\n' ∉ s.kind.word.toList := by
    cases s.kind <;> decide
  have value : '\n' ∉ s.valueText.toList := fun mem => absurd (mem_valueText mem) (by decide)
  have line : '\n' ∉ s.lineText.toList := fun mem => absurd (mem_lineText mem) (by decide)
  simp [toList_symbolRow, columns, named.newline_notMem, word, value, line]

/-- Symbols that look alike are the same, unless value and line run together. -/
theorem LooksLike.entry_eq (alike : s.LooksLike s') (apart : ¬s.RunsTogether) : s.entry = s'.entry := by
  rcases alike.rest_eq with ⟨value_eq, line_eq⟩ | ⟨together, -⟩
  · rw [entry, entry, alike.name_eq, alike.kind_eq, value_eq, line_eq]
  · exact absurd together apart

theorem map_entry_eq {ss ss' : List Symbol} (alike : List.Forall₂ LooksLike ss ss')
    (apart : ∀ s ∈ ss, ¬s.RunsTogether) : ss.map entry = ss'.map entry := by
  induction alike with
  | nil => rfl
  | cons head _ ih =>
    rw [List.forall_mem_cons] at apart
    rw [List.map_cons, List.map_cons, head.entry_eq apart.1, ih apart.2]

end Symbol

/-! ## The table -/

namespace SymbolTable

/-- Rows are compared one by one. -/
theorem map_symbolRow_eq_iff {ss ss' : List Symbol} (named : ∀ s ∈ ss, IsSymbolName s.name)
    (named' : ∀ s ∈ ss', IsSymbolName s.name) :
    ss.map symbolRow = ss'.map symbolRow ↔ List.Forall₂ Symbol.LooksLike ss ss' := by
  induction ss generalizing ss' with
  | nil => cases ss' <;> simp
  | cons s ss ih =>
    cases ss' with
    | nil => simp
    | cons s' ss' =>
      rw [List.forall_mem_cons] at named named'
      rw [List.map_cons, List.map_cons, List.cons.injEq, List.forall₂_cons,
        Symbol.symbolRow_eq_iff named.1 named'.1, ih named.2 named'.2]

/-- The lines of a reported table. -/
theorem lines_render {t : SymbolTable} (named : ∀ s ∈ t.toList, IsSymbolName s.name) :
    lines t.render.toList =
      (row "name" "kind" "value" "line" :: ruler :: t.toList.map symbolRow).map String.toList := by
  rw [render, String.toList_intercalate]
  refine lines_intercalate (by simp) ?_
  simp only [List.map_cons, List.map_map, List.forall_mem_cons, List.forall_mem_map]
  refine ⟨?_, ?_, fun s mem => Symbol.newline_notMem_symbolRow (named s mem)⟩
  · decide +kernel
  · decide +kernel

/-- Reports are the same just if the symbols look alike one by one; and then the tables have the same
names, kinds, values and lines, if in one of them no value runs together with its line. -/
theorem render_exact {t t' : SymbolTable} (named : ∀ s ∈ t.toList, IsSymbolName s.name)
    (named' : ∀ s ∈ t'.toList, IsSymbolName s.name) :
    (t.render = t'.render ↔ List.Forall₂ Symbol.LooksLike t.toList t'.toList) ∧
    ((∀ s ∈ t.toList, ¬s.RunsTogether) → t.render = t'.render →
      t.toList.map Symbol.entry = t'.toList.map Symbol.entry) := by
  have alike : t.render = t'.render ↔ List.Forall₂ Symbol.LooksLike t.toList t'.toList := by
    rw [← map_symbolRow_eq_iff named named']
    constructor
    · intro same
      have rows := lines_render named
      rw [same, lines_render named', List.map_inj_right fun _ _ => String.toList_inj.mp] at rows
      simpa using rows.symm
    · intro rows
      rw [render, render, rows]
  exact ⟨alike, fun apart same => Symbol.map_entry_eq (alike.mp same) apart⟩

/-- Two values that run together with their lines; and a long value without a line, in two tables that
differ only in what is not reported. -/
theorem render_exact_long :
    let long : SymbolTable := empty.put (.new "a" .declared (some 123456789012) (some 34))
    let longer : SymbolTable := empty.put (.new "a" .declared (some 1234567890123) (some 4))
    let least : SymbolTable := empty.put ⟨"%t0", .temporary, ⟨some Int64.minValue, true⟩, none⟩
    let unset : SymbolTable := empty.put ⟨"%t0", .temporary, ⟨some Int64.minValue, false⟩, none⟩
    (∀ s ∈ long.toList, IsSymbolName s.name) ∧ (∀ s ∈ longer.toList, IsSymbolName s.name) ∧
      List.Forall₂ Symbol.LooksLike long.toList longer.toList ∧ long.render = longer.render ∧
      (∀ s ∈ least.toList, IsSymbolName s.name) ∧ (∀ s ∈ unset.toList, IsSymbolName s.name) ∧
      (∀ s ∈ least.toList, ¬s.RunsTogether) ∧ least.render = unset.render ∧
      least.toList.map Symbol.entry = unset.toList.map Symbol.entry := by
  intro long longer least unset
  have named : ∀ s ∈ long.toList, IsSymbolName s.name :=
    List.forall_mem_singleton.mpr (.inl (by decide))
  have named' : ∀ s ∈ longer.toList, IsSymbolName s.name :=
    List.forall_mem_singleton.mpr (.inl (by decide))
  have temporary : IsSymbolName "%t0" := .inr ⟨0, by decide +kernel⟩
  have least_named : ∀ s ∈ least.toList, IsSymbolName s.name :=
    List.forall_mem_singleton.mpr temporary
  have unset_named : ∀ s ∈ unset.toList, IsSymbolName s.name :=
    List.forall_mem_singleton.mpr temporary
  have alike : List.Forall₂ Symbol.LooksLike long.toList longer.toList :=
    .cons ⟨rfl, rfl, .inr ⟨⟨by decide +kernel, rfl⟩, ⟨by decide +kernel, rfl⟩, by decide +kernel⟩⟩ .nil
  have apart : ∀ s ∈ least.toList, ¬s.RunsTogether :=
    List.forall_mem_singleton.mpr fun together => Bool.false_ne_true together.2
  have same : least.render = unset.render := rfl
  exact ⟨named, named', alike, (render_exact named named').1.mpr alike, least_named, unset_named, apart,
    same, (render_exact least_named unset_named).2 apart same⟩

/-- The value and the line of a symbol cannot be told from the report: here one digit is the last of
the value, or the first of the line. -/
theorem render_not_injective :
    let long : SymbolTable := empty.put (.new "a" .declared (some 123456789012) (some 34))
    let longer : SymbolTable := empty.put (.new "a" .declared (some 1234567890123) (some 4))
    (∀ s ∈ long.toList, isIdentifier s.name) ∧ (∀ s ∈ longer.toList, isIdentifier s.name) ∧
      long.render = longer.render ∧ long.toList.map Symbol.entry ≠ longer.toList.map Symbol.entry := by
  refine ⟨by decide, by decide, ?_, by decide⟩
  decide +kernel

end SymbolTable

end ThreeAddress
