import ThreeAddress.Proofs.Code.Placement
import ThreeAddress.Proofs.Machine.Closed

/-!
# Emitted code is closed

The instructions of a statement mention only names that occur in it and temporaries of its own,
and they jump only to labels that they mark. So the machine of a program that was lowered is
closed under the names of the table, and its runs are safe.

## Main definitions

* `Instruction.Within` bounds what an instruction mentions and where it jumps.
* `Stmt.within_segment`: the instructions of a statement keep to what is theirs.
* `Program.closed_load`: the machine of a program is closed.
* `Program.safe_start`: it begins in a safe state.
-/

namespace ThreeAddress

open SymbolTable (temporaryName)

/-! ## What instructions keep to -/

/-- The name occurs, or it is one of the `count` temporaries from number `temp` on. -/
def Mentioned (occurrences : List Occurrence) (temp count : Nat) (name : String) : Prop :=
  (∃ o ∈ occurrences, o.text = name) ∨ ∃ n, temp ≤ n ∧ n < temp + count ∧ temporaryName n = name

/-- What is mentioned in a part is mentioned in the whole. -/
theorem Mentioned.mono {part whole : List Occurrence} {temp temp' count count' : Nat} {name : String}
    (h : Mentioned part temp count name) (sub : part ⊆ whole) (first : temp' ≤ temp)
    (last : temp + count ≤ temp' + count') : Mentioned whole temp' count' name := by
  rcases h with ⟨o, mem, text⟩ | ⟨n, lower, upper, text⟩
  · exact .inl ⟨o, sub mem, text⟩
  · exact .inr ⟨n, by omega, by omega, text⟩

/-- The instruction mentions names that occur and some temporaries, and jumps to some labels
only. -/
structure Instruction.Within (i : Instruction) (occurrences : List Occurrence)
    (temp count label labels : Nat) : Prop where
  mentioned : ∀ name ∈ i.names, Mentioned occurrences temp count name
  target : ∀ l, i.target? = some l → label ≤ l.number ∧ l.number < label + labels

theorem Instruction.Within.mono {i : Instruction} {part whole : List Occurrence}
    {temp temp' count count' label label' labels labels' : Nat}
    (h : i.Within part temp count label labels) (sub : part ⊆ whole)
    (temps : temp' ≤ temp ∧ temp + count ≤ temp' + count')
    (marks : label' ≤ label ∧ label + labels ≤ label' + labels') :
    i.Within whole temp' count' label' labels' := by
  constructor
  · intro name mem
    exact (h.mentioned name mem).mono sub temps.1 temps.2
  · intro l jump
    have bounds := h.target l jump
    omega

/-! ## Expressions -/

theorem Expr.mentioned_result (e : Expr) (temp : Nat) :
    ∀ name ∈ (e.result temp).names, Mentioned e.occurrences temp e.operators name := by
  intro name mem
  cases e with
  | number value => simp [Expr.result, Operand.names] at mem
  | name lexeme =>
    refine .inl ⟨⟨.used, lexeme⟩, by simp [Expr.occurrences], ?_⟩
    simpa [Expr.result, Operand.names, Occurrence.text, eq_comm] using mem
  | binary op lhs rhs =>
    refine .inr ⟨temp + lhs.operators + rhs.operators, by omega, by simp [Expr.operators]; omega, ?_⟩
    simpa [Expr.result, Operand.names, eq_comm] using mem

/-- The instructions of an expression keep to its names and temporaries, and do not jump. -/
theorem Expr.within_segment (e : Expr) {temp : Nat} (label : Nat) {i : Instruction}
    (emitted : i ∈ e.segment temp) : i.Within e.occurrences temp e.operators label 0 := by
  induction e generalizing temp with
  | number _ | name _ => simp [Expr.segment] at emitted
  | binary op lhs rhs ihl ihr =>
    have left : lhs.occurrences ⊆ (Expr.binary op lhs rhs).occurrences := List.subset_append_left _ _
    have right : rhs.occurrences ⊆ (Expr.binary op lhs rhs).occurrences := List.subset_append_right _ _
    have count : (Expr.binary op lhs rhs).operators = lhs.operators + rhs.operators + 1 := rfl
    simp only [Expr.segment, List.mem_append, List.mem_singleton] at emitted
    rcases emitted with (inLeft | inRight) | rfl
    · exact (ihl inLeft).mono left (by omega) (by omega)
    · exact (ihr inRight).mono right (by omega) (by omega)
    · refine ⟨fun name mem => ?_, by simp [Instruction.target?]⟩
      simp only [Instruction.names, List.mem_cons, List.mem_append] at mem
      rcases mem with rfl | inLeft | inRight
      · exact .inr ⟨_, by omega, by omega, rfl⟩
      · exact (lhs.mentioned_result _ name inLeft).mono left (by omega) (by omega)
      · exact (rhs.mentioned_result _ name inRight).mono right (by omega) (by omega)

/-- The instructions that store an expression keep to its names and temporaries and to the name they
store it under. -/
theorem Expr.within_store (e : Expr) (o : Occurrence) {temp : Nat} (label : Nat) {i : Instruction}
    (emitted : i ∈ e.segment temp ++ [.assign o.text (e.result temp)]) :
    i.Within (o :: e.occurrences) temp e.operators label 0 := by
  have later : e.occurrences ⊆ o :: e.occurrences := List.subset_cons_self _ _
  simp only [List.mem_append, List.mem_singleton] at emitted
  rcases emitted with inside | rfl
  · exact (e.within_segment label inside).mono later (by omega) (by omega)
  · refine ⟨fun name mem => ?_, by simp [Instruction.target?]⟩
    rcases List.mem_cons.mp mem with rfl | used
    · exact .inl ⟨o, List.mem_cons_self .., rfl⟩
    · exact (e.mentioned_result temp name used).mono later (by omega) (by omega)

/-- The instruction that tests an expression keeps to the names and temporaries of that, and jumps
to its label. -/
theorem Expr.within_ifFalse (e : Expr) (temp l : Nat) :
    (Instruction.ifFalse (e.result temp) ⟨l⟩).Within e.occurrences temp e.operators l 1 := by
  refine ⟨e.mentioned_result temp, ?_⟩
  rintro _ ⟨⟩
  exact ⟨Nat.le_refl l, Nat.lt_succ_self l⟩

theorem Instruction.within_label (l temp label : Nat) :
    (Instruction.label ⟨l⟩).Within [] temp 0 label 0 :=
  ⟨nofun, nofun⟩

theorem Instruction.within_goto (l temp : Nat) :
    (Instruction.goto ⟨l⟩).Within [] temp 0 l 1 := by
  refine ⟨nofun, ?_⟩
  rintro _ ⟨⟩
  exact ⟨Nat.le_refl l, Nat.lt_succ_self l⟩

/-! ## Statements -/

mutual

/-- The instructions of a statement keep to its names, its temporaries and its labels. -/
theorem Stmt.within_segment (s : Stmt) {label temp : Nat} {i : Instruction}
    (emitted : i ∈ s.segment label temp) :
    i.Within s.occurrences temp s.operators label s.labels := by
  match s with
  | .declare name e _ => exact e.within_store ⟨.declared, name⟩ label emitted
  | .assign name e _ => exact e.within_store ⟨.assigned, name⟩ label emitted
  | .ifThen condition body line =>
    have tested : condition.occurrences ⊆ (Stmt.ifThen condition body line).occurrences :=
      List.subset_append_left _ _
    have nested : body.occurrences ⊆ (Stmt.ifThen condition body line).occurrences :=
      List.subset_append_right _ _
    simp only [Stmt.segment, List.mem_append, List.mem_singleton] at emitted
    simp only [Stmt.operators, Stmt.labels]
    rcases emitted with ((inside | rfl) | inside) | rfl
    · exact (condition.within_segment label inside).mono tested (by omega) (by omega)
    · exact (condition.within_ifFalse temp label).mono tested (by omega) (by omega)
    · exact (Stmt.within_segment body inside).mono nested (by omega) (by omega)
    · exact (Instruction.within_label label temp label).mono (List.nil_subset _) (by omega) (by omega)
  | .ifElse condition body otherwise line =>
    have tested : condition.occurrences ⊆ (Stmt.ifElse condition body otherwise line).occurrences :=
      List.subset_append_of_subset_left _ (List.subset_append_left _ _)
    have nested : body.occurrences ⊆ (Stmt.ifElse condition body otherwise line).occurrences :=
      List.subset_append_of_subset_left _ (List.subset_append_right _ _)
    have other : otherwise.occurrences ⊆ (Stmt.ifElse condition body otherwise line).occurrences :=
      List.subset_append_right _ _
    simp only [Stmt.segment, List.mem_append, List.mem_cons, List.not_mem_nil, or_false] at emitted
    simp only [Stmt.operators, Stmt.labels]
    rcases emitted with ((((inside | rfl) | inside) | rfl | rfl) | inside) | rfl
    · exact (condition.within_segment label inside).mono tested (by omega) (by omega)
    · exact (condition.within_ifFalse temp label).mono tested (by omega) (by omega)
    · exact (Stmt.within_segment body inside).mono nested (by omega) (by omega)
    · exact (Instruction.within_goto (label + 1) temp).mono (List.nil_subset _) (by omega) (by omega)
    · exact (Instruction.within_label label temp label).mono (List.nil_subset _) (by omega) (by omega)
    · exact (Stmt.within_segment otherwise inside).mono other (by omega) (by omega)
    · exact (Instruction.within_label (label + 1) temp label).mono (List.nil_subset _) (by omega)
        (by omega)
  | .loop condition body line =>
    have tested : condition.occurrences ⊆ (Stmt.loop condition body line).occurrences :=
      List.subset_append_left _ _
    have nested : body.occurrences ⊆ (Stmt.loop condition body line).occurrences :=
      List.subset_append_right _ _
    simp only [Stmt.segment, List.mem_append, List.mem_cons, List.not_mem_nil, or_false] at emitted
    simp only [Stmt.operators, Stmt.labels]
    rcases emitted with (((rfl | inside) | rfl) | inside) | rfl | rfl
    · exact (Instruction.within_label label temp label).mono (List.nil_subset _) (by omega) (by omega)
    · exact (condition.within_segment label inside).mono tested (by omega) (by omega)
    · exact (condition.within_ifFalse temp (label + 1)).mono tested (by omega) (by omega)
    · exact (Stmt.within_segment body inside).mono nested (by omega) (by omega)
    · exact (Instruction.within_goto label temp).mono (List.nil_subset _) (by omega) (by omega)
    · exact (Instruction.within_label (label + 1) temp label).mono (List.nil_subset _) (by omega)
        (by omega)
  | .block body => exact Stmt.within_segmentAll body emitted

theorem Stmt.within_segmentAll (body : List Stmt) {label temp : Nat} {i : Instruction}
    (emitted : i ∈ Stmt.segmentAll label temp body) :
    i.Within (Stmt.occurrencesAll body) temp (Stmt.operatorsAll body) label (Stmt.labelsAll body) := by
  match body with
  | [] => simp [Stmt.segmentAll] at emitted
  | s :: rest =>
    have first : s.occurrences ⊆ Stmt.occurrencesAll (s :: rest) := List.subset_append_left _ _
    have later : Stmt.occurrencesAll rest ⊆ Stmt.occurrencesAll (s :: rest) :=
      List.subset_append_right _ _
    have count : Stmt.operatorsAll (s :: rest) = s.operators + Stmt.operatorsAll rest := rfl
    have marks : Stmt.labelsAll (s :: rest) = s.labels + Stmt.labelsAll rest := rfl
    rcases List.mem_append.mp emitted with inside | inside
    · exact (Stmt.within_segment s inside).mono first (by omega) (by omega)
    · exact (Stmt.within_segmentAll rest inside).mono later (by omega) (by omega)

end

/-! ## Programs -/

namespace Program

variable {program : Program} {source : Source} {code : Code} {t : Lowering}

/-- The machine of a program is closed under the names of its table. -/
theorem closed_load (lowered : program.lower source .empty = (.ok code, t)) :
    (Machine.load code t.symbols).Closed (t.symbols.toList.map Symbol.name) := by
  obtain ⟨emitted, entered, known⟩ := lower_eq_ok lowered
  have kept : t.symbols.WellKept := entered ▸ SymbolTable.wellKept_empty.enterAll program
  have complete : t.symbols.Complete := entered ▸ SymbolTable.complete_empty.enterAll program
  have allocated : t.symbols.allocated = 0 + Stmt.operatorsAll program :=
    entered ▸ Stmt.allocated_enterAll program .empty
  have within : ∀ (pc : Nat) (i : Instruction), code[pc]? = some i →
      i.Within (Stmt.occurrencesAll program) 0 (Stmt.operatorsAll program) 0
        (Stmt.labelsAll program) := by
    intro pc i fetch
    have mem : i ∈ code.toList := Array.mem_toList_iff.mpr (Array.mem_of_getElem? fetch)
    exact Stmt.within_segmentAll program (emitted ▸ mem)
  rw [kept.map_name_toList]
  constructor
  · intro pc i fetch name mem
    rw [← SymbolTable.contains_eq_true_iff]
    rcases (within pc i fetch).mentioned name mem with ⟨o, occurs, rfl⟩ | ⟨n, -, upper, rfl⟩
    · exact known _ (List.mem_map.mpr ⟨o, occurs, rfl⟩)
    · exact complete n (by omega)
  · intro pc i l fetch jump
    have marked : l ∈ code.marks := by
      rw [Code.marks, emitted, (Stmt.marks_segmentAll_perm program 0 0).mem_iff, mem_labelRange]
      exact (within pc i fetch).target l jump
    obtain ⟨place, mark⟩ := Code.mem_marks.mp marked
    exact ⟨place, (Code.get?_labels (nodup_marks lowered)).mpr mark,
      (Array.getElem?_eq_some_iff.mp mark).1⟩

/-- The machine of a program begins in a safe state. -/
theorem safe_start (lowered : program.lower source .empty = (.ok code, t)) :
    (Machine.load code t.symbols).Safe (t.symbols.toList.map Symbol.name) (.start t.symbols) := by
  obtain ⟨-, entered, -⟩ := lower_eq_ok lowered
  have kept : t.symbols.WellKept := entered ▸ SymbolTable.wellKept_empty.enterAll program
  exact ⟨kept.keys_initialStore, Nat.zero_le _⟩

end Program

end ThreeAddress
