import ThreeAddress.Code.Labels
import ThreeAddress.Proofs.Code.Emission
import Mathlib.Data.List.Perm.Basic

/-!
# Where instructions stand

The places of a segment inside a longer sequence of instructions, and the places of labels. The
labels that a statement marks are the next ones in number, each marked once, in some order; so in
emitted code every label has exactly one place, and the map of labels finds it.

## Main definitions

* `Instruction.mark?` is the label that an instruction marks, and `Code.marks` are all of them.
* `Code.HasAt code pc segment` says that `segment` stands in `code` from `pc` on.
* `Stmt.marks_segment_perm` counts the labels that a statement marks.
* `Code.get?_labels`: where every label has one place, the map of labels finds it.
-/

namespace ThreeAddress

/-- The label that the instruction marks. -/
def Instruction.mark? : Instruction → Option Label
  | .label l => some l
  | _ => none

namespace Code

/-- The labels that the instructions mark, in the order of their places. -/
def marks (code : Code) : List Label :=
  code.toList.filterMap Instruction.mark?

/-! ## The map of labels -/

theorem map_fst_labelsFrom (index : Nat) (instructions : List Instruction) :
    (labelsFrom index instructions).map Prod.fst = instructions.filterMap Instruction.mark? := by
  induction instructions generalizing index with
  | nil => rfl
  | cons i rest ih => cases i <;> simp [labelsFrom, List.filterMap_cons, Instruction.mark?, ih]

theorem mem_labelsFrom {index place : Nat} {l : Label} {instructions : List Instruction} :
    (l, place) ∈ labelsFrom index instructions ↔
      ∃ k, place = index + k ∧ instructions[k]? = some (.label l) := by
  induction instructions generalizing index with
  | nil => simp [labelsFrom]
  | cons i rest ih =>
    have later : (l, place) ∈ labelsFrom (index + 1) rest ↔
        ∃ k, place = index + (k + 1) ∧ (i :: rest)[k + 1]? = some (.label l) := by
      simp [ih, Nat.add_assoc, Nat.add_comm 1]
    have here : (∃ k, place = index + k ∧ (i :: rest)[k]? = some (.label l)) ↔
        (place = index ∧ i = .label l) ∨
          ∃ k, place = index + (k + 1) ∧ (i :: rest)[k + 1]? = some (.label l) := by
      constructor
      · rintro ⟨_ | k, hplace, hk⟩
        · exact .inl ⟨hplace, by simpa using hk⟩
        · exact .inr ⟨k, hplace, hk⟩
      · rintro (⟨hplace, rfl⟩ | ⟨k, hplace, hk⟩)
        · exact ⟨0, hplace, rfl⟩
        · exact ⟨k + 1, hplace, hk⟩
    rw [here, ← later]
    cases i <;> simp [labelsFrom, and_comm, eq_comm]

/-- A label that is marked has a place. -/
theorem mem_marks {code : Code} {l : Label} :
    l ∈ code.marks ↔ ∃ place : Nat, code[place]? = some (.label l) := by
  have only : ∀ i : Instruction, i.mark? = some l ↔ i = .label l := by
    intro i
    cases i <;> simp [Instruction.mark?]
  simp only [marks, List.mem_filterMap, only, exists_eq_right]
  rw [List.mem_iff_getElem?]
  simp

/-- Where every label has one place, the map of labels finds it. -/
theorem get?_labels {code : Code} (distinct : code.marks.Nodup) {l : Label} {place : Nat} :
    code.labels.get? l = some place ↔ code[place]? = some (.label l) := by
  rw [labels, OrderedMap.get?_ofList (by rwa [map_fst_labelsFrom]), mem_labelsFrom]
  simp

/-! ## Segments -/

/-- The instructions of `segment` stand in `code` from `pc` on. -/
def HasAt (code : Code) (pc : Nat) (segment : List Instruction) : Prop :=
  ∀ k < segment.length, code[pc + k]? = segment[k]?

theorem hasAt_toList (code : Code) : code.HasAt 0 code.toList := by
  intro k _
  simp

@[simp] theorem hasAt_nil (code : Code) (pc : Nat) : code.HasAt pc [] := by
  simp [HasAt]

/-- A segment stands where its first instruction and, after that, the others stand. -/
@[simp] theorem hasAt_cons {code : Code} {pc : Nat} {i : Instruction} {rest : List Instruction} :
    code.HasAt pc (i :: rest) ↔ code[pc]? = some i ∧ code.HasAt (pc + 1) rest := by
  constructor
  · intro h
    refine ⟨by simpa using h 0 (by simp), fun k hk => ?_⟩
    have later := h (k + 1) (by simpa using hk)
    rwa [List.getElem?_cons_succ, Nat.add_comm k 1, ← Nat.add_assoc] at later
  · rintro ⟨first, later⟩ k hk
    cases k with
    | zero => simpa using first
    | succ k =>
      rw [List.getElem?_cons_succ, ← later k (by simpa using hk), Nat.add_comm k 1, Nat.add_assoc]

/-- Segments stand one after another. -/
@[simp] theorem hasAt_append {code : Code} {pc : Nat} {xs ys : List Instruction} :
    code.HasAt pc (xs ++ ys) ↔ code.HasAt pc xs ∧ code.HasAt (pc + xs.length) ys := by
  induction xs generalizing pc with
  | nil => simp
  | cons i rest ih => simp [ih, and_assoc, Nat.add_assoc, Nat.add_comm 1]

end Code

/-! ## The shape of emitted segments -/

@[simp] theorem Expr.length_segment (e : Expr) (temp : Nat) : (e.segment temp).length = e.operators := by
  induction e generalizing temp with
  | number _ | name _ => rfl
  | binary op lhs rhs ihl ihr => simp [Expr.segment, Expr.operators, ihl, ihr, Nat.add_assoc]

@[simp] theorem Expr.marks_segment (e : Expr) (temp : Nat) :
    (e.segment temp).filterMap Instruction.mark? = [] := by
  induction e generalizing temp with
  | number _ | name _ => rfl
  | binary op lhs rhs ihl ihr => simp [Expr.segment, List.filterMap_cons, Instruction.mark?, ihl, ihr]

/-- The labels with `count` numbers from `first` on. -/
def labelRange (first count : Nat) : List Label :=
  (List.range' first count).map Label.mk

theorem labelRange_add (first m n : Nat) :
    labelRange first (m + n) = labelRange first m ++ labelRange (first + m) n := by
  simp [labelRange, ← List.range'_append_1]

theorem labelRange_one (first : Nat) : labelRange first 1 = [⟨first⟩] := rfl

theorem labelRange_two (first : Nat) : labelRange first 2 = [⟨first⟩, ⟨first + 1⟩] := rfl

theorem mem_labelRange {first count : Nat} {l : Label} :
    l ∈ labelRange first count ↔ first ≤ l.number ∧ l.number < first + count := by
  simp only [labelRange, List.mem_map, List.mem_range'_1]
  constructor
  · rintro ⟨n, bounds, rfl⟩
    exact bounds
  · intro bounds
    exact ⟨l.number, bounds, rfl⟩

theorem nodup_labelRange (first count : Nat) : (labelRange first count).Nodup := by
  refine List.Pairwise.map _ ?_ (List.nodup_range' (s := first) (n := count))
  intro m n ne eq
  exact ne (congrArg Label.number eq)

mutual

/-- A statement marks the next labels in number, each of them once. -/
theorem Stmt.marks_segment_perm (s : Stmt) (label temp : Nat) :
    ((s.segment label temp).filterMap Instruction.mark?).Perm (labelRange label s.labels) := by
  rw [List.perm_iff_count]
  intro l
  match s with
  | .declare _ _ _ | .assign _ _ _ =>
    simp [Stmt.segment, Stmt.labels, labelRange, List.filterMap_cons, Instruction.mark?]
  | .ifThen condition body _ =>
    have ih := (Stmt.marks_segment_perm body (label + 1) (temp + condition.operators)).count_eq l
    simp [Stmt.segment, Stmt.labels, labelRange_add, labelRange_one, List.filterMap_cons,
      Instruction.mark?, List.count_cons, ih, Nat.add_comm]
  | .ifElse condition body otherwise _ =>
    have ihBody := (Stmt.marks_segment_perm body (label + 2) (temp + condition.operators)).count_eq l
    have ihOther := (Stmt.marks_segment_perm otherwise (label + 2 + body.labels)
      (temp + condition.operators + body.operators)).count_eq l
    simp [Stmt.segment, Stmt.labels, labelRange_add, labelRange_two, List.filterMap_cons,
      Instruction.mark?, List.count_cons, ihBody, ihOther, ← Nat.add_assoc]
  | .loop condition body _ =>
    have ih := (Stmt.marks_segment_perm body (label + 2) (temp + condition.operators)).count_eq l
    simp [Stmt.segment, Stmt.labels, labelRange_add, labelRange_two, List.filterMap_cons,
      Instruction.mark?, List.count_cons, ih]
  | .block body => exact (Stmt.marks_segmentAll_perm body label temp).count_eq l

theorem Stmt.marks_segmentAll_perm (body : List Stmt) (label temp : Nat) :
    ((Stmt.segmentAll label temp body).filterMap Instruction.mark?).Perm
      (labelRange label (Stmt.labelsAll body)) := by
  match body with
  | [] => exact .nil
  | s :: rest =>
    rw [Stmt.segmentAll, Stmt.labelsAll, labelRange_add, List.filterMap_append]
    exact (Stmt.marks_segment_perm s label temp).append (Stmt.marks_segmentAll_perm rest _ _)

end

/-! ## Programs -/

namespace Program

variable {program : Program} {source : Source} {code : Code} {t : Lowering}

/-- In the code of a program every label is marked once. -/
theorem nodup_marks (lowered : program.lower source .empty = (.ok code, t)) : code.marks.Nodup := by
  obtain ⟨emitted, -, -⟩ := lower_eq_ok lowered
  rw [Code.marks, emitted]
  exact (Stmt.marks_segmentAll_perm program 0 0).nodup_iff.mpr (nodup_labelRange _ _)

end Program

end ThreeAddress
