import ThreeAddress.Compilation.Basic
import ThreeAddress.Proofs.Code.Closed
import ThreeAddress.Proofs.Program.Completeness

/-!
# Labels of programs

Labels are numbered as the parts of a program are met, and marked behind the parts that they
belong to. In the end each number has been given out once and marked once, and jumps go to the
numbers of the statement that they belong to. So the labels of a program are in order before it
runs, and whether they are checked makes no difference.

This holds beside any table of symbols, whatever names it gives to the temporaries: what an
instruction computes plays no part in it.

## Main definitions

* `Instruction.SeesLabels` says that a function of instructions looks at their labels only.
* `Stmt.labels_of_lower`: the labels that are emitted for a statement are those of its segment.
* `Code.checkLabels_eq_ok_iff` is what the check finds out.
* `Source.labels_in_order` is the main result.
-/

namespace ThreeAddress

/-! ## The check -/

/-- The check looks for a mark for each jump. -/
theorem Code.checkLabels_eq_ok_iff {code : Code} :
    code.checkLabels = .ok () ↔ ∀ l ∈ code.targets, l ∈ code.marks := by
  have place (l : Label) : l ∈ code.marks ↔ (code.labels.get? l).isSome := by
    rw [← OrderedMap.mem_keys_iff, labels, OrderedMap.mem_keys_ofList, map_fst_labelsFrom, marks]
  have passes : code.checkLabels = .ok () ↔
      code.targets.find? (fun target => (code.labels.get? target).isNone) = none := by
    simp only [checkLabels]
    split <;> simp_all
  rw [passes, List.find?_eq_none]
  simp [place, Option.isSome_iff_ne_none]

/-! ## The labels of a lowering -/

/-- The function looks at the labels of an instruction only. -/
structure Instruction.SeesLabels (f : Instruction → Option Label) : Prop where
  assign : ∀ result value, f (.assign result value) = none
  binary : ∀ op lhs rhs result, f (.binary op lhs rhs result) = none
  ifFalse : ∀ test test' target, f (.ifFalse test target) = f (.ifFalse test' target)

theorem Instruction.seesLabels_mark? : SeesLabels mark? :=
  ⟨fun _ _ => rfl, fun _ _ _ _ => rfl, fun _ _ _ => rfl⟩

theorem Instruction.seesLabels_target? : SeesLabels target? :=
  ⟨fun _ _ => rfl, fun _ _ _ _ => rfl, fun _ _ _ => rfl⟩

section

variable {f : Instruction → Option Label} {source : Source} {t t' : Lowering}

theorem Expr.filterMap_segment (sees : Instruction.SeesLabels f) (e : Expr) (temp : Nat) :
    (e.segment temp).filterMap f = [] := by
  induction e generalizing temp with
  | number _ | name _ => rfl
  | binary op lhs rhs ihl ihr => simp [Expr.segment, ihl, ihr, sees.binary]

/-- What is seen in the instructions is put together from what is seen in each of them. -/
theorem filterMap_cons_eq (f : Instruction → Option Label) (i : Instruction) (rest : List Instruction) :
    (i :: rest).filterMap f = (f i).toList ++ rest.filterMap f := by
  cases seen : f i <;> simp [seen]

/-- An expression has no labels. -/
theorem Expr.labels_of_lower (sees : Instruction.SeesLabels f) (e : Expr) {operand : Operand}
    (h : e.lower source t = .ok operand t') :
    t'.nextLabel = t.nextLabel ∧ t'.code.toList.filterMap f = t.code.toList.filterMap f := by
  induction e generalizing t t' operand with
  | number value =>
    obtain ⟨-, rfl⟩ := Emitter.pure_eq_ok.mp h
    exact ⟨rfl, rfl⟩
  | name lexeme =>
    simp only [Expr.lower, Emitter.bind_eq_ok, Emitter.require_eq_ok, Emitter.pure_eq_ok] at h
    obtain ⟨_, _, ⟨-, rfl⟩, -, rfl⟩ := h
    exact ⟨rfl, rfl⟩
  | binary op lhs rhs ihl ihr =>
    simp only [Expr.lower, Emitter.bind_eq_ok, Emitter.newTemporary_eq_ok, Emitter.emit_eq_ok,
      Emitter.pure_eq_ok] at h
    obtain ⟨left, _, hl, right, _, hr, name, _, ⟨-, rfl⟩, _, _, rfl, -, rfl⟩ := h
    obtain ⟨nextl, seenl⟩ := ihl hl
    obtain ⟨nextr, seenr⟩ := ihr hr
    simp [Lowering.after, nextl, nextr, seenl, seenr, sees.binary]

mutual

/-- A statement gives out its labels, and what it emits has the labels of its segment, whatever the
number of the first temporary is there. -/
theorem Stmt.labels_of_lower (sees : Instruction.SeesLabels f) (s : Stmt) {t t' : Lowering} {u : Unit}
    (h : s.lower source t = .ok u t') :
    t'.nextLabel = t.nextLabel + s.labels ∧ ∀ temp,
      t'.code.toList.filterMap f =
        t.code.toList.filterMap f ++ (s.segment t.nextLabel temp).filterMap f := by
  match s with
  | .declare name init line =>
    simp only [Stmt.lower, Emitter.bind_eq_ok, Emitter.declare_eq_ok, Emitter.emit_eq_ok] at h
    obtain ⟨_, _, ⟨-, rfl⟩, operand, _, hinit, rfl⟩ := h
    obtain ⟨next, seen⟩ := Expr.labels_of_lower sees init hinit
    simp [Lowering.after, Stmt.labels, Stmt.segment, next, seen, sees.assign, init.filterMap_segment sees]
  | .assign name value _ =>
    simp only [Stmt.lower, Emitter.bind_eq_ok, Emitter.require_eq_ok, Emitter.emit_eq_ok] at h
    obtain ⟨_, _, ⟨-, rfl⟩, operand, _, hvalue, rfl⟩ := h
    obtain ⟨next, seen⟩ := Expr.labels_of_lower sees value hvalue
    simp [Lowering.after, Stmt.labels, Stmt.segment, next, seen, sees.assign, value.filterMap_segment sees]
  | .ifThen condition body _ =>
    simp only [Stmt.lower, Emitter.bind_eq_ok, Emitter.newLabel_eq_ok, Emitter.emit_eq_ok,
      Emitter.within_eq_ok] at h
    obtain ⟨test, _, htest, done, _, ⟨rfl, rfl⟩, _, _, rfl, _, _, hbody, rfl⟩ := h
    obtain ⟨next, seen⟩ := Expr.labels_of_lower sees condition htest
    obtain ⟨nextBody, seenBody⟩ := Stmt.labels_of_lower sees body hbody
    refine ⟨by simp [nextBody, next, Stmt.labels, Nat.add_assoc], fun temp => ?_⟩
    have inside := seenBody (temp + condition.operators)
    simp only [Lowering.after] at inside ⊢
    simp [inside, seen, next, Stmt.segment, condition.filterMap_segment sees, filterMap_cons_eq,
      sees.ifFalse test (condition.result temp)]
  | .ifElse condition body otherwise _ =>
    simp only [Stmt.lower, Emitter.bind_eq_ok, Emitter.newLabel_eq_ok, Emitter.emit_eq_ok,
      Emitter.within_eq_ok] at h
    obtain ⟨test, _, htest, elsewhere, _, ⟨rfl, rfl⟩, done, _, ⟨rfl, rfl⟩, _, _, rfl, _, _, hbody, _, _,
      rfl, _, _, rfl, _, _, hother, rfl⟩ := h
    obtain ⟨next, seen⟩ := Expr.labels_of_lower sees condition htest
    obtain ⟨nextBody, seenBody⟩ := Stmt.labels_of_lower sees body hbody
    obtain ⟨nextOther, seenOther⟩ := Stmt.labels_of_lower sees otherwise hother
    refine ⟨by simp [nextOther, nextBody, next, Stmt.labels, Nat.add_assoc], fun temp => ?_⟩
    -- the segments of the branches begin with the temporaries that the segment of the whole gives them
    have inside := seenBody (temp + condition.operators)
    have other := seenOther (temp + condition.operators + body.operators)
    simp only [Lowering.after] at inside other nextBody ⊢
    simp [other, inside, nextBody, seen, next, Stmt.segment, condition.filterMap_segment sees,
      filterMap_cons_eq, sees.ifFalse test (condition.result temp)]
  | .loop condition body _ =>
    simp only [Stmt.lower, Emitter.bind_eq_ok, Emitter.newLabel_eq_ok, Emitter.emit_eq_ok,
      Emitter.within_eq_ok] at h
    obtain ⟨again, _, ⟨rfl, rfl⟩, done, _, ⟨rfl, rfl⟩, _, _, rfl, test, _, htest, _, _, rfl, _, _, hbody,
      _, _, rfl, rfl⟩ := h
    obtain ⟨next, seen⟩ := Expr.labels_of_lower sees condition htest
    obtain ⟨nextBody, seenBody⟩ := Stmt.labels_of_lower sees body hbody
    simp only [Lowering.nextLabel_after] at next
    refine ⟨by simp [nextBody, next, Stmt.labels, Nat.add_assoc], fun temp => ?_⟩
    have inside := seenBody (temp + condition.operators)
    simp only [Lowering.after] at inside seen ⊢
    simp [inside, seen, next, Stmt.segment, condition.filterMap_segment sees, filterMap_cons_eq,
      sees.ifFalse test (condition.result temp)]
  | .block body =>
    rw [Stmt.lower] at h
    exact Stmt.labels_of_lowerAll sees body h

theorem Stmt.labels_of_lowerAll (sees : Instruction.SeesLabels f) (body : List Stmt) {t t' : Lowering}
    {u : Unit} (h : Stmt.lowerAll source body t = .ok u t') :
    t'.nextLabel = t.nextLabel + Stmt.labelsAll body ∧ ∀ temp,
      t'.code.toList.filterMap f =
        t.code.toList.filterMap f ++ (Stmt.segmentAll t.nextLabel temp body).filterMap f := by
  match body with
  | [] =>
    obtain ⟨-, rfl⟩ := Emitter.pure_eq_ok.mp h
    exact ⟨rfl, fun _ => (List.append_nil _).symm⟩
  | s :: rest =>
    rw [Stmt.lowerAll, Emitter.bind_eq_ok] at h
    obtain ⟨_, middle, hs, hrest⟩ := h
    obtain ⟨next, seen⟩ := Stmt.labels_of_lower sees s hs
    obtain ⟨nextRest, seenRest⟩ := Stmt.labels_of_lowerAll sees rest hrest
    refine ⟨by rw [nextRest, next, Stmt.labelsAll, Nat.add_assoc], fun temp => ?_⟩
    rw [seenRest (temp + s.operators), seen temp, next, Stmt.segmentAll, List.filterMap_append,
      List.append_assoc]

end

end

/-! ## Programs -/

namespace Program

variable {program : Program} {source : Source} {symbols : SymbolTable} {code : Code} {t : Lowering}

/-- The code of a program has the labels of its segment. -/
theorem labels_of_lower {f : Instruction → Option Label} (sees : Instruction.SeesLabels f)
    (lowered : program.lower source symbols = (.ok code, t)) :
    code.toList.filterMap f = (Stmt.segmentAll 0 0 program).filterMap f := by
  simp only [lower] at lowered
  split at lowered
  next emitted =>
    cases lowered
    simpa [Lowering.start] using (Stmt.labels_of_lowerAll sees program emitted).2 0
  next => cases lowered

/-- The code of a program marks as many labels as the program needs, from zero on. -/
theorem marks_perm (lowered : program.lower source symbols = (.ok code, t)) :
    code.marks.Perm (labelRange 0 (Stmt.labelsAll program)) := by
  rw [Code.marks, labels_of_lower Instruction.seesLabels_mark? lowered]
  exact Stmt.marks_segmentAll_perm program 0 0

/-- The code of a program jumps to labels that it marks. -/
theorem targets_subset_marks (lowered : program.lower source symbols = (.ok code, t)) :
    ∀ l ∈ code.targets, l ∈ code.marks := by
  intro l mem
  rw [Code.targets, labels_of_lower Instruction.seesLabels_target? lowered] at mem
  obtain ⟨i, emitted, jump⟩ := List.mem_filterMap.mp mem
  rw [(marks_perm lowered).mem_iff, mem_labelRange]
  exact (Stmt.within_segmentAll program emitted).target l jump

end Program

/-- The labels of a program are in order, beside any table of symbols: each of them marks one place,
they are numbered from zero on as they are needed, and every jump goes to one of them. So it makes
no difference to a compilation whether they are checked before the run. -/
theorem Source.labels_in_order :
    (∀ (program : Program) (source : Source) (symbols : SymbolTable) (code : Code) (t : Lowering),
      program.lower source symbols = (.ok code, t) →
        code.marks.Nodup ∧ (∀ l, l ∈ code.marks ↔ l.number < Stmt.labelsAll program) ∧
          (∀ l ∈ code.targets, l ∈ code.marks) ∧ code.checkLabels = .ok ()) ∧
      ∀ (source : Source) (fuel : Nat), source.compile fuel ⟨true⟩ = source.compile fuel ⟨false⟩ := by
  have checked {program : Program} {source : Source} {symbols : SymbolTable} {code : Code}
      {t : Lowering} (lowered : program.lower source symbols = (.ok code, t)) :
      code.checkLabels = .ok () :=
    Code.checkLabels_eq_ok_iff.mpr (Program.targets_subset_marks lowered)
  refine ⟨fun program source symbols code t lowered => ?_, fun source fuel => ?_⟩
  · have marks := Program.marks_perm lowered
    refine ⟨marks.nodup_iff.mpr (nodup_labelRange _ _), fun l => ?_,
      Program.targets_subset_marks lowered, checked lowered⟩
    rw [marks.mem_iff, mem_labelRange, Nat.zero_add]
    exact and_iff_right (Nat.zero_le _)
  · -- only code that was lowered comes to the check
    simp only [compile]
    split
    next => rfl
    next =>
      split
      next => rfl
      next =>
        split
        next => rfl
        next code t lowered =>
          have eager : Options.checkLabels ⟨true⟩ code = .ok () := checked lowered
          have lazy : Options.checkLabels ⟨false⟩ code = .ok () := rfl
          rw [eager, lazy]

/-- The labels of an alternative inside a loop, and the end of a compilation with them. -/
theorem Source.labels_in_order_loop :
    let source : Source := ⟨"var a = 2; while (a) if (a) a = a - 1; else {}", none⟩
    (∃ program code t, Program.lower source program .empty = (.ok code, t) ∧
        (∀ l, l ∈ code.marks ↔ l.number < 4) ∧ code.marks.Nodup ∧ code.checkLabels = .ok ()) ∧
      ∃ c, source.compile 24 ⟨true⟩ = some c ∧ source.compile 24 ⟨false⟩ = some c := by
  intro source
  obtain ⟨inOrder, same⟩ := Source.labels_in_order
  constructor
  · obtain ⟨tokens, program, -, -, known⟩ : ∃ tokens program, source.tokenize = .ok tokens ∧
        Program.ofTokens source tokens = .ok program ∧
        ((program.lower source .empty).1.isOk && Stmt.labelsAll program == 4) = true :=
      Program.exists_of_read (p := fun program =>
        (program.lower source .empty).1.isOk && Stmt.labelsAll program == 4) (by decide +kernel)
    obtain ⟨emits, count⟩ := Bool.and_eq_true_iff.mp known
    cases lowered : program.lower source .empty with
    | mk result t =>
      cases result with
      | error => simp [lowered, Except.isOk, Except.toBool] at emits
      | ok code =>
        obtain ⟨distinct, marks, -, checked⟩ := inOrder program source .empty code t lowered
        rw [beq_iff_eq.mp count] at marks
        exact ⟨program, code, t, lowered, marks, distinct, checked⟩
  · have ends : (source.compile 24 ⟨true⟩).isSome := by decide +kernel
    obtain ⟨c, compiled⟩ := Option.isSome_iff_exists.mp ends
    exact ⟨c, compiled, (same source 24).symm.trans compiled⟩

end ThreeAddress
