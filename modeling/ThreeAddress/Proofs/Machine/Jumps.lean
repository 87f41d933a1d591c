import ThreeAddress.Proofs.Code.Labels
import ThreeAddress.Proofs.Machine.Effect
import Mathlib.Data.List.Induction

/-!
# Jumps of any code

Code need not come from a program: it may mark a label twice, or jump to one that it marks nowhere.
Also then a jump that is taken goes to the last place where its label is marked, and the machine stays
in its code or just behind it. The check of labels looks at all jumps, taken or not; so it may refuse
code that runs well, but code that passes never misses a label.

## Main definitions

* `Code.IsLastMark` says where a label is marked for the last time, and `Code.FirstDangling` which jump
  is the first one to a label that is marked nowhere.
* `Instruction.Jumps` tells the jumps that are taken.
* `Code.get?_labels_eq_some_iff` and `Code.checkLabels_eq_error_iff`: what the map of labels and their
  check find.
* `Machine.execute_cases` is what an instruction does with labels.
* `Code.jumps_sound` is the main result.
-/

namespace ThreeAddress

/-! ## The map of labels -/

namespace Code

theorem labelsFrom_append (index : Nat) (xs ys : List Instruction) :
    labelsFrom index (xs ++ ys) = labelsFrom index xs ++ labelsFrom (index + xs.length) ys := by
  induction xs generalizing index with
  | nil => rfl
  | cons i rest ih =>
    have length : index + (i :: rest).length = index + 1 + rest.length := by
      rw [List.length_cons]
      omega
    cases i <;> simp only [List.cons_append, labelsFrom, ih, length]

/-- The label is marked at the place, and nowhere behind it. -/
structure IsLastMark (code : Code) (l : Label) (place : Nat) : Prop where
  mark : code[place]? = some (.label l)
  last : ∀ later, place < later → code[later]? ≠ some (.label l)

theorem getElem?_push_eq_some_iff {code : Code} {i j : Instruction} {place : Nat} :
    (code.push i)[place]? = some j ↔ code[place]? = some j ∨ place = code.size ∧ i = j := by
  rw [Array.getElem?_push]
  split
  next last => simp [last]
  next inner => simp [inner]

section

variable {code : Code} {l : Label} {place : Nat}

theorem get?_labels_push (code : Code) (i : Instruction) (l : Label) :
    (labels (code.push i)).get? l = if i = .label l then some code.size else code.labels.get? l := by
  have entries : labelsFrom 0 (code.push i).toList =
      labelsFrom 0 code.toList ++ labelsFrom code.size [i] := by
    rw [Array.toList_push, labelsFrom_append, Array.length_toList, Nat.zero_add]
  rw [labels, entries]
  cases i with
  | label l' =>
    rw [labelsFrom, labelsFrom, OrderedMap.get?_ofList_append_singleton]
    simp [labels]
  | _ => simp [labelsFrom, labels]

/-- An instruction behind the others is the last mark of its label, and of no other one. -/
theorem isLastMark_push {i : Instruction} :
    IsLastMark (code.push i) l place ↔
      if i = .label l then place = code.size else code.IsLastMark l place := by
  split
  next here =>
    subst here
    constructor
    · rintro ⟨mark, last⟩
      rcases getElem?_push_eq_some_iff.mp mark with inner | ⟨eq, -⟩
      · have before : place < code.size := (Array.getElem?_eq_some_iff.mp inner).1
        exact absurd (getElem?_push_eq_some_iff.mpr (.inr ⟨rfl, rfl⟩)) (last code.size before)
      · exact eq
    · rintro rfl
      refine ⟨getElem?_push_eq_some_iff.mpr (.inr ⟨rfl, rfl⟩), fun later behind mark => ?_⟩
      have inside := (Array.getElem?_eq_some_iff.mp mark).1
      rw [Array.size_push] at inside
      exact Nat.not_lt.mpr (Nat.le_of_lt_succ inside) behind
  next other =>
    have same (place : Nat) :
        (code.push i)[place]? = some (.label l) ↔ code[place]? = some (.label l) := by
      rw [getElem?_push_eq_some_iff, or_iff_left (fun h => other h.2)]
    exact ⟨fun h => ⟨(same _).mp h.mark, fun later behind => mt (same _).mpr (h.last later behind)⟩,
      fun h => ⟨(same _).mpr h.mark, fun later behind => mt (same _).mp (h.last later behind)⟩⟩

/-- Of the places where a label is marked, the map of labels holds the last one. -/
theorem get?_labels_eq_some_iff : code.labels.get? l = some place ↔ code.IsLastMark l place := by
  obtain ⟨instructions⟩ := code
  induction instructions using List.reverseRecOn with
  | nil =>
    have none : (labels #[]).get? l = none := rfl
    rw [none]
    exact ⟨nofun, fun h => by simpa using h.mark⟩
  | append_singleton front i ih =>
    have push : (⟨front ++ [i]⟩ : Code) = Array.push ⟨front⟩ i := Array.toList_inj.mp (by simp)
    rw [push, get?_labels_push, isLastMark_push]
    split
    next => rw [Option.some_inj, eq_comm]
    next => exact ih

/-- A label is missing from the map just if it is marked nowhere. -/
theorem get?_labels_eq_none_iff : code.labels.get? l = none ↔ l ∉ code.marks := by
  rw [← Option.not_isSome_iff_eq_none, ← OrderedMap.mem_keys_iff, labels, OrderedMap.mem_keys_ofList,
    map_fst_labelsFrom, marks]

/-! ## The check of labels -/

/-- The instruction at the place is the first jump to a label that is marked nowhere. -/
structure FirstDangling (code : Code) (pc : Nat) (l : Label) : Prop where
  jump : ∃ i, code[pc]? = some i ∧ i.target? = some l
  unmarked : l ∉ code.marks
  earlier : ∀ before i l', before < pc → code[before]? = some i → i.target? = some l' → l' ∈ code.marks

/-- The check of labels refuses the first jump to a label that is marked nowhere. -/
theorem checkLabels_eq_error_iff :
    code.checkLabels = .error ⟨l⟩ ↔ ∃ pc, code.FirstDangling pc l := by
  have refuses : code.checkLabels = .error ⟨l⟩ ↔
      code.targets.find? (fun target => (code.labels.get? target).isNone) = some l := by
    simp only [checkLabels]
    split
    next target found => simp [found]
    next none => simp [none]
  have dangles (i : Instruction) :
      (i.target?.any fun target => (code.labels.get? target).isNone) = true ↔
        ∃ l', i.target? = some l' ∧ l' ∉ code.marks := by
    rw [Option.any_eq_true]
    simp only [Option.isNone_iff_eq_none, get?_labels_eq_none_iff]
  have passes (i : Instruction) :
      (!i.target?.any fun target => (code.labels.get? target).isNone) = true ↔
        ∀ l', i.target? = some l' → l' ∈ code.marks := by
    rw [Bool.not_eq_true', ← Bool.not_eq_true, dangles]
    simp
  rw [refuses, targets, List.find?_filterMap, Option.bind_eq_some_iff]
  constructor
  · rintro ⟨i, found, target⟩
    obtain ⟨dangling, pc, inside, fetch, earlier⟩ := List.find?_eq_some_iff_getElem.mp found
    obtain ⟨l', target', unmarked⟩ := (dangles i).mp dangling
    cases Option.some.inj (target.symm.trans target')
    refine ⟨pc, ⟨i, ?_, target⟩, unmarked, fun before i' l' lt fetch' target' => ?_⟩
    · rw [← Array.getElem?_toList, List.getElem?_eq_getElem inside, fetch]
    · rw [← Array.getElem?_toList, List.getElem?_eq_getElem (Nat.lt_trans lt inside), Option.some_inj]
        at fetch'
      exact (passes i').mp (fetch' ▸ earlier before lt) l' target'
  · rintro ⟨pc, ⟨i, fetch, target⟩, unmarked, earlier⟩
    obtain ⟨inside, here⟩ := Array.getElem?_eq_some_iff.mp fetch
    refine ⟨i, List.find?_eq_some_iff_getElem.mpr ⟨(dangles i).mpr ⟨l, target, unmarked⟩, pc, inside, here,
      fun before lt => (passes _).mpr fun l' target' => ?_⟩, target⟩
    exact earlier before _ l' lt (Array.getElem?_eq_getElem (Nat.lt_trans lt inside)) target'

end

end Code

/-! ## Jumps that are taken -/

/-- The instruction jumps to the label, given the words of the store. -/
inductive Instruction.Jumps (store : Store) : Instruction → Label → Prop where
  | goto (l : Label) : Jumps store (.goto l) l
  | ifFalse {condition : Operand} {l : Label} (zero : condition.resolve store = .ok 0) :
      Jumps store (.ifFalse condition l) l
  | ifTrue {condition : Operand} {l : Label} {word : Int64} (value : condition.resolve store = .ok word)
      (nonzero : word ≠ 0) : Jumps store (.ifTrue condition l) l

/-- A jump that is taken goes to the label that it names. -/
theorem Instruction.Jumps.target?_eq {store : Store} {i : Instruction} {l : Label} (h : i.Jumps store l) :
    i.target? = some l := by
  cases h <;> rfl

/-- An instruction without a target never jumps. -/
theorem Instruction.not_jumps {store : Store} {i : Instruction} (stays : i.target? = none) (l : Label) :
    ¬i.Jumps store l := by
  intro jumps
  cases stays.symm.trans jumps.target?_eq

/-- An operand without a value is a name without a word. -/
theorem Operand.fault_ne_undefinedLabel {operand : Operand} {store : Store} {fault : RunFault}
    (missing : operand.resolve store = .error fault) {l : LabelFault} : fault ≠ .undefinedLabel l := by
  rintro rfl
  cases operand with
  | constant value => cases missing
  | name symbol =>
    simp only [resolve] at missing
    split at missing <;> cases missing

namespace Machine

variable {m : Machine} {s s' : State} {n : Nat}

/-- What an instruction does with labels: it jumps, and then it goes to the place of the label and
changes nothing else, or it fails for want of that place; or it does not jump, and then it goes on
behind itself, or it fails of something else. -/
theorem execute_cases (m : Machine) (s : State) (i : Instruction) :
    (∃ l, i.Jumps s.store l ∧ m.execute s i = (m.resolveLabel l).map s.goingTo) ∨
      (∀ l, ¬i.Jumps s.store l) ∧
        ((∃ s', m.execute s i = .ok s' ∧ s'.pc = s.pc + 1) ∨
          ∃ fault, m.execute s i = .error fault ∧ ∀ l, fault ≠ .undefinedLabel l) := by
  cases i with
  | goto l =>
    refine .inl ⟨l, .goto l, ?_⟩
    simp only [execute]
    cases m.resolveLabel l <;> rfl
  | label l => exact .inr ⟨Instruction.not_jumps rfl, .inl ⟨_, rfl, rfl⟩⟩
  | assign result value =>
    refine .inr ⟨Instruction.not_jumps rfl, ?_⟩
    simp only [execute]
    cases resolved : value.resolve s.store with
    | ok word => exact .inl ⟨_, rfl, rfl⟩
    | error fault => exact .inr ⟨fault, rfl, fun l => Operand.fault_ne_undefinedLabel resolved⟩
  | binary op lhs rhs result =>
    refine .inr ⟨Instruction.not_jumps rfl, ?_⟩
    simp only [execute]
    cases left : lhs.resolve s.store with
    | error fault => exact .inr ⟨fault, rfl, fun l => Operand.fault_ne_undefinedLabel left⟩
    | ok a =>
      cases right : rhs.resolve s.store with
      | error fault => exact .inr ⟨fault, rfl, fun l => Operand.fault_ne_undefinedLabel right⟩
      | ok b =>
        simp only [bind, Except.bind]
        cases op.apply? a b with
        | none => exact .inr ⟨.divisionByZero, rfl, fun l => by simp⟩
        | some word => exact .inl ⟨_, rfl, rfl⟩
  | ifFalse condition l =>
    simp only [execute]
    cases resolved : condition.resolve s.store with
    | error fault =>
      have other (l : LabelFault) : fault ≠ .undefinedLabel l := Operand.fault_ne_undefinedLabel resolved
      refine .inr ⟨fun l' jumps => ?_, .inr ⟨fault, rfl, other⟩⟩
      cases jumps with
      | ifFalse zero => cases resolved.symm.trans zero
    | ok word =>
      simp only [bind, Except.bind]
      by_cases zero : word = 0
      · refine .inl ⟨l, .ifFalse (zero ▸ resolved), ?_⟩
        rw [if_pos zero]
        cases m.resolveLabel l <;> rfl
      · refine .inr ⟨fun l' jumps => ?_, .inl ⟨_, if_neg zero, rfl⟩⟩
        cases jumps with
        | ifFalse value => exact zero (Except.ok.inj (resolved.symm.trans value))
  | ifTrue condition l =>
    simp only [execute]
    cases resolved : condition.resolve s.store with
    | error fault =>
      have other (l : LabelFault) : fault ≠ .undefinedLabel l := Operand.fault_ne_undefinedLabel resolved
      refine .inr ⟨fun l' jumps => ?_, .inr ⟨fault, rfl, other⟩⟩
      cases jumps with
      | ifTrue value _ => cases resolved.symm.trans value
    | ok word =>
      simp only [bind, Except.bind]
      by_cases zero : word = 0
      · refine .inr ⟨fun l' jumps => ?_, .inl ⟨_, if_neg (not_not.mpr zero), rfl⟩⟩
        cases jumps with
        | ifTrue value nonzero =>
          cases Except.ok.inj (resolved.symm.trans value)
          exact nonzero zero
      · refine .inl ⟨l, .ifTrue resolved zero, ?_⟩
        rw [if_pos zero]
        cases m.resolveLabel l <;> rfl

/-! ## Steps and runs -/

section

variable {code : Code} {symbols : SymbolTable} {i : Instruction} {l : Label}

/-- A jump that is taken goes to the last mark of its label, and an instruction that does not jump goes
on behind itself. -/
theorem pc_of_step (fetch : code[s.pc]? = some i) (step : (load code symbols).step s = .ok s') :
    (∃ l, i.Jumps s.store l ∧ code.IsLastMark l s'.pc) ∨
      (∀ l, ¬i.Jumps s.store l) ∧ s'.pc = s.pc + 1 := by
  have done : (load code symbols).execute s i = .ok s' := by
    simp only [Machine.step, load, fetch] at step
    split at step
    next next execute =>
      cases step
      exact execute
    next => cases step
  rcases (load code symbols).execute_cases s i with
    ⟨l, jumps, goes⟩ | ⟨stays, ⟨next, went, pc⟩ | ⟨_, fails, -⟩⟩
  · rw [goes] at done
    cases found : (load code symbols).resolveLabel l with
    | error fault => cases found ▸ done
    | ok place =>
      cases found ▸ done
      exact .inl ⟨l, jumps, Code.get?_labels_eq_some_iff.mp (resolveLabel_eq_ok_iff.mp found)⟩
  · cases went.symm.trans done
    exact .inr ⟨stays, pc⟩
  · cases fails.symm.trans done

/-- A step misses a label only where it jumps to one that is marked nowhere. -/
theorem jumps_of_undefinedLabel {failure : RunFailure}
    (fails : (load code symbols).step s = .error failure)
    (missing : failure.fault = .undefinedLabel ⟨l⟩) :
    (∃ i, code[s.pc]? = some i ∧ i.Jumps s.store l) ∧ l ∉ code.marks := by
  obtain ⟨i, fetch, failed⟩ : ∃ i, code[s.pc]? = some i ∧
      (load code symbols).execute s i = .error (.undefinedLabel ⟨l⟩) := by
    rw [Machine.step] at fails
    split at fails
    next => cases fails
    next i fetch =>
      split at fails
      next => cases fails
      next fault failed =>
        cases fails
        exact ⟨i, fetch, missing ▸ failed⟩
  rcases (load code symbols).execute_cases s i with
    ⟨l', jumps, goes⟩ | ⟨-, ⟨_, went, -⟩ | ⟨fault, fails', other⟩⟩
  · rw [goes, resolveLabel] at failed
    split at failed
    next => cases failed
    next absent =>
      cases failed
      exact ⟨⟨i, fetch, jumps⟩, Code.get?_labels_eq_none_iff.mp absent⟩
  · cases went.symm.trans failed
  · cases fails'.symm.trans failed
    exact absurd rfl (other _)

/-- The machine stays in its code or just behind it. -/
theorem pc_le_of_reaches (reaches : (load code symbols).Reaches s n s') (le : s.pc ≤ code.size) :
    s'.pc ≤ code.size := by
  induction reaches with
  | refl => exact le
  | head inside step _ ih =>
    refine ih ?_
    rcases pc_of_step (Array.getElem?_eq_getElem inside) step with ⟨l, -, last⟩ | ⟨-, pc⟩
    · exact Nat.le_of_lt (Array.getElem?_eq_some_iff.mp last.mark).1
    · rw [pc]
      exact inside

end

end Machine

/-- Jumps of any code are sound, whatever it marks and wherever it jumps. In every state that its
machine reaches: the machine is in the code or just behind it; a jump that is taken lands on the last
mark of its label, and any other instruction goes on behind itself; code that passes the check of
labels misses none; and a label that is missed is marked nowhere, and the check refuses the code. What
the check reports is the first jump to a label that is marked nowhere. -/
theorem Code.jumps_sound (code : Code) (symbols : SymbolTable) :
    let m := Machine.load code symbols
    (∀ n s, m.Reaches (.start symbols) n s →
      s.pc ≤ code.size ∧
        (∀ i s', code[s.pc]? = some i → m.step s = .ok s' →
          (∀ l, i.Jumps s.store l → code.IsLastMark l s'.pc) ∧
            ((∀ l, ¬i.Jumps s.store l) → s'.pc = s.pc + 1)) ∧
        (code.checkLabels = .ok () → ∀ failure l, m.step s = .error failure →
          failure.fault ≠ .undefinedLabel ⟨l⟩) ∧
        ∀ failure l, m.step s = .error failure → failure.fault = .undefinedLabel ⟨l⟩ →
          (∀ place : Nat, code[place]? ≠ some (.label l)) ∧ ∃ fault, code.checkLabels = .error fault) ∧
      ∀ l, code.checkLabels = .error ⟨l⟩ ↔ ∃ pc, code.FirstDangling pc l := by
  intro m
  -- the label that a step misses is one that the check looks for in vain
  have missed {s : State} {failure : RunFailure} {l : Label} (fails : m.step s = .error failure)
      (missing : failure.fault = .undefinedLabel ⟨l⟩) : l ∉ code.marks ∧ code.checkLabels ≠ .ok () := by
    obtain ⟨⟨i, fetch, jumps⟩, unmarked⟩ := Machine.jumps_of_undefinedLabel fails missing
    refine ⟨unmarked, fun passes => unmarked (Code.checkLabels_eq_ok_iff.mp passes l ?_)⟩
    have mem : i ∈ code.toList := Array.mem_toList_iff.mpr (Array.mem_of_getElem? fetch)
    exact List.mem_filterMap.mpr ⟨i, mem, jumps.target?_eq⟩
  refine ⟨fun n s reaches => ⟨?_, fun i s' fetch step => ?_, ?_, ?_⟩, fun l => checkLabels_eq_error_iff⟩
  · exact Machine.pc_le_of_reaches reaches (Nat.zero_le _)
  · rcases Machine.pc_of_step fetch step with ⟨l, jumps, last⟩ | ⟨stays, pc⟩
    · refine ⟨fun l' jumps' => ?_, fun stays => absurd jumps (stays l)⟩
      cases Option.some.inj (jumps.target?_eq.symm.trans jumps'.target?_eq)
      exact last
    · exact ⟨fun l jumps => absurd jumps (stays l), fun _ => pc⟩
  · exact fun passes failure l fails missing => (missed fails missing).2 passes
  · intro failure l fails missing
    obtain ⟨unmarked, refused⟩ := missed fails missing
    refine ⟨fun place mark => unmarked (Code.mem_marks.mpr ⟨place, mark⟩), ?_⟩
    cases checked : code.checkLabels with
    | ok => exact absurd checked refused
    | error fault => exact ⟨fault, rfl⟩

/-- A label that is marked twice, a jump to a missing label that is never taken, and one that is. -/
theorem Code.jumps_sound_twice :
    let code : Code :=
      #[.label ⟨0⟩, .ifTrue (.constant 0) ⟨7⟩, .goto ⟨0⟩, .label ⟨0⟩, .goto ⟨9⟩]
    let m := Machine.load code .empty
    (∃ s s', m.Reaches (.start .empty) 2 s ∧ m.step s = .ok s' ∧ s'.pc = 3 ∧ code.IsLastMark ⟨0⟩ s'.pc) ∧
      (∃ s failure, m.Reaches (.start .empty) 4 s ∧ m.step s = .error failure ∧
        failure.fault = .undefinedLabel ⟨⟨9⟩⟩ ∧ ∀ place : Nat, code[place]? ≠ some (.label ⟨9⟩)) ∧
      ∃ pc, code.FirstDangling pc ⟨7⟩ := by
  intro code m
  let standing (pc steps : Nat) : State := ⟨(State.start .empty).store, pc, steps⟩
  have enters : m.step (standing 0 0) = .ok (standing 1 1) := rfl
  have returns : m.step (standing 2 2) = .ok (standing 3 3) := rfl
  have second : m.Reaches (.start .empty) 2 (standing 2 2) :=
    .head (by decide) enters (.head (by decide) rfl (.refl _))
  have fourth : m.Reaches (.start .empty) 4 (standing 4 4) :=
    second.trans (.head (by decide) returns (.head (by decide) rfl (.refl _)))
  obtain ⟨sound, refused⟩ := Code.jumps_sound code .empty
  obtain ⟨-, lands, -, -⟩ := sound 2 _ second
  obtain ⟨-, -, -, misses⟩ := sound 4 _ fourth
  have last : code.IsLastMark ⟨0⟩ 3 := (lands (.goto ⟨0⟩) _ rfl returns).1 _ (.goto _)
  exact ⟨⟨standing 2 2, standing 3 3, second, returns, rfl, last⟩,
    ⟨standing 4 4, _, fourth, rfl, rfl, (misses _ _ rfl rfl).1⟩, (refused ⟨7⟩).mp rfl⟩

end ThreeAddress
