import ThreeAddress.Proofs.Code.Cost
import ThreeAddress.Proofs.Code.Table
import ThreeAddress.Proofs.Machine.Twin

/-!
# Temporaries are not observed

Emitted instructions read variables and recent results only: the temporaries of an expression are
computed directly in front of the instruction that reads them, and no label stands between. So no run
ever sees the words that the temporaries had at its beginning.

## Main definitions

* `SelfFed` says of a segment that it is fed by itself; `Stmt.selfFed_segment` says it of a statement.
* `Program.fed_load`: so is the machine of a program.
* `Program.temporaries_unobserved` is the main result.
-/

namespace ThreeAddress

variable {names : List String}

/-! ## Expressions -/

/-- The instructions of an expression are fed, and behind them its operand is known: by a name, or
recent. What was recent before stays so. -/
theorem Expr.fed_segment (e : Expr) (known : ∀ o ∈ e.occurrences, o.text ∈ names) (temp : Nat)
    (recent : List String) :
    AllFed names recent (e.segment temp) ∧ recent ⊆ recentBehind recent (e.segment temp) ∧
      ∀ name ∈ (e.result temp).names,
        name ∈ names ∨ name ∈ recentBehind recent (e.segment temp) := by
  induction e generalizing temp recent with
  | number value =>
    exact ⟨trivial, List.Subset.refl _, fun name mem => absurd mem List.not_mem_nil⟩
  | name lexeme =>
    refine ⟨trivial, List.Subset.refl _, fun name mem => .inl ?_⟩
    rw [List.mem_singleton.mp mem]
    exact known ⟨.used, lexeme⟩ (List.mem_singleton_self _)
  | binary op lhs rhs ihl ihr =>
    have knownl : ∀ o ∈ lhs.occurrences, o.text ∈ names := fun o mem =>
      known o (List.mem_append_left _ mem)
    have knownr : ∀ o ∈ rhs.occurrences, o.text ∈ names := fun o mem =>
      known o (List.mem_append_right _ mem)
    obtain ⟨fedl, keepsl, valuel⟩ := ihl knownl temp recent
    obtain ⟨fedr, keepsr, valuer⟩ := ihr knownr (temp + lhs.operators)
      (recentBehind recent (lhs.segment temp))
    simp only [Expr.segment, allFed_append, allFed_cons, recentBehind_append, recentBehind_cons,
      recentBehind_nil, allFed_nil, and_true]
    refine ⟨⟨⟨fedl, fedr⟩, ⟨fun operand mem name mention => ?_, fun marked => absurd marked Bool.false_ne_true⟩⟩,
      fun name mem => ?_, ?_⟩
    · -- the instructions of the right operand leave the result of the left one recent
      simp only [Instruction.operands, List.mem_cons, List.not_mem_nil, or_false] at mem
      rcases mem with rfl | rfl
      · exact (valuel name mention).imp_right fun mem => keepsr mem
      · exact valuer name mention
    · exact List.mem_cons_of_mem _ (keepsr (keepsl mem))
    · intro name mem
      rw [List.mem_singleton.mp mem]
      exact .inr List.mem_cons_self

/-! ## Statements -/

/-- The instructions are fed where nothing is recent, and leave nothing recent behind them. -/
structure SelfFed (names : List String) (instructions : List Instruction) : Prop where
  fed : AllFed names [] instructions
  clear : recentBehind [] instructions = []

theorem SelfFed.append {xs ys : List Instruction} (first : SelfFed names xs) (later : SelfFed names ys) :
    SelfFed names (xs ++ ys) := by
  constructor
  · rw [allFed_append, first.clear]
    exact ⟨first.fed, later.fed⟩
  · rw [recentBehind_append, first.clear, later.clear]

/-- Labels and jumps that read nothing are fed. -/
theorem selfFed_of_operands {instructions : List Instruction}
    (none : ∀ i ∈ instructions, i.operands = []) : SelfFed names instructions := by
  induction instructions with
  | nil => exact ⟨trivial, rfl⟩
  | cons i rest ih =>
    obtain ⟨here, later⟩ := List.forall_mem_cons.mp none
    have single : SelfFed names [i] := by
      refine ⟨⟨⟨by simp [here], fun _ => rfl⟩, trivial⟩, ?_⟩
      cases i with
      | binary op lhs rhs result => cases here
      | _ => rfl
    exact single.append (ih later)

/-- The instructions of an expression are fed together with the one that takes its value, and nothing
is recent behind that. -/
theorem Expr.selfFed_segment_append (e : Expr) (known : ∀ o ∈ e.occurrences, o.text ∈ names) (temp : Nat)
    {i : Instruction} (operands : i.operands = [e.result temp]) (clears : ∀ recent, i.recent recent = [])
    (inner : i.mark? = none) : SelfFed names (e.segment temp ++ [i]) := by
  obtain ⟨fed, -, value⟩ := e.fed_segment known temp []
  constructor
  · rw [allFed_append, allFed_cons]
    refine ⟨fed, ⟨fun operand mem name mention => ?_, by simp [inner]⟩, trivial⟩
    rw [operands, List.mem_singleton] at mem
    exact value name (mem ▸ mention)
  · rw [recentBehind_append, recentBehind_cons, clears, recentBehind_nil]

/-- The instruction that tests an expression ends what is recent. -/
theorem Expr.selfFed_ifFalse (e : Expr) (known : ∀ o ∈ e.occurrences, o.text ∈ names) (temp : Nat)
    (l : Label) : SelfFed names (e.segment temp ++ [.ifFalse (e.result temp) l]) :=
  e.selfFed_segment_append known temp rfl (fun _ => rfl) rfl

mutual

/-- The instructions of a statement are fed. -/
theorem Stmt.selfFed_segment (s : Stmt) (known : ∀ o ∈ s.occurrences, o.text ∈ names)
    (label temp : Nat) : SelfFed names (s.segment label temp) := by
  match s with
  | .declare name e _ | .assign name e _ =>
    have knownE : ∀ o ∈ e.occurrences, o.text ∈ names := fun o mem =>
      known o (List.mem_cons_of_mem _ mem)
    exact e.selfFed_segment_append knownE temp rfl (fun _ => rfl) rfl
  | .ifThen condition body _ =>
    have knownC : ∀ o ∈ condition.occurrences, o.text ∈ names := fun o mem =>
      known o (List.mem_append_left _ mem)
    have knownB : ∀ o ∈ body.occurrences, o.text ∈ names := fun o mem =>
      known o (List.mem_append_right _ mem)
    have test := condition.selfFed_ifFalse knownC temp ⟨label⟩
    have inside := Stmt.selfFed_segment body knownB (label + 1) (temp + condition.operators)
    exact (test.append inside).append (selfFed_of_operands (by simp [Instruction.operands]))
  | .ifElse condition body otherwise _ =>
    have knownC : ∀ o ∈ condition.occurrences, o.text ∈ names := fun o mem =>
      known o (List.mem_append_left _ (List.mem_append_left _ mem))
    have knownB : ∀ o ∈ body.occurrences, o.text ∈ names := fun o mem =>
      known o (List.mem_append_left _ (List.mem_append_right _ mem))
    have knownO : ∀ o ∈ otherwise.occurrences, o.text ∈ names := fun o mem =>
      known o (List.mem_append_right _ mem)
    have test := condition.selfFed_ifFalse knownC temp ⟨label⟩
    have inside := Stmt.selfFed_segment body knownB (label + 2) (temp + condition.operators)
    have elsewhere := Stmt.selfFed_segment otherwise knownO (label + 2 + body.labels)
      (temp + condition.operators + body.operators)
    have turn : SelfFed names [.goto ⟨label + 1⟩, .label ⟨label⟩] :=
      selfFed_of_operands (by simp [Instruction.operands])
    have done : SelfFed names [.label ⟨label + 1⟩] :=
      selfFed_of_operands (by simp [Instruction.operands])
    exact (((test.append inside).append turn).append elsewhere).append done
  | .loop condition body _ =>
    have knownC : ∀ o ∈ condition.occurrences, o.text ∈ names := fun o mem =>
      known o (List.mem_append_left _ mem)
    have knownB : ∀ o ∈ body.occurrences, o.text ∈ names := fun o mem =>
      known o (List.mem_append_right _ mem)
    have entry : SelfFed names [.label ⟨label⟩] :=
      selfFed_of_operands (by simp [Instruction.operands])
    have test := condition.selfFed_ifFalse knownC temp ⟨label + 1⟩
    have inside := Stmt.selfFed_segment body knownB (label + 2) (temp + condition.operators)
    have back : SelfFed names [.goto ⟨label⟩, .label ⟨label + 1⟩] :=
      selfFed_of_operands (by simp [Instruction.operands])
    exact ((entry.append test).append inside).append back
  | .block body => exact Stmt.selfFed_segmentAll body known label temp

theorem Stmt.selfFed_segmentAll (body : List Stmt)
    (known : ∀ o ∈ Stmt.occurrencesAll body, o.text ∈ names) (label temp : Nat) :
    SelfFed names (Stmt.segmentAll label temp body) := by
  match body with
  | [] => exact ⟨trivial, rfl⟩
  | s :: rest =>
    have knownS : ∀ o ∈ s.occurrences, o.text ∈ names := fun o mem =>
      known o (List.mem_append_left _ mem)
    have knownR : ∀ o ∈ Stmt.occurrencesAll rest, o.text ∈ names := fun o mem =>
      known o (List.mem_append_right _ mem)
    exact (Stmt.selfFed_segment s knownS label temp).append
      (Stmt.selfFed_segmentAll rest knownR (label + s.labels) (temp + s.operators))

end

/-! ## Programs -/

namespace Program

variable {program : Program} {source : Source} {code : Code} {t : Lowering}

/-- The machine of a program is fed with its variables. -/
theorem fed_load (identifiers : ∀ name ∈ program.names, isIdentifier name)
    (lowered : program.lower source .empty = (.ok code, t)) :
    (Machine.load code t.symbols).Fed (t.symbols.userVariables.map Symbol.name) := by
  obtain ⟨emitted, -, -⟩ := lower_eq_ok lowered
  have variables' := names_subset_of_lower identifiers lowered
  have known : ∀ o ∈ Stmt.occurrencesAll program, o.text ∈ t.symbols.userVariables.map Symbol.name :=
    fun o mem => variables' _ (List.mem_map.mpr ⟨o, mem, rfl⟩)
  have fed := (Stmt.selfFed_segmentAll program known 0 0).fed
  rw [← emitted] at fed
  exact ⟨fun pc i fetch => fed.fed fetch,
    fun l place found => (Code.get?_labels (nodup_marks lowered)).mp found⟩

/-- The words that temporaries have at the beginning are never observed. From two stores that have the
same words for the variables, whatever else they hold, the machine is in step after any number of
steps: at the same place, with the same count and the same words for the variables, and the next step
comes to the same, be it an end or a failure. -/
theorem temporaries_unobserved (identifiers : ∀ name ∈ program.names, isIdentifier name)
    (lowered : program.lower source .empty = (.ok code, t)) {store store' : Store}
    (agree : ∀ name ∈ t.symbols.userVariables.map Symbol.name, store.get? name = store'.get? name)
    (n : Nat) :
    let m := Machine.load code t.symbols
    let s := m.stateAfter n ⟨store, 0, 0⟩
    let s' := m.stateAfter n ⟨store', 0, 0⟩
    s.pc = s'.pc ∧ s.steps = s'.steps ∧
      (∀ name ∈ t.symbols.userVariables.map Symbol.name, s.store.get? name = s'.store.get? name) ∧
      m.status s = m.status s' ∧ (m.attempt s).1 = (m.attempt s').1 := by
  intro m s s'
  have fed : m.Fed (t.symbols.userVariables.map Symbol.name) := fed_load identifiers lowered
  have start : m.Twin (t.symbols.userVariables.map Symbol.name) ⟨store, 0, 0⟩ ⟨store', 0, 0⟩ := by
    refine ⟨rfl, rfl, fun name known => agree name (known.resolve_right ?_)⟩
    simp [Code.recent]
  have twin : m.Twin (t.symbols.userVariables.map Symbol.name) s s' := start.stateAfter fed n
  have status : m.status s = m.status s' := by rw [Machine.status, Machine.status, twin.pc_eq]
  exact ⟨twin.pc_eq, twin.steps_eq, fun name known => twin.same name (.inl known), status,
    (twin.attempt fed).1⟩

/-- A loop whose temporaries begin with other words. After four steps one of them still has its word, and
after thirty steps the machine has halted; both runs are at the same places with the same words. -/
theorem temporaries_unobserved_countdown :
    let store : Store := .ofList [("c", 0), ("%t0", 0), ("%t1", 0)]
    let store' : Store := .ofList [("c", 0), ("%t0", 7), ("%t1", -1)]
    ∃ code t, countdown.lower ⟨"", none⟩ .empty = (.ok code, t) ∧ store.keys = store'.keys ∧
      let m := Machine.load code t.symbols
      (m.stateAfter 4 ⟨store, 0, 0⟩).store.get? "%t1" = some 0 ∧
      (m.stateAfter 4 ⟨store', 0, 0⟩).store.get? "%t1" = some (-1) ∧
      (∀ start ∈ [store, store'], let s := m.stateAfter 4 ⟨start, 0, 0⟩
        s.pc = 4 ∧ s.steps = 4 ∧ s.store.get? "c" = some 3 ∧ (m.attempt s).1.toOption = some .running) ∧
      ∀ start ∈ [store, store'], let s := m.stateAfter 30 ⟨start, 0, 0⟩
        s.pc = 13 ∧ s.steps = 30 ∧ s.store.get? "c" = some 0 ∧ (m.attempt s).1.toOption = some .halted := by
  intro store store'
  have identifiers : ∀ name ∈ countdown.names, isIdentifier name := by decide
  obtain ⟨code, t, lowered⟩ : ∃ code t, countdown.lower ⟨"", none⟩ .empty = (.ok code, t) :=
    exists_lower_of_isOk (by decide +kernel)
  have known : t.symbols.userVariables.map Symbol.name = ["c"] := by
    rw [(names_of_lower lowered).1]
    decide
  have declared : "c" ∈ t.symbols.userVariables.map Symbol.name := by simp [known]
  have agree : ∀ name ∈ t.symbols.userVariables.map Symbol.name,
      store.get? name = store'.get? name := by
    rw [known]
    decide
  -- the run from the first store, computed
  have told : (countdown.lower ⟨"", none⟩ .empty).1.toOption.map (fun code =>
      let m := Machine.load code (countdown.lower ⟨"", none⟩ .empty).2.symbols
      [4, 30].map fun n =>
        let s := m.stateAfter n ⟨store, 0, 0⟩
        (s.pc, s.steps, s.store.get? "c", (m.attempt s).1.toOption)) =
      some [(4, 4, some 3, some .running), (13, 30, some 0, some .halted)] := by
    decide +kernel
  have kept : (countdown.lower ⟨"", none⟩ .empty).1.toOption.map (fun code =>
      let m := Machine.load code (countdown.lower ⟨"", none⟩ .empty).2.symbols
      [store, store'].map fun start => (m.stateAfter 4 ⟨start, 0, 0⟩).store.get? "%t1") =
      some [some 0, some (-1)] := by
    decide +kernel
  simp only [lowered, Except.toOption, Option.map_some, Option.some_inj, List.map_cons, List.map_nil,
    List.cons.injEq, Prod.mk.injEq] at told kept
  obtain ⟨⟨place, count, word, outcome⟩, ⟨place', count', word', outcome'⟩, -⟩ := told
  obtain ⟨places, counts, words, -, outcomes⟩ := temporaries_unobserved identifiers lowered agree 4
  obtain ⟨places', counts', words', -, outcomes'⟩ := temporaries_unobserved identifiers lowered agree 30
  refine ⟨code, t, lowered, by decide, kept.1, kept.2.1, ?_, ?_⟩
  · rw [List.forall_mem_cons, List.forall_mem_singleton]
    exact ⟨⟨place, count, word, outcome⟩, places ▸ place, counts ▸ count, words _ declared ▸ word,
      outcomes ▸ outcome⟩
  · rw [List.forall_mem_cons, List.forall_mem_singleton]
    exact ⟨⟨place', count', word', outcome'⟩, places' ▸ place', counts' ▸ count', words' _ declared ▸ word',
      outcomes' ▸ outcome'⟩

end Program

end ThreeAddress
