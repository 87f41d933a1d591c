import ThreeAddress.Proofs.Code.Placement
import ThreeAddress.Proofs.Machine.Attempt
import ThreeAddress.Proofs.Machine.Closed

/-!
# Twin runs

Two runs of one machine on stores that differ. The results of the operators directly in front of a
place are recent there: whatever way the machine has come, it has just computed them. If all
instructions read only recent results and certain names, and no label stands where something is
recent, then two stores that have the same words for these names cannot be told apart: the runs go
through the same places, in the same number of steps, and come to the same outcome.

## Main definitions

* `Code.recent` are the names whose words were computed directly in front of a place.
* `Instruction.Fed` and `Machine.Fed`: instructions read nothing but names and recent results.
* `Machine.Twin` relates two states, and `Machine.Twin.stateAfter` what becomes of them.
-/

namespace ThreeAddress

/-! ## Recent results -/

/-- The recent names behind an instruction, where those before it are `recent`. -/
def Instruction.recent (recent : List String) : Instruction → List String
  | .binary _ _ _ result => result :: recent
  | _ => []

/-- What is recent behind an instruction was so before it, or is its result. -/
theorem Instruction.mem_recent {recent : List String} {i : Instruction} {name : String}
    (h : name ∈ i.recent recent) : name ∈ recent ∨ i.result? = some name := by
  cases i with
  | binary op lhs rhs result =>
    rcases List.mem_cons.mp h with rfl | before
    · exact .inr rfl
    · exact .inl before
  | _ => cases h

/-- The recent names behind some instructions, where those before them are `recent`. -/
def recentBehind (recent : List String) (instructions : List Instruction) : List String :=
  instructions.foldl Instruction.recent recent

@[simp] theorem recentBehind_nil (recent : List String) : recentBehind recent [] = recent := rfl

@[simp] theorem recentBehind_cons (recent : List String) (i : Instruction) (rest : List Instruction) :
    recentBehind recent (i :: rest) = recentBehind (i.recent recent) rest := rfl

@[simp] theorem recentBehind_append (recent : List String) (xs ys : List Instruction) :
    recentBehind recent (xs ++ ys) = recentBehind (recentBehind recent xs) ys :=
  List.foldl_append

/-- The names whose words were computed by the operators directly in front of a place. -/
def Code.recent (code : Code) (pc : Nat) : List String :=
  recentBehind [] (code.toList.take pc)

theorem Code.recent_succ {code : Code} {pc : Nat} {i : Instruction} (fetch : code[pc]? = some i) :
    code.recent (pc + 1) = i.recent (code.recent pc) := by
  have here : code.toList[pc]? = some i := by rw [Array.getElem?_toList, fetch]
  rw [recent, recent, List.take_add_one, here]
  simp

/-! ## What instructions are fed with -/

/-- The instruction reads some names and recent results only, and is no label where something is
recent. -/
structure Instruction.Fed (names recent : List String) (i : Instruction) : Prop where
  reads : ∀ operand ∈ i.operands, ∀ name ∈ operand.names, name ∈ names ∨ name ∈ recent
  entry : i.mark?.isSome → recent = []

/-- Instructions one after another are fed, where `recent` is recent before them. -/
def AllFed (names : List String) : List String → List Instruction → Prop
  | _, [] => True
  | recent, i :: rest => i.Fed names recent ∧ AllFed names (i.recent recent) rest

section

variable {names recent : List String}

@[simp] theorem allFed_nil : AllFed names recent [] := trivial

@[simp] theorem allFed_cons {i : Instruction} {rest : List Instruction} :
    AllFed names recent (i :: rest) ↔ i.Fed names recent ∧ AllFed names (i.recent recent) rest :=
  Iff.rfl

@[simp] theorem allFed_append {xs ys : List Instruction} :
    AllFed names recent (xs ++ ys) ↔
      AllFed names recent xs ∧ AllFed names (recentBehind recent xs) ys := by
  induction xs generalizing recent with
  | nil => simp
  | cons i rest ih => simp [ih, and_assoc]

end

/-- Every instruction of the machine is fed where it stands, and jumps go to labels. -/
structure Machine.Fed (m : Machine) (names : List String) : Prop where
  fed : ∀ (pc : Nat) (i : Instruction), m.code[pc]? = some i → i.Fed names (m.code.recent pc)
  marked : ∀ l place, m.labels.get? l = some place → m.code[place]? = some (.label l)

/-- Fed instructions, taken one by one. -/
theorem AllFed.fed {names : List String} {code : Code} (h : AllFed names [] code.toList) {pc : Nat}
    {i : Instruction} (fetch : code[pc]? = some i) : i.Fed names (code.recent pc) := by
  have inside : pc < code.toList.length := by
    rw [Array.length_toList]
    exact (Array.getElem?_eq_some_iff.mp fetch).1
  have here : code.toList[pc] = i := by
    rw [← Option.some_inj, ← List.getElem?_eq_getElem inside, Array.getElem?_toList, fetch]
  rw [← List.take_append_drop pc code.toList, List.drop_eq_getElem_cons inside, here, allFed_append,
    allFed_cons] at h
  exact h.2.1

namespace Machine

/-! ## Twins -/

variable {m : Machine} {names : List String} {s s' : State}

/-- The states are at the same place after as many steps, and have the same words for the names and for
what is recent. -/
structure Twin (m : Machine) (names : List String) (s s' : State) : Prop where
  pc_eq : s.pc = s'.pc
  steps_eq : s.steps = s'.steps
  same : ∀ name, name ∈ names ∨ name ∈ m.code.recent s.pc → s.store.get? name = s'.store.get? name

/-- An operand of known names has the same value in both states. -/
theorem Twin.resolve_eq (twin : m.Twin names s s') {operand : Operand}
    (known : ∀ name ∈ operand.names, name ∈ names ∨ name ∈ m.code.recent s.pc) :
    operand.resolve s.store = operand.resolve s'.store := by
  cases operand with
  | constant value => rfl
  | name symbol =>
    have same := twin.same symbol (known symbol (List.mem_singleton_self symbol))
    simp only [Operand.resolve, same]

/-- An effect on both states keeps them twins, if nothing but the stored name is recent behind it that
was not recent before. -/
theorem Twin.applying (twin : m.Twin names s s') {e : Effect}
    (recent : ∀ name ∈ m.code.recent (s.applying e).pc,
      name ∈ m.code.recent s.pc ∨ ∃ word, e = .store name word) :
    m.Twin names (s.applying e) (s'.applying e) := by
  cases e with
  | store stored word =>
    refine ⟨congrArg (· + 1) twin.pc_eq, congrArg (· + 1) twin.steps_eq, fun name known => ?_⟩
    simp only [State.applying, State.storing, OrderedMap.get?_insert]
    by_cases eq : stored = name
    · rw [if_pos eq, if_pos eq]
    · rw [if_neg eq, if_neg eq]
      refine twin.same name (known.imp_right fun mem => ?_)
      rcases recent name mem with before | ⟨_, other⟩
      · exact before
      · exact absurd (Effect.store.inj other).1 eq
  | jump pc =>
    refine ⟨rfl, congrArg (· + 1) twin.steps_eq, fun name known => ?_⟩
    refine twin.same name (known.imp_right fun mem => ?_)
    rcases recent name mem with before | ⟨_, other⟩
    · exact before
    · cases other

/-- Behind the effect of a fed instruction nothing is recent but what was so before and what is stored
by it. -/
theorem Fed.recent_applying (fed : m.Fed names) {i : Instruction} (fetch : m.code[s.pc]? = some i)
    {value : Operand → Except RunFault Int64} {e : Effect} (effect : m.effect value s.pc i = .ok e) :
    ∀ name ∈ m.code.recent (s.applying e).pc,
      name ∈ m.code.recent s.pc ∨ ∃ word, e = .store name word := by
  have behind : m.code.recent (s.pc + 1) = i.recent (m.code.recent s.pc) := Code.recent_succ fetch
  intro name mem
  rcases effect_eq_ok effect with ⟨result, word, writes, rfl⟩ | ⟨none, rfl | ⟨l, place, found, rfl⟩⟩
  · simp only [State.applying, State.storing, behind] at mem
    rcases Instruction.mem_recent mem with before | same
    · exact .inl before
    · exact .inr ⟨word, by rw [Option.some.inj (writes.symm.trans same)]⟩
  · simp only [State.applying, State.goingTo, behind] at mem
    rcases Instruction.mem_recent mem with before | same
    · exact .inl before
    · simp [none] at same
  · -- where a label stands, nothing is recent
    have mark := fed.marked l place (resolveLabel_eq_ok_iff.mp found)
    have empty : m.code.recent place = [] := (fed.fed place _ mark).entry rfl
    simp [State.applying, State.goingTo, empty] at mem

/-- Twins take the same step: both fail in the same way, or both go on and are twins again. -/
theorem Twin.step (fed : m.Fed names) (twin : m.Twin names s s') :
    (∃ next next', m.step s = .ok next ∧ m.step s' = .ok next' ∧ m.Twin names next next') ∨
      ∃ failure, m.step s = .error failure ∧ m.step s' = .error failure := by
  cases fetch : m.code[s.pc]? with
  | none =>
    have fetch' : m.code[s'.pc]? = none := twin.pc_eq ▸ fetch
    exact .inl ⟨s, s', by rw [Machine.step, fetch], by rw [Machine.step, fetch'], twin⟩
  | some i =>
    have fetch' : m.code[s'.pc]? = some i := twin.pc_eq ▸ fetch
    have alike : m.effect (fun operand => operand.resolve s'.store) s'.pc i =
        m.effect (fun operand => operand.resolve s.store) s.pc i := by
      rw [twin.pc_eq]
      refine effect_congr (fun operand mem => ?_) s'.pc
      exact (twin.resolve_eq ((fed.fed _ _ fetch).reads operand mem)).symm
    rw [Machine.step, Machine.step, fetch, fetch']
    simp only [execute_eq_map_effect, alike]
    cases effect : m.effect (fun operand => operand.resolve s.store) s.pc i with
    | error fault => exact .inr ⟨⟨fault, s.pc, i.render⟩, rfl, by rw [twin.pc_eq]; rfl⟩
    | ok e =>
      exact .inl ⟨s.applying e, s'.applying e, rfl, rfl, twin.applying (fed.recent_applying fetch effect)⟩

/-- Twins that are asked for a step tell the same, and are twins after it. -/
theorem Twin.attempt (fed : m.Fed names) (twin : m.Twin names s s') :
    (m.attempt s).1 = (m.attempt s').1 ∧ m.Twin names (m.attempt s).2 (m.attempt s').2 := by
  rcases twin.step fed with ⟨next, next', step, step', twins⟩ | ⟨failure, step, step'⟩
  · have status : m.status next = m.status next' := by rw [status, status, twins.pc_eq]
    rw [attempt_of_step step, attempt_of_step step']
    exact ⟨by rw [status], twins⟩
  · rw [attempt_of_failure step, attempt_of_failure step']
    exact ⟨rfl, twin⟩

/-- Twins stay twins, however many steps they are asked for. -/
theorem Twin.stateAfter (fed : m.Fed names) (twin : m.Twin names s s') (n : Nat) :
    m.Twin names (m.stateAfter n s) (m.stateAfter n s') := by
  induction n generalizing s s' with
  | zero => exact twin
  | succ n ih => exact ih (twin.attempt fed).2

end Machine

end ThreeAddress
