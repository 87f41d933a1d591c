import ThreeAddress.Proofs.Machine.Run

/-!
# Closed machines

A machine is closed when its store can hold every name that its instructions mention, and every
jump has a place to go to. Such a machine never gets stuck: it keeps the names of its store, it
stays in its code or just behind it, and the only thing that can stop it is a division by zero.

## Main definitions

* `Instruction.names` are the names that an instruction reads or writes.
* `Machine.Closed` is what is asked of the code, and `Machine.Safe` what holds of the states.
* `Machine.Closed.step` is what one step does, and `Machine.Closed.reaches` what a run keeps.
-/

namespace ThreeAddress

/-- The names that the operand mentions. -/
def Operand.names : Operand → List String
  | .constant _ => []
  | .name symbol => [symbol]

/-- The names that the instruction reads or writes. -/
def Instruction.names : Instruction → List String
  | .assign result value => result :: value.names
  | .binary _ lhs rhs result => result :: (lhs.names ++ rhs.names)
  | .label _ | .goto _ => []
  | .ifFalse condition _ | .ifTrue condition _ => condition.names

/-- Operands whose names are known have a value. -/
theorem Operand.exists_resolve {operand : Operand} {store : Store}
    (known : ∀ name ∈ operand.names, name ∈ store.keys) : ∃ word, operand.resolve store = .ok word := by
  cases operand with
  | constant value => exact ⟨value, rfl⟩
  | name symbol =>
    have isSome := (store.mem_keys_iff symbol).mp (known symbol (List.mem_singleton_self symbol))
    obtain ⟨word, found⟩ := Option.isSome_iff_exists.mp isSome
    exact ⟨word, by simp only [resolve, found]⟩

/-- Only a division by zero has no value. -/
theorem Operator.apply?_eq_none_iff {op : Operator} {a b : Int64} :
    op.apply? a b = none ↔ op = .div ∧ b = 0 := by
  cases op with
  | div =>
    by_cases zero : b = 0
    · simp [floorDiv?, Operator.apply?, zero]
    · simp only [floorDiv?, Operator.apply?, zero, if_false]
      split <;> simp
  | _ => simp only [reduceCtorEq, Operator.apply?, false_and]

namespace Machine

/-- Every name of the instructions is among `names`, and every jump has a place to go to. -/
structure Closed (m : Machine) (names : List String) : Prop where
  known : ∀ (pc : Nat) (i : Instruction), m.code[pc]? = some i → ∀ name ∈ i.names, name ∈ names
  linked : ∀ (pc : Nat) (i : Instruction) (l : Label), m.code[pc]? = some i → i.target? = some l →
    ∃ place, m.labels.get? l = some place ∧ place < m.code.size

/-- The store holds just the names, in their order, and the machine is in its code or behind it. -/
structure Safe (m : Machine) (names : List String) (s : State) : Prop where
  keys_eq : s.store.keys = names
  pc_le : s.pc ≤ m.code.size

/-- The next instruction divides by zero, and so the step fails. -/
structure DividesNext (m : Machine) (s : State) (lhs rhs : Operand) (result : String) : Prop where
  fetch : m.code[s.pc]? = some (.binary .div lhs rhs result)
  zero : rhs.resolve s.store = .ok 0
  fails : m.step s = .error ⟨.divisionByZero, s.pc, (Instruction.binary .div lhs rhs result).render⟩

variable {m : Machine} {names : List String} {s s' : State} {n : Nat}

/-- Storing a word under a known name keeps the names. -/
theorem Safe.storing (safe : m.Safe names s) (inside : s.pc < m.code.size) {name : String}
    (known : name ∈ names) (word : Int64) : m.Safe names (s.storing name word) := by
  constructor
  · rw [State.storing, OrderedMap.keys_insert, safe.keys_eq, if_pos known]
  · exact inside

theorem Safe.goingTo (safe : m.Safe names s) {pc : Nat} (le : pc ≤ m.code.size) :
    m.Safe names (s.goingTo pc) :=
  ⟨safe.keys_eq, le⟩

/-- A closed machine takes its next step and is safe after it, or it divides by zero. -/
theorem Closed.step (closed : m.Closed names) (safe : m.Safe names s) :
    (∃ s', m.step s = .ok s' ∧ m.Safe names s') ∨ ∃ lhs rhs result, m.DividesNext s lhs rhs result := by
  cases fetch : m.code[s.pc]? with
  | none => exact .inl ⟨s, by simp only [Machine.step, fetch], safe⟩
  | some i =>
    have inside : s.pc < m.code.size := (Array.getElem?_eq_some_iff.mp fetch).1
    have known := closed.known s.pc i fetch
    have value : ∀ operand : Operand, (∀ name ∈ operand.names, name ∈ i.names) →
        ∃ word, operand.resolve s.store = .ok word := fun operand sub =>
      Operand.exists_resolve fun name mem => safe.keys_eq ▸ known name (sub name mem)
    -- It is enough to look at what the instruction does.
    suffices executed : (∃ s', m.execute s i = .ok s' ∧ m.Safe names s') ∨
        ∃ lhs rhs result, i = .binary .div lhs rhs result ∧ rhs.resolve s.store = .ok 0 ∧
          m.execute s i = .error .divisionByZero by
      rcases executed with ⟨s', ok, safe'⟩ | ⟨lhs, rhs, result, rfl, zero, fails⟩
      · exact .inl ⟨s', by simp only [Machine.step, fetch, ok], safe'⟩
      · exact .inr ⟨lhs, rhs, result, fetch, zero, by simp only [Machine.step, fetch, fails]⟩
    cases i with
    | assign result operand =>
      obtain ⟨word, resolved⟩ := value operand fun name mem => List.mem_cons_of_mem _ mem
      refine .inl ⟨s.storing result word, ?_, safe.storing inside (known _ (List.mem_cons_self ..)) word⟩
      simp [execute, resolved, bind, Except.bind, pure, Except.pure]
    | binary op lhs rhs result =>
      obtain ⟨a, left⟩ := value lhs fun name mem =>
        List.mem_cons_of_mem _ (List.mem_append_left _ mem)
      obtain ⟨b, right⟩ := value rhs fun name mem =>
        List.mem_cons_of_mem _ (List.mem_append_right _ mem)
      cases applied : op.apply? a b with
      | some word =>
        refine .inl ⟨s.storing result word, ?_,
          safe.storing inside (known _ (List.mem_cons_self ..)) word⟩
        simp [execute, left, right, applied, bind, Except.bind, pure, Except.pure]
      | none =>
        obtain ⟨rfl, rfl⟩ := Operator.apply?_eq_none_iff.mp applied
        refine .inr ⟨lhs, rhs, result, rfl, right, ?_⟩
        simp [execute, left, right, applied, bind, Except.bind, throw, throwThe, MonadExceptOf.throw]
    | label l => exact .inl ⟨_, rfl, safe.goingTo inside⟩
    | goto target =>
      obtain ⟨place, found, before⟩ := closed.linked s.pc _ target fetch rfl
      refine .inl ⟨s.goingTo place, ?_, safe.goingTo (Nat.le_of_lt before)⟩
      simp [execute, resolveLabel, found, bind, Except.bind, pure, Except.pure]
    | ifFalse condition target | ifTrue condition target =>
      obtain ⟨word, resolved⟩ := value condition fun name mem => mem
      obtain ⟨place, found, before⟩ := closed.linked s.pc _ target fetch rfl
      by_cases zero : word = 0 <;>
        simp [execute, resolveLabel, resolved, found, zero, bind, Except.bind, pure, Except.pure,
          safe.goingTo inside, safe.goingTo (Nat.le_of_lt before)]

/-- A run of a closed machine stays safe. -/
theorem Closed.reaches (closed : m.Closed names) (safe : m.Safe names s) (run : m.Reaches s n s') :
    m.Safe names s' := by
  induction run with
  | refl => exact safe
  | head inside step rest ih =>
    rcases closed.step safe with ⟨next, ok, safe'⟩ | ⟨lhs, rhs, result, divides⟩
    · rw [step] at ok
      cases ok
      exact ih safe'
    · rw [divides.fails] at step
      cases step

/-- A closed machine fails with a division by zero only. -/
theorem Closed.fault_of_run (closed : m.Closed names) (safe : m.Safe names s) {k : Nat}
    {failure : RunFailure} (run : m.run k s = some (.error failure)) :
    failure.fault = .divisionByZero := by
  obtain ⟨n, last, -, reaches, -, fails⟩ := run_eq_error_iff.mp run
  rcases closed.step (closed.reaches safe reaches) with ⟨next, ok, -⟩ | ⟨lhs, rhs, result, divides⟩
  · rw [fails] at ok
    cases ok
  · have same := divides.fails
    rw [fails] at same
    cases same
    rfl

end Machine

end ThreeAddress
