import ThreeAddress.Machine.Basic

/-!
# Runs of a machine

A run as a relation between states, with the number of its steps, and what it says of the function
that runs a machine with a budget. A machine takes one step at most from each state, so a budget
decides only how far it gets.

## Main definitions

* `Machine.Reaches m s n s'`: from `s`, the machine takes `n` steps to `s'`.
* `Machine.run_add`: a run may be cut at every state that it reaches.
* `Machine.run_eq_ok_iff` and `Machine.run_eq_error_iff`: how a run within a budget ends.
-/

namespace ThreeAddress.Machine

variable {m : Machine} {s s' s'' : State} {n k : Nat}

/-- From `s` the machine takes `n` steps, none of which fails, and is at `s'`. -/
inductive Reaches (m : Machine) : State → Nat → State → Prop where
  | refl (s : State) : Reaches m s 0 s
  | head {s s' s'' : State} {n : Nat} (inside : s.pc < m.code.size) (step : m.step s = .ok s')
      (rest : Reaches m s' n s'') : Reaches m s (n + 1) s''

theorem status_eq_halted_iff : m.status s = .halted ↔ m.code.size ≤ s.pc := by
  simp [status]

theorem Reaches.trans (first : m.Reaches s n s') (second : m.Reaches s' k s'') :
    m.Reaches s (n + k) s'' := by
  induction first with
  | refl => simpa using second
  | head inside step _ ih =>
    rw [Nat.add_right_comm]
    exact .head inside step (ih second)

theorem Reaches.single (inside : s.pc < m.code.size) (step : m.step s = .ok s') :
    m.Reaches s 1 s' :=
  .head inside step (.refl s')

/-- The step that executes an instruction. -/
theorem Reaches.of_execute {i : Instruction} (fetch : m.code[s.pc]? = some i)
    (execute : m.execute s i = .ok s') : m.Reaches s 1 s' := by
  have inside : s.pc < m.code.size := by
    rw [Array.getElem?_eq_some_iff] at fetch
    exact fetch.1
  exact .single inside (by simp [step, fetch, execute])

/-! ## Runs within a budget -/

theorem run_of_halted (h : m.code.size ≤ s.pc) (k : Nat) :
    m.run k s = some (.ok ⟨s.store, s.steps⟩) := by
  have halted := status_eq_halted_iff.mpr h
  cases k <;> simp [run, halted]

theorem run_zero_of_running (h : s.pc < m.code.size) : m.run 0 s = none := by
  simp [run, status, h]

theorem run_succ_of_step (inside : s.pc < m.code.size) (step : m.step s = .ok s') (k : Nat) :
    m.run (k + 1) s = m.run k s' := by
  simp [run, status, inside, step]

theorem run_succ_of_failure {failure : RunFailure} (inside : s.pc < m.code.size)
    (fails : m.step s = .error failure) (k : Nat) : m.run (k + 1) s = some (.error failure) := by
  simp [run, status, inside, fails]

/-- A run may be cut at every state that it reaches. -/
theorem run_add (h : m.Reaches s n s') (k : Nat) : m.run (n + k) s = m.run k s' := by
  induction h with
  | refl => rw [Nat.zero_add]
  | head inside step _ ih => rw [Nat.add_right_comm, run_succ_of_step inside step, ih]

/-- A run of `n` steps does not end within fewer. -/
theorem run_eq_none_of_lt (h : m.Reaches s n s') (hk : k < n) : m.run k s = none := by
  induction h generalizing k with
  | refl => omega
  | head inside step _ ih =>
    cases k with
    | zero => exact run_zero_of_running inside
    | succ k => rw [run_succ_of_step inside step, ih (by omega)]

/-- A run ends with an execution where it leaves the code. -/
theorem run_eq_ok_iff {e : Execution} :
    m.run k s = some (.ok e) ↔
      ∃ n s', n ≤ k ∧ m.Reaches s n s' ∧ m.code.size ≤ s'.pc ∧ e = ⟨s'.store, s'.steps⟩ := by
  constructor
  · intro h
    induction k generalizing s with
    | zero =>
      by_cases inside : s.pc < m.code.size
      · rw [run_zero_of_running inside] at h
        cases h
      · rw [run_of_halted (by omega)] at h
        cases h
        exact ⟨0, s, Nat.le_refl 0, .refl s, by omega, rfl⟩
    | succ k ih =>
      by_cases inside : s.pc < m.code.size
      · cases step : m.step s with
        | ok next =>
          rw [run_succ_of_step inside step] at h
          obtain ⟨n, last, hn, reaches, halted, rfl⟩ := ih h
          exact ⟨n + 1, last, by omega, .head inside step reaches, halted, rfl⟩
        | error failure =>
          rw [run_succ_of_failure inside step] at h
          cases h
      · rw [run_of_halted (by omega)] at h
        cases h
        exact ⟨0, s, by omega, .refl s, by omega, rfl⟩
  · rintro ⟨n, last, hn, reaches, halted, rfl⟩
    obtain ⟨rest, rfl⟩ := Nat.exists_eq_add_of_le hn
    rw [run_add reaches, run_of_halted halted]

/-- A run ends with a failure where a step fails. -/
theorem run_eq_error_iff {failure : RunFailure} :
    m.run k s = some (.error failure) ↔
      ∃ n s', n < k ∧ m.Reaches s n s' ∧ s'.pc < m.code.size ∧ m.step s' = .error failure := by
  constructor
  · intro h
    induction k generalizing s with
    | zero => simp [run] at h
    | succ k ih =>
      by_cases inside : s.pc < m.code.size
      · cases step : m.step s with
        | ok next =>
          rw [run_succ_of_step inside step] at h
          obtain ⟨n, last, hn, reaches, running, fails⟩ := ih h
          exact ⟨n + 1, last, by omega, .head inside step reaches, running, fails⟩
        | error first =>
          rw [run_succ_of_failure inside step] at h
          cases h
          exact ⟨0, s, by omega, .refl s, inside, step⟩
      · rw [run_of_halted (by omega)] at h
        cases h
  · rintro ⟨n, last, hn, reaches, running, fails⟩
    obtain ⟨rest, rfl⟩ := Nat.exists_eq_add_of_lt hn
    rw [Nat.add_assoc, run_add reaches, run_succ_of_failure running fails]

/-- A larger budget changes nothing. -/
theorem run_mono {result : Except RunFailure Execution} {j : Nat} (h : m.run k s = some result)
    (hj : k ≤ j) : m.run j s = some result := by
  cases result with
  | ok e =>
    obtain ⟨n, last, hn, rest⟩ := run_eq_ok_iff.mp h
    exact run_eq_ok_iff.mpr ⟨n, last, by omega, rest⟩
  | error failure =>
    obtain ⟨n, last, hn, rest⟩ := run_eq_error_iff.mp h
    exact run_eq_error_iff.mpr ⟨n, last, by omega, rest⟩

/-- Two runs from one state that end, end alike. -/
theorem run_unique {result other : Except RunFailure Execution} {j : Nat}
    (h : m.run k s = some result) (h' : m.run j s = some other) : result = other := by
  have first := run_mono h (Nat.le_max_left k j)
  have second := run_mono h' (Nat.le_max_right k j)
  exact Option.some.inj (first.symm.trans second)

end ThreeAddress.Machine
