import ThreeAddress.Proofs.Machine.Effect

/-!
# Steps one by one

A machine can be asked for its steps one by one, also after a failure and after the end. A step works
on the state in place, but whatever an instruction may fail of, it fails of before it writes: so a
failed step changes nothing, and to ask again is to fail again. In this way nothing is lost for a run
that begins where the single steps have come to.

## Main definitions

* `Machine.stateAfter` is the state after a number of steps, asked for one by one.
* `Machine.perform_spec`: to execute an instruction in place is to execute it, or to change nothing.
* `Machine.attempt_of_step` and `Machine.attempt_of_failure`: what a step comes to.
* `Machine.stepping_atomic` is the main result.
-/

namespace ThreeAddress.Machine

/-- The state after a number of steps, asked for one by one. -/
def stateAfter (m : Machine) : Nat → State → State
  | 0, s => s
  | n + 1, s => m.stateAfter n (m.attempt s).2

variable {m : Machine} {s s' : State} {n : Nat} {failure : RunFailure}

theorem status_eq_running_iff : m.status s = .running ↔ s.pc < m.code.size := by
  simp [status]

/-! ## Instructions in place -/

section

variable {α β : Type}

/-- What an action comes to that goes on behind another one. -/
theorem bind_apply (action : Action α) (next : α → Action β) (s : State) :
    (action >>= next) s =
      match action s with
      | .ok a s' => next a s'
      | .error fault s' => .error fault s' := by
  simp only [bind, EStateM.bind]
  cases action s <;> rfl

theorem ofExcept_apply (x : Except RunFault α) (s : State) :
    (MonadExcept.ofExcept x : Action α) s =
      match x with
      | .ok a => .ok a s
      | .error fault => .error fault s := by
  cases x <;> rfl

theorem read_apply (operand : Operand) (s : State) :
    read operand s =
      match operand.resolve s.store with
      | .ok word => .ok word s
      | .error fault => .error fault s :=
  (ofExcept_apply (operand.resolve s.store) s).trans (by cases operand.resolve s.store <;> rfl)

theorem jump_apply (m : Machine) (target : Label) (s : State) :
    m.jump target s =
      match m.resolveLabel target with
      | .ok place => .ok (some place) s
      | .error fault => .error fault s := by
  rw [jump, bind_apply, ofExcept_apply]
  cases m.resolveLabel target <;> rfl

end

/-- To execute an instruction in place is to execute it, but one that fails changes nothing. -/
theorem perform_spec (m : Machine) (i : Instruction) (s : State) :
    match m.perform i s with
    | .ok place? s' => m.execute s i = .ok (s'.goingTo (place?.getD (s'.pc + 1)))
    | .error fault s' => s' = s ∧ m.execute s i = .error fault := by
  cases i with
  | label l => rfl
  | assign result value =>
    simp only [perform, execute, bind_apply, read_apply]
    cases value.resolve s.store with
    | error fault => exact ⟨rfl, rfl⟩
    | ok word => rfl
  | binary op lhs rhs result =>
    simp only [perform, execute, bind_apply, read_apply]
    cases lhs.resolve s.store with
    | error fault => exact ⟨rfl, rfl⟩
    | ok left =>
      dsimp only
      cases rhs.resolve s.store with
      | error fault => exact ⟨rfl, rfl⟩
      | ok right =>
        simp only [bind, Except.bind]
        cases op.apply? left right with
        | none => exact ⟨rfl, rfl⟩
        | some word => rfl
  | goto target =>
    simp only [perform, execute, jump_apply]
    cases m.resolveLabel target with
    | error fault => exact ⟨rfl, rfl⟩
    | ok place => rfl
  | ifFalse condition target | ifTrue condition target =>
    simp only [perform, execute, bind_apply, read_apply]
    cases condition.resolve s.store with
    | error fault => exact ⟨rfl, rfl⟩
    | ok word =>
      -- a jump that is not taken looks up no label
      by_cases zero : word = 0
      · simp only [zero, ne_eq, not_true, if_true, if_false, jump_apply, bind, Except.bind]
        cases m.resolveLabel target <;> first | rfl | exact ⟨rfl, rfl⟩
      · simp only [zero, ne_eq, not_false_iff, if_true, if_false, jump_apply, bind, Except.bind]
        cases m.resolveLabel target <;> first | rfl | exact ⟨rfl, rfl⟩

/-! ## Single steps -/

/-- A single step comes to what a step of a run comes to, and leaves the state as it was if it
fails. -/
theorem attempt_eq (m : Machine) (s : State) :
    m.attempt s =
      match m.step s with
      | .ok s' => (.ok (m.status s'), s')
      | .error failure => (.error failure, s) := by
  cases fetch : m.code[s.pc]? with
  | none =>
    have halted : m.status s = .halted :=
      status_eq_halted_iff.mpr (Array.getElem?_eq_none_iff.mp fetch)
    simp only [attempt, step, fetch, halted]
  | some i =>
    have spec := m.perform_spec i s
    simp only [attempt, step, fetch]
    cases done : m.perform i s with
    | ok place? s' =>
      simp only [done] at spec
      simp only [spec]
    | error fault s' =>
      simp only [done] at spec
      obtain ⟨rfl, failed⟩ := spec
      simp only [failed]

theorem attempt_of_step (step : m.step s = .ok s') : m.attempt s = (.ok (m.status s'), s') := by
  rw [attempt_eq, step]

theorem attempt_of_failure (fails : m.step s = .error failure) :
    m.attempt s = (.error failure, s) := by
  rw [attempt_eq, fails]

theorem attempt_of_halted (halted : m.status s = .halted) : m.attempt s = (.ok .halted, s) := by
  rw [attempt_of_step (step_of_halted halted), halted]

/-- A failure tells the place and the text of the instruction that failed. -/
theorem exists_of_step_eq_error (fails : m.step s = .error failure) :
    ∃ i, m.code[s.pc]? = some i ∧ failure.pc = s.pc ∧ failure.instruction = i.render := by
  rw [step] at fails
  split at fails
  next => cases fails
  next i fetch =>
    split at fails
    next => cases fails
    next =>
      cases fails
      exact ⟨i, fetch, rfl, rfl⟩

/-! ## Single steps and runs -/

/-- Single steps go some way along the run; beyond a failure or the end they go no further. -/
theorem exists_reaches_stateAfter (m : Machine) (n : Nat) (s : State) :
    ∃ k, m.Reaches s k (m.stateAfter n s) := by
  induction n generalizing s with
  | zero => exact ⟨0, .refl s⟩
  | succ n ih =>
    rw [stateAfter]
    by_cases inside : s.pc < m.code.size
    · cases step : m.step s with
      | ok next =>
        rw [attempt_of_step step]
        obtain ⟨k, rest⟩ := ih next
        exact ⟨k + 1, .head inside step rest⟩
      | error failure =>
        rw [attempt_of_failure step]
        exact ih s
    · rw [attempt_of_halted (status_eq_halted_iff.mpr (by omega))]
      exact ih s

/-- A run comes to the same from every state on its way. -/
theorem exists_run_iff_of_reaches (reaches : m.Reaches s n s')
    {result : Except RunFailure Execution} :
    (∃ fuel, m.run fuel s' = some result) ↔ ∃ fuel, m.run fuel s = some result := by
  constructor
  · rintro ⟨fuel, ends⟩
    exact ⟨n + fuel, by rw [run_add reaches, ends]⟩
  · rintro ⟨fuel, ends⟩
    have longer : m.run (n + fuel) s = some result := run_mono ends (Nat.le_add_left fuel n)
    exact ⟨fuel, by rw [← run_add reaches, longer]⟩

/-- Single steps are atomic, and they agree with a run. Wherever some of them have led, also beyond a
failure or the end: a step that fails leaves the state as it was, tells the instruction that it failed
at, and fails again; a machine that has halted stays as it is; and any other step counts as one. A run
that begins there comes to what a run from the beginning comes to, and has the same store and the same
number of steps; so it runs forever just if the other one does. -/
theorem stepping_atomic (code : Code) (symbols : SymbolTable) (n : Nat) :
    let m := load code symbols
    let s := m.stateAfter n (.start symbols)
    (∀ failure, (m.attempt s).1 = .error failure →
        (m.attempt s).2 = s ∧
          (∃ i, code[s.pc]? = some i ∧ failure.pc = s.pc ∧ failure.instruction = i.render) ∧
          (m.attempt (m.attempt s).2).1 = .error failure) ∧
      (m.status s = .halted → m.attempt s = (.ok .halted, s)) ∧
      (m.status s = .running → ∀ status, (m.attempt s).1 = .ok status →
        (m.attempt s).2.steps = s.steps + 1 ∧ status = m.status (m.attempt s).2) ∧
      ∀ result, (∃ fuel, m.run fuel s = some result) ↔ ∃ fuel, code.run fuel symbols = some result := by
  intro m s
  refine ⟨fun failure failed => ?_, attempt_of_halted, fun running status went => ?_, fun result => ?_⟩
  · cases step : m.step s with
    | ok next =>
      rw [attempt_of_step step] at failed
      cases failed
    | error first =>
      rw [attempt_of_failure step] at failed ⊢
      cases failed
      exact ⟨rfl, exists_of_step_eq_error step, by rw [attempt_of_failure step]⟩
  · have inside : s.pc < m.code.size := status_eq_running_iff.mp running
    cases step : m.step s with
    | ok next =>
      rw [attempt_of_step step] at went ⊢
      cases went
      exact ⟨steps_of_step inside step, rfl⟩
    | error failure =>
      rw [attempt_of_failure step] at went
      cases went
  · obtain ⟨k, reaches⟩ := m.exists_reaches_stateAfter n (.start symbols)
    exact exists_run_iff_of_reaches reaches

/-- A division by zero behind an assignment: the first step stores its word, the others fail alike, and
so does a run from where they have come to. -/
theorem stepping_atomic_division :
    let code : Code := #[.assign "a" (.constant 1), .binary .div (.name "a") (.name "b") "a"]
    let symbols : SymbolTable := SymbolTable.empty.put (.new "a" .declared none none)
      |>.put (.new "b" .declared none none)
    let s := (load code symbols).stateAfter 3 (.start symbols)
    let failure : RunFailure := ⟨.divisionByZero, 1, "a = a / b"⟩
    s.store.get? "a" = some 1 ∧ (load code symbols).attempt s = (.error failure, s) ∧
      ∃ fuel, code.run fuel symbols = some (.error failure) := by
  intro code symbols s failure
  obtain ⟨fails, -, -, agrees⟩ := stepping_atomic code symbols 3
  have failed : ((load code symbols).attempt s).1 = .error failure := by rfl
  have ended : (load code symbols).run 1 s = some (.error failure) := by rfl
  exact ⟨by decide +kernel, Prod.ext failed (fails failure failed).1, (agrees _).mp ⟨1, ended⟩⟩

end ThreeAddress.Machine
