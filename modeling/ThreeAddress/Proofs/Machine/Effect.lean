import ThreeAddress.Proofs.Machine.Run

/-!
# What an instruction does

An instruction that is executed either stores one word under a name and goes on behind itself, or it
leaves the store alone and goes to a place. Which of the two, which word and which place, depends on
the store only by the values of the operands.

## Main definitions

* `Effect` is what an instruction does, and `State.applying` does it.
* `Machine.effect` is the effect of an instruction, given the values of operands.
* `Machine.execute_eq_map_effect`: to execute an instruction is to apply its effect.
* `Machine.effect_eq_ok`: the instructions that store are those that have a result, and all others go
  on or to a label.
-/

namespace ThreeAddress

/-- What an instruction does: it stores a word under a name, or it goes to a place. -/
inductive Effect where
  | store (name : String) (word : Int64)
  | jump (pc : Nat)

/-- The state after an effect. -/
def State.applying (s : State) : Effect → State
  | .store name word => s.storing name word
  | .jump pc => s.goingTo pc

@[simp] theorem State.steps_applying (s : State) (e : Effect) :
    (s.applying e).steps = s.steps + 1 := by
  cases e <;> rfl

/-- The operands of an instruction, in the order in which they are looked at. -/
def Instruction.operands : Instruction → List Operand
  | .assign _ value => [value]
  | .binary _ lhs rhs _ => [lhs, rhs]
  | .label _ | .goto _ => []
  | .ifFalse condition _ | .ifTrue condition _ => [condition]

/-- The name under which an instruction stores a word. -/
def Instruction.result? : Instruction → Option String
  | .assign result _ | .binary _ _ _ result => some result
  | .label _ | .goto _ | .ifFalse _ _ | .ifTrue _ _ => none

namespace Machine

variable {m : Machine} {s s' : State} {n : Nat}

/-- The effect of an instruction at the place `pc`, where `value` gives the values of its operands. -/
def effect (m : Machine) (value : Operand → Except RunFault Int64) (pc : Nat) :
    Instruction → Except RunFault Effect
  | .assign result operand => do return .store result (← value operand)
  | .binary op lhs rhs result => do
    let left ← value lhs
    let right ← value rhs
    match op.apply? left right with
    | some word => return .store result word
    | none => throw .divisionByZero
  | .label _ => return .jump (pc + 1)
  | .goto target => do return .jump (← m.resolveLabel target)
  | .ifFalse condition target => do
    if (← value condition) = 0 then return .jump (← m.resolveLabel target) else return .jump (pc + 1)
  | .ifTrue condition target => do
    if (← value condition) ≠ 0 then return .jump (← m.resolveLabel target) else return .jump (pc + 1)

/-- To execute an instruction is to apply its effect. -/
theorem execute_eq_map_effect (m : Machine) (s : State) (i : Instruction) :
    m.execute s i = (m.effect (fun operand => operand.resolve s.store) s.pc i).map s.applying := by
  cases i with
  | label l => rfl
  | goto target =>
    simp only [execute, effect]
    cases m.resolveLabel target <;> rfl
  | assign result value =>
    simp only [execute, effect]
    cases value.resolve s.store <;> rfl
  | binary op lhs rhs result =>
    simp only [execute, effect]
    cases lhs.resolve s.store with
    | error fault => rfl
    | ok left =>
      cases rhs.resolve s.store with
      | error fault => rfl
      | ok right =>
        simp only [bind, Except.bind]
        cases op.apply? left right <;> rfl
  | ifFalse condition target | ifTrue condition target =>
    simp only [execute, effect]
    cases condition.resolve s.store with
    | error fault => rfl
    | ok word =>
      by_cases zero : word = 0
      · cases m.resolveLabel target <;> simp [zero, bind, Except.bind, pure, Except.pure, Except.map,
          State.applying]
      · cases m.resolveLabel target <;> simp [zero, bind, Except.bind, pure, Except.pure, Except.map,
          State.applying]

/-- The effect depends on the values of the operands only. -/
theorem effect_congr {value value' : Operand → Except RunFault Int64} {i : Instruction}
    (same : ∀ operand ∈ i.operands, value operand = value' operand) (pc : Nat) :
    m.effect value pc i = m.effect value' pc i := by
  cases i with
  | label l | goto target => rfl
  | assign result operand =>
    have operand : value operand = value' operand := same _ (by simp [Instruction.operands])
    simp only [effect, operand]
  | binary op lhs rhs result =>
    have left : value lhs = value' lhs := same _ (by simp [Instruction.operands])
    have right : value rhs = value' rhs := same _ (by simp [Instruction.operands])
    simp only [effect, left, right]
  | ifFalse condition target | ifTrue condition target =>
    have test : value condition = value' condition := same _ (by simp [Instruction.operands])
    simp only [effect, test]

theorem resolveLabel_eq_ok_iff {l : Label} {place : Nat} :
    m.resolveLabel l = .ok place ↔ m.labels.get? l = some place := by
  rw [resolveLabel]
  cases m.labels.get? l <;> simp

theorem except_bind_eq_ok {ε α β : Type} {x : Except ε α} {f : α → Except ε β} {b : β} :
    x >>= f = .ok b ↔ ∃ a, x = .ok a ∧ f a = .ok b := by
  cases x <;> simp [bind, Except.bind]

/-- An instruction with a result stores a word under it; any other goes on, or to the place of a
label. -/
theorem effect_eq_ok {value : Operand → Except RunFault Int64} {pc : Nat} {i : Instruction} {e : Effect}
    (h : m.effect value pc i = .ok e) :
    (∃ name word, i.result? = some name ∧ e = .store name word) ∨
      i.result? = none ∧ (e = .jump (pc + 1) ∨ ∃ l place, m.resolveLabel l = .ok place ∧ e = .jump place) := by
  cases i with
  | label l =>
    cases h
    exact .inr ⟨rfl, .inl rfl⟩
  | assign result operand =>
    obtain ⟨word, -, done⟩ := except_bind_eq_ok.mp h
    cases done
    exact .inl ⟨result, word, rfl, rfl⟩
  | binary op lhs rhs result =>
    obtain ⟨a, -, rest⟩ := except_bind_eq_ok.mp h
    obtain ⟨b, -, applied⟩ := except_bind_eq_ok.mp rest
    split at applied
    next word _ =>
      cases applied
      exact .inl ⟨result, word, rfl, rfl⟩
    next => cases applied
  | goto l =>
    obtain ⟨place, found, done⟩ := except_bind_eq_ok.mp h
    cases done
    exact .inr ⟨rfl, .inr ⟨l, place, found, rfl⟩⟩
  | ifFalse condition l | ifTrue condition l =>
    obtain ⟨word, -, tested⟩ := except_bind_eq_ok.mp h
    split at tested
    next =>
      obtain ⟨place, found, done⟩ := except_bind_eq_ok.mp tested
      cases done
      exact .inr ⟨rfl, .inr ⟨l, place, found, rfl⟩⟩
    next =>
      cases tested
      exact .inr ⟨rfl, .inl rfl⟩

/-! ## Counted steps -/

/-- A step in the code counts as one. -/
theorem steps_of_step (inside : s.pc < m.code.size) (step : m.step s = .ok s') :
    s'.steps = s.steps + 1 := by
  have fetch : m.code[s.pc]? = some m.code[s.pc] := Array.getElem?_eq_getElem inside
  rw [Machine.step, fetch] at step
  simp only [execute_eq_map_effect] at step
  cases done : m.effect (fun operand => operand.resolve s.store) s.pc m.code[s.pc] with
  | error fault => simp [done, Except.map] at step
  | ok e =>
    simp only [done, Except.map, Except.ok.injEq] at step
    rw [← step, State.steps_applying]

/-- A run counts its steps. -/
theorem Reaches.steps_eq (h : m.Reaches s n s') : s'.steps = s.steps + n := by
  induction h with
  | refl => rfl
  | head inside step _ ih =>
    rw [ih, steps_of_step inside step]
    omega

end Machine

end ThreeAddress
