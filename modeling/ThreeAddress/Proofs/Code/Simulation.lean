import ThreeAddress.Proofs.Code.Placement
import ThreeAddress.Proofs.Machine.Arithmetic
import ThreeAddress.Proofs.Machine.Run

/-!
# Machines follow programs

A machine that stands before the instructions of a statement does what the statement means. The
store agrees with the words of the statement on all names of the program; what it holds for
temporaries is left open, except that the temporaries of an expression last until its value is
used: instructions that come later write to temporaries with higher numbers.

## Main definitions

* `Store.Agrees` relates a store to words, on the names of a program.
* `Machine.Follows` relates a machine to an outcome: it gets as far, with as many steps.
* `Expr.evaluates` and `Stmt.follows` are the simulations.
-/

namespace ThreeAddress

open SymbolTable (temporaryName)

/-! ## Stores and words -/

/-- The store has the words of the names. -/
def Store.Agrees (names : List String) (store : Store) (words : Words) : Prop :=
  ∀ name ∈ names, store.get? name = some (words name)

namespace Store.Agrees

variable {names : List String} {store : Store} {words : Words}

/-- A name that is not among the names is free to take any word. -/
theorem insert_of_notMem (h : Agrees names store words) {name : String} (free : name ∉ names)
    (word : Int64) : Agrees names (store.insert name word) words := by
  intro other mem
  have ne : name ≠ other := fun eq => free (eq ▸ mem)
  rw [OrderedMap.get?_insert, if_neg ne, h other mem]

theorem insert (h : Agrees names store words) (name : String) (word : Int64) :
    Agrees names (store.insert name word) (Function.update words name word) := by
  intro other mem
  by_cases eq : name = other
  · simp [eq]
  · rw [OrderedMap.get?_insert, if_neg eq, h other mem, Function.update_of_ne (Ne.symm eq)]

end Store.Agrees

/-! ## Outcomes -/

namespace Outcome

@[simp] theorem charge_charge (o : Outcome) (a b : Nat) : (o.charge a).charge b = o.charge (b + a) := by
  cases o <;> simp [charge, Nat.add_assoc]

/-- What the next part costs more, the whole costs more. -/
theorem andThen_charge (o : Outcome) (next : Words → Outcome) (k : Nat) :
    (o.andThen fun words => (next words).charge k) = (o.andThen next).charge k := by
  cases o with
  | done words cost => simp [andThen, Nat.add_comm]
  | divisionByZero | outOfFuel => rfl

end Outcome

namespace Machine

variable (m : Machine) (names : List String)

/-- From `s` the machine comes to an instruction that divides by zero. -/
def Divides (s : State) : Prop :=
  ∃ n s' failure, m.Reaches s n s' ∧ s'.pc < m.code.size ∧ m.step s' = .error failure ∧
    failure.fault = .divisionByZero

/-- From `s` the machine gets as far as an outcome, in as many steps: to the place `pc` with the
words that it ends with, to a division by zero, or through `fuel` steps if it is not done. -/
def Follows (fuel : Nat) (s : State) (pc : Nat) : Outcome → Prop
  | .done words cost => ∃ s', m.Reaches s cost s' ∧ s'.pc = pc ∧ s'.store.Agrees names words
  | .divisionByZero => m.Divides s
  | .outOfFuel => ∃ n s', fuel ≤ n ∧ m.Reaches s n s'

/-- Every label that marks a place is found there. -/
def Linked : Prop :=
  ∀ l place, m.code[place]? = some (.label l) → m.labels.get? l = some place

variable {m names} {s s' : State} {fuel k pc pc' : Nat} {o : Outcome} {words : Words}

theorem Divides.prepend (first : m.Reaches s k s') (h : m.Divides s') : m.Divides s := by
  obtain ⟨n, last, failure, reaches, rest⟩ := h
  exact ⟨k + n, last, failure, first.trans reaches, rest⟩

namespace Follows

/-- Steps that come first are charged, and count as fuel too. -/
theorem prepend (first : m.Reaches s k s') (h : m.Follows names fuel s' pc o) :
    m.Follows names (k + fuel) s pc (o.charge k) := by
  cases o with
  | done words cost =>
    obtain ⟨last, reaches, rest⟩ := h
    exact ⟨last, first.trans reaches, rest⟩
  | divisionByZero => exact Divides.prepend first h
  | outOfFuel =>
    obtain ⟨n, last, bound, reaches⟩ := h
    exact ⟨k + n, last, by omega, first.trans reaches⟩

theorem mono (h : m.Follows names fuel s pc o) (le : k ≤ fuel) : m.Follows names k s pc o := by
  cases o with
  | done words cost => exact h
  | divisionByZero => exact h
  | outOfFuel =>
    obtain ⟨n, last, bound, reaches⟩ := h
    exact ⟨n, last, by omega, reaches⟩

theorem andThen {next : Words → Outcome} (h : m.Follows names fuel s pc o)
    (goOn : ∀ s' words, s'.pc = pc → s'.store.Agrees names words →
      m.Follows names fuel s' pc' (next words)) :
    m.Follows names fuel s pc' (o.andThen next) := by
  cases o with
  | done words cost =>
    obtain ⟨middle, reaches, here, agrees⟩ := h
    exact ((goOn middle words here agrees).prepend reaches).mono (by omega)
  | divisionByZero => exact h
  | outOfFuel => exact h

/-- Steps at the end that leave the store alone are charged. -/
theorem append (h : m.Follows names fuel s pc o)
    (goOn : ∀ s', s'.pc = pc → ∃ last, m.Reaches s' k last ∧ last.pc = pc' ∧ last.store = s'.store) :
    m.Follows names fuel s pc' (o.charge k) := by
  cases o with
  | done words cost =>
    obtain ⟨middle, reaches, here, agrees⟩ := h
    obtain ⟨last, rest, there, same⟩ := goOn middle here
    exact ⟨last, Nat.add_comm cost k ▸ reaches.trans rest, there, same ▸ agrees⟩
  | divisionByZero => exact h
  | outOfFuel => exact h

end Follows

/-! ## Single instructions -/

variable {l : Label} {place : Nat} {operand : Operand} {word : Int64}

theorem reaches_label (fetch : m.code[s.pc]? = some (.label l)) :
    m.Reaches s 1 (s.goingTo (s.pc + 1)) :=
  .of_execute fetch rfl

/-- A jump goes to the place of its label, if that marks one. -/
theorem reaches_goto (linked : m.Linked) (mark : m.code[place]? = some (.label l))
    (fetch : m.code[s.pc]? = some (.goto l)) : m.Reaches s 1 (s.goingTo place) :=
  .of_execute fetch (by simp [execute, resolveLabel, linked l place mark, bind, Except.bind, pure,
    Except.pure])

/-- A test goes to the place of its label if the condition is zero. -/
theorem reaches_ifFalse (linked : m.Linked) (mark : m.code[place]? = some (.label l))
    (fetch : m.code[s.pc]? = some (.ifFalse operand l)) (value : operand.resolve s.store = .ok word) :
    m.Reaches s 1 (s.goingTo (if word = 0 then place else s.pc + 1)) := by
  apply Reaches.of_execute fetch
  by_cases zero : word = 0 <;>
    simp [execute, resolveLabel, linked l place mark, value, zero, bind, Except.bind, pure, Except.pure]

theorem reaches_assign {name : String} (fetch : m.code[s.pc]? = some (.assign name operand))
    (value : operand.resolve s.store = .ok word) : m.Reaches s 1 (s.storing name word) :=
  .of_execute fetch (by simp [execute, value, bind, Except.bind, pure, Except.pure])

section

variable {op : Operator} {lhs rhs : Operand} {a b : Int64} {name : String}

theorem reaches_binary (fetch : m.code[s.pc]? = some (.binary op lhs rhs name))
    (left : lhs.resolve s.store = .ok a) (right : rhs.resolve s.store = .ok b)
    (value : op.meaning? a b = some word) : m.Reaches s 1 (s.storing name word) :=
  .of_execute fetch (by
    simp [execute, left, right, Operator.apply?_eq_meaning?, value, bind, Except.bind, pure,
      Except.pure])

theorem divides_binary (fetch : m.code[s.pc]? = some (.binary op lhs rhs name))
    (left : lhs.resolve s.store = .ok a) (right : rhs.resolve s.store = .ok b)
    (value : op.meaning? a b = none) : m.Divides s := by
  have inside : s.pc < m.code.size := (Array.getElem?_eq_some_iff.mp fetch).1
  have fails : m.execute s (.binary op lhs rhs name) = .error .divisionByZero := by
    simp [execute, left, right, Operator.apply?_eq_meaning?, value, bind, Except.bind, throw, throwThe,
      MonadExceptOf.throw]
  exact ⟨0, s, ⟨.divisionByZero, s.pc, (Instruction.binary op lhs rhs name).render⟩, .refl s, inside,
    by simp only [step, fetch, fails], rfl⟩

end

end Machine

/-! ## Expressions -/

/-- What the machine has done when it is through with an expression: the operand has the value of
the expression, and the temporaries that were there before are as they were. -/
structure Machine.Evaluated (m : Machine) (names : List String) (words : Words) (temp cost : Nat)
    (operand : Operand) (word : Int64) (s s' : State) : Prop where
  reaches : m.Reaches s cost s'
  pc_eq : s'.pc = s.pc + cost
  agrees : s'.store.Agrees names words
  value : operand.resolve s'.store = .ok word
  earlier : ∀ n < temp, s'.store.get? (temporaryName n) = s.store.get? (temporaryName n)

/-- The machine evaluates an expression with this value: it comes to an end with it, or it divides
by zero if there is none. -/
def Machine.Evaluates (m : Machine) (names : List String) (words : Words) (temp cost : Nat)
    (operand : Operand) (s : State) : Option Int64 → Prop
  | some word => ∃ s', m.Evaluated names words temp cost operand word s s'
  | none => m.Divides s

section

variable {m : Machine} {names : List String} {words : Words} {s : State} {temp : Nat}

/-- The operand of an expression keeps its value as long as the store agrees with the words and the
temporaries of the expression are as they were. -/
theorem Expr.resolve_result (e : Expr) (known : ∀ o ∈ e.occurrences, o.text ∈ names)
    {store store' : Store} (agrees : store.Agrees names words) (agrees' : store'.Agrees names words)
    (earlier : ∀ n < temp + e.operators, store'.get? (temporaryName n) = store.get? (temporaryName n)) :
    (e.result temp).resolve store' = (e.result temp).resolve store := by
  cases e with
  | number value => rfl
  | name lexeme =>
    have mem : lexeme.text ∈ names := known ⟨.used, lexeme⟩ (by simp [Expr.occurrences])
    simp only [Expr.result, Operand.resolve, agrees _ mem, agrees' _ mem]
  | binary op lhs rhs =>
    have last := earlier (temp + lhs.operators + rhs.operators) (by simp [Expr.operators]; omega)
    simp only [Expr.result, Operand.resolve, last]

/-- The machine evaluates an expression as it is meant. -/
theorem Expr.evaluates (e : Expr) (free : ∀ n, temporaryName n ∉ names)
    (known : ∀ o ∈ e.occurrences, o.text ∈ names) (placed : m.code.HasAt s.pc (e.segment temp))
    (agrees : s.store.Agrees names words) :
    m.Evaluates names words temp e.operators (e.result temp) s (e.eval words) := by
  induction e generalizing temp s with
  | number value => exact ⟨s, .refl s, rfl, agrees, rfl, fun _ _ => rfl⟩
  | name lexeme =>
    have mem : lexeme.text ∈ names := known ⟨.used, lexeme⟩ (by simp [Expr.occurrences])
    exact ⟨s, .refl s, rfl, agrees, by simp [Expr.result, Operand.resolve, agrees _ mem],
      fun _ _ => rfl⟩
  | binary op lhs rhs ihl ihr =>
    simp only [Expr.segment, Code.hasAt_append, Code.hasAt_cons, Expr.length_segment,
      List.length_append] at placed
    obtain ⟨⟨placedl, placedr⟩, fetch, -⟩ := placed
    have knownl : ∀ o ∈ lhs.occurrences, o.text ∈ names := fun o mem =>
      known o (List.mem_append_left _ mem)
    have knownr : ∀ o ∈ rhs.occurrences, o.text ∈ names := fun o mem =>
      known o (List.mem_append_right _ mem)
    have left := ihl knownl placedl agrees
    rw [Expr.eval]
    cases hl : lhs.eval words with
    | none => rw [hl] at left; exact left
    | some a =>
      rw [hl] at left
      obtain ⟨s₁, evalL⟩ := left
      rw [← evalL.pc_eq] at placedr
      have right := ihr knownr placedr evalL.agrees
      cases hr : rhs.eval words with
      | none => rw [hr] at right; exact right.prepend evalL.reaches
      | some b =>
        rw [hr] at right
        obtain ⟨s₂, evalR⟩ := right
        have reached := evalL.reaches.trans evalR.reaches
        -- The instructions of the right operand leave the value of the left one alone.
        have valueL : (lhs.result temp).resolve s₂.store = .ok a := by
          rw [lhs.resolve_result knownl evalL.agrees evalR.agrees evalR.earlier]
          exact evalL.value
        rw [← Nat.add_assoc, ← evalL.pc_eq, ← evalR.pc_eq] at fetch
        simp only [Option.bind_eq_bind, Option.bind_some]
        cases hv : op.meaning? a b with
        | none => exact (Machine.divides_binary fetch valueL evalR.value hv).prepend reached
        | some word =>
          refine ⟨_, reached.trans (Machine.reaches_binary fetch valueL evalR.value hv), ?_, ?_, ?_, ?_⟩
          · simp [State.storing, Expr.operators, evalR.pc_eq, evalL.pc_eq, Nat.add_assoc]
          · exact evalR.agrees.insert_of_notMem (free _) word
          · simp [Expr.result, Operand.resolve, State.storing]
          · intro n lt
            have ne : temporaryName (temp + lhs.operators + rhs.operators) ≠ temporaryName n := by
              intro eq
              have := SymbolTable.temporaryName_injective eq
              omega
            simp [State.storing, ne, evalR.earlier n (by omega), evalL.earlier n lt]

/-- What comes after an expression may count on its value. -/
theorem Machine.Evaluates.follows {cost fuel pc : Nat} {operand : Operand} {value : Option Int64}
    {next : Int64 → Outcome} (h : m.Evaluates names words temp cost operand s value)
    (goOn : ∀ word s', m.Evaluated names words temp cost operand word s s' →
      m.Follows names fuel s pc (next word)) :
    m.Follows names fuel s pc (.withValue value next) := by
  cases value with
  | none => exact h
  | some word =>
    obtain ⟨s', evaluated⟩ := h
    exact goOn word s' evaluated

end

/-! ## Statements -/

namespace Machine.Follows

variable {m : Machine} {names : List String} {fuel pc place : Nat} {s : State} {o : Outcome} {l : Label}

theorem append_label (h : m.Follows names fuel s pc o) (mark : m.code[pc]? = some (.label l)) :
    m.Follows names fuel s (pc + 1) (o.charge 1) := by
  apply h.append
  rintro s' rfl
  exact ⟨_, reaches_label mark, rfl, rfl⟩

theorem append_goto (h : m.Follows names fuel s pc o) (linked : m.Linked)
    (fetch : m.code[pc]? = some (.goto l)) (mark : m.code[place]? = some (.label l)) :
    m.Follows names fuel s place (o.charge 1) := by
  apply h.append
  rintro s' rfl
  exact ⟨_, reaches_goto linked mark fetch, rfl, rfl⟩

end Machine.Follows

section

variable {m : Machine} {names : List String} {temp fuel : Nat}

/-- The machine repeats a loop as it is meant, if it does its body as that is meant. Each round
takes a step at least, so a loop of many rounds is a run of many steps. -/
theorem Machine.follows_loop (linked : m.Linked) (free : ∀ n, temporaryName n ∉ names)
    {condition : Expr} {body : Words → Outcome} {again done : Label} {top bottom : Nat}
    (known : ∀ o ∈ condition.occurrences, o.text ∈ names)
    (entry : m.code[top]? = some (.label again))
    (placed : m.code.HasAt (top + 1) (condition.segment temp))
    (test : m.code[top + 1 + condition.operators]? = some (.ifFalse (condition.result temp) done))
    (back : m.code[bottom]? = some (.goto again)) (exit : m.code[bottom + 1]? = some (.label done))
    (inside : ∀ s words, s.pc = top + 1 + condition.operators + 1 → s.store.Agrees names words →
      m.Follows names fuel s bottom (body words))
    (rounds : Nat) (enough : rounds ≤ fuel) (s : State) (words : Words) (here : s.pc = top)
    (agrees : s.store.Agrees names words) :
    m.Follows names rounds s (bottom + 2) (.loop condition body rounds words) := by
  induction rounds generalizing s words with
  | zero => exact ⟨0, s, Nat.le_refl 0, .refl s⟩
  | succ rounds ih =>
    subst here
    have enter := Machine.reaches_label entry
    have evaluates := condition.evaluates (s := s.goingTo (s.pc + 1)) free known placed agrees
    rw [Outcome.loop]
    cases value : condition.eval words with
    | none => rw [value] at evaluates; exact evaluates.prepend enter
    | some word =>
      rw [value] at evaluates
      obtain ⟨s₁, evaluated⟩ := evaluates
      have pc_eq : s₁.pc = s.pc + 1 + condition.operators := evaluated.pc_eq
      rw [← pc_eq] at test
      have reached := (enter.trans evaluated.reaches).trans
        (Machine.reaches_ifFalse linked exit test evaluated.value)
      have cost : 1 + condition.operators + 1 + 1 = condition.operators + 3 := by omega
      simp only [Outcome.withValue]
      by_cases zero : word = 0
      · rw [if_pos zero] at reached ⊢
        have left := reached.trans (Machine.reaches_label exit)
        rw [cost] at left
        exact ⟨_, left, rfl, evaluated.agrees⟩
      · rw [if_neg zero] at reached ⊢
        have round := (inside (s₁.goingTo (s₁.pc + 1)) words (by simp [State.goingTo, pc_eq])
          evaluated.agrees).mono (Nat.le_of_succ_le enough)
        have others : m.Follows names rounds (s₁.goingTo (s₁.pc + 1)) (bottom + 2)
            ((body words).andThen fun w => (Outcome.loop condition body rounds w).charge 1) := by
          apply round.andThen
          rintro s' words' rfl agrees'
          have next := ih (Nat.le_of_succ_le enough) (s'.goingTo s.pc) words' rfl agrees'
          exact (next.prepend (Machine.reaches_goto linked entry back)).mono (by omega)
        rw [Outcome.andThen_charge] at others
        have all := others.prepend reached
        rw [Outcome.charge_charge, cost] at all
        exact all.mono (by omega)

mutual

/-- The machine does what a statement means. -/
theorem Stmt.follows (linked : m.Linked) (free : ∀ n, temporaryName n ∉ names) (s : Stmt)
    (known : ∀ o ∈ s.occurrences, o.text ∈ names) {label temp pc : Nat} {words : Words}
    (placed : m.code.HasAt pc (s.segment label temp)) (start : State)
    (here : start.pc = pc) (agrees : start.store.Agrees names words) :
    m.Follows names fuel start (pc + (s.segment label temp).length) (s.exec fuel words) := by
  subst here
  match s with
  | .declare name e _ | .assign name e _ =>
    simp only [Stmt.segment, Code.hasAt_append, Code.hasAt_cons, Expr.length_segment] at placed
    obtain ⟨placedE, fetch, -⟩ := placed
    have knownE : ∀ o ∈ e.occurrences, o.text ∈ names := fun o mem =>
      known o (List.mem_cons_of_mem _ mem)
    rw [Stmt.exec]
    refine (e.evaluates free knownE placedE agrees).follows fun word s₁ evaluated => ?_
    rw [← evaluated.pc_eq] at fetch
    have stored := evaluated.reaches.trans (Machine.reaches_assign fetch evaluated.value)
    refine ⟨_, stored, ?_, evaluated.agrees.insert _ _⟩
    simp [State.storing, Stmt.segment, evaluated.pc_eq, Nat.add_assoc]
  | .ifThen condition body _ =>
    simp only [Stmt.segment, Code.hasAt_append, Code.hasAt_cons, Expr.length_segment,
      List.length_append, List.length_cons, List.length_nil, ← Nat.add_assoc] at placed ⊢
    obtain ⟨⟨⟨placedC, test, -⟩, placedB⟩, done, -⟩ := placed
    have knownC : ∀ o ∈ condition.occurrences, o.text ∈ names := fun o mem =>
      known o (List.mem_append_left _ mem)
    have knownB : ∀ o ∈ body.occurrences, o.text ∈ names := fun o mem =>
      known o (List.mem_append_right _ mem)
    rw [Stmt.exec]
    refine (condition.evaluates free knownC placedC agrees).follows fun word s₁ evaluated => ?_
    rw [← evaluated.pc_eq] at test placedB done ⊢
    have reached := evaluated.reaches.trans
      (Machine.reaches_ifFalse linked done test evaluated.value)
    by_cases zero : word = 0
    · rw [if_pos zero] at reached ⊢
      exact ⟨_, reached.trans (Machine.reaches_label done), rfl, evaluated.agrees⟩
    · rw [if_neg zero] at reached ⊢
      have inside := Stmt.follows linked free body knownB placedB (s₁.goingTo (s₁.pc + 1)) rfl
        evaluated.agrees
      have all := (inside.append_label done).prepend reached
      rw [Outcome.charge_charge] at all
      exact all.mono (by omega)
  | .ifElse condition body otherwise _ =>
    simp only [Stmt.segment, Code.hasAt_append, Code.hasAt_cons, Expr.length_segment,
      List.length_append, List.length_cons, List.length_nil, ← Nat.add_assoc] at placed ⊢
    obtain ⟨⟨⟨⟨⟨placedC, test, -⟩, placedB⟩, leave, elsewhere, -⟩, placedO⟩, done, -⟩ := placed
    have knownC : ∀ o ∈ condition.occurrences, o.text ∈ names := fun o mem =>
      known o (List.mem_append_left _ (List.mem_append_left _ mem))
    have knownB : ∀ o ∈ body.occurrences, o.text ∈ names := fun o mem =>
      known o (List.mem_append_left _ (List.mem_append_right _ mem))
    have knownO : ∀ o ∈ otherwise.occurrences, o.text ∈ names := fun o mem =>
      known o (List.mem_append_right _ mem)
    rw [Stmt.exec]
    refine (condition.evaluates free knownC placedC agrees).follows fun word s₁ evaluated => ?_
    rw [← evaluated.pc_eq] at test placedB leave elsewhere placedO done ⊢
    have reached := evaluated.reaches.trans
      (Machine.reaches_ifFalse linked elsewhere test evaluated.value)
    by_cases zero : word = 0
    · rw [if_pos zero] at reached ⊢
      have entered := reached.trans (Machine.reaches_label elsewhere)
      have all := Machine.Follows.prepend entered (Machine.Follows.append_label
        (Stmt.follows linked free otherwise knownO placedO _ rfl evaluated.agrees) done)
      rw [Outcome.charge_charge] at all
      exact all.mono (by omega)
    · rw [if_neg zero] at reached ⊢
      have inside := Stmt.follows linked free body knownB placedB (s₁.goingTo (s₁.pc + 1)) rfl
        evaluated.agrees
      have all := ((inside.append_goto linked leave done).append_label done).prepend reached
      rw [Outcome.charge_charge, Outcome.charge_charge] at all
      exact all.mono (by omega)
  | .loop condition body _ =>
    simp only [Stmt.segment, Code.hasAt_append, Code.hasAt_cons, Expr.length_segment,
      List.length_append, List.length_cons, List.length_nil, ← Nat.add_assoc] at placed ⊢
    obtain ⟨⟨⟨⟨⟨entry, -⟩, placedC⟩, test, -⟩, placedB⟩, back, exit, -⟩ := placed
    have knownC : ∀ o ∈ condition.occurrences, o.text ∈ names := fun o mem =>
      known o (List.mem_append_left _ mem)
    have knownB : ∀ o ∈ body.occurrences, o.text ∈ names := fun o mem =>
      known o (List.mem_append_right _ mem)
    exact Machine.follows_loop linked free knownC entry placedC test back exit
      (fun s words here agrees => Stmt.follows linked free body knownB placedB s here agrees)
      fuel (Nat.le_refl fuel) start words rfl agrees
  | .block body => exact Stmt.followsAll linked free body known placed start rfl agrees

/-- The machine does what statements mean one after another. -/
theorem Stmt.followsAll (linked : m.Linked) (free : ∀ n, temporaryName n ∉ names) (body : List Stmt)
    (known : ∀ o ∈ Stmt.occurrencesAll body, o.text ∈ names)
    {label temp pc : Nat} {words : Words}
    (placed : m.code.HasAt pc (Stmt.segmentAll label temp body)) (start : State)
    (here : start.pc = pc) (agrees : start.store.Agrees names words) :
    m.Follows names fuel start (pc + (Stmt.segmentAll label temp body).length)
      (Stmt.execAll fuel body words) := by
  match body with
  | [] => exact ⟨start, .refl start, here, agrees⟩
  | s :: rest =>
    rw [Stmt.segmentAll, Code.hasAt_append] at placed
    rw [Stmt.execAll, Stmt.segmentAll, List.length_append, ← Nat.add_assoc]
    have knownS : ∀ o ∈ s.occurrences, o.text ∈ names := fun o mem =>
      known o (List.mem_append_left _ mem)
    have knownR : ∀ o ∈ Stmt.occurrencesAll rest, o.text ∈ names := fun o mem =>
      known o (List.mem_append_right _ mem)
    have first := Stmt.follows linked free s knownS placed.1 start here agrees
    exact first.andThen fun s₁ words₁ there agrees₁ =>
      Stmt.followsAll linked free rest knownR placed.2 s₁ there agrees₁

end

end

end ThreeAddress
