import ThreeAddress.Proofs.Program.Meaning

/-!
# What a run of a program costs

The runs of a program that come to an end, each with its cost, told of the tree and without fuel. A
loop is told with its number of tests and its number of rounds, so its cost can be read off: every
test costs the operators of the condition and two more, every round a jump back, and the way out one
more.

## Main definitions

* `Stmt.Runs`, `Stmt.RunsAll` and `Stmt.Repeats` are the runs of a statement, of statements one after
  another, and of a loop; `Program.Runs` are those of a program.
* `Stmt.Repeats.tests_eq`: a loop tests its condition once more than it runs its body.
* `Program.runs_iff`: the runs are those of the meaning, with the same cost.
-/

namespace ThreeAddress

/-! ## Runs -/

mutual

/-- The statement takes the words to other words, at a cost. -/
inductive Stmt.Runs : Stmt → Words → Words → Nat → Prop where
  | declare {name : Lexeme} {e : Expr} {line : Nat} {words : Words} {word : Int64}
      (value : e.eval words = some word) :
      Stmt.Runs (.declare name e line) words (Function.update words name.text word) (e.operators + 1)
  | assign {name : Lexeme} {e : Expr} {line : Nat} {words : Words} {word : Int64}
      (value : e.eval words = some word) :
      Stmt.Runs (.assign name e line) words (Function.update words name.text word) (e.operators + 1)
  | ifThen {condition : Expr} {body : Stmt} {line cost : Nat} {words words' : Words} {word : Int64}
      (value : condition.eval words = some word) (holds : word ≠ 0)
      (inside : Stmt.Runs body words words' cost) :
      Stmt.Runs (.ifThen condition body line) words words' (condition.operators + 2 + cost)
  | skip {condition : Expr} {body : Stmt} {line : Nat} {words : Words}
      (value : condition.eval words = some 0) :
      Stmt.Runs (.ifThen condition body line) words words (condition.operators + 2)
  | ifElse {condition : Expr} {body otherwise : Stmt} {line cost : Nat} {words words' : Words}
      {word : Int64} (value : condition.eval words = some word) (holds : word ≠ 0)
      (inside : Stmt.Runs body words words' cost) :
      Stmt.Runs (.ifElse condition body otherwise line) words words' (condition.operators + 3 + cost)
  | otherwise {condition : Expr} {body otherwise : Stmt} {line cost : Nat} {words words' : Words}
      (value : condition.eval words = some 0) (inside : Stmt.Runs otherwise words words' cost) :
      Stmt.Runs (.ifElse condition body otherwise line) words words' (condition.operators + 3 + cost)
  | loop {condition : Expr} {body : Stmt} {line tests rounds cost : Nat} {words words' : Words}
      (repeats : Stmt.Repeats condition body tests rounds words words' cost) :
      Stmt.Runs (.loop condition body line) words words'
        (tests * (condition.operators + 2) + rounds + cost + 1)
  | block {body : List Stmt} {cost : Nat} {words words' : Words}
      (inside : Stmt.RunsAll body words words' cost) : Stmt.Runs (.block body) words words' cost

/-- The statements take the words to other words, one after another, at a cost. -/
inductive Stmt.RunsAll : List Stmt → Words → Words → Nat → Prop where
  | nil {words : Words} : Stmt.RunsAll [] words words 0
  | cons {s : Stmt} {rest : List Stmt} {words middle words' : Words} {cost costs : Nat}
      (first : Stmt.Runs s words middle cost) (others : Stmt.RunsAll rest middle words' costs) :
      Stmt.RunsAll (s :: rest) words words' (cost + costs)

/-- The loop tests its condition `tests` times and runs its body `rounds` times; the cost is that of
the bodies alone. -/
inductive Stmt.Repeats : Expr → Stmt → Nat → Nat → Words → Words → Nat → Prop where
  | leave {condition : Expr} {body : Stmt} {words : Words} (value : condition.eval words = some 0) :
      Stmt.Repeats condition body 1 0 words words 0
  | round {condition : Expr} {body : Stmt} {tests rounds cost costs : Nat}
      {words middle words' : Words} {word : Int64} (value : condition.eval words = some word)
      (holds : word ≠ 0) (inside : Stmt.Runs body words middle cost)
      (others : Stmt.Repeats condition body tests rounds middle words' costs) :
      Stmt.Repeats condition body (tests + 1) (rounds + 1) words words' (cost + costs)

end

/-- The program takes the words that are all zero to other words, at a cost. -/
def Program.Runs (program : Program) (words : Words) (cost : Nat) : Prop :=
  Stmt.RunsAll program (fun _ => 0) words cost

/-- A loop tests its condition once more than it runs its body. -/
theorem Stmt.Repeats.tests_eq {condition : Expr} {body : Stmt} {tests rounds cost : Nat}
    {words words' : Words} (h : Stmt.Repeats condition body tests rounds words words' cost) :
    tests = rounds + 1 := by
  match h with
  | .leave _ => rfl
  | .round _ _ _ others => rw [others.tests_eq]

/-! ## Outcomes that are done -/

namespace Outcome

variable {o : Outcome} {words : Words} {cost k : Nat}

theorem charge_eq_done :
    o.charge k = .done words cost ↔ ∃ spent, o = .done words spent ∧ cost = k + spent := by
  cases o with
  | done words' spent =>
    simp only [charge, done.injEq]
    constructor
    · rintro ⟨rfl, rfl⟩
      exact ⟨spent, ⟨rfl, rfl⟩, rfl⟩
    · rintro ⟨_, ⟨rfl, rfl⟩, rfl⟩
      exact ⟨rfl, rfl⟩
  | divisionByZero | outOfFuel => simp [charge]

theorem andThen_eq_done {next : Words → Outcome} :
    o.andThen next = .done words cost ↔
      ∃ middle first later, o = .done middle first ∧ next middle = .done words later ∧
        cost = first + later := by
  cases o with
  | done middle first =>
    simp only [andThen, charge_eq_done, done.injEq]
    constructor
    · rintro ⟨later, goesOn, rfl⟩
      exact ⟨middle, first, later, ⟨rfl, rfl⟩, goesOn, rfl⟩
    · rintro ⟨_, _, later, ⟨rfl, rfl⟩, goesOn, rfl⟩
      exact ⟨later, goesOn, rfl⟩
  | divisionByZero | outOfFuel => simp [andThen]

theorem withValue_eq_done {value : Option Int64} {next : Int64 → Outcome} :
    withValue value next = .done words cost ↔
      ∃ word, value = some word ∧ next word = .done words cost := by
  cases value <;> simp [withValue]

/-- A loop that is done has a run, if its body has one wherever it is done. -/
theorem repeats_of_loop {condition : Expr} {s : Stmt} {body : Words → Outcome}
    (inside : ∀ words words' cost, body words = .done words' cost → s.Runs words words' cost)
    {fuel : Nat} {words words' : Words} {cost : Nat}
    (h : loop condition body fuel words = .done words' cost) :
    ∃ tests rounds spent, Stmt.Repeats condition s tests rounds words words' spent ∧
      cost = tests * (condition.operators + 2) + rounds + spent + 1 := by
  induction fuel generalizing words cost with
  | zero => cases h
  | succ fuel ih =>
    obtain ⟨word, value, goesOn⟩ := withValue_eq_done.mp h
    by_cases zero : word = 0
    · rw [if_pos zero] at goesOn
      cases goesOn
      exact ⟨1, 0, 0, .leave (zero ▸ value), by omega⟩
    · rw [if_neg zero] at goesOn
      obtain ⟨_, rest, rfl⟩ := charge_eq_done.mp goesOn
      obtain ⟨middle, first, later, done, others, rfl⟩ := andThen_eq_done.mp rest
      obtain ⟨tests, rounds, spent, repeats, rfl⟩ := ih others
      refine ⟨tests + 1, rounds + 1, first + spent, .round value zero (inside _ _ _ done) repeats, ?_⟩
      rw [Nat.add_mul]
      omega

end Outcome

/-! ## Runs and meanings -/

mutual

/-- A statement that is done with some fuel has a run. -/
theorem Stmt.runs_of_exec (s : Stmt) {fuel cost : Nat} {words words' : Words}
    (h : s.exec fuel words = .done words' cost) : s.Runs words words' cost := by
  match s with
  | .declare name e line =>
    obtain ⟨word, value, done⟩ := Outcome.withValue_eq_done.mp h
    cases done
    exact .declare value
  | .assign name e line =>
    obtain ⟨word, value, done⟩ := Outcome.withValue_eq_done.mp h
    cases done
    exact .assign value
  | .ifThen condition body line =>
    obtain ⟨word, value, goesOn⟩ := Outcome.withValue_eq_done.mp h
    obtain ⟨spent, done, rfl⟩ := Outcome.charge_eq_done.mp goesOn
    by_cases zero : word = 0
    · rw [if_pos zero] at done
      cases done
      exact .skip (zero ▸ value)
    · rw [if_neg zero] at done
      exact .ifThen value zero (Stmt.runs_of_exec body done)
  | .ifElse condition body otherwise line =>
    obtain ⟨word, value, goesOn⟩ := Outcome.withValue_eq_done.mp h
    obtain ⟨spent, done, rfl⟩ := Outcome.charge_eq_done.mp goesOn
    by_cases zero : word = 0
    · rw [if_pos zero] at done
      exact .otherwise (zero ▸ value) (Stmt.runs_of_exec otherwise done)
    · rw [if_neg zero] at done
      exact .ifElse value zero (Stmt.runs_of_exec body done)
  | .loop condition body line =>
    obtain ⟨tests, rounds, spent, repeats, rfl⟩ :=
      Outcome.repeats_of_loop (fun _ _ _ done => Stmt.runs_of_exec body done) h
    exact .loop repeats
  | .block body => exact .block (Stmt.runsAll_of_execAll body h)

theorem Stmt.runsAll_of_execAll (body : List Stmt) {fuel cost : Nat} {words words' : Words}
    (h : Stmt.execAll fuel body words = .done words' cost) : Stmt.RunsAll body words words' cost := by
  match body with
  | [] =>
    cases h
    exact .nil
  | s :: rest =>
    obtain ⟨middle, first, later, done, others, rfl⟩ := Outcome.andThen_eq_done.mp h
    exact .cons (Stmt.runs_of_exec s done) (Stmt.runsAll_of_execAll rest others)

end

mutual

/-- A run of a statement is what it comes to with enough fuel. -/
theorem Stmt.Runs.exec {s : Stmt} {cost : Nat} {words words' : Words} (h : s.Runs words words' cost) :
    ∃ fuel, ∀ more ≥ fuel, s.exec more words = .done words' cost := by
  match h with
  | .declare value | .assign value => exact ⟨0, fun more _ => by rw [Stmt.exec, value]; rfl⟩
  | .skip value => exact ⟨0, fun more _ => by rw [Stmt.exec, value]; rfl⟩
  | .ifThen value holds inside | .ifElse value holds inside =>
    obtain ⟨fuel, enough⟩ := inside.exec
    refine ⟨fuel, fun more le => ?_⟩
    simp only [Stmt.exec, value, Outcome.withValue, if_neg holds, enough more le, Outcome.charge]
  | .otherwise value inside =>
    obtain ⟨fuel, enough⟩ := inside.exec
    refine ⟨fuel, fun more le => ?_⟩
    simp only [Stmt.exec, value, Outcome.withValue, if_pos, enough more le, Outcome.charge]
  | .loop repeats =>
    obtain ⟨fuel, enough⟩ := repeats.exec
    exact ⟨fuel, fun more le => enough more le more le⟩
  | .block inside => exact inside.exec

theorem Stmt.RunsAll.exec {body : List Stmt} {cost : Nat} {words words' : Words}
    (h : Stmt.RunsAll body words words' cost) :
    ∃ fuel, ∀ more ≥ fuel, Stmt.execAll more body words = .done words' cost := by
  match h with
  | .nil => exact ⟨0, fun _ _ => rfl⟩
  | .cons first others =>
    obtain ⟨fuel, enough⟩ := first.exec
    obtain ⟨fuel', enough'⟩ := others.exec
    refine ⟨max fuel fuel', fun more le => ?_⟩
    rw [Stmt.execAll, enough more (by omega), Outcome.andThen, enough' more (by omega), Outcome.charge]

/-- A run of a loop is what it comes to with enough fuel for its rounds and for its body. -/
theorem Stmt.Repeats.exec {condition : Expr} {body : Stmt} {tests rounds cost : Nat}
    {words words' : Words} (h : Stmt.Repeats condition body tests rounds words words' cost) :
    ∃ fuel, ∀ more ≥ fuel, ∀ most ≥ fuel, Outcome.loop condition (body.exec more) most words =
      .done words' (tests * (condition.operators + 2) + rounds + cost + 1) := by
  match h with
  | .leave value =>
    refine ⟨1, fun more _ most le => ?_⟩
    obtain ⟨most, rfl⟩ := Nat.exists_eq_add_of_le' le
    simp only [Outcome.loop, value, Outcome.withValue, if_pos]
    congr 1
    omega
  | .round value holds inside others =>
    obtain ⟨fuel, enough⟩ := inside.exec
    obtain ⟨fuel', enough'⟩ := others.exec
    refine ⟨max fuel fuel' + 1, fun more le most le' => ?_⟩
    obtain ⟨most, rfl⟩ := Nat.exists_eq_add_of_le' (Nat.le_of_add_left_le le')
    simp only [Outcome.loop, value, Outcome.withValue, if_neg holds, enough more (by omega),
      Outcome.andThen, enough' more (by omega) most (by omega), Outcome.charge]
    congr 1
    rw [Nat.add_mul]
    omega

end

namespace Program

variable {program : Program} {words words' : Words} {cost cost' : Nat}

/-- The runs of a program are what it comes to with enough fuel. -/
theorem runs_iff : program.Runs words cost ↔ ∃ fuel, program.exec fuel = .done words cost := by
  constructor
  · intro runs
    obtain ⟨fuel, enough⟩ := Stmt.RunsAll.exec runs
    exact ⟨fuel, enough fuel (Nat.le_refl fuel)⟩
  · rintro ⟨fuel, done⟩
    exact Stmt.runsAll_of_execAll program done

/-- A program has one run at most. -/
theorem Runs.unique (h : program.Runs words cost) (h' : program.Runs words' cost') :
    words = words' ∧ cost = cost' := by
  obtain ⟨fuel, done⟩ := runs_iff.mp h
  obtain ⟨fuel', done'⟩ := runs_iff.mp h'
  exact Outcome.done.inj (exec_unique done done' nofun nofun)

end Program

end ThreeAddress
