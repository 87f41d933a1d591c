import ThreeAddress.Proofs.Code.Correctness
import ThreeAddress.Proofs.Machine.Effect
import ThreeAddress.Proofs.Program.Cost

/-!
# Steps and costs

The number of instructions that the machine executes until it halts is the cost of the run of the
program, which can be read off the tree: the labels that it passes and the jumps that it takes are
those that the branches and the rounds of the run account for.

## Main definitions

* `Program.runs_of_run`: a machine that halts has taken as many steps as a run of the program costs.
* `Program.steps_eq_cost` is the main result.
-/

namespace ThreeAddress.Program

variable {program : Program} {source : Source} {code : Code} {t : Lowering}

section

variable (identifiers : ∀ name ∈ program.names, isIdentifier name)
  (lowered : program.lower source .empty = (.ok code, t))

include identifiers lowered

/-- A machine that halts has taken as many steps as a run of the program costs, and has its words. -/
theorem runs_of_run {k : Nat} {e : Execution} (run : code.run k t.symbols = some (.ok e)) :
    ∃ words, program.Runs words e.steps ∧ e.store.Agrees program.names words := by
  obtain ⟨words, ends, -⟩ := ends_of_run identifiers lowered run
  obtain ⟨fuel, cost, done⟩ := ends
  have follows := follows_start identifiers lowered fuel
  rw [done] at follows
  obtain ⟨last, reaches, out, agrees⟩ := follows
  have halts : code.run cost t.symbols = some (.ok ⟨last.store, last.steps⟩) :=
    Machine.run_eq_ok_iff.mpr ⟨cost, last, Nat.le_refl cost, reaches, Nat.le_of_eq out.symm, rfl⟩
  cases Machine.run_unique run halts
  have steps : last.steps = cost := by
    rw [reaches.steps_eq, State.start, Nat.zero_add]
  exact ⟨words, runs_iff.mpr ⟨fuel, steps ▸ done⟩, agrees⟩

/-- The steps of a machine that halts are the cost of the run of its program, and the program has no
other run. In such a run every loop tests its condition once more than it runs its body. -/
theorem steps_eq_cost {k : Nat} {e : Execution} (run : code.run k t.symbols = some (.ok e)) :
    (∃ words, program.Runs words e.steps ∧
        ∀ name ∈ program.declaredNames, e.get? name = some (words name)) ∧
      (∀ words cost, program.Runs words cost → e.steps = cost) ∧
      ∀ condition body tests rounds words words' cost,
        Stmt.Repeats condition body tests rounds words words' cost → tests = rounds + 1 := by
  obtain ⟨words, runs, agrees⟩ := runs_of_run identifiers lowered run
  refine ⟨⟨words, runs, fun name declared => ?_⟩, fun words' cost runs' => ?_, ?_⟩
  · exact agrees name (declaredNames_subset program declared)
  · exact (runs.unique runs').2
  · intro condition body tests rounds words words' cost repeats
    exact repeats.tests_eq

end

/-- A program that counts down from three, with a branch in its loop. -/
def countdown : Program :=
  let c : Lexeme := ⟨"c", ⟨0, 1⟩⟩
  [.declare c (.number 3) 1,
    .loop (.name c)
      (.ifElse (.binary .gt (.name c) (.number 1)) (.assign c (.binary .sub (.name c) (.number 1)) 3)
        (.assign c (.number 0) 4) 2) 2]

/-- Four tests and three rounds: the last round takes the other branch, which has no operator. -/
theorem steps_eq_cost_countdown :
    ∃ code t k e words, countdown.lower ⟨"", none⟩ .empty = (.ok code, t) ∧
      code.run k t.symbols = some (.ok e) ∧ countdown.Runs words e.steps ∧
      e.steps = 1 + (4 * 2 + 3 + ((4 + 2) + (4 + 2) + (4 + 1)) + 1) := by
  have identifiers : ∀ name ∈ countdown.names, isIdentifier name := by decide
  obtain ⟨code, t, lowered⟩ : ∃ code t, countdown.lower ⟨"", none⟩ .empty = (.ok code, t) :=
    exists_lower_of_isOk (by decide +kernel)
  obtain ⟨k, e, run, -⟩ := run_of_ends identifiers lowered ⟨4, _, rfl⟩
  obtain ⟨⟨words, runs, -⟩, unique, -⟩ := steps_eq_cost identifiers lowered run
  exact ⟨code, t, k, e, words, lowered, run, runs, unique _ _ (runs_iff.mpr ⟨4, rfl⟩)⟩

end ThreeAddress.Program
