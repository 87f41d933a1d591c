import ThreeAddress.Proofs.Code.Simulation

/-!
# Lowering keeps the meaning

The instructions of a program, run on the table that its lowering leaves, do what the program
means: they come to an end where it does, with its words; they fail where it divides by zero, and
for no other reason; and they run forever where it does. The names of the program have to be
identifiers, as every name of a source is: a name like that of a temporary would be overwritten.

## Main definitions

* `Program.linked_load`: in the code of a program, every label is found at its place.
* `Program.follows_start`: the machine follows the program from its start.
* `Program.run_lower`: both sides come to the same.
-/

namespace ThreeAddress

open SymbolTable (temporaryName)

namespace Program

variable {program : Program} {source : Source} {code : Code} {t : Lowering}

/-- In the code of a program every label is found at its place. -/
theorem linked_load (lowered : program.lower source .empty = (.ok code, t)) (symbols : SymbolTable) :
    (Machine.load code symbols).Linked :=
  fun _ _ mark => (Code.get?_labels (nodup_marks lowered)).mpr mark

/-- The machine begins with the words that the program begins with. -/
theorem agrees_start (lowered : program.lower source .empty = (.ok code, t)) :
    (State.start t.symbols).store.Agrees program.names fun _ => 0 := by
  obtain ⟨-, entered, known⟩ := lower_eq_ok lowered
  intro name mem
  have kept : t.symbols.WellKept := entered ▸ SymbolTable.wellKept_empty.enterAll program
  have valueless : t.symbols.Valueless := entered ▸ SymbolTable.valueless_empty.enterAll program
  exact kept.get?_initialStore valueless (known name mem)

/-- From its start the machine follows the program to the end of the code. -/
theorem follows_start (identifiers : ∀ name ∈ program.names, isIdentifier name)
    (lowered : program.lower source .empty = (.ok code, t)) (fuel : Nat) :
    (Machine.load code t.symbols).Follows program.names fuel (.start t.symbols) code.size
      (program.exec fuel) := by
  obtain ⟨emitted, -, -⟩ := lower_eq_ok lowered
  have free : ∀ n, temporaryName n ∉ program.names := fun n mem =>
    SymbolTable.isIdentifier_ne_temporaryName (identifiers _ mem) n rfl
  have placed : code.HasAt 0 (Stmt.segmentAll 0 0 program) := emitted ▸ Code.hasAt_toList code
  have known : ∀ o ∈ Stmt.occurrencesAll program, o.text ∈ program.names := fun o mem =>
    List.mem_map.mpr ⟨o, mem, rfl⟩
  have finish : 0 + (Stmt.segmentAll 0 0 program).length = code.size := by
    rw [← emitted, Array.length_toList, Nat.zero_add]
  exact finish ▸ Stmt.followsAll (linked_load lowered t.symbols) free program known placed
    (.start t.symbols) rfl (agrees_start lowered)

section

variable (identifiers : ∀ name ∈ program.names, isIdentifier name)
  (lowered : program.lower source .empty = (.ok code, t))

include identifiers lowered

/-- The machine ends with the words that the program ends with. -/
theorem run_of_ends {words : Words} (ends : program.Ends words) :
    ∃ k e, code.run k t.symbols = some (.ok e) ∧ e.store.Agrees program.names words := by
  obtain ⟨fuel, cost, done⟩ := ends
  have follows := follows_start identifiers lowered fuel
  rw [done] at follows
  obtain ⟨last, reaches, out, agrees⟩ := follows
  exact ⟨cost, ⟨last.store, last.steps⟩,
    Machine.run_eq_ok_iff.mpr ⟨cost, last, Nat.le_refl cost, reaches, Nat.le_of_eq out.symm, rfl⟩,
    agrees⟩

/-- The machine fails where the program divides by zero. -/
theorem run_of_divides (divides : program.Divides) :
    ∃ k failure, code.run k t.symbols = some (.error failure) ∧ failure.fault = .divisionByZero := by
  obtain ⟨fuel, zero⟩ := divides
  have follows := follows_start identifiers lowered fuel
  rw [zero] at follows
  obtain ⟨n, last, failure, reaches, inside, fails, fault⟩ := follows
  exact ⟨n + 1, failure,
    Machine.run_eq_error_iff.mpr ⟨n, last, Nat.lt_succ_self n, reaches, inside, fails⟩, fault⟩

/-- The machine runs forever where the program never ends. -/
theorem run_of_diverges (diverges : program.Diverges) (k : Nat) : code.run k t.symbols = none := by
  have follows := follows_start identifiers lowered (k + 1)
  rw [diverges (k + 1)] at follows
  obtain ⟨n, last, many, reaches⟩ := follows
  exact Machine.run_eq_none_of_lt reaches many

/-- A machine that ends has the words that the program ends with. -/
theorem ends_of_run {k : Nat} {e : Execution} (run : code.run k t.symbols = some (.ok e)) :
    ∃ words, program.Ends words ∧ e.store.Agrees program.names words := by
  rcases ends_or_divides_or_diverges program with ⟨words, ends⟩ | divides | diverges
  · obtain ⟨k', e', run', agrees⟩ := run_of_ends identifiers lowered ends
    cases Machine.run_unique run run'
    exact ⟨words, ends, agrees⟩
  · obtain ⟨k', failure, run', -⟩ := run_of_divides identifiers lowered divides
    cases Machine.run_unique run run'
  · rw [run_of_diverges identifiers lowered diverges k] at run
    cases run

/-- A machine that fails divides by zero, and so does the program. -/
theorem divides_of_run {k : Nat} {failure : RunFailure}
    (run : code.run k t.symbols = some (.error failure)) :
    program.Divides ∧ failure.fault = .divisionByZero := by
  rcases ends_or_divides_or_diverges program with ⟨words, ends⟩ | divides | diverges
  · obtain ⟨k', e, run', -⟩ := run_of_ends identifiers lowered ends
    cases Machine.run_unique run run'
  · obtain ⟨k', failure', run', fault⟩ := run_of_divides identifiers lowered divides
    cases Machine.run_unique run run'
    exact ⟨divides, fault⟩
  · rw [run_of_diverges identifiers lowered diverges k] at run
    cases run

/-- Lowering keeps the meaning of a program. The machine comes to an end if and only if the
program does, and then every declared name has its final word; it fails if and only if the program
divides by zero, and it fails with that; so it runs forever if and only if the program does. -/
theorem run_lower :
    ((∃ k e, code.run k t.symbols = some (.ok e)) ↔ ∃ words, program.Ends words) ∧
      (∀ k e words, code.run k t.symbols = some (.ok e) → program.Ends words →
        ∀ name ∈ program.declaredNames, e.get? name = some (words name)) ∧
      ((∃ k failure, code.run k t.symbols = some (.error failure)) ↔ program.Divides) ∧
      (∀ k failure, code.run k t.symbols = some (.error failure) → failure.fault = .divisionByZero) ∧
      ((∀ k, code.run k t.symbols = none) ↔ program.Diverges) := by
  refine ⟨⟨?_, ?_⟩, ?_, ⟨?_, ?_⟩, ?_, ?_, run_of_diverges identifiers lowered⟩
  · rintro ⟨k, e, run⟩
    obtain ⟨words, ends, -⟩ := ends_of_run identifiers lowered run
    exact ⟨words, ends⟩
  · rintro ⟨words, ends⟩
    obtain ⟨k, e, run, -⟩ := run_of_ends identifiers lowered ends
    exact ⟨k, e, run⟩
  · intro k e words run ends name declared
    obtain ⟨words', ends', agrees⟩ := ends_of_run identifiers lowered run
    rw [ends.unique ends']
    exact agrees name (declaredNames_subset program declared)
  · rintro ⟨k, failure, run⟩
    exact (divides_of_run identifiers lowered run).1
  · intro divides
    obtain ⟨k, failure, run, -⟩ := run_of_divides identifiers lowered divides
    exact ⟨k, failure, run⟩
  · intro k failure run
    exact (divides_of_run identifiers lowered run).2
  · intro forever
    rcases ends_or_divides_or_diverges program with ⟨words, ends⟩ | divides | diverges
    · obtain ⟨k, e, run, -⟩ := run_of_ends identifiers lowered ends
      rw [forever k] at run
      cases run
    · obtain ⟨k, failure, run, -⟩ := run_of_divides identifiers lowered divides
      rw [forever k] at run
      cases run
    · exact diverges

end

/-- A program whose loop ends after one round. -/
def oneRound : Program :=
  let n : Lexeme := ⟨"n", ⟨0, 1⟩⟩
  [.declare n (.number 2) 1, .loop (.name n) (.assign n (.number 0) 2) 2]

/-- The machine ends with the word that the loop leaves. -/
theorem run_lower_oneRound :
    ∃ code t, oneRound.lower ⟨"", none⟩ .empty = (.ok code, t) ∧
      ∃ k e, code.run k t.symbols = some (.ok e) ∧ e.get? "n" = some 0 := by
  have identifiers : ∀ name ∈ oneRound.names, isIdentifier name := by decide
  have ends : ∃ words, oneRound.Ends words ∧ words "n" = 0 := ⟨_, ⟨2, _, rfl⟩, rfl⟩
  obtain ⟨words, ends, zero⟩ := ends
  have lowered : oneRound.lower ⟨"", none⟩ .empty = (.ok _, _) := rfl
  refine ⟨_, _, lowered, ?_⟩
  obtain ⟨halts, agrees, -⟩ := run_lower identifiers lowered
  obtain ⟨k, e, run⟩ := halts.mpr ⟨words, ends⟩
  exact ⟨k, e, run, (agrees k e words run ends "n" (by decide)).trans (congrArg some zero)⟩

end Program

end ThreeAddress
