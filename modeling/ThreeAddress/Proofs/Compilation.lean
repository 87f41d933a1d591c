import ThreeAddress.Proofs.Code.Labels

/-!
# Compilations that come to code

Once a source has been lowered, only one thing can go wrong: the run may divide by zero. No jump
misses its label, no name is without a word, and the final words find their symbols in the table.

## Main definitions

* `SymbolTable.updateAll_eq_ok`: names of the table can be given values.
* `Source.compile_of_lower`: what is left of a compilation when the source has been lowered.
* `Source.CompilesTo` tells the ways in which a compilation ends.
* `Source.compile_safe`: no machine of a source gets stuck.
-/

namespace ThreeAddress

/-! ## The final words -/

namespace SymbolTable

variable {t : SymbolTable} {words : List (String × Int64)}

/-- Known names can be given values, one after another. -/
theorem updateAll_eq_ok (known : ∀ entry ∈ words, t.contains entry.1) :
    ∃ t', t.updateAll words = (.ok (), t') := by
  induction words generalizing t with
  | nil => exact ⟨t, rfl⟩
  | cons entry rest ih =>
    obtain ⟨next, updated⟩ :=
      exists_update_of_contains (known entry (List.mem_cons_self ..)) entry.2
    obtain ⟨last, done⟩ := ih (t := next) fun other mem => by
      rw [contains_eq_true_iff, keys_update updated, ← contains_eq_true_iff]
      exact known other (List.mem_cons_of_mem _ mem)
    exact ⟨last, by simp only [updateAll, updated, done]⟩

end SymbolTable

/-- The names of the final words are names of the table. -/
theorem Execution.contains_of_mem_bindings {e : Execution} {t : SymbolTable} (kept : t.WellKept)
    {entry : String × Int64} (mem : entry ∈ e.bindings t) : t.contains entry.1 := by
  simp only [bindings, List.mem_filterMap, Option.map_eq_some_iff] at mem
  obtain ⟨s, listed, word, -, rfl⟩ := mem
  rw [SymbolTable.contains_eq_true_iff, ← kept.map_name_toList]
  exact List.mem_map.mpr ⟨s, (List.mem_filter.mp listed).1, rfl⟩

/-! ## Compilations -/

/-- The final words of a source that has been lowered can be given to its table. -/
theorem SymbolTable.exists_updateAll_of_lower {program : Program} {source : Source} {code : Code}
    {t : Lowering} (lowered : program.lower source .empty = (.ok code, t)) (e : Execution) :
    ∃ updated, t.symbols.updateAll (e.bindings t.symbols) = (.ok (), updated) := by
  obtain ⟨-, entered, -⟩ := Program.lower_eq_ok lowered
  have kept : t.symbols.WellKept := entered ▸ SymbolTable.wellKept_empty.enterAll program
  exact updateAll_eq_ok fun _ mem => e.contains_of_mem_bindings kept mem

section

variable {source : Source} {tokens : List Token} {program : Program} {code : Code} {t : Lowering}
  (lexed : source.tokenize = .ok tokens) (parsed : Program.ofTokens source tokens = .ok program)
  (lowered : program.lower source .empty = (.ok code, t))

include lexed parsed lowered

/-- A source that has been lowered is run. -/
theorem Source.compile_of_lower (fuel : Nat) (options : Options) :
    source.compile fuel options =
      (code.run fuel t.symbols).map
        (Compilation.finish ⟨some tokens, some program, some code, some t.symbols, none, none⟩
          t.symbols) := by
  have checked : options.checkLabels code = .ok () := by
    rw [Options.checkLabels]
    split
    · exact Code.checkLabels_eq_ok_iff.mpr (Program.targets_subset_marks lowered)
    · rfl
  simp only [compile, lexed, parsed, lowered, checked]
  rfl

end

/-- How a compilation ends, by the phase that it came to, with all that was made up to there. -/
inductive Source.CompilesTo (source : Source) (fuel : Nat) : Compilation → Prop where
  | lex {error : Diagnostic LexFault} (lexed : source.tokenize = .error error) :
      CompilesTo source fuel ⟨none, none, none, none, none, some (.lex error)⟩
  | parse {tokens : List Token} {error : Diagnostic ParseFault}
      (lexed : source.tokenize = .ok tokens) (parsed : Program.ofTokens source tokens = .error error) :
      CompilesTo source fuel ⟨some tokens, none, none, none, none, some (.parse error)⟩
  | symbol {tokens : List Token} {program : Program} {t : Lowering} {error : Diagnostic NameFault}
      (lexed : source.tokenize = .ok tokens) (parsed : Program.ofTokens source tokens = .ok program)
      (lowered : program.lower source .empty = (.error error, t)) :
      CompilesTo source fuel
        ⟨some tokens, some program, none, some t.symbols, none, some (.symbol error)⟩
  | run {tokens : List Token} {program : Program} {t : Lowering} {code : Code} {failure : RunFailure}
      (lexed : source.tokenize = .ok tokens) (parsed : Program.ofTokens source tokens = .ok program)
      (lowered : program.lower source .empty = (.ok code, t))
      (failed : code.run fuel t.symbols = some (.error failure)) :
      CompilesTo source fuel
        ⟨some tokens, some program, some code, some t.symbols, none, some (.run failure)⟩
  | success {tokens : List Token} {program : Program} {t : Lowering} {code : Code}
      {execution : Execution} {updated : SymbolTable}
      (lexed : source.tokenize = .ok tokens) (parsed : Program.ofTokens source tokens = .ok program)
      (lowered : program.lower source .empty = (.ok code, t))
      (executed : code.run fuel t.symbols = some (.ok execution))
      (settled : t.symbols.updateAll (execution.bindings t.symbols) = (.ok (), updated)) :
      CompilesTo source fuel
        ⟨some tokens, some program, some code, some updated, some execution, none⟩

/-- A compilation ends in one of five ways; no label is missing, and no final word is without its
symbol. -/
theorem Source.compilesTo_of_compile {source : Source} {fuel : Nat} {options : Options}
    {c : Compilation} (compiled : source.compile fuel options = some c) : source.CompilesTo fuel c := by
  cases lexed : source.tokenize with
  | error error =>
    simp only [compile, lexed] at compiled
    cases compiled
    exact .lex lexed
  | ok tokens =>
    cases parsed : Program.ofTokens source tokens with
    | error error =>
      simp only [compile, lexed, parsed] at compiled
      cases compiled
      exact .parse lexed parsed
    | ok program =>
      rcases lowered : program.lower source .empty with ⟨error | code, t⟩
      · simp only [compile, lexed, parsed, lowered] at compiled
        cases compiled
        exact .symbol lexed parsed lowered
      · rw [compile_of_lower lexed parsed lowered, Option.map_eq_some_iff] at compiled
        obtain ⟨failure | execution, ran, rfl⟩ := compiled
        · exact .run lexed parsed lowered ran
        · obtain ⟨updated, settled⟩ := SymbolTable.exists_updateAll_of_lower lowered execution
          simp only [Compilation.finish, settled]
          exact .success lexed parsed lowered ran settled

/-- A compilation that has come to code has lowered a program that it read. -/
theorem Source.exists_lower_of_code {source : Source} {fuel : Nat} {options : Options}
    {c : Compilation} {code : Code} (compiled : source.compile fuel options = some c)
    (coded : c.code = some code) :
    ∃ tokens program t, source.tokenize = .ok tokens ∧ Program.ofTokens source tokens = .ok program ∧
      program.lower source .empty = (.ok code, t) := by
  cases compilesTo_of_compile compiled with
  | lex | parse | symbol => cases coded
  | run lexed parsed lowered | success lexed parsed lowered =>
    cases coded
    exact ⟨_, _, _, lexed, parsed, lowered⟩

section

variable {source : Source} {tokens : List Token} {program : Program} {code : Code} {t : Lowering}
  (lexed : source.tokenize = .ok tokens) (parsed : Program.ofTokens source tokens = .ok program)
  (lowered : program.lower source .empty = (.ok code, t))

include lexed parsed lowered

/-- No machine of a source gets stuck. In every state that it reaches, its store has the names of
the table, it is in its code or just behind it, and its next step succeeds, or divides by zero. So
a compilation that has come to code fails with a division by zero only. -/
theorem Source.compile_safe :
    (∀ n s, (Machine.load code t.symbols).Reaches (.start t.symbols) n s →
      s.store.keys = t.symbols.toList.map Symbol.name ∧ s.pc ≤ code.size ∧
        ((∃ s', (Machine.load code t.symbols).step s = .ok s') ∨
          ∃ lhs rhs result, (Machine.load code t.symbols).DividesNext s lhs rhs result)) ∧
      ∀ fuel options c failure, source.compile fuel options = some c → c.failure = some failure →
        ∃ f, failure = .run f ∧ f.fault = .divisionByZero := by
  have closed := Program.closed_load lowered
  have start := Program.safe_start lowered
  constructor
  · intro n s run
    have safe := closed.reaches start run
    refine ⟨safe.keys_eq, safe.pc_le, ?_⟩
    exact (closed.step safe).imp_left fun ⟨s', ok, _⟩ => ⟨s', ok⟩
  · intro fuel options c failure compiled failed
    rw [Source.compile_of_lower lexed parsed lowered, Option.map_eq_some_iff] at compiled
    obtain ⟨result, run, rfl⟩ := compiled
    cases result with
    | error f =>
      refine ⟨f, ?_, closed.fault_of_run start run⟩
      simpa [Compilation.finish, Compilation.stop, eq_comm] using failed
    | ok e =>
      obtain ⟨updated, settled⟩ := SymbolTable.exists_updateAll_of_lower lowered e
      simp [Compilation.finish, settled] at failed

end

/-- A source that divides by zero, and does nothing worse. -/
theorem Source.compile_safe_division :
    ∃ c f, Source.compile 5 ⟨true⟩ ⟨"var a = 1; a = a / (a - 1);", none⟩ = some c ∧
      c.failure = some (.run f) ∧ f.fault = .divisionByZero := by
  have lowered : ((Source.compile 5 ⟨true⟩ ⟨"var a = 1; a = a / (a - 1);", none⟩).bind
      Compilation.code).isSome := by
    decide +kernel
  have fails : ((Source.compile 5 ⟨true⟩ ⟨"var a = 1; a = a / (a - 1);", none⟩).bind
      Compilation.failure).isSome := by
    decide +kernel
  obtain ⟨code, coded⟩ := Option.isSome_iff_exists.mp lowered
  obtain ⟨failure, failed⟩ := Option.isSome_iff_exists.mp fails
  obtain ⟨c, compiled, failed⟩ := Option.bind_eq_some_iff.mp failed
  rw [compiled] at coded
  obtain ⟨tokens, program, t, lexed, parsed, lowered⟩ := Source.exists_lower_of_code compiled coded
  obtain ⟨f, rfl, fault⟩ :=
    (Source.compile_safe lexed parsed lowered).2 5 ⟨true⟩ c failure compiled failed
  exact ⟨c, f, compiled, failed, fault⟩

end ThreeAddress
