import ThreeAddress.Compilation.Log
import ThreeAddress.Proofs.Code.Names
import ThreeAddress.Proofs.Code.SingleUse
import ThreeAddress.Proofs.Compilation.Stages
import ThreeAddress.Proofs.Machine.Log
import Mathlib.Data.List.Forall2

/-!
# The log misses no change

The instructions of a source assign to its variables only, and its operators store under temporaries. So
the log of a compilation tells the words of all variables behind each assignment that is executed, and the
words do not change until they are told again.

## Main definitions

* `Store.Lists` says that words are those of some names in a store, in their order.
* `Program.separated_load`: the machine of a program keeps variables and temporaries apart.
* `Compilation.filter_log`: the words of the variables are told by the run and by no other phase.
* `Source.words_told` is the main result.
-/

namespace ThreeAddress

/-- The words are those of the names in the store, one for each name and in the order of the names. -/
structure Store.Lists (store : Store) (names : List String) (words : List (String × Int64)) : Prop where
  names : words.map Prod.fst = names
  words : ∀ entry ∈ words, store.get? entry.1 = some entry.2

namespace Program

variable {program : Program} {source : Source} {code : Code} {t : Lowering}

/-- In the machine of a program, assignments go to variables and operators do not. -/
theorem separated_load (identifiers : ∀ name ∈ program.names, isIdentifier name)
    (lowered : program.lower source .empty = (.ok code, t)) :
    (Machine.load code t.symbols).Separated := by
  obtain ⟨listed, -, -⟩ := lower_eq_ok lowered
  have variables' : (Machine.load code t.symbols).userVariables = program.declaredNames :=
    (names_of_lower lowered).1
  have known : ∀ o ∈ Stmt.occurrencesAll program, o.text ∈ program.declaredNames := fun o mem => by
    rw [← (names_of_lower lowered).1]
    exact names_subset_of_lower identifiers lowered _ (List.mem_map_of_mem mem)
  have emitted : Emitted program.declaredNames 0 (Stmt.operatorsAll program) code.toList :=
    listed ▸ Stmt.emitted_segmentAll program known 0 0
  have here (pc : Nat) (i : Instruction) (fetch : code[pc]? = some i) : i ∈ code.toList :=
    Array.mem_toList_iff.mpr (Array.mem_of_getElem? fetch)
  constructor
  · intro pc result value fetch
    rw [variables']
    exact emitted.mem_of_result? _ (here pc _ fetch) rfl result rfl
  · intro pc i fetch other name declared writes
    rw [variables'] at declared
    cases binary : i.isBinary with
    | false => cases i with
      | binary => cases binary
      | assign => cases other
      | _ => cases writes
    | true =>
      obtain ⟨n, result⟩ := emitted.exists_temporaryName i (here pc i fetch) binary
      rw [result] at writes
      cases writes
      exact SymbolTable.isIdentifier_ne_temporaryName
        (identifiers _ (declaredNames_subset program declared)) n rfl

/-- Wherever the machine of a program comes to, each of the variables has a word. -/
theorem lists_of_reaches (lowered : program.lower source .empty = (.ok code, t)) {n : Nat} {s : State}
    (run : (Machine.load code t.symbols).Reaches (.start t.symbols) n s) :
    s.store.Lists program.declaredNames ((Machine.load code t.symbols).variableWords s.store) := by
  have safe := (closed_load lowered).reaches (safe_start lowered) run
  have same : (Machine.load code t.symbols).variableWords s.store =
      (Execution.mk s.store s.steps).bindings t.symbols :=
    (Execution.bindings_eq ⟨s.store, s.steps⟩ t.symbols).symm
  rw [same]
  constructor
  · rw [← (names_of_lower lowered).1]
    refine Execution.map_fst_bindings fun name mem => ?_
    obtain ⟨symbol, listed, rfl⟩ := List.mem_map.mp mem
    rw [Execution.get?, ← OrderedMap.mem_keys_iff, safe.keys_eq]
    exact List.mem_map_of_mem (List.mem_filter.mp listed).1
  · exact fun entry mem => (Execution.mem_bindings_iff.mp mem).2

end Program

/-! ## The phases -/

namespace Compilation

variable {c : Compilation} {source : Source} {t : Lowering} {fuel : Nat}

/-- The first two phases do not tell the words of the variables. -/
theorem filter_readingLog (c : Compilation) (source : Source) :
    (c.lexLog source ++ c.parseLog).filter Event.TellsWords = [] := by
  refine Event.filter_eq_nil fun words mem => ?_
  obtain ⟨tokens, program, _⟩ := c
  simp only [lexLog, parseLog, List.mem_append] at mem
  cases tokens <;> cases program <;> simp at mem

/-- The third one does not either. -/
theorem filter_loweringLog (t : Lowering) (c : Compilation) :
    (c.loweringLog t).filter Event.TellsWords = [] := by
  refine Event.filter_eq_nil fun words mem => ?_
  have emission (i : Instruction) : .userState words ∉ i.emissionLog := by
    cases i <;> simp [Instruction.emissionLog]
  obtain ⟨_, _, code, _⟩ := c
  simp only [loweringLog, List.mem_append] at mem
  cases code <;> simp [emission] at mem

/-- The last one tells what its machine tells. -/
theorem filter_runLog {code : Code} (coded : c.code = some code)
    (linked : ∀ fault, c.failure ≠ some (.label fault)) :
    (c.runLog fuel t).filter Event.TellsWords =
      ((Machine.load code t.symbols).runLog fuel (.start t.symbols)).filter Event.TellsWords := by
  have executing : ¬(Event.executing code.size).TellsWords := nofun
  have executed (steps : Nat) : ¬(Event.executed steps).TellsWords := nofun
  obtain ⟨_, _, made, _, execution, failure⟩ := c
  cases coded
  rw [runLog]
  split
  next none => cases none
  next fault _ missing => exact absurd missing (linked fault)
  next here _ =>
    cases here
    cases execution <;> simp [executing, executed]

/-- The words of the variables are told by the machine and by nothing else. -/
theorem filter_log {program : Program} {code : Code} (programmed : c.program = some program)
    (lowered : program.lower source .empty = (.ok code, t)) (coded : c.code = some code)
    (linked : ∀ fault, c.failure ≠ some (.label fault)) :
    (c.log fuel source).filter Event.TellsWords =
      ((Machine.load code t.symbols).runLog fuel (.start t.symbols)).filter Event.TellsWords := by
  have failed (message : String) : ¬(Event.failed message).TellsWords := nofun
  simp only [log, programmed, lowered]
  rw [List.filter_append, List.filter_append, filter_readingLog, List.filter_append, filter_loweringLog,
    filter_runLog coded linked]
  cases c.failure <;> simp [failed]

end Compilation

namespace Source

variable {source : Source} {tokens : List Token} {program : Program} {code : Code} {t : Lowering}
  {fuel : Nat} {options : Options} {c : Compilation}

section

variable (lexed : source.tokenize = .ok tokens) (parsed : Program.ofTokens source tokens = .ok program)
  (lowered : program.lower source .empty = (.ok code, t))

include lexed parsed lowered

/-- The log of a compilation tells the words of the variables as its machine does. -/
theorem filter_log_of_compile (compiled : source.compile fuel options = some c) :
    (c.log fuel source).filter Event.TellsWords =
      ((Machine.load code t.symbols).runLog fuel (.start t.symbols)).filter Event.TellsWords := by
  rw [compile_of_lower lexed parsed lowered, Option.map_eq_some_iff] at compiled
  obtain ⟨failure | execution, -, rfl⟩ := compiled
  · refine Compilation.filter_log rfl lowered rfl fun fault missing => ?_
    cases missing
  · obtain ⟨updated, settled⟩ := SymbolTable.exists_updateAll_of_lower lowered execution
    simp only [Compilation.finish, settled]
    refine Compilation.filter_log rfl lowered rfl fun fault missing => ?_
    cases missing

/-- The bindings of a compilation without failure are the words of the variables where its machine
halts. -/
theorem exists_halted_of_compile (compiled : source.compile fuel options = some c)
    (success : c.failure = none) :
    ∃ n s, n ≤ fuel ∧ (Machine.load code t.symbols).Reaches (.start t.symbols) n s ∧
      code.size ≤ s.pc ∧ c.bindings = (Machine.load code t.symbols).variableWords s.store := by
  rw [compile_of_lower lexed parsed lowered, Option.map_eq_some_iff] at compiled
  obtain ⟨failure | execution, ran, rfl⟩ := compiled
  · cases success
  · obtain ⟨n, s, le, reaches, halted, rfl⟩ := Machine.run_eq_ok_iff.mp ran
    obtain ⟨updated, settled⟩ :=
      SymbolTable.exists_updateAll_of_lower lowered ⟨s.store, s.steps⟩
    refine ⟨n, s, le, reaches, halted, ?_⟩
    simp only [Compilation.finish, settled, Compilation.bindings]
    rw [Program.bindings_of_settled lowered ran settled, Execution.bindings_eq]
    rfl

/-- The log misses no change of a variable. When a source has been lowered, the instructions that are
executed leave the variables alone, but for the assignments. Whatever the fuel is, the machine tells the
words once for each assignment that it executes, and these are the words of all declared names, in
their order, as they are behind that assignment. Between two states of a run where none are told, no
variable changes. The log of the compilation tells the same, and if it succeeds, the last words in it
are the bindings. -/
theorem words_told :
    let m : Machine := .load code t.symbols
    let start : State := .start t.symbols
    (∀ n s s' i, m.Reaches start n s → code[s.pc]? = some i → m.step s = .ok s' → i.isAssign = false →
        ∀ name ∈ program.declaredNames, s'.store.get? name = s.store.get? name) ∧
      (∀ fuel, List.Forall₂
        (fun e entry => ∃ words, e.Shows words ∧ entry.2.store.Lists program.declaredNames words)
        ((m.runLog fuel start).filter Event.TellsWords)
        ((m.trace fuel start).filter fun entry => entry.1.isAssign)) ∧
      (∀ n k s s', m.Reaches start n s → m.Reaches s k s' → (∀ e ∈ m.runLog k s, ¬e.TellsWords) →
        ∀ name ∈ program.declaredNames, s'.store.get? name = s.store.get? name) ∧
      ∀ fuel options c, source.compile fuel options = some c →
        (c.log fuel source).filter Event.TellsWords = (m.runLog fuel start).filter Event.TellsWords ∧
          (c.failure = none → ∀ e, ((c.log fuel source).filter Event.TellsWords).getLast? = some e →
            e.Shows c.bindings) := by
  intro m start
  obtain ⟨-, identifiers, -⟩ := Program.occurrences_of_tokenize lexed parsed
  have separated : m.Separated :=
    Program.separated_load (List.forall_mem_map.mpr identifiers) lowered
  have variables' : m.userVariables = program.declaredNames := (Program.names_of_lower lowered).1
  refine ⟨fun n s s' i _ fetch step other name declared => ?_, fun fuel => ?_,
    fun n k s s' _ run quiet name declared => ?_, fun fuel options c compiled => ⟨?_, ?_⟩⟩
  · exact separated.get?_of_step fetch step other (variables' ▸ declared)
  · rw [separated.filter_runLog, List.forall₂_map_left_iff, List.forall₂_same]
    intro entry mem
    obtain ⟨n, run⟩ := Machine.exists_reaches_of_mem_trace (List.mem_filter.mp mem).1
    exact ⟨_, Event.shows_userState _, Program.lists_of_reaches lowered run⟩
  · have silent : (m.runLog (k + 0) s).filter Event.TellsWords = [] := by simpa using quiet
    exact separated.words_of_quiet run 0 silent (variables' ▸ declared)
  · exact filter_log_of_compile lexed parsed lowered compiled
  · intro success e last
    obtain ⟨n, s, le, run, halted, bindings⟩ :=
      exists_halted_of_compile lexed parsed lowered compiled success
    obtain ⟨more, rfl⟩ := Nat.exists_eq_add_of_le le
    rw [filter_log_of_compile lexed parsed lowered compiled] at last
    rw [separated.last_of_halted run halted more last, bindings]
    exact Event.shows_userState _

end

/-- A loop that adds up three numbers: two words at first, and two more in each of three rounds. -/
theorem words_told_sum :
    let source : Source := ⟨"var n = 3; var sum = 0; while (n) { sum = sum + n; n = n - 1; }", none⟩
    ∃ c e, source.compile 60 ⟨true⟩ = some c ∧
      ((c.log 60 source).filter Event.TellsWords).length = 8 ∧
      ((c.log 60 source).filter Event.TellsWords).getLast? = some e ∧ e.Shows c.bindings ∧
      c.bindings = [("n", 0), ("sum", 6)] := by
  intro source
  have finishes : ((source.compile 60 ⟨true⟩).filter fun c =>
      c.failure.isNone ∧ c.code.isSome ∧ c.bindings = [("n", 0), ("sum", 6)] ∧
        ((c.log 60 source).filter Event.TellsWords).length = 8).isSome := by
    decide +kernel
  obtain ⟨c, finished⟩ := Option.isSome_iff_exists.mp finishes
  obtain ⟨compiled, result⟩ := Option.filter_eq_some_iff.mp finished
  obtain ⟨success, coded, bindings, told⟩ := of_decide_eq_true result
  obtain ⟨code, coded⟩ := Option.isSome_iff_exists.mp coded
  obtain ⟨tokens, program, t, lexed, parsed, lowered⟩ := exists_lower_of_code compiled coded
  obtain ⟨-, -, -, all⟩ := words_told lexed parsed lowered
  obtain ⟨-, shown⟩ := all 60 ⟨true⟩ c compiled
  have nonempty : (c.log 60 source).filter Event.TellsWords ≠ [] := by
    rw [← List.length_pos_iff, told]
    decide
  refine ⟨c, _, compiled, told, List.getLast?_eq_some_getLast nonempty, ?_, bindings⟩
  exact shown (Option.isNone_iff_eq_none.mp success) _ (List.getLast?_eq_some_getLast nonempty)

end Source

end ThreeAddress
