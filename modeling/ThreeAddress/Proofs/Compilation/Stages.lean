import ThreeAddress.Proofs.Code.Table
import ThreeAddress.Proofs.Compilation

/-!
# All or nothing

A compilation makes its parts one after another and stops at the first failure, so the failure tells
which part is the first one that is missing. The final words reach the table together or not at all:
after a run that came to its end every variable has its word, and after a failure no symbol has a
value.

## Main definitions

* `Symbol.settle` is what the final words make of a symbol.
* `Compilation.PrefixClosed`, `Compilation.TellsMissing`, `Compilation.Settled` and
  `Compilation.Untouched` are the parts of the main result.
* `Source.compile_all_or_nothing` is the main result.
-/

namespace ThreeAddress

/-! ## Giving the final words to the symbols -/

/-- The symbol with the word of its name as its value, if there is one. -/
def Symbol.settle (words : List (String × Int64)) (s : Symbol) : Symbol :=
  match OrderedMap.lookup? s.name words with
  | some word => s.assign word
  | none => s

namespace Symbol

variable (words : List (String × Int64)) (s : Symbol)

@[simp] theorem name_settle : (s.settle words).name = s.name := by
  rw [settle]
  split <;> rfl

@[simp] theorem isTemporary_settle : (s.settle words).isTemporary = s.isTemporary := by
  rw [settle]
  split <;> rfl

end Symbol

namespace SymbolTable

variable {t t' : SymbolTable} {words : List (String × Int64)}

/-- Words with distinct names go each to its own symbol. -/
theorem WellKept.toList_updateAll (h : t.WellKept) (distinct : (words.map Prod.fst).Nodup)
    (settled : t.updateAll words = (.ok (), t')) : t'.toList = t.toList.map (Symbol.settle words) := by
  induction words generalizing t with
  | nil =>
    cases settled
    exact (List.map_id _).symm
  | cons entry rest ih =>
    obtain ⟨name, word⟩ := entry
    obtain ⟨new, others⟩ := List.nodup_cons.mp distinct
    simp only [updateAll] at settled
    split at settled
    next next updated =>
      rw [ih (h.update updated) others settled, h.toList_update updated, List.map_map]
      refine List.map_congr_left fun s _ => ?_
      have absent : OrderedMap.lookup? name rest = none := by
        rw [← Option.not_isSome_iff_eq_none, OrderedMap.lookup?_isSome]
        exact new
      by_cases same : s.name = name
      · simp [Symbol.settle, OrderedMap.lookup?, same, absent]
      · simp [Symbol.settle, OrderedMap.lookup?, same, Ne.symm same]
    next => cases settled

/-- The variables stay the variables. -/
theorem userVariables_of_settle (list : t'.toList = t.toList.map (Symbol.settle words)) :
    t'.userVariables = t.userVariables.map (Symbol.settle words) := by
  rw [userVariables, list, List.filter_map]
  simp [userVariables, Function.comp_def]

end SymbolTable

namespace Execution

variable {e : Execution} {t : SymbolTable}

theorem bindings_eq (e : Execution) (t : SymbolTable) :
    e.bindings t =
      (t.userVariables.map Symbol.name).filterMap fun name => (e.get? name).map fun word => (name, word) := by
  rw [List.filterMap_map]
  rfl

/-- A binding is a variable with its word. -/
theorem mem_bindings_iff {name : String} {word : Int64} :
    (name, word) ∈ e.bindings t ↔ name ∈ t.userVariables.map Symbol.name ∧ e.get? name = some word := by
  rw [bindings_eq, List.mem_filterMap]
  constructor
  · rintro ⟨other, mem, found⟩
    obtain ⟨_, found, same⟩ := Option.map_eq_some_iff.mp found
    cases same
    exact ⟨mem, found⟩
  · rintro ⟨mem, found⟩
    exact ⟨name, mem, by rw [found, Option.map_some]⟩

/-- Where every variable has a word, the bindings are those of all variables. -/
theorem map_fst_bindings (known : ∀ name ∈ t.userVariables.map Symbol.name, (e.get? name).isSome) :
    (e.bindings t).map Prod.fst = t.userVariables.map Symbol.name := by
  rw [bindings_eq, List.map_filterMap]
  refine (List.filterMap_congr fun name mem => ?_).trans List.filterMap_some
  obtain ⟨word, found⟩ := Option.isSome_iff_exists.mp (known name mem)
  rw [found]
  rfl

end Execution

/-! ## The parts of a compilation -/

namespace Compilation

/-- No part is there without the parts before it. -/
structure PrefixClosed (c : Compilation) : Prop where
  code_of_execution : c.execution.isSome → c.code.isSome
  symbols_of_code : c.code.isSome → c.symbols.isSome
  program_of_symbols : c.symbols.isSome → c.program.isSome
  tokens_of_program : c.program.isSome → c.tokens.isSome

/-- The failure tells the first part that is missing. -/
structure TellsMissing (c : Compilation) : Prop where
  lex : (∃ error, c.failure = some (.lex error)) ↔ c.tokens = none
  parse : (∃ error, c.failure = some (.parse error)) ↔ c.tokens.isSome ∧ c.program = none
  symbol : (∃ error, c.failure = some (.symbol error)) ↔ c.symbols.isSome ∧ c.code = none
  run : ((∃ fault, c.failure = some (.label fault)) ∨ ∃ failure, c.failure = some (.run failure)) ↔
    c.code.isSome ∧ c.execution = none
  none : c.failure = none ↔ c.execution.isSome

/-- The final words of an execution are the values of the variables and nothing else, and the bindings
are the declared names with these words. -/
structure Settled (c : Compilation) (program : Program) (symbols : SymbolTable) (e : Execution) :
    Prop where
  userVariables : ∀ s ∈ symbols.userVariables, s.isInitialized = true ∧ s.value.isSome ∧
    s.value = e.get? s.name
  temporaries : ∀ s ∈ symbols.temporaries, s.value = none
  names : c.bindings.map Prod.fst = program.declaredNames
  names_table : symbols.userVariables.map Symbol.name = program.declaredNames
  distinct : program.declaredNames.Nodup
  words : ∀ entry ∈ c.bindings, e.get? entry.1 = some entry.2

/-- There are no bindings, and no symbol has a value. -/
structure Untouched (c : Compilation) : Prop where
  bindings : c.bindings = []
  valueless : ∀ symbols, c.symbols = some symbols → ∀ s ∈ symbols.toList,
    s.value = Option.none ∧ s.isInitialized = false

end Compilation

/-! ## Success -/

namespace Program

variable {program : Program} {source : Source} {code : Code} {t : Lowering} {fuel : Nat}
  {e : Execution} {updated : SymbolTable}

section

variable (lowered : program.lower source .empty = (.ok code, t))
  (executed : code.run fuel t.symbols = some (.ok e))
  (settled : t.symbols.updateAll (e.bindings t.symbols) = (.ok (), updated))

include lowered executed

/-- A name of the table has a word when the run has come to its end. -/
theorem isSome_get?_of_run {name : String} (known : name ∈ t.symbols.toList.map Symbol.name) :
    (e.get? name).isSome := by
  obtain ⟨n, last, -, reaches, -, rfl⟩ := Machine.run_eq_ok_iff.mp executed
  have safe := (closed_load lowered).reaches (safe_start lowered) reaches
  rw [Execution.get?, ← OrderedMap.mem_keys_iff, safe.keys_eq]
  exact known

/-- The bindings are those of all declared names. -/
theorem map_fst_bindings_of_run : (e.bindings t.symbols).map Prod.fst = program.declaredNames := by
  rw [← (names_of_lower lowered).1]
  refine Execution.map_fst_bindings fun name mem => isSome_get?_of_run lowered executed ?_
  obtain ⟨s, listed, rfl⟩ := List.mem_map.mp mem
  exact List.mem_map_of_mem (List.mem_filter.mp listed).1

include settled

/-- The final words change the values of the table and nothing else. -/
theorem toList_of_settled :
    updated.toList = t.symbols.toList.map (Symbol.settle (e.bindings t.symbols)) := by
  have kept := (gains_of_lower lowered).wellKept SymbolTable.wellKept_empty
  refine kept.toList_updateAll ?_ settled
  rw [map_fst_bindings_of_run lowered executed]
  exact (names_of_lower lowered).2

theorem names_of_settled : updated.userVariables.map Symbol.name = program.declaredNames := by
  rw [SymbolTable.userVariables_of_settle (toList_of_settled lowered executed settled), List.map_map,
    ← (names_of_lower lowered).1]
  exact List.map_congr_left fun s _ => s.name_settle _

theorem bindings_of_settled : e.bindings updated = e.bindings t.symbols := by
  rw [Execution.bindings_eq, Execution.bindings_eq, names_of_settled lowered executed settled,
    (names_of_lower lowered).1]

/-- A variable has its final word as its value. -/
theorem value_of_settled {s : Symbol} (mem : s ∈ updated.userVariables) :
    ∃ word, e.get? s.name = some word ∧ s.value = some word ∧ s.isInitialized = true := by
  rw [SymbolTable.userVariables_of_settle (toList_of_settled lowered executed settled)] at mem
  obtain ⟨s, listed, rfl⟩ := List.mem_map.mp mem
  have named : s.name ∈ t.symbols.userVariables.map Symbol.name := List.mem_map_of_mem listed
  have inTable : s.name ∈ t.symbols.toList.map Symbol.name :=
    List.mem_map_of_mem (List.mem_filter.mp listed).1
  obtain ⟨word, found⟩ := Option.isSome_iff_exists.mp (isSome_get?_of_run lowered executed inTable)
  have distinct : ((e.bindings t.symbols).map Prod.fst).Nodup := by
    rw [map_fst_bindings_of_run lowered executed]
    exact (names_of_lower lowered).2
  have bound : OrderedMap.lookup? s.name (e.bindings t.symbols) = some word :=
    (OrderedMap.lookup?_eq_some_iff distinct).mpr (Execution.mem_bindings_iff.mpr ⟨named, found⟩)
  refine ⟨word, by rw [Symbol.name_settle, found], ?_⟩
  simp [Symbol.settle, bound]

/-- A temporary has no value. -/
theorem temporary_of_settled {s : Symbol} (mem : s ∈ updated.temporaries) : s.value = none := by
  have gains := gains_of_lower lowered
  have kept := gains.wellKept SymbolTable.wellKept_empty
  have valueless := SymbolTable.valueless_iff.mp (gains.valueless SymbolTable.valueless_empty)
  obtain ⟨listed, temporary⟩ := List.mem_filter.mp mem
  rw [toList_of_settled lowered executed settled] at listed
  obtain ⟨s, inside, rfl⟩ := List.mem_map.mp listed
  rw [Symbol.isTemporary_settle] at temporary
  have unbound : OrderedMap.lookup? s.name (e.bindings t.symbols) = none := by
    rw [← Option.not_isSome_iff_eq_none, OrderedMap.lookup?_isSome]
    intro bound
    obtain ⟨⟨name, word⟩, entry, same⟩ := List.mem_map.mp bound
    -- a variable of that name would be the same symbol
    obtain ⟨other, isVariable, named⟩ := List.mem_map.mp (Execution.mem_bindings_iff.mp entry).1
    obtain ⟨known, declared⟩ := List.mem_filter.mp isVariable
    cases kept.eq_of_name_eq known inside (named.trans same)
    simp [temporary] at declared
  rw [Symbol.settle, unbound]
  exact valueless s inside

end

end Program

/-! ## All or nothing -/

/-- A failure leaves the table without values. -/
theorem Compilation.untouched_of_lower {c : Compilation} {program : Program} {source : Source}
    {result : Except (Diagnostic NameFault) Code} {t : Lowering}
    (lowered : program.lower source .empty = (result, t)) (symbols : c.symbols = some t.symbols)
    (stopped : c.execution = none) : c.Untouched := by
  obtain ⟨names, gains⟩ := Program.exists_gains_of_lower lowered
  have valueless := SymbolTable.valueless_iff.mp (gains.valueless SymbolTable.valueless_empty)
  have truthful := gains.truthful SymbolTable.truthful_empty
  constructor
  · simp only [bindings, stopped]
  · intro table here s mem
    cases symbols.symm.trans here
    exact ⟨valueless s mem, by rw [truthful s mem, valueless s mem]; rfl⟩

namespace Source.CompilesTo

variable {source : Source} {fuel : Nat} {c : Compilation}

theorem prefixClosed (h : source.CompilesTo fuel c) : c.PrefixClosed := by
  cases h <;> constructor <;> simp

theorem tellsMissing (h : source.CompilesTo fuel c) : c.TellsMissing := by
  cases h <;> constructor <;> simp

theorem untouched (h : source.CompilesTo fuel c) (stopped : c.execution = none) : c.Untouched := by
  cases h with
  | lex | parse => exact ⟨rfl, nofun⟩
  | symbol lexed parsed lowered | run lexed parsed lowered =>
    exact Compilation.untouched_of_lower lowered rfl rfl
  | success => cases stopped

theorem settled (h : source.CompilesTo fuel c) {e : Execution} (finished : c.execution = some e) :
    ∃ program symbols, c.program = some program ∧ c.symbols = some symbols ∧
      c.Settled program symbols e := by
  cases h with
  | lex | parse | symbol | run => cases finished
  | @success tokens program t code e updated lexed parsed lowered executed settled =>
    cases finished
    have names := Program.names_of_settled lowered executed settled
    have bindings := Program.bindings_of_settled lowered executed settled
    refine ⟨program, updated, rfl, rfl, ?_, ?_, ?_, names, (Program.names_of_lower lowered).2, ?_⟩
    · intro s mem
      obtain ⟨word, found, value, initialized⟩ :=
        Program.value_of_settled lowered executed settled mem
      exact ⟨initialized, by rw [value]; rfl, value.trans found.symm⟩
    · exact fun s => Program.temporary_of_settled lowered executed settled
    · exact (congrArg (List.map Prod.fst) bindings).trans
        (Program.map_fst_bindings_of_run lowered executed)
    · intro entry mem
      exact (Execution.mem_bindings_iff.mp mem).2

end Source.CompilesTo

/-- A compilation is all or nothing. Its parts are there up to one of them, and the failure tells which
one comes next. If it comes to its end, the variables of its table have their final words, the
temporaries have no value, and the bindings are the declared names in the order of the text with
these words. If it fails, there are no bindings, and no symbol of its table has a value. -/
theorem Source.compile_all_or_nothing {source : Source} {fuel : Nat} {options : Options}
    {c : Compilation} (compiled : source.compile fuel options = some c) :
    c.PrefixClosed ∧ c.TellsMissing ∧
      (∀ e, c.execution = some e → ∃ program symbols, c.program = some program ∧
        c.symbols = some symbols ∧ c.Settled program symbols e) ∧
      ∀ failure, c.failure = some failure → c.Untouched := by
  have ends := compilesTo_of_compile compiled
  refine ⟨ends.prefixClosed, ends.tellsMissing, fun e => ends.settled, fun failure failed => ?_⟩
  apply ends.untouched
  -- a compilation with an execution has no failure
  have finishes := ends.tellsMissing.none.mpr
  cases execution : c.execution with
  | none => rfl
  | some e => cases failed.symm.trans (finishes (by rw [execution]; rfl))

/-- A source with a declaration in a block, and one that divides by zero when a variable has its word
already. -/
theorem Source.compile_all_or_nothing_block :
    let source : Source := ⟨"var a = 2; if (a) { var b = a * 3; } a = b + 1;", none⟩
    let broken : Source := ⟨"var a = 1; var b = a / (a - 1);", none⟩
    (∃ c program symbols e, source.compile 20 ⟨true⟩ = some c ∧ c.execution = some e ∧
        c.Settled program symbols e) ∧
      ∃ c failure, broken.compile 20 ⟨true⟩ = some c ∧ c.failure = some failure ∧ c.Untouched := by
  intro source broken
  have ends : ((source.compile 20 ⟨true⟩).bind Compilation.execution).isSome := by decide +kernel
  have fails : ((broken.compile 20 ⟨true⟩).bind Compilation.failure).isSome := by decide +kernel
  obtain ⟨e, ended⟩ := Option.isSome_iff_exists.mp ends
  obtain ⟨c, compiled, executed⟩ := Option.bind_eq_some_iff.mp ended
  obtain ⟨failure, failed⟩ := Option.isSome_iff_exists.mp fails
  obtain ⟨c', compiled', stopped⟩ := Option.bind_eq_some_iff.mp failed
  obtain ⟨-, -, success, -⟩ := compile_all_or_nothing compiled
  obtain ⟨-, -, -, nothing⟩ := compile_all_or_nothing compiled'
  obtain ⟨program, symbols, -, -, settled⟩ := success e executed
  exact ⟨⟨c, program, symbols, e, compiled, executed, settled⟩, c', failure, compiled', stopped,
    nothing failure stopped⟩

end ThreeAddress
