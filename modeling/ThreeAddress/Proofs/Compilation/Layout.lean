import ThreeAddress.Proofs.Code.Layout
import ThreeAddress.Proofs.Compilation

/-!
# Layout does not influence meaning

Two sources whose tokens have the same kinds and the same texts are compiled alike, whatever their
blanks, comments and line breaks are. The compilations differ in places only: in those of tokens,
names and statements, in the lines of symbols, and in where an error is located. The instructions
and the runs are the same.

## Main definitions

* `Failure.unplaced` and `Compilation.unplaced` take the places off.
* `Source.compile_layout` is the main result.
-/

namespace ThreeAddress

/-! ## Without places -/

/-- The fault without the position of its character. -/
def LexFault.unplaced : LexFault → LexFault
  | unexpectedChar char _ => unexpectedChar char ⟨0, 0⟩

/-- The failure without the place of its error; a failure of the run has none in the source. -/
def Failure.unplaced : Failure → Failure
  | lex error => lex (error.unplaced LexFault.unplaced)
  | parse error => parse (error.unplaced ParseFault.unplaced)
  | symbol error => symbol (error.unplaced NameFault.unplaced)
  | label fault => label fault
  | run failure => run failure

/-- The compilation without places: all of its instructions and its execution are left. -/
def Compilation.unplaced (c : Compilation) : Compilation where
  tokens := c.tokens.map (List.map Token.unplaced)
  program := c.program.map Stmt.unplacedAll
  code := c.code
  symbols := c.symbols.map SymbolTable.unplaced
  execution := c.execution
  failure := c.failure.map Failure.unplaced

/-! ## Runs -/

namespace SymbolTable

variable (t : SymbolTable) (words : List (String × Int64))

theorem userVariables_unplaced :
    t.unplaced.userVariables = t.userVariables.map Symbol.unplaced := by
  rw [userVariables, toList_unplaced, List.filter_map]
  rfl

theorem initialStore_unplaced : t.unplaced.initialStore = t.initialStore := by
  rw [initialStore, initialStore, toList_unplaced, List.map_map]
  rfl

theorem updateAll_unplaced :
    t.unplaced.updateAll words = ((t.updateAll words).1, (t.updateAll words).2.unplaced) := by
  induction words generalizing t with
  | nil => rfl
  | cons entry rest ih =>
    simp only [updateAll, update_unplaced]
    cases t.update entry.1 entry.2 with
    | ok updated => exact ih updated
    | error fault => rfl

/-- Tables that are the same up to lines take the same words. -/
theorem updateAll_layout {t t' : SymbolTable} (same : t.unplaced = t'.unplaced)
    (words : List (String × Int64)) :
    (t.updateAll words).1 = (t'.updateAll words).1 ∧
      (t.updateAll words).2.unplaced = (t'.updateAll words).2.unplaced := by
  have here := t.updateAll_unplaced words
  rw [same, updateAll_unplaced] at here
  exact ⟨(Prod.mk.inj here).1.symm, (Prod.mk.inj here).2.symm⟩

end SymbolTable

/-- A machine does not see the lines of the symbols. -/
theorem Code.run_unplaced (fuel : Nat) (code : Code) (symbols : SymbolTable) :
    code.run fuel symbols.unplaced = code.run fuel symbols := by
  have load : Machine.load code symbols.unplaced = Machine.load code symbols := by
    rw [Machine.load, Machine.load, SymbolTable.userVariables_unplaced, List.map_map]
    rfl
  have start : State.start symbols.unplaced = State.start symbols := by
    rw [State.start, State.start, SymbolTable.initialStore_unplaced]
  rw [run, run, load, start]

theorem Execution.bindings_unplaced (e : Execution) (symbols : SymbolTable) :
    e.bindings symbols.unplaced = e.bindings symbols := by
  rw [bindings, bindings, SymbolTable.userVariables_unplaced, List.filterMap_map]
  rfl

/-! ## Compilations -/

/-- The last phase comes to the same beside tables that are the same up to lines. -/
theorem Compilation.finish_layout {c c' : Compilation} {symbols symbols' : SymbolTable}
    (parts : c.unplaced = c'.unplaced) (tables : symbols.unplaced = symbols'.unplaced)
    (result : Except RunFailure Execution) :
    (c.finish symbols result).unplaced = (c'.finish symbols' result).unplaced := by
  obtain ⟨tokens, program, code, table, execution, failure⟩ := Compilation.mk.inj parts
  cases result with
  | error failure => simp only [finish, stop, unplaced, tokens, program, code, table, execution]
  | ok e =>
    have words : e.bindings symbols = e.bindings symbols' := by
      rw [← e.bindings_unplaced symbols, tables, e.bindings_unplaced]
    obtain ⟨outcome, updated⟩ := SymbolTable.updateAll_layout tables (e.bindings symbols')
    simp only [finish, words]
    generalize symbols.updateAll (e.bindings symbols') = result at outcome updated ⊢
    generalize symbols'.updateAll (e.bindings symbols') = result' at outcome updated ⊢
    obtain ⟨done, table⟩ := result
    obtain ⟨done', table'⟩ := result'
    cases outcome
    cases done <;> simp_all [stop, unplaced]

/-- Layout does not influence meaning. Sources whose tokens have the same kinds and the same texts are
compiled to the same, up to places: to the same program, the same instructions, the same symbols, the
same execution, and the same failure in the same phase. -/
theorem Source.compile_layout {source other : Source} {tokens tokens' : List Token}
    (lexed : source.tokenize = .ok tokens) (lexed' : other.tokenize = .ok tokens')
    (words : tokens.map Token.word = tokens'.map Token.word) (fuel : Nat) (options : Options) :
    (source.compile fuel options).map Compilation.unplaced =
      (other.compile fuel options).map Compilation.unplaced := by
  have listed := Token.map_unplaced words
  rcases Program.ofTokens_layout source other words with
    ⟨program, program', parsed, parsed', programs⟩ | ⟨error, error', parsed, parsed', errors⟩
  · obtain ⟨results, tables⟩ := Program.lower_layout source other programs
    rcases lowered : program.lower source .empty with ⟨error | code, t⟩ <;>
      rcases lowered' : program'.lower other .empty with ⟨error' | code', t'⟩ <;>
      rw [lowered, lowered'] at results tables
    · have errors := Except.error.inj results
      simp [compile, lexed, lexed', parsed, parsed', lowered, lowered', Compilation.unplaced,
        Compilation.empty, Compilation.stop, Failure.unplaced, listed, programs, tables, errors]
    · cases results
    · cases results
    · cases Except.ok.inj results
      have runs : code.run fuel t.symbols = code.run fuel t'.symbols := by
        rw [← code.run_unplaced, tables, code.run_unplaced]
      rw [compile_of_lower lexed parsed lowered, compile_of_lower lexed' parsed' lowered',
        Option.map_map, Option.map_map, runs]
      refine Option.map_congr fun result _ => Compilation.finish_layout ?_ tables result
      simp [Compilation.unplaced, listed, programs, tables]
  · simp [compile, lexed, lexed', parsed, parsed', Compilation.unplaced, Compilation.empty,
      Compilation.stop, Failure.unplaced, listed, errors]

/-- A loop on one line, and on several lines with a comment. Both are compiled to the same eight
instructions, which count down to zero. -/
theorem Source.compile_layout_comment :
    let source : Source := ⟨"var a=3;while(a>0)a=a-1;", none⟩
    let other : Source := ⟨"// counts down\nvar a = 3;\nwhile (a > 0)\n  a = a - 1;\n", some "b"⟩
    let code : Code := #[.assign "a" (.constant 3), .label ⟨0⟩, .binary .gt (.name "a") (.constant 0) "%t0",
      .ifFalse (.name "%t0") ⟨1⟩, .binary .sub (.name "a") (.constant 1) "%t1", .assign "a" (.name "%t1"),
      .goto ⟨0⟩, .label ⟨1⟩]
    ∃ c c', source.compile 30 ⟨true⟩ = some c ∧ other.compile 30 ⟨true⟩ = some c' ∧
      c.unplaced = c'.unplaced ∧ c.code = some code ∧ c'.code = some code ∧ c.bindings = [("a", 0)] ∧
      c'.bindings = [("a", 0)] := by
  intro source other code
  have same : (source.tokenize.toOption.map (List.map Token.word)).isSome ∧
      source.tokenize.toOption.map (List.map Token.word) =
        other.tokenize.toOption.map (List.map Token.word) := by
    decide +kernel
  have made : (source.compile 30 ⟨true⟩).map (fun c => (c.code, c.bindings)) =
      some (some code, [("a", 0)]) := by
    decide +kernel
  have made' : (other.compile 30 ⟨true⟩).map (fun c => (c.code, c.bindings)) =
      some (some code, [("a", 0)]) := by
    decide +kernel
  obtain ⟨c, compiled, told⟩ := Option.map_eq_some_iff.mp made
  obtain ⟨c', compiled', told'⟩ := Option.map_eq_some_iff.mp made'
  obtain ⟨instructions, words⟩ := Prod.ext_iff.mp told
  obtain ⟨instructions', words'⟩ := Prod.ext_iff.mp told'
  cases lexed : source.tokenize with
  | error error => simp [lexed, Except.toOption] at same
  | ok tokens =>
    cases lexed' : other.tokenize with
    | error error => simp [lexed, lexed', Except.toOption] at same
    | ok tokens' =>
      have alike : tokens.map Token.word = tokens'.map Token.word := by
        simpa [lexed, lexed', Except.toOption] using same
      have unplaced := compile_layout lexed lexed' alike 30 ⟨true⟩
      rw [compiled, compiled', Option.map_some, Option.map_some, Option.some_inj] at unplaced
      exact ⟨c, c', compiled, compiled', unplaced, instructions, instructions', words, words'⟩

end ThreeAddress
