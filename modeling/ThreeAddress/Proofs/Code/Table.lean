import ThreeAddress.Proofs.Code.Emission

/-!
# The table of a lowering

A lowering only ever adds new symbols to its table: a variable for each declaration, in the order of
the text, and temporaries between them. None of them has a value. This is so also for a lowering that
fails, up to the place of the failure.

## Main definitions

* `SymbolTable.Gains t names t'`: the table `t'` has come from `t` by new temporaries and by variables
  with the given names.
* `Emitter.Gains` says that of an action, in both of its outcomes.
* `Program.gains_lower`: the table of a program.
-/

namespace ThreeAddress

/-! ## Tables that gain symbols -/

namespace SymbolTable

/-- The table on the right has come from the one on the left by new symbols: variables with the given
names, one after another, and temporaries. -/
inductive Gains : SymbolTable → List String → SymbolTable → Prop where
  | refl (t : SymbolTable) : Gains t [] t
  | declare {t t' : SymbolTable} {name : String} {names : List String} (line : Nat)
      (new : ¬t.contains name)
      (later : Gains (t.put (.new name .declared none (some line))) names t') : Gains t (name :: names) t'
  | fresh {t t' : SymbolTable} {names : List String} (later : Gains t.fresh.2 names t') :
      Gains t names t'

variable {t t' t'' : SymbolTable} {names others : List String}

theorem Gains.trans (first : t.Gains names t') (second : t'.Gains others t'') :
    t.Gains (names ++ others) t'' := by
  induction first with
  | refl => exact second
  | declare line new _ ih => exact .declare line new (ih second)
  | fresh _ ih => exact .fresh (ih second)

/-- A table in good order stays so. -/
theorem Gains.wellKept (h : t.Gains names t') (kept : t.WellKept) : t'.WellKept := by
  induction h with
  | refl => exact kept
  | declare line _ _ ih => exact ih (kept.put _)
  | fresh _ ih => exact ih kept.fresh

/-- A name of a source is in the table just if it was there or is one of the new variables: no name of
a source is that of a temporary. -/
theorem Gains.contains_iff (h : t.Gains names t') {name : String} (ident : isIdentifier name) :
    t'.contains name ↔ t.contains name ∨ name ∈ names := by
  induction h with
  | refl => simp
  | @declare t t' first names line _ _ ih =>
    rw [ih, contains_put, Symbol.name_new, List.mem_cons, eq_comm, or_assoc, or_left_comm]
  | @fresh t t' names _ ih =>
    have differs : temporaryName t.allocated ≠ name :=
      (isIdentifier_ne_temporaryName ident t.allocated).symm
    rw [ih, contains_fresh, or_iff_right differs]

/-- No new symbol has a value. -/
theorem Gains.valueless (h : t.Gains names t') (none : t.Valueless) : t'.Valueless := by
  induction h with
  | refl => exact none
  | declare line _ _ ih => exact ih (none.put rfl)
  | fresh _ ih => exact ih none.fresh

/-- No new symbol counts as initialized. -/
theorem Gains.truthful (h : t.Gains names t') (truthful : t.Truthful) : t'.Truthful := by
  induction h with
  | refl => exact truthful
  | declare line _ _ ih => exact ih (truthful.put rfl)
  | fresh _ ih => exact ih truthful.fresh

theorem userVariables_put {s : Symbol} (new : ¬t.contains s.name) (kind : s.kind = .declared) :
    (t.put s).userVariables = t.userVariables ++ [s] := by
  rw [userVariables, toList_put new, List.filter_append]
  simp [userVariables, Symbol.isTemporary, kind]

theorem userVariables_fresh (t : SymbolTable) : t.fresh.2.userVariables = t.userVariables := by
  by_cases known : t.contains (temporaryName t.allocated)
  · rw [userVariables, toList_fresh_of_known known, userVariables]
  · rw [userVariables, toList_fresh_of_new known, List.filter_append]
    simp [userVariables, Symbol.isTemporary]

/-- The new variables stand behind the others. -/
theorem Gains.map_name_userVariables (h : t.Gains names t') :
    t'.userVariables.map Symbol.name = t.userVariables.map Symbol.name ++ names := by
  induction h with
  | refl => rw [List.append_nil]
  | declare line new _ ih => rw [ih, userVariables_put new rfl]; simp
  | fresh _ ih => rw [ih, userVariables_fresh]

/-- The new symbols stand behind the others, and their names are new. -/
theorem Gains.exists_toList (h : t.Gains names t') :
    ∃ new, t'.toList = t.toList ++ new ∧ ∀ s ∈ new, ¬t.contains s.name := by
  induction h with
  | refl t => exact ⟨[], (List.append_nil _).symm, fun s mem => absurd mem List.not_mem_nil⟩
  | @declare t t' name names line new _ ih =>
    obtain ⟨others, listed, unknown⟩ := ih
    refine ⟨.new name .declared none (some line) :: others, ?_, List.forall_mem_cons.mpr ⟨new, ?_⟩⟩
    · rw [listed, toList_put new, List.append_assoc, List.singleton_append]
    · exact fun s mem known => unknown s mem ((contains_put ..).mpr (.inr known))
  | @fresh t t' names _ ih =>
    obtain ⟨others, listed, unknown⟩ := ih
    have unknown' : ∀ s ∈ others, ¬t.contains s.name := fun s mem known =>
      unknown s mem ((contains_fresh ..).mpr (.inr known))
    by_cases known : t.contains (temporaryName t.allocated)
    · rw [toList_fresh_of_known known] at listed
      exact ⟨others, listed, unknown'⟩
    · rw [toList_fresh_of_new known, List.append_assoc, List.singleton_append] at listed
      exact ⟨_, listed, List.forall_mem_cons.mpr ⟨known, unknown'⟩⟩

/-- The names of the new variables were not in the table, and none comes twice. -/
theorem Gains.names_new (h : t.Gains names t') : (∀ name ∈ names, ¬t.contains name) ∧ names.Nodup := by
  induction h with
  | refl t => exact ⟨fun name mem => absurd mem List.not_mem_nil, List.nodup_nil⟩
  | @declare t t' name names line new _ ih =>
    obtain ⟨unknown, distinct⟩ := ih
    refine ⟨List.forall_mem_cons.mpr ⟨new, fun other mem known => ?_⟩, List.nodup_cons.mpr ⟨?_, distinct⟩⟩
    · exact unknown other mem ((contains_put ..).mpr (.inr known))
    · exact fun mem => unknown name mem ((contains_put ..).mpr (.inl rfl))
  | fresh _ ih =>
    obtain ⟨unknown, distinct⟩ := ih
    exact ⟨fun name mem known => unknown name mem ((contains_fresh ..).mpr (.inr known)), distinct⟩

end SymbolTable

/-! ## Actions -/

/-- The texts of the declared names. -/
def declaredTexts (occurrences : List Occurrence) : List String :=
  (occurrences.filter fun o => o.role = .declared).map Occurrence.text

theorem declaredTexts_append (occurrences others : List Occurrence) :
    declaredTexts (occurrences ++ others) = declaredTexts occurrences ++ declaredTexts others := by
  rw [declaredTexts, List.filter_append, List.map_append]
  rfl

namespace Emitter

variable {α β : Type} {source : Source} {occurrences others : List Occurrence}

/-- The table gains the declared names of the occurrences, or some names if the action fails. -/
def Gains (action : Emitter α) (occurrences : List Occurrence) : Prop :=
  ∀ t, match action t with
    | .ok _ t' => t.symbols.Gains (declaredTexts occurrences) t'.symbols
    | .error _ t' => ∃ names, t.symbols.Gains names t'.symbols

theorem Gains.bind {action : Emitter α} {next : α → Emitter β} (first : action.Gains occurrences)
    (then_ : ∀ a, (next a).Gains others) : (action >>= next).Gains (occurrences ++ others) := by
  intro t
  have gained := first t
  simp only [Bind.bind, EStateM.bind]
  generalize action t = result at gained ⊢
  cases result with
  | error error t' => exact gained
  | ok a t' =>
    have later := then_ a t'
    simp only
    generalize next a t' = last at later ⊢
    cases last with
    | ok b t'' =>
      rw [declaredTexts_append]
      exact gained.trans later
    | error error t'' =>
      obtain ⟨names, more⟩ := later
      exact ⟨_, gained.trans more⟩

theorem Gains.bind_silent {action : Emitter α} {next : α → Emitter β}
    (first : action.Gains occurrences) (silent : ∀ a, (next a).Gains []) :
    (action >>= next).Gains occurrences := by
  simpa using first.bind silent

theorem gains_pure (a : α) : (pure a : Emitter α).Gains [] :=
  fun t => .refl t.symbols

theorem gains_emit (instruction : Instruction) : (emit instruction).Gains [] :=
  fun t => .refl t.symbols

theorem gains_newLabel : newLabel.Gains [] :=
  fun t => .refl t.symbols

theorem gains_newTemporary : newTemporary.Gains [] :=
  fun t => .fresh (.refl t.symbols.fresh.2)

theorem Gains.within {action : Emitter α} (context : String) (h : action.Gains occurrences) :
    (within context action).Gains occurrences := by
  intro t
  have gained := h t
  simp only [Emitter.within]
  generalize action t = result at gained ⊢
  cases result <;> exact gained

/-- A name that is looked up changes nothing. -/
theorem gains_require {role : Role} {name : Lexeme} (other : role ≠ .declared) :
    (require source name).Gains [⟨role, name⟩] := by
  intro t
  rw [require, get_bind]
  by_cases known : t.symbols.contains name.text
  · simpa [known, declaredTexts, other, pure, EStateM.pure] using .refl t.symbols
  · simpa [known, failAt] using ⟨_, .refl t.symbols⟩

/-- A declared name is gained. -/
theorem gains_declare (name : Lexeme) (line : Nat) :
    (Emitter.declare source name line).Gains [⟨.declared, name⟩] := by
  intro t
  rw [Emitter.declare, get_bind]
  by_cases known : t.symbols.contains name.text
  · rw [SymbolTable.declare_of_contains (s := .new name.text .declared none (some line)) known]
    exact ⟨_, .refl t.symbols⟩
  · rw [SymbolTable.declare_of_new (s := .new name.text .declared none (some line)) known]
    exact .declare line known (.refl _)

end Emitter

/-! ## Programs -/

open Emitter

section

variable {source : Source}

theorem Expr.gains_lower (e : Expr) : (e.lower source).Gains e.occurrences := by
  induction e with
  | number value => exact gains_pure _
  | name lexeme =>
    exact (gains_require (nofun : Role.used ≠ .declared)).bind_silent fun _ => gains_pure _
  | binary op lhs rhs ihl ihr =>
    exact ihl.bind fun _ => ihr.bind_silent fun _ => gains_newTemporary.bind fun _ =>
      (gains_emit _).bind fun _ => gains_pure _

mutual

/-- A statement adds the names that it declares, in the order of its text. -/
theorem Stmt.gains_lower (s : Stmt) : (s.lower source).Gains s.occurrences := by
  match s with
  | .declare name init line =>
    exact (gains_declare name line).bind fun _ => init.gains_lower.bind_silent fun _ => gains_emit _
  | .assign name value _ =>
    exact (gains_require (nofun : Role.assigned ≠ .declared)).bind fun _ =>
      value.gains_lower.bind_silent fun _ => gains_emit _
  | .ifThen condition body _ =>
    exact condition.gains_lower.bind fun _ => gains_newLabel.bind fun _ => (gains_emit _).bind fun _ =>
      ((Stmt.gains_lower body).within _).bind_silent fun _ => gains_emit _
  | .ifElse condition body otherwise _ =>
    rw [Stmt.occurrences, List.append_assoc]
    exact condition.gains_lower.bind fun _ => gains_newLabel.bind fun _ => gains_newLabel.bind fun _ =>
      (gains_emit _).bind fun _ => ((Stmt.gains_lower body).within _).bind fun _ =>
        (gains_emit _).bind fun _ => (gains_emit _).bind fun _ =>
          ((Stmt.gains_lower otherwise).within _).bind_silent fun _ => gains_emit _
  | .loop condition body _ =>
    exact gains_newLabel.bind fun _ => gains_newLabel.bind fun _ => (gains_emit _).bind fun _ =>
      condition.gains_lower.bind fun _ => (gains_emit _).bind fun _ =>
        ((Stmt.gains_lower body).within _).bind_silent fun _ =>
          (gains_emit _).bind fun _ => gains_emit _
  | .block body => exact Stmt.gains_lowerAll body

theorem Stmt.gains_lowerAll (body : List Stmt) :
    (Stmt.lowerAll source body).Gains (Stmt.occurrencesAll body) := by
  match body with
  | [] => exact gains_pure _
  | s :: rest => exact (Stmt.gains_lower s).bind fun _ => Stmt.gains_lowerAll rest

end

namespace Program

variable {program : Program} {symbols : SymbolTable} {t : Lowering}

/-- The table of a program that is lowered has gained the names that the program declares. -/
theorem gains_of_lower {code : Code} (lowered : program.lower source symbols = (.ok code, t)) :
    symbols.Gains program.declaredNames t.symbols := by
  have gains : (Stmt.lowerAll source program).Gains (Stmt.occurrencesAll program) :=
    Stmt.gains_lowerAll program
  have gained := gains (.start symbols)
  simp only [lower] at lowered
  generalize Stmt.lowerAll source program (.start symbols) = result at gained lowered
  cases result with
  | ok _ last => cases lowered; exact gained
  | error error last => cases lowered

/-- The declared names are the variables of the table, and no name is declared twice. -/
theorem names_of_lower {code : Code} (lowered : program.lower source .empty = (.ok code, t)) :
    t.symbols.userVariables.map Symbol.name = program.declaredNames ∧ program.declaredNames.Nodup := by
  have gains := gains_of_lower lowered
  have names : t.symbols.userVariables.map Symbol.name = program.declaredNames :=
    gains.map_name_userVariables
  exact ⟨names, gains.names_new.2⟩

/-- Every name of a program that is lowered is one of its variables. -/
theorem names_subset_of_lower {code : Code} (identifiers : ∀ name ∈ program.names, isIdentifier name)
    (lowered : program.lower source .empty = (.ok code, t)) :
    ∀ name ∈ program.names, name ∈ t.symbols.userVariables.map Symbol.name := by
  intro name mem
  obtain ⟨-, -, known⟩ := lower_eq_ok lowered
  rw [(names_of_lower lowered).1]
  rcases ((gains_of_lower lowered).contains_iff (identifiers name mem)).mp (known name mem) with
    early | declared
  · simp [SymbolTable.empty, SymbolTable.contains, SymbolTable.get?] at early
  · exact declared

/-- The table of a lowering has gained some names, also where it failed. -/
theorem exists_gains_of_lower {result : Except (Diagnostic NameFault) Code}
    (lowered : program.lower source symbols = (result, t)) : ∃ names, symbols.Gains names t.symbols := by
  have gains : (Stmt.lowerAll source program).Gains (Stmt.occurrencesAll program) :=
    Stmt.gains_lowerAll program
  have gained := gains (.start symbols)
  simp only [lower] at lowered
  generalize Stmt.lowerAll source program (.start symbols) = result at gained lowered
  cases result with
  | ok _ last => cases lowered; exact ⟨_, gained⟩
  | error error last => cases lowered; exact gained

end Program

end

end ThreeAddress
