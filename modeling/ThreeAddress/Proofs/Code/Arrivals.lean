import ThreeAddress.Proofs.Code.Table
import ThreeAddress.Proofs.SymbolTable.History

/-!
# What a lowering appends to its table

The symbols that a lowering finds in its table stay there as they are, in their order, and the new ones
come behind them; so one table can serve many programs, also such as fail. Where the temporaries to come
have no symbols yet, a program that is lowered appends just what it asks for: a variable for each of its
declarations, and a temporary for each of its operators.

What a program asks for is a list of arrivals, read from its syntax tree in the order of the lowering. The
table takes them one after another, and each of them appends one symbol.

## Main definitions

* `Arrival` is a declaration or an operator, `Stmt.arrivals` lists those of a statement, and
  `Arrival.symbolsFrom` their symbols.
* `SymbolTable.receiveAll` is the table after arrivals.
* `SymbolTable.Awaits` says that each of them will append a symbol.
* `Program.symbols_lower` is the main result.
-/

namespace ThreeAddress

open SymbolTable

/-! ## Arrivals -/

/-- What brings a symbol to a table: the declaration of a name on a line, or an operator, whose value
needs a temporary. -/
inductive Arrival where
  | declaration (name : String) (line : Nat)
  | operation
deriving DecidableEq

/-- The operators of an expression: those of the operands come before their own, and the left operand
before the right one. -/
def Expr.arrivals : Expr → List Arrival
  | .number _ | .name _ => []
  | .binary _ lhs rhs => lhs.arrivals ++ rhs.arrivals ++ [.operation]

mutual

/-- The declarations and the operators of a statement; a declaration comes before its initializer. -/
def Stmt.arrivals : Stmt → List Arrival
  | .declare name init line => .declaration name.text line :: init.arrivals
  | .assign _ value _ => value.arrivals
  | .ifThen condition body _ | .loop condition body _ => condition.arrivals ++ body.arrivals
  | .ifElse condition body otherwise _ => condition.arrivals ++ body.arrivals ++ otherwise.arrivals
  | .block body => Stmt.arrivalsAll body

/-- The declarations and the operators of statements one after another. -/
def Stmt.arrivalsAll : List Stmt → List Arrival
  | [] => []
  | s :: rest => s.arrivals ++ Stmt.arrivalsAll rest

end

namespace Arrival

/-- The name that is declared. -/
def declared? : Arrival → Option String
  | declaration name _ => some name
  | operation => none

/-- The number of temporaries that are asked for. -/
def temporaries : Arrival → Nat
  | declaration _ _ => 0
  | operation => 1

/-- The symbol that comes, where `temp` is the number of the next temporary. -/
def symbol (temp : Nat) : Arrival → Symbol
  | declaration name line => .new name .declared none (some line)
  | operation => .new (temporaryName temp) .temporary none none

/-- The symbols that come one after another, where the first temporary has the number `temp`. -/
def symbolsFrom (temp : Nat) : List Arrival → List Symbol
  | [] => []
  | arrival :: rest => arrival.symbol temp :: symbolsFrom (temp + arrival.temporaries) rest

end Arrival

/-- An expression declares nothing. -/
theorem Expr.declared_arrivals (e : Expr) : e.arrivals.filterMap Arrival.declared? = [] := by
  induction e with
  | number value => rfl
  | name lexeme => rfl
  | binary op lhs rhs ihl ihr =>
    rw [Expr.arrivals, List.filterMap_append, List.filterMap_append, ihl, ihr]
    rfl

theorem Expr.declaredTexts_occurrences (e : Expr) : declaredTexts e.occurrences = [] := by
  induction e with
  | number value => rfl
  | name lexeme => rfl
  | binary op lhs rhs ihl ihr => rw [Expr.occurrences, declaredTexts_append, ihl, ihr, List.append_nil]

mutual

/-- The declared names among the arrivals are those of the text. -/
theorem Stmt.declared_arrivals (s : Stmt) :
    s.arrivals.filterMap Arrival.declared? = declaredTexts s.occurrences := by
  match s with
  | .declare name init line =>
    have texts : declaredTexts (⟨.declared, name⟩ :: init.occurrences) =
        name.text :: declaredTexts init.occurrences := rfl
    have names : (Stmt.arrivals (.declare name init line)).filterMap Arrival.declared? =
        name.text :: init.arrivals.filterMap Arrival.declared? := rfl
    rw [names, Stmt.occurrences, texts, init.declared_arrivals, init.declaredTexts_occurrences]
  | .assign name value _ =>
    have texts : declaredTexts (⟨.assigned, name⟩ :: value.occurrences) =
        declaredTexts value.occurrences := rfl
    rw [Stmt.arrivals, Stmt.occurrences, texts, value.declared_arrivals, value.declaredTexts_occurrences]
  | .ifThen condition body _ | .loop condition body _ =>
    rw [Stmt.arrivals, Stmt.occurrences, List.filterMap_append, declaredTexts_append,
      condition.declared_arrivals, condition.declaredTexts_occurrences, Stmt.declared_arrivals body]
  | .ifElse condition body otherwise _ =>
    rw [Stmt.arrivals, Stmt.occurrences, List.filterMap_append, List.filterMap_append,
      declaredTexts_append, declaredTexts_append, condition.declared_arrivals,
      condition.declaredTexts_occurrences, Stmt.declared_arrivals body, Stmt.declared_arrivals otherwise]
  | .block body => exact Stmt.declared_arrivalsAll body

theorem Stmt.declared_arrivalsAll (body : List Stmt) :
    (Stmt.arrivalsAll body).filterMap Arrival.declared? = declaredTexts (Stmt.occurrencesAll body) := by
  match body with
  | [] => rfl
  | s :: rest =>
    rw [Stmt.arrivalsAll, Stmt.occurrencesAll, List.filterMap_append, declaredTexts_append,
      Stmt.declared_arrivals s, Stmt.declared_arrivalsAll rest]

end

/-! ## Tables that receive arrivals -/

namespace SymbolTable

variable {t : SymbolTable} {arrival : Arrival} {arrivals rest : List Arrival}

/-- The table after an arrival. -/
def receive (t : SymbolTable) : Arrival → SymbolTable
  | .declaration name line => t.put (.new name .declared none (some line))
  | .operation => t.fresh.2

/-- The table after arrivals one after another. -/
def receiveAll (t : SymbolTable) (arrivals : List Arrival) : SymbolTable :=
  arrivals.foldl receive t

theorem receiveAll_append (t : SymbolTable) (earlier later : List Arrival) :
    t.receiveAll (earlier ++ later) = (t.receiveAll earlier).receiveAll later :=
  List.foldl_append

theorem allocated_receive (t : SymbolTable) (arrival : Arrival) :
    (t.receive arrival).allocated = t.allocated + arrival.temporaries := by
  cases arrival with
  | declaration name line => rfl
  | operation => exact allocated_fresh t

/-- Each arrival will bring a new symbol: the names are those of a source, new, and declared once, and
the temporaries to come have no symbols yet. -/
structure Awaits (t : SymbolTable) (arrivals : List Arrival) : Prop where
  vacant : t.Vacant
  identifiers : ∀ name ∈ arrivals.filterMap Arrival.declared?, isIdentifier name
  unknown : ∀ name ∈ arrivals.filterMap Arrival.declared?, ¬t.contains name
  distinct : (arrivals.filterMap Arrival.declared?).Nodup

/-- One arrival is received, and the others are awaited still. -/
theorem Awaits.receive (h : t.Awaits (arrival :: rest)) : (t.receive arrival).Awaits rest := by
  obtain ⟨vacant, identifiers, unknown, distinct⟩ := h
  cases arrival with
  | declaration name line =>
    obtain ⟨ident, identifiers⟩ := List.forall_mem_cons.mp identifiers
    obtain ⟨-, unknown⟩ := List.forall_mem_cons.mp unknown
    obtain ⟨once, distinct⟩ := List.nodup_cons.mp distinct
    refine ⟨vacant.put (isIdentifier_ne_temporaryName ident), identifiers, fun other mem => ?_, distinct⟩
    have differs : name ≠ other := fun same => once (same ▸ mem)
    rw [SymbolTable.receive, contains_put, Symbol.name_new, or_iff_right differs]
    exact unknown other mem
  | operation =>
    refine ⟨vacant.fresh, identifiers, fun name mem => ?_, distinct⟩
    have differs : temporaryName t.allocated ≠ name :=
      (isIdentifier_ne_temporaryName (identifiers name mem) t.allocated).symm
    rw [SymbolTable.receive, contains_fresh, or_iff_right differs]
    exact unknown name mem

/-- An arrival that is awaited appends its symbol. -/
theorem Awaits.toList_receive (h : t.Awaits (arrival :: rest)) :
    (t.receive arrival).toList = t.toList ++ [arrival.symbol t.allocated] := by
  cases arrival with
  | declaration name line => exact toList_put (h.unknown name List.mem_cons_self)
  | operation => exact toList_fresh_of_new (h.vacant t.allocated (Nat.le_refl _))

/-- Arrivals that are awaited append their symbols. -/
theorem Awaits.toList_receiveAll (h : t.Awaits arrivals) :
    (t.receiveAll arrivals).toList = t.toList ++ Arrival.symbolsFrom t.allocated arrivals := by
  induction arrivals generalizing t with
  | nil => exact (List.append_nil _).symm
  | cons arrival rest ih =>
    have later : (t.receiveAll (arrival :: rest)).toList =
        (t.receive arrival).toList ++ Arrival.symbolsFrom (t.receive arrival).allocated rest :=
      ih h.receive
    rw [later, h.toList_receive, allocated_receive, List.append_assoc]
    rfl

/-- Behind arrivals that were awaited, the temporaries to come are new again. -/
theorem Awaits.vacant_receiveAll (h : t.Awaits arrivals) : (t.receiveAll arrivals).Vacant := by
  induction arrivals generalizing t with
  | nil => exact h.vacant
  | cons arrival rest ih => exact ih h.receive

end SymbolTable

/-! ## Programs -/

/-- The temporaries of an expression are asked for by its operators. -/
theorem Expr.allocate_operators (e : Expr) (t : SymbolTable) :
    t.allocate e.operators = t.receiveAll e.arrivals := by
  induction e generalizing t with
  | number value => rfl
  | name lexeme => rfl
  | binary op lhs rhs ihl ihr =>
    rw [Expr.operators, allocate_succ, allocate_add, ihl, ihr, Expr.arrivals, receiveAll_append,
      receiveAll_append]
    rfl

mutual

/-- The table after a statement has received its declarations and its operators. -/
theorem Stmt.enter_eq (s : Stmt) (t : SymbolTable) : s.enter t = t.receiveAll s.arrivals := by
  match s with
  | .declare name init line => exact init.allocate_operators _
  | .assign _ value _ => exact value.allocate_operators t
  | .ifThen condition body _ | .loop condition body _ =>
    rw [Stmt.enter, Stmt.enter_eq body, condition.allocate_operators, Stmt.arrivals, receiveAll_append]
  | .ifElse condition body otherwise _ =>
    rw [Stmt.enter, Stmt.enter_eq otherwise, Stmt.enter_eq body, condition.allocate_operators,
      Stmt.arrivals, receiveAll_append, receiveAll_append]
  | .block body => exact Stmt.enterAll_eq body t

theorem Stmt.enterAll_eq (body : List Stmt) (t : SymbolTable) :
    Stmt.enterAll t body = t.receiveAll (Stmt.arrivalsAll body) := by
  match body with
  | [] => rfl
  | s :: rest =>
    rw [Stmt.enterAll, Stmt.enterAll_eq rest, Stmt.enter_eq s, Stmt.arrivalsAll, receiveAll_append]

end

namespace Program

/-- A lowering only appends to its table. Whatever a table was asked for before, its symbols stay as they
are and where they are, also where the lowering fails, and the names of the new ones are new. If the
temporaries to come had no symbols, a lowering that succeeds appends a variable without a value for each
declaration, with its line, and a temporary for each operator, in the order of the arrivals; and the table
can serve the next program in the same way. Which temporary belongs to which operator is told by the
instructions. -/
theorem symbols_lower (requests : List SymbolTable.Request) (program : Program) (source : Source)
    (identifiers : ∀ name ∈ program.names, isIdentifier name) :
    let before := SymbolTable.empty.afterAll requests
    let after := (program.lower source before).2.symbols
    (after.WellKept ∧ ∃ new, after.toList = before.toList ++ new ∧ ∀ s ∈ new, ¬before.contains s.name) ∧
      (before.Vacant → ∀ code, (program.lower source before).1 = .ok code →
        code.toList = Stmt.segmentAll 0 before.allocated program ∧
          after.toList =
              before.toList ++ Arrival.symbolsFrom before.allocated (Stmt.arrivalsAll program) ∧
            after.Vacant) := by
  intro before after
  have kept : before.WellKept := (records_afterAll requests).kept
  obtain ⟨names, gains⟩ : ∃ names, before.Gains names after := exists_gains_of_lower rfl
  refine ⟨⟨gains.wellKept kept, gains.exists_toList⟩, fun vacant code lowered => ?_⟩
  have result : program.lower source before = (.ok code, (program.lower source before).2) :=
    Prod.ext lowered rfl
  obtain ⟨emitted, entered, -⟩ := lower_eq_ok_of_wellKept kept result
  obtain ⟨unknown, distinct⟩ := (gains_of_lower result).names_new
  have declared : (Stmt.arrivalsAll program).filterMap Arrival.declared? = program.declaredNames :=
    Stmt.declared_arrivalsAll program
  have awaits : before.Awaits (Stmt.arrivalsAll program) := by
    refine ⟨vacant, ?_, declared ▸ unknown, declared ▸ distinct⟩
    rw [declared]
    exact fun name mem => identifiers name (program.declaredNames_subset mem)
  have received : after = before.receiveAll (Stmt.arrivalsAll program) :=
    entered.trans (Stmt.enterAll_eq program before)
  exact ⟨emitted, received ▸ awaits.toList_receiveAll, received ▸ awaits.vacant_receiveAll⟩

/-- Two operators, beside a table that has served before and has a temporary already. -/
theorem symbols_lower_again :
    let requests : List SymbolTable.Request :=
      [.declare "a" .declared none (some 1), .fresh, .update "a" 5]
    let a : Lexeme := ⟨"a", ⟨8, 1⟩⟩
    let b : Lexeme := ⟨"b", ⟨4, 1⟩⟩
    let program : Program :=
      [.declare b (.binary .add (.name a) (.binary .mul (.name a) (.number 2))) 1, .assign a (.name b) 2]
    let before := SymbolTable.empty.afterAll requests
    (∀ name ∈ program.names, isIdentifier name) ∧ before.Vacant ∧
      (program.lower ⟨"", none⟩ before).2.symbols.toList =
        before.toList ++ [.new "b" .declared none (some 1), .new "%t1" .temporary none none,
          .new "%t2" .temporary none none] := by
  intro requests a b program before
  have identifiers : ∀ name ∈ program.names, isIdentifier name := by decide
  have spares : ∀ request ∈ requests, request.SparesTemporaries := by
    have ident : isIdentifier "a" := by decide
    simp [requests, Request.SparesTemporaries, isIdentifier_ne_temporaryName ident]
  have vacant : before.Vacant := vacant_afterAll spares
  obtain ⟨code, t, lowered⟩ : ∃ code t, program.lower ⟨"", none⟩ before = (.ok code, t) :=
    exists_lower_of_isOk (by decide +kernel)
  obtain ⟨-, appends⟩ := symbols_lower requests program ⟨"", none⟩ identifiers
  obtain ⟨-, listed, -⟩ := appends vacant code (congrArg Prod.fst lowered)
  exact ⟨identifiers, vacant, listed.trans (congrArg _ (by decide +kernel))⟩

end Program

end ThreeAddress
