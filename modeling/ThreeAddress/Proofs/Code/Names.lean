import ThreeAddress.Proofs.Code.Emission
import ThreeAddress.Proofs.Program.Completeness
import ThreeAddress.Proofs.Program.Failure

/-!
# The first name that offends

A name must be declared before it is used, and only once. Which names of a program break that can be
told from the order of its names alone, and a lowering finds just the first of them: the names in
its table are at any time the ones declared so far, beside temporaries, which no name of a source
can be mistaken for.

## Main definitions

* `Occurrence.OffendsAfter` tells the names that break the rule behind some others, and
  `firstOffence?` finds the first one.
* `Emitter.Checks` says that an action finds the first offence among some occurrences.
* `Program.Offends` tells the names that break the rule by their places in the text.
* `Program.lower_names` is the main result.
-/

namespace ThreeAddress

/-! ## Offences -/

/-- One of the occurrences declares the name. -/
def Declares (occurrences : List Occurrence) (text : String) : Prop :=
  ∃ o ∈ occurrences, o.role = .declared ∧ o.text = text

instance (occurrences : List Occurrence) (text : String) : Decidable (Declares occurrences text) :=
  inferInstanceAs (Decidable (∃ o ∈ occurrences, o.role = .declared ∧ o.text = text))

/-- A declared name offends if it was declared earlier, and any other name if it was not. -/
def Occurrence.OffendsAfter (earlier : List Occurrence) (o : Occurrence) : Prop :=
  if o.role = .declared then Declares earlier o.text else ¬Declares earlier o.text

instance (earlier : List Occurrence) (o : Occurrence) : Decidable (o.OffendsAfter earlier) :=
  inferInstanceAs (Decidable (if o.role = .declared then Declares earlier o.text else
    ¬Declares earlier o.text))

/-- The first of the occurrences that offends, where the occurrences `earlier` come before them. -/
def firstOffence? (earlier : List Occurrence) : List Occurrence → Option Occurrence
  | [] => none
  | o :: later => if o.OffendsAfter earlier then some o else firstOffence? (earlier ++ [o]) later

section

variable {earlier occurrences others : List Occurrence} {o : Occurrence}

/-- The first offence lies in the first part, if there is one. -/
theorem firstOffence?_append (earlier occurrences others : List Occurrence) :
    firstOffence? earlier (occurrences ++ others) =
      (firstOffence? earlier occurrences).or (firstOffence? (earlier ++ occurrences) others) := by
  induction occurrences generalizing earlier with
  | nil => simp [firstOffence?]
  | cons o later ih =>
    rw [List.cons_append, firstOffence?, firstOffence?]
    split
    · rfl
    · rw [ih, List.append_assoc, List.singleton_append]

theorem firstOffence?_eq_none_iff :
    firstOffence? earlier occurrences = none ↔
      ∀ passed o later, occurrences = passed ++ o :: later → ¬o.OffendsAfter (earlier ++ passed) := by
  induction occurrences generalizing earlier with
  | nil => simp [firstOffence?]
  | cons o later ih =>
    rw [firstOffence?]
    by_cases offends : o.OffendsAfter earlier
    · rw [if_pos offends]
      exact ⟨nofun, fun clean => absurd offends (by simpa using clean [] o later rfl)⟩
    · rw [if_neg offends, ih]
      constructor
      · intro clean passed o' later' split
        cases passed with
        | nil =>
          cases split
          simpa using offends
        | cons p passed =>
          cases split
          simpa using clean passed o' later' rfl
      · intro clean passed o' later' split
        simpa using clean (o :: passed) o' later' (by rw [split, List.cons_append])

theorem firstOffence?_eq_some_iff :
    firstOffence? earlier occurrences = some o ↔
      ∃ passed later, occurrences = passed ++ o :: later ∧ firstOffence? earlier passed = none ∧
        o.OffendsAfter (earlier ++ passed) := by
  constructor
  · intro found
    induction occurrences generalizing earlier with
    | nil => cases found
    | cons p others ih =>
      rw [firstOffence?] at found
      split at found
      next offends =>
        cases found
        exact ⟨[], others, rfl, rfl, by simpa using offends⟩
      next clean =>
        obtain ⟨passed, later, rfl, none, offends⟩ := ih found
        exact ⟨p :: passed, later, rfl, by rw [firstOffence?, if_neg clean, none],
          by simpa using offends⟩
  · rintro ⟨passed, later, rfl, none, offends⟩
    rw [firstOffence?_append, none, Option.none_or, firstOffence?, if_pos offends]

/-! ## Tables that know the declared names -/

/-- The names of a source that are in the table are the declared ones. -/
def SymbolTable.Knows (t : SymbolTable) (earlier : List Occurrence) : Prop :=
  ∀ text, isIdentifier text → (t.contains text ↔ Declares earlier text)

theorem SymbolTable.knows_empty : empty.Knows [] := by
  intro text _
  simp [Declares, empty, contains, get?]

/-- A name that is not declared changes nothing. -/
theorem SymbolTable.Knows.append {t : SymbolTable} (h : t.Knows earlier) (other : o.role ≠ .declared) :
    t.Knows (earlier ++ [o]) := by
  intro text ident
  simp [h text ident, Declares, or_and_right, exists_or, other]

end

/-- The error is what comes of an offence: it is of the kind that the role of the name asks for, and it
is located at the name. -/
structure Occurrence.Faults (source : Source) (o : Occurrence) (error : Diagnostic NameFault) : Prop where
  kind : if o.role = .declared then ∃ line, error.kind = .redeclared o.text (some line)
    else error.kind = .undeclared o.text
  file : error.file = source.file
  snippet : error.snippet = source.locate? o.name.span.offset

namespace Emitter

variable {α β : Type} {source : Source} {occurrences others : List Occurrence}

/-- Beside a table that knows the names declared so far, the action goes through just if none of the
occurrences offends, and then the table knows their names too; otherwise it fails for the first
that does. -/
def Checks (source : Source) (action : Emitter α) (occurrences : List Occurrence) : Prop :=
  ∀ ⦃t earlier⦄, t.symbols.Knows earlier →
    match action t with
    | .ok _ t' => firstOffence? earlier occurrences = none ∧ t'.symbols.Knows (earlier ++ occurrences)
    | .error error _ => ∃ o, firstOffence? earlier occurrences = some o ∧ o.Faults source error

theorem Checks.bind {action : Emitter α} {next : α → Emitter β} (first : action.Checks source occurrences)
    (then_ : ∀ a, (next a).Checks source others) :
    (action >>= next).Checks source (occurrences ++ others) := by
  intro t earlier known
  have checked := first known
  simp only [Bind.bind, EStateM.bind]
  -- a failure of the first action hides what the second one would find
  rw [firstOffence?_append]
  generalize action t = result at checked ⊢
  cases result with
  | error error t' =>
    obtain ⟨o, offends, faults⟩ := checked
    exact ⟨o, by rw [offends, Option.some_or], faults⟩
  | ok a t' =>
    obtain ⟨clean, known'⟩ := checked
    rw [clean, Option.none_or, ← List.append_assoc]
    exact then_ a known'

theorem Checks.bind_silent {action : Emitter α} {next : α → Emitter β}
    (first : action.Checks source occurrences) (silent : ∀ a, (next a).Checks source []) :
    (action >>= next).Checks source occurrences := by
  simpa using first.bind silent

theorem checks_pure (a : α) : (pure a : Emitter α).Checks source [] := by
  intro t earlier known
  exact ⟨rfl, by simpa using known⟩

/-- An action that cannot fail and leaves the names of the source as they are. -/
theorem checks_of_contains {action : Emitter α} (goes : ∀ t, ∃ a t', action t = .ok a t' ∧
    ∀ text, isIdentifier text → (t'.symbols.contains text ↔ t.symbols.contains text)) :
    action.Checks source [] := by
  intro t earlier known
  obtain ⟨a, t', result, same⟩ := goes t
  rw [result]
  refine ⟨rfl, fun text ident => ?_⟩
  rw [same text ident, known text ident, List.append_nil]

theorem checks_emit (instruction : Instruction) : (emit instruction).Checks source [] :=
  checks_of_contains fun _ => ⟨_, _, rfl, fun _ _ => .rfl⟩

theorem checks_newLabel : newLabel.Checks source [] :=
  checks_of_contains fun _ => ⟨_, _, rfl, fun _ _ => .rfl⟩

/-- A temporary is no name of a source. -/
theorem checks_newTemporary : newTemporary.Checks source [] := by
  refine checks_of_contains fun t => ⟨_, _, rfl, fun text ident => ?_⟩
  have differs := (SymbolTable.isIdentifier_ne_temporaryName ident t.symbols.allocated).symm
  exact (SymbolTable.contains_fresh _ _).trans (or_iff_right differs)

theorem Checks.within {action : Emitter α} (context : String) (h : action.Checks source occurrences) :
    (within context action).Checks source occurrences := by
  intro t earlier known
  have checked := h known
  simp only [Emitter.within]
  generalize action t = result at checked ⊢
  cases result with
  | ok => exact checked
  | error =>
    obtain ⟨o, offends, faults⟩ := checked
    exact ⟨o, offends, faults.kind, faults.file, faults.snippet⟩

/-- A name that is assigned or used is looked up. -/
theorem checks_require {role : Role} {name : Lexeme} (other : role ≠ .declared)
    (ident : isIdentifier name.text) : (require source name).Checks source [⟨role, name⟩] := by
  intro t earlier known
  have same : t.symbols.contains name.text ↔ Declares earlier name.text := known _ ident
  rw [require, get_bind]
  by_cases has : t.symbols.contains name.text
  · have clean : ¬Occurrence.OffendsAfter earlier ⟨role, name⟩ := by
      simpa [Occurrence.OffendsAfter, other, Occurrence.text] using same.mp has
    rw [has]
    exact ⟨by rw [firstOffence?, if_neg clean, firstOffence?], known.append other⟩
  · have offends : Occurrence.OffendsAfter earlier ⟨role, name⟩ := by
      simpa [Occurrence.OffendsAfter, other, Occurrence.text] using mt same.mpr has
    rw [Bool.not_eq_true] at has
    rw [has]
    refine ⟨⟨role, name⟩, by rw [firstOffence?, if_pos offends], ?_, rfl, rfl⟩
    rw [if_neg other]
    rfl

/-- A name that is declared must be new. -/
theorem checks_declare {name : Lexeme} (ident : isIdentifier name.text) (line : Nat) :
    (Emitter.declare source name line).Checks source [⟨.declared, name⟩] := by
  intro t earlier known
  have same : t.symbols.contains name.text ↔ Declares earlier name.text := known _ ident
  rw [Emitter.declare, get_bind, SymbolTable.declare, Symbol.name_new]
  by_cases has : t.symbols.contains name.text
  · have offends : Occurrence.OffendsAfter earlier ⟨.declared, name⟩ := same.mp has
    rw [if_pos has]
    exact ⟨⟨.declared, name⟩, by rw [firstOffence?, if_pos offends], ⟨line, rfl⟩, rfl, rfl⟩
  · have clean : ¬Occurrence.OffendsAfter earlier ⟨.declared, name⟩ := mt same.mpr has
    rw [if_neg has]
    refine ⟨by rw [firstOffence?, if_neg clean, firstOffence?], fun text ident => ?_⟩
    have put := SymbolTable.contains_put t.symbols (.new name.text .declared none (some line)) text
    refine put.trans ?_
    simp [known text ident, Declares, or_and_right, exists_or, Occurrence.text, or_comm]

end Emitter

/-! ## Programs -/

open Emitter

section

variable {source : Source}

/-- The names of an expression are looked up from the left to the right. -/
theorem Expr.checks_lower (e : Expr) (ident : ∀ o ∈ e.occurrences, isIdentifier o.text) :
    (e.lower source).Checks source e.occurrences := by
  induction e with
  | number value => exact checks_pure _
  | name lexeme =>
    have known := ident ⟨.used, lexeme⟩ (List.mem_singleton_self _)
    exact (checks_require (nofun : Role.used ≠ .declared) known).bind_silent fun _ => checks_pure _
  | binary op lhs rhs ihl ihr =>
    obtain ⟨left, right⟩ := List.forall_mem_append.mp ident
    exact (ihl left).bind fun _ => (ihr right).bind_silent fun _ => checks_newTemporary.bind fun _ =>
      (checks_emit _).bind fun _ => checks_pure _

mutual

/-- The names of a statement are looked up in the order of its text. -/
theorem Stmt.checks_lower (s : Stmt) (ident : ∀ o ∈ s.occurrences, isIdentifier o.text) :
    (s.lower source).Checks source s.occurrences := by
  match s with
  | .declare name init line =>
    obtain ⟨here, inside⟩ := List.forall_mem_cons.mp ident
    exact (checks_declare here line).bind fun _ => (init.checks_lower inside).bind_silent fun _ =>
      checks_emit _
  | .assign name value _ =>
    obtain ⟨here, inside⟩ := List.forall_mem_cons.mp ident
    exact (checks_require (nofun : Role.assigned ≠ .declared) here).bind fun _ => (value.checks_lower inside).bind_silent fun _ =>
      checks_emit _
  | .ifThen condition body _ =>
    obtain ⟨test, inside⟩ := List.forall_mem_append.mp ident
    exact (condition.checks_lower test).bind fun _ => checks_newLabel.bind fun _ =>
      (checks_emit _).bind fun _ => ((Stmt.checks_lower body inside).within _).bind_silent fun _ =>
        checks_emit _
  | .ifElse condition body otherwise _ =>
    obtain ⟨first, second⟩ := List.forall_mem_append.mp ident
    obtain ⟨test, inside⟩ := List.forall_mem_append.mp first
    rw [Stmt.occurrences, List.append_assoc]
    exact (condition.checks_lower test).bind fun _ => checks_newLabel.bind fun _ =>
      checks_newLabel.bind fun _ => (checks_emit _).bind fun _ =>
        ((Stmt.checks_lower body inside).within _).bind fun _ => (checks_emit _).bind fun _ =>
          (checks_emit _).bind fun _ => ((Stmt.checks_lower otherwise second).within _).bind_silent
            fun _ => checks_emit _
  | .loop condition body _ =>
    obtain ⟨test, inside⟩ := List.forall_mem_append.mp ident
    exact checks_newLabel.bind fun _ => checks_newLabel.bind fun _ => (checks_emit _).bind fun _ =>
      (condition.checks_lower test).bind fun _ => (checks_emit _).bind fun _ =>
        ((Stmt.checks_lower body inside).within _).bind_silent fun _ =>
          (checks_emit _).bind fun _ => checks_emit _
  | .block body => exact Stmt.checks_lowerAll body ident

theorem Stmt.checks_lowerAll (body : List Stmt)
    (ident : ∀ o ∈ Stmt.occurrencesAll body, isIdentifier o.text) :
    (Stmt.lowerAll source body).Checks source (Stmt.occurrencesAll body) := by
  match body with
  | [] => exact checks_pure _
  | s :: rest =>
    obtain ⟨first, others⟩ := List.forall_mem_append.mp ident
    exact (Stmt.checks_lower s first).bind fun _ => Stmt.checks_lowerAll rest others

end

end

/-! ## Names are tokens -/

/-- The lexemes of the names among some tokens. -/
def identifiers (ts : List Token) : List Lexeme :=
  (ts.filter fun t => t.kind = .identifier).map Token.lexeme

section

variable {t : Token} {ts us : List Token}

@[simp] theorem identifiers_nil : identifiers [] = [] := rfl

@[simp] theorem identifiers_append : identifiers (ts ++ us) = identifiers ts ++ identifiers us := by
  simp [identifiers]

theorem identifiers_cons_of_eq (kind : t.kind = .identifier) :
    identifiers (t :: ts) = t.lexeme :: identifiers ts := by
  simp [identifiers, kind]

theorem identifiers_cons_of_ne (kind : t.kind ≠ .identifier) : identifiers (t :: ts) = identifiers ts := by
  simp [identifiers, kind]

end

/-- The names of an expression are the names among its tokens. -/
theorem Expr.Derives.map_name_occurrences {part : Part} {ts : List Token} {e : Expr} {n : Nat}
    (h : Derives part ts e n) : e.occurrences.map Occurrence.name = identifiers ts := by
  induction h with
  | number kind => rw [identifiers_cons_of_ne (by simp [kind])]; rfl
  | name kind => rw [identifiers_cons_of_eq kind]; rfl
  | parens opens _ closes ih =>
    rw [identifiers_cons_of_ne (by simp [opens]), identifiers_append,
      identifiers_cons_of_ne (by simp [closes]), ih, identifiers_nil, List.append_nil]
  | factor _ ih | term _ ih | comparison _ ih | first _ ih | whole _ ih => exact ih
  | next _ _ sign _ ihl ihr =>
    rw [identifiers_append, identifiers_cons_of_ne (by simp [sign, Operator.token]), ← ihl, ← ihr,
      occurrences, List.map_append]

mutual

/-- The names of a statement are the names among its tokens. -/
theorem Stmt.Derives.map_name_occurrences {ts : List Token} {s : Stmt} {n : Nat}
    (h : Stmt.Derives ts s n) : s.occurrences.map Occurrence.name = identifiers ts := by
  cases h with
  | declare declares named assigns value ends =>
    simp [Stmt.occurrences, value.map_name_occurrences, identifiers_cons_of_eq, identifiers_cons_of_ne,
      declares, named, assigns, ends]
  | assign named assigns value ends =>
    simp [Stmt.occurrences, value.map_name_occurrences, identifiers_cons_of_eq, identifiers_cons_of_ne,
      named, assigns, ends]
  | ifThen starts opens tests closes inside | loop starts opens tests closes inside =>
    simp [Stmt.occurrences, tests.map_name_occurrences, inside.map_name_occurrences,
      identifiers_cons_of_ne, starts, opens, closes]
  | ifElse asks opens tests closes inside _ turns elsewhere =>
    simp [Stmt.occurrences, tests.map_name_occurrences, inside.map_name_occurrences,
      elsewhere.map_name_occurrences, identifiers_cons_of_ne, asks, opens, closes, turns]
  | block opens inside closes =>
    simp [Stmt.occurrences, inside.map_name_occurrences, identifiers_cons_of_ne, opens, closes]

theorem Stmt.DerivesAll.map_name_occurrences {ts : List Token} {body : List Stmt} {n : Nat}
    (h : Stmt.DerivesAll ts body n) :
    (Stmt.occurrencesAll body).map Occurrence.name = identifiers ts := by
  cases h with
  | nil => rfl
  | cons first others =>
    rw [Stmt.occurrencesAll, List.map_append, first.map_name_occurrences,
      others.map_name_occurrences, identifiers_append]

end

/-- A program that is read from a source is derived from all tokens before the end of the input. -/
theorem Program.exists_derives_of_tokenize {source : Source} {tokens : List Token} {program : Program}
    (lexed : source.tokenize = .ok tokens) (parsed : Program.ofTokens source tokens = .ok program) :
    ∃ ts n, tokens = ts ++ [source.endToken] ∧ (∀ t ∈ ts, t.kind.HasText t.text.toList) ∧
      Stmt.DerivesAll ts program n := by
  obtain ⟨ts, rfl, hasText⟩ := Source.exists_of_tokenize lexed
  obtain ⟨n, -, derived⟩ := Program.ofTokens_eq_ok_iff.mp parsed
  have present : ∀ t ∈ ts, t.kind ≠ .eof := by
    intro t mem isEnd
    have text := hasText t mem
    rw [isEnd] at text
    exact text
  rw [Program.takeWhile_of_kindOf present rfl] at derived
  exact ⟨ts, n, rfl, hasText, derived⟩

/-- A program that is read from a source has the names of the source, one after another. -/
theorem Program.occurrences_of_tokenize {source : Source} {tokens : List Token} {program : Program}
    (lexed : source.tokenize = .ok tokens) (parsed : Program.ofTokens source tokens = .ok program) :
    (Stmt.occurrencesAll program).map Occurrence.name = identifiers tokens ∧
      (∀ o ∈ Stmt.occurrencesAll program, isIdentifier o.text) ∧
      (Stmt.occurrencesAll program).Pairwise fun o o' => o.name.span.offset < o'.name.span.offset := by
  obtain ⟨ts, n, rfl, hasText, derived⟩ := exists_derives_of_tokenize lexed parsed
  have names : (Stmt.occurrencesAll program).map Occurrence.name =
      identifiers (ts ++ [source.endToken]) := by
    rw [derived.map_name_occurrences, identifiers_append, identifiers_cons_of_ne (t := source.endToken) nofun,
      identifiers_nil, List.append_nil]
  refine ⟨names, fun o mem => ?_, ?_⟩
  · have named : o.name ∈ identifiers ts := by
      rw [← derived.map_name_occurrences]
      exact List.mem_map_of_mem mem
    obtain ⟨t, found, lexeme⟩ := List.mem_map.mp named
    obtain ⟨mem, kind⟩ := List.mem_filter.mp found
    have text := hasText t mem
    rw [of_decide_eq_true kind] at text
    rw [Occurrence.text, ← lexeme, ← String.ofList_toList (s := t.lexeme.text)]
    exact text.1
  · have ordered := (Source.pairwise_of_tokenize lexed).imp And.left
    have lexemes : (identifiers (ts ++ [source.endToken])).Pairwise fun l l' =>
        l.span.offset < l'.span.offset :=
      List.pairwise_map.mpr (ordered.filter _)
    rwa [← names, List.pairwise_map] at lexemes

/-! ## The first offence -/

namespace Program

/-- The names of a program that come before a name in the text. -/
def before (program : Program) (o : Occurrence) : List Occurrence :=
  (Stmt.occurrencesAll program).filter fun d => d.name.span.offset < o.name.span.offset

/-- The name offends against those that come before it in the text. -/
def Offends (program : Program) (o : Occurrence) : Prop :=
  o.OffendsAfter (program.before o)

variable {program : Program} {o : Occurrence}

/-- Where names have their places in order, the ones before a name in the list are those before it in
the text. -/
theorem before_eq {passed later : List Occurrence}
    (ordered : (Stmt.occurrencesAll program).Pairwise fun o o' =>
      o.name.span.offset < o'.name.span.offset)
    (split : Stmt.occurrencesAll program = passed ++ o :: later) : program.before o = passed := by
  rw [split] at ordered
  obtain ⟨-, behind, front⟩ := List.pairwise_append.mp ordered
  rw [before, split, List.filter_append, List.filter_eq_self.mpr, List.filter_eq_nil_iff.mpr,
    List.append_nil]
  · intro d mem
    rcases List.mem_cons.mp mem with rfl | mem
    · simp
    · have := (List.pairwise_cons.mp behind).1 d mem
      simp [Nat.le_of_lt this]
  · intro d mem
    simpa using front d mem o (List.mem_cons_self ..)

section

variable (ordered : (Stmt.occurrencesAll program).Pairwise fun o o' =>
  o.name.span.offset < o'.name.span.offset)

include ordered

theorem offends_iff {passed later : List Occurrence}
    (split : Stmt.occurrencesAll program = passed ++ o :: later) :
    program.Offends o ↔ o.OffendsAfter passed := by
  rw [Offends, before_eq ordered split]

/-- No offence is found just if there is none. -/
theorem firstOffence?_eq_none_iff_not_offends :
    firstOffence? [] (Stmt.occurrencesAll program) = none ↔
      ∀ o ∈ Stmt.occurrencesAll program, ¬program.Offends o := by
  rw [firstOffence?_eq_none_iff]
  constructor
  · intro clean o mem
    obtain ⟨passed, later, split⟩ := List.append_of_mem mem
    rw [offends_iff ordered split]
    exact clean passed o later split
  · intro clean passed o later split
    rw [List.nil_append, ← offends_iff ordered split]
    exact clean o (by simp [split])

/-- The offence that is found is the first one in the text. -/
theorem least_of_firstOffence? (found : firstOffence? [] (Stmt.occurrencesAll program) = some o) :
    o ∈ Stmt.occurrencesAll program ∧ program.Offends o ∧
      ∀ o' ∈ Stmt.occurrencesAll program, program.Offends o' →
        o.name.span.offset ≤ o'.name.span.offset := by
  obtain ⟨passed, later, split, clean, offends⟩ := firstOffence?_eq_some_iff.mp found
  refine ⟨by simp [split], (offends_iff ordered split).mpr offends, fun o' mem offends' => ?_⟩
  -- a name that lies before the first offence was found clean
  refine Nat.le_of_not_lt fun lt => ?_
  have front : o' ∈ program.before o := List.mem_filter.mpr ⟨mem, by simpa using lt⟩
  rw [before_eq ordered split] at front
  obtain ⟨passed', later', rfl⟩ := List.append_of_mem front
  rw [offends_iff ordered (by rw [split, List.append_assoc, List.cons_append])] at offends'
  exact firstOffence?_eq_none_iff.mp clean passed' o' later' rfl offends'

end

/-- The names of a program that is read from a source are checked in the order of the text. Without
an offence the program is lowered. Otherwise it is refused for the first name that offends, at the
place of that name, and as that name's role asks for. -/
theorem lower_names {source : Source} {tokens : List Token} {program : Program}
    (lexed : source.tokenize = .ok tokens) (parsed : Program.ofTokens source tokens = .ok program) :
    (Stmt.occurrencesAll program).map Occurrence.name = identifiers tokens ∧
      ((∃ code, (program.lower source .empty).1 = .ok code) ↔
        ∀ o ∈ Stmt.occurrencesAll program, ¬program.Offends o) ∧
      ∀ error, (program.lower source .empty).1 = .error error →
        ∃ o ∈ Stmt.occurrencesAll program, program.Offends o ∧
          (∀ o' ∈ Stmt.occurrencesAll program, program.Offends o' →
            o.name.span.offset ≤ o'.name.span.offset) ∧
          o.Faults source error ∧
          ∃ t ∈ tokens, t.lexeme = o.name ∧ error.position = some t.position := by
  obtain ⟨names, ident, ordered⟩ := occurrences_of_tokenize lexed parsed
  have checks : (Stmt.lowerAll source program).Checks source (Stmt.occurrencesAll program) :=
    Stmt.checks_lowerAll program ident
  have checked := checks (t := .start .empty) SymbolTable.knows_empty
  simp only [lower]
  generalize Stmt.lowerAll source program (.start .empty) = result at checked ⊢
  cases result with
  | ok _ last =>
    have clean := (firstOffence?_eq_none_iff_not_offends ordered).mp checked.1
    refine ⟨names, ⟨fun _ => clean, fun _ => ⟨_, rfl⟩⟩, ?_⟩
    rintro error ⟨⟩
  | error refused last =>
    obtain ⟨o, found, faults⟩ := checked
    obtain ⟨mem, offends, least⟩ := least_of_firstOffence? ordered found
    refine ⟨names, ⟨?_, fun none => absurd offends (none o mem)⟩, ?_⟩
    · rintro ⟨_, ⟨⟩⟩
    rintro error ⟨⟩
    have named : o.name ∈ identifiers tokens := names ▸ List.mem_map_of_mem mem
    obtain ⟨t, kept, lexeme⟩ := List.mem_map.mp named
    have inside : t ∈ tokens := (List.mem_filter.mp kept).1
    refine ⟨o, mem, offends, least, faults, t, inside, lexeme, ?_⟩
    rw [Diagnostic.position, faults.snippet, ← lexeme]
    exact ((Source.position_tokens (Cursor.stands_ofSource source)).1 tokens lexed).2 t inside

/-- A name that is used in its own initializer and behind the block that declares it, then one that
nothing declares, and a name that is declared again. -/
theorem lower_names_block :
    let source : Source := ⟨"if (1) { var b = b; } var a = b; a = c; var a = 2;", none⟩
    ∃ tokens program, source.tokenize = .ok tokens ∧ Program.ofTokens source tokens = .ok program ∧
      ∃ o ∈ Stmt.occurrencesAll program, o.text = "c" ∧ program.Offends o ∧
        ∀ o' ∈ Stmt.occurrencesAll program, program.Offends o' →
          o.name.span.offset ≤ o'.name.span.offset := by
  intro source
  obtain ⟨tokens, program, lexed, parsed, fails⟩ : ∃ tokens program, source.tokenize = .ok tokens ∧
      Program.ofTokens source tokens = .ok program ∧
      (match (program.lower source .empty).1 with
        | .error error => decide (error.kind = .undeclared "c")
        | .ok _ => false) = true :=
    exists_of_read (p := fun program => match (program.lower source .empty).1 with
      | .error error => decide (error.kind = .undeclared "c")
      | .ok _ => false) (by decide +kernel)
  split at fails
  next error lowered =>
    obtain ⟨-, -, first⟩ := lower_names lexed parsed
    obtain ⟨o, mem, offends, least, faults, -⟩ := first error lowered
    have kind := faults.kind
    rw [of_decide_eq_true fails] at kind
    split at kind
    next =>
      obtain ⟨_, other⟩ := kind
      cases other
    next =>
      exact ⟨tokens, program, lexed, parsed, o, mem, (NameFault.undeclared.inj kind).symm, offends,
        least⟩
  next => cases fails

end Program

end ThreeAddress
