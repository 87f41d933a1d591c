import ThreeAddress.Proofs.Code.Names
import ThreeAddress.Proofs.Text.Snippet
import Mathlib.Data.List.Nodup

/-!
# The branches around a name

A lowering that fails tells which branches it was in. Each choice and each loop adds one context while
the failure leaves its branch or its body; conditions and blocks add none. So the contexts are the
branches around the name that the failure is about, read from the inside to the outside.

## Main definitions

* `Branch` is a part of a statement that may be left out or repeated; `Branch.activity` names it.
* `Mention` is a name with the branches around it, and `Stmt.mentions` lists those of a statement.
* `Mention.Faults` says that an error is about a name and tells the branches around it.
* `Emitter.FailsFor` says that an action fails for nothing but some mentions.
* `Program.contexts_lower` is the main result.
-/

namespace ThreeAddress

/-! ## Names and branches -/

/-- A part of a statement that a condition decides about: a branch of a choice, or the body of a loop. -/
inductive Branch where
  | consequent
  | alternative
  | body
deriving DecidableEq

/-- What a failure inside the branch interrupts. -/
def Branch.activity : Branch → String
  | consequent => "compiling if branch"
  | alternative => "compiling else branch"
  | body => "compiling loop body"

/-- A name at one place of a program, with the branches around it, the outermost first, and the line of
the statement that it stands in. -/
structure Mention where
  branches : List Branch
  line : Nat
  occurrence : Occurrence
deriving DecidableEq

namespace Mention

/-- The same name, seen from outside of one more branch. -/
def inside (b : Branch) (m : Mention) : Mention :=
  { m with branches := b :: m.branches }

/-- The activities around the name, the innermost first. -/
def activities (m : Mention) : List String :=
  m.branches.reverse.map Branch.activity

theorem activities_inside (b : Branch) (m : Mention) :
    (m.inside b).activities = m.activities ++ [b.activity] := by
  simp [activities, inside]

end Mention

mutual

/-- The names of a statement in the order of its text, with the branches that lie between them and the
statement. -/
def Stmt.mentions : Stmt → List Mention
  | .declare name init line => (⟨.declared, name⟩ :: init.occurrences).map (.mk [] line)
  | .assign name value line => (⟨.assigned, name⟩ :: value.occurrences).map (.mk [] line)
  | .ifThen condition body line =>
    condition.occurrences.map (.mk [] line) ++ body.mentions.map (.inside .consequent)
  | .ifElse condition body otherwise line =>
    condition.occurrences.map (.mk [] line) ++ body.mentions.map (.inside .consequent) ++
      otherwise.mentions.map (.inside .alternative)
  | .loop condition body line =>
    condition.occurrences.map (.mk [] line) ++ body.mentions.map (.inside .body)
  | .block body => Stmt.mentionsAll body

/-- The names of statements one after another. -/
def Stmt.mentionsAll : List Stmt → List Mention
  | [] => []
  | s :: rest => s.mentions ++ Stmt.mentionsAll rest

end

theorem map_occurrence_mk (line : Nat) (occurrences : List Occurrence) :
    (occurrences.map (Mention.mk [] line)).map Mention.occurrence = occurrences := by
  rw [List.map_map]
  exact List.map_id _

theorem map_occurrence_inside (b : Branch) (mentions : List Mention) :
    (mentions.map (.inside b)).map Mention.occurrence = mentions.map Mention.occurrence :=
  List.map_map

mutual

/-- Every name of a statement is mentioned once. -/
theorem Stmt.map_occurrence_mentions (s : Stmt) : s.mentions.map Mention.occurrence = s.occurrences := by
  match s with
  | .declare .. | .assign .. => exact map_occurrence_mk ..
  | .ifThen condition body _ | .loop condition body _ =>
    rw [mentions, occurrences, List.map_append, map_occurrence_mk, map_occurrence_inside,
      body.map_occurrence_mentions]
  | .ifElse condition body otherwise _ =>
    rw [mentions, occurrences, List.map_append, List.map_append, map_occurrence_mk,
      map_occurrence_inside, map_occurrence_inside, body.map_occurrence_mentions,
      otherwise.map_occurrence_mentions]
  | .block body => exact Stmt.map_occurrence_mentionsAll body

theorem Stmt.map_occurrence_mentionsAll (body : List Stmt) :
    (Stmt.mentionsAll body).map Mention.occurrence = Stmt.occurrencesAll body := by
  match body with
  | [] => rfl
  | s :: rest =>
    rw [mentionsAll, occurrencesAll, List.map_append, s.map_occurrence_mentions,
      Stmt.map_occurrence_mentionsAll rest]

end

/-! ## Failures of actions -/

/-- The error is about the name: of the kind that its role asks for, located at the name, with the line
of its statement if the name was to be declared, and with the activities around it. -/
structure Mention.Faults (source : Source) (m : Mention) (error : Diagnostic NameFault) : Prop where
  offence : m.occurrence.Faults source error
  line : m.occurrence.role = .declared → error.kind = .redeclared m.occurrence.text (some m.line)
  contexts : error.contexts = m.activities

namespace Emitter

variable {α β : Type} {source : Source} {mentions others : List Mention}

/-- The action fails for nothing but one of the mentions. -/
def FailsFor (source : Source) (action : Emitter α) (mentions : List Mention) : Prop :=
  ∀ ⦃t error t'⦄, action t = .error error t' → ∃ m ∈ mentions, m.Faults source error

theorem FailsFor.bind {action : Emitter α} {next : α → Emitter β}
    (first : action.FailsFor source mentions) (then_ : ∀ a, (next a).FailsFor source others) :
    (action >>= next).FailsFor source (mentions ++ others) := by
  intro t error t' failed
  simp only [Bind.bind, EStateM.bind] at failed
  cases result : action t with
  | error error₁ t₁ =>
    rw [result] at failed
    cases failed
    obtain ⟨m, mem, faults⟩ := first result
    exact ⟨m, List.mem_append_left _ mem, faults⟩
  | ok a t₁ =>
    rw [result] at failed
    obtain ⟨m, mem, faults⟩ := then_ a failed
    exact ⟨m, List.mem_append_right _ mem, faults⟩

theorem FailsFor.bind_silent {action : Emitter α} {next : α → Emitter β}
    (first : action.FailsFor source mentions) (silent : ∀ a, (next a).FailsFor source []) :
    (action >>= next).FailsFor source mentions := by
  simpa using first.bind silent

/-- An action that always goes through. -/
theorem failsFor_of_ok {action : Emitter α} (goes : ∀ t, ∃ a t', action t = .ok a t') :
    action.FailsFor source [] := by
  intro t error t' failed
  obtain ⟨a, t₁, result⟩ := goes t
  rw [result] at failed
  cases failed

theorem failsFor_pure (a : α) : (pure a : Emitter α).FailsFor source [] :=
  failsFor_of_ok fun _ => ⟨_, _, rfl⟩

theorem failsFor_emit (instruction : Instruction) : (emit instruction).FailsFor source [] :=
  failsFor_of_ok fun _ => ⟨_, _, rfl⟩

theorem failsFor_newLabel : newLabel.FailsFor source [] :=
  failsFor_of_ok fun _ => ⟨_, _, rfl⟩

theorem failsFor_newTemporary : newTemporary.FailsFor source [] :=
  failsFor_of_ok fun _ => ⟨_, _, rfl⟩

/-- A failure that leaves a branch tells the branch. -/
theorem FailsFor.within {action : Emitter α} (b : Branch) (h : action.FailsFor source mentions) :
    (within b.activity action).FailsFor source (mentions.map (.inside b)) := by
  intro t error t' failed
  simp only [Emitter.within] at failed
  cases result : action t with
  | ok a t₁ =>
    rw [result] at failed
    cases failed
  | error error₁ t₁ =>
    rw [result] at failed
    cases failed
    obtain ⟨m, mem, faults⟩ := h result
    refine ⟨m.inside b, List.mem_map_of_mem mem,
      ⟨faults.offence.kind, faults.offence.file, faults.offence.snippet⟩, faults.line, ?_⟩
    rw [Mention.activities_inside, ← faults.contexts]
    rfl

theorem failsFor_require {role : Role} {name : Lexeme} (other : role ≠ .declared) (line : Nat) :
    (require source name).FailsFor source [⟨[], line, ⟨role, name⟩⟩] := by
  intro t error t' failed
  rw [require, get_bind] at failed
  cases known : t.symbols.contains name.text with
  | true =>
    rw [known] at failed
    cases failed
  | false =>
    rw [known] at failed
    cases failed
    refine ⟨_, List.mem_singleton_self _, ⟨?_, rfl, rfl⟩, fun declared => absurd declared other, rfl⟩
    rw [if_neg other]
    rfl

theorem failsFor_declare (name : Lexeme) (line : Nat) :
    (Emitter.declare source name line).FailsFor source [⟨[], line, ⟨.declared, name⟩⟩] := by
  intro t error t' failed
  rw [Emitter.declare, get_bind, SymbolTable.declare, Symbol.name_new] at failed
  by_cases known : t.symbols.contains name.text
  · rw [if_pos known] at failed
    cases failed
    exact ⟨_, List.mem_singleton_self _, ⟨⟨line, rfl⟩, rfl, rfl⟩, fun _ => rfl, rfl⟩
  · rw [if_neg known] at failed
    cases failed

end Emitter

/-! ## Programs -/

open Emitter

section

variable {source : Source}

theorem Expr.failsFor_lower (e : Expr) (line : Nat) :
    (e.lower source).FailsFor source (e.occurrences.map (.mk [] line)) := by
  induction e with
  | number value => exact failsFor_pure _
  | name lexeme =>
    exact (failsFor_require (nofun : Role.used ≠ .declared) line).bind_silent fun _ => failsFor_pure _
  | binary op lhs rhs ihl ihr =>
    rw [occurrences, List.map_append]
    exact ihl.bind fun _ => ihr.bind_silent fun _ => failsFor_newTemporary.bind fun _ =>
      (failsFor_emit _).bind fun _ => failsFor_pure _

mutual

/-- A statement fails for one of its names, with the branches around that name. -/
theorem Stmt.failsFor_lower (s : Stmt) : (s.lower source).FailsFor source s.mentions := by
  match s with
  | .declare name init line =>
    exact (failsFor_declare name line).bind fun _ => (init.failsFor_lower line).bind_silent fun _ =>
      failsFor_emit _
  | .assign name value line =>
    exact (failsFor_require (nofun : Role.assigned ≠ .declared) line).bind fun _ =>
      (value.failsFor_lower line).bind_silent fun _ => failsFor_emit _
  | .ifThen condition body line =>
    exact (condition.failsFor_lower line).bind fun _ => failsFor_newLabel.bind fun _ =>
      (failsFor_emit _).bind fun _ => (body.failsFor_lower.within .consequent).bind_silent fun _ =>
        failsFor_emit _
  | .ifElse condition body otherwise line =>
    rw [mentions, List.append_assoc]
    exact (condition.failsFor_lower line).bind fun _ => failsFor_newLabel.bind fun _ =>
      failsFor_newLabel.bind fun _ => (failsFor_emit _).bind fun _ =>
        (body.failsFor_lower.within .consequent).bind fun _ => (failsFor_emit _).bind fun _ =>
          (failsFor_emit _).bind fun _ =>
            (otherwise.failsFor_lower.within .alternative).bind_silent fun _ => failsFor_emit _
  | .loop condition body line =>
    exact failsFor_newLabel.bind fun _ => failsFor_newLabel.bind fun _ => (failsFor_emit _).bind fun _ =>
      (condition.failsFor_lower line).bind fun _ => (failsFor_emit _).bind fun _ =>
        (body.failsFor_lower.within .body).bind_silent fun _ => (failsFor_emit _).bind fun _ =>
          failsFor_emit _
  | .block body => exact Stmt.failsFor_lowerAll body

theorem Stmt.failsFor_lowerAll (body : List Stmt) :
    (Stmt.lowerAll source body).FailsFor source (Stmt.mentionsAll body) := by
  match body with
  | [] => exact failsFor_pure _
  | s :: rest => exact s.failsFor_lower.bind fun _ => Stmt.failsFor_lowerAll rest

end

end

namespace Program

variable {source : Source} {tokens : List Token} {program : Program} {error : Diagnostic NameFault}

/-- A lowering that fails beside any table fails for a name of the program. -/
theorem exists_faults_of_lower {symbols : SymbolTable}
    (failed : (program.lower source symbols).1 = .error error) :
    ∃ m ∈ Stmt.mentionsAll program, m.Faults source error := by
  rw [lower] at failed
  cases result : Stmt.lowerAll source program (.start symbols) with
  | ok _ t =>
    rw [result] at failed
    cases failed
  | error error₁ t =>
    rw [result] at failed
    cases failed
    exact Stmt.failsFor_lowerAll program result

/-- A name of a program that is read from a source is found where it stands, and no other name of the
program begins there. -/
theorem mention_of_tokenize (lexed : source.tokenize = .ok tokens)
    (parsed : Program.ofTokens source tokens = .ok program) {m : Mention}
    (mem : m ∈ Stmt.mentionsAll program) :
    (∃ s, source.locate? m.occurrence.name.span.offset = some s) ∧
      ∀ m' ∈ Stmt.mentionsAll program,
        m'.occurrence.name.span.offset = m.occurrence.name.span.offset → m' = m := by
  obtain ⟨names, -, ordered⟩ := occurrences_of_tokenize lexed parsed
  rw [← Stmt.map_occurrence_mentionsAll] at names ordered
  constructor
  · have named : m.occurrence.name ∈ identifiers tokens := by
      rw [← names]
      exact List.mem_map_of_mem (List.mem_map_of_mem mem)
    obtain ⟨t, kept, lexeme⟩ := List.mem_map.mp named
    have located := ((Source.position_tokens (Cursor.stands_ofSource source)).1 tokens lexed).2 t
      (List.mem_filter.mp kept).1
    rw [Token.span, lexeme] at located
    obtain ⟨s, found, -⟩ := Option.map_eq_some_iff.mp located
    exact ⟨s, found⟩
  · have distinct : ((Stmt.mentionsAll program).map fun m => m.occurrence.name.span.offset).Nodup :=
      List.pairwise_map.mpr ((List.pairwise_map.mp ordered).imp Nat.ne_of_lt)
    exact fun m' mem' same => List.inj_on_of_nodup_map distinct mem' mem same

/-- A failure is about one name of the program, which is the only one at the place of the error, and
its contexts are the activities around that name: one for each branch of a choice and for each body of
a loop that the name lies in, the innermost first. -/
theorem contexts_lower (lexed : source.tokenize = .ok tokens)
    (parsed : Program.ofTokens source tokens = .ok program) (symbols : SymbolTable)
    (failed : (program.lower source symbols).1 = .error error) :
    ∃ m ∈ Stmt.mentionsAll program, m.Faults source error ∧
      error.contexts = m.branches.reverse.map Branch.activity ∧
      ∀ m' ∈ Stmt.mentionsAll program,
        source.locate? m'.occurrence.name.span.offset = error.snippet → m' = m := by
  obtain ⟨m, mem, faults⟩ := exists_faults_of_lower failed
  obtain ⟨⟨s, found⟩, alone⟩ := mention_of_tokenize lexed parsed mem
  refine ⟨m, mem, faults, faults.contexts, fun m' mem' same => alone m' mem' ?_⟩
  rw [faults.offence.snippet, found] at same
  exact Source.locate?_inj same found rfl

/-- An unknown name in the condition of a loop, in the alternative of a choice that lies in the branch of
another one, in a block that is the body of a loop. -/
theorem contexts_lower_nested :
    let source : Source := ⟨"while (1) { if (2) if (3) {} else while (x) {} }", none⟩
    ∃ tokens program error, source.tokenize = .ok tokens ∧
      Program.ofTokens source tokens = .ok program ∧
      (program.lower source .empty).1 = .error error ∧
      error.contexts = ["compiling else branch", "compiling if branch", "compiling loop body"] ∧
      ∃ m ∈ Stmt.mentionsAll program, m.Faults source error ∧
        m.branches.reverse.map Branch.activity = error.contexts := by
  intro source
  obtain ⟨tokens, program, lexed, parsed, fails⟩ : ∃ tokens program, source.tokenize = .ok tokens ∧
      Program.ofTokens source tokens = .ok program ∧
      (match (program.lower source .empty).1 with
        | .error error => decide (error.contexts =
            ["compiling else branch", "compiling if branch", "compiling loop body"])
        | .ok _ => false) = true :=
    exists_of_read (p := fun program => match (program.lower source .empty).1 with
      | .error error => decide (error.contexts =
          ["compiling else branch", "compiling if branch", "compiling loop body"])
      | .ok _ => false) (by decide +kernel)
  split at fails
  next error failed =>
    obtain ⟨m, mem, faults, contexts, -⟩ := contexts_lower lexed parsed .empty failed
    exact ⟨tokens, program, error, lexed, parsed, failed, of_decide_eq_true fails, m, mem, faults,
      contexts.symm⟩
  next => cases fails

end Program

end ThreeAddress
