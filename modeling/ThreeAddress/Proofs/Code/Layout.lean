import ThreeAddress.Proofs.Code.Emission
import ThreeAddress.Proofs.Program.Layout

/-!
# Code and the layout of its program

The lines and spans of a program go into the lines of its symbols and into errors, and nowhere else.
So a program is lowered to the same instructions in every layout, with the same table up to the lines
of its symbols.

Each action is compared with the action for the program without its places; what two layouts come to
follows by comparing both with that.

## Main definitions

* `SymbolTable.unplaced` is a table without the lines of its symbols; the operations of a table go
  through it.
* `Emitter.Agree` says that two actions do the same beside the same tables, up to places.
* `Program.lower_layout`: programs that are the same up to places are lowered alike.
-/

namespace ThreeAddress

/-! ## Tables without lines -/

/-- The symbol without the line of its declaration. -/
def Symbol.unplaced (s : Symbol) : Symbol :=
  { s with line := none }

namespace SymbolTable

/-- The table without the lines of its symbols. -/
def unplaced (t : SymbolTable) : SymbolTable :=
  ⟨t.symbols.mapValues Symbol.unplaced, t.allocated⟩

variable (t : SymbolTable) (name : String)

@[simp] theorem allocated_unplaced : t.unplaced.allocated = t.allocated := rfl

@[simp] theorem get?_unplaced : t.unplaced.get? name = (t.get? name).map Symbol.unplaced :=
  OrderedMap.get?_mapValues ..

@[simp] theorem contains_unplaced : t.unplaced.contains name = t.contains name := by
  rw [contains, get?_unplaced, Option.isSome_map, contains]

@[simp] theorem toList_unplaced : t.unplaced.toList = t.toList.map Symbol.unplaced := by
  simp [toList, unplaced, OrderedMap.mapValues]

theorem put_unplaced (s : Symbol) : (t.put s).unplaced = t.unplaced.put s.unplaced := by
  rw [unplaced, put, OrderedMap.mapValues_insert]
  rfl

theorem fresh_unplaced : t.unplaced.fresh = (t.fresh.1.unplaced, t.fresh.2.unplaced) := by
  simp only [fresh, get?_unplaced, allocated_unplaced]
  cases t.get? (temporaryName t.allocated) with
  | some s => rfl
  | none =>
    have put := put_unplaced { t with allocated := t.allocated + 1 }
      (.new (temporaryName t.allocated) .temporary none none)
    exact Prod.ext rfl put.symm

theorem update_unplaced (value : Int64) :
    t.unplaced.update name value = (t.update name value).map unplaced := by
  simp only [update, get?_unplaced]
  cases t.get? name with
  | some s => simp [Except.map, unplaced, Symbol.unplaced, Symbol.assign]
  | none => rfl

end SymbolTable

/-- The fault without the line of a declaration. -/
def NameFault.unplaced : NameFault → NameFault
  | redeclared name _ => redeclared name none
  | undeclared name => undeclared name

/-- The lowering without the lines of its symbols. -/
def Lowering.unplaced (t : Lowering) : Lowering :=
  { t with symbols := t.symbols.unplaced }

/-! ## Actions -/

namespace Emitter

variable {α β : Type} {source other : Source} {action action' : Emitter α}

/-- What the action comes to, without places. -/
def outcome (action : Emitter α) (t : Lowering) : Except (Diagnostic NameFault) α × Lowering :=
  match action t with
  | .ok a t' => (.ok a, t'.unplaced)
  | .error error t' => (.error (error.unplaced NameFault.unplaced), t'.unplaced)

/-- The actions do the same up to places, beside tables that are the same up to places. -/
def Agree (action action' : Emitter α) : Prop :=
  ∀ t t', t.unplaced = t'.unplaced → action.outcome t = action'.outcome t'

theorem Agree.bind {next next' : α → Emitter β} (first : action.Agree action')
    (others : ∀ a, (next a).Agree (next' a)) : (action >>= next).Agree (action' >>= next') := by
  intro t t' same
  have outcomes := first t t' same
  simp only [outcome, Bind.bind, EStateM.bind] at outcomes ⊢
  generalize action t = result at outcomes ⊢
  generalize action' t' = result' at outcomes ⊢
  cases result with
  | ok a last =>
    cases result' with
    | ok a' last' =>
      obtain ⟨value, tables⟩ := Prod.mk.inj outcomes
      cases value
      exact others a last last' tables
    | error => cases (Prod.mk.inj outcomes).1
  | error error last =>
    cases result' with
    | ok => cases (Prod.mk.inj outcomes).1
    | error error' last' =>
      obtain ⟨errors, tables⟩ := Prod.mk.inj outcomes
      simp only [Except.error.inj errors, tables]

theorem agree_pure (a : α) : (pure a : Emitter α).Agree (pure a) := fun _ _ same =>
  Prod.ext rfl same

theorem Agree.within (context : String) (h : action.Agree action') :
    (within context action).Agree (within context action') := by
  intro t t' same
  have outcomes := h t t' same
  simp only [outcome, Emitter.within] at outcomes ⊢
  generalize action t = result at outcomes ⊢
  generalize action' t' = result' at outcomes ⊢
  cases result <;> cases result' <;> simp_all [Diagnostic.unplaced]

/-! What each action comes to is told by what there is without places. -/

section

variable (t : Lowering) (name : Lexeme) (line : Nat)

theorem outcome_newTemporary :
    newTemporary.outcome t =
      (.ok t.unplaced.symbols.fresh.1.name,
        { t.unplaced with symbols := t.unplaced.symbols.fresh.2 }) := by
  rw [Lowering.unplaced, SymbolTable.fresh_unplaced]
  rfl

theorem outcome_require :
    (require source name).outcome t =
      if t.unplaced.symbols.contains name.text then (.ok (), t.unplaced)
      else (.error ⟨.undeclared name.text, none, none, []⟩, t.unplaced) := by
  have same : t.unplaced.symbols.contains name.text = t.symbols.contains name.text :=
    t.symbols.contains_unplaced _
  rw [outcome, require, get_bind, same]
  cases t.symbols.contains name.text <;> rfl

theorem outcome_declare :
    (Emitter.declare source name line).outcome t =
      if t.unplaced.symbols.contains name.text then
        (.error ⟨.redeclared name.text none, none, none, []⟩, t.unplaced)
      else
        (.ok (), { t.unplaced with
          symbols := t.unplaced.symbols.put (.new name.text .declared none none) }) := by
  let s : Symbol := .new name.text .declared none (some line)
  have same : t.unplaced.symbols.contains name.text = t.symbols.contains name.text :=
    t.symbols.contains_unplaced _
  rw [outcome, Emitter.declare, get_bind, same]
  by_cases known : t.symbols.contains name.text
  · rw [SymbolTable.declare_of_contains (s := s) known, if_pos known]
    rfl
  · rw [SymbolTable.declare_of_new (s := s) known, if_neg known]
    exact Prod.ext rfl (congrArg (Lowering.mk t.code t.nextLabel) (t.symbols.put_unplaced s))

end

theorem agree_emit (instruction : Instruction) : (emit instruction).Agree (emit instruction) := by
  intro t t' same
  exact Prod.ext rfl (congrArg (fun u => { u with code := u.code.push instruction }) same)

theorem agree_newLabel : newLabel.Agree newLabel := by
  intro t t' same
  have label : t.nextLabel = t'.nextLabel := (Lowering.mk.inj same).2.1
  refine Prod.ext (congrArg (fun n => Except.ok (Label.mk n)) label) ?_
  exact congrArg (fun u => { u with nextLabel := u.nextLabel + 1 }) same

theorem agree_newTemporary : newTemporary.Agree newTemporary := by
  intro t t' same
  rw [outcome_newTemporary, outcome_newTemporary, same]

/-- A name that is looked up is found or not, whatever its span is. -/
theorem agree_require (name : Lexeme) :
    (require source name).Agree (require other name.unplaced) := by
  intro t t' same
  rw [outcome_require, outcome_require, same]
  rfl

/-- A declared name is new or not, whatever its line and its span are. -/
theorem agree_declare (name : Lexeme) (line line' : Nat) :
    (Emitter.declare source name line).Agree (Emitter.declare other name.unplaced line') := by
  intro t t' same
  rw [outcome_declare, outcome_declare, same]
  rfl

end Emitter

/-! ## Programs -/

open Emitter

section

variable {source other : Source}

/-- An expression is lowered like the one without places. -/
theorem Expr.agree_lower (e : Expr) : (e.lower source).Agree (e.unplaced.lower other) := by
  induction e with
  | number value => exact agree_pure _
  | name lexeme => exact (agree_require lexeme).bind fun _ => agree_pure _
  | binary op lhs rhs ihl ihr =>
    exact ihl.bind fun _ => ihr.bind fun _ => agree_newTemporary.bind fun _ =>
      (agree_emit _).bind fun _ => agree_pure _

mutual

/-- A statement is lowered like the one without places. -/
theorem Stmt.agree_lower (s : Stmt) : (s.lower source).Agree (s.unplaced.lower other) := by
  match s with
  | .declare name init line =>
    exact (agree_declare name line 0).bind fun _ => init.agree_lower.bind fun _ => agree_emit _
  | .assign name value _ =>
    exact (agree_require name).bind fun _ => value.agree_lower.bind fun _ => agree_emit _
  | .ifThen condition body _ =>
    exact condition.agree_lower.bind fun _ => agree_newLabel.bind fun _ => (agree_emit _).bind fun _ =>
      ((Stmt.agree_lower body).within _).bind fun _ => agree_emit _
  | .ifElse condition body otherwise _ =>
    exact condition.agree_lower.bind fun _ => agree_newLabel.bind fun _ => agree_newLabel.bind fun _ =>
      (agree_emit _).bind fun _ => ((Stmt.agree_lower body).within _).bind fun _ =>
        (agree_emit _).bind fun _ => (agree_emit _).bind fun _ =>
          ((Stmt.agree_lower otherwise).within _).bind fun _ => agree_emit _
  | .loop condition body _ =>
    exact agree_newLabel.bind fun _ => agree_newLabel.bind fun _ => (agree_emit _).bind fun _ =>
      condition.agree_lower.bind fun _ => (agree_emit _).bind fun _ =>
        ((Stmt.agree_lower body).within _).bind fun _ => (agree_emit _).bind fun _ => agree_emit _
  | .block body => exact Stmt.agree_lowerAll body

theorem Stmt.agree_lowerAll (body : List Stmt) :
    (Stmt.lowerAll source body).Agree (Stmt.lowerAll other (Stmt.unplacedAll body)) := by
  match body with
  | [] => exact agree_pure _
  | s :: rest => exact (Stmt.agree_lower s).bind fun _ => Stmt.agree_lowerAll rest

end

end

/-- Programs that are the same up to places are lowered to the same instructions, or refused with the
same error up to places; their tables are the same up to the lines of their symbols. -/
theorem Program.lower_layout (source other : Source) {program program' : Program}
    (same : Stmt.unplacedAll program = Stmt.unplacedAll program') :
    ((program.lower source .empty).1.mapError (Diagnostic.unplaced NameFault.unplaced) =
        (program'.lower other .empty).1.mapError (Diagnostic.unplaced NameFault.unplaced)) ∧
      (program.lower source .empty).2.symbols.unplaced =
        (program'.lower other .empty).2.symbols.unplaced := by
  have first : (Stmt.lowerAll source program).Agree (Stmt.lowerAll source (Stmt.unplacedAll program)) :=
    Stmt.agree_lowerAll program
  have second : (Stmt.lowerAll other program').Agree
      (Stmt.lowerAll source (Stmt.unplacedAll program')) := Stmt.agree_lowerAll program'
  have outcomes : (Stmt.lowerAll source program).outcome (.start .empty) =
      (Stmt.lowerAll other program').outcome (.start .empty) := by
    rw [first _ _ rfl, second _ _ rfl, same]
  simp only [outcome, lower] at outcomes ⊢
  generalize Stmt.lowerAll source program (.start .empty) = result at outcomes ⊢
  generalize Stmt.lowerAll other program' (.start .empty) = result' at outcomes ⊢
  cases result with
  | ok _ t =>
    cases result' with
    | ok _ t' =>
      obtain ⟨code, -, symbols⟩ := Lowering.mk.inj (Prod.mk.inj outcomes).2
      exact ⟨congrArg Except.ok code, symbols⟩
    | error => cases (Prod.mk.inj outcomes).1
  | error error t =>
    cases result' with
    | ok => cases (Prod.mk.inj outcomes).1
    | error error' t' =>
      obtain ⟨-, -, symbols⟩ := Lowering.mk.inj (Prod.mk.inj outcomes).2
      exact ⟨congrArg Except.error (Except.error.inj (Prod.mk.inj outcomes).1), symbols⟩

end ThreeAddress
