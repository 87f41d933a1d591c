import ThreeAddress.Code.Lowering
import ThreeAddress.Proofs.SymbolTable

/-!
# What a lowering emits

A lowering threads its instructions, its labels and its table through the whole program. What it
emits for a part depends on little of that: on the number of the first label and the number of the
first temporary. So the instructions of a part can be given as a function of these two numbers,
and the table after it as a function of the table before it.

## Main definitions

* `Expr.result` and `Expr.segment` are the operand and the instructions of an expression.
* `Stmt.segment` are the instructions of a statement.
* `Stmt.enter` is the table after a statement.
* `Stmt.lower_eq_ok` and `Program.lower_eq_ok`: a lowering that succeeds emits just that, and all
  names it met were in the table.
-/

namespace ThreeAddress

/-! ## The pure emission -/

/-- The operand that holds the value of an expression whose first temporary has the number
`temp`. -/
def Expr.result (temp : Nat) : Expr → Operand
  | .number value => .constant value
  | .name lexeme => .name lexeme.text
  | .binary _ lhs rhs => .name (SymbolTable.temporaryName (temp + lhs.operators + rhs.operators))

/-- The instructions of an expression whose first temporary has the number `temp`. The last
temporary is the one of the operator at the root. -/
def Expr.segment (temp : Nat) : Expr → List Instruction
  | .number _ | .name _ => []
  | .binary op lhs rhs =>
    lhs.segment temp ++ rhs.segment (temp + lhs.operators) ++
      [.binary op (lhs.result temp) (rhs.result (temp + lhs.operators))
        (SymbolTable.temporaryName (temp + lhs.operators + rhs.operators))]

mutual

/-- The instructions of a statement whose first label and first temporary have the numbers `label`
and `temp`. -/
def Stmt.segment (label temp : Nat) : Stmt → List Instruction
  | .declare name e _ | .assign name e _ => e.segment temp ++ [.assign name.text (e.result temp)]
  | .ifThen condition body _ =>
    condition.segment temp ++ [.ifFalse (condition.result temp) ⟨label⟩]
      ++ body.segment (label + 1) (temp + condition.operators) ++ [.label ⟨label⟩]
  | .ifElse condition body otherwise _ =>
    condition.segment temp ++ [.ifFalse (condition.result temp) ⟨label⟩]
      ++ body.segment (label + 2) (temp + condition.operators)
      ++ [.goto ⟨label + 1⟩, .label ⟨label⟩]
      ++ otherwise.segment (label + 2 + body.labels) (temp + condition.operators + body.operators)
      ++ [.label ⟨label + 1⟩]
  | .loop condition body _ =>
    [.label ⟨label⟩] ++ condition.segment temp ++ [.ifFalse (condition.result temp) ⟨label + 1⟩]
      ++ body.segment (label + 2) (temp + condition.operators)
      ++ [.goto ⟨label⟩, .label ⟨label + 1⟩]
  | .block body => Stmt.segmentAll label temp body

/-- The instructions of statements one after another. -/
def Stmt.segmentAll (label temp : Nat) : List Stmt → List Instruction
  | [] => []
  | s :: rest =>
    s.segment label temp ++ Stmt.segmentAll (label + s.labels) (temp + s.operators) rest

end

mutual

/-- The table after a statement: a declared name comes before the temporaries of its initializer. -/
def Stmt.enter (t : SymbolTable) : Stmt → SymbolTable
  | .declare name init line =>
    (t.put (.new name.text .declared none (some line))).allocate init.operators
  | .assign _ value _ => t.allocate value.operators
  | .ifThen condition body _ | .loop condition body _ => body.enter (t.allocate condition.operators)
  | .ifElse condition body otherwise _ =>
    otherwise.enter (body.enter (t.allocate condition.operators))
  | .block body => Stmt.enterAll t body

/-- The table after statements one after another. -/
def Stmt.enterAll (t : SymbolTable) : List Stmt → SymbolTable
  | [] => t
  | s :: rest => Stmt.enterAll (s.enter t) rest

end

/-! ## The table after a statement -/

mutual

/-- What declarations and new temporaries keep, a statement keeps. -/
theorem Stmt.enter_induction {P : SymbolTable → Prop}
    (put : ∀ t name line, P t → P (t.put (.new name .declared none (some line))))
    (fresh : ∀ t : SymbolTable, P t → P t.fresh.2) (s : Stmt) (t : SymbolTable) (h : P t) :
    P (s.enter t) :=
  have allocate : ∀ n t, P t → P (t.allocate n) := by
    intro n t h
    induction n with
    | zero => exact h
    | succ n ih => rw [SymbolTable.allocate_succ]; exact fresh _ ih
  match s with
  | .declare _ _ _ => allocate _ _ (put _ _ _ h)
  | .assign _ _ _ => allocate _ _ h
  | .ifThen _ body _ | .loop _ body _ => Stmt.enter_induction put fresh body _ (allocate _ _ h)
  | .ifElse _ body otherwise _ =>
    Stmt.enter_induction put fresh otherwise _
      (Stmt.enter_induction put fresh body _ (allocate _ _ h))
  | .block body => Stmt.enterAll_induction put fresh body t h

theorem Stmt.enterAll_induction {P : SymbolTable → Prop}
    (put : ∀ t name line, P t → P (t.put (.new name .declared none (some line))))
    (fresh : ∀ t : SymbolTable, P t → P t.fresh.2) (body : List Stmt) (t : SymbolTable) (h : P t) :
    P (Stmt.enterAll t body) :=
  match body with
  | [] => h
  | s :: rest =>
    Stmt.enterAll_induction put fresh rest _ (Stmt.enter_induction put fresh s t h)

end

mutual

/-- A statement asks for one temporary for each of its operators. -/
@[simp] theorem Stmt.allocated_enter (s : Stmt) (t : SymbolTable) :
    (s.enter t).allocated = t.allocated + s.operators := by
  match s with
  | .declare _ _ _ | .assign _ _ _ => simp [Stmt.enter, Stmt.operators]
  | .ifThen _ body _ | .loop _ body _ =>
    rw [Stmt.enter, Stmt.allocated_enter body, SymbolTable.allocated_allocate, Stmt.operators,
      Nat.add_assoc]
  | .ifElse _ body otherwise _ =>
    rw [Stmt.enter, Stmt.allocated_enter otherwise, Stmt.allocated_enter body,
      SymbolTable.allocated_allocate, Stmt.operators]
    omega
  | .block body => exact Stmt.allocated_enterAll body t

@[simp] theorem Stmt.allocated_enterAll (body : List Stmt) (t : SymbolTable) :
    (Stmt.enterAll t body).allocated = t.allocated + Stmt.operatorsAll body := by
  match body with
  | [] => rfl
  | s :: rest =>
    rw [Stmt.enterAll, Stmt.allocated_enterAll rest, Stmt.allocated_enter s, Stmt.operatorsAll,
      Nat.add_assoc]

end

/-- A statement leaves a table in good order. -/
theorem SymbolTable.WellKept.enter {t : SymbolTable} (h : t.WellKept) (s : Stmt) :
    (s.enter t).WellKept :=
  Stmt.enter_induction (fun _ _ _ kept => kept.put _) (fun _ kept => kept.fresh) s t h

theorem SymbolTable.WellKept.enterAll {t : SymbolTable} (h : t.WellKept) (body : List Stmt) :
    (Stmt.enterAll t body).WellKept :=
  Stmt.enterAll_induction (fun _ _ _ kept => kept.put _) (fun _ kept => kept.fresh) body t h

/-- Statements give no symbol a value. -/
theorem SymbolTable.Valueless.enterAll {t : SymbolTable} (h : t.Valueless) (body : List Stmt) :
    (Stmt.enterAll t body).Valueless :=
  Stmt.enterAll_induction (fun _ _ _ none => none.put rfl) (fun _ none => none.fresh) body t h

/-- Statements leave a symbol for each of their temporaries. -/
theorem SymbolTable.Complete.enterAll {t : SymbolTable} (h : t.Complete) (body : List Stmt) :
    (Stmt.enterAll t body).Complete :=
  Stmt.enterAll_induction (fun _ _ _ all => all.put _) (fun _ all => all.fresh) body t h

/-- New temporaries forget no name. -/
theorem SymbolTable.contains_allocate {t : SymbolTable} {name : String} (h : t.contains name)
    (n : Nat) : (t.allocate n).contains name := by
  induction n with
  | zero => exact h
  | succ n ih => rw [allocate_succ]; exact (contains_fresh _ _).mpr (.inr ih)

/-- A statement forgets no name. -/
theorem Stmt.contains_enter {t : SymbolTable} {name : String} (h : t.contains name) (s : Stmt) :
    (s.enter t).contains name :=
  Stmt.enter_induction (P := fun table => table.contains name)
    (fun _ _ _ known => (SymbolTable.contains_put _ _ _).mpr (.inr known))
    (fun _ known => (SymbolTable.contains_fresh _ _).mpr (.inr known)) s t h

theorem Stmt.contains_enterAll {t : SymbolTable} {name : String} (h : t.contains name)
    (body : List Stmt) : (Stmt.enterAll t body).contains name :=
  Stmt.enterAll_induction (P := fun table => table.contains name)
    (fun _ _ _ known => (SymbolTable.contains_put _ _ _).mpr (.inr known))
    (fun _ known => (SymbolTable.contains_fresh _ _).mpr (.inr known)) body t h

/-! ## Actions that succeed -/

/-- The lowering after more instructions, `labels` more labels, and with another table. -/
def Lowering.after (t : Lowering) (segment : List Instruction) (labels : Nat) (symbols : SymbolTable) :
    Lowering :=
  ⟨⟨t.code.toList ++ segment⟩, t.nextLabel + labels, symbols⟩

namespace Lowering

variable (t : Lowering) (segment rest : List Instruction) (m n : Nat) (symbols last : SymbolTable)

@[simp] theorem nextLabel_after : (t.after segment n symbols).nextLabel = t.nextLabel + n := rfl

@[simp] theorem symbols_after : (t.after segment n symbols).symbols = symbols := rfl

@[simp] theorem after_after :
    (t.after segment m symbols).after rest n last = t.after (segment ++ rest) (m + n) last := by
  simp [after, Nat.add_assoc]

theorem after_nil : t.after [] 0 t.symbols = t := by
  simp [after]

end Lowering

namespace Emitter

variable {α β : Type} {t t' : Lowering}

theorem bind_eq_ok {x : Emitter α} {f : α → Emitter β} {b : β} :
    (x >>= f) t = .ok b t' ↔ ∃ a middle, x t = .ok a middle ∧ f a middle = .ok b t' := by
  simp only [bind, EStateM.bind]
  cases x t <;> simp [and_assoc]

theorem pure_eq_ok {a b : α} : (pure a : Emitter α) t = .ok b t' ↔ a = b ∧ t = t' := by
  simp [pure, EStateM.pure]

theorem emit_eq_ok {instruction : Instruction} {u : Unit} :
    emit instruction t = .ok u t' ↔ t.after [instruction] 0 t.symbols = t' := by
  have pushed : t.code.push instruction = ⟨t.code.toList ++ [instruction]⟩ :=
    Array.toList_inj.mp (by simp)
  have emitted : emit instruction t = .ok () { t with code := t.code.push instruction } := rfl
  simp [emitted, Lowering.after, pushed]

theorem newLabel_eq_ok {label : Label} :
    newLabel t = .ok label t' ↔ ⟨t.nextLabel⟩ = label ∧ t.after [] 1 t.symbols = t' := by
  have made : newLabel t = .ok ⟨t.nextLabel⟩ { t with nextLabel := t.nextLabel + 1 } := rfl
  simp [made, Lowering.after]

theorem newTemporary_eq_ok {name : String} :
    newTemporary t = .ok name t' ↔
      t.symbols.fresh.1.name = name ∧ t.after [] 0 t.symbols.fresh.2 = t' := by
  have made : newTemporary t = .ok t.symbols.fresh.1.name { t with symbols := t.symbols.fresh.2 } := rfl
  simp [made, Lowering.after]

theorem failAt_ne_ok {source : Source} {name : Lexeme} {fault : NameFault} {a : α} :
    failAt source name fault t ≠ .ok a t' := by
  intro h
  cases h

theorem get_bind {f : Lowering → Emitter β} : ((get : Emitter Lowering) >>= f) t = f t t := rfl

theorem set_eq_ok {s : Lowering} {u : PUnit} : (set s : Emitter PUnit) t = .ok u t' ↔ s = t' := by
  have kept : (set s : Emitter PUnit) t = .ok () s := rfl
  simp [kept]

theorem require_eq_ok {source : Source} {name : Lexeme} {u : Unit} :
    require source name t = .ok u t' ↔ t.symbols.contains name.text ∧ t = t' := by
  rw [require, get_bind]
  by_cases known : t.symbols.contains name.text
  · simp [known, pure_eq_ok]
  · simp [known, failAt_ne_ok]

theorem declare_eq_ok {source : Source} {name : Lexeme} {line : Nat} {u : Unit} :
    Emitter.declare source name line t = .ok u t' ↔
      ¬t.symbols.contains name.text ∧
        t.after [] 0 (t.symbols.put (.new name.text .declared none (some line))) = t' := by
  rw [Emitter.declare, get_bind]
  by_cases known : t.symbols.contains name.text
  · simp [SymbolTable.declare, known, failAt_ne_ok]
  · simp [SymbolTable.declare, known, set_eq_ok, Lowering.after]

theorem within_eq_ok {context : String} {action : Emitter α} {a : α} :
    within context action t = .ok a t' ↔ action t = .ok a t' := by
  simp only [within]
  cases action t <;> simp

end Emitter

/-! ## Lowerings that succeed -/

section

variable {source : Source} {t t' : Lowering}

/-- An expression that is lowered leaves its operand, its instructions and its temporaries; its
names are in the table. -/
theorem Expr.lower_eq_ok (e : Expr) {operand : Operand} (kept : t.symbols.WellKept)
    (h : e.lower source t = .ok operand t') :
    operand = e.result t.symbols.allocated ∧
      t' = t.after (e.segment t.symbols.allocated) 0 (t.symbols.allocate e.operators) ∧
      ∀ o ∈ e.occurrences, (t.symbols.allocate e.operators).contains o.text := by
  induction e generalizing t t' operand with
  | number value =>
    obtain ⟨rfl, rfl⟩ := Emitter.pure_eq_ok.mp h
    exact ⟨rfl, (t.after_nil).symm, by simp [Expr.occurrences]⟩
  | name lexeme =>
    simp only [Expr.lower, Emitter.bind_eq_ok, Emitter.require_eq_ok, Emitter.pure_eq_ok] at h
    obtain ⟨_, _, ⟨known, rfl⟩, rfl, rfl⟩ := h
    refine ⟨rfl, (t.after_nil).symm, ?_⟩
    simpa [Expr.occurrences, Expr.operators, Occurrence.text] using known
  | binary op lhs rhs ihl ihr =>
    simp only [Expr.lower, Emitter.bind_eq_ok, Emitter.newTemporary_eq_ok, Emitter.emit_eq_ok,
      Emitter.pure_eq_ok] at h
    obtain ⟨left, _, hl, right, _, hr, name, _, ⟨hname, rfl⟩, _, _, rfl, rfl, rfl⟩ := h
    obtain ⟨rfl, rfl, knownl⟩ := ihl kept hl
    obtain ⟨rfl, rfl, knownr⟩ := ihr (kept.allocate _) hr
    simp only [Lowering.symbols_after] at hname knownr ⊢
    rw [((kept.allocate _).allocate _).name_fresh] at hname
    subst hname
    refine ⟨by simp [Expr.result], ?_, ?_⟩
    · simp [Expr.segment, Expr.operators, SymbolTable.allocate_succ, SymbolTable.allocate_add]
    · intro o mem
      rw [Expr.operators, SymbolTable.allocate_succ, SymbolTable.contains_fresh,
        SymbolTable.allocate_add]
      rcases List.mem_append.mp mem with left | right
      · exact .inr (SymbolTable.contains_allocate (knownl o left) _)
      · exact .inr (knownr o right)

mutual

/-- A statement that is lowered leaves its instructions, its labels and its names; all its names
are in the table. -/
theorem Stmt.lower_eq_ok (s : Stmt) {t t' : Lowering} {u : Unit} (kept : t.symbols.WellKept)
    (h : s.lower source t = .ok u t') :
    t' = t.after (s.segment t.nextLabel t.symbols.allocated) s.labels (s.enter t.symbols) ∧
      ∀ o ∈ s.occurrences, (s.enter t.symbols).contains o.text := by
  match s with
  | .declare name init line =>
    simp only [Stmt.lower, Emitter.bind_eq_ok, Emitter.declare_eq_ok, Emitter.emit_eq_ok] at h
    obtain ⟨_, _, ⟨-, rfl⟩, operand, _, hinit, rfl⟩ := h
    obtain ⟨rfl, rfl, known⟩ := Expr.lower_eq_ok init (kept.put _) hinit
    refine ⟨by simp [Stmt.segment, Stmt.labels, Stmt.enter], ?_⟩
    intro o mem
    rcases List.mem_cons.mp mem with rfl | used
    · exact SymbolTable.contains_allocate ((SymbolTable.contains_put _ _ _).mpr (.inl rfl)) _
    · exact known o used
  | .assign name value _ =>
    simp only [Stmt.lower, Emitter.bind_eq_ok, Emitter.require_eq_ok, Emitter.emit_eq_ok] at h
    obtain ⟨_, _, ⟨here, rfl⟩, operand, _, hvalue, rfl⟩ := h
    obtain ⟨rfl, rfl, known⟩ := Expr.lower_eq_ok value kept hvalue
    refine ⟨by simp [Stmt.segment, Stmt.labels, Stmt.enter], ?_⟩
    intro o mem
    rcases List.mem_cons.mp mem with rfl | used
    · exact SymbolTable.contains_allocate here _
    · exact known o used
  | .ifThen condition body _ =>
    simp only [Stmt.lower, Emitter.bind_eq_ok, Emitter.newLabel_eq_ok, Emitter.emit_eq_ok,
      Emitter.within_eq_ok] at h
    obtain ⟨test, _, htest, done, _, ⟨rfl, rfl⟩, _, _, rfl, _, _, hbody, rfl⟩ := h
    obtain ⟨rfl, rfl, known⟩ := Expr.lower_eq_ok condition kept htest
    obtain ⟨rfl, knownBody⟩ := Stmt.lower_eq_ok body (kept.allocate _) hbody
    refine ⟨by simp [Stmt.segment, Stmt.labels, Stmt.enter], ?_⟩
    intro o mem
    rcases List.mem_append.mp mem with tested | inside
    · exact Stmt.contains_enter (known o tested) body
    · exact knownBody o inside
  | .ifElse condition body otherwise _ =>
    simp only [Stmt.lower, Emitter.bind_eq_ok, Emitter.newLabel_eq_ok, Emitter.emit_eq_ok,
      Emitter.within_eq_ok] at h
    obtain ⟨test, _, htest, elsewhere, _, ⟨rfl, rfl⟩, done, _, ⟨rfl, rfl⟩, _, _, rfl, _, _, hbody, _, _,
      rfl, _, _, rfl, _, _, hother, rfl⟩ := h
    obtain ⟨rfl, rfl, known⟩ := Expr.lower_eq_ok condition kept htest
    obtain ⟨rfl, knownBody⟩ := Stmt.lower_eq_ok body (kept.allocate _) hbody
    obtain ⟨rfl, knownOther⟩ := Stmt.lower_eq_ok otherwise ((kept.allocate _).enter _) hother
    refine ⟨by simp [Stmt.segment, Stmt.labels, Stmt.enter, Nat.add_assoc], ?_⟩
    intro o mem
    simp only [Stmt.occurrences, List.mem_append] at mem
    rcases mem with (tested | inside) | elsewhere
    · exact Stmt.contains_enter (Stmt.contains_enter (known o tested) body) otherwise
    · exact Stmt.contains_enter (knownBody o inside) otherwise
    · exact knownOther o elsewhere
  | .loop condition body _ =>
    simp only [Stmt.lower, Emitter.bind_eq_ok, Emitter.newLabel_eq_ok, Emitter.emit_eq_ok,
      Emitter.within_eq_ok] at h
    obtain ⟨again, _, ⟨rfl, rfl⟩, done, _, ⟨rfl, rfl⟩, _, _, rfl, test, _, htest, _, _, rfl, _, _, hbody,
      _, _, rfl, rfl⟩ := h
    obtain ⟨rfl, rfl, known⟩ := Expr.lower_eq_ok condition (by exact kept) htest
    obtain ⟨rfl, knownBody⟩ := Stmt.lower_eq_ok body (kept.allocate _) hbody
    refine ⟨by simp [Stmt.segment, Stmt.labels, Stmt.enter], ?_⟩
    intro o mem
    rcases List.mem_append.mp mem with tested | inside
    · exact Stmt.contains_enter (known o tested) body
    · exact knownBody o inside
  | .block body =>
    rw [Stmt.lower] at h
    exact Stmt.lowerAll_eq_ok body kept h

theorem Stmt.lowerAll_eq_ok (body : List Stmt) {t t' : Lowering} {u : Unit}
    (kept : t.symbols.WellKept) (h : Stmt.lowerAll source body t = .ok u t') :
    t' = t.after (Stmt.segmentAll t.nextLabel t.symbols.allocated body) (Stmt.labelsAll body)
        (Stmt.enterAll t.symbols body) ∧
      ∀ o ∈ Stmt.occurrencesAll body, (Stmt.enterAll t.symbols body).contains o.text := by
  match body with
  | [] =>
    rw [Stmt.lowerAll] at h
    obtain ⟨-, rfl⟩ := Emitter.pure_eq_ok.mp h
    exact ⟨(t.after_nil).symm, by simp [Stmt.occurrencesAll]⟩
  | s :: rest =>
    rw [Stmt.lowerAll, Emitter.bind_eq_ok] at h
    obtain ⟨_, _, hs, hrest⟩ := h
    obtain ⟨rfl, known⟩ := Stmt.lower_eq_ok s kept hs
    obtain ⟨rfl, knownRest⟩ := Stmt.lowerAll_eq_ok rest (kept.enter s) hrest
    refine ⟨by simp [Stmt.segmentAll, Stmt.labelsAll, Stmt.enterAll], ?_⟩
    intro o mem
    rcases List.mem_append.mp mem with first | later
    · exact Stmt.contains_enterAll (known o first) rest
    · exact knownRest o later

end

/-- A program that is lowered beside a table in good order leaves its instructions and its names. -/
theorem Program.lower_eq_ok_of_wellKept {program : Program} {symbols : SymbolTable} {code : Code}
    (kept : symbols.WellKept) (h : program.lower source symbols = (.ok code, t)) :
    code.toList = Stmt.segmentAll 0 symbols.allocated program ∧
      t.symbols = Stmt.enterAll symbols program ∧ ∀ name ∈ program.names, t.symbols.contains name := by
  simp only [Program.lower] at h
  split at h
  next lowered =>
    obtain ⟨rfl, known⟩ := Stmt.lowerAll_eq_ok program kept lowered
    cases h
    refine ⟨rfl, rfl, ?_⟩
    intro name mem
    obtain ⟨o, ho, rfl⟩ := List.mem_map.mp mem
    exact known o ho
  next => simp at h

/-- So does one that is lowered beside the empty table. -/
theorem Program.lower_eq_ok {program : Program} {code : Code}
    (h : program.lower source .empty = (.ok code, t)) :
    code.toList = Stmt.segmentAll 0 0 program ∧ t.symbols = Stmt.enterAll .empty program ∧
      ∀ name ∈ program.names, t.symbols.contains name :=
  Program.lower_eq_ok_of_wellKept SymbolTable.wellKept_empty h

/-- A program whose lowering succeeds, by evaluation, has its instructions and its table. -/
theorem Program.exists_lower_of_isOk {program : Program} {symbols : SymbolTable}
    (h : (program.lower source symbols).1.isOk = true) :
    ∃ code t, program.lower source symbols = (.ok code, t) := by
  generalize program.lower source symbols = result at h ⊢
  obtain ⟨outcome, t⟩ := result
  cases outcome with
  | ok code => exact ⟨code, t, rfl⟩
  | error error => cases h

end

end ThreeAddress
