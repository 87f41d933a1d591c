import ThreeAddress.Proofs.Code.Labels

/-!
# Programs one after another

A lowering goes on from two things that the statements before it have left: the number of the next
label, which begins anew with each program, and the table, which does not. So a program that is
lowered behind another one comes to what it comes to by itself, beside the table that the first one
left, but for the numbers of its labels: they are moved on by the labels of the first. Its temporaries
are numbered by the table, and are the same in both cases. This holds also where a program fails.

Each action is compared with the same action in a lowering that stands behind another one.

## Main definitions

* `Instruction.shift` and `Code.shift` move labels on.
* `Lowering.behind` is a lowering that goes on behind another one.
* `Emitter.Relocates` says that an action does the same there, up to labels.
* `Program.lowerInTurn` lowers two programs one after the other.
* `Program.lower_append` is the main result.
-/

namespace ThreeAddress

/-! ## Labels moved on -/

/-- The label whose number is larger by `count`. -/
def Label.shift (count : Nat) (l : Label) : Label :=
  ⟨count + l.number⟩

/-- The instruction with its labels moved on by `count`. -/
def Instruction.shift (count : Nat) : Instruction → Instruction
  | .assign result value => .assign result value
  | .binary op lhs rhs result => .binary op lhs rhs result
  | .label l => .label (l.shift count)
  | .goto target => .goto (target.shift count)
  | .ifFalse condition target => .ifFalse condition (target.shift count)
  | .ifTrue condition target => .ifTrue condition (target.shift count)

/-- The code with its labels moved on by `count`. -/
def Code.shift (count : Nat) (code : Code) : Code :=
  code.map (Instruction.shift count)

/-- The lowering `t` as it goes on behind the lowering `front`. Its table is its own: it has come from
that of `front` already. -/
def Lowering.behind (front t : Lowering) : Lowering :=
  ⟨front.code ++ Code.shift front.nextLabel t.code, front.nextLabel + t.nextLabel, t.symbols⟩

theorem Lowering.behind_start (front : Lowering) : front.behind (.start front.symbols) = front := by
  simp [behind, start, Code.shift]

/-! ## Actions -/

namespace Emitter

variable {α β γ δ : Type} {front : Lowering} {source : Source}

/-- What the action comes to in a lowering, the other one comes to in the same lowering behind `front`,
where `move` tells what becomes of its value. -/
def Relocates (front : Lowering) (move : α → β) (action : Emitter α) (moved : Emitter β) : Prop :=
  ∀ t, moved (front.behind t) =
    match action t with
    | .ok a t' => .ok (move a) (front.behind t')
    | .error error t' => .error error (front.behind t')

theorem Relocates.bind {move : α → β} {move' : γ → δ} {action : Emitter α} {moved : Emitter β}
    {next : α → Emitter γ} {next' : β → Emitter δ} (first : Relocates front move action moved)
    (others : ∀ a, Relocates front move' (next a) (next' (move a))) :
    Relocates front move' (action >>= next) (moved >>= next') := by
  intro t
  simp only [Bind.bind, EStateM.bind, first t]
  cases action t with
  | ok a t' => exact others a t'
  | error error t' => rfl

theorem relocates_pure (move : α → β) (a : α) : Relocates front move (pure a) (pure (move a)) :=
  fun _ => rfl

theorem relocates_emit (instruction : Instruction) :
    Relocates front id (emit instruction) (emit (instruction.shift front.nextLabel)) := by
  intro t
  have pushed : front.code ++ Code.shift front.nextLabel (t.code.push instruction) =
      (front.code ++ Code.shift front.nextLabel t.code).push (instruction.shift front.nextLabel) := by
    rw [Code.shift, Array.map_push, Array.append_push, Code.shift]
  have emitted (i : Instruction) (t : Lowering) :
      emit i t = .ok () { t with code := t.code.push i } := rfl
  rw [emitted, emitted]
  simp only [Lowering.behind, pushed, id]

theorem relocates_newLabel : Relocates front (Label.shift front.nextLabel) newLabel newLabel :=
  fun _ => rfl

theorem relocates_newTemporary : Relocates front id newTemporary newTemporary :=
  fun _ => rfl

theorem relocates_require (name : Lexeme) :
    Relocates front id (require source name) (require source name) := by
  intro t
  have same : (front.behind t).symbols = t.symbols := rfl
  rw [require, get_bind, get_bind, same]
  cases t.symbols.contains name.text <;> rfl

theorem relocates_declare (name : Lexeme) (line : Nat) :
    Relocates front id (Emitter.declare source name line) (Emitter.declare source name line) := by
  intro t
  have same : (front.behind t).symbols = t.symbols := rfl
  rw [Emitter.declare, get_bind, get_bind, same]
  cases t.symbols.declare (.new name.text .declared none (some line)) <;> rfl

theorem Relocates.within {action : Emitter α} {moved : Emitter β} {move : α → β} (context : String)
    (h : Relocates front move action moved) :
    Relocates front move (within context action) (within context moved) := by
  intro t
  simp only [Emitter.within, h t]
  cases action t <;> rfl

end Emitter

/-! ## Programs -/

open Emitter

section

variable {source : Source} (front : Lowering)

theorem Expr.relocates_lower (e : Expr) : Relocates front id (e.lower source) (e.lower source) := by
  induction e with
  | number value => exact relocates_pure id _
  | name lexeme => exact (relocates_require lexeme).bind fun _ => relocates_pure id _
  | binary op lhs rhs ihl ihr =>
    exact ihl.bind fun _ => ihr.bind fun _ => relocates_newTemporary.bind fun _ =>
      (relocates_emit _).bind fun _ => relocates_pure id _

mutual

/-- A statement is lowered behind another lowering as it is by itself. -/
theorem Stmt.relocates_lower (s : Stmt) : Relocates front id (s.lower source) (s.lower source) := by
  match s with
  | .declare name init line =>
    exact (relocates_declare name line).bind fun _ => (init.relocates_lower front).bind fun _ =>
      relocates_emit _
  | .assign name value _ =>
    exact (relocates_require name).bind fun _ => (value.relocates_lower front).bind fun _ =>
      relocates_emit _
  | .ifThen condition body _ =>
    exact (condition.relocates_lower front).bind fun _ => relocates_newLabel.bind fun _ =>
      (relocates_emit _).bind fun _ => ((Stmt.relocates_lower body).within _).bind fun _ =>
        relocates_emit _
  | .ifElse condition body otherwise _ =>
    exact (condition.relocates_lower front).bind fun _ => relocates_newLabel.bind fun _ =>
      relocates_newLabel.bind fun _ => (relocates_emit _).bind fun _ =>
        ((Stmt.relocates_lower body).within _).bind fun _ => (relocates_emit _).bind fun _ =>
          (relocates_emit _).bind fun _ => ((Stmt.relocates_lower otherwise).within _).bind fun _ =>
            relocates_emit _
  | .loop condition body _ =>
    exact relocates_newLabel.bind fun _ => relocates_newLabel.bind fun _ =>
      (relocates_emit _).bind fun _ => (condition.relocates_lower front).bind fun _ =>
        (relocates_emit _).bind fun _ => ((Stmt.relocates_lower body).within _).bind fun _ =>
          (relocates_emit _).bind fun _ => relocates_emit _
  | .block body => exact Stmt.relocates_lowerAll body

theorem Stmt.relocates_lowerAll (body : List Stmt) :
    Relocates front id (Stmt.lowerAll source body) (Stmt.lowerAll source body) := by
  match body with
  | [] => exact relocates_pure id _
  | s :: rest => exact (Stmt.relocates_lower s).bind fun _ => Stmt.relocates_lowerAll rest

end

/-- Statements behind others are lowered after them. -/
theorem Stmt.lowerAll_append (source : Source) (body rest : List Stmt) :
    Stmt.lowerAll source (body ++ rest) =
      Stmt.lowerAll source body >>= fun _ => Stmt.lowerAll source rest := by
  induction body with
  | nil => rw [List.nil_append, Stmt.lowerAll, pure_bind]
  | cons s body ih => rw [List.cons_append, Stmt.lowerAll, Stmt.lowerAll, bind_assoc, ih]

end

namespace Program

/-- The code of two programs that are lowered one after the other beside the same table, and the table
in the end. The labels of the second program are moved on by those of the first. A program that fails
ends it, and leaves the table as it is then. -/
def lowerInTurn (source : Source) (first second : Program) (symbols : SymbolTable) :
    Except (Diagnostic NameFault) Code × SymbolTable :=
  match first.lower source symbols with
  | (.error error, t) => (.error error, t.symbols)
  | (.ok code, t) =>
    match second.lower source t.symbols with
    | (.error error, t') => (.error error, t'.symbols)
    | (.ok code', t') => (.ok (code ++ Code.shift (Stmt.labelsAll first) code'), t'.symbols)

/-- To lower two programs in one is to lower them one after the other: it succeeds for the same ones,
with the same code up to the labels of the second, and with the same table; and where it fails, it fails
with the same error and leaves the same table. -/
theorem lower_append (source : Source) (first second : Program) (symbols : SymbolTable) :
    (((first ++ second : Program).lower source symbols).1,
        ((first ++ second : Program).lower source symbols).2.symbols) =
      lowerInTurn source first second symbols := by
  have whole : Stmt.lowerAll source (first ++ second) (.start symbols) =
      (Stmt.lowerAll source first >>= fun _ => Stmt.lowerAll source second) (.start symbols) := by
    rw [Stmt.lowerAll_append]
  simp only [lower, lowerInTurn, whole, Bind.bind, EStateM.bind]
  cases lowered : Stmt.lowerAll source first (.start symbols) with
  | error error t => rfl
  | ok _ t =>
    have labels : t.nextLabel = Stmt.labelsAll first :=
      (Stmt.labels_of_lowerAll Instruction.seesLabels_mark? first lowered).1.trans (Nat.zero_add _)
    have relocates : Relocates t id (Stmt.lowerAll source second) (Stmt.lowerAll source second) :=
      Stmt.relocates_lowerAll t second
    have moved := relocates (.start t.symbols)
    rw [Lowering.behind_start] at moved
    simp only [moved]
    cases Stmt.lowerAll source second (.start t.symbols) with
    | error error t' => rfl
    | ok _ t' => simp only [Lowering.behind, labels]

/-- A loop, and a branch behind it, with labels and temporaries of their own. In one program the branch
jumps to label 2 and not to label 0, and its temporaries go on from those of the loop. Where the second
program declares the variable again, the table keeps what the loop has put there. -/
theorem lower_append_loop :
    let a : Lexeme := ⟨"a", ⟨4, 1⟩⟩
    let source : Source := ⟨"var a = 3; while (a) a = a - 1; if (a < 1) a = a + 1; var a = 2;", none⟩
    let first : Program := [.declare a (.number 3) 1,
      .loop (.name a) (.assign a (.binary .sub (.name a) (.number 1)) 1) 1]
    let second : Program := [.ifThen (.binary .lt (.name a) (.number 1))
      (.assign a (.binary .add (.name a) (.number 1)) 1) 1]
    let again : Program := [.declare a (.number 2) 1]
    let whole := (first ++ second : Program).lower source .empty
    let broken := (first ++ again : Program).lower source .empty
    (second.lower source (first.lower source .empty).2.symbols).1.toOption =
        some #[.binary .lt (.name "a") (.constant 1) "%t1", .ifFalse (.name "%t1") ⟨0⟩,
          .binary .add (.name "a") (.constant 1) "%t2", .assign "a" (.name "%t2"), .label ⟨0⟩] ∧
      whole.1.toOption =
        some #[.assign "a" (.constant 3), .label ⟨0⟩, .ifFalse (.name "a") ⟨1⟩,
          .binary .sub (.name "a") (.constant 1) "%t0", .assign "a" (.name "%t0"), .goto ⟨0⟩, .label ⟨1⟩,
          .binary .lt (.name "a") (.constant 1) "%t1", .ifFalse (.name "%t1") ⟨2⟩,
          .binary .add (.name "a") (.constant 1) "%t2", .assign "a" (.name "%t2"), .label ⟨2⟩] ∧
      whole.2.symbols.toList.map Symbol.name = ["a", "%t0", "%t1", "%t2"] ∧
      broken.1.toOption = none ∧ broken.2.symbols.toList.map Symbol.name = ["a", "%t0"] := by
  intro a source first second again whole broken
  have wholes := Prod.ext_iff.mp (lower_append source first second .empty)
  have brokens := Prod.ext_iff.mp (lower_append source first again .empty)
  dsimp only at wholes brokens
  simp only [whole, broken, wholes, brokens]
  decide +kernel

end Program

end ThreeAddress
