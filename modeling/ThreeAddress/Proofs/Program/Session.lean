import ThreeAddress.Proofs.Program.Descent

/-!
# Sessions go forward

Whatever calls a session answers, it does not go back in its tokens, and it does not go deeper than is
allowed. A call that reads a part of a program takes a token where it succeeds, so the loops of the
grammar come to an end. It comes back up to where it was; only an expression that fails stays down.

## Main definitions

* `Session.Reaches` tells what a session can come to by its calls, and `Session.Follows` what it keeps.
* `Session.Keeps` tells what a call keeps that reads a part of a program.
* `Session.disciplined` is the main result.
-/

namespace ThreeAddress

open Rule

/-- Whether the call, or a call inside of it, sets the depth outright. -/
def Call.leaves : Call → Bool
  | .leaveTo _ => true
  | .nested call | .within _ call => call.leaves
  | _ => false

namespace Session

variable {α β : Type} {s s' s'' : Session} {rule : Nat → Rule α}

/-- The session `s'` comes from `s` by calls that do not set the depth outright, one after another, whether
they succeed or fail. There may be any number of calls one level deeper; they come back up together. A
context changes the errors only, so calls within a context are nothing else than these calls. -/
inductive Reaches : Session → Session → Prop where
  | refl (s : Session) : Reaches s s
  | call {s s' last : Session} {result : Except (Diagnostic ParseFault) Answer} {fuel : Nat}
      (before : Reaches s s') (call : Call) (stays : call.leaves = false) (enough : s'.rest.length < fuel)
      (answered : call.descend fuel s' = some (result, last)) : Reaches s last
  | nested {s s' inner last : Session} (before : Reaches s s')
      (entered : Descent.enter s' = some (.ok (), inner)) (inside : Reaches inner last) :
      Reaches s { last with depth := s'.depth }

/-- The session `s'` has no tokens that `s` has not, and it is not too deep if `s` is not. -/
structure Follows (s s' : Session) : Prop where
  suffix : s'.rest <:+ s.rest
  depth_le : s.depth ≤ maxNesting → s'.depth ≤ maxNesting

/-- What the call keeps to that comes to the result and to the session `s'`. It takes a token where it
reads a part of a program, apart from a whole program. It leaves the depth as it was; only an expression
that fails does not. -/
structure Keeps (s : Session) (call : Call) (result : Except (Diagnostic ParseFault) Answer)
    (s' : Session) : Prop where
  takesToken : call ∈ [.statement, .block, .expression, .identifier] → result.isOk →
    s'.rest.length < s.rest.length
  depth_of_ok : call ∈ [.program, .statement, .block, .expression, .identifier] → result.isOk →
    s'.depth = s.depth
  depth_of_error : call ∈ [.program, .statement, .block, .identifier] → ¬result.isOk →
    s'.depth = s.depth

theorem Follows.refl (s : Session) : s.Follows s := ⟨List.suffix_rfl, id⟩

theorem Follows.trans (first : s.Follows s') (second : s'.Follows s'') : s.Follows s'' :=
  ⟨second.suffix.trans first.suffix, second.depth_le ∘ first.depth_le⟩

/-! ## Rules -/

theorem Outcome.map_snd (f : α → β) (outcome : Outcome α) : (outcome.map f).2 = outcome.2 := by
  rcases outcome with ⟨_ | _, _⟩ <;> rfl

theorem Outcome.map_eq_ok {f : α → β} {outcome : Outcome α} {b : β} (h : outcome.map f = (.ok b, s')) :
    ∃ a, outcome = (.ok a, s') := by
  rcases outcome with ⟨_ | a, last⟩
  · cases h
  · cases h
    exact ⟨a, rfl⟩

theorem Follows.map {outcome : Outcome α} (h : s.Follows outcome.2) (f : α → β) :
    s.Follows (outcome.map f).2 := by
  rwa [Outcome.map_snd]

/-- A session goes to where its rule stops, and as deep as the rule has come. -/
theorem apply_snd (s : Session) (rule : Nat → Rule α) :
    (s.apply rule).2 =
      let reply := rule (maxNesting - s.depth) s.site s.rest
      { s with rest := reply.rest, depth := s.depth + reply.opened } := by
  rw [apply]
  cases rule (maxNesting - s.depth) s.site s.rest <;> rfl

theorem apply_eq_ok {a : α} (h : s.apply rule = (.ok a, s')) :
    ∃ rest, rule (maxNesting - s.depth) s.site s.rest = .ok a rest ∧ s' = { s with rest := rest } := by
  rw [apply] at h
  cases reply : rule (maxNesting - s.depth) s.site s.rest with
  | ok b rest =>
    rw [reply] at h
    cases h
    exact ⟨rest, rfl, rfl⟩
  | fail =>
    rw [reply] at h
    cases h

/-- A rule that leaves no more levels open than there are keeps its session within the limit. -/
theorem follows_apply (suffix : ∀ budget site ts, (rule budget site ts).rest <:+ ts)
    (opens : ∀ budget, (rule budget).OpensAtMost budget) (s : Session) : s.Follows (s.apply rule).2 := by
  rw [apply_snd]
  refine ⟨suffix _ _ _, fun within => ?_⟩
  have opened := opens (maxNesting - s.depth) s.site s.rest
  dsimp only
  omega

theorem depth_apply (opens : ∀ budget, (rule budget).OpensAtMost 0) (s : Session) :
    (s.apply rule).2.depth = s.depth := by
  have opened := opens (maxNesting - s.depth) s.site s.rest
  rw [apply_snd]
  dsimp only
  omega

theorem depth_map_apply (opens : ∀ budget, (rule budget).OpensAtMost 0) (f : α → β) (s : Session) :
    ((s.apply rule).map f).2.depth = s.depth := by
  rw [Outcome.map_snd, depth_apply opens]

section

variable {f : α → β} {b : β}

theorem depth_of_map_apply (h : (s.apply rule).map f = (.ok b, s')) : s'.depth = s.depth := by
  obtain ⟨a, read⟩ := Outcome.map_eq_ok h
  obtain ⟨rest, -, rfl⟩ := apply_eq_ok read
  rfl

/-- With a rule that takes a token, a session gets on where it succeeds. -/
theorem length_lt_of_map_apply (takes : ∀ budget, (rule budget).TakesToken)
    (h : (s.apply rule).map f = (.ok b, s')) : s'.rest.length < s.rest.length := by
  obtain ⟨a, read⟩ := Outcome.map_eq_ok h
  obtain ⟨rest, reply, rfl⟩ := apply_eq_ok read
  exact takes _ reply

end

/-! ## Calls -/

theorem follows_enter (s : Session) : s.Follows s.enter.2 := by
  rw [enter]
  split
  next shallow => exact ⟨List.suffix_rfl, fun _ => shallow⟩
  next => exact follows_apply (fun _ _ _ => List.suffix_rfl) (fun _ => opensAtMost_tooDeep) s

theorem follows_enterTimes (n : Nat) (s : Session) : s.Follows (s.enterTimes n).2 := by
  induction n generalizing s with
  | zero => exact .refl s
  | succ n ih =>
    have first := follows_enter s
    rw [enterTimes]
    generalize s.enter = outcome at first ⊢
    rcases outcome with ⟨_ | _, next⟩
    · exact first
    · exact first.trans (ih next)

/-- One call. -/
theorem follows_perform (call : Call) (stays : call.leaves = false) (s : Session) :
    s.Follows (s.perform call).2 := by
  induction call generalizing s with
  | accept => exact (follows_apply (fun _ => leads_advance.suffix) (fun _ _ _ => Nat.zero_le _) s).map _
  | expect kind =>
    exact (follows_apply (fun _ => suffix_expect kind) (fun _ => opensAtMost_expect kind) s).map _
  | eat kind =>
    exact (follows_apply (fun _ => (leads_eat kind).suffix) (fun _ => opensAtMost_eat kind) s).map _
  | keyword word =>
    exact (follows_apply (fun _ => (leads_keyword word).suffix) (fun _ => opensAtMost_keyword word) s).map _
  | reject description =>
    exact follows_apply (fun _ _ _ => List.suffix_rfl) (fun _ => opensAtMost_reject _) s
  | lexeme => exact .refl s
  | enter times => exact (follows_enterTimes times s).map _
  | leaveTo => cases stays
  | program =>
    exact (follows_apply (fun budget => (Program.leads_rule budget budget).suffix)
      (fun budget => Program.opensAtMost_rule budget) s).map _
  | statement =>
    exact (follows_apply (fun budget => (Stmt.leads_rule budget budget).suffix)
      (fun budget => Stmt.opensAtMost_rule budget) s).map _
  | block =>
    exact (follows_apply (fun budget => (Stmt.leads_block (Stmt.leads_rule budget budget)).suffix)
      (fun budget => Block.opensAtMost_rule (Stmt.opensAtMost_rule budget)) s).map _
  | expression =>
    exact (follows_apply (fun budget => (Expr.leads_rule budget budget).suffix) Expr.opensAtMost_rule s).map _
  | identifier =>
    exact (follows_apply (fun _ => leads_identifier.suffix) (fun _ => opensAtMost_identifier) s).map _
  | nested call ih =>
    have first := follows_enter s
    rw [perform]
    generalize s.enter = outcome at first ⊢
    rcases outcome with ⟨_ | _, inner⟩
    · exact first
    · exact ⟨(ih stays inner).suffix.trans first.suffix, id⟩
  | within context call ih =>
    have inside := ih stays s
    rw [perform]
    generalize s.perform call = outcome at inside ⊢
    rcases outcome with ⟨_ | _, last⟩ <;> exact inside

/-- Any number of calls. -/
theorem Reaches.follows (h : s.Reaches s') : s.Follows s' := by
  induction h with
  | refl s => exact .refl s
  | @call s s' last result fuel before call stays enough answered ih =>
    have follows := follows_perform call stays s'
    rw [call.descend_eq enough] at answered
    rw [Option.some_inj.mp answered] at follows
    exact ih.trans follows
  | @nested s s' inner last before entered inside ihb ihi =>
    have first := follows_enter s'
    rw [Descent.enter_apply] at entered
    rw [Option.some_inj.mp entered] at first
    exact ⟨(ihi.suffix.trans first.suffix).trans ihb.suffix, ihb.depth_le⟩

/-! ## Parts of a program -/

/-- A part of a program takes a token where it is read. -/
theorem length_lt_of_perform {call : Call} (part : call ∈ [.statement, .block, .expression, .identifier])
    {answer : Answer} (h : s.perform call = (.ok answer, s')) : s'.rest.length < s.rest.length := by
  simp only [List.mem_cons, List.not_mem_nil, or_false] at part
  rcases part with rfl | rfl | rfl | rfl
  · exact length_lt_of_map_apply Stmt.takesToken_rule h
  · exact length_lt_of_map_apply
      (fun budget => Block.takesToken_rule (Stmt.leads_rule budget budget).suffix) h
  · exact length_lt_of_map_apply Expr.takesToken_rule h
  · exact length_lt_of_map_apply (fun _ => takesToken_identifier) h

/-- All parts but expressions come back up, whether they are read or not. -/
theorem depth_perform {call : Call} (part : call ∈ [.program, .statement, .block, .identifier])
    (s : Session) : (s.perform call).2.depth = s.depth := by
  simp only [List.mem_cons, List.not_mem_nil, or_false] at part
  rcases part with rfl | rfl | rfl | rfl
  · exact depth_map_apply Program.opensAtMost_rule _ s
  · exact depth_map_apply Stmt.opensAtMost_rule _ s
  · exact depth_map_apply (fun budget => Block.opensAtMost_rule (Stmt.opensAtMost_rule budget)) _ s
  · exact depth_map_apply (fun _ => opensAtMost_identifier) _ s

/-- All parts come back up where they are read. -/
theorem depth_of_perform_eq_ok {call : Call}
    (part : call ∈ [.program, .statement, .block, .expression, .identifier]) {answer : Answer}
    (h : s.perform call = (.ok answer, s')) : s'.depth = s.depth := by
  simp only [List.mem_cons, List.not_mem_nil, or_false] at part
  rcases part with rfl | rfl | rfl | rfl | rfl
  all_goals exact depth_of_map_apply h

/-- A call that is performed keeps to its tokens and to its depth. -/
theorem keeps_perform (call : Call) (s : Session) : s.Keeps call (s.perform call).1 (s.perform call).2 := by
  rcases outcome : s.perform call with ⟨error | answer, s'⟩
  · have failed : ¬(Except.error error : Except (Diagnostic ParseFault) Answer).isOk := Bool.false_ne_true
    refine ⟨fun _ read => absurd read failed, fun _ read => absurd read failed, fun part _ => ?_⟩
    rw [← depth_perform part s, outcome]
  · exact ⟨fun part _ => length_lt_of_perform part outcome, fun part _ => depth_of_perform_eq_ok part outcome,
      fun _ failed => absurd rfl failed⟩

/-- Whatever is done one level deeper, the session comes back up. -/
theorem depth_nested {body : Descent α} {result : Except (Diagnostic ParseFault) α}
    (h : body.nested s = some (result, s')) : s'.depth = s.depth := by
  by_cases shallow : s.depth < maxNesting
  · rw [Descent.nested_of_shallow shallow] at h
    obtain ⟨outcome, -, same⟩ := Option.map_eq_some_iff.mp h
    cases same
    rfl
  · rw [Descent.nested_of_deep shallow] at h
    have kept := depth_apply (fun _ => opensAtMost_tooDeep (α := α)) s
    rwa [Option.some_inj.mp h] at kept

/-- A session makes progress and keeps to its depth. Whatever calls it has answered, its tokens are the
last ones of the list, later calls only take from them, and it is not too deep. Every call comes to an end,
so the loops over statements and over operators do: with any fuel beyond the number of tokens, it comes to
the same result. A statement, a block, an expression or a name takes a token where it is read. A part of a
program that is read leaves the session at its depth, and only an expression does not do so where it fails.
Whatever is nested does so. -/
theorem disciplined {source : Source} {tokens : List Token} (reached : (ofTokens source tokens).Reaches s) :
    s.rest <:+ tokens ∧ s.depth ≤ maxNesting ∧ (∀ s', s.Reaches s' → s'.rest <:+ s.rest) ∧
      (∀ call, ∃ result s', (∀ fuel, s.rest.length < fuel → call.descend fuel s = some (result, s')) ∧
        s.Keeps call result s') ∧
      ∀ (α : Type) (body : Descent α) result s', body.nested s = some (result, s') → s'.depth = s.depth := by
  have follows := reached.follows
  refine ⟨follows.suffix, follows.depth_le (Nat.zero_le _), fun s' later => later.follows.suffix,
    fun call => ⟨_, _, fun fuel enough => call.descend_eq enough, keeps_perform call s⟩,
    fun α body result s' h => depth_nested h⟩

/-- A sum whose product breaks off, and not even an end behind it. The expression fails with two levels
open, and the session goes on from there: a program and a nested expression leave it as deep. -/
theorem disciplined_truncated :
    let sum := [Token.mk .number ⟨"1", ⟨0, 1⟩⟩ ⟨1, 1⟩, ⟨.operator .plus false, ⟨"+", ⟨2, 1⟩⟩, ⟨1, 3⟩⟩,
      ⟨.number, ⟨"2", ⟨4, 1⟩⟩, ⟨1, 5⟩⟩, ⟨.operator .star false, ⟨"*", ⟨6, 1⟩⟩, ⟨1, 7⟩⟩]
    ∃ result s, Call.expression.descend 5 (ofTokens ⟨"1 + 2 *", none⟩ sum) = some (result, s) ∧
      ¬result.isOk ∧ s.rest = [] ∧ s.depth = 2 ∧ s.rest <:+ sum ∧
      (∃ read s', Call.program.descend 1 s = some (read, s') ∧ s'.depth = 2) ∧
      ∃ read s', (Call.nested .expression).descend 1 s = some (read, s') ∧ s'.depth = 2 := by
  intro sum
  obtain ⟨-, -, -, calls, -⟩ := disciplined (.refl (ofTokens ⟨"1 + 2 *", none⟩ sum))
  obtain ⟨result, s, runs, -⟩ := calls .expression
  have run := runs 5 (by decide)
  have told : (Call.expression.descend 5 (ofTokens ⟨"1 + 2 *", none⟩ sum)).map
      (fun outcome => (outcome.1.isOk, outcome.2.rest, outcome.2.depth)) = some (false, [], 2) := by
    decide +kernel
  rw [run] at told
  obtain ⟨failed, rest, depth⟩ : result.isOk = false ∧ s.rest = [] ∧ s.depth = 2 := by simpa using told
  have reached := (Reaches.refl (ofTokens ⟨"1 + 2 *", none⟩ sum)).call .expression rfl (by decide) run
  obtain ⟨suffix, -, -, calls, nested⟩ := disciplined reached
  have enough : s.rest.length < 1 := by simp [rest]
  obtain ⟨read, s', runs, keeps⟩ := calls .program
  have kept : s'.depth = s.depth := by
    by_cases ok : read.isOk
    · exact keeps.depth_of_ok (by simp) ok
    · exact keeps.depth_of_error (by simp) ok
  obtain ⟨readN, s'', runsN, -⟩ := calls (.nested .expression)
  exact ⟨result, s, run, by simp [failed], rest, depth, suffix,
    ⟨read, s', runs 1 enough, kept.trans depth⟩,
    readN, s'', runsN 1 enough, (nested _ _ _ _ (runsN 1 enough)).trans depth⟩

end Session

end ThreeAddress
