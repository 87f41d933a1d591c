import ThreeAddress.Program.Descent
import ThreeAddress.Proofs.Program.Progress

/-!
# Descent reads what the rules read

A rule has no depth: it is given the levels that are left, and a failure tells how many of them it left
open. An action of recursive descent has one. Both come to the same outcome in the same session, in the
tokens, in the value or the error, and in the depth. In particular no action is cut off that may take
more rounds than there are tokens.

## Main definitions

* `Descent.Enacts` says that an action does in a session what a rule does, and `Descent.EnactsBelow` that
  it does so in all sessions with fewer tokens.
* `Call.descend_eq` is the main result: to answer a call by recursive descent is to perform it.
-/

namespace ThreeAddress

variable {α β : Type} {s : Session}

namespace Session

/-! ## Rules in a session -/

theorem apply_of_ok (rule : Nat → Rule α) {a : α} {rest : List Token}
    (h : rule (maxNesting - s.depth) s.site s.rest = .ok a rest) :
    s.apply rule = (.ok a, { s with rest := rest }) := by
  rw [apply, h]

theorem apply_of_fail (rule : Nat → Rule α) {error : Diagnostic ParseFault} {rest : List Token}
    {raised : Nat} (h : rule (maxNesting - s.depth) s.site s.rest = .fail error rest raised) :
    s.apply rule = (.error error, { s with rest := rest, depth := s.depth + raised }) := by
  rw [apply, h]

theorem exists_budget {depth : Nat} (shallow : depth < maxNesting) :
    ∃ budget, maxNesting - depth = budget + 1 ∧ maxNesting - (depth + 1) = budget :=
  ⟨maxNesting - (depth + 1), by omega, rfl⟩

theorem Outcome.map_nil_append (outcome : Outcome (List α)) : outcome.map ([] ++ ·) = outcome := by
  rcases outcome with ⟨_ | _, _⟩ <;> rfl

/-- What a reply comes to, where a success leaves the session at the depth `outer`. -/
def settle (outer : Nat) (s : Session) : Reply α → Outcome α
  | .ok a rest => (.ok a, { s with rest := rest, depth := outer })
  | .fail error rest raised => (.error error, { s with rest := rest, depth := s.depth + raised })

theorem settle_depth (s : Session) (rule : Rule α) :
    s.settle s.depth (rule s.site s.rest) = s.apply fun _ => rule := by
  rw [apply]
  cases rule s.site s.rest <;> rfl

/-- The levels that are open one level deeper are one more. -/
theorem settle_link (outer : Nat) (s : Session) (rule : Rule α) (rest : List Token) :
    { s with rest := rest, depth := s.depth + 1 }.settle outer (rule s.site rest) =
      s.settle outer (Rule.link rule s.site rest) := by
  rw [Rule.link]
  cases rule s.site rest with
  | ok => rfl
  | fail error left raised => rw [settle, settle, Nat.add_right_comm, Nat.add_assoc]

end Session

namespace Descent

open Session

variable {action : Descent α} {rule : Rule α} {n : Nat}

/-- The action does in the session what the rule does. -/
def Enacts (action : Descent α) (rule : Rule α) (s : Session) : Prop :=
  action s = some (s.apply fun _ => rule)

/-- The action does what the rule does for the levels that are left, in all sessions with fewer than `n`
tokens. -/
def EnactsBelow (n : Nat) (action : Descent α) (rule : Nat → Rule α) : Prop :=
  ∀ s : Session, s.rest.length < n → action.Enacts (rule (maxNesting - s.depth)) s

/-! ## Building blocks -/

theorem enacts_pure (a : α) (s : Session) : (pure a : Descent α).Enacts (pure a) s := rfl

theorem enacts_failAt (span : Span) (fault : ParseFault) (s : Session) :
    (failAt span fault : Descent α).Enacts (Rule.failAt span fault) s := rfl

theorem enacts_reject (wanted : Wanted) (s : Session) :
    (reject wanted : Descent α).Enacts (Rule.reject wanted) s := rfl

section

variable {kinds : TokenKind → Descent β} {lines : Nat → Descent β} {lexemes : Lexeme → Descent β}

theorem enacts_peek_bind {later : TokenKind → Rule β}
    (h : (kinds (kindOf s.rest)).Enacts (later (kindOf s.rest)) s) :
    (peek >>= kinds).Enacts (Rule.peek >>= later) s := h

theorem enacts_line_bind {later : Nat → Rule β}
    (h : (lines (s.site.lineOf s.rest)).Enacts (later (s.site.lineOf s.rest)) s) :
    (line >>= lines).Enacts (Rule.line >>= later) s := h

theorem enacts_of_line_bind {rule : Rule β} (h : (lines (s.site.lineOf s.rest)).Enacts rule s) :
    (line >>= lines).Enacts rule s := h

theorem enacts_lexeme_bind {later : Lexeme → Rule β}
    (h : (lexemes (s.site.lexemeOf s.rest)).Enacts (later (s.site.lexemeOf s.rest)) s) :
    (lexeme >>= lexemes).Enacts (Rule.lexeme >>= later) s := h

theorem enacts_accept_bind {next : Unit → Descent β} {later : Unit → Rule β}
    (h : (next ()).Enacts (later ()) { s with rest := s.rest.tail }) :
    (accept >>= next).Enacts (Rule.advance >>= later) s := h

end

/-- After a success the session has the tokens that are left, and as many levels as before. -/
theorem Enacts.bind {next : α → Descent β} {later : α → Rule β} (first : action.Enacts rule s)
    (others : ∀ a rest, rule s.site s.rest = .ok a rest →
      (next a).Enacts (later a) { s with rest := rest }) :
    (action >>= next).Enacts (rule >>= later) s := by
  rw [Enacts] at first ⊢
  rw [bind_apply, first]
  cases reply : rule s.site s.rest with
  | ok a rest =>
    have both : (rule >>= later) s.site s.rest = later a s.site rest := by
      rw [Rule.bind_apply, reply]
    rw [apply_of_ok _ reply]
    simp only [apply, both]
    exact others a rest reply
  | fail error rest raised =>
    have both : (rule >>= later) s.site s.rest = .fail error rest raised := by
      rw [Rule.bind_apply, reply]
    rw [apply_of_fail _ reply, apply_of_fail _ both]

theorem Enacts.bind_taking {next : α → Descent β} {later : α → Rule β} (first : action.Enacts rule s)
    (takes : rule.TakesToken) (others : ∀ a (rest : List Token), rest.length < s.rest.length →
      (next a).Enacts (later a) { s with rest := rest }) :
    (action >>= next).Enacts (rule >>= later) s :=
  first.bind fun a rest read => others a rest (takes read)

theorem Enacts.discard (h : action.Enacts rule s) :
    (discard action : Descent PUnit).Enacts (Functor.discard rule) s :=
  h.bind fun _ _ _ => enacts_pure _ _

theorem Enacts.within (h : action.Enacts rule s) (context : String) :
    (within context action).Enacts (Rule.within context rule) s := by
  rw [Enacts] at h ⊢
  rw [Descent.within, h]
  simp only [apply, Rule.within]
  cases rule s.site s.rest <;> rfl

theorem enacts_expect (kind : TokenKind) (s : Session) : (expect kind).Enacts (Rule.expect kind) s := by
  refine enacts_peek_bind ?_
  split
  next => exact enacts_pure _ _
  next => exact enacts_reject _ _

theorem enacts_eat (kind : TokenKind) (s : Session) : (eat kind).Enacts (Rule.eat kind) s :=
  (enacts_expect kind s).bind fun _ _ _ => enacts_lexeme_bind (enacts_accept_bind (enacts_pure _ _))

theorem enacts_keyword (word : Keyword) (s : Session) : (keyword word).Enacts (Rule.keyword word) s :=
  (enacts_eat _ s).discard.within _

theorem enacts_identifier (s : Session) : identifier.Enacts Rule.identifier s :=
  (enacts_eat _ s).within _

/-! ## Levels -/

theorem enter_apply (s : Session) : enter s = some s.enter := by
  by_cases shallow : s.depth < maxNesting
  · have within : ¬maxNesting ≤ s.depth := Nat.not_le.mpr shallow
    rw [Session.enter, if_pos shallow, enter]
    simp only [bind_apply, depth, if_neg within, leaveTo]
  · have deep : maxNesting ≤ s.depth := Nat.not_lt.mp shallow
    rw [Session.enter, if_neg shallow, enter]
    simp only [bind_apply, depth, if_pos deep]
    rfl

theorem enterTimes_apply (n : Nat) (s : Session) : enterTimes n s = some (s.enterTimes n) := by
  induction n generalizing s with
  | zero => rfl
  | succ n ih =>
    rw [enterTimes, bind_apply, enter_apply, Session.enterTimes]
    rcases s.enter with ⟨_ | _, s'⟩
    · rfl
    · exact ih s'

theorem nested_of_deep (deep : ¬s.depth < maxNesting) :
    nested action s = some (s.apply fun _ => .tooDeep) := by
  have refused : enter s = some (s.apply fun _ => .tooDeep) := by
    rw [enter_apply, Session.enter, if_neg deep]
  rw [nested, bind_apply, depth]
  simp only [bind_apply, refused]
  rfl

/-- A nested action comes back up whether it succeeds or fails. -/
theorem nested_of_shallow (shallow : s.depth < maxNesting) :
    nested action s = (action { s with depth := s.depth + 1 }).map fun outcome =>
      (outcome.1, { outcome.2 with depth := s.depth }) := by
  have entered : enter s = some (.ok (), { s with depth := s.depth + 1 }) := by
    rw [enter_apply, Session.enter, if_pos shallow]
  rw [nested, bind_apply, depth]
  simp only [bind_apply, entered, attempt, leaveTo, conclude]
  cases action { s with depth := s.depth + 1 } <;> rfl

theorem Enacts.nested (shallow : s.depth < maxNesting)
    (h : action.Enacts rule { s with depth := s.depth + 1 }) :
    (nested action).Enacts (Rule.contain rule) s := by
  rw [Enacts] at h ⊢
  rw [nested_of_shallow shallow, h]
  simp only [apply, Rule.contain]
  cases rule s.site s.rest <;> rfl

/-! ## Expressions -/

theorem length_le_of_suffix {site : Site} {ts rest : List Token} {a : α}
    (suffix : ∀ site ts, (rule site ts).rest <:+ ts) (read : rule site ts = .ok a rest) :
    rest.length ≤ ts.length := by
  have left := suffix site ts
  rw [read] at left
  exact left.length_le

theorem operand_suffix {budget : Nat} {level : Level} (site : Site) (ts : List Token) :
    (Expr.operand budget level site ts).rest <:+ ts :=
  ((Expr.leads_all budget budget).1 level).suffix site ts

section

variable {level : Level} {next : Descent Expr} {op : Operator} {lhs : Expr} {rounds : Nat}

/-- Reads the rest of a chain, and comes back up to a depth at its end. -/
def linksTo (outer : Nat) (level : Level) (next : Descent Expr) (rounds : Nat) (lhs : Expr) :
    Descent Expr := do
  let folded ← links level next rounds lhs
  leaveTo outer
  return folded

theorem linksTo_of_none (outer : Nat) (absent : level.operator? (kindOf s.rest) = none) :
    linksTo outer level next (rounds + 1) lhs s = some (.ok lhs, { s with depth := outer }) := by
  simp only [linksTo, links, bind_apply, peek, Session.peek, absent]
  rfl

theorem linksTo_of_deep (outer : Nat) (sign : level.operator? (kindOf s.rest) = some op)
    (deep : ¬s.depth < maxNesting) :
    linksTo outer level next (rounds + 1) lhs s = some (s.apply fun _ => Rule.tooDeep) := by
  have refused : enter s = some (s.apply fun _ => Rule.tooDeep) := by
    rw [enter_apply, Session.enter, if_neg deep]
  simp only [linksTo, links, bind_apply, peek, Session.peek, sign, refused]
  rfl

/-- An operator is passed one level deeper. -/
theorem linksTo_of_shallow (outer : Nat) (sign : level.operator? (kindOf s.rest) = some op)
    (shallow : s.depth < maxNesting) :
    linksTo outer level next (rounds + 1) lhs s =
      (next >>= fun rhs => linksTo outer level next rounds (.binary op lhs rhs))
        { s with rest := s.rest.tail, depth := s.depth + 1 } := by
  have entered : enter s = some (.ok (), { s with depth := s.depth + 1 }) := by
    rw [enter_apply, Session.enter, if_pos shallow]
  simp only [linksTo, links, bind_apply, peek, Session.peek, sign, entered, accept]
  rcases next { s with rest := s.rest.tail, depth := s.depth + 1 } with _ | ⟨_ | _, _⟩ <;> rfl

/-- The loop over the operators of a level ends, since each of them is a token, and reads what the rule
reads. -/
theorem linksTo_eq (outer : Nat) (operand : next.EnactsBelow n fun budget => Expr.operand budget level)
    (enough : s.rest.length < rounds) (room : s.rest.length ≤ n) :
    linksTo outer level next rounds lhs s =
      some (s.settle outer (Expr.links (maxNesting - s.depth) level lhs s.site s.rest)) := by
  induction rounds generalizing s lhs with
  | zero => omega
  | succ rounds ih =>
    cases sign : level.operator? (kindOf s.rest) with
    | none =>
      rw [linksTo_of_none outer sign, Expr.links_of_none sign]
      rfl
    | some op =>
      by_cases shallow : s.depth < maxNesting
      · obtain ⟨budget, levels, below⟩ := exists_budget shallow
        obtain ⟨t, later, here, -⟩ :=
          Rule.exists_cons_of_kindOf (Level.operator?_eq_some_iff.mp sign).2.symm op.token_ne_eof
        have shorter : s.rest.tail.length < s.rest.length := by
          rw [here]
          exact Nat.lt_succ_self _
        have read : next { s with rest := s.rest.tail, depth := s.depth + 1 } = _ :=
          operand _ (Nat.lt_of_lt_of_le shorter room)
        simp only [below] at read
        rw [linksTo_of_shallow outer sign shallow, bind_apply, read, levels]
        cases reply : Expr.operand budget level s.site s.rest.tail with
        | fail error rest raised =>
          rw [apply_of_fail _ reply, Expr.links_of_fail sign reply, settle, Nat.add_comm raised,
            Nat.add_assoc]
        | ok rhs rest =>
          have left : rest.length ≤ s.rest.tail.length := length_le_of_suffix operand_suffix reply
          rw [apply_of_ok _ reply, Expr.links_of_ok sign reply]
          dsimp only
          rw [ih (by dsimp only; omega) (by dsimp only; omega), below, settle_link]
      · have none : maxNesting - s.depth = 0 := by omega
        rw [linksTo_of_deep outer sign shallow, none, Expr.links_zero sign]
        rfl

theorem enacts_chain (operand : next.EnactsBelow n fun budget => Expr.operand budget level) :
    (chain level n next).EnactsBelow n fun budget => Expr.chain budget level := by
  intro s enough
  have unfolded : chain level n next s = (next >>= linksTo s.depth level next n) s := rfl
  have links (first : Expr) (rest : List Token)
      (reply : Expr.operand (maxNesting - s.depth) level s.site s.rest = .ok first rest) :
      (linksTo s.depth level next n first).Enacts (Expr.links (maxNesting - s.depth) level first)
        { s with rest := rest } := by
    have left : rest.length ≤ s.rest.length := length_le_of_suffix operand_suffix reply
    rw [Enacts, linksTo_eq s.depth operand (by dsimp only; omega) (by dsimp only; omega)]
    exact congrArg some (settle_depth { s with rest := rest } _)
  rw [Enacts, unfolded]
  simp only [Expr.chain]
  exact (operand s enough).bind links

end

theorem enacts_primary {inside : Descent Expr}
    (deeper : inside.EnactsBelow n fun budget => Expr.chain budget .comparison) :
    (primary inside).EnactsBelow (n + 1) Expr.primary := by
  intro s enough
  rw [Expr.primary]
  refine Enacts.within (enacts_peek_bind ?_) _
  cases kind : kindOf s.rest with
  | openParen =>
    obtain ⟨t, later, here, -⟩ := Rule.exists_cons_of_kindOf kind (by decide)
    have shorter : s.rest.tail.length < n := by
      rw [here] at enough ⊢
      exact Nat.lt_of_succ_lt_succ enough
    have closes (inner : Expr) (s : Session) : Enacts
        (do discard (within "as the end of the expression" (eat .closeParen)); return inner)
        (do discard (Rule.within "as the end of the expression" (Rule.eat .closeParen)); return inner) s :=
      ((enacts_eat _ _).within _).discard.bind fun _ _ _ => enacts_pure _ _
    refine enacts_accept_bind ?_
    cases levels : maxNesting - s.depth with
    | zero =>
      have deep : ¬s.depth < maxNesting := by omega
      exact Enacts.bind (nested_of_deep deep) fun inner rest _ => closes inner _
    | succ budget =>
      have shallow : s.depth < maxNesting := by omega
      have below : maxNesting - (s.depth + 1) = budget := by omega
      have read := deeper { s with rest := s.rest.tail, depth := s.depth + 1 } shorter
      simp only [below] at read
      exact (Enacts.nested (s := { s with rest := s.rest.tail }) shallow read).bind
        fun inner rest _ => closes inner _
  | number =>
    -- the rule asks for the line only where it fails
    refine enacts_lexeme_bind (enacts_of_line_bind ?_)
    cases Decimal.word? (s.site.lexemeOf s.rest).text.toList with
    | some word => exact enacts_accept_bind (enacts_pure _ _)
    | none => exact enacts_failAt _ _ _
  | identifier => exact enacts_lexeme_bind (enacts_accept_bind (enacts_pure _ _))
  | _ => exact enacts_reject _ _

/-- Expressions are read, since parentheses are tokens. -/
theorem enacts_comparison (fuel : Nat) :
    (comparison fuel).EnactsBelow fuel fun budget => Expr.chain budget .comparison := by
  induction fuel with
  | zero => exact fun s none => absurd none (Nat.not_lt_zero _)
  | succ fuel ih =>
    have factor : EnactsBelow (fuel + 1) (primary (comparison fuel)) fun budget =>
        Expr.operand budget .factor := by
      simp only [Expr.operand]
      exact enacts_primary ih
    have term : EnactsBelow (fuel + 1) (chain .factor (fuel + 1) (primary (comparison fuel))) fun budget =>
        Expr.operand budget .term := by
      simp only [Expr.operand]
      exact enacts_chain factor
    rw [comparison]
    refine enacts_chain ?_
    simp only [Expr.operand]
    exact enacts_chain term

theorem enacts_expression (fuel : Nat) : (expression fuel).EnactsBelow fuel Expr.rule :=
  fun s enough => (enacts_comparison fuel s enough).within _

/-! ## Statements -/

theorem enacts_assignment (n : Nat) : (assignment n).EnactsBelow n Stmt.assignment := by
  intro s enough
  refine (enacts_identifier s).bind_taking Rule.takesToken_identifier fun name rest named => ?_
  refine (enacts_eat _ _).discard.bind_taking (Rule.takesToken_discard_eat (by decide))
    fun _ later assigns => ?_
  dsimp only at assigns
  refine (enacts_expression n _ (by dsimp only; omega)).bind fun value _ _ => ?_
  exact (enacts_eat _ _).discard.bind fun _ _ _ => enacts_pure _ _

theorem enacts_condition (n : Nat) : (condition n).EnactsBelow n Stmt.condition := by
  intro s enough
  refine Enacts.within ?_ _
  refine (enacts_eat _ _).discard.bind_taking (Rule.takesToken_discard_eat (by decide))
    fun _ rest opens => ?_
  refine (enacts_expression n _ (by dsimp only; omega)).bind fun condition _ _ => ?_
  exact (enacts_eat _ _).discard.bind fun _ _ _ => enacts_pure _ _

section

variable {statement : Descent Stmt}

section

variable {stop : TokenKind → Bool} {rounds : Nat} {body : List Stmt}

theorem statements_of_stop (stops : stop (kindOf s.rest)) :
    statements stop statement (rounds + 1) body s = some (.ok body, s) :=
  congrFun (if_pos stops) s

theorem statements_of_go (goes : ¬stop (kindOf s.rest)) :
    statements stop statement (rounds + 1) body s =
      (statement >>= fun next => statements stop statement rounds (body ++ [next])) s :=
  congrFun (if_neg goes) s

end

/-- The loop over statements ends, since each of them takes a token, and reads what the rule reads. -/
theorem statements_eq (stop : TokenKind → Bool) (reads : statement.EnactsBelow n Stmt.rule) {rounds : Nat}
    (enough : s.rest.length < rounds) (room : s.rest.length < n) (body : List Stmt) :
    statements stop statement rounds body s =
      some ((s.apply fun budget => Rule.many stop (Stmt.rule budget)).map (body ++ ·)) := by
  induction rounds generalizing s body with
  | zero => omega
  | succ rounds ih =>
    let all : Nat → Rule (List Stmt) := fun budget => Rule.many stop (Stmt.rule budget)
    by_cases stops : stop (kindOf s.rest)
    · rw [statements_of_stop stops, apply_of_ok all (Rule.many_of_stop stops)]
      simp [Outcome.map]
    · have read : statement s = some (s.apply Stmt.rule) := reads s room
      rw [statements_of_go stops, bind_apply, read]
      cases reply : Stmt.rule (maxNesting - s.depth) s.site s.rest with
      | fail error rest raised =>
        rw [apply_of_fail _ reply, apply_of_fail all (Rule.many_of_fail stops reply)]
        rfl
      | ok stmt rest =>
        have shorter : rest.length < s.rest.length := Stmt.takesToken_rule _ reply
        have goesOn := Rule.many_of_ok stops reply shorter
        rw [apply_of_ok _ reply]
        dsimp only
        rw [ih (by dsimp only; omega) (by dsimp only; omega)]
        cases later : Rule.many stop (Stmt.rule (maxNesting - s.depth)) s.site rest with
        | ok others left =>
          rw [later] at goesOn
          rw [apply_of_ok all goesOn, apply_of_ok all later]
          simp [Outcome.map]
        | fail error left raised =>
          rw [later] at goesOn
          rw [apply_of_fail all goesOn, apply_of_fail all later]
          rfl

theorem enacts_statements (stop : TokenKind → Bool) (reads : statement.EnactsBelow n Stmt.rule)
    {rounds : Nat} (enough : s.rest.length < rounds) (room : s.rest.length < n) :
    (statements stop statement rounds []).Enacts (Rule.many stop (Stmt.rule (maxNesting - s.depth))) s := by
  have read := statements_eq stop reads enough room []
  rwa [Outcome.map_nil_append] at read

theorem enacts_block (reads : statement.EnactsBelow n Stmt.rule) {m : Nat} (room : m ≤ n + 1) :
    (block m statement).EnactsBelow m fun budget => Block.rule (Stmt.rule budget) := by
  intro s enough
  refine Enacts.within ?_ _
  refine (enacts_eat _ _).discard.bind_taking (Rule.takesToken_discard_eat (by decide))
    fun _ rest opens => ?_
  refine (enacts_statements _ reads (by dsimp only; omega) (by dsimp only; omega)).bind fun body _ _ => ?_
  exact (enacts_eat _ _).discard.bind fun _ _ _ => enacts_pure _ _

theorem enacts_statementBody (reads : statement.EnactsBelow n Stmt.rule) :
    (statementBody (n + 1) statement).EnactsBelow (n + 1)
      fun budget => Stmt.body budget (Stmt.rule budget) := by
  intro s enough
  refine enacts_line_bind (enacts_peek_bind ?_)
  cases kindOf s.rest with
  | keyword word =>
    cases word with
    | kwVar =>
      refine (enacts_keyword _ s).bind_taking (Rule.takesToken_keyword _) fun _ rest taken => ?_
      exact (enacts_assignment _ _ (by dsimp only; omega)).bind fun _ _ _ => enacts_pure _ _
    | kwIf =>
      refine (enacts_keyword _ s).bind_taking (Rule.takesToken_keyword _) fun _ rest taken => ?_
      refine Enacts.within ?_ _
      refine (enacts_condition _ _ (by dsimp only; omega)).bind_taking (Stmt.takesToken_condition _)
        fun condition later tests => ?_
      dsimp only at tests
      refine (reads _ (by dsimp only; omega)).bind_taking (Stmt.takesToken_rule _) fun body after inside => ?_
      dsimp only at inside
      refine enacts_peek_bind ?_
      split
      next =>
        refine (enacts_keyword _ _).bind_taking (Rule.takesToken_keyword _) fun _ behind turns => ?_
        dsimp only at turns
        exact (reads _ (by dsimp only; omega)).bind fun _ _ _ => enacts_pure _ _
      next => exact enacts_pure _ _
    | kwWhile =>
      refine (enacts_keyword _ s).bind_taking (Rule.takesToken_keyword _) fun _ rest taken => ?_
      refine Enacts.within ?_ _
      refine (enacts_condition _ _ (by dsimp only; omega)).bind_taking (Stmt.takesToken_condition _)
        fun condition later tests => ?_
      dsimp only at tests
      exact (reads _ (by dsimp only; omega)).bind fun _ _ _ => enacts_pure _ _
    | kwElse => exact enacts_reject _ _
  | identifier => exact (enacts_assignment _ _ enough).bind fun _ _ _ => enacts_pure _ _
  | openBrace => exact (enacts_block reads (Nat.le_refl _) s enough).bind fun _ _ _ => enacts_pure _ _
  | _ => exact enacts_reject _ _

end

/-- Statements are read, since each takes a token before those in it. -/
theorem enacts_statement (fuel : Nat) : (statement fuel).EnactsBelow fuel Stmt.rule := by
  induction fuel with
  | zero => exact fun s none => absurd none (Nat.not_lt_zero _)
  | succ fuel ih =>
    intro s enough
    cases levels : maxNesting - s.depth with
    | zero => exact Enacts.within (nested_of_deep (by omega)) _
    | succ budget =>
      have below : maxNesting - (s.depth + 1) = budget := by omega
      have read := enacts_statementBody ih { s with depth := s.depth + 1 } enough
      simp only [below] at read
      exact (Enacts.nested (by omega) read).within _

theorem enacts_program (n : Nat) : (program n).EnactsBelow n Program.rule := fun _ enough =>
  enacts_statements _ (enacts_statement n) enough enough

/-- What becomes of an action that only makes an answer of the value. -/
theorem Enacts.answer (h : action.Enacts rule s) (f : α → β) :
    (do return f (← action) : Descent β) s = some ((s.apply fun _ => rule).map f) := by
  rw [Enacts] at h
  rw [bind_apply, h]
  rcases s.apply fun _ => rule with ⟨_ | _, _⟩ <;> rfl

end Descent

namespace Call

open Descent Session

/-- To answer a call by recursive descent is to perform it, where the fuel suffices for the tokens. -/
theorem descend_eq (call : Call) {fuel : Nat} (enough : s.rest.length < fuel) :
    call.descend fuel s = some (s.perform call) := by
  induction call generalizing s with
  | accept => rfl
  | expect kind => exact (enacts_expect kind s).answer _
  | eat kind => exact (enacts_eat kind s).answer _
  | keyword word => exact (enacts_keyword word s).answer _
  | reject description => exact enacts_reject _ s
  | lexeme => rfl
  | enter times =>
    rw [descend, bind_apply, enterTimes_apply, perform]
    rcases s.enterTimes times with ⟨_ | _, _⟩ <;> rfl
  | leaveTo depth => rfl
  | program => exact (enacts_program fuel s enough).answer _
  | statement => exact (enacts_statement fuel s enough).answer _
  | block => exact (enacts_block (enacts_statement fuel) (Nat.le_succ _) s enough).answer _
  | expression => exact (enacts_expression fuel s enough).answer _
  | identifier => exact (enacts_identifier s).answer _
  | nested call ih =>
    rw [descend, perform]
    by_cases shallow : s.depth < maxNesting
    · rw [nested_of_shallow shallow, ih (s := { s with depth := s.depth + 1 }) enough, Session.enter,
        if_pos shallow]
      rfl
    · rw [nested_of_deep shallow, Session.enter, if_neg shallow]
      rfl
  | within context call ih =>
    rw [descend, Descent.within, ih enough, perform]
    rcases s.perform call with ⟨_ | _, _⟩ <;> rfl

end Call

end ThreeAddress
