import ThreeAddress.Program.Rule

/-!
# Rules that succeed

What it takes for a rule to succeed, one equivalence for each way to build a rule. The contexts
and the open levels of a failure play no part in it: a rule that only tells a failure otherwise
retells the replies of another one.
-/

namespace ThreeAddress.Rule

variable {α β : Type} {site : Site} {ts rest : List Token}

theorem pure_eq_ok {a b : α} : (pure a : Rule α) site ts = .ok b rest ↔ a = b ∧ ts = rest := by
  simp [pure_apply]

theorem bind_eq_ok {rule : Rule α} {next : α → Rule β} {b : β} :
    (rule >>= next) site ts = .ok b rest ↔
      ∃ a middle, rule site ts = .ok a middle ∧ next a site middle = .ok b rest := by
  rw [bind_apply]
  cases rule site ts <;> simp [and_assoc]

theorem discard_eq_ok {rule : Rule α} {u : PUnit} :
    (discard rule : Rule PUnit) site ts = .ok u rest ↔ ∃ a, rule site ts = .ok a rest := by
  have unfolded : (discard rule : Rule PUnit) = rule >>= fun _ => pure ⟨⟩ := rfl
  simp [unfolded, bind_eq_ok, pure_eq_ok]

/-! ## The next token -/

@[simp] theorem kindOf_cons (t : Token) (later : List Token) : kindOf (t :: later) = t.kind := rfl

@[simp] theorem lexemeOf_cons (t : Token) (later : List Token) :
    site.lexemeOf (t :: later) = t.lexeme := rfl

@[simp] theorem peek_bind (next : TokenKind → Rule β) :
    (peek >>= next) site ts = next (kindOf ts) site ts := rfl

@[simp] theorem line_bind (next : Nat → Rule β) :
    (line >>= next) site ts = next (site.lineOf ts) site ts := rfl

@[simp] theorem lexeme_bind (next : Lexeme → Rule β) :
    (lexeme >>= next) site ts = next (site.lexemeOf ts) site ts := rfl

@[simp] theorem advance_bind (next : Unit → Rule β) :
    (advance >>= next) site ts = next () site ts.tail := rfl

theorem failAt_ne_ok {span : Span} {fault : ParseFault} {a : α} :
    (failAt span fault : Rule α) site ts ≠ .ok a rest := by
  simp [failAt]

theorem reject_ne_ok {wanted : Wanted} {a : α} : (reject wanted : Rule α) site ts ≠ .ok a rest :=
  failAt_ne_ok

theorem tooDeep_ne_ok {a : α} : (tooDeep : Rule α) site ts ≠ .ok a rest :=
  failAt_ne_ok

theorem expect_eq_ok {kind : TokenKind} {u : Unit} :
    expect kind site ts = .ok u rest ↔ kindOf ts = kind ∧ ts = rest := by
  rw [expect, peek_bind]
  split
  next same => simp [pure_eq_ok, same]
  next other => simp [reject_ne_ok, other]

/-- Where the next kind is not the end of the input, there is a token of that kind. -/
theorem exists_cons_of_kindOf {kind : TokenKind} (h : kindOf ts = kind) (present : kind ≠ .eof) :
    ∃ t later, ts = t :: later ∧ t.kind = kind := by
  cases ts with
  | nil => exact absurd h.symm present
  | cons t later => exact ⟨t, later, rfl, h⟩

theorem eat_eq_ok {kind : TokenKind} {l : Lexeme} (present : kind ≠ .eof) :
    eat kind site ts = .ok l rest ↔ ∃ t, ts = t :: rest ∧ t.kind = kind ∧ t.lexeme = l := by
  simp only [eat, bind_eq_ok, expect_eq_ok, lexeme_bind, advance_bind, pure_eq_ok]
  constructor
  · rintro ⟨_, _, ⟨here, rfl⟩, rfl, rfl⟩
    obtain ⟨t, later, rfl, same⟩ := exists_cons_of_kindOf here present
    exact ⟨t, rfl, same, rfl⟩
  · rintro ⟨t, rfl, rfl, rfl⟩
    exact ⟨(), _, ⟨rfl, rfl⟩, rfl, rfl⟩

/-! ## Contexts and levels -/

@[simp] theorem within_eq_ok {context : String} {rule : Rule α} {a : α} :
    within context rule site ts = .ok a rest ↔ rule site ts = .ok a rest := by
  simp only [within]
  cases rule site ts <;> simp

@[simp] theorem link_eq_ok {rule : Rule α} {a : α} :
    link rule site ts = .ok a rest ↔ rule site ts = .ok a rest := by
  simp only [link]
  cases rule site ts <;> simp

@[simp] theorem contain_eq_ok {rule : Rule α} {a : α} :
    contain rule site ts = .ok a rest ↔ rule site ts = .ok a rest := by
  simp only [contain]
  cases rule site ts <;> simp

theorem discard_eat_eq_ok {kind : TokenKind} {u : PUnit} (present : kind ≠ .eof) :
    (discard (eat kind) : Rule PUnit) site ts = .ok u rest ↔ ∃ t, ts = t :: rest ∧ t.kind = kind := by
  simp only [discard_eq_ok, eat_eq_ok present]
  constructor
  · rintro ⟨_, t, here, same, -⟩
    exact ⟨t, here, same⟩
  · rintro ⟨t, here, same⟩
    exact ⟨_, t, here, same, rfl⟩

@[simp] theorem discard_within_eq_ok {context : String} {rule : Rule α} {u : PUnit} :
    (discard (within context rule) : Rule PUnit) site ts = .ok u rest ↔
      (discard rule : Rule PUnit) site ts = .ok u rest := by
  simp only [discard_eq_ok, within_eq_ok]

theorem keyword_eq_ok {word : Keyword} {u : Unit} :
    keyword word site ts = .ok u rest ↔ ∃ t, ts = t :: rest ∧ t.kind = .keyword word := by
  simp only [keyword, within_eq_ok, discard_eat_eq_ok (nofun : TokenKind.keyword word ≠ .eof)]

theorem identifier_eq_ok {l : Lexeme} :
    identifier site ts = .ok l rest ↔ ∃ t, ts = t :: rest ∧ t.kind = .identifier ∧ t.lexeme = l := by
  simp [identifier, eat_eq_ok]

/-! ## Repetition -/

theorem many_eq_ok {stop : TokenKind → Bool} {item : Rule α} {as : List α} :
    many stop item site ts = .ok as rest ↔
      (stop (kindOf ts) ∧ [] = as ∧ ts = rest) ∨
        ∃ a middle, ¬stop (kindOf ts) ∧ item site ts = .ok a middle ∧
          ((middle.length < ts.length ∧ ∃ later, many stop item site middle = .ok later rest ∧
              a :: later = as) ∨
            ¬middle.length < ts.length ∧ [a] = as ∧ middle = rest) := by
  rw [many]
  by_cases stops : stop (kindOf ts)
  · simp [stops]
  · cases item site ts with
    | fail error left raised => simp [stops]
    | ok a middle =>
      by_cases shrinks : middle.length < ts.length
      · have goesOn : ¬ts.length ≤ middle.length := by omega
        cases others : many stop item site middle <;>
          simp [stops, shrinks, goesOn, others, and_comm, and_assoc]
      · have done : ts.length ≤ middle.length := by omega
        simp [stops, shrinks, done, and_assoc]

end ThreeAddress.Rule

/-! ## Failures that are told otherwise -/

namespace ThreeAddress

variable {α : Type}

/-- The tokens that are left, after a success or a failure. -/
def Reply.rest : Reply α → List Token
  | .ok _ rest | .fail _ rest _ => rest

/-- The same reply, apart from the context and the open levels of a failure. -/
inductive Reply.Retells : Reply α → Reply α → Prop where
  | ok {a : α} {rest : List Token} : Retells (.ok a rest) (.ok a rest)
  | fail {error error' : Diagnostic ParseFault} {rest : List Token} {raised raised' : Nat}
      (alike : error.kind = error'.kind) : Retells (.fail error rest raised) (.fail error' rest raised')

namespace Reply.Retells

variable {reply told : Reply α} {a : α} {rest : List Token}

theorem rest_eq (h : reply.Retells told) : reply.rest = told.rest := by
  cases h <;> rfl

theorem of_ok (h : reply.Retells told) (same : told = .ok a rest) : reply = .ok a rest := by
  cases h with
  | ok => exact same
  | fail => cases same

end Reply.Retells

namespace Rule

theorem retells_within (context : String) (rule : Rule α) (site : Site) (ts : List Token) :
    (rule site ts).Retells (within context rule site ts) := by
  rw [within]
  cases rule site ts with
  | ok => exact .ok
  | fail => exact .fail rfl

theorem retells_link (rule : Rule α) (site : Site) (ts : List Token) :
    (rule site ts).Retells (link rule site ts) := by
  rw [link]
  cases rule site ts with
  | ok => exact .ok
  | fail => exact .fail rfl

theorem retells_contain (rule : Rule α) (site : Site) (ts : List Token) :
    (rule site ts).Retells (contain rule site ts) := by
  rw [contain]
  cases rule site ts with
  | ok => exact .ok
  | fail => exact .fail rfl

end Rule

end ThreeAddress
