import ThreeAddress.Proofs.Code.Contexts
import ThreeAddress.Proofs.Compilation

/-!
# The line of a redeclaration

An error about a name that is declared again tells two lines. Its kind names the line of the word that
begins the declaration, and its place is that of the declared name. The name is the next token behind
the word; so the two lines are the same just if there is no line feed between these two tokens.

## Main definitions

* `Mention.IsDeclaredBy` says which two tokens declare a name.
* `Source.Tiles.firstToken_of_infix`: of two neighbours, the second is the first token behind the other.
* `Source.FirstToken.line_eq`: lines are counted across what lies between two tokens.
* `Source.line_redeclared` is the main result.
-/

namespace ThreeAddress

/-! ## Declarations among tokens -/

namespace Mention

variable {ts us : List Token} {m : Mention} {word name : Token}

/-- The name is declared by two neighbours among the tokens: the word that begins the statement, whose
line is that of the statement, and the name itself. -/
structure IsDeclaredBy (ts : List Token) (m : Mention) (word name : Token) : Prop where
  adjacent : [word, name] <:+: ts
  begins : word.kind = .keyword .kwVar
  named : name.kind = .identifier
  lexeme : name.lexeme = m.occurrence.name
  line : word.line = m.line

theorem IsDeclaredBy.mono (h : m.IsDeclaredBy ts word name) (within : ts <:+: us) :
    m.IsDeclaredBy us word name :=
  { h with adjacent := h.adjacent.trans within }

/-- If the mention declares its name, it does so by two of the tokens. -/
def IsTraced (ts : List Token) (m : Mention) : Prop :=
  m.occurrence.role = .declared → ∃ word name, m.IsDeclaredBy ts word name

theorem IsTraced.mono (h : m.IsTraced ts) (within : ts <:+: us) : m.IsTraced us := by
  intro declared
  obtain ⟨word, name, here⟩ := h declared
  exact ⟨word, name, here.mono within⟩

theorem IsTraced.inside (h : m.IsTraced ts) (b : Branch) : (m.inside b).IsTraced ts := by
  intro declared
  obtain ⟨word, name, here⟩ := h declared
  exact ⟨word, name, here.adjacent, here.begins, here.named, here.lexeme, here.line⟩

/-- What is traced in a branch is traced in the statement around it. -/
theorem forall_isTraced_inside {mentions : List Mention} (b : Branch)
    (h : ∀ m ∈ mentions, m.IsTraced ts) (within : ts <:+: us) :
    ∀ m ∈ mentions.map (inside b), m.IsTraced us :=
  List.forall_mem_map.mpr fun m mem => ((h m mem).inside b).mono within

end Mention

/-- An expression declares nothing. -/
theorem Expr.isTraced_occurrences (e : Expr) (line : Nat) (ts : List Token) :
    ∀ m ∈ e.occurrences.map (Mention.mk [] line), m.IsTraced ts := by
  refine List.forall_mem_map.mpr ?_
  induction e with
  | number => exact List.forall_mem_nil _
  | name lexeme => exact List.forall_mem_singleton.mpr nofun
  | binary op lhs rhs ihl ihr => exact List.forall_mem_append.mpr ⟨ihl, ihr⟩

mutual

/-- The names that a statement declares are traced to the tokens that derive it. -/
theorem Stmt.Derives.isTraced_mentions {ts : List Token} {s : Stmt} {n : Nat}
    (h : Stmt.Derives ts s n) : ∀ m ∈ s.mentions, m.IsTraced ts := by
  cases h with
  | @declare word name equals semicolon us e n declares named assigns value ends =>
    have here : Mention.IsDeclaredBy (word :: name :: equals :: (us ++ [semicolon]))
        ⟨[], word.line, ⟨.declared, name.lexeme⟩⟩ word name :=
      ⟨⟨[], equals :: (us ++ [semicolon]), rfl⟩, declares, named, rfl, rfl⟩
    exact List.forall_mem_cons.mpr ⟨fun _ => ⟨word, name, here⟩, e.isTraced_occurrences _ _⟩
  | @assign name equals semicolon us e n =>
    exact List.forall_mem_cons.mpr ⟨nofun, e.isTraced_occurrences _ _⟩
  | @ifThen word opening closing us vs condition body n m asks opens tests closes inside =>
    have within : vs <:+: word :: opening :: (us ++ closing :: vs) :=
      ⟨word :: opening :: (us ++ [closing]), [], by simp⟩
    exact List.forall_mem_append.mpr ⟨condition.isTraced_occurrences _ _,
      Mention.forall_isTraced_inside _ inside.isTraced_mentions within⟩
  | @ifElse word opening closing other us vs ws condition body otherwise n m l asks opens tests closes
      inside nearest turns elsewhere =>
    have within : vs <:+: word :: opening :: (us ++ closing :: (vs ++ other :: ws)) :=
      ⟨word :: opening :: (us ++ [closing]), other :: ws, by simp⟩
    have within' : ws <:+: word :: opening :: (us ++ closing :: (vs ++ other :: ws)) :=
      ⟨word :: opening :: (us ++ closing :: (vs ++ [other])), [], by simp⟩
    exact List.forall_mem_append.mpr ⟨List.forall_mem_append.mpr ⟨condition.isTraced_occurrences _ _,
      Mention.forall_isTraced_inside _ inside.isTraced_mentions within⟩,
      Mention.forall_isTraced_inside _ elsewhere.isTraced_mentions within'⟩
  | @loop word opening closing us vs condition body n m repeats opens tests closes inside =>
    have within : vs <:+: word :: opening :: (us ++ closing :: vs) :=
      ⟨word :: opening :: (us ++ [closing]), [], by simp⟩
    exact List.forall_mem_append.mpr ⟨condition.isTraced_occurrences _ _,
      Mention.forall_isTraced_inside _ inside.isTraced_mentions within⟩
  | @block opening closing us body n opens inside closes =>
    have within : us <:+: opening :: (us ++ [closing]) := ⟨[opening], [closing], by simp⟩
    exact fun m mem => (inside.isTraced_mentions m mem).mono within

theorem Stmt.DerivesAll.isTraced_mentions {ts : List Token} {body : List Stmt} {n : Nat}
    (h : Stmt.DerivesAll ts body n) : ∀ m ∈ Stmt.mentionsAll body, m.IsTraced ts := by
  cases h with
  | nil => exact List.forall_mem_nil _
  | @cons us vs s rest n m first others =>
    exact List.forall_mem_append.mpr
      ⟨fun m mem => (first.isTraced_mentions m mem).mono (List.prefix_append us vs).isInfix,
        fun m mem => (others.isTraced_mentions m mem).mono (List.suffix_append us vs).isInfix⟩

end

/-! ## Lines between tokens -/

namespace Source

variable {source : Source} {start stop : Nat} {t u : Token} {ts : List Token}

/-- Of two neighbours among the tokens of a text, the second is the first one behind the other. -/
theorem Tiles.firstToken_of_infix (h : source.Tiles start ts stop) (adjacent : [t, u] <:+: ts) :
    (∃ place, source.FirstToken place t) ∧ source.FirstToken t.span.stop u := by
  induction h with
  | nil => simp at adjacent
  | @cons start stop t' ts first others ih =>
    rcases List.infix_cons_iff.mp adjacent with ⟨later, front⟩ | inside
    · cases front
      cases others with
      | cons second _ => exact ⟨⟨start, first⟩, second⟩
    · exact ih inside

/-- A position that was counted up to some place is the one behind the characters before it. -/
theorem behind_of_counted {place : Nat} {position : Position} {before rest : List Char}
    (counted : (source.slice? 0 place).map Position.behind = some position)
    (text : source.chars = before ++ rest) (bytes : byteLength before = place) :
    position = .behind before := by
  rw [← bytes, slice?_zero_of_chars text] at counted
  exact (Option.some.inj counted).symm

/-- From a token to the next one, the lines are counted by the line feeds in between. -/
theorem FirstToken.line_eq (h : source.FirstToken start t) (h' : source.FirstToken t.span.stop u) :
    ∃ gap, source.slice? t.span.stop u.span.offset = some gap ∧ u.line = t.line + gap.count '\n' := by
  obtain ⟨_, skips, -⟩ := h'.longest
  obtain ⟨gap, between, -⟩ := skips.gap
  obtain ⟨before, later, text, stop, offset⟩ := slice?_eq_some_iff.mp between
  obtain ⟨front, rest, text', offset', stop'⟩ := slice?_eq_some_iff.mp h.literal
  -- the text before the gap ends with the token
  obtain ⟨rfl, -⟩ : before = front ++ t.text.toList ∧ gap ++ later = rest := by
    refine append_inj_of_byteLength (text.symm.trans (by rw [text', List.append_assoc])) ?_
    rw [byteLength_append, stop, stop']
  have here : t.position = .behind front := behind_of_counted h.position text' offset'
  have next : u.position = .behind (front ++ t.text.toList ++ gap) :=
    behind_of_counted h'.position (text.trans (List.append_assoc ..).symm) (by rw [byteLength_append, offset])
  have single : t.text.toList.count '\n' = 0 := by
    obtain ⟨_, -, longest⟩ := h.longest
    exact List.count_eq_zero.mpr longest.hasText.newline_notMem
  refine ⟨gap, between, ?_⟩
  rw [Token.line, Token.line, here, next, Position.behind_eq, Position.behind_eq, List.count_append,
    List.count_append, single]
  dsimp only
  omega

end Source

/-! ## Programs -/

/-- A name that a program declares is declared by two neighbours among its tokens. It is found where it
stands, and its line is counted from that of the word before it. -/
theorem Program.declaration_of_tokenize {source : Source} {tokens : List Token} {program : Program}
    (lexed : source.tokenize = .ok tokens) (parsed : Program.ofTokens source tokens = .ok program)
    {m : Mention} (mem : m ∈ Stmt.mentionsAll program) (declared : m.occurrence.role = .declared) :
    ∃ word name gap, m.IsDeclaredBy tokens word name ∧
      source.slice? word.span.stop name.span.offset = some gap ∧
      name.line = word.line + gap.count '\n' ∧
      (source.locate? m.occurrence.name.span.offset).map Snippet.position = some name.position := by
  obtain ⟨ts, n, rfl, -, derived⟩ := exists_derives_of_tokenize lexed parsed
  obtain ⟨ts', stop, tiles, -, split⟩ := Source.tokenize_eq_ok_iff.mp lexed
  obtain rfl : ts = ts' := List.append_cancel_right split
  obtain ⟨word, name, declares⟩ := derived.isTraced_mentions m mem declared
  obtain ⟨⟨place, first⟩, second⟩ := tiles.firstToken_of_infix declares.adjacent
  obtain ⟨gap, between, lines⟩ := first.line_eq second
  have located := Source.position_locate?_of_counted second.position
  rw [Token.span, declares.lexeme] at located
  exact ⟨word, name, gap, declares.mono (List.prefix_append ts _).isInfix, between, lines, located⟩

namespace Source

/-- A compilation that fails for a name that is declared again is located at that name, which stands
directly behind the word that begins its declaration. The kind of the error names the line of the word.
This is the line that the error is located at just if no line feed lies between word and name;
otherwise the error is located as many lines further down. -/
theorem line_redeclared {source : Source} {fuel : Nat} {options : Options} {c : Compilation}
    {error : Diagnostic NameFault} {text : String} {line : Option Nat}
    (compiled : source.compile fuel options = some c) (failed : c.failure = some (.symbol error))
    (again : error.kind = .redeclared text line) :
    ∃ tokens word name gap, source.tokenize = .ok tokens ∧ [word, name] <:+: tokens ∧
      word.kind = .keyword .kwVar ∧ name.kind = .identifier ∧ name.text = text ∧
      source.slice? word.span.stop name.span.offset = some gap ∧
      line = some word.line ∧ error.position = some name.position ∧
      name.position.line = word.line + gap.count '\n' ∧
      (line = error.position.map Position.line ↔ '\n' ∉ gap) := by
  cases compilesTo_of_compile compiled with
  | lex | parse | run | success => cases failed
  | @symbol tokens program t error lexed parsed lowered =>
    cases failed
    obtain ⟨m, mem, faults⟩ := Program.exists_faults_of_lower (congrArg Prod.fst lowered)
    have declared : m.occurrence.role = .declared := by
      by_contra other
      have kind := faults.offence.kind
      rw [if_neg other, again] at kind
      cases kind
    have kind := faults.line declared
    rw [again] at kind
    obtain ⟨rfl, rfl⟩ := NameFault.redeclared.inj kind
    obtain ⟨word, name, gap, declares, between, lines, located⟩ :=
      Program.declaration_of_tokenize lexed parsed mem declared
    have position : error.position = some name.position := by
      rw [Diagnostic.position, faults.offence.snippet]
      exact located
    have text : name.text = m.occurrence.text := congrArg Lexeme.text declares.lexeme
    refine ⟨tokens, word, name, gap, lexed, declares.adjacent, declares.begins, declares.named, text,
      between, by rw [declares.line], position, lines, ?_⟩
    rw [position, Option.map_some, Option.some_inj, ← declares.line, ← List.count_eq_zero]
    rw [Token.line] at lines
    omega

/-- A compilation that fails for a name, by evaluation. -/
theorem exists_symbol_of_compile {source : Source} {fuel : Nat} {options : Options}
    {p : Diagnostic NameFault → Bool}
    (h : (match (source.compile fuel options).bind Compilation.failure with
      | some (.symbol error) => p error
      | _ => false) = true) :
    ∃ c error, source.compile fuel options = some c ∧ c.failure = some (.symbol error) ∧
      p error = true := by
  split at h
  next error failed =>
    obtain ⟨c, compiled, failed⟩ := Option.bind_eq_some_iff.mp failed
    exact ⟨c, error, compiled, failed, h⟩
  next => cases h

/-- The name is declared again on the second line, on the line of the word before it. -/
theorem line_redeclared_secondLine :
    let source : Source := ⟨"var a = 1;\nvar  a = 2;", none⟩
    ∃ c error, source.compile 0 ⟨false⟩ = some c ∧ c.failure = some (.symbol error) ∧
      error.kind = .redeclared "a" (some 2) ∧
      ∃ tokens word name gap, source.tokenize = .ok tokens ∧ [word, name] <:+: tokens ∧
        source.slice? word.span.stop name.span.offset = some gap ∧ word.line = 2 ∧
        (error.position.map Position.line = some 2 ↔ '\n' ∉ gap) := by
  intro source
  obtain ⟨c, error, compiled, failed, kind⟩ : ∃ c error, source.compile 0 ⟨false⟩ = some c ∧
      c.failure = some (.symbol error) ∧ decide (error.kind = .redeclared "a" (some 2)) = true :=
    exists_symbol_of_compile (p := fun error => decide (error.kind = .redeclared "a" (some 2)))
      (by decide +kernel)
  have again := of_decide_eq_true kind
  obtain ⟨tokens, word, name, gap, lexed, adjacent, -, -, -, between, line, -, -, same⟩ :=
    line_redeclared compiled failed again
  exact ⟨c, error, compiled, failed, again, tokens, word, name, gap, lexed, adjacent, between,
    (Option.some.inj line).symm, eq_comm.trans same⟩

/-- The name stands on the line behind the word that declares it again. The error is located on that
line and names the one before. -/
theorem line_redeclared_nextLine :
    let source : Source := ⟨"var a=1;var\na=1;", none⟩
    ∃ c error, source.compile 0 ⟨false⟩ = some c ∧ c.failure = some (.symbol error) ∧
      error.kind = .redeclared "a" (some 1) ∧ error.position = some ⟨2, 1⟩ ∧
      some 1 ≠ error.position.map Position.line := by
  intro source
  obtain ⟨c, error, compiled, failed, told⟩ : ∃ c error, source.compile 0 ⟨false⟩ = some c ∧
      c.failure = some (.symbol error) ∧
      decide (error.kind = .redeclared "a" (some 1) ∧ error.position = some ⟨2, 1⟩) = true :=
    exists_symbol_of_compile (p := fun error =>
      decide (error.kind = .redeclared "a" (some 1) ∧ error.position = some ⟨2, 1⟩)) (by decide +kernel)
  obtain ⟨kind, position⟩ := of_decide_eq_true told
  exact ⟨c, error, compiled, failed, kind, position, by simp [position]⟩

end Source

end ThreeAddress
