import ThreeAddress.Proofs.Token.Place

/-!
# Tokens tile their source

The tokens of a source, told by the text alone: where each of them lies, that it is the longest one
there, and that nothing but trivia lies between them. There is at most one way for tokens to lie in
a text like that, and the scan of the text finds it; where there is none, the scan fails at the
first character that belongs to nothing.

## Main definitions

* `Source.SkipsTo` says that trivia lead from one place of a text to another, and no further.
* `Source.FirstToken` and `Source.Tiles` say where tokens lie in a text.
* `Source.Ends` says how tokens come to an end: with the text, or at a character without a token.
* `Source.tokenize_tiles` is the main result.
-/

namespace ThreeAddress

/-- The byte behind the last one of a span. -/
def Span.stop (span : Span) : Nat :=
  span.offset + span.length

/-- The bytes that the token takes. -/
def Token.span (t : Token) : Span :=
  t.lexeme.span

namespace Source

variable {source : Source} {start stop place : Nat} {rest : List Char} {t : Token} {ts : List Token}

/-- From byte `start` to byte `place` lie trivia only, and behind that lies `rest`, which begins with
no more of them. -/
structure SkipsTo (source : Source) (start place : Nat) (rest : List Char) : Prop where
  gap : ∃ gap, source.slice? start place = some gap ∧ Trivia rest gap
  behind : source.slice? place source.size = some rest
  solid : ¬BeginsTrivia rest

/-- The first token behind byte `start`: only trivia lie before it, it is the longest token where it
lies, its text is what lies in its span, and its position is counted up to there. -/
structure FirstToken (source : Source) (start : Nat) (t : Token) : Prop where
  longest : ∃ rest, source.SkipsTo start t.span.offset rest ∧ IsLongestToken rest t.kind t.text.toList
  literal : source.slice? t.span.offset t.span.stop = some t.text.toList
  nonempty : t.span.offset < t.span.stop
  position : (source.slice? 0 t.span.offset).map Position.behind = some t.position

/-- From byte `start` to byte `stop` lie the tokens, each the first one behind the one before. -/
inductive Tiles (source : Source) : Nat → List Token → Nat → Prop where
  | nil {start : Nat} : Tiles source start [] start
  | cons {start stop : Nat} {t : Token} {ts : List Token} (first : source.FirstToken start t)
      (others : Tiles source t.span.stop ts stop) : Tiles source start (t :: ts) stop

/-- The token for the end of the text. -/
def endToken (source : Source) : Token :=
  ⟨.eof, ⟨"", ⟨source.size, 0⟩⟩, .behind source.chars⟩

/-- Behind byte `start` lies no token. Either the text ends there, or it goes on with a character at
which no token begins. -/
inductive Ends (source : Source) (start : Nat) : Except (Diagnostic LexFault) Token → Prop where
  | finished (skips : source.SkipsTo start source.size []) : Ends source start (.ok source.endToken)
  | stuck {place : Nat} {char : Char} {rest : List Char} {position : Position}
      (skips : source.SkipsTo start place (char :: rest))
      (noToken : ∀ (kind : TokenKind) (literal : List Char), literal <+: char :: rest →
        ¬kind.HasText literal)
      (counted : (source.slice? 0 place).map Position.behind = some position) :
      Ends source start (.error (.locatedAt (.unexpectedChar char position) ⟨place, 1⟩ source))

/-! ## There is one tiling -/

/-- What it means for the characters of the text that trivia lead from one place to another. -/
theorem skipsTo_iff :
    source.SkipsTo start place rest ↔
      ∃ before gap, source.chars = before ++ (gap ++ rest) ∧ byteLength before = start ∧
        byteLength before + byteLength gap = place ∧ Trivia rest gap ∧ ¬BeginsTrivia rest := by
  constructor
  · rintro ⟨⟨gap, cut, trivia⟩, behind, solid⟩
    obtain ⟨before, left, text, rfl, rfl⟩ := slice?_eq_some_iff.mp cut
    obtain ⟨before', text', bytes⟩ := slice?_size_eq_some_iff.mp behind
    rw [← byteLength_append] at bytes
    rw [← List.append_assoc] at text
    obtain ⟨rfl, rfl⟩ := append_inj_of_byteLength (text'.symm.trans text) bytes
    exact ⟨before, gap, by rw [text', List.append_assoc], rfl, rfl, trivia, solid⟩
  · rintro ⟨before, gap, text, rfl, rfl, trivia, solid⟩
    refine ⟨⟨gap, slice?_of_chars text, trivia⟩, slice?_size_eq_some_iff.mpr ⟨before ++ gap, ?_, ?_⟩,
      solid⟩
    · rw [text, List.append_assoc]
    · exact byteLength_append ..

/-- Trivia lead from a place to one other place. -/
theorem SkipsTo.unique {place' : Nat} {rest' : List Char} (h : source.SkipsTo start place rest)
    (h' : source.SkipsTo start place' rest') : place = place' ∧ rest = rest' := by
  obtain ⟨before, gap, text, rfl, rfl, trivia, solid⟩ := skipsTo_iff.mp h
  obtain ⟨before', gap', text', bytes, rfl, trivia', solid'⟩ := skipsTo_iff.mp h'
  obtain ⟨rfl, same⟩ := append_inj_of_byteLength (text'.symm.trans text) bytes
  have gaps : gap' = gap := by
    rw [← leadingTrivia_append trivia solid, ← same, leadingTrivia_append trivia' solid']
  subst gaps
  exact ⟨rfl, (List.append_cancel_left same).symm⟩

/-- A place has one token behind it. -/
theorem FirstToken.unique {t' : Token} (h : source.FirstToken start t)
    (h' : source.FirstToken start t') : t = t' := by
  obtain ⟨kind, ⟨text, ⟨offset, length⟩⟩, position⟩ := t
  obtain ⟨kind', ⟨text', ⟨offset', length'⟩⟩, position'⟩ := t'
  obtain ⟨⟨rest, skips, longest⟩, literal, -, counted⟩ := h
  obtain ⟨⟨rest', skips', longest'⟩, literal', -, counted'⟩ := h'
  simp only [Token.span, Token.text, Span.stop] at *
  obtain ⟨rfl, rfl⟩ := skips.unique skips'
  rw [← munch?_eq_some_iff] at longest longest'
  rw [longest, Option.some_inj, Prod.mk.injEq, String.toList_inj] at longest'
  obtain ⟨rfl, rfl⟩ := longest'
  obtain ⟨_, _, -, here, stop⟩ := slice?_eq_some_iff.mp literal
  obtain ⟨_, _, -, here', stop'⟩ := slice?_eq_some_iff.mp literal'
  have same : length = length' := by omega
  rw [counted, Option.some_inj] at counted'
  rw [same, counted']

/-- Where a token lies, the tokens do not end. -/
theorem FirstToken.not_ends {result : Except (Diagnostic LexFault) Token}
    (h : source.FirstToken start t) : ¬source.Ends start result := by
  obtain ⟨rest, skips, longest⟩ := h.longest
  rintro (ended | ⟨skips', noToken, -⟩)
  · obtain ⟨-, rfl⟩ := skips.unique ended
    exact longest.hasText.ne_nil (List.prefix_nil.mp longest.begins)
  · obtain ⟨-, rfl⟩ := skips.unique skips'
    exact noToken _ _ longest.begins longest.hasText

theorem Ends.unique {result result' : Except (Diagnostic LexFault) Token}
    (h : source.Ends start result) (h' : source.Ends start result') : result = result' := by
  cases h with
  | finished skips =>
    cases h' with
    | finished => rfl
    | stuck skips' => exact absurd (skips.unique skips').2 (by simp)
  | stuck skips _ counted =>
    cases h' with
    | finished skips' => exact absurd (skips.unique skips').2 (by simp)
    | stuck skips' _ counted' =>
      obtain ⟨rfl, same⟩ := skips.unique skips'
      cases same
      rw [counted, Option.some_inj] at counted'
      rw [counted']

/-- Tokens lie in a text, up to where they end, in one way only. -/
theorem Tiles.unique {stop' : Nat} {ts' : List Token} {result result' : Except (Diagnostic LexFault) Token}
    (h : source.Tiles start ts stop) (ends : source.Ends stop result)
    (h' : source.Tiles start ts' stop') (ends' : source.Ends stop' result') :
    ts = ts' ∧ result = result' := by
  induction h generalizing ts' with
  | nil =>
    cases h' with
    | nil => exact ⟨rfl, ends.unique ends'⟩
    | cons first _ => exact absurd ends first.not_ends
  | cons first _ ih =>
    cases h' with
    | nil => exact absurd ends' first.not_ends
    | cons first' others' =>
      cases first.unique first'
      obtain ⟨rfl, same⟩ := ih ends others'
      exact ⟨rfl, same⟩

/-- Tokens lie one behind the other and do not overlap. -/
theorem Tiles.ordered (h : source.Tiles start ts stop) :
    (∀ t ∈ ts, start ≤ t.span.offset ∧ t.span.offset < t.span.stop ∧ t.span.stop ≤ stop) ∧
      start ≤ stop ∧ ts.Pairwise fun s t => s.span.stop ≤ t.span.offset := by
  induction h with
  | nil => simp
  | @cons start stop t ts first others ih =>
    obtain ⟨bounds, le, ordered⟩ := ih
    obtain ⟨_, skips, -⟩ := first.longest
    obtain ⟨before, gap, -, rfl, place, -⟩ := skipsTo_iff.mp skips
    have nonempty := first.nonempty
    refine ⟨List.forall_mem_cons.mpr ⟨by omega, fun u mem => ?_⟩, by omega,
      List.pairwise_cons.mpr ⟨fun u mem => (bounds u mem).1, ordered⟩⟩
    have := bounds u mem
    omega

/-- Each of the tokens is the first one behind some place. -/
theorem Tiles.exists_firstToken (h : source.Tiles start ts stop) :
    ∀ t ∈ ts, ∃ place, source.FirstToken place t := by
  induction h with
  | nil => simp
  | cons first _ ih => exact List.forall_mem_cons.mpr ⟨⟨_, first⟩, ih⟩

end Source

/-! ## The scan finds the tiling -/

namespace Cursor

variable {c : Cursor} {before : List Char}

/-- A cursor skips the trivia in front of it. -/
theorem Stands.skipsTo (h : c.Stands before) :
    c.source.SkipsTo c.offset c.skipTrivia.offset c.skipTrivia.rest := by
  obtain ⟨split, trivia, solid⟩ := c.skipTrivia_spec
  refine Source.skipsTo_iff.mpr ⟨before, leadingTrivia c.rest, ?_, h.offset.symm, ?_, trivia, solid⟩
  · rw [h.text, ← split]
  · rw [← h.offset]
    rfl

/-- The position that a cursor has counted is the one behind the characters before it. -/
theorem Stands.counted (h : c.Stands before) :
    (c.source.slice? 0 c.offset).map Position.behind = some c.position := by
  rw [h.offset, Source.slice?_zero_of_chars h.text, h.position]
  rfl

/-- The token that comes next is the first one in the text behind the cursor. -/
theorem Stands.firstToken (h : c.Stands before) {kind : TokenKind} {literal : List Char}
    (munched : munch? c.skipTrivia.rest = some (kind, literal)) :
    c.source.FirstToken c.offset (c.skipTrivia.tokenOf kind literal) := by
  have longest := munch?_eq_some_iff.mp munched
  obtain ⟨rest, behind⟩ := longest.begins
  have here := h.skipTrivia
  have text : (c.skipTrivia.tokenOf kind literal).text.toList = literal := String.toList_ofList
  have literal_pos : 0 < byteLength literal := by
    have := mt eq_nil_of_byteLength longest.hasText.ne_nil
    omega
  refine ⟨⟨c.skipTrivia.rest, h.skipsTo, ?_⟩, ?_, Nat.lt_add_of_pos_right literal_pos, here.counted⟩
  · rw [text]
    exact longest
  · rw [text]
    exact (here.slice?_past behind.symm).1

/-- Where nothing is left, the cursor is at the end of the text. -/
theorem Stands.ends_of_rest_nil (h : c.Stands before) (left : c.skipTrivia.rest = []) :
    c.source.Ends c.offset (.ok c.skipTrivia.endToken) := by
  obtain ⟨text, offset, position⟩ := h.skipTrivia
  rw [left, List.append_nil] at text
  have size : c.skipTrivia.offset = c.source.size := by
    rw [offset, Source.size, ← text]
    rfl
  have same : c.skipTrivia.endToken = c.source.endToken := by
    simp only [endToken, tokenOf, Source.endToken, size, position, ← text]
    rfl
  rw [same]
  exact .finished (size ▸ left ▸ h.skipsTo)

/-- Where a character is left at which nothing is found, no token begins. -/
theorem Stands.ends_of_unexpected (h : c.Stands before) {char : Char} {rest : List Char}
    (left : c.skipTrivia.rest = char :: rest) (stuck : munch? (char :: rest) = none) :
    c.source.Ends c.offset (.error (c.skipTrivia.unexpected char)) :=
  .stuck (left ▸ h.skipsTo) (munch?_eq_none_iff.mp stuck) h.skipTrivia.counted

/-- The scan finds the tokens that lie in the text, up to where they end. -/
theorem Stands.tiles (h : c.Stands before) :
    ∃ stop, c.source.Tiles c.offset c.scan.1 stop ∧
      c.source.Ends stop (c.scan.2.map endToken) := by
  induction len : c.rest.length using Nat.strongRecOn generalizing c before with
  | ind n ih =>
    subst len
    cases munched : munch? c.skipTrivia.rest with
    | some found =>
      -- a token was taken, so less is left behind it
      have next := next_of_munch? munched
      obtain ⟨rest, behind⟩ := (hasText_of_munch? munched).1
      obtain ⟨stop, tiles, ends⟩ :=
        ih _ (length_rest_lt_of_next next) (h.skipTrivia.past behind.symm) rfl
      have scanned := yields_of_next next
      rw [Yields] at scanned
      rw [scanned]
      exact ⟨stop, .cons (h.firstToken munched) tiles, ends⟩
    | none =>
      cases left : c.skipTrivia.rest with
      | nil =>
        rw [scan_of_end (next_of_rest_nil left)]
        exact ⟨c.offset, .nil, h.ends_of_rest_nil left⟩
      | cons char rest =>
        rw [left] at munched
        rw [scan_of_failure (next_of_unexpected left munched)]
        exact ⟨c.offset, .nil, h.ends_of_unexpected left munched⟩

/-- The tokens that a cursor has left are those that lie in the text behind it, if they end with the
text; otherwise it fails where they end. -/
theorem Stands.exists_tiles (h : c.Stands before) :
    ∃ ts stop result, c.source.Tiles c.offset ts stop ∧ c.source.Ends stop result ∧
      c.tokens = result.map fun last => ts ++ [last] := by
  obtain ⟨stop, tiles, ends⟩ := h.tiles
  refine ⟨_, stop, _, tiles, ends, ?_⟩
  rw [tokens]
  cases c.scan with
  | mk ts result => cases result <;> rfl

end Cursor

namespace Source

variable {source : Source} {start stop : Nat} {t : Token} {ts : List Token} {rest : List Char}

theorem exists_tiles (source : Source) :
    ∃ ts stop result, source.Tiles 0 ts stop ∧ source.Ends stop result ∧
      source.tokenize = result.map fun last => ts ++ [last] :=
  (Cursor.stands_ofSource source).exists_tiles

/-! ## Texts that can be split -/

/-- A text can be split just if what lies behind its first token can be. -/
theorem FirstToken.splits_iff (h : source.FirstToken start t) {whole : List Char}
    (here : source.slice? start source.size = some whole) :
    ∃ rest, source.slice? t.span.stop source.size = some rest ∧ (Splits whole ↔ Splits rest) := by
  obtain ⟨after, skips, longest⟩ := h.longest
  obtain ⟨before, gap, text, rfl, place, trivia, solid⟩ := skipsTo_iff.mp skips
  obtain ⟨before', text', bytes⟩ := slice?_size_eq_some_iff.mp here
  obtain ⟨rfl, rfl⟩ := append_inj_of_byteLength (text'.symm.trans text) bytes
  obtain ⟨rest, rfl⟩ := longest.begins
  obtain ⟨_, _, -, offset, stop⟩ := slice?_eq_some_iff.mp h.literal
  refine ⟨rest, slice?_size_eq_some_iff.mpr ⟨before' ++ (gap ++ t.text.toList), ?_, ?_⟩, ?_⟩
  · simp [text]
  · simp only [byteLength_append]
    omega
  · constructor
    · intro splits
      exact (splits.of_trivia_append trivia).of_token_append longest.hasText fun comment =>
        solid (.inr comment)
    · intro splits
      exact .trivia_append trivia (.token longest.hasText splits)

/-- A text can be split just if what lies behind some of its tokens can be. -/
theorem Tiles.splits_iff (h : source.Tiles start ts stop) {whole : List Char}
    (here : source.slice? start source.size = some whole) :
    ∃ rest, source.slice? stop source.size = some rest ∧ (Splits whole ↔ Splits rest) := by
  induction h generalizing whole with
  | nil => exact ⟨whole, here, .rfl⟩
  | cons first _ ih =>
    obtain ⟨middle, behind, step⟩ := first.splits_iff here
    obtain ⟨rest, last, others⟩ := ih behind
    exact ⟨rest, last, step.trans others⟩

/-- What is left where the tokens end can be split just if the text ends there. -/
theorem Ends.splits_iff {result : Except (Diagnostic LexFault) Token} (h : source.Ends stop result)
    (here : source.slice? stop source.size = some rest) :
    Splits rest ↔ ∃ last, result = .ok last := by
  have left {place : Nat} {after : List Char} (skips : source.SkipsTo stop place after) :
      ∃ gap, rest = gap ++ after ∧ Trivia after gap ∧ ¬BeginsTrivia after := by
    obtain ⟨before, gap, text, rfl, -, trivia, solid⟩ := skipsTo_iff.mp skips
    obtain ⟨before', text', bytes⟩ := slice?_size_eq_some_iff.mp here
    exact ⟨gap, (append_inj_of_byteLength (text'.symm.trans text) bytes).2, trivia, solid⟩
  cases h with
  | finished skips =>
    obtain ⟨gap, rfl, trivia, -⟩ := left skips
    exact ⟨fun _ => ⟨_, rfl⟩, fun _ => .trivia_append trivia .nil⟩
  | stuck skips noToken _ =>
    obtain ⟨gap, rfl, trivia, solid⟩ := left skips
    refine ⟨fun splits => ?_, nofun⟩
    obtain ⟨kind, literal, begins, hasText⟩ :=
      (splits.of_trivia_append trivia).exists_token solid (List.cons_ne_nil _ _)
    exact absurd hasText (noToken kind literal begins)

/-! ## Sources -/

/-- A source has tokens just if its text can be split into blanks, comments and tokens somehow. -/
theorem exists_tokenize_eq_ok_iff (source : Source) :
    (∃ tokens, source.tokenize = .ok tokens) ↔ Splits source.chars := by
  obtain ⟨ts, stop, result, tiles, ends, tokenized⟩ := source.exists_tiles
  obtain ⟨rest, behind, same⟩ :=
    tiles.splits_iff (slice?_size_eq_some_iff.mpr ⟨[], (List.nil_append _).symm, rfl⟩)
  rw [same, ends.splits_iff behind, tokenized]
  cases result <;> simp [Except.map]

/-- Which tokens a source has: those that lie in its text and end with it. -/
theorem tokenize_eq_ok_iff {tokens : List Token} :
    source.tokenize = .ok tokens ↔
      ∃ ts stop, source.Tiles 0 ts stop ∧ source.SkipsTo stop source.size [] ∧
        tokens = ts ++ [source.endToken] := by
  obtain ⟨ts, stop, result, tiles, ends, tokenized⟩ := source.exists_tiles
  rw [tokenized]
  constructor
  · intro h
    cases ends with
    | finished skips =>
      cases h
      exact ⟨ts, stop, tiles, skips, rfl⟩
    | stuck => cases h
  · rintro ⟨ts', stop', tiles', skips', rfl⟩
    obtain ⟨rfl, rfl⟩ := tiles.unique ends tiles' (.finished skips')
    rfl

/-- How a source fails: at the character at which its tokens end. -/
theorem tokenize_eq_error_iff {error : Diagnostic LexFault} :
    source.tokenize = .error error ↔
      ∃ ts stop, source.Tiles 0 ts stop ∧ source.Ends stop (.error error) := by
  obtain ⟨ts, stop, result, tiles, ends, tokenized⟩ := source.exists_tiles
  rw [tokenized]
  constructor
  · intro h
    cases result with
    | ok => cases h
    | error =>
      cases h
      exact ⟨ts, stop, tiles, ends⟩
  · rintro ⟨ts', stop', tiles', ends'⟩
    obtain ⟨rfl, rfl⟩ := tiles.unique ends tiles' ends'
    rfl

/-- The tokens of a source lie one behind the other, and their end behind all of them. -/
theorem pairwise_of_tokenize {tokens : List Token} (h : source.tokenize = .ok tokens) :
    tokens.Pairwise fun s t => s.span.offset < t.span.offset ∧ s.span.stop ≤ t.span.offset := by
  obtain ⟨ts, stop, tiles, skips, rfl⟩ := tokenize_eq_ok_iff.mp h
  obtain ⟨bounds, -, ordered⟩ := tiles.ordered
  obtain ⟨before, gap, -, rfl, size, -⟩ := skipsTo_iff.mp skips
  refine List.pairwise_append.mpr ⟨ordered.imp_of_mem fun mem _ le => ?_, List.pairwise_singleton _ _,
    fun t mem u last => ?_⟩
  · have := bounds _ mem
    exact ⟨by omega, le⟩
  · have := bounds t mem
    have offset : u.span.offset = source.size := by
      rw [List.mem_singleton.mp last]
      rfl
    exact ⟨by omega, by omega⟩

/-- The tokens of a source have texts of their kinds; only the last one has none. -/
theorem exists_of_tokenize {tokens : List Token} (h : source.tokenize = .ok tokens) :
    ∃ ts, tokens = ts ++ [source.endToken] ∧ ∀ t ∈ ts, t.kind.HasText t.text.toList := by
  obtain ⟨ts, stop, tiles, -, rfl⟩ := tokenize_eq_ok_iff.mp h
  refine ⟨ts, rfl, fun t mem => ?_⟩
  obtain ⟨_, first⟩ := tiles.exists_firstToken t mem
  obtain ⟨_, -, longest⟩ := first.longest
  exact longest.hasText

/-- The tokens of a source tile its text. They are the one sequence of tokens that lie in the text,
each the longest where it lies, with nothing but trivia before, between and behind them, and then
the end of the input. A source has tokens just if its text consists of trivia and tokens at all;
otherwise it fails at the first character that belongs to neither. On the way, every piece of the
text between two places that the cursor comes to, and the text that is left at each of them, is
there. -/
theorem tokenize_tiles (source : Source) :
    (∀ tokens, source.tokenize = .ok tokens ↔
        ∃ ts stop, source.Tiles 0 ts stop ∧ source.SkipsTo stop source.size [] ∧
          tokens = ts ++ [source.endToken]) ∧
      (∀ tokens, source.tokenize = .ok tokens → tokens.Pairwise fun s t =>
        s.span.offset < t.span.offset ∧ s.span.stop ≤ t.span.offset) ∧
      ((∃ tokens, source.tokenize = .ok tokens) ↔ Splits source.chars) ∧
      (∀ error, source.tokenize = .error error ↔
        ∃ ts stop, source.Tiles 0 ts stop ∧ source.Ends stop (.error error)) ∧
      ∀ n, ∃ passed rest, (source.cursorAfter n).rest = passed ++ rest ∧
        source.cursorAfter (n + 1) = (source.cursorAfter n).past passed ∧
        ∀ xs ys, xs ++ ys <+: passed →
          source.slice? ((source.cursorAfter n).past xs).offset
            ((source.cursorAfter n).past (xs ++ ys)).offset = some ys ∧
          source.slice? ((source.cursorAfter n).past xs).offset source.size =
            some ((source.cursorAfter n).past xs).rest := by
  refine ⟨fun _ => tokenize_eq_ok_iff, fun _ => pairwise_of_tokenize,
    source.exists_tokenize_eq_ok_iff, fun _ => tokenize_eq_error_iff, fun n => ?_⟩
  obtain ⟨before, stands, same⟩ := source.stands_cursorAfter n
  obtain ⟨passed, rest, goes, moved⟩ := (source.cursorAfter n).exists_next_eq_past
  refine ⟨passed, rest, goes, (source.cursorAfter_succ n).trans moved, ?_⟩
  rintro xs ys ⟨zs, rfl⟩
  rw [List.append_assoc, List.append_assoc] at goes
  have here := stands.past goes
  have left : ((source.cursorAfter n).past xs).rest = ys ++ (zs ++ rest) := by
    rw [Cursor.rest_past, goes, List.drop_left]
  have pieces := here.slice?_past left
  rwa [Cursor.past_past, Cursor.source_past, same] at pieces

/-- A text of a name, an operator, a slash and a number, with a comment that no line feed ends. -/
theorem tokenize_tiles_comment :
    ∃ tokens, (⟨"if0!=/ 12//é", none⟩ : Source).tokenize = .ok tokens ∧
      tokens.Pairwise fun s t => s.span.offset < t.span.offset ∧ s.span.stop ≤ t.span.offset := by
  have name : TokenKind.identifier.HasText ['i', 'f', '0'] :=
    ⟨by decide, fun k => by cases k <;> decide⟩
  have differs : (TokenKind.operator .bang true).HasText ['!', '='] := ⟨rfl, rfl⟩
  have slash : (TokenKind.operator .slash false).HasText ['/'] := ⟨rfl, by decide⟩
  have number : TokenKind.number.HasText ['1', '2'] := ⟨by decide, by simp⟩
  have comment : Splits ('/' :: '/' :: (['é'] ++ [])) := .comment (by decide) nofun .nil
  have splits : Splits "if0!=/ 12//é".toList :=
    .token name (.token differs (.token slash (.blank (by decide) (.token number comment))))
  obtain ⟨-, ordered, accepts, -⟩ := tokenize_tiles ⟨"if0!=/ 12//é", none⟩
  obtain ⟨tokens, lexed⟩ := accepts.mpr splits
  exact ⟨tokens, lexed, ordered tokens lexed⟩

end Source

end ThreeAddress
