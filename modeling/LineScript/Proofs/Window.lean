-- SUMMARY: The window of the parser walks the tokens one by one, and the notes tell how far.
import LineScript.Proofs.Descent

/-!
# The walk of the window

A step of the parser leaves the window where it is or moves it by one token, so the window never
skips or repeats a token, and it moves on from an end of input only where that ends a statement. The
notes of a run are therefore the tokens in their order, up to one behind the last at most, and the
tokens at which statements start.
-/

namespace LineScript

/-! ## What a step can do -/

namespace Phase

/-- The parser is inside a statement. -/
def isOpen : Phase → Bool
  | .line | .halted _ => false
  | _ => true

/-- The parser can come there at any token. -/
def isFree : Phase → Bool
  | .line | .assign _ => false
  | _ => true

theorem ne_line_of_isOpen {phase : Phase} (h : phase.isOpen) : phase ≠ .line := by
  rintro rfl
  cases h

theorem ne_line_of_isFree {phase : Phase} (h : phase.isFree) : phase ≠ .line := by
  rintro rfl
  cases h

theorem ne_assign_of_isFree {phase : Phase} (h : phase.isFree) (name : String) :
    phase ≠ .assign name := by
  rintro rfl
  cases h

end Phase

namespace Descent

/-- What a step can do to the parser. -/
inductive Moves : Descent → Descent → Prop where
  | halted {d : Descent} {result : Except ParseError Node} (h : d.phase = .halted result) :
      Moves d d
  | stops {d : Descent} (h : d.phase = .line) (heof : d.reader.current.kind = .eof) :
      Moves d (d.turn (.halted (.ok (.program d.done))))
  | begins {d : Descent} (h : d.phase = .line) (hne : d.reader.current.kind ≠ .eof) :
      Moves d { d with reader := d.reader.note (.statement d.reader.current), phase := .opening }
  | turns {d : Descent} {phase : Phase} (h : d.phase.isOpen) (hphase : phase.isFree) :
      Moves d (d.turn phase)
  | reads {d : Descent} {phase : Phase} (h : d.phase.isOpen)
      (hcurrent : d.reader.current.kind.endsStatement = false)
      (hphase : phase.isFree ∨ ∃ name, phase = .assign name ∧ d.reader.peek.kind = .assign) :
      Moves d (d.read phase)
  | ends {d : Descent} {n : Node} (h : d.phase = .complete n)
      (hcurrent : d.reader.current.kind.endsStatement) :
      Moves d { d.read .line with done := d.done ++ [n] }

theorem moves_step (d : Descent)
    (hassign : ∀ name, d.phase = .assign name → d.reader.current.kind = .assign) :
    Moves d d.step := by
  obtain ⟨r, phase, done⟩ := d
  cases phase with
  | line =>
    simp only [step]
    split
    · next heof => exact .stops rfl heof
    · next hne => exact .begins rfl hne
  | opening =>
    simp only [step]
    split
    · next hconst => exact .reads rfl (congrArg Token.Kind.endsStatement hconst) (.inl rfl)
    · split
      · exact .turns rfl rfl
      · split
        · next hprint => exact .reads rfl (congrArg Token.Kind.endsStatement hprint) (.inl rfl)
        · exact .turns rfl rfl
  | name =>
    simp only [step]
    split
    · exact .turns rfl rfl
    · next hident =>
      split
      · exact .turns rfl rfl
      · next hpeek =>
        have hident := not_not.mp hident
        exact .reads rfl (congrArg Token.Kind.endsStatement hident)
          (.inr ⟨_, rfl, not_not.mp hpeek⟩)
  | assign name =>
    have hkind : r.current.kind = .assign := hassign name rfl
    exact .reads rfl (congrArg Token.Kind.endsStatement hkind) (.inl rfl)
  | inside state =>
    simp only [step]
    split
    · split <;> exact .turns rfl rfl
    · next hcurrent =>
      split
      · exact .reads rfl (by simpa using hcurrent) (.inl rfl)
      · exact .turns rfl rfl
  | complete n =>
    simp only [step]
    split
    · next hcurrent => exact .ends rfl hcurrent
    · exact .turns rfl rfl
  | halted result => exact .halted rfl

end Descent

/-! ## Where the window stands -/

namespace Program

/-- The place is the first one, or one behind the end of a statement. -/
def behindEnd (s : Stream' Token) : Nat → Bool
  | 0 => true
  | i + 1 => (s.get i).kind.endsStatement

/-- A statement starts at the place: no statement goes on there, and there is input. -/
def startsAt (s : Stream' Token) (i : Nat) : Bool := behindEnd s i && (s.get i).kind ≠ .eof

/-- The tokens at which statements start, of so many tokens. -/
def starts (s : Stream' Token) (n : Nat) : List Token :=
  ((List.range n).filter (startsAt s)).map s.get

theorem starts_succ (s : Stream' Token) (n : Nat) :
    starts s (n + 1) = starts s n ++ if startsAt s n then [s.get n] else [] := by
  rw [starts, List.range_succ, List.filter_append, List.map_append, ← starts]
  cases h : startsAt s n <;> simp [h]

/-- The note is of an advance. -/
def Note.isAdvance : Note → Bool
  | .statement _ => false
  | .advance _ => true

@[simp] theorem Note.isAdvance_statement (t : Token) : (Note.statement t).isAdvance = false := rfl

@[simp] theorem Note.isAdvance_advance (t : Token) : (Note.advance t).isAdvance = true := rfl

theorem lt_length_of_kind_ne {tokens : List Token} {k : Nat}
    (h : ((padded tokens).get k).kind ≠ .eof) : k < tokens.length := by
  by_contra hle
  obtain ⟨i, rfl⟩ := Nat.exists_eq_add_of_le (Nat.le_of_not_lt hle)
  refine h ?_
  rw [padded, Stream'.get_append_right, Stream'.get_const, kind_padding]

end Program

/-- The number of places that the parser has come to, those where it has still to begin a statement
    left out. -/
def Phase.reached (k : Nat) : Phase → Nat
  | .line => k
  | _ => k + 1

theorem Phase.reached_of_ne {phase : Phase} (h : phase ≠ .line) (k : Nat) :
    phase.reached k = k + 1 := by
  cases phase with
  | line => exact absurd rfl h
  | _ => rfl

namespace Descent

open Program

/-- The parser has come to the token of the given number: it has noted the tokens on its way and the
    tokens at which statements start. -/
structure Walks (tokens : List Token) (k : Nat) (d : Descent) : Prop where
  stream : d.reader.stream = (padded tokens).drop k
  bound : k ≤ tokens.length + 1
  isOpen : d.phase.isOpen → k ≤ tokens.length
  advances : d.reader.notes.filter Note.isAdvance = ((padded tokens).tail.take k).map .advance
  statements : d.reader.notes.filter (!·.isAdvance) =
    (starts (padded tokens) (d.phase.reached k)).map .statement
  line : d.phase = .line → behindEnd (padded tokens) k
  assign : ∀ name, d.phase = .assign name → d.reader.current.kind = .assign

variable {tokens : List Token} {k : Nat} {d : Descent}

theorem Walks.current (h : Walks tokens k d) : d.reader.current = (padded tokens).get k := by
  rw [d.reader.current_eq, h.stream, Stream'.head_drop]

theorem Walks.peek (h : Walks tokens k d) : d.reader.peek = (padded tokens).get (k + 1) := by
  rw [d.reader.peek_eq, h.stream, Stream'.tail_drop', Stream'.head_drop]

theorem walks_start (tokens : List Token) : Walks tokens 0 (start tokens) := by
  have hnotes : (start tokens).reader.notes = [] := Reader.notes_start tokens
  refine ⟨Reader.stream_start tokens, Nat.zero_le _, nofun, ?_, ?_, fun _ => rfl, nofun⟩
  · rw [hnotes]
    rfl
  · rw [hnotes]
    rfl

theorem Walks.stops (h : Walks tokens k d) (hline : d.phase = .line)
    (heof : d.reader.current.kind = .eof) (result : Except ParseError Node) :
    Walks tokens k (d.turn (.halted result)) := by
  have hstarts : startsAt (padded tokens) k = false := by
    rw [startsAt, ← h.current, heof]
    simp
  refine ⟨h.stream, h.bound, nofun, h.advances, ?_, nofun, nofun⟩
  have hstatements := h.statements
  rw [hline] at hstatements
  exact hstatements.trans (by simp [Phase.reached, starts_succ, hstarts, turn])

theorem Walks.begins (h : Walks tokens k d) (hline : d.phase = .line)
    (hne : d.reader.current.kind ≠ .eof) :
    Walks tokens k
      { d with reader := d.reader.note (.statement d.reader.current), phase := .opening } := by
  have hstarts : startsAt (padded tokens) k := by
    rw [startsAt, h.line hline, ← h.current]
    simpa using hne
  refine ⟨h.stream, h.bound, fun _ => ?_, ?_, ?_, nofun, nofun⟩
  · exact Nat.le_of_lt (lt_length_of_kind_ne (h.current ▸ hne))
  · rw [← h.advances]
    simp [Reader.note]
  · have hstatements := h.statements
    rw [hline] at hstatements
    simp [Reader.note, hstatements, Phase.reached, starts_succ, hstarts, h.current]

theorem Walks.turns (h : Walks tokens k d) {phase : Phase} (hopen : d.phase.isOpen)
    (hphase : phase.isFree) : Walks tokens k (d.turn phase) := by
  have hline := Phase.ne_line_of_isFree hphase
  have hassign := Phase.ne_assign_of_isFree hphase
  refine ⟨h.stream, h.bound, fun _ => h.isOpen hopen, h.advances, ?_,
    fun hphase => absurd hphase hline, fun name hphase => absurd hphase (hassign name)⟩
  have hstatements := h.statements
  rwa [Phase.reached_of_ne (Phase.ne_line_of_isOpen hopen), ← Phase.reached_of_ne hline]
    at hstatements

theorem Walks.stream_advance (h : Walks tokens k d) :
    d.reader.advance.stream = (padded tokens).drop (k + 1) := by
  rw [Reader.stream_advance, h.stream, Stream'.tail_drop']

/-- The notes of an advance are those before and the token that becomes the current one. -/
theorem Walks.filter_advance (h : Walks tokens k d) :
    d.reader.advance.notes.filter Note.isAdvance =
        ((padded tokens).tail.take (k + 1)).map .advance ∧
      d.reader.advance.notes.filter (!·.isAdvance) = d.reader.notes.filter (!·.isAdvance) := by
  rw [Reader.notes_advance, h.stream, Stream'.tail_drop', Stream'.head_drop, Stream'.take_succ']
  simp [h.advances]

theorem Walks.reads (h : Walks tokens k d) {phase : Phase} (hopen : d.phase.isOpen)
    (hkind : d.reader.current.kind.endsStatement = false)
    (hphase : phase.isFree ∨ ∃ name, phase = .assign name ∧ d.reader.peek.kind = .assign) :
    Walks tokens (k + 1) (d.read phase) := by
  obtain ⟨hline, hassign⟩ : phase ≠ .line ∧
      ∀ name, phase = .assign name → d.reader.peek.kind = .assign := by
    rcases hphase with hfree | ⟨name, rfl, hpeek⟩
    · exact ⟨Phase.ne_line_of_isFree hfree,
        fun name h => absurd h (Phase.ne_assign_of_isFree hfree name)⟩
    · exact ⟨Phase.ne_line_of_isOpen rfl, fun _ _ => hpeek⟩
  -- Behind the last token there are ends of input only.
  have hlt : k < tokens.length := by
    refine lt_length_of_kind_ne ?_
    rw [← h.current]
    exact (Token.kind_ne_of_endsStatement rfl hkind).symm
  have hstarts : startsAt (padded tokens) (k + 1) = false := by
    rw [startsAt, behindEnd, ← h.current, hkind, Bool.false_and]
  refine ⟨?_, Nat.le_succ_of_le hlt, fun _ => hlt, h.filter_advance.1, ?_,
    fun hphase => absurd hphase hline, fun name hphase => ?_⟩
  · exact h.stream_advance
  · have hstatements := h.filter_advance.2.trans h.statements
    rw [Phase.reached_of_ne (Phase.ne_line_of_isOpen hopen)] at hstatements
    rw [read, hstatements, Phase.reached_of_ne hline, starts_succ _ (k + 1), hstarts]
    simp
  · rw [read, Reader.current_eq, h.stream_advance, Stream'.head_drop, ← h.peek]
    exact hassign name hphase

theorem Walks.ends (h : Walks tokens k d) {n : Node} (hcomplete : d.phase = .complete n)
    (hkind : d.reader.current.kind.endsStatement) :
    Walks tokens (k + 1) { d.read .line with done := d.done ++ [n] } := by
  -- The end of a statement may be the first end of input behind the tokens, but not a later one.
  have hle : k ≤ tokens.length := h.isOpen (hcomplete ▸ rfl)
  refine ⟨h.stream_advance, Nat.succ_le_succ hle, nofun, h.filter_advance.1, ?_, fun _ => ?_,
    nofun⟩
  · have hstatements := h.filter_advance.2.trans h.statements
    rwa [hcomplete] at hstatements
  · rw [behindEnd, ← h.current]
    exact hkind

theorem Walks.step (h : Walks tokens k d) : ∃ k', Walks tokens k' d.step := by
  have hmoves := d.moves_step h.assign
  generalize d.step = d' at hmoves
  cases hmoves with
  | halted => exact ⟨k, h⟩
  | stops hline heof => exact ⟨k, h.stops hline heof _⟩
  | begins hline hne => exact ⟨k, h.begins hline hne⟩
  | turns hopen hphase => exact ⟨k, h.turns hopen hphase⟩
  | reads hopen hkind hphase => exact ⟨k + 1, h.reads hopen hkind hphase⟩
  | ends hcomplete hkind => exact ⟨k + 1, h.ends hcomplete hkind⟩

theorem exists_walks (tokens : List Token) (i : Nat) :
    ∃ k, Walks tokens k (after tokens i) := by
  induction i with
  | zero => exact ⟨0, walks_start tokens⟩
  | succ i ih =>
    obtain ⟨k, hk⟩ := ih
    rw [after, Function.iterate_succ_apply']
    exact hk.step

end Descent

/-! ## Notes -/

namespace Program

theorem filter_map_advance (ts : List Token) :
    (ts.map Note.advance).filter (!·.isAdvance) = [] ∧
      (ts.map Note.advance).filter Note.isAdvance = ts.map .advance := by
  simp [List.filter_map, Function.comp_def]

theorem filter_lineNotes (l : Line) :
    (lineNotes l).filter (!·.isAdvance) = [.statement l.first] := by
  obtain ⟨ts, hnotes⟩ : ∃ ts : List Token, lineNotes l =
      .statement l.first :: ts.map .advance := by
    unfold lineNotes
    split <;> exact ⟨_, rfl⟩
  rw [hnotes, List.filter_cons_of_pos rfl, (filter_map_advance ts).1]

/-- Statements are noted line by line. -/
theorem filter_notes_of_ok {ls : List Line} {body : List Node} (h : statements ls = .ok body) :
    (notes ls).filter (!·.isAdvance) = ls.map fun l => .statement l.first := by
  have hls := statements_eq_ok_iff.mp h
  induction hls with
  | nil => rfl
  | cons hl hls ih =>
    simp only [notes, hl, List.filter_append, filter_lineNotes, ih (statements_eq_ok_iff.mpr hls)]
    rfl

/-- An error is that of a line, behind lines that are statements, and all of them are noted. -/
theorem exists_of_statements_error {ls : List Line} {e : ParseError}
    (h : statements ls = .error e) :
    ∃ front l back body stuck, ls = front ++ l :: back ∧
      List.Forall₂ (fun l n => Statement.parse l = .ok n) front body ∧
      Statement.parse l = .error stuck ∧ stuck.error = e ∧
      (notes ls).filter (!·.isAdvance) = (front ++ [l]).map fun l => .statement l.first := by
  induction ls with
  | nil => cases h
  | cons l ls ih =>
    simp only [statements] at h
    cases hparse : Statement.parse l with
    | error stuck =>
      rw [hparse] at h
      cases h
      refine ⟨[], l, ls, [], stuck, rfl, .nil, hparse, rfl, ?_⟩
      simp [notes, hparse, filter_lineNotes]
    | ok n =>
      rw [hparse] at h
      cases hls : statements ls with
      | ok body =>
        rw [hls] at h
        cases h
      | error e' =>
        rw [hls] at h
        cases h
        obtain ⟨front, l', back, body, stuck, rfl, hfront, hl', he, hnotes⟩ := ih hls
        refine ⟨l :: front, l', back, n :: body, stuck, rfl, .cons hparse hfront, hl', he, ?_⟩
        simp only [notes, hparse, List.filter_append, filter_lineNotes, hnotes]
        rfl

/-- The number of tokens of lines, those that end them among them. -/
def extent : List Line → Nat
  | [] => 0
  | l :: ls => l.tokens.length + 1 + extent ls

/-- The parser of a program advances by all tokens of its lines. -/
theorem length_advances_of_ok {ls : List Line} {body : List Node} (h : statements ls = .ok body) :
    ((notes ls).filter Note.isAdvance).length = extent ls := by
  have hls := statements_eq_ok_iff.mp h
  induction hls with
  | nil => rfl
  | @cons l n ls body hl hls ih =>
    have hline : ((lineNotes l).filter Note.isAdvance).length = l.tokens.length + 1 := by
      simp only [lineNotes, hl]
      rw [List.filter_cons_of_neg (by simp), (filter_map_advance _).2]
      simp
    rw [extent, ← ih (statements_eq_ok_iff.mpr hls), ← hline]
    simp only [notes, hl, List.filter_append, List.length_append]

/-- The lines of tokens with one end of input behind them have all the tokens, unless the end of
    input stands where a line would start. -/
theorem extent_cutFrom (pad : Token) {e : Token} (he : e.kind = .eof) {lead : List Token}
    (hlead : ∀ t ∈ lead, t.kind ≠ .eof) (seen : List Token) :
    (Line.cutFrom pad seen (lead ++ [e]) = [] ∧ seen = [] ∧ lead = []) ∨
      ∃ l, (Line.cutFrom pad seen (lead ++ [e])).getLast? = some l ∧
        (l.stop.kind = .eol ∧
            extent (Line.cutFrom pad seen (lead ++ [e])) = seen.length + lead.length ∨
          l.stop.kind = .eof ∧
            extent (Line.cutFrom pad seen (lead ++ [e])) = seen.length + lead.length + 1) := by
  induction lead generalizing seen with
  | nil =>
    by_cases hseen : seen = []
    · exact .inl ⟨by simp [Line.cutFrom, he, hseen], hseen, rfl⟩
    · refine .inr ⟨⟨seen.reverse, e, pad⟩, ?_⟩
      simp [Line.cutFrom, he, hseen, Token.Kind.endsStatement, extent]
  | cons t lead ih =>
    rw [List.forall_mem_cons] at hlead
    by_cases hends : t.kind.endsStatement
    · have heol : t.kind = .eol := by
        simpa [Token.Kind.endsStatement, hlead.1] using hends
      have hcut : Line.cutFrom pad seen (t :: lead ++ [e]) =
          ⟨seen.reverse, t, (lead ++ [e]).headD pad⟩ :: Line.cutFrom pad [] (lead ++ [e]) := by
        simp [Line.cutFrom, heol, Token.Kind.endsStatement]
      rw [hcut, extent, List.length_reverse]
      rcases ih hlead.2 [] with ⟨hnil, -, rfl⟩ | ⟨l, hlast, hstop⟩
      · rw [hnil]
        exact .inr ⟨_, rfl, .inl ⟨heol, by simp [extent]⟩⟩
      · have hlast' : (Line.cutFrom pad [] (lead ++ [e])).getLast?.getD
            ⟨seen.reverse, t, (lead ++ [e]).headD pad⟩ = l := by
          rw [hlast]
          rfl
        refine .inr ⟨l, List.getLast?_cons.trans (congrArg some hlast'), ?_⟩
        rw [List.length_cons]
        rw [List.length_nil] at hstop
        exact hstop.imp (And.imp_right fun h => by omega) (And.imp_right fun h => by omega)
    · have hcut : Line.cutFrom pad seen (t :: lead ++ [e]) =
          Line.cutFrom pad (t :: seen) (lead ++ [e]) := by
        simp [Line.cutFrom, hlead.1, hends]
      rw [hcut]
      rcases ih hlead.2 (t :: seen) with ⟨-, hseen, -⟩ | ⟨l, hlast, hstop⟩
      · cases hseen
      · refine .inr ⟨l, hlast, ?_⟩
        rw [List.length_cons] at hstop ⊢
        exact hstop.imp (And.imp_right fun h => by omega) (And.imp_right fun h => by omega)

theorem ofTokens_eq_program_iff {tokens : List Token} {body : List Node} :
    ofTokens tokens = .ok (.program body) ↔ statements (Line.cut tokens) = .ok body := by
  unfold ofTokens
  cases statements (Line.cut tokens) <;> simp [Except.map]

theorem ofTokens_eq_error_iff {tokens : List Token} {e : ParseError} :
    ofTokens tokens = .error e ↔ statements (Line.cut tokens) = .error e := by
  unfold ofTokens
  cases statements (Line.cut tokens) <;> simp [Except.map]

/-! ## How far the parser goes -/

theorem exists_tokenNotes (tokens : List Token) : ∃ m ≤ tokens.length + 1,
    (tokenNotes tokens).filter Note.isAdvance = ((padded tokens).tail.take m).map .advance ∧
      (tokenNotes tokens).filter (!·.isAdvance) =
        (starts (padded tokens) (m + 1)).map .statement := by
  -- The notes on the tokens are those of the parser where it has come to its end.
  obtain ⟨i, hhalted⟩ := Descent.exists_halted tokens
  obtain ⟨hphase, hnotes⟩ := hhalted i le_rfl
  obtain ⟨m, hm⟩ := Descent.exists_walks tokens i
  refine ⟨m, hm.bound, hnotes ▸ hm.advances, ?_⟩
  have hstatements := hm.statements
  rwa [hnotes, hphase] at hstatements

theorem eq_map_first_of_statements {ts : List Token} {ls : List Line}
    (h : ts.map Note.statement = ls.map fun l => .statement l.first) : ts = ls.map Line.first := by
  have hinjective : Function.Injective Note.statement := fun _ _ => Note.statement.inj
  refine List.map_injective_iff.mpr hinjective ?_
  rw [h, List.map_map]
  rfl

/-- The lines of source text have all its tokens, unless the end of input stands where a line would
    start. -/
theorem extent_of_tokenize? {source : List Char} {tokens : List Token}
    (h : Token.tokenize? source = some tokens) :
    (Line.cut tokens = [] ∧ tokens.length = 1) ∨
      ∃ l, (Line.cut tokens).getLast? = some l ∧
        (l.stop.kind = .eol ∧ extent (Line.cut tokens) + 1 = tokens.length ∨
          l.stop.kind = .eof ∧ extent (Line.cut tokens) = tokens.length) := by
  obtain ⟨rfl, -⟩ := Token.tokenize?_eq_some_iff.mp h
  have hlead : ∀ t ∈ Token.lead source, t.kind ≠ .eof := fun t ht => (Token.kind_of_mem_lead ht).1
  obtain ⟨e, he, hscan⟩ : ∃ e : Token, e.kind = .eof ∧
      Token.scan source = Token.lead source ++ [e] := ⟨_, rfl, Token.scan_eq_lead source⟩
  have hextent := extent_cutFrom (Line.padding (Token.scan source)) he hlead []
  rw [← hscan, ← Line.cut] at hextent
  have hlength : (Token.scan source).length = (Token.lead source).length + 1 := by
    rw [hscan, List.length_append, List.length_singleton]
  rcases hextent with ⟨hcut, -, hnil⟩ | ⟨l, hlast, hstop⟩
  · refine .inl ⟨hcut, ?_⟩
    rw [hlength, hnil, List.length_nil]
  · rw [List.length_nil, Nat.zero_add] at hstop
    refine .inr ⟨l, hlast, hstop.imp (And.imp_right fun h => ?_) (And.imp_right fun h => ?_)⟩
    · rw [hlength, h]
    · rw [hlength, h]

/-- The parser of a program goes up to the end of input, or behind it if a statement ends there. -/
theorem length_advances_of_tokenize? {source : List Char} {tokens : List Token} {body : List Node}
    (hsource : Token.tokenize? source = some tokens)
    (hbody : ofTokens tokens = .ok (.program body)) :
    (body = [] → ((tokenNotes tokens).filter Note.isAdvance).length + 1 = tokens.length) ∧
      ∀ l, (Line.cut tokens).getLast? = some l →
        l.stop.kind = .eol ∧
            ((tokenNotes tokens).filter Note.isAdvance).length + 1 = tokens.length ∨
          l.stop.kind = .eof ∧
            ((tokenNotes tokens).filter Note.isAdvance).length = tokens.length := by
  have hcut := ofTokens_eq_program_iff.mp hbody
  have hlines := (statements_eq_ok_iff.mp hcut).length_eq
  rw [tokenNotes, length_advances_of_ok hcut]
  rcases extent_of_tokenize? hsource with ⟨hnil, hone⟩ | ⟨l, hlast, hstop⟩
  · rw [hnil, hone]
    exact ⟨fun _ => rfl, fun l hl => nomatch hl⟩
  · refine ⟨fun hempty => ?_, fun l' hl' => ?_⟩
    · rw [hempty, List.length_nil, List.length_eq_zero_iff] at hlines
      rw [hlines] at hlast
      cases hlast
    · rw [hlast] at hl'
      cases hl'
      exact hstop

/-- Whatever the tokens are, the window stands behind each advance on the next two tokens of the
    padded list. The parser comes to an end, and its notes name the tokens that it advanced to, in
    order and up to one behind the last at most, and the positions where statements start: one for
    each statement of a program, or for each line in front of the one that fails and for that line.
    Of source text that is a program, the parser reads all tokens, and goes behind the end of input
    exactly if it ends a statement. -/
theorem window_walks_the_tokens (tokens : List Token) :
    (∀ i, ∃ k ≤ tokens.length + 1,
      ((Descent.after tokens i).reader.notes.filter Note.isAdvance).length = k ∧
      (Descent.after tokens i).reader.current = (padded tokens).get k ∧
      (Descent.after tokens i).reader.peek = (padded tokens).get (k + 1)) ∧
    (∃ i, ∀ j ≥ i, (Descent.after tokens j).phase = .halted (ofTokens tokens) ∧
      (Descent.after tokens j).reader.notes = tokenNotes tokens) ∧
    ∃ m ≤ tokens.length + 1,
      ((tokenNotes tokens).filter Note.isAdvance).map Note.text =
        ((padded tokens).tail.take m).map
          (fun t => "advance: " ++ t.kind.name ++ " " ++ Text.quoted t.text) ∧
      ((tokenNotes tokens).filter (!·.isAdvance)).map Note.text =
        (starts (padded tokens) (m + 1)).map
          (fun t => "statement at " ++ Numeral.render t.line ++ ":" ++ Numeral.render t.column) ∧
      (∀ body, ofTokens tokens = .ok (.program body) →
        List.Forall₂ (fun l n => Statement.parse l = .ok n) (Line.cut tokens) body ∧
        starts (padded tokens) (m + 1) = (Line.cut tokens).map Line.first) ∧
      (∀ e, ofTokens tokens = .error e → ∃ front l back body stuck,
        Line.cut tokens = front ++ l :: back ∧
        List.Forall₂ (fun l n => Statement.parse l = .ok n) front body ∧
        Statement.parse l = .error stuck ∧ stuck.error = e ∧
        starts (padded tokens) (m + 1) = (front ++ [l]).map Line.first) ∧
      ∀ source body, Token.tokenize? source = some tokens →
        ofTokens tokens = .ok (.program body) →
        ((tokenNotes tokens).filter (!·.isAdvance)).length = body.length ∧
        (body = [] → m + 1 = tokens.length) ∧
        ∀ l, (Line.cut tokens).getLast? = some l →
          l.stop.kind = .eol ∧ m + 1 = tokens.length ∨
            l.stop.kind = .eof ∧ m = tokens.length := by
  obtain ⟨m, hm, hadvances, hstatements⟩ := exists_tokenNotes tokens
  refine ⟨fun i => ?_, Descent.exists_halted tokens, m, hm, ?_, ?_, fun body hbody => ?_,
    fun e he => ?_, fun source body hsource hbody => ⟨?_, ?_⟩⟩
  · obtain ⟨k, hk⟩ := Descent.exists_walks tokens i
    refine ⟨k, hk.bound, ?_, hk.current, hk.peek⟩
    rw [hk.advances, List.length_map, Stream'.length_take]
  · rw [hadvances, List.map_map]
    rfl
  · rw [hstatements, List.map_map]
    refine List.map_congr_left fun t _ => ?_
    simp [Note.text, Token.position, String.append_assoc]
  · have hcut := ofTokens_eq_program_iff.mp hbody
    refine ⟨statements_eq_ok_iff.mp hcut, eq_map_first_of_statements ?_⟩
    exact hstatements.symm.trans (filter_notes_of_ok hcut)
  · obtain ⟨front, l, back, body, stuck, hcut, hfront, hl, herror, hnotes⟩ :=
      exists_of_statements_error (ofTokens_eq_error_iff.mp he)
    exact ⟨front, l, back, body, stuck, hcut, hfront, hl, herror,
      eq_map_first_of_statements (hstatements.symm.trans hnotes)⟩
  · have hcut := ofTokens_eq_program_iff.mp hbody
    rw [tokenNotes, filter_notes_of_ok hcut, List.length_map,
      (statements_eq_ok_iff.mp hcut).length_eq]
  · have hlength : ((tokenNotes tokens).filter Note.isAdvance).length = m := by
      rw [hadvances, List.length_map, Stream'.length_take]
    exact hlength ▸ length_advances_of_tokenize? hsource hbody

/-- Two statements, the second one ended by the end of input, so that the parser goes behind it; and
    a line that fails behind a line that does not. -/
theorem window_walks_the_tokens_behind_end_of_input :
    Token.tokenize? "y = 2\nprint y".toList = some (Token.scan "y = 2\nprint y".toList) ∧
    ofTokens (Token.scan "y = 2\nprint y".toList) =
      .ok (.program [.ofBinding "y" (.literal (.int 2)), .ofPrint [.ofName "y"]]) ∧
    (Token.scan "y = 2\nprint y".toList).length = 7 ∧
    ((tokenNotes (Token.scan "y = 2\nprint y".toList)).filter Note.isAdvance).length = 7 ∧
    ((tokenNotes (Token.scan "y = 2\nprint y".toList)).filter (!·.isAdvance)).length = 2 ∧
    ∃ front l back body stuck,
      Line.cut (Token.scan "y = 2\nprint (y".toList) = front ++ l :: back ∧
      List.Forall₂ (fun l n => Statement.parse l = .ok n) front body ∧
      Statement.parse l = .error stuck ∧
      stuck.error = .unexpected ⟨.eof, "", 2, 9⟩ (some .closing) := by
  have htokens : Token.tokenize? "y = 2\nprint y".toList =
      some (Token.scan "y = 2\nprint y".toList) := by decide +kernel
  have hprogram : ofTokens (Token.scan "y = 2\nprint y".toList) =
      .ok (.program [.ofBinding "y" (.literal (.int 2)), .ofPrint [.ofName "y"]]) := by
    decide +kernel
  have hlength : (Token.scan "y = 2\nprint y".toList).length = 7 := by decide +kernel
  have hlast : (Line.cut (Token.scan "y = 2\nprint y".toList)).getLast? =
      some ⟨[⟨.print, "print", 2, 1⟩, ⟨.ident, "y", 2, 7⟩],
        ⟨.eof, "", 2, 8⟩, ⟨.eof, "", 2, 8⟩⟩ := by decide +kernel
  obtain ⟨-, -, m, -, hadvances, -, -, -, hsource⟩ :=
    window_walks_the_tokens (Token.scan "y = 2\nprint y".toList)
  obtain ⟨hstatements, -, hstop⟩ := hsource _ _ htokens hprogram
  obtain ⟨hkind, -⟩ | ⟨-, rfl⟩ := hstop _ hlast
  · cases hkind
  · obtain ⟨-, -, _, -, -, -, -, herror, -⟩ :=
      window_walks_the_tokens (Token.scan "y = 2\nprint (y".toList)
    obtain ⟨front, l, back, body, stuck, hcut, hfront, hl, he, -⟩ :=
      herror (.unexpected ⟨.eof, "", 2, 9⟩ (some .closing)) (by decide +kernel)
    refine ⟨htokens, hprogram, hlength, ?_, hstatements, front, l, back, body, stuck, hcut, hfront,
      hl, he⟩
    have hcount := congrArg List.length hadvances
    rw [List.length_map, List.length_map, Stream'.length_take] at hcount
    exact hcount.trans hlength

end Program

end LineScript
