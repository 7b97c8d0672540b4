-- SUMMARY: A parser with a window of two tokens ends as the parser of lines does.
import LineScript.Proofs.Lines
import Mathlib.Logic.Function.Iterate

/-!
# A parser with a window

The parser can also be run without cutting its tokens into lines first: it sees the current token
and the one behind it, decides by these two what to do, and goes on by one token at a time. Behind
the last token the last end of input comes into the window again and again. A run of this parser
ends with the tree or the error, and with the notes, of the parser of lines: from the first token of
a line it comes to the end of the line, or gives up, exactly as the line says.
-/

namespace LineScript

open Statement (State Stuck)

/-! ## The window -/

/-- A token list and behind it, for ever, the last end of input in it. -/
def Program.padded (tokens : List Token) : Stream' Token :=
  tokens ++ₛ Stream'.const (Line.padding tokens)

theorem Program.kind_padding (tokens : List Token) : (Line.padding tokens).kind = .eof := by
  unfold Line.padding
  cases h : tokens.reverse.find? fun t => t.kind = .eof with
  | none => rfl
  | some t => simpa using List.find?_some h

/-- What the parser sees of its tokens, and what it has noted. -/
structure Reader where
  current : Token
  /-- The token behind the current one. -/
  peek : Token
  /-- The tokens behind the window. -/
  rest : List Token
  /-- The last end of input that came into the window. -/
  eof : Token
  notes : List Program.Note

namespace Reader

/-- The window moves by one token. If there is none left, the last end of input comes in again. -/
def shift (r : Reader) : Reader :=
  match r.rest with
  | [] => { r with current := r.peek, peek := r.eof }
  | t :: ts =>
    { r with current := r.peek, peek := t, rest := ts, eof := if t.kind = .eof then t else r.eof }

/-- The parser makes a note. -/
def note (r : Reader) (n : Program.Note) : Reader := { r with notes := r.notes ++ [n] }

/-- The next token becomes the current one, and the parser notes it. -/
def advance (r : Reader) : Reader := r.shift.note (.advance r.shift.current)

/-- The window on the first two tokens of a list. -/
def start (tokens : List Token) : Reader :=
  shift (shift ⟨.nowhere, .nowhere, tokens, .nowhere, []⟩)

/-- What comes into the window behind the last token. -/
def pad (r : Reader) : Token := (r.rest.reverse.find? fun t => t.kind = .eof).getD r.eof

/-- The current token and all that become current after it. -/
def stream (r : Reader) : Stream' Token :=
  Stream'.cons r.current (Stream'.cons r.peek (r.rest ++ₛ Stream'.const r.pad))

theorem pad_shift (r : Reader) : r.shift.pad = r.pad := by
  unfold shift
  split
  · rfl
  · next t ts hrest =>
    simp only [pad, hrest, List.reverse_cons, List.find?_append]
    cases ts.reverse.find? fun t => t.kind = .eof with
    | some u => rfl
    | none => by_cases ht : t.kind = .eof <;> simp [ht]

@[simp] theorem stream_shift (r : Reader) : r.shift.stream = r.stream.tail := by
  rw [stream, pad_shift, stream, Stream'.tail_cons]
  unfold shift
  split
  · next hrest =>
    have hpad : r.pad = r.eof := by simp [pad, hrest]
    simp only [hrest, hpad, Stream'.nil_append_stream]
    rw [← Stream'.const_eq]
  · next hrest => simp only [hrest, Stream'.cons_append_stream]

@[simp] theorem stream_note (r : Reader) (n : Program.Note) : (r.note n).stream = r.stream := rfl

@[simp] theorem stream_advance (r : Reader) : r.advance.stream = r.stream.tail := by
  rw [advance, stream_note, stream_shift]

theorem stream_start (tokens : List Token) : (start tokens).stream = Program.padded tokens := by
  rw [start, stream_shift, stream_shift]
  rfl

theorem current_eq (r : Reader) : r.current = r.stream.head := rfl

theorem peek_eq (r : Reader) : r.peek = r.stream.tail.head := rfl

theorem notes_shift (r : Reader) : r.shift.notes = r.notes := by
  unfold shift
  split <;> rfl

theorem notes_start (tokens : List Token) : (start tokens).notes = [] := by
  rw [start, notes_shift, notes_shift]

theorem notes_advance (r : Reader) :
    r.advance.notes = r.notes ++ [.advance r.stream.tail.head] := by
  rw [advance, note, notes_shift, current_eq, stream_shift]

theorem stream_advance_iterate (r : Reader) (n : Nat) :
    (advance^[n] r).stream = r.stream.drop n := by
  induction n generalizing r with
  | zero => rfl
  | succ n ih => rw [Function.iterate_succ_apply, ih, stream_advance, Stream'.drop_tail']

/-- The notes of an advance by some tokens are these tokens. -/
theorem notes_advance_iterate (r : Reader) (n : Nat) :
    (advance^[n] r).notes = r.notes ++ (r.stream.tail.take n).map .advance := by
  induction n generalizing r with
  | zero => simp
  | succ n ih =>
    rw [Function.iterate_succ_apply, ih, notes_advance, stream_advance, Stream'.take_succ,
      List.append_assoc]
    rfl

end Reader

/-! ## The parser -/

/-- Where the parser stands. -/
inductive Phase where
  /-- In front of a statement, or of the end of the program. -/
  | line
  /-- At the first token of a statement. -/
  | opening
  /-- At the name of a binding. -/
  | name
  /-- Behind the name of a binding, at the assignment sign. -/
  | assign (name : String)
  /-- In the expressions of a statement. -/
  | inside (state : State)
  /-- Behind a statement, where it has to end. -/
  | complete (statement : Node)
  | halted (result : Except ParseError Node)

/-- The parser between two steps: what it sees and has noted, where it stands, and the statements
    that it has parsed. -/
structure Descent where
  reader : Reader
  phase : Phase
  done : List Node

namespace Descent

/-- The parser in front of a token list. -/
def start (tokens : List Token) : Descent := ⟨.start tokens, .line, []⟩

/-- The parser goes on from the same token. -/
def turn (d : Descent) (phase : Phase) : Descent := { d with phase := phase }

/-- The parser goes on from the next token. -/
def read (d : Descent) (phase : Phase) : Descent :=
  { d with reader := d.reader.advance, phase := phase }

/-- The parser gives up. -/
def fail (d : Descent) (e : ParseError) : Descent := d.turn (.halted (.error e))

/-- One step of the parser. -/
def step (d : Descent) : Descent :=
  let current := d.reader.current
  let peek := d.reader.peek
  match d.phase with
  | .line =>
    if current.kind = .eof then d.turn (.halted (.ok (.program d.done)))
    else { d with reader := d.reader.note (.statement current), phase := .opening }
  | .opening =>
    if current.kind = .const then d.read .name
    else if current.kind = .ident && peek.kind = .assign then d.turn .name
    else if current.kind = .print then d.read (.inside (.wanting (.print []) []))
    -- A blank line, or a token that starts no statement: which of them is seen at the end.
    else d.turn (.complete .blank)
  | .name =>
    if current.kind ≠ .ident then d.fail (.unexpected current (some .identifier))
    else if peek.kind ≠ .assign then d.fail (.unexpected peek (some .assign))
    else d.read (.assign current.text)
  -- The assignment sign was looked at when it was behind the name.
  | .assign name => d.read (.inside (.wanting (.binding name) []))
  | .inside state =>
    if current.kind.endsStatement then
      match state.finish current with
      | .ok n => d.turn (.complete n)
      | .error e => d.fail e
    else
      match state.step current with
      | .ok state => d.read (.inside state)
      | .error e => d.fail e
  | .complete n =>
    if current.kind.endsStatement then { d.read .line with done := d.done ++ [n] }
    else d.fail (.unexpected current none)
  | .halted _ => d

/-- The parser after so many steps on a token list. -/
def after (tokens : List Token) (i : Nat) : Descent := Descent.step^[i] (start tokens)

/-! ## The parser of lines -/

open Program

/-- The parser comes from the one state to the other. -/
def Reaches (d d' : Descent) : Prop := ∃ i, Descent.step^[i] d = d'

theorem Reaches.trans {d d' d'' : Descent} (h : Reaches d d') (h' : Reaches d' d'') :
    Reaches d d'' := by
  obtain ⟨i, rfl⟩ := h
  obtain ⟨j, rfl⟩ := h'
  exact ⟨j + i, Function.iterate_add_apply ..⟩

theorem Reaches.single {d d' : Descent} (h : d.step = d') : Reaches d d' := ⟨1, h⟩

theorem Reaches.head {d d' d'' : Descent} (h : d.step = d') (h' : Reaches d' d'') :
    Reaches d d'' := (Reaches.single h).trans h'

/-- From the phase, at the tokens of a line, the parser comes behind a statement or gives up, as the
    outcome says. It has then read all tokens of the line, or all but those that were left. -/
def Settles (r : Reader) (phase : Phase) (done : List Node) (ts : List Token) :
    Except Stuck Node → Prop
  | .ok n => Reaches ⟨r, phase, done⟩ ⟨Reader.advance^[ts.length] r, .complete n, done⟩
  | .error stuck => ∃ j, j + stuck.rest.length = ts.length ∧
      Reaches ⟨r, phase, done⟩ ⟨Reader.advance^[j] r, .halted (.error stuck.error), done⟩

variable {r : Reader} {phase phase' : Phase} {done : List Node} {ts : List Token}
  {outcome : Except Stuck Node}

theorem Settles.turn (h : Settles r phase' done ts outcome)
    (hstep : step ⟨r, phase, done⟩ = ⟨r, phase', done⟩) : Settles r phase done ts outcome := by
  cases outcome with
  | ok n => exact .head hstep h
  | error stuck =>
    obtain ⟨j, hj, hreaches⟩ := h
    exact ⟨j, hj, .head hstep hreaches⟩

theorem Settles.read {t : Token} (h : Settles r.advance phase' done ts outcome)
    (hstep : step ⟨r, phase, done⟩ = ⟨r.advance, phase', done⟩) :
    Settles r phase done (t :: ts) outcome := by
  cases outcome with
  | ok n => exact .head hstep h
  | error stuck =>
    obtain ⟨j, hj, hreaches⟩ := h
    refine ⟨j + 1, ?_, .head hstep hreaches⟩
    rw [List.length_cons]
    omega

theorem settles_fail {e : ParseError}
    (hstep : step ⟨r, phase, done⟩ = ⟨r, .halted (.error e), done⟩) :
    Settles r phase done ts (.error ⟨e, ts⟩) :=
  ⟨0, Nat.zero_add _, .single hstep⟩

variable {stop : Token} {s : Stream' Token}

theorem current_of_nil (hr : r.stream = [] ++ₛ Stream'.cons stop s) : r.current = stop :=
  congrArg Stream'.head hr

theorem current_of_cons {t : Token} (hr : r.stream = (t :: ts) ++ₛ Stream'.cons stop s) :
    r.current = t ∧ r.advance.stream = ts ++ₛ Stream'.cons stop s := by
  refine ⟨congrArg Stream'.head hr, ?_⟩
  rw [Reader.stream_advance, hr]
  rfl

/-- The expressions of a line: the stack of the parser of lines takes the same tokens. -/
theorem settles_inside (hr : r.stream = ts ++ₛ Stream'.cons stop s)
    (hts : ∀ t ∈ ts, t.kind.endsStatement = false) (hstop : stop.kind.endsStatement)
    (state : State) :
    Settles r (.inside state) done ts (Statement.parseFrom stop state ts) := by
  induction ts generalizing r state with
  | nil =>
    have hcurrent := current_of_nil hr
    simp only [Statement.parseFrom]
    cases hfinish : state.finish stop with
    | ok n =>
      refine Reaches.single ?_
      simp [step, hcurrent, hstop, hfinish, turn]
    | error e =>
      refine settles_fail ?_
      simp [step, hcurrent, hstop, hfinish, fail, turn]
  | cons t ts ih =>
    rw [List.forall_mem_cons] at hts
    obtain ⟨hcurrent, hnext⟩ := current_of_cons hr
    simp only [Statement.parseFrom]
    cases hstate : state.step t with
    | ok state' =>
      refine (ih hnext hts.2 state').read ?_
      simp [step, hcurrent, hts.1, hstate, Descent.read]
    | error e =>
      refine settles_fail ?_
      simp [step, hcurrent, hts.1, hstate, fail, turn]

theorem settles_name (hr : r.stream = ts ++ₛ Stream'.cons stop s)
    (hts : ∀ t ∈ ts, t.kind.endsStatement = false) (hstop : stop.kind.endsStatement) :
    Settles r .name done ts (Statement.parseBinding stop ts) := by
  have hother : ∀ k : Token.Kind, k.endsStatement = false → stop.kind ≠ k :=
    fun k => Token.kind_ne_of_endsStatement hstop
  fun_cases Statement.parseBinding stop ts with
  | case1 =>
    have hcurrent := current_of_nil hr
    refine settles_fail ?_
    simp [step, hcurrent, hother .ident rfl, fail, turn]
  | case2 name hname =>
    have hcurrent := (current_of_cons hr).1
    have hpeek : r.peek = stop := congrArg (·.tail.head) hr
    refine settles_fail ?_
    simp [step, hcurrent, hname, hpeek, hother .assign rfl, fail, turn]
  | case3 name hname =>
    have hcurrent := (current_of_cons hr).1
    refine settles_fail ?_
    simp [step, hcurrent, hname, fail, turn]
  | case4 name assign body hname =>
    have hcurrent := (current_of_cons hr).1
    refine settles_fail ?_
    simp [step, hcurrent, hname, fail, turn]
  | case5 name assign body hname hassign =>
    have hcurrent := (current_of_cons hr).1
    have hpeek : r.peek = assign := congrArg (·.tail.head) hr
    refine settles_fail ?_
    simp [step, hcurrent, hname, hpeek, hassign, fail, turn]
  | case6 name assign body hname hassign =>
    obtain ⟨hcurrent, hnext⟩ := current_of_cons hr
    have hpeek : r.peek = assign := congrArg (·.tail.head) hr
    simp only [List.forall_mem_cons] at hts
    have hassigned : Settles r.advance (.assign name.text) done (assign :: body)
        (Statement.parseFrom stop (.wanting (.binding name.text) []) body) :=
      (settles_inside (current_of_cons hnext).2 hts.2.2 hstop _).read rfl
    refine hassigned.read ?_
    simp [step, hcurrent, not_not.mp hname, hpeek, not_not.mp hassign, Descent.read]

theorem settles_opening (hr : r.stream = ts ++ₛ Stream'.cons stop s)
    (hts : ∀ t ∈ ts, t.kind.endsStatement = false) (hstop : stop.kind.endsStatement)
    (next : Token) : Settles r .opening done ts (Statement.parse ⟨ts, stop, next⟩) := by
  have hother : ∀ k : Token.Kind, k.endsStatement = false → stop.kind ≠ k :=
    fun k => Token.kind_ne_of_endsStatement hstop
  cases ts with
  | nil =>
    have hcurrent := current_of_nil hr
    refine Reaches.single ?_
    simp [step, hcurrent, hother .const rfl, hother .ident rfl, hother .print rfl, turn]
  | cons t ts =>
    obtain ⟨hcurrent, hnext⟩ := current_of_cons hr
    have hrest := (List.forall_mem_cons.mp hts).2
    have hpeek : decide (r.peek.kind = .assign) = Statement.isRebinding (t :: ts) := by
      have hstream : r.peek = (ts ++ₛ Stream'.cons stop s).head := congrArg (·.tail.head) hr
      rw [hstream]
      cases ts with
      | nil => exact decide_eq_false (hother .assign rfl)
      | cons u us => rfl
    simp only [Statement.parse]
    split
    · next hconst =>
      refine (settles_name hnext hrest hstop).read ?_
      simp [step, hcurrent, hconst, Descent.read]
    · next hconst =>
      split
      · next hbinding =>
        refine (settles_name hr hts hstop).turn ?_
        simp [step, hcurrent, hconst, hpeek, hbinding, turn]
      · next hbinding =>
        split
        · next hprint =>
          refine (settles_inside hnext hrest hstop _).read ?_
          simp [step, hcurrent, hprint, Descent.read]
        · next hprint =>
          -- What starts no statement is taken for a blank line, which does not end there.
          have hblank : Settles r (.complete .blank) done (t :: ts)
              (.error ⟨.unexpected t none, t :: ts⟩) := by
            refine settles_fail ?_
            simp [step, hcurrent, (List.forall_mem_cons.mp hts).1, fail, turn]
          refine hblank.turn ?_
          simp [step, hcurrent, hconst, hpeek, hbinding, hprint, turn]

/-- The reader is at the first token of a line, and the stream goes on behind its end. -/
structure Faces (r : Reader) (l : Line) (s : Stream' Token) : Prop where
  stream : r.stream = l.tokens ++ₛ Stream'.cons l.stop s
  tokens : ∀ t ∈ l.tokens, t.kind.endsStatement = false
  stop : l.stop.kind.endsStatement
  next : s.head = l.next
  first : r.current.kind ≠ .eof

variable {l : Line}

/-- The reader when the parser has begun a statement and read some tokens. -/
def begun (r : Reader) (n : Nat) : Reader := Reader.advance^[n] (r.note (.statement r.current))

theorem Faces.stream_begun (h : Faces r l s) (n : Nat) :
    (begun r n).stream = (l.tokens ++ₛ Stream'.cons l.stop s).drop n := by
  rw [begun, Reader.stream_advance_iterate, Reader.stream_note, h.stream]

theorem Faces.notes_begun (h : Faces r l s) (n : Nat) :
    (begun r n).notes = r.notes ++ .statement l.first ::
      ((l.tokens ++ₛ Stream'.cons l.stop s).tail.take n).map .advance := by
  have hcurrent : r.current = l.first := by
    rw [r.current_eq, h.stream, Line.first]
    cases l.tokens <;> rfl
  rw [begun, Reader.notes_advance_iterate, Reader.stream_note, h.stream, Reader.note, hcurrent,
    List.append_assoc, List.singleton_append]

theorem Faces.settles (h : Faces r l s) (done : List Node) :
    Settles (begun r 0) .opening done l.tokens (Statement.parse l) := by
  have hstream : (begun r 0).stream = l.tokens ++ₛ Stream'.cons l.stop s := h.stream_begun 0
  exact settles_opening hstream h.tokens h.stop l.next

theorem Faces.step (h : Faces r l s) (done : List Node) :
    Descent.step ⟨r, .line, done⟩ = ⟨begun r 0, .opening, done⟩ := by
  simp only [Descent.step, if_neg h.first]
  rfl

/-- A line that is a statement is read up to the first token of the next line. -/
theorem Faces.exists_of_ok (h : Faces r l s) {n : Node} (hparse : Statement.parse l = .ok n)
    (done : List Node) :
    ∃ r', r'.stream = s ∧ r'.notes = r.notes ++ lineNotes l ∧
      Reaches ⟨r, .line, done⟩ ⟨r', .line, done ++ [n]⟩ := by
  have hsettles := h.settles done
  rw [hparse] at hsettles
  have hbehind : (begun r l.tokens.length).stream = Stream'.cons l.stop s := by
    rw [h.stream_begun, Stream'.drop_append_stream]
  have hend : Descent.step ⟨begun r l.tokens.length, .complete n, done⟩ =
      ⟨begun r (l.tokens.length + 1), .line, done ++ [n]⟩ := by
    have hcurrent : (begun r l.tokens.length).current = l.stop := congrArg Stream'.head hbehind
    simp only [Descent.step, hcurrent, h.stop, if_true, Descent.read]
    rw [begun, begun, Function.iterate_succ_apply']
  refine ⟨begun r (l.tokens.length + 1), ?_, ?_,
    (hsettles.head (h.step done)).trans (.single hend)⟩
  · rw [begun, Function.iterate_succ_apply', ← begun, Reader.stream_advance, hbehind,
      Stream'.tail_cons]
  · have htake : (l.tokens ++ₛ Stream'.cons l.stop s).take (l.tokens.length + 2) =
        l.tokens ++ [l.stop, l.next] := h.next ▸ (Stream'.append_take ..).symm
    simp only [h.notes_begun, lineNotes, hparse, ← htake]
    rfl

/-- A line that is no statement is read up to the tokens that are left. -/
theorem Faces.exists_of_error (h : Faces r l s) {stuck : Stuck}
    (hparse : Statement.parse l = .error stuck) (done : List Node) :
    ∃ r', r'.notes = r.notes ++ lineNotes l ∧
      Reaches ⟨r, .line, done⟩ ⟨r', .halted (.error stuck.error), done⟩ := by
  have hsettles := h.settles done
  rw [hparse] at hsettles
  obtain ⟨j, hj, hreaches⟩ := hsettles
  refine ⟨begun r j, ?_, hreaches.head (h.step done)⟩
  have htake : (l.tokens ++ₛ Stream'.cons l.stop s).take (l.tokens.length + 1) =
      l.tokens ++ [l.stop] := (Stream'.append_take ..).symm
  have hread : l.tokens.length - stuck.rest.length = j := by omega
  have hmin : min l.tokens.length j = j := by omega
  simp only [h.notes_begun, lineNotes, hparse, ← htake, hread, Stream'.take_succ, List.drop_one,
    List.tail_cons, Stream'.take_take, hmin]

/-- From the first token of the first line on, the parser ends as the parser of lines does. -/
def Runs (r : Reader) (ls : List Line) : Prop :=
  ∀ done, ∃ r' done', r'.notes = r.notes ++ notes ls ∧
    Reaches ⟨r, .line, done⟩
      ⟨r', .halted ((statements ls).map fun body => .program (done ++ body)), done'⟩

theorem runs_nil (h : r.current.kind = .eof) : Runs r [] := by
  intro done
  refine ⟨r, done, (List.append_nil _).symm, .single ?_⟩
  simp [Descent.step, h, turn, statements, Except.map]

theorem Faces.runs (h : Faces r l s) {ls : List Line} (hls : ∀ r', r'.stream = s → Runs r' ls) :
    Runs r (l :: ls) := by
  intro done
  cases hparse : Statement.parse l with
  | ok n =>
    obtain ⟨r', hstream, hnotes, hline⟩ := h.exists_of_ok hparse done
    obtain ⟨r'', done'', hnotes', hrest⟩ := hls r' hstream (done ++ [n])
    refine ⟨r'', done'', ?_, ?_⟩
    · simp only [notes, hparse, hnotes', hnotes, List.append_assoc]
    · have hbody : ((statements ls).map fun body => Node.program (done ++ [n] ++ body)) =
          (statements (l :: ls)).map fun body => .program (done ++ body) := by
        simp only [statements, hparse]
        cases statements ls <;> simp [Except.map]
      exact hline.trans (hbody ▸ hrest)
  | error stuck =>
    obtain ⟨r', hnotes, hline⟩ := h.exists_of_error hparse done
    refine ⟨r', done, ?_, ?_⟩
    · simp only [notes, hparse, hnotes]
    · simp only [statements, hparse]
      exact hline

theorem runs_cutFrom {pad : Token} (hpad : pad.kind = .eof) {seen tokens : List Token}
    (hseen : ∀ t ∈ seen, t.kind.endsStatement = false)
    (hr : r.stream = seen.reverse ++ₛ (tokens ++ₛ Stream'.const pad)) :
    Runs r (Line.cutFrom pad seen tokens) := by
  have hover : ∀ r' : Reader, r'.stream = Stream'.const pad → Runs r' [] := by
    intro r' hr'
    have hcurrent : r'.current = pad := congrArg Stream'.head hr'
    exact runs_nil (hcurrent ▸ hpad)
  -- The window stays at the first token of a line while the cut looks for the end of that line.
  fun_induction Line.cutFrom pad seen tokens generalizing r with
  | case1 seen hempty =>
    obtain rfl := List.isEmpty_iff.mp hempty
    exact hover r hr
  | case2 seen hempty =>
    have hne : seen.reverse ≠ [] := fun h => hempty (by simpa using h)
    have hreverse : ∀ t ∈ seen.reverse, t.kind.endsStatement = false :=
      fun t ht => hseen t (List.mem_reverse.mp ht)
    have hfaces : Faces r ⟨seen.reverse, pad, pad⟩ (Stream'.const pad) :=
      { stream := by rw [hr, Stream'.nil_append_stream, ← Stream'.const_eq]
        tokens := hreverse
        stop := congrArg Token.Kind.endsStatement hpad
        next := rfl
        first := by
          rw [r.current_eq, hr]
          exact Line.head_ne_eof hne hreverse }
    exact hfaces.runs hover
  | case3 seen t ts heof =>
    simp only [Bool.and_eq_true, decide_eq_true_eq, List.isEmpty_iff] at heof
    obtain ⟨hkind, rfl⟩ := heof
    have hcurrent : r.current = t := congrArg Stream'.head hr
    exact runs_nil (hcurrent ▸ hkind)
  | case4 seen t ts heof hends ih =>
    have hreverse : ∀ t ∈ seen.reverse, t.kind.endsStatement = false :=
      fun t ht => hseen t (List.mem_reverse.mp ht)
    have hfaces : Faces r ⟨seen.reverse, t, ts.headD pad⟩ (ts ++ₛ Stream'.const pad) :=
      { stream := hr
        tokens := hreverse
        stop := hends
        next := by cases ts <;> rfl
        first := by
          rw [r.current_eq, hr]
          by_cases hempty : seen = []
          · subst hempty
            simpa using heof
          · exact Line.head_ne_eof (fun h => hempty (List.reverse_eq_nil_iff.mp h)) hreverse }
    exact hfaces.runs fun r' hr' => ih (List.forall_mem_nil _) hr'
  | case5 seen t ts heof hends ih =>
    refine ih (List.forall_mem_cons.mpr ⟨by simpa using hends, hseen⟩) ?_
    rw [hr, List.reverse_cons, Stream'.append_append_stream]
    rfl

theorem after_of_halted {tokens : List Token} {result : Except ParseError Node} {i j : Nat}
    (h : (after tokens i).phase = .halted result) (hij : i ≤ j) :
    after tokens j = after tokens i := by
  obtain ⟨n, rfl⟩ := Nat.exists_eq_add_of_le' hij
  have hfixed : Descent.step (after tokens i) = after tokens i := by
    simp only [Descent.step, h]
  rw [after, Function.iterate_add_apply]
  exact Function.iterate_fixed hfixed n

/-- The parser comes to an end, with the tree or the error of the tokens and with their notes. -/
theorem exists_halted (tokens : List Token) :
    ∃ i, ∀ j ≥ i, (after tokens j).phase = .halted (ofTokens tokens) ∧
      (after tokens j).reader.notes = tokenNotes tokens := by
  have hruns : Runs (.start tokens) (Line.cut tokens) :=
    runs_cutFrom (kind_padding tokens) (List.forall_mem_nil _) (Reader.stream_start tokens)
  obtain ⟨r', done', hnotes, i, hi⟩ := hruns []
  have hafter : after tokens i =
      ⟨r', .halted ((statements (Line.cut tokens)).map fun body => .program ([] ++ body)), done'⟩ :=
    hi
  refine ⟨i, fun j hj => ?_⟩
  rw [after_of_halted (congrArg Descent.phase hafter) hj, hafter, hnotes, Reader.notes_start]
  exact ⟨rfl, rfl⟩

end Descent

end LineScript
