-- SUMMARY: White space outside tokens and comments at the ends of lines do not matter.
import LineScript.Proofs.Malformed
import Mathlib.Logic.Relation

/-!
# Layout

White space may be put anywhere but into the text of a token, and a comment may be put at the end of
any line: the tokens keep their kinds and texts, and only their positions change. What the machine
does with an insertion depends on what is pending there. If that is a comment, the insertion becomes
part of it. Otherwise the insertion completes what is pending, which is no change where the text
behind it would have completed it as well, and that is where no token goes on over the place.
-/

namespace LineScript

namespace Token

/-! ## Kinds and texts -/

/-- The kinds and texts of tokens, without their positions. -/
def lexemes (ts : List Token) : List (Kind × String) := ts.map fun t => (t.kind, t.text)

@[simp] theorem lexemes_append (ts us : List Token) :
    lexemes (ts ++ us) = lexemes ts ++ lexemes us := List.map_append

theorem Segment.lexemes_tokens (before before' : List Char) (segments : List Segment) :
    lexemes (tokens before segments) = lexemes (tokens before' segments) := by
  induction segments generalizing before before' with
  | nil => rfl
  | cons s segments ih =>
    have hfirst : lexemes (s.token? before).toList = lexemes (s.token? before').toList := by
      cases hkind : s.kind? <;> simp [token?, hkind, lexemes]
    rw [tokens, tokens, lexemes_append, lexemes_append, hfirst, ih]

/-- A text gives the same kinds and texts wherever it stands. -/
theorem lexemes_scanFrom_nothing (before before' cs : List Char) :
    lexemes (scanFrom .nothing (Position.start.afterAll before) cs) =
      lexemes (scanFrom .nothing (Position.start.afterAll before') cs) := by
  obtain ⟨segments, -, -, hscan⟩ := Segment.exists_segments cs
  rw [hscan, hscan, lexemes_append, lexemes_append, Segment.lexemes_tokens before before']
  rfl

theorem lexemes_scanFrom_comment (before before' cs : List Char) :
    lexemes (scanFrom .comment (Position.start.afterAll before) cs) =
      lexemes (scanFrom .comment (Position.start.afterAll before') cs) := by
  have hrun : '\n' ∉ cs.takeWhile (· ≠ '\n') := fun h => by simpa using List.mem_takeWhile_imp h
  have hclose : ∀ d, (cs.dropWhile (· ≠ '\n')).head? = some d →
      Pending.comment.extend? d = none := by
    intro d hd
    have hnewline : d = '\n' := by simpa using Segment.stop_of_dropWhile hd
    simp [Pending.extend?, hnewline]
  have hscan : ∀ before, scanFrom .comment (Position.start.afterAll before) cs =
      scanFrom .nothing (Position.start.afterAll (before ++ cs.takeWhile (· ≠ '\n')))
        (cs.dropWhile (· ≠ '\n')) := by
    intro before
    have hcs : cs = cs.takeWhile (· ≠ '\n') ++ cs.dropWhile (· ≠ '\n') := by simp
    conv_lhs => rw [hcs]
    rw [scanFrom_comment hrun, scanFrom_flush _ hclose, Position.afterAll_append]
    rfl
  rw [hscan, hscan]
  exact lexemes_scanFrom_nothing _ _ _

/-! ## The machine inside a text -/

/-- What is pending of a token ends at the position. -/
def Pending.EndsAt (p : Position) : Pending → Prop
  | .nothing | .comment => True
  | .word start seen | .digits start seen =>
    seen ≠ [] ∧ p = ⟨start.line, start.column + seen.length⟩
  | .mark start .. => p = ⟨start.line, start.column + 1⟩

theorem ne_newline_of_isNameChar {c : Char} (h : isNameChar c) : c ≠ '\n' := by
  rintro rfl
  cases h

theorem Pending.endsAt_start (p : Position) (c : Char) : (start p c).2.EndsAt (p.after c) := by
  have hafter : c ≠ '\n' → p.after c = ⟨p.line, p.column + 1⟩ := fun h => if_neg h
  unfold start
  split_ifs with hspace hhash hname hdigit
  · trivial
  · trivial
  · exact ⟨by simp, hafter (ne_newline_of_isNameChar (isNameChar_iff.mpr (.inl hname)))⟩
  · exact ⟨by simp, hafter (ne_newline_of_isNameChar (isNameChar_iff.mpr (.inr hdigit)))⟩
  · split
    · next hpair =>
      refine hafter ?_
      rintro rfl
      cases hpair
    · trivial

/-- What a character can do that belongs to what is pending. -/
theorem Pending.extend?_cases {pending next : Pending} {c : Char} {ts : List Token}
    (h : pending.extend? c = some (ts, next)) :
    (pending = .comment ∧ next = .comment) ∨
    (∃ start seen, pending = .word start seen ∧ next = .word start (c :: seen) ∧ isNameChar c) ∨
    (∃ start seen, pending = .digits start seen ∧ next = .digits start (c :: seen) ∧ c.isDigit) ∨
    ∃ start m alone withEq, pending = .mark start m alone withEq ∧ next = .nothing ∧
      ts = [Token.placed start withEq [m, c]] := by
  cases pending with
  | nothing => cases h
  | comment =>
    simp only [extend?, Option.ite_none_left_eq_some, Option.some.injEq, Prod.mk.injEq] at h
    exact .inl ⟨rfl, h.2.2.symm⟩
  | word start seen =>
    simp only [extend?, Option.ite_none_right_eq_some, Option.some.injEq, Prod.mk.injEq] at h
    exact .inr (.inl ⟨start, seen, rfl, h.2.2.symm, h.1⟩)
  | digits start seen =>
    simp only [extend?, Option.ite_none_right_eq_some, Option.some.injEq, Prod.mk.injEq] at h
    exact .inr (.inr (.inl ⟨start, seen, rfl, h.2.2.symm, h.1⟩))
  | mark start m alone withEq =>
    simp only [extend?, Option.ite_none_right_eq_some, Option.some.injEq, Prod.mk.injEq] at h
    exact .inr (.inr (.inr ⟨start, m, alone, withEq, rfl, h.2.2.symm, h.2.1.symm⟩))

theorem Pending.EndsAt.step {pending : Pending} {p : Position} (h : pending.EndsAt p) (c : Char) :
    (pending.step p c).2.EndsAt (p.after c) := by
  have hafter : isNameChar c → p.after c = ⟨p.line, p.column + 1⟩ :=
    fun hname => if_neg (ne_newline_of_isNameChar hname)
  cases hext : pending.extend? c with
  | none =>
    rw [step_of_flush p hext]
    exact endsAt_start p c
  | some next =>
    rw [step_of_extend p hext]
    obtain ⟨-, hnext⟩ | ⟨start, seen, rfl, hnext, hc⟩ | ⟨start, seen, rfl, hnext, hc⟩ |
      ⟨start, m, alone, withEq, -, hnext, -⟩ := extend?_cases hext
    · rw [hnext]
      trivial
    · obtain ⟨-, rfl⟩ := h
      rw [hnext]
      exact ⟨by simp, hafter hc⟩
    · obtain ⟨-, rfl⟩ := h
      rw [hnext]
      exact ⟨by simp, hafter (isNameChar_iff.mpr (.inr hc))⟩
    · rw [hnext]
      trivial

/-- Behind a text, the machine goes on with what is pending there. -/
theorem Pending.EndsAt.exists_scanFrom {pending : Pending} {p : Position} (h : pending.EndsAt p)
    (front : List Char) :
    ∃ ts next, EndsAt (p.afterAll front) next ∧ ∀ back,
      scanFrom pending p (front ++ back) = ts ++ scanFrom next (p.afterAll front) back := by
  induction front generalizing pending p with
  | nil => exact ⟨[], pending, h, fun _ => rfl⟩
  | cons c front ih =>
    obtain ⟨ts, next, hnext, hscan⟩ := ih (h.step c)
    refine ⟨(pending.step p c).1 ++ ts, next, hnext, fun back => ?_⟩
    rw [List.cons_append, scanFrom, hscan, List.append_assoc, Position.afterAll_cons]

/-! ## Places inside tokens -/

/-- The place lies inside the text of the token. -/
def Covers (t : Token) (p : Position) : Prop :=
  t.line = p.line ∧ t.column < p.column ∧ p.column < t.column + t.text.length

instance (t : Token) (p : Position) : Decidable (t.Covers p) :=
  inferInstanceAs (Decidable (_ ∧ _ ∧ _))

/-- What is collected comes to a token, which has at least the characters collected so far. -/
theorem Collects.exists_token {pend : Position → List Char → Pending} {f : Char → Bool}
    {kind : List Char → Kind} (h : Collects pend f kind) (start p : Position)
    (seen cs : List Char) :
    ∃ t ∈ Token.scanFrom (pend start seen) p cs,
      t.line = start.line ∧ t.column = start.column ∧ seen.length ≤ t.text.length := by
  induction cs generalizing p seen with
  | nil =>
    refine ⟨Token.placed start (kind seen.reverse) seen.reverse, ?_, rfl, rfl, by simp [placed]⟩
    simp [Token.scanFrom, h.flush]
  | cons c cs ih =>
    by_cases hc : f c
    · have hstep := Pending.step_of_extend p (h.extend start seen c hc)
      obtain ⟨t, ht, hline, hcolumn, hlength⟩ := ih (p.after c) (c :: seen)
      refine ⟨t, ?_, hline, hcolumn, Nat.le_of_succ_le hlength⟩
      simpa [Token.scanFrom, hstep] using ht
    · have hstep := Pending.step_of_flush p (h.stop start seen c (by simpa using hc))
      refine ⟨Token.placed start (kind seen.reverse) seen.reverse, ?_, rfl, rfl, by simp [placed]⟩
      simp [Token.scanFrom, hstep, h.flush]

theorem Collects.exists_covers {pend : Position → List Char → Pending} {f : Char → Bool}
    {kind : List Char → Kind} (h : Collects pend f kind) {start : Position} {seen : List Char}
    (hne : seen ≠ []) {c : Char} (hc : f c) (cs : List Char) :
    ∃ t ∈ Token.scanFrom (pend start seen) ⟨start.line, start.column + seen.length⟩ (c :: cs),
      t.Covers ⟨start.line, start.column + seen.length⟩ := by
  have hstep := Pending.step_of_extend ⟨start.line, start.column + seen.length⟩
    (h.extend start seen c hc)
  obtain ⟨t, ht, hline, hcolumn, hlength⟩ := h.exists_token start
    (Position.after ⟨start.line, start.column + seen.length⟩ c) (c :: seen) cs
  have hpos : 0 < seen.length := List.length_pos_iff.mpr hne
  refine ⟨t, ?_, hline, ?_, ?_⟩
  · simpa [Token.scanFrom, hstep] using ht
  · simp only [hcolumn]
    omega
  · rw [List.length_cons] at hlength
    simp only [hcolumn]
    omega

/-- A token that goes on with the next character has the place in front of it inside its text. -/
theorem exists_covers {pending : Pending} {p : Position} {c : Char} (hp : pending.EndsAt p)
    (hcomment : pending ≠ .comment) {next : List Token × Pending}
    (hext : pending.extend? c = some next) (cs : List Char) :
    ∃ t ∈ scanFrom pending p (c :: cs), t.Covers p := by
  obtain ⟨rfl, -⟩ | ⟨start, seen, rfl, -, hc⟩ | ⟨start, seen, rfl, -, hc⟩ |
    ⟨start, m, alone, withEq, rfl, -, htoken⟩ := Pending.extend?_cases hext
  · exact absurd rfl hcomment
  · obtain ⟨hne, rfl⟩ := hp
    exact collects_word.exists_covers hne hc cs
  · obtain ⟨hne, rfl⟩ := hp
    exact collects_digits.exists_covers hne hc cs
  · obtain rfl : p = ⟨start.line, start.column + 1⟩ := hp
    refine ⟨Token.placed start withEq [m, c], ?_, rfl, ?_, ?_⟩
    · simp [scanFrom, Pending.step_of_extend _ hext, htoken]
    · simp only [placed]
      omega
    · simp [placed]

/-! ## Insertions -/

theorem Boundary.extend?_eq_none {rest : List Char} (h : Boundary rest) {pending : Pending}
    (hcomment : pending ≠ .comment) :
    ∀ c, rest.head? = some c → pending.extend? c = none := by
  intro c hc
  obtain ⟨hname, heq⟩ := h c hc
  have hdigit := h.not_isDigit c hc
  cases pending with
  | nothing => rfl
  | comment => exact absurd rfl hcomment
  | word start seen => simp [Pending.extend?, hname]
  | digits start seen => simp [Pending.extend?, hdigit]
  | mark start m alone withEq => simp [Pending.extend?, heq]

/-- A gap without newline, which starts with a boundary and gives no token, does not matter where
    the text behind it completes what is pending anyway. -/
theorem lexemes_scanFrom_gap {pending : Pending} {gap back : List Char} (hline : '\n' ∉ gap)
    (hgap : Boundary (gap ++ back))
    (hskip : ∀ p, scanFrom .nothing p (gap ++ back) = scanFrom .nothing (p.afterAll gap) back)
    (hplace : pending ≠ .comment → ∀ c, back.head? = some c → pending.extend? c = none)
    (front : List Char) :
    lexemes (scanFrom pending (Position.start.afterAll front) (gap ++ back)) =
      lexemes (scanFrom pending (Position.start.afterAll front) back) := by
  by_cases hcomment : pending = .comment
  · rw [hcomment, scanFrom_comment hline, ← Position.afterAll_append,
      lexemes_scanFrom_comment (front ++ gap) front]
  · rw [scanFrom_flush _ (hgap.extend?_eq_none hcomment), scanFrom_flush _ (hplace hcomment), hskip,
      lexemes_append, lexemes_append, ← Position.afterAll_append,
      lexemes_scanFrom_nothing (front ++ gap) front]

/-- One insertion: white space at a place that is not inside a token, or a comment at the end of a
    line. -/
inductive Inserts : List Char → List Char → Prop where
  | spaces (front run back : List Char) (hrun : ∀ c ∈ run, isSpace c)
      (hplace : ∀ t ∈ scan (front ++ back), ¬ t.Covers (Position.start.afterAll front)) :
      Inserts (front ++ back) (front ++ (run ++ back))
  | comment (front text back : List Char) (htext : '\n' ∉ text)
      (hend : ∀ c, back.head? = some c → c = '\n') :
      Inserts (front ++ back) (front ++ ('#' :: text ++ back))

theorem lexemes_insert_spaces {front run back : List Char} (hrun : ∀ c ∈ run, isSpace c)
    (hplace : ∀ t ∈ scan (front ++ back), ¬ t.Covers (Position.start.afterAll front)) :
    lexemes (scan (front ++ (run ++ back))) = lexemes (scan (front ++ back)) := by
  -- An empty run is no boundary, so it is no gap.
  cases run with
  | nil => rfl
  | cons c run =>
    have hboundary : Boundary (c :: run ++ back) := by
      have hspace := isSpace_iff.mp (hrun c (by simp))
      refine boundary_cons ?_ ?_ _ <;> rcases hspace with rfl | rfl | rfl | rfl | rfl <;> decide
    have hline : '\n' ∉ c :: run := fun hmem => absurd (hrun _ hmem) (by decide)
    have hnothing : Pending.nothing.EndsAt .start := trivial
    obtain ⟨ts, pending, hends, hscan⟩ := hnothing.exists_scanFrom front
    rw [scan] at hplace
    rw [scan, scan, hscan, hscan, lexemes_append, lexemes_append,
      lexemes_scanFrom_gap hline hboundary (fun p => scanFrom_spaces hrun p back) ?_ front]
    -- If the next character went on with what is pending, a token would cover the place.
    intro hcomment d hd
    obtain ⟨cs, rfl⟩ := List.head?_eq_some_iff.mp hd
    cases hext : pending.extend? d with
    | none => rfl
    | some next =>
      obtain ⟨t, ht, hcovers⟩ := exists_covers hends hcomment hext cs
      refine absurd hcovers (hplace t ?_)
      rw [hscan]
      exact List.mem_append_right ts ht

theorem lexemes_insert_comment {front text back : List Char} (htext : '\n' ∉ text)
    (hend : ∀ c, back.head? = some c → c = '\n') :
    lexemes (scan (front ++ ('#' :: text ++ back))) = lexemes (scan (front ++ back)) := by
  have hboundary : Boundary back := by
    intro c hc
    rw [hend c hc]
    decide
  have hskip : ∀ p, scanFrom .nothing p ('#' :: text ++ back) =
      scanFrom .nothing (p.afterAll ('#' :: text)) back := by
    intro p
    have hopen : scanFrom .nothing p ('#' :: text ++ back) =
        scanFrom .comment (p.after '#') (text ++ back) := rfl
    have hclose : ∀ c, back.head? = some c → Pending.comment.extend? c = none :=
      fun c hc => by simp [Pending.extend?, hend c hc]
    rw [hopen, scanFrom_comment htext, scanFrom_flush _ hclose]
    rfl
  have hnothing : Pending.nothing.EndsAt .start := trivial
  obtain ⟨ts, pending, -, hscan⟩ := hnothing.exists_scanFrom front
  rw [scan, scan, hscan, hscan, lexemes_append, lexemes_append,
    lexemes_scanFrom_gap (by simp [htext]) (boundary_cons (by decide) (by decide) _) hskip
      hboundary.extend?_eq_none front]

theorem Inserts.lexemes_eq {source source' : List Char} (h : Inserts source source') :
    lexemes (scan source') = lexemes (scan source) := by
  cases h with
  | spaces front run back hrun hplace => exact lexemes_insert_spaces hrun hplace
  | comment front text back htext hend => exact lexemes_insert_comment htext hend

/-- Any number of insertions one after the other. -/
theorem lexemes_eq_of_inserts {source source' : List Char}
    (h : Relation.ReflTransGen Inserts source source') :
    lexemes (scan source') = lexemes (scan source) := by
  induction h with
  | refl => rfl
  | tail _ hstep ih => exact hstep.lexemes_eq.trans ih

/-! ## Texts of the same tokens -/

theorem hasShortRuns_congr {a b : List Char} (h : lexemes (scan a) = lexemes (scan b)) :
    HasShortRuns a ↔ HasShortRuns b := by
  have hlexemes : ∀ source : List Char, HasShortRuns source ↔
      ∀ w ∈ lexemes (scan source), ¬ isOversized ⟨w.1, w.2, 0, 0⟩ := by
    intro source
    rw [lexemes, List.forall_mem_map]
    rfl
  rw [hlexemes, hlexemes, h]

/-- The tokens stand in the same place of two lists and are the same up to their positions. -/
def Corresponds (ts us : List Token) (t u : Token) : Prop :=
  (t.kind = u.kind ∧ t.text = u.text) ∧ ∃ i : Nat, ts[i]? = some t ∧ us[i]? = some u

theorem relocates_corresponds (ts us : List Token) : Relocates (Corresponds ts us) :=
  ⟨fun h => h.1.1, fun h => h.1.2⟩

theorem forall₂_corresponds {ts us : List Token} (h : lexemes ts = lexemes us) :
    List.Forall₂ (Corresponds ts us) ts us := by
  have hlength : ts.length = us.length := by simpa [lexemes] using congrArg List.length h
  refine List.forall₂_iff_get.mpr ⟨hlength, fun i hi hi' => ⟨?_, i, ?_, ?_⟩⟩
  · have hsame : (lexemes ts)[i]? = (lexemes us)[i]? := by rw [h]
    simpa [lexemes, hi, hi'] using hsame
  · simp
  · simp

/-! ## One space between two tokens -/

/-- Lexemes with single spaces between them are read as the tokens that they are. -/
theorem lexemes_scanFrom_spaced {ws : List (Kind × List Char)} (h : ∀ w ∈ ws, Lexeme w.2 w.1)
    (p : Position) :
    lexemes (scanFrom .nothing p ([' '].intercalate (ws.map Prod.snd))) =
      ws.map (fun w => (w.1, String.ofList w.2)) ++ [(.eof, "")] := by
  induction ws generalizing p with
  | nil => rfl
  | cons w ws ih =>
    rw [List.forall_mem_cons] at h
    cases ws with
    | nil =>
      have hlast := h.1.scanFrom (fun _ => nofun : Boundary []) p
      rw [List.append_nil] at hlast
      rw [List.map_singleton, List.intercalate_singleton, hlast]
      rfl
    | cons v ws =>
      have hfirst := h.1.scanFrom (boundary_cons (by decide) (by decide)
        ([' '].intercalate ((v :: ws).map Prod.snd)) : Boundary (' ' :: _)) p
      rw [List.map_cons, List.map_cons, List.intercalate_cons_cons, List.append_assoc,
        List.singleton_append, ← List.map_cons, hfirst]
      exact congrArg (_ :: ·) (ih h.2 _)

theorem lexemes_scan_spaced (source : List Char) :
    lexemes (scan ([' '].intercalate ((lead source).map fun t => t.text.toList))) =
      lexemes (scan source) := by
  have hlexeme : ∀ w ∈ (lead source).map fun t => (t.kind, t.text.toList), Lexeme w.2 w.1 := by
    rw [List.forall_mem_map]
    intro t ht
    have hscan : t ∈ scan source := by
      rw [scan_eq_lead]
      exact List.mem_append_left _ ht
    rcases lexeme_of_mem_scan hscan with ⟨heof, -⟩ | ⟨cs, hcs, htext⟩
    · exact absurd heof (kind_of_mem_lead ht).1
    · rwa [htext, String.toList_ofList]
  have hspaced := lexemes_scanFrom_spaced hlexeme .start
  simp only [List.map_map, Function.comp_def, String.ofList_toList] at hspaced
  rw [scan, hspaced, scan_eq_lead source, lexemes_append]
  rfl

end Token

namespace Program

/-- Texts of related tokens are parsed alike. -/
theorem agree_ofSource {R : Token → Token → Prop} (hR : Token.Relocates R) {a b : List Char}
    (h : List.Forall₂ R (Token.scan a) (Token.scan b)) (ha : Token.HasShortRuns a)
    (hb : Token.HasShortRuns b) : Agree R (ofSource a) (ofSource b) := by
  have hpad : R (Line.padding (Token.scan a)) (Line.padding (Token.scan b)) := by
    have hreverse := List.rel_reverse h
    simp only [Token.scan_eq_lead, Line.padding_concat, List.reverse_append, List.reverse_singleton,
      List.singleton_append] at hreverse ⊢
    exact (List.forall₂_cons.mp hreverse).1
  rw [ofSource_eq_statements ha, ofSource_eq_statements hb]
  exact (agree_statements hR (Line.relocated_cutFrom hR hpad .nil h)).map _

/-- Texts of related tokens are the same program, or have the same error at related tokens. -/
theorem ofSource_of_forall₂ {R : Token → Token → Prop} (hR : Token.Relocates R) {a b : List Char}
    (h : List.Forall₂ R (Token.scan a) (Token.scan b)) (ha : Token.HasShortRuns a)
    (hb : Token.HasShortRuns b) :
    (∃ tree, ofSource a = .ok tree ∧ ofSource b = .ok tree) ∨
      ∃ (t u : Token) (expected : Option Expected), R t u ∧
        ofSource a = .error (.unexpected t expected) ∧
        ofSource b = .error (.unexpected u expected) := by
  have hagree := agree_ofSource hR h ha hb
  rcases ofSource_of_hasShortRuns ha with ⟨body, hbody⟩ | ⟨t, expected, herror⟩
  · exact .inl ⟨_, hbody, hagree.eq_ok_iff.mp hbody⟩
  · rw [herror] at hagree ⊢
    generalize ofSource b = second at hagree ⊢
    cases hagree with
    | error hrelocated =>
      cases hrelocated with
      | unexpected hrelated => exact .inr ⟨t, _, expected, hrelated, rfl, rfl⟩

/-- Texts of the same kinds and texts of tokens are the same program, or have the same error at the
    token in the same place. -/
theorem ofSource_of_lexemes_eq {a b : List Char}
    (h : Token.lexemes (Token.scan a) = Token.lexemes (Token.scan b)) (ha : Token.HasShortRuns a) :
    (∃ tree, ofSource a = .ok tree ∧ ofSource b = .ok tree) ∨
      ∃ (i : Nat) (t u : Token) (expected : Option Expected),
        (Token.scan a)[i]? = some t ∧ (Token.scan b)[i]? = some u ∧
        ofSource a = .error (.unexpected t expected) ∧
        ofSource b = .error (.unexpected u expected) := by
  rcases ofSource_of_forall₂ (Token.relocates_corresponds _ _) (Token.forall₂_corresponds h) ha
    ((Token.hasShortRuns_congr h).mp ha) with hok | ⟨t, u, expected, ⟨-, i, ht, hu⟩, herror, herror'⟩
  · exact .inl hok
  · exact .inr ⟨i, t, u, expected, ht, hu, herror, herror'⟩

/-- Insertions keep the kinds and texts of the tokens, and so the program or the error, and so do
    single spaces in the place of all layout. -/
theorem layout_does_not_matter (source : List Char) (tokens : List Token)
    (h : Token.tokenize? source = some tokens) :
    (∀ source', Relation.ReflTransGen Token.Inserts source source' →
      ∃ tokens', Token.tokenize? source' = some tokens' ∧
        Token.lexemes tokens' = Token.lexemes tokens ∧
        ((∃ tree, ofSource source = .ok tree ∧ ofSource source' = .ok tree) ∨
          ∃ (i : Nat) (t t' : Token) (expected : Option Expected),
            tokens[i]? = some t ∧ tokens'[i]? = some t' ∧
            ofSource source = .error (.unexpected t expected) ∧
            ofSource source' = .error (.unexpected t' expected))) ∧
    ∃ tokens', Token.tokenize? ([' '].intercalate (tokens.dropLast.map fun t => t.text.toList)) =
        some tokens' ∧ Token.lexemes tokens' = Token.lexemes tokens := by
  obtain ⟨rfl, hshort⟩ := Token.tokenize?_eq_some_iff.mp h
  have htokens : ∀ {source'}, Token.lexemes (Token.scan source') =
      Token.lexemes (Token.scan source) → Token.tokenize? source' = some (Token.scan source') :=
    fun hsame => Token.tokenize?_eq_some_iff.mpr
      ⟨rfl, (Token.hasShortRuns_congr hsame).mpr hshort⟩
  constructor
  · intro source' hinserts
    have hsame := Token.lexemes_eq_of_inserts hinserts
    exact ⟨_, htokens hsame, hsame, ofSource_of_lexemes_eq hsame.symm hshort⟩
  · have hsame := Token.lexemes_scan_spaced source
    exact ⟨_, htokens hsame, hsame⟩

/-- White space between a number and a name, and a comment behind them. -/
theorem layout_does_not_matter_commented :
    Relation.ReflTransGen Token.Inserts "x =1a\n!".toList "x =1\t a# b\n!".toList ∧
    ∃ tokens' t', Token.tokenize? "x =1\t a# b\n!".toList = some tokens' ∧
      Token.lexemes tokens' = [(.ident, "x"), (.assign, "="), (.int, "1"), (.ident, "a"),
        (.eol, "\n"), (.illegal, "!"), (.eof, "")] ∧
      ofSource "x =1\t a# b\n!".toList = .error (.unexpected t' none) := by
  have hinserts : Relation.ReflTransGen Token.Inserts "x =1a\n!".toList
      "x =1\t a# b\n!".toList := by
    have hrun : ∀ c ∈ "\t ".toList, Token.isSpace c := by simp [Token.isSpace]
    have hplace : ∀ t ∈ Token.scan ("x =1".toList ++ "a\n!".toList),
        ¬ t.Covers (Position.start.afterAll "x =1".toList) := by decide +kernel
    have hend : ∀ c, "\n!".toList.head? = some c → c = '\n' := by
      rintro c ⟨rfl⟩
      rfl
    exact .tail (.single (.spaces "x =1".toList "\t ".toList "a\n!".toList hrun hplace))
      (.comment "x =1\t a".toList " b".toList "\n!".toList (by decide) hend)
  have herror : ofSource "x =1a\n!".toList = .error (.unexpected ⟨.ident, "a", 1, 5⟩ none) := by
    decide +kernel
  obtain ⟨tokens', htokens, hlexemes, hparsed⟩ :=
    (layout_does_not_matter "x =1a\n!".toList (Token.scan "x =1a\n!".toList)
      (by decide +kernel)).1 _ hinserts
  rw [herror] at hparsed
  rcases hparsed with ⟨tree, hok, -⟩ | ⟨i, t, t', expected, -, -, hsource, hsource'⟩
  · cases hok
  · cases hsource
    exact ⟨hinserts, tokens', t', htokens, hlexemes.trans (by decide +kernel), hsource'⟩

end Program

end LineScript
