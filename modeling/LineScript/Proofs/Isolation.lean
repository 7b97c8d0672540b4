-- SUMMARY: Blank and malformed lines say nothing but their own error and leave the loop as it was.
import LineScript.Proofs.Interaction
import LineScript.Proofs.JsonText
import LineScript.Proofs.Malformed

/-!
# Isolation of lines

The loop is taken apart into what becomes of each line. A line that can be cut into tokens never
ends the loop with a failure, since the bindings stay well-formed whatever the lines before have
done, and a line that is blank or malformed leaves them as they are. So such a line can be deleted:
the replies to all other lines stay the same, and so do the bindings behind the last of them.
-/

namespace LineScript

/-! ## Lines of a text -/

/-- The lines of a text are still lines when one of them is deleted. -/
theorem Text.splitLines_delete {input line : List Char} {before after : List (List Char)}
    (h : splitLines input = before ++ line :: after) :
    splitLines (before ++ after).flatten = before ++ after := by
  induction input using lines_induction generalizing before with
  | last l hl =>
    by_cases hempty : l = []
    · subst hempty
      simp [splitLines] at h
    · rw [splitLines_last hl hempty] at h
      obtain ⟨rfl, rfl⟩ : before = [] ∧ after = [] := by
        cases before <;> simp_all
      rfl
  | newline l rest hl ih =>
    rw [splitLines_newline hl] at h
    cases before with
    | nil =>
      obtain ⟨-, rfl⟩ := List.cons.inj h
      rw [List.nil_append, flatten_splitLines]
    | cons first before =>
      obtain ⟨rfl, hrest⟩ := List.cons.inj h
      have hflat : ((l ++ ['\n']) :: before ++ after).flatten =
          l ++ '\n' :: (before ++ after).flatten := by
        simp
      rw [hflat, splitLines_newline hl, ih hrest, List.cons_append]

/-! ## Reports of errors are single lines -/

namespace Text

theorem newline_notMem_append {s t : String} (hs : '\n' ∉ s.toList) (ht : '\n' ∉ t.toList) :
    '\n' ∉ (s ++ t).toList := by
  rw [String.toList_append, List.mem_append]
  exact not_or.mpr ⟨hs, ht⟩

theorem newline_notMem_escapeCodePoint (c : Char) : '\n' ∉ escapeCodePoint c := by
  have hdigits : ∀ width n, '\n' ∉ hexDigits width n := notMem_hexDigits (by decide)
  unfold escapeCodePoint
  repeat' split
  all_goals simp [hdigits]

theorem newline_notMem_escapeChar {quote : Char} (hquote : quote ≠ '\n') (c : Char) :
    '\n' ∉ escapeChar quote c := by
  unfold escapeChar
  split
  · next h =>
    have hc : c ≠ '\n' := by
      rintro rfl
      simp [hquote.symm] at h
    simp [hc.symm]
  · split
    · decide
    · split
      · decide
      · next hc =>
        split
        · decide
        · split
          · simp [Ne.symm hc]
          · exact newline_notMem_escapeCodePoint c

theorem newline_notMem_quoted (s : String) : '\n' ∉ (quoted s).toList := by
  have hquote : quoteFor s.toList ≠ '\n' := by
    unfold quoteFor
    split <;> decide
  simp [quoted, quotedChars, newline_notMem_escapeChar hquote, hquote.symm]

end Text

theorem Numeral.newline_notMem_render (n : Int) : '\n' ∉ (render n).toList := by
  have hdigits : ∀ m : Nat, '\n' ∉ natChars m :=
    fun m h => absurd (isDigit_of_mem_natChars h) (by decide)
  cases n with
  | ofNat m => simp [render, chars, hdigits]
  | negSucc m => simp [render, chars, hdigits]

theorem Token.newline_notMem_position (t : Token) : '\n' ∉ t.position.toList := by
  unfold position
  apply Text.newline_notMem_append
  · exact Text.newline_notMem_append (Numeral.newline_notMem_render _) (by decide)
  · exact Numeral.newline_notMem_render _

theorem ParseError.newline_notMem_found {t : Token} (ht : t.kind ∈ Token.Kind.all) :
    '\n' ∉ (found t).toList := by
  have hname : ∀ k ∈ Token.Kind.all, '\n' ∉ k.name.toList := by decide
  unfold found
  repeat' split
  · decide
  · decide
  · apply Text.newline_notMem_append
    · exact Text.newline_notMem_append (hname _ ht) (by decide)
    · exact Text.newline_notMem_quoted _

theorem ParseError.newline_notMem_unexpectedText {t : Token} (ht : t.kind ∈ Token.Kind.all)
    (expected : Option Expected) : '\n' ∉ (unexpectedText t expected).toList := by
  have hposition := t.newline_notMem_position
  have hfound := newline_notMem_found ht
  cases expected with
  | none =>
    refine Text.newline_notMem_append ?_ hposition
    exact Text.newline_notMem_append (Text.newline_notMem_append (by decide) hfound) (by decide)
  | some e =>
    have hexpected : '\n' ∉ e.text.toList := by cases e <;> decide
    refine Text.newline_notMem_append (Text.newline_notMem_append ?_ (by decide)) hfound
    refine Text.newline_notMem_append (Text.newline_notMem_append ?_ (by decide)) hposition
    exact Text.newline_notMem_append (by decide) hexpected

theorem Token.Lexeme.mem_all {cs : List Char} {k : Kind} (h : Lexeme cs k) : k ∈ Kind.all := by
  cases h with
  | keyword h =>
    have hall : ∀ w ∈ keywords, w.2 ∈ Kind.all := by decide
    exact hall _ h
  | operator h =>
    have hall : ∀ w ∈ operators, w.2 ∈ Kind.all := by decide
    exact hall _ h
  | _ => decide

namespace Program

/-- An unexpected token is one of the tokens, or the end of input behind them. -/
theorem holds_of_unexpected {P : Token → Prop} {tokens : List Token} {t : Token}
    {expected : Option Expected} (htokens : ∀ t ∈ tokens, P t) (hnowhere : P .nowhere)
    (h : ofTokens tokens = .error (.unexpected t expected)) : P t := by
  -- The tokens are parsed against themselves, and the relation carries the property to the error.
  have hR : Token.Relocates fun t u => t = u ∧ P t :=
    ⟨fun h => congrArg Token.kind h.1, fun h => congrArg Token.text h.1⟩
  have hpad : P (Line.padding tokens) := by
    unfold Line.padding
    cases hfind : tokens.reverse.find? fun t => t.kind = .eof with
    | none => exact hnowhere
    | some u => exact htokens u (List.mem_reverse.mp (List.mem_of_find?_eq_some hfind))
  have hself : List.Forall₂ (fun t u => t = u ∧ P t) tokens tokens :=
    List.forall₂_same.mpr fun t ht => ⟨rfl, htokens t ht⟩
  have hagree := (agree_statements hR
    (Line.relocated_cutFrom hR ⟨rfl, hpad⟩ .nil hself)).map Node.program
  have hsame : Agree (fun t u => t = u ∧ P t) (ofTokens tokens) (ofTokens tokens) := hagree
  rw [h] at hsame
  cases hsame with
  | error herror =>
    cases herror with
    | unexpected ht => exact ht.2

theorem newline_notMem_of_unexpected {source : List Char} {t : Token} {expected : Option Expected}
    (h : ofSource source = .error (.unexpected t expected)) :
    '\n' ∉ (ParseError.unexpectedText t expected).toList := by
  refine ParseError.newline_notMem_unexpectedText ?_ expected
  unfold ofSource at h
  split at h
  · cases h
  · next tokens htokens =>
    obtain ⟨rfl, -⟩ := Token.tokenize?_eq_some_iff.mp htokens
    refine holds_of_unexpected (P := fun t => t.kind ∈ Token.Kind.all) ?_ (by decide) h
    intro u hu
    rcases Token.lexeme_of_mem_scan hu with ⟨heof, -⟩ | ⟨cs, hcs, -⟩
    · rw [heof]
      decide
    · exact hcs.mem_all

end Program

/-! ## What becomes of each line -/

namespace Repl

/-- The line ends the loop. -/
def isExit (line : List Char) : Bool := Text.trim line = "exit".toList

/-- The lines in front of the first that ends the loop. -/
def heard (lines : List (List Char)) : List (List Char) := lines.takeWhile (!isExit ·)

/-- The lines behind the first that ends the loop. -/
def unheard (lines : List (List Char)) : List (List Char) := (lines.dropWhile (!isExit ·)).tail

/-- What becomes of a line that does not end the loop. -/
def treat (level : Int) (settings : Settings) (env : Env) (line : List Char) : Reply :=
  if Text.trim line = [] then ⟨[], env, none⟩ else answer level settings env line

/-- What becomes of each line in the bindings that the lines before have left. -/
def replies (level : Int) (settings : Settings) (env : Env) : List (List Char) → List Reply
  | [] => []
  | line :: lines =>
    treat level settings env line ::
      replies level settings (treat level settings env line).env lines

/-- The bindings behind lines. -/
def bindings (level : Int) (settings : Settings) (env : Env) (lines : List (List Char)) : Env :=
  lines.foldl (fun env line => (treat level settings env line).env) env

/-- What is said to a terminal behind the last line that is treated: a prompt, which nothing answers
    if the input is over. -/
def closing (interactive : Bool) (lines : List (List Char)) : List Event :=
  prompted interactive ++ if interactive && !lines.any isExit then [.printed "\n"] else []

/-- The loop over the lines has treated each of them up to the first that ends it, behind what was
    said before, and has done nothing else. -/
structure Result.Treats (level : Int) (settings : Settings) (interactive : Bool) (env : Env)
    (opening : List Event) (lines : List (List Char)) (r : Result) : Prop where
  no_failure : r.failure = none
  rest_eq : r.rest = unheard lines
  env_eq : r.env = bindings level settings env (heard lines)
  events_eq : r.events = opening ++
    ((replies level settings env (heard lines)).flatMap (prompted interactive ++ ·.events) ++
      closing interactive lines)

/-! ## One line -/

/-- A line with tokens leaves well-formed bindings and no failure. -/
theorem safe_treat {level : Int} {settings : Settings} {env : Env} {line : List Char}
    (hbuiltins : settings.builtins = .standard) (henv : env.WellFormed)
    (hline : Token.HasShortRuns line) :
    (treat level settings env line).env.WellFormed ∧
      (treat level settings env line).failure = none := by
  unfold treat
  split
  · exact ⟨henv, rfl⟩
  · rcases Program.ofSource_of_hasShortRuns hline with ⟨body, hbody⟩ | ⟨t, expected, herror⟩
    · obtain ⟨henv', hsafe⟩ :=
        Node.safe_run hbuiltins henv (Program.regular_of_ofSource hbody)
      simp only [answer, hbody, Program.watched_run hbody henv.legible]
      cases hr : ((Node.program body).run settings env).result with
      | ok v =>
        rw [hr] at hsafe
        exact ⟨henv', (echo_of_legible (Value.WellFormed.legible hsafe)).2⟩
      | error e =>
        rw [hr] at hsafe
        cases e with
        | fault f => exact ⟨henv', rfl⟩
        | _ => exact hsafe.elim
    · rw [answer_of_unexpected herror]
      exact ⟨henv, rfl⟩

/-- The line is blank or no program. -/
def IsIdle (line : List Char) : Prop :=
  Text.trim line = [] ∨ ∃ e, Program.ofSource line = .error e

/-- The reply says nothing to a blank line, and to any other its error on a single line. -/
def Reply.SaysOnlyError (line : List Char) (reply : Reply) : Prop :=
  if Text.trim line = [] then Event.outputOf reply.events = ""
  else ∃ t expected, Program.ofSource line = .error (.unexpected t expected) ∧
    '\n' ∉ (ParseError.unexpectedText t expected).toList ∧
    Event.outputOf reply.events =
      "Parse error: " ++ ParseError.unexpectedText t expected ++ "\n"

theorem treat_of_isIdle {line : List Char} (hidle : IsIdle line) (hline : Token.HasShortRuns line)
    (level : Int) (settings : Settings) (env : Env) :
    (treat level settings env line).env = env ∧
      (treat level settings env line).SaysOnlyError line := by
  unfold treat Reply.SaysOnlyError
  split
  · exact ⟨rfl, Event.outputOf_nil⟩
  · next hblank =>
    obtain ⟨e, he⟩ := hidle.resolve_left hblank
    rcases Program.ofSource_of_hasShortRuns hline with ⟨body, hbody⟩ | ⟨t, expected, herror⟩
    · rw [hbody] at he
      cases he
    · rw [answer_of_unexpected herror]
      refine ⟨rfl, t, expected, herror, Program.newline_notMem_of_unexpected herror, ?_⟩
      simp [Event.outputOf_parsed, Event.output]

/-! ## One turn of the loop -/

theorem turn_of_isExit {line : List Char} (h : isExit line) (level : Int) (settings : Settings)
    (env : Env) : turn level settings env line = none := by
  have htrim : Text.trim line = "exit".toList := decide_eq_true_iff.mp h
  simp only [turn, Request.of, if_pos htrim]

theorem turn_of_not_isExit {line : List Char} (h : isExit line = false) (level : Int)
    (settings : Settings) (env : Env) :
    turn level settings env line = some (treat level settings env line) := by
  have htrim : Text.trim line ≠ "exit".toList := decide_eq_false_iff_not.mp h
  simp only [turn, treat, Request.of, if_neg htrim]
  by_cases hblank : Text.trim line = []
  · simp only [if_pos hblank]
  · simp only [if_neg hblank]

theorem loop_of_isExit {line : List Char} (h : isExit line) (level : Int) (settings : Settings)
    (interactive : Bool) (env : Env) (lines : List (List Char)) :
    loop level settings interactive env (line :: lines) =
      ⟨prompted interactive, env, lines, none⟩ := by
  rw [loop, turn_of_isExit h]

theorem loop_of_treat {line : List Char} (h : isExit line = false) {level : Int}
    {settings : Settings} {env : Env} (hfailure : (treat level settings env line).failure = none)
    (interactive : Bool) (lines : List (List Char)) :
    loop level settings interactive env (line :: lines) =
      (loop level settings interactive (treat level settings env line).env lines).after
        (prompted interactive ++ (treat level settings env line).events) := by
  simp only [loop, turn_of_not_isExit h, hfailure]

/-! ## Lines that are heard -/

theorem heard_of_isExit {line : List Char} (h : isExit line) (before after : List (List Char)) :
    heard (before ++ line :: after) = heard before := by
  induction before with
  | nil => simp [heard, h]
  | cons first before ih =>
    unfold heard at ih ⊢
    rw [List.cons_append, List.takeWhile_cons, List.takeWhile_cons, ih]

theorem heard_append {before : List (List Char)} (h : ∀ line ∈ before, isExit line = false)
    (after : List (List Char)) : heard (before ++ after) = before ++ heard after :=
  List.takeWhile_append_of_pos fun line hline => by simp [h line hline]

theorem unheard_append {before : List (List Char)} (h : ∀ line ∈ before, isExit line = false)
    (after : List (List Char)) : unheard (before ++ after) = unheard after := by
  unfold unheard
  rw [List.dropWhile_append_of_pos fun line hline => by simp [h line hline]]

theorem mem_of_mem_heard {line : List Char} {lines : List (List Char)} (h : line ∈ heard lines) :
    line ∈ lines :=
  (List.takeWhile_prefix _).subset h

/-! ## Whole inputs -/

theorem loop_treats (level : Int) (settings : Settings) (interactive : Bool) {env : Env}
    {lines : List (List Char)} (hbuiltins : settings.builtins = .standard) (henv : env.WellFormed)
    (hlines : ∀ line ∈ heard lines, Token.HasShortRuns line) :
    (loop level settings interactive env lines).Treats level settings interactive env [] lines := by
  induction lines generalizing env with
  | nil =>
    refine ⟨rfl, rfl, rfl, ?_⟩
    cases interactive <;> rfl
  | cons line lines ih =>
    cases hexit : isExit line with
    | true =>
      rw [loop_of_isExit hexit]
      refine ⟨rfl, ?_, ?_, ?_⟩ <;> simp [heard, unheard, bindings, replies, closing, hexit]
    | false =>
      have hfront : ∀ l ∈ [line], isExit l = false := List.forall_mem_singleton.mpr hexit
      have hheard : heard (line :: lines) = line :: heard lines := heard_append hfront lines
      rw [hheard, List.forall_mem_cons] at hlines
      obtain ⟨henv', hfailure⟩ := safe_treat hbuiltins henv hlines.1
      have hrest := ih henv' hlines.2
      rw [loop_of_treat hexit hfailure]
      refine ⟨hrest.no_failure, ?_, ?_, ?_⟩
      · exact hrest.rest_eq.trans (unheard_append hfront lines).symm
      · rw [hheard]
        exact hrest.env_eq
      · have hclosing : closing interactive (line :: lines) = closing interactive lines := by
          simp [closing, hexit]
        have hevents := hrest.events_eq
        rw [List.nil_append] at hevents
        rw [hheard, hclosing, replies, List.flatMap_cons, List.append_assoc, ← hevents]
        rfl

theorem replies_append (level : Int) (settings : Settings) (env : Env)
    (before after : List (List Char)) :
    replies level settings env (before ++ after) =
      replies level settings env before ++
        replies level settings (bindings level settings env before) after := by
  induction before generalizing env with
  | nil => rfl
  | cons line before ih => simp [replies, bindings, ih]

theorem bindings_append (level : Int) (settings : Settings) (env : Env)
    (before after : List (List Char)) :
    bindings level settings env (before ++ after) =
      bindings level settings (bindings level settings env before) after :=
  List.foldl_append

theorem length_replies (level : Int) (settings : Settings) (env : Env)
    (lines : List (List Char)) :
    (replies level settings env lines).length = lines.length := by
  induction lines generalizing env with
  | nil => rfl
  | cons line lines ih => simp [replies, ih]

theorem run_treats (level : Int) (dialect : Dialect) (interactive : Bool) (input : List Char)
    (h : ∀ line ∈ heard (Text.splitLines input), Token.HasShortRuns line) :
    (run level (.new dialect) interactive input).Treats level (.new dialect) interactive .empty
      (opening interactive) (Text.splitLines input) := by
  obtain ⟨hfailure, hrest, henv, hevents⟩ :=
    loop_treats level (.new dialect) interactive rfl Env.wellFormed_empty h
  refine ⟨hfailure, hrest, henv, ?_⟩
  rw [List.nil_append] at hevents
  rw [← hevents]
  rfl

/-- The input without the line: the loop ends with the same bindings in the same place, and its
    replies are the same except for the one to the line, which says no more than its error. -/
structure Dispensable (level : Int) (settings : Settings) (interactive : Bool)
    (before : List (List Char)) (line : List Char) (after : List (List Char)) : Prop where
  lines_eq : Text.splitLines (before ++ after).flatten = before ++ after
  treats : (run level settings interactive (before ++ after).flatten).Treats level settings
    interactive .empty (opening interactive) (before ++ after)
  env_eq : (run level settings interactive (before ++ after).flatten).env =
    (run level settings interactive (before ++ line :: after).flatten).env
  rest_eq : (run level settings interactive (before ++ after).flatten).rest =
    (run level settings interactive (before ++ line :: after).flatten).rest
  replies_eq : ∃ front reply back, front.length = before.length ∧ reply.SaysOnlyError line ∧
    replies level settings .empty (heard (before ++ line :: after)) = front ++ reply :: back ∧
    replies level settings .empty (heard (before ++ after)) = front ++ back
  closing_eq : closing interactive (before ++ after) =
    closing interactive (before ++ line :: after)

/-- Lines in front of the end are treated alike whether or not a blank or malformed line stands
    among them. -/
theorem replies_of_isIdle {line : List Char} (hidle : IsIdle line)
    (hline : Token.HasShortRuns line) (level : Int) (settings : Settings) (env : Env)
    (before after : List (List Char)) :
    bindings level settings env (before ++ line :: after) =
        bindings level settings env (before ++ after) ∧
      ∃ front reply back, front.length = before.length ∧ reply.SaysOnlyError line ∧
        replies level settings env (before ++ line :: after) = front ++ reply :: back ∧
        replies level settings env (before ++ after) = front ++ back := by
  obtain ⟨henv, hsays⟩ :=
    treat_of_isIdle hidle hline level settings (bindings level settings env before)
  constructor
  · have hcons : ∀ env, bindings level settings env (line :: after) =
        bindings level settings (treat level settings env line).env after := fun _ => rfl
    rw [bindings_append, hcons, henv, bindings_append]
  · refine ⟨replies level settings env before,
      treat level settings (bindings level settings env before) line,
      replies level settings (bindings level settings env before) after,
      length_replies level settings env before, hsays, ?_,
      replies_append level settings env before after⟩
    rw [replies_append, replies, henv]

theorem dispensable_of_isIdle {level : Int} {dialect : Dialect} (interactive : Bool)
    {input line : List Char} {before after : List (List Char)}
    (hsplit : Text.splitLines input = before ++ line :: after)
    (hshort : ∀ l ∈ Text.splitLines input, Token.HasShortRuns l)
    (hbefore : ∀ l ∈ before ++ [line], isExit l = false) (hidle : IsIdle line) :
    Dispensable level (.new dialect) interactive before line after := by
  have hfront := fun l hl => hbefore l (List.mem_append_left _ hl)
  have hinput : (before ++ line :: after).flatten = input := by
    rw [← hsplit, Text.flatten_splitLines]
  have hdelete := Text.splitLines_delete hsplit
  have hheard : heard (before ++ line :: after) = before ++ line :: heard after := by
    rw [List.append_cons, heard_append hbefore, ← List.append_cons]
  have hunheard : unheard (before ++ line :: after) = unheard after := by
    rw [List.append_cons, unheard_append hbefore]
  have hline : Token.HasShortRuns line := hshort line (by simp [hsplit])
  obtain ⟨hbindings, hreplies⟩ :=
    replies_of_isIdle hidle hline level (.new dialect) .empty before (heard after)
  have hwith := run_treats level dialect interactive input fun l hl =>
    hshort l (mem_of_mem_heard hl)
  have hwithout : (run level (.new dialect) interactive (before ++ after).flatten).Treats level
      (.new dialect) interactive .empty (opening interactive) (before ++ after) := by
    have hshort' : ∀ l ∈ heard (before ++ after), Token.HasShortRuns l := by
      intro l hl
      refine hshort l (hsplit ▸ ?_)
      exact List.Sublist.subset (by simp) (mem_of_mem_heard hl)
    have htreats := run_treats level dialect interactive (before ++ after).flatten
    rw [hdelete] at htreats
    exact htreats hshort'
  refine ⟨hdelete, hwithout, ?_, ?_, ?_, ?_⟩
  · rw [hinput, hwithout.env_eq, hwith.env_eq, hsplit, hheard, heard_append hfront, hbindings]
  · rw [hinput, hwithout.rest_eq, hwith.rest_eq, hsplit, hunheard, unheard_append hfront]
  · rwa [hheard, heard_append hfront]
  · simp [closing, hbefore line (by simp)]

/-- What stands behind a line that ends the loop does not matter. -/
theorem run_of_isExit {level : Int} {dialect : Dialect} (interactive : Bool)
    {input input' line : List Char} {before after after' : List (List Char)} (hline : isExit line)
    (hsplit : Text.splitLines input = before ++ line :: after)
    (hsplit' : Text.splitLines input' = before ++ line :: after')
    (hshort : ∀ l ∈ Text.splitLines input, Token.HasShortRuns l) :
    (run level (.new dialect) interactive input').events =
        (run level (.new dialect) interactive input).events ∧
      (run level (.new dialect) interactive input').env =
        (run level (.new dialect) interactive input).env := by
  have hheard : heard (Text.splitLines input') = heard (Text.splitLines input) := by
    rw [hsplit, hsplit', heard_of_isExit hline, heard_of_isExit hline]
  have hclosing : closing interactive (Text.splitLines input') =
      closing interactive (Text.splitLines input) := by
    simp [closing, hsplit, hsplit', hline]
  have hwith := run_treats level dialect interactive input fun l hl =>
    hshort l (mem_of_mem_heard hl)
  have hother := run_treats level dialect interactive input' fun l hl =>
    hshort l (mem_of_mem_heard (hheard ▸ hl))
  constructor
  · rw [hother.events_eq, hwith.events_eq, hheard, hclosing]
  · rw [hother.env_eq, hwith.env_eq, hheard]

/-- The loop over an input whose lines have tokens treats each line up to the first that says `exit`
    and leaves the lines behind it unread. Other lines behind that line change nothing, and each
    blank or malformed line in front of it is dispensable. -/
theorem idle_lines_are_dispensable (level : Int) (dialect : Dialect) (interactive : Bool)
    (input : List Char)
    (h : ∀ line ∈ Text.splitLines input, ∃ tokens, Token.tokenize? line = some tokens) :
    (run level (.new dialect) interactive input).Treats level (.new dialect) interactive .empty
        (opening interactive) (Text.splitLines input) ∧
      (∀ before line after after' input', isExit line →
        Text.splitLines input = before ++ line :: after →
        Text.splitLines input' = before ++ line :: after' →
        (run level (.new dialect) interactive input').events =
            (run level (.new dialect) interactive input).events ∧
          (run level (.new dialect) interactive input').env =
            (run level (.new dialect) interactive input).env) ∧
      ∀ before line after, Text.splitLines input = before ++ line :: after →
        (∀ l ∈ before ++ [line], isExit l = false) → IsIdle line →
        Dispensable level (.new dialect) interactive before line after := by
  have hshort : ∀ line ∈ Text.splitLines input, Token.HasShortRuns line :=
    fun line hline => Token.exists_tokenize?_iff.mp (h line hline)
  refine ⟨?_, ?_, ?_⟩
  · exact run_treats level dialect interactive input fun l hl => hshort l (mem_of_mem_heard hl)
  · intro before line after after' input' hline hsplit hsplit'
    exact run_of_isExit interactive hline hsplit hsplit' hshort
  · intro before line after hsplit hbefore hidle
    exact dispensable_of_isIdle interactive hsplit hshort hbefore hidle

/-- A line without its right operand between lines that bind, fail and print. -/
theorem idle_lines_are_dispensable_without_operand :
    (run 2 (.new .legacy) true
        "x = 1\n \t\nx = 5 +\nprint x / 0\nprint x\n exit \nx = 2".toList).rest =
        ["x = 2".toList] ∧
      Dispensable 2 (.new .legacy) true ["x = 1\n".toList, " \t\n".toList] "x = 5 +\n".toList
        ["print x / 0\n".toList, "print x\n".toList, " exit \n".toList, "x = 2".toList] := by
  have htokens : ∀ line ∈ Text.splitLines
      "x = 1\n \t\nx = 5 +\nprint x / 0\nprint x\n exit \nx = 2".toList,
      (Token.tokenize? line).isSome := by decide +kernel
  have hidle : IsIdle "x = 5 +\n".toList :=
    .inr ⟨.unexpected ⟨.eol, "\n", 1, 8⟩ none, by decide +kernel⟩
  obtain ⟨htreats, -, hdispensable⟩ := idle_lines_are_dispensable 2 .legacy true _ fun line hline =>
    Option.isSome_iff_exists.mp (htokens line hline)
  refine ⟨htreats.rest_eq.trans ?_, hdispensable _ _ _ ?_ ?_ hidle⟩
  · decide +kernel
  · decide +kernel
  · decide +kernel

end Repl

end LineScript
