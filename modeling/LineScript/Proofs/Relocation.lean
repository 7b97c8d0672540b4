-- SUMMARY: Parsing looks at the kinds and texts of tokens; their positions show in errors only.
import LineScript.Parse.Program
import Mathlib.Data.List.Forall2

/-!
# Relocation

Tokens that differ in their positions only are parsed alike: to the same tree, or to the same error
at the token in the same place. The relation between the positions is a parameter, so it can say how
far the tokens have moved.
-/

namespace LineScript

/-- Related tokens have the same kind and the same text. -/
structure Token.Relocates (R : Token → Token → Prop) : Prop where
  kind : ∀ {t u : Token}, R t u → t.kind = u.kind
  text : ∀ {t u : Token}, R t u → t.text = u.text

/-- The errors are the same up to related tokens. -/
inductive ParseError.Relocated (R : Token → Token → Prop) : ParseError → ParseError → Prop where
  | unexpected {t u : Token} (h : R t u) (expected : Option Expected) :
      Relocated R (.unexpected t expected) (.unexpected u expected)
  | unreadable : Relocated R .unreadable .unreadable
  | outOfRange (text : String) : Relocated R (.outOfRange text) (.outOfRange text)

/-- Both results are the same value, or both are errors that are the same up to related tokens. -/
inductive Agree (R : Token → Token → Prop) {α : Type} :
    Except ParseError α → Except ParseError α → Prop where
  | ok (a : α) : Agree R (.ok a) (.ok a)
  | error {e e' : ParseError} (h : e.Relocated R e') : Agree R (.error e) (.error e')

namespace Agree

variable {R : Token → Token → Prop} {α β : Type} {a b : Except ParseError α}

theorem bind {f g : α → Except ParseError β} (h : Agree R a b) (hfg : ∀ x, Agree R (f x) (g x)) :
    Agree R (a.bind f) (b.bind g) := by
  cases h with
  | ok x => exact hfg x
  | error h => exact .error h

theorem map (f : α → β) (h : Agree R a b) : Agree R (a.map f) (b.map f) := by
  cases h with
  | ok x => exact .ok (f x)
  | error h => exact .error h

theorem unexpected {t u : Token} (h : R t u) (expected : Option Expected) :
    Agree R (.error (.unexpected t expected) : Except ParseError α)
      (.error (.unexpected u expected)) := .error (.unexpected h expected)

theorem eq_ok_iff {x : α} (h : Agree R a b) : a = .ok x ↔ b = .ok x := by
  cases h with
  | ok a => rfl
  | error h => exact iff_of_false nofun nofun

end Agree

/-! ## Statements -/

namespace Statement

variable {R : Token → Token → Prop} (hR : Token.Relocates R)

include hR

theorem State.agree_operand {t u : Token} (h : R t u) (head : Head) (stack : List Frame) :
    Agree R (State.operand head stack t) (State.operand head stack u) := by
  have hnumber : Agree R (number t) (number u) := by
    unfold number
    rw [← hR.text h]
    split
    · exact .error .unreadable
    · split
      · exact .ok _
      · exact .error (.outOfRange _)
  unfold State.operand
  rw [← hR.kind h, ← hR.text h]
  split
  · exact .ok _
  · exact hnumber.map _
  · exact .ok _
  · exact .ok _
  · exact .ok _
  · split
    · exact .ok _
    · exact .unexpected h none

theorem State.agree_ending {t u : Token} (h : R t u) (expr : Node) (head : Head)
    (stack : List Frame) :
    Agree R (State.ending expr head stack t) (State.ending expr head stack u) := by
  unfold State.ending
  rw [← hR.kind h]
  split
  · split
    · exact .ok _
    · exact .unexpected h _
  · split
    · split
      · exact .ok _
      · exact .unexpected h _
    · exact .unexpected h _

theorem State.agree_step {t u : Token} (h : R t u) (s : State) : Agree R (s.step t) (s.step u) := by
  cases s with
  | wanting head stack => exact State.agree_operand hR h head stack
  | having expr head stack =>
    simp only [State.step, ← hR.kind h]
    split
    · exact .ok _
    · exact State.agree_ending hR h expr head stack

omit hR in
theorem State.agree_finish {stop stop' : Token} (hstop : R stop stop') (s : State) :
    Agree R (s.finish stop) (s.finish stop') := by
  cases s with
  | wanting head stack => exact .unexpected hstop _
  | having expr head stack =>
    simp only [State.finish]
    split
    · exact .ok _
    · exact .unexpected hstop _

omit hR in
theorem parseFrom_nil_finish (stop : Token) (s : State) :
    (parseFrom stop s []).mapError Stuck.error = s.finish stop := by
  simp only [parseFrom]
  cases s.finish stop <;> rfl

omit hR in
theorem parseFrom_cons_bind (stop t : Token) (s : State) (ts : List Token) :
    (parseFrom stop s (t :: ts)).mapError Stuck.error =
      (s.step t).bind fun s => (parseFrom stop s ts).mapError Stuck.error := by
  simp only [parseFrom]
  cases s.step t <;> rfl

theorem agree_parseFrom {stop stop' : Token} (hstop : R stop stop') {ts us : List Token}
    (h : List.Forall₂ R ts us) (s : State) :
    Agree R ((parseFrom stop s ts).mapError Stuck.error)
      ((parseFrom stop' s us).mapError Stuck.error) := by
  induction h generalizing s with
  | nil =>
    rw [parseFrom_nil_finish, parseFrom_nil_finish]
    exact State.agree_finish hstop s
  | cons ht _ ih =>
    rw [parseFrom_cons_bind, parseFrom_cons_bind]
    exact (State.agree_step hR ht s).bind ih

theorem agree_parseBinding {stop stop' : Token} (hstop : R stop stop') {ts us : List Token}
    (h : List.Forall₂ R ts us) :
    Agree R ((parseBinding stop ts).mapError Stuck.error)
      ((parseBinding stop' us).mapError Stuck.error) := by
  cases h with
  | nil => exact .unexpected hstop _
  | cons hname hrest =>
    cases hrest with
    | nil =>
      simp only [parseBinding, ← hR.kind hname]
      split
      · exact .unexpected hstop _
      · exact .unexpected hname _
    | cons hassign hbody =>
      simp only [parseBinding, ← hR.kind hname, ← hR.kind hassign, ← hR.text hname]
      split
      · exact .unexpected hname _
      · split
        · exact .unexpected hassign _
        · exact agree_parseFrom hR hstop hbody _

theorem isRebinding_eq {ts us : List Token} (h : List.Forall₂ R ts us) :
    isRebinding us = isRebinding ts := by
  cases h with
  | nil => rfl
  | cons _ hrest =>
    cases hrest with
    | nil => rfl
    | cons hassign _ => simp only [isRebinding, hR.kind hassign]

end Statement

/-! ## Lines -/

/-- The lines hold related tokens. What follows a line is not looked at. -/
structure Line.Relocated (R : Token → Token → Prop) (l m : Line) : Prop where
  tokens : List.Forall₂ R l.tokens m.tokens
  stop : R l.stop m.stop

section

variable {R : Token → Token → Prop} (hR : Token.Relocates R)

include hR

theorem Statement.agree_parse {l m : Line} (h : l.Relocated R m) :
    Agree R ((Statement.parse l).mapError Stuck.error)
      ((Statement.parse m).mapError Stuck.error) := by
  obtain ⟨ts, stop, next⟩ := l
  obtain ⟨us, stop', next'⟩ := m
  obtain ⟨htokens, hstop⟩ := h
  simp only at htokens hstop
  unfold Statement.parse
  cases htokens with
  | nil => exact .ok Node.blank
  | cons ht hts =>
    have hall := List.Forall₂.cons ht hts
    simp only [isRebinding_eq hR hall, ← hR.kind ht]
    split
    · exact agree_parseBinding hR hstop hts
    · split
      · exact agree_parseBinding hR hstop hall
      · split
        · exact agree_parseFrom hR hstop hts _
        · exact .unexpected ht none

theorem Line.relocated_cutFrom {pad pad' : Token} (hpad : R pad pad') {seen seen' ts us : List Token}
    (hseen : List.Forall₂ R seen seen') (h : List.Forall₂ R ts us) :
    List.Forall₂ (Line.Relocated R) (cutFrom pad seen ts) (cutFrom pad' seen' us) := by
  induction h generalizing seen seen' with
  | nil =>
    simp only [cutFrom]
    cases hseen with
    | nil => exact .nil
    | cons ht hts => exact .cons ⟨List.rel_reverse (.cons ht hts), hpad⟩ .nil
  | @cons t u ts us ht hts ih =>
    have hempty : seen'.isEmpty = seen.isEmpty := by cases hseen <;> rfl
    simp only [cutFrom, hempty, ← hR.kind ht]
    split
    · exact .nil
    · split
      · exact .cons ⟨List.rel_reverse hseen, ht⟩ (ih .nil)
      · exact ih (.cons ht hseen)

omit hR in
theorem Program.statements_cons (l : Line) (ls : List Line) :
    statements (l :: ls) = ((Statement.parse l).mapError Statement.Stuck.error).bind fun s =>
      (statements ls).map (s :: ·) := by
  simp only [statements]
  cases Statement.parse l <;> rfl

theorem Program.agree_statements {ls ms : List Line} (h : List.Forall₂ (Line.Relocated R) ls ms) :
    Agree R (statements ls) (statements ms) := by
  induction h with
  | nil => exact .ok []
  | cons hl _ ih =>
    rw [statements_cons, statements_cons]
    exact (Statement.agree_parse hR hl).bind fun s => ih.map (s :: ·)

end

end LineScript
