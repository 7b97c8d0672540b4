-- SUMMARY: No number of a JSON text is too long to be written.
import LineScript.Json.Reader
import LineScript.Proofs.Numerals
import Mathlib.Data.List.TakeWhile
import Mathlib.Tactic.SplitIfs

/-!
# Numbers in JSON text

A number of JSON text is an integer of few enough digits or a double, and a finite double has some
three hundred digits in front of its point at most. So the integer part of every number in a text
can be written. It is an invariant of the machine that reads lexemes, which builds values out of
nothing else than what the lexemes give.
-/

namespace LineScript

/-- A computation that gives a result consists of a first part that gives one and of the rest. -/
theorem exists_of_bind {ε α β : Type} {x : Except ε α} {f : α → Except ε β} {b : β}
    (h : x >>= f = .ok b) : ∃ a, x = .ok a ∧ f a = .ok b := by
  cases x with
  | error e => cases h
  | ok a => exact ⟨a, rfl, h⟩

/-! ## Doubles -/

namespace Binary64

/-- The integer part of the number can be written, if it has one. -/
def Moderate : Binary64 → Prop
  | .finite s m e => Numeral.Legible (truncate s m e)
  | .infinite _ | .nan => True

theorem twoTo_pos (k : Nat) : 0 < twoTo k := Nat.pow_pos (by decide)

theorem twoTo_le {k l : Nat} (h : k ≤ l) : twoTo k ≤ twoTo l := Nat.pow_le_pow_right (by decide) h

theorem tenTo_pos (k : Nat) : 0 < tenTo k := Nat.pow_pos (by decide)

theorem tenTo_le {k l : Nat} (h : k ≤ l) : tenTo k ≤ tenTo l := Nat.pow_le_pow_right (by decide) h

theorem tenTo_add (k l : Nat) : tenTo (k + l) = tenTo k * tenTo l := Nat.pow_add ..

theorem legible_of_lt {n : Int} {k : Nat} (h : n.natAbs < tenTo k) (hk : k ≤ Numeral.maxDigits) :
    Numeral.Legible n := Numeral.legible_of_natAbs_lt h hk

theorem natAbs_truncate (s : Bool) (m : Nat) (e : Int) :
    (truncate s m e).natAbs = m * twoTo e.toNat / twoTo (-e).toNat := by
  cases s
  · exact Int.natAbs_natCast _
  · exact (Int.natAbs_neg _).trans (Int.natAbs_natCast _)

theorem moderate_finite {s : Bool} {m : Nat} {e : Int}
    (h : m * twoTo e.toNat / twoTo (-e).toNat < tenTo Numeral.maxDigits) :
    (finite s m e).Moderate := by
  refine legible_of_lt ?_ (Nat.le_refl _)
  rwa [natAbs_truncate]

theorem moderate_zero (s : Bool) (e : Int) : (finite s 0 e).Moderate := by
  refine moderate_finite ?_
  rw [Nat.zero_mul, Nat.zero_div]
  exact tenTo_pos _

theorem twoTo_toNat_le {e : Int} (h : e ≤ greatestExponent) :
    twoTo e.toNat ≤ twoTo greatestExponent.toNat := twoTo_le (Int.toNat_le_toNat h)

theorem roundQuotient_le (num den : Nat) : roundQuotient num den ≤ num / den + 1 := by
  simp only [roundQuotient]
  split <;> omega

/-- Rounding to a multiple of `2 ^ e` adds less than one such unit. -/
theorem rounded_le {num den bound : Nat} {e : Int} (hbound : num < bound * den) :
    roundQuotient (shifted num den e).1 (shifted num den e).2 * twoTo e.toNat /
      twoTo (-e).toNat ≤ bound + twoTo e.toNat := by
  simp only [shifted]
  generalize twoTo e.toNat = unit
  have hinverse := twoTo_pos (-e).toNat
  generalize twoTo (-e).toNat = inverse at hinverse
  have hden : 0 < den := by
    refine Nat.pos_of_ne_zero ?_
    rintro rfl
    exact Nat.not_lt_zero _ hbound
  have hquotient : num * inverse / (den * unit) * unit ≤ bound * inverse := by
    refine Nat.le_of_mul_le_mul_left ?_ hden
    calc den * (num * inverse / (den * unit) * unit)
      _ = num * inverse / (den * unit) * (den * unit) := by ac_rfl
      _ ≤ num * inverse := Nat.div_mul_le_self _ _
      _ ≤ bound * den * inverse := Nat.mul_le_mul_right _ (Nat.le_of_lt hbound)
      _ = den * (bound * inverse) := by ac_rfl
  refine Nat.div_le_of_le_mul ?_
  calc roundQuotient (num * inverse) (den * unit) * unit
    _ ≤ (num * inverse / (den * unit) + 1) * unit := Nat.mul_le_mul_right _ (roundQuotient_le _ _)
    _ = num * inverse / (den * unit) * unit + unit := Nat.succ_mul _ _
    _ ≤ bound * inverse + unit * inverse :=
      Nat.add_le_add hquotient (Nat.le_mul_of_pos_right _ hinverse)
    _ = inverse * (bound + unit) := by rw [← Nat.add_mul, Nat.mul_comm]

theorem moderate_ofRatio {num den : Nat} (negative : Bool) (h : num < tenTo 310 * den) :
    (ofRatio negative num den).Moderate := by
  unfold ofRatio
  split
  · exact moderate_zero _ _
  simp only
  generalize (if twoTo 53 * _ ≤ _ then _ else _ : Int) = e
  split <;> split
  · trivial
  · -- the significand was rounded up to a power of two
    next hgreatest =>
    have hunit := twoTo_toNat_le (Int.not_lt.mp hgreatest)
    refine moderate_finite (Nat.lt_of_le_of_lt (Nat.div_le_self _ _) ?_)
    have hsmall : twoTo 52 * twoTo greatestExponent.toNat < tenTo Numeral.maxDigits := by
      decide +kernel
    exact Nat.lt_of_le_of_lt (Nat.mul_le_mul_left _ hunit) hsmall
  · trivial
  · next hgreatest =>
    have hunit := twoTo_toNat_le (Int.not_lt.mp hgreatest)
    refine moderate_finite (Nat.lt_of_le_of_lt (rounded_le h) ?_)
    have hsmall : tenTo 310 + twoTo greatestExponent.toNat < tenTo Numeral.maxDigits := by
      decide +kernel
    exact Nat.lt_of_le_of_lt (Nat.add_le_add_left hunit _) hsmall

theorem lt_tenTo_length (n : Nat) : n < tenTo (Numeral.natChars n).length := by
  have hpos : 0 < (Numeral.natChars n).length := List.length_pos_iff.mpr Nat.toDigits_ne_nil
  exact (Nat.length_toDigits_le_iff (by decide) hpos).mp (Nat.le_refl _)

theorem moderate_ofDecimal (negative : Bool) (digits : Nat) (scale : Int) :
    (ofDecimal negative digits scale).Moderate := by
  unfold ofDecimal
  split
  · exact moderate_zero _ _
  simp only
  split
  · trivial
  · next hmagnitude =>
    split
    · exact moderate_zero _ _
    · refine moderate_ofRatio negative ?_
      have hdigits := lt_tenTo_length digits
      generalize (Numeral.natChars digits).length = length at hmagnitude hdigits
      calc digits * tenTo scale.toNat
        _ < tenTo length * tenTo scale.toNat := Nat.mul_lt_mul_of_pos_right hdigits (tenTo_pos _)
        _ = tenTo (length + scale.toNat) := (tenTo_add ..).symm
        _ ≤ tenTo (310 + (-scale).toNat) := tenTo_le (by omega)
        _ = tenTo 310 * tenTo (-scale).toNat := tenTo_add ..

end Binary64

/-! ## Values -/

/-- The integer part of the value can be written, if it has one. -/
def Scalar.Moderate : Scalar → Prop
  | .int n => Numeral.Legible n
  | .real x => x.Moderate
  | .null | .bool _ | .text _ => True

namespace Json

/-- The integer part of each number in the value can be written. -/
inductive Moderate : Json → Prop where
  | scalar {s : Scalar} (hs : s.Moderate) : Moderate (.scalar s)
  | list {items : List Json} (hitems : ∀ x ∈ items, Moderate x) : Moderate (.list items)
  | object {fields : List (String × Json)} (hfields : ∀ f ∈ fields, Moderate f.2) :
      Moderate (.object fields)

theorem forall_mem_putField {P : Json → Prop} {fields : List (String × Json)}
    (h : ∀ f ∈ fields, P f.2) (key : String) {value : Json} (hvalue : P value) :
    ∀ f ∈ putField fields key value, P f.2 := by
  induction fields with
  | nil => exact List.forall_mem_singleton.mpr hvalue
  | cons f fields ih =>
    rw [List.forall_mem_cons] at h
    rw [putField]
    split
    · exact List.forall_mem_cons.mpr ⟨hvalue, h.2⟩
    · exact List.forall_mem_cons.mpr ⟨h.1, ih h.2⟩

/-! ## Lexemes -/

/-- If the lexeme gives a value, it is moderate. -/
def Lexeme.Moderate : Lexeme → Prop
  | .scalar s => s.Moderate
  | _ => True

theorem isDigit_of_mem_wholeDigits (cs : List Char) : ∀ c ∈ wholeDigits cs, c.isDigit := by
  unfold wholeDigits
  split
  · exact List.forall_mem_singleton.mpr rfl
  · exact fun c hc => List.mem_takeWhile_imp hc

theorem Lexeme.moderate_ofNumber (negative : Bool) (cs : List Char) :
    (Lexeme.ofNumber negative cs).Moderate := by
  simp only [Lexeme.ofNumber]
  split
  · trivial
  split
  · split
    · trivial
    · next hlength =>
      split
      · have hlt := Numeral.digitsValue_lt (isDigit_of_mem_wholeDigits cs)
        have hlegible : Numeral.Legible (Text.digitsValue (wholeDigits cs) : Int) :=
          Numeral.legible_of_natAbs_lt hlt (Nat.le_of_not_lt hlength)
        cases negative
        · exact hlegible
        · exact hlegible.neg
      · trivial
  · split
    · exact Binary64.moderate_ofDecimal _ _ _
    · trivial

theorem Lexeme.moderate_ofWord (cs : List Char) : (Lexeme.ofWord cs).Moderate := by
  unfold Lexeme.ofWord
  split_ifs
  any_goals trivial
  split <;> exact moderate_ofNumber _ _

theorem Partial.moderate_start (c : Char) : ∀ l ∈ (Partial.start c).1, l.Moderate := by
  fun_cases Partial.start c with
  | case1 => exact List.forall_mem_nil _
  | case8 => exact List.forall_mem_nil _
  | case9 => exact List.forall_mem_nil _
  | _ => exact List.forall_mem_singleton.mpr trivial

theorem Partial.moderate_step (p : Partial) (c : Char) : ∀ l ∈ (p.step c).1, l.Moderate := by
  cases p with
  | between => exact moderate_start c
  | word seen =>
    simp only [Partial.step]
    split
    · exact List.forall_mem_nil _
    · exact List.forall_mem_cons.mpr ⟨Lexeme.moderate_ofWord _, moderate_start c⟩
  | string units =>
    simp only [Partial.step]
    split_ifs <;> simp [Lexeme.Moderate, Scalar.Moderate]
  | escape units =>
    simp only [Partial.step]
    split
    · exact List.forall_mem_nil _
    · split <;> simp [Lexeme.Moderate]
  | hex units missing value =>
    simp only [Partial.step]
    split
    · split_ifs <;> exact List.forall_mem_nil _
    · simp [Lexeme.Moderate]

theorem Partial.moderate_finish (p : Partial) : ∀ l ∈ p.finish, l.Moderate := by
  cases p with
  | between => exact List.forall_mem_nil _
  | word seen => exact List.forall_mem_singleton.mpr (Lexeme.moderate_ofWord _)
  | _ => exact List.forall_mem_singleton.mpr trivial

theorem moderate_lexemesFrom (p : Partial) (cs : List Char) :
    ∀ l ∈ lexemesFrom p cs, l.Moderate := by
  induction cs generalizing p with
  | nil => exact p.moderate_finish
  | cons c cs ih => exact List.forall_mem_append.mpr ⟨p.moderate_step c, ih _⟩

/-! ## Reading -/

/-- The parts that have been read are moderate. -/
def Frame.Moderate : Frame → Prop
  | .list items => ∀ x ∈ items, x.Moderate
  | .object fields _ => ∀ f ∈ fields, f.2.Moderate

/-- The values that have been read are moderate. -/
def Stage.Moderate : Stage → Prop
  | .value stack | .firstItem stack | .firstKey stack => ∀ f ∈ stack, f.Moderate
  | .key fields stack | .colon fields _ stack =>
    (∀ f ∈ fields, f.2.Moderate) ∧ ∀ f ∈ stack, f.Moderate
  | .settled v stack => v.Moderate ∧ ∀ f ∈ stack, f.Moderate

theorem Stage.moderate_begin {stack : List Frame} {l : Lexeme} {t : Stage}
    (hstack : ∀ f ∈ stack, f.Moderate) (hl : l.Moderate) (h : Stage.begin stack l = .ok t) :
    t.Moderate := by
  cases l with
  | scalar s =>
    cases h
    exact ⟨.scalar hl, hstack⟩
  | openList | openObject =>
    cases h
    exact hstack
  | _ => cases h

/-- One lexeme adds what it gives, or closes a list or object of what has been read. -/
theorem Stage.moderate_step {s t : Stage} {l : Lexeme} (hs : s.Moderate) (hl : l.Moderate)
    (h : s.step l = .ok t) : t.Moderate := by
  revert h
  fun_cases Stage.step s l with
  | case1 stack => exact moderate_begin hs hl
  | case2 stack =>
    rintro ⟨⟩
    exact ⟨.list (List.forall_mem_nil _), hs⟩
  | case3 stack =>
    exact moderate_begin (List.forall_mem_cons.mpr ⟨List.forall_mem_nil _, hs⟩) hl
  | case4 stack =>
    rintro ⟨⟩
    exact ⟨.object (List.forall_mem_nil _), hs⟩
  | case5 stack key =>
    rintro ⟨⟩
    exact ⟨List.forall_mem_nil _, hs⟩
  | case6 fields stack key =>
    rintro ⟨⟩
    exact hs
  | case7 fields key stack =>
    rintro ⟨⟩
    exact List.forall_mem_cons.mpr hs
  | case8 v items stack =>
    rintro ⟨⟩
    obtain ⟨hv, hstack⟩ := hs
    rw [List.forall_mem_cons] at hstack
    exact List.forall_mem_cons.mpr ⟨List.forall_mem_cons.mpr ⟨hv, hstack.1⟩, hstack.2⟩
  | case9 v items stack =>
    rintro ⟨⟩
    obtain ⟨hv, hstack⟩ := hs
    rw [List.forall_mem_cons] at hstack
    refine ⟨.list fun x hx => ?_, hstack.2⟩
    exact List.forall_mem_cons.mpr ⟨hv, hstack.1⟩ x (List.mem_reverse.mp hx)
  | case10 v fields key stack =>
    rintro ⟨⟩
    obtain ⟨hv, hstack⟩ := hs
    rw [List.forall_mem_cons] at hstack
    exact ⟨forall_mem_putField hstack.1 key hv, hstack.2⟩
  | case11 v fields key stack =>
    rintro ⟨⟩
    obtain ⟨hv, hstack⟩ := hs
    rw [List.forall_mem_cons] at hstack
    exact ⟨.object (forall_mem_putField hstack.1 key hv), hstack.2⟩
  | case12 => exact fun h => nomatch h

theorem Stage.moderate_foldlM {s t : Stage} {ls : List Lexeme} (hs : s.Moderate)
    (hls : ∀ l ∈ ls, l.Moderate) (h : ls.foldlM Stage.step s = .ok t) : t.Moderate := by
  induction ls generalizing s with
  | nil =>
    cases h
    exact hs
  | cons l ls ih =>
    rw [List.forall_mem_cons] at hls
    rw [List.foldlM_cons] at h
    obtain ⟨u, hstep, h⟩ := exists_of_bind h
    exact ih (moderate_step hs hls.1 hstep) hls.2 h

theorem Stage.moderate_finish {s : Stage} {j : Json} (hs : s.Moderate) (h : s.finish = .ok j) :
    j.Moderate := by
  revert h
  fun_cases Stage.finish s with
  | case1 v =>
    rintro ⟨⟩
    exact hs.1
  | case2 => exact fun h => nomatch h

/-- The integer parts of the numbers of a value that was read can be written. -/
theorem moderate_of_read {cs : List Char} {j : Json} (h : read cs = .ok j) : j.Moderate := by
  obtain ⟨stage, hstage, hfinish⟩ := exists_of_bind h
  have hstart : (Stage.value []).Moderate := List.forall_mem_nil _
  have hmoderate := Stage.moderate_foldlM hstart (moderate_lexemesFrom .between cs) hstage
  exact Stage.moderate_finish hmoderate hfinish

end Json

end LineScript
