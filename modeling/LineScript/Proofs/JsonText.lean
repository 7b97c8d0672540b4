-- SUMMARY: JSON text that was written is read as the value it was written from.
import LineScript.Json.Printer
import LineScript.Json.Reader
import LineScript.Text.Newline
import Mathlib.Data.List.TakeWhile

/-!
# Writing and reading JSON text

A value is legible if its integers are short enough to be read, it has no numbers with a fraction,
and no object has a key twice. The text of a legible value, in any layout of white space, is cut
into the lexemes of the value, and these lexemes are read as the value.
-/

namespace LineScript

/-! ## Decimal digits -/

namespace Numeral

theorem isDigit_of_mem_natChars {n : Nat} {c : Char} (h : c ∈ natChars n) : c.isDigit :=
  Nat.isDigit_of_mem_toDigits (by decide) (by decide) h

theorem natChars_ne_nil (n : Nat) : natChars n ≠ [] := Nat.toDigits_ne_nil

theorem digitsValue_natChars (n : Nat) : Text.digitsValue (natChars n) = n :=
  Nat.ofDigitChars_ten_toDigits

/-- Only zero is written with a zero in front. -/
theorem natChars_of_head_zero {n : Nat} {cs : List Char} (h : natChars n = '0' :: cs) : n = 0 := by
  induction n using Nat.strongRecOn generalizing cs with
  | ind n ih =>
    unfold natChars at h
    by_cases hn : n < 10
    · rw [Nat.toDigits_of_lt_base hn] at h
      have hdigit : ∀ d < 10, Nat.digitChar d = '0' → d = 0 := by decide
      exact hdigit n hn (List.cons.inj h).1
    · rw [Nat.toDigits_of_base_le (by decide) (by omega)] at h
      obtain ⟨d, ds, hd⟩ := List.exists_cons_of_ne_nil (natChars_ne_nil (n / 10))
      unfold natChars at hd
      rw [hd, List.cons_append] at h
      have hzero := ih (n / 10) (by omega) (hd.trans (by rw [(List.cons.inj h).1]))
      omega

theorem mem_chars_of_mem_natChars {n : Int} {c : Char} (h : c ∈ natChars n.natAbs) :
    c ∈ chars n := by
  cases n with
  | ofNat n => exact h
  | negSucc n => exact List.mem_cons_of_mem _ h

/-- A numeral has a digit in it, so it is no word that has none. -/
theorem chars_ne_of_not_isDigit (n : Int) {word : List Char} (h : word.all (!·.isDigit)) :
    chars n ≠ word := by
  intro heq
  obtain ⟨c, cs, hcs⟩ := List.exists_cons_of_ne_nil (natChars_ne_nil n.natAbs)
  have hmem : c ∈ natChars n.natAbs := by simp [hcs]
  have hnot := List.all_eq_true.mp h c (heq ▸ mem_chars_of_mem_natChars hmem)
  simp [isDigit_of_mem_natChars hmem] at hnot

theorem render_ne_of_not_isDigit (n : Int) {word : String} (h : word.toList.all (!·.isDigit)) :
    render n ≠ word := by
  intro heq
  refine chars_ne_of_not_isDigit n h ?_
  rw [← heq, render, String.toList_ofList]

end Numeral

theorem Text.notMem_hexDigits {c : Char} (hc : ∀ d < 16, hexDigit d ≠ c) (width n : Nat) :
    c ∉ hexDigits width n := by
  induction width generalizing n with
  | zero => simp [hexDigits]
  | succ width ih => simp [hexDigits, ih, (hc (n % 16) (Nat.mod_lt n (by decide))).symm]

namespace Json

/-! ## Legible values -/

/-- The value can be written and read again. -/
inductive Legible : Json → Prop where
  | null : Legible .null
  | bool (b : Bool) : Legible (.bool b)
  | int {n : Int} (hn : Numeral.Legible n) : Legible (.int n)
  | text (s : String) : Legible (.text s)
  | list {items : List Json} (hitems : ∀ x ∈ items, Legible x) : Legible (.list items)
  | object {fields : List (String × Json)} (hkeys : (fields.map Prod.fst).Nodup)
      (hfields : ∀ f ∈ fields, Legible f.2) : Legible (.object fields)

mutual

/-- The lexemes of a value. -/
def lexed : Json → List Lexeme
  | .scalar s => [.scalar s]
  | .list items => .openList :: (lexedItems items ++ [.closeList])
  | .object fields => .openObject :: (lexedFields fields ++ [.closeObject])
termination_by structural j => j

/-- The lexemes of the items of a list, with commas between. -/
def lexedItems : List Json → List Lexeme
  | [] => []
  | [x] => lexed x
  | x :: y :: ys => lexed x ++ .comma :: lexedItems (y :: ys)
termination_by structural items => items

/-- The lexemes of the fields of an object, with commas between. -/
def lexedFields : List (String × Json) → List Lexeme
  | [] => []
  | [(k, v)] => .scalar (.text k) :: .colon :: lexed v
  | (k, v) :: f :: fs => .scalar (.text k) :: .colon :: (lexed v ++ .comma :: lexedFields (f :: fs))
termination_by structural fields => fields

end

/-! ## Words -/

/-- The text does not go on with a character of a number or a literal. -/
def Stops (rest : List Char) : Prop := ∀ c, rest.head? = some c → isWordChar c = false

theorem stops_nil : Stops [] := fun _ h => nomatch h

theorem stops_cons {c : Char} (hc : isWordChar c = false) (rest : List Char) : Stops (c :: rest) := by
  intro d hd
  obtain rfl : c = d := Option.some.inj hd
  exact hc

theorem lexemesFrom_word {seen run rest : List Char} (hrun : ∀ c ∈ run, isWordChar c)
    (hrest : Stops rest) :
    lexemesFrom (.word seen) (run ++ rest) =
      .ofWord (seen.reverse ++ run) :: lexemesFrom .between rest := by
  induction run generalizing seen with
  | nil =>
    cases rest with
    | nil => simp [lexemesFrom, Partial.finish]
    | cons c rest => simp [lexemesFrom, Partial.step, hrest c rfl]
  | cons c run ih =>
    rw [List.forall_mem_cons] at hrun
    rw [List.cons_append, lexemesFrom, Partial.step, if_pos hrun.1, ih hrun.2]
    simp

/-- A character of a number or a literal starts a word. -/
theorem start_of_isWordChar {c : Char} (hc : isWordChar c) : Partial.start c = ([], .word [c]) := by
  have hne : ∀ d, isWordChar d = false → c ≠ d := by
    rintro d hd rfl
    simp [hd] at hc
  simp [Partial.start, hc, hne ' ' rfl, hne '\t' rfl, hne '\n' rfl, hne '\r' rfl, hne '[' rfl,
    hne ']' rfl, hne '\x7b' rfl, hne '\x7d' rfl, hne ',' rfl, hne ':' rfl, hne '"' rfl]

theorem lexemesFrom_between_word {c : Char} {run rest : List Char}
    (hrun : (c :: run).all isWordChar) (hrest : Stops rest) :
    lexemesFrom .between (c :: run ++ rest) = .ofWord (c :: run) :: lexemesFrom .between rest := by
  rw [List.all_eq_true, List.forall_mem_cons] at hrun
  rw [List.cons_append, lexemesFrom, Partial.step, start_of_isWordChar hrun.1]
  exact lexemesFrom_word hrun.2 hrest

theorem isWordChar_of_isDigit {c : Char} (hc : c.isDigit) : isWordChar c := by
  simp [isWordChar, Char.isAlphanum, hc]

/-! ## Numbers -/

theorem wholeDigits_natChars (n : Nat) : wholeDigits (Numeral.natChars n) = Numeral.natChars n := by
  unfold wholeDigits
  split
  · next cs h =>
    obtain rfl := Numeral.natChars_of_head_zero h
    rfl
  · exact List.takeWhile_eq_self_iff.mpr fun c => Numeral.isDigit_of_mem_natChars

theorem ofNumber_natChars {n : Nat} (hn : (Numeral.natChars n).length ≤ Numeral.maxDigits)
    (negative : Bool) :
    Lexeme.ofNumber negative (Numeral.natChars n) =
      .scalar (.int (if negative then -(n : Int) else n)) := by
  have hne : (Numeral.natChars n).isEmpty = false :=
    List.isEmpty_eq_false_iff.mpr (Numeral.natChars_ne_nil n)
  simp [Lexeme.ofNumber, wholeDigits_natChars, takeFraction, takeExponent, hne, Nat.not_lt.mpr hn,
    Numeral.digitsValue_natChars]

theorem ofWord_chars {n : Int} (hn : (Numeral.natChars n.natAbs).length ≤ Numeral.maxDigits) :
    Lexeme.ofWord (Numeral.chars n) = .scalar (.int n) := by
  have hne : ∀ literal : List Char, literal.all (!·.isDigit) → Numeral.chars n ≠ literal :=
    fun _ => Numeral.chars_ne_of_not_isDigit n
  unfold Lexeme.ofWord
  rw [if_neg (hne "null".toList (by decide)), if_neg (hne "true".toList (by decide)),
    if_neg (hne "false".toList (by decide)), if_neg (hne "NaN".toList (by decide)),
    if_neg (hne "Infinity".toList (by decide)), if_neg (hne "-Infinity".toList (by decide))]
  cases n with
  | ofNat n =>
    rw [Numeral.chars]
    split
    · next heq =>
      have hminus : '-' ∈ Numeral.natChars n := by simp [heq]
      exact absurd (Numeral.isDigit_of_mem_natChars hminus) (by decide)
    · exact ofNumber_natChars hn false
  | negSucc n => exact ofNumber_natChars hn true

theorem isWordChar_of_mem_chars {n : Int} {c : Char} (h : c ∈ Numeral.chars n) : isWordChar c := by
  cases n with
  | ofNat n => exact isWordChar_of_isDigit (Numeral.isDigit_of_mem_natChars h)
  | negSucc n =>
    rcases List.mem_cons.mp h with rfl | h
    · rfl
    · exact isWordChar_of_isDigit (Numeral.isDigit_of_mem_natChars h)

/-! ## Strings -/

theorem not_surrogate (c : Char) :
    isHighSurrogate c.toNat = false ∧ isLowSurrogate c.toNat = false := by
  have hvalid : c.toNat < 0xD800 ∨ 0xDFFF < c.toNat ∧ c.toNat < 0x110000 := c.valid
  simp only [isHighSurrogate, isLowSurrogate, Bool.and_eq_false_iff, decide_eq_false_iff_not]
  omega

/-- Characters that are never halves of a pair are joined as they are. -/
theorem joinUnits_toNat (cs : List Char) : joinUnits (cs.map Char.toNat) = cs := by
  have hunit : ∀ c : Char, charOfUnit c.toNat = c := by
    intro c
    simp [charOfUnit, not_surrogate c]
  induction cs with
  | nil => rfl
  | cons c cs ih =>
    cases cs with
    | nil => simp [joinUnits, hunit]
    | cons d cs =>
      simp only [List.map_cons] at ih
      simp [joinUnits, not_surrogate, hunit, ih]

theorem hexValue?_hexDigit {d : Nat} (hd : d < 16) : hexValue? (Text.hexDigit d) = some d := by
  have hall : ∀ d < 16, hexValue? (Text.hexDigit d) = some d := by decide
  exact hall d hd

theorem lexemesFrom_hex {n : Nat} (hn : n < 0x10000) (units : List Nat) (rest : List Char) :
    lexemesFrom (.hex units 4 0) (Text.hexDigits 4 n ++ rest) =
      lexemesFrom (.string (n :: units)) rest := by
  have hvalue : ∀ k, hexValue? (Text.hexDigit (k % 16)) = some (k % 16) :=
    fun k => hexValue?_hexDigit (Nat.mod_lt k (by decide))
  have hsum : 16 * (16 * (16 * (n / 16 / 16 / 16 % 16) + n / 16 / 16 % 16) + n / 16 % 16) + n % 16 =
      n := by omega
  simp [Text.hexDigits, lexemesFrom, Partial.step, hvalue, hsum]

/-- What is written for a character is read as that character. -/
theorem lexemesFrom_writeChar (c : Char) (units : List Nat) (rest : List Char) :
    lexemesFrom (.string units) (writeChar c ++ rest) =
      lexemesFrom (.string (c.toNat :: units)) rest := by
  unfold writeChar
  split
  · next h => subst h; rfl
  split
  · next h => subst h; rfl
  split
  · next h => subst h; rfl
  split
  · next h => subst h; rfl
  split
  · next h => subst h; rfl
  split
  · next h => subst h; rfl
  split
  · next h => subst h; rfl
  split
  · next hcontrol =>
    have hhex := lexemesFrom_hex (n := c.toNat) (by omega) units rest
    simpa [lexemesFrom, Partial.step] using hhex
  · next hquote hslash _ _ _ _ _ hplain =>
    simp [lexemesFrom, Partial.step, hquote, hslash, hplain]

theorem lexemesFrom_string (cs : List Char) (units : List Nat) (rest : List Char) :
    lexemesFrom (.string units) (cs.flatMap writeChar ++ '"' :: rest) =
      .scalar (.text (String.ofList (joinUnits (units.reverse ++ cs.map Char.toNat)))) ::
        lexemesFrom .between rest := by
  induction cs generalizing units with
  | nil => simp [lexemesFrom, Partial.step]
  | cons c cs ih =>
    rw [List.flatMap_cons, List.append_assoc, lexemesFrom_writeChar, ih]
    simp

theorem lexemesFrom_writeText (s : String) (rest : List Char) :
    lexemesFrom .between (writeText s rest) =
      .scalar (.text s) :: lexemesFrom .between rest := by
  have hstring := lexemesFrom_string s.toList [] rest
  rw [List.reverse_nil, List.nil_append, joinUnits_toNat, String.ofList_toList] at hstring
  simpa [writeText, lexemesFrom, Partial.step, Partial.start] using hstring

/-! ## Cutting written text -/

/-- The layout puts blanks and newlines between lexemes. -/
structure Layout.IsBlank (layout : Layout) : Prop where
  lineBreak : ∀ depth, ∀ c ∈ layout.lineBreak depth, c = ' ' ∨ c = '\n'
  afterColon : ∀ c ∈ layout.afterColon, c = ' ' ∨ c = '\n'

theorem Layout.indented_isBlank : Layout.indented.IsBlank where
  lineBreak depth c hc := by
    rcases List.mem_cons.mp hc with rfl | hc
    · exact .inr rfl
    · exact .inl (List.eq_of_mem_replicate hc)
  afterColon c hc := .inl (List.mem_singleton.mp hc)

theorem lexemesFrom_blank {run : List Char} (hrun : ∀ c ∈ run, c = ' ' ∨ c = '\n')
    (rest : List Char) : lexemesFrom .between (run ++ rest) = lexemesFrom .between rest := by
  induction run with
  | nil => rfl
  | cons c run ih =>
    rw [List.forall_mem_cons] at hrun
    obtain ⟨rfl | rfl, hrun⟩ := hrun
    · exact ih hrun
    · exact ih hrun

theorem stops_blank {run : List Char} (hrun : ∀ c ∈ run, c = ' ' ∨ c = '\n') {c : Char}
    (hc : isWordChar c = false) (rest : List Char) : Stops (run ++ c :: rest) := by
  cases run with
  | nil => exact stops_cons hc rest
  | cons d run =>
    rw [List.forall_mem_cons] at hrun
    obtain ⟨rfl | rfl, -⟩ := hrun
    · exact stops_cons rfl _
    · exact stops_cons rfl _

/-- The written value is cut into its lexemes, whatever follows that is not part of a word. -/
def Lexes (layout : Layout) (j : Json) : Prop :=
  ∀ depth rest, Stops rest →
    lexemesFrom .between (write layout depth j rest) = lexed j ++ lexemesFrom .between rest

section Cutting

variable {layout : Layout} (hlayout : layout.IsBlank)
include hlayout

theorem lexemesFrom_writeItems {items : List Json} (hitems : ∀ x ∈ items, Lexes layout x)
    (depth : Nat) {rest : List Char} (hrest : Stops rest) :
    lexemesFrom .between (writeItems layout depth items rest) =
      lexedItems items ++ lexemesFrom .between rest := by
  have hbreak := lexemesFrom_blank (hlayout.lineBreak depth)
  induction items with
  | nil => rfl
  | cons x xs ih =>
    rw [List.forall_mem_cons] at hitems
    cases xs with
    | nil => rw [writeItems, hbreak, hitems.1 depth rest hrest, lexedItems]
    | cons y ys =>
      rw [writeItems, hbreak, hitems.1 depth _ (stops_cons rfl _), lexedItems, List.append_assoc,
        List.cons_append, ← ih hitems.2]
      rfl

theorem lexemesFrom_writeFields {fields : List (String × Json)}
    (hfields : ∀ f ∈ fields, Lexes layout f.2) (depth : Nat) {rest : List Char}
    (hrest : Stops rest) :
    lexemesFrom .between (writeFields layout depth fields rest) =
      lexedFields fields ++ lexemesFrom .between rest := by
  have hbreak := lexemesFrom_blank (hlayout.lineBreak depth)
  have hcolon : ∀ cs, lexemesFrom .between (':' :: (layout.afterColon ++ cs)) =
      .colon :: lexemesFrom .between cs := by
    intro cs
    rw [← lexemesFrom_blank hlayout.afterColon cs]
    rfl
  induction fields with
  | nil => rfl
  | cons f fs ih =>
    obtain ⟨k, v⟩ := f
    rw [List.forall_mem_cons] at hfields
    cases fs with
    | nil =>
      rw [writeFields, hbreak, lexemesFrom_writeText, hcolon, hfields.1 depth rest hrest,
        lexedFields]
      rfl
    | cons g gs =>
      rw [writeFields, hbreak, lexemesFrom_writeText, hcolon, hfields.1 depth _ (stops_cons rfl _),
        lexedFields, List.cons_append, List.cons_append, List.append_assoc, List.cons_append,
        ← ih hfields.2]
      rfl

theorem Legible.lexes {j : Json} (hj : j.Legible) : Lexes layout j := by
  induction hj with
  | null =>
    intro depth rest hrest
    exact lexemesFrom_between_word (by decide) hrest
  | bool b =>
    intro depth rest hrest
    cases b with
    | true => exact lexemesFrom_between_word (by decide) hrest
    | false => exact lexemesFrom_between_word (by decide) hrest
  | @int n hn =>
    intro depth rest hrest
    have hword : (Numeral.chars n).all isWordChar :=
      List.all_eq_true.mpr fun c => isWordChar_of_mem_chars
    have hlexeme := ofWord_chars hn
    obtain ⟨c, cs, hcs⟩ : ∃ c cs, Numeral.chars n = c :: cs := by
      cases n with
      | ofNat n => exact List.exists_cons_of_ne_nil (Numeral.natChars_ne_nil n)
      | negSucc n => exact ⟨_, _, rfl⟩
    have hwrite : write layout depth (.int n) rest = Numeral.chars n ++ rest := rfl
    rw [hwrite, hcs]
    rw [hcs] at hword hlexeme
    rw [lexemesFrom_between_word hword hrest, hlexeme]
    rfl
  | text s =>
    intro depth rest _
    exact lexemesFrom_writeText s rest
  | @list items _ ih =>
    intro depth rest _
    cases items with
    | nil => rfl
    | cons x xs =>
      have hclose : Stops (layout.lineBreak depth ++ ']' :: rest) :=
        stops_blank (hlayout.lineBreak depth) rfl rest
      have hitems := lexemesFrom_writeItems hlayout ih (depth + 1) hclose
      rw [lexemesFrom_blank (hlayout.lineBreak depth)] at hitems
      have hopen : lexemesFrom .between (write layout depth (.list (x :: xs)) rest) = .openList ::
          lexemesFrom .between (writeItems layout (depth + 1) (x :: xs)
            (layout.lineBreak depth ++ ']' :: rest)) := rfl
      rw [hopen, hitems, lexed, List.cons_append, List.append_assoc]
      rfl
  | @object fields _ _ ih =>
    intro depth rest _
    cases fields with
    | nil => rfl
    | cons f fs =>
      have hclose : Stops (layout.lineBreak depth ++ '\x7d' :: rest) :=
        stops_blank (hlayout.lineBreak depth) rfl rest
      have hfields := lexemesFrom_writeFields hlayout ih (depth + 1) hclose
      rw [lexemesFrom_blank (hlayout.lineBreak depth)] at hfields
      have hopen : lexemesFrom .between (write layout depth (.object (f :: fs)) rest) =
          .openObject :: lexemesFrom .between (writeFields layout (depth + 1) (f :: fs)
            (layout.lineBreak depth ++ '\x7d' :: rest)) := rfl
      rw [hopen, hfields, lexed, List.cons_append, List.append_assoc]
      rfl

end Cutting

/-! ## Reading lexemes -/

/-- The lexemes of the value are read as the value, under any stack and before any lexemes. -/
def Reads (j : Json) : Prop :=
  ∀ stack rest, (lexed j ++ rest).foldlM Stage.step (.value stack) =
    rest.foldlM Stage.step (.settled j stack)

theorem foldlM_step {s t : Stage} {l : Lexeme} (h : s.step l = .ok t) (rest : List Lexeme) :
    (l :: rest).foldlM Stage.step s = rest.foldlM Stage.step t := by
  rw [List.foldlM_cons, h]
  rfl

theorem exists_lexed_eq_cons (j : Json) : ∃ l ls, lexed j = l :: ls ∧ l ≠ .closeList := by
  cases j with
  | scalar s => exact ⟨_, _, rfl, by simp⟩
  | list items => exact ⟨_, _, rfl, by simp⟩
  | object fields => exact ⟨_, _, rfl, by simp⟩

/-- The first item of a list is read like any other. -/
theorem foldlM_firstItem (x : Json) (stack : List Frame) (rest : List Lexeme) :
    (lexed x ++ rest).foldlM Stage.step (.firstItem stack) =
      (lexed x ++ rest).foldlM Stage.step (.value (.list [] :: stack)) := by
  obtain ⟨l, ls, hl, hne⟩ := exists_lexed_eq_cons x
  have hstep : Stage.step (.firstItem stack) l = Stage.step (.value (.list [] :: stack)) l := by
    cases l <;> first | rfl | exact absurd rfl hne
  rw [hl, List.cons_append, List.foldlM_cons, List.foldlM_cons, hstep]

/-- The first key of an object is read like any other. -/
theorem foldlM_firstKey (f : String × Json) (fs : List (String × Json)) (stack : List Frame)
    (rest : List Lexeme) :
    (lexedFields (f :: fs) ++ rest).foldlM Stage.step (.firstKey stack) =
      (lexedFields (f :: fs) ++ rest).foldlM Stage.step (.key [] stack) := by
  cases fs <;> rfl

theorem foldlM_lexedItems {x : Json} {xs : List Json} (hitems : ∀ y ∈ x :: xs, Reads y)
    (done : List Json) (stack : List Frame) (rest : List Lexeme) :
    (lexedItems (x :: xs) ++ .closeList :: rest).foldlM Stage.step (.value (.list done :: stack)) =
      rest.foldlM Stage.step (.settled (.list (done.reverse ++ x :: xs)) stack) := by
  induction xs generalizing x done with
  | nil =>
    rw [lexedItems, hitems x (List.mem_singleton_self x)]
    refine (foldlM_step rfl rest).trans ?_
    rw [List.reverse_cons]
  | cons y ys ih =>
    rw [List.forall_mem_cons] at hitems
    rw [lexedItems, List.append_assoc, hitems.1, List.cons_append]
    refine (foldlM_step rfl _).trans ?_
    rw [ih hitems.2, List.reverse_cons, List.append_assoc]
    rfl

/-- The next field of an object with distinct keys goes to the end. -/
theorem putField_of_nodup {done fs : List (String × Json)} {k : String} {v : Json}
    (h : ((done ++ (k, v) :: fs).map Prod.fst).Nodup) : putField done k v = done ++ [(k, v)] := by
  induction done with
  | nil => rfl
  | cons f done ih =>
    rw [List.cons_append, List.map_cons, List.nodup_cons] at h
    have hne : f.1 ≠ k := fun heq => h.1 (by simp [heq])
    rw [putField, if_neg hne, ih h.2, List.cons_append]

theorem foldlM_lexedFields {f : String × Json} {fs : List (String × Json)}
    (hfields : ∀ g ∈ f :: fs, Reads g.2) {done : List (String × Json)}
    (hkeys : ((done ++ f :: fs).map Prod.fst).Nodup) (stack : List Frame) (rest : List Lexeme) :
    (lexedFields (f :: fs) ++ .closeObject :: rest).foldlM Stage.step (.key done stack) =
      rest.foldlM Stage.step (.settled (.object (done ++ f :: fs)) stack) := by
  induction fs generalizing f done with
  | nil =>
    obtain ⟨k, v⟩ := f
    rw [lexedFields, List.cons_append, List.cons_append, foldlM_step (t := .colon done k stack) rfl,
      foldlM_step (t := .value (.object done k :: stack)) rfl, hfields (k, v) (by simp),
      foldlM_step (t := .settled (.object (putField done k v)) stack) rfl, putField_of_nodup hkeys]
  | cons g gs ih =>
    obtain ⟨k, v⟩ := f
    rw [List.forall_mem_cons] at hfields
    rw [lexedFields, List.cons_append, List.cons_append, foldlM_step (t := .colon done k stack) rfl,
      foldlM_step (t := .value (.object done k :: stack)) rfl, List.append_assoc, hfields.1,
      List.cons_append, foldlM_step (t := .key (putField done k v) stack) rfl,
      putField_of_nodup hkeys, ih hfields.2 (by simpa using hkeys), List.append_assoc]
    rfl

theorem Legible.reads {j : Json} (hj : j.Legible) : Reads j := by
  induction hj with
  | null => exact fun stack rest => foldlM_step rfl rest
  | bool b => exact fun stack rest => foldlM_step rfl rest
  | int hn => exact fun stack rest => foldlM_step rfl rest
  | text s => exact fun stack rest => foldlM_step rfl rest
  | @list items _ ih =>
    intro stack rest
    rw [lexed, List.cons_append, foldlM_step (t := .firstItem stack) rfl, List.append_assoc]
    cases items with
    | nil => exact foldlM_step rfl rest
    | cons x xs =>
      have hfirst : ∃ ls, lexedItems (x :: xs) ++ ([.closeList] ++ rest) = lexed x ++ ls := by
        cases xs with
        | nil => exact ⟨_, rfl⟩
        | cons y ys => exact ⟨_, List.append_assoc ..⟩
      obtain ⟨ls, hls⟩ := hfirst
      rw [hls, foldlM_firstItem, ← hls]
      exact foldlM_lexedItems ih [] stack rest
  | @object fields hkeys _ ih =>
    intro stack rest
    rw [lexed, List.cons_append, foldlM_step (t := .firstKey stack) rfl, List.append_assoc]
    cases fields with
    | nil => exact foldlM_step rfl rest
    | cons f fs =>
      rw [foldlM_firstKey]
      exact foldlM_lexedFields ih hkeys stack rest

/-- The text of a legible value, in any layout of blanks and newlines, is read as the value. -/
theorem read_write {j : Json} (hj : j.Legible) {layout : Layout} (hlayout : layout.IsBlank) :
    read (write layout 0 j []) = .ok j := by
  have hlexes : lexemes (write layout 0 j []) = lexed j ++ [] := hj.lexes hlayout 0 [] stops_nil
  rw [read, hlexes, hj.reads]
  rfl

/-! ## Line ends -/

/-- The written value has no carriage return, if what follows it has none. -/
def Unreturned (layout : Layout) (j : Json) : Prop :=
  ∀ depth rest, '\r' ∉ rest → '\r' ∉ write layout depth j rest

theorem return_notMem_hexDigits (width n : Nat) : '\r' ∉ Text.hexDigits width n :=
  Text.notMem_hexDigits (by decide) width n

theorem return_notMem_writeChar (c : Char) : '\r' ∉ writeChar c := by
  unfold writeChar
  repeat' split
  all_goals simp_all [return_notMem_hexDigits, eq_comm]

theorem return_notMem_writeText (s : String) {rest : List Char} (hrest : '\r' ∉ rest) :
    '\r' ∉ writeText s rest := by
  simp [writeText, hrest, return_notMem_writeChar]

theorem return_notMem_blank {run : List Char} (hrun : ∀ c ∈ run, c = ' ' ∨ c = '\n') :
    '\r' ∉ run := fun h => by
  rcases hrun _ h with heq | heq <;> exact absurd heq (by decide)

section Unreturned

variable {layout : Layout} (hlayout : layout.IsBlank)
include hlayout

theorem return_notMem_writeItems {items : List Json} (hitems : ∀ x ∈ items, Unreturned layout x)
    (depth : Nat) {rest : List Char} (hrest : '\r' ∉ rest) :
    '\r' ∉ writeItems layout depth items rest := by
  have hbreak := return_notMem_blank (hlayout.lineBreak depth)
  induction items with
  | nil => exact hrest
  | cons x xs ih =>
    rw [List.forall_mem_cons] at hitems
    cases xs with
    | nil => exact List.not_mem_append hbreak (hitems.1 depth rest hrest)
    | cons y ys =>
      refine List.not_mem_append hbreak (hitems.1 depth _ ?_)
      exact List.not_mem_cons_of_ne_of_not_mem (by decide) (ih hitems.2)

theorem return_notMem_writeFields {fields : List (String × Json)}
    (hfields : ∀ f ∈ fields, Unreturned layout f.2) (depth : Nat) {rest : List Char}
    (hrest : '\r' ∉ rest) : '\r' ∉ writeFields layout depth fields rest := by
  have hbreak := return_notMem_blank (hlayout.lineBreak depth)
  have hcolon : ∀ cs : List Char, '\r' ∉ cs → '\r' ∉ ':' :: (layout.afterColon ++ cs) :=
    fun cs hcs => List.not_mem_cons_of_ne_of_not_mem (by decide)
      (List.not_mem_append (return_notMem_blank hlayout.afterColon) hcs)
  induction fields with
  | nil => exact hrest
  | cons f fs ih =>
    obtain ⟨k, v⟩ := f
    rw [List.forall_mem_cons] at hfields
    cases fs with
    | nil =>
      refine List.not_mem_append hbreak (return_notMem_writeText k (hcolon _ ?_))
      exact hfields.1 depth rest hrest
    | cons g gs =>
      refine List.not_mem_append hbreak (return_notMem_writeText k (hcolon _ ?_))
      refine hfields.1 depth _ ?_
      exact List.not_mem_cons_of_ne_of_not_mem (by decide) (ih hfields.2)

theorem Legible.unreturned {j : Json} (hj : j.Legible) : Unreturned layout j := by
  induction hj with
  | null => exact fun _ _ hrest => List.not_mem_append (by decide) hrest
  | bool b =>
    cases b <;> exact fun _ _ hrest => List.not_mem_append (by decide) hrest
  | @int n _ =>
    refine fun _ _ hrest => List.not_mem_append ?_ hrest
    intro hmem
    exact absurd (isWordChar_of_mem_chars hmem) (by decide)
  | text s => exact fun _ _ hrest => return_notMem_writeText s hrest
  | @list items _ ih =>
    intro depth rest hrest
    have hclose : '\r' ∉ layout.lineBreak depth ++ ']' :: rest :=
      List.not_mem_append (return_notMem_blank (hlayout.lineBreak depth))
        (List.not_mem_cons_of_ne_of_not_mem (by decide) hrest)
    rw [write]
    split
    · simp [hrest]
    · exact List.not_mem_cons_of_ne_of_not_mem (by decide)
        (return_notMem_writeItems hlayout ih (depth + 1) hclose)
  | @object fields _ _ ih =>
    intro depth rest hrest
    have hclose : '\r' ∉ layout.lineBreak depth ++ '\x7d' :: rest :=
      List.not_mem_append (return_notMem_blank (hlayout.lineBreak depth))
        (List.not_mem_cons_of_ne_of_not_mem (by decide) hrest)
    rw [write]
    split
    · simp [hrest]
    · exact List.not_mem_cons_of_ne_of_not_mem (by decide)
        (return_notMem_writeFields hlayout ih (depth + 1) hclose)

end Unreturned

theorem unifyNewlines_of_notMem {cs : List Char} (h : '\r' ∉ cs) : Text.unifyNewlines cs = cs := by
  fun_induction Text.unifyNewlines cs with
  | case1 => rfl
  | case2 cs ih => simp at h
  | case3 c cs _ ih =>
    rw [List.mem_cons, not_or] at h
    rw [if_neg (Ne.symm h.1), ih h.2]

/-- Written text is the same before and after its line ends are unified. -/
theorem unifyNewlines_write {j : Json} (hj : j.Legible) {layout : Layout}
    (hlayout : layout.IsBlank) : Text.unifyNewlines (write layout 0 j []) = write layout 0 j [] :=
  unifyNewlines_of_notMem (hj.unreturned hlayout 0 [] List.not_mem_nil)

end Json

end LineScript
