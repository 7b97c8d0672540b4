-- SUMMARY: Arithmetic on words follows exact arithmetic, and quotients and remainders fit together.
import LineScript.Proofs.TypeSafety
import Mathlib.Data.Int.ModEq
import Mathlib.Data.Rat.Floor

/-!
# Arithmetic

Sums, differences, products and negations are wrapped one by one. Wrapping keeps the residue modulo
`2 ^ 32`, and every residue is that of one word only, so an expression of these operations has the
value that wrapping its exact value once gives, whatever left the range on the way.

Quotients are rounded toward zero and remainders are what is left. Of all pairs of words only one
has a quotient that is no word, and there wrapping the quotient does no harm to the remainder.
-/

namespace LineScript

/-! ## Words and residues -/

namespace Word32

theorem wrap_modEq (n : Int) : wrap n ≡ n [ZMOD 2 ^ 32] := wrap_emod n

/-- Two words of one residue are the same. -/
theorem eq_of_modEq {m n : Int} (hm : Fits m) (hn : Fits n) (h : m ≡ n [ZMOD 2 ^ 32]) : m = n := by
  unfold Fits least greatest at hm hn
  unfold Int.ModEq at h
  omega

theorem eq_wrap_iff {m n : Int} : m = wrap n ↔ Fits m ∧ m ≡ n [ZMOD 2 ^ 32] := by
  constructor
  · rintro rfl
    exact ⟨fits_wrap n, wrap_modEq n⟩
  · rintro ⟨hm, h⟩
    exact eq_of_modEq hm (fits_wrap n) (h.trans (wrap_modEq n).symm)

theorem wrap_eq_self_iff {n : Int} : wrap n = n ↔ Fits n := by
  refine ⟨fun h => ?_, wrap_of_fits⟩
  rw [← h]
  exact fits_wrap n

end Word32

/-! ## Operators on integers -/

theorem applyBinary_int (dialect : Dialect) (op : BinaryOp) (a b : Int) :
    applyBinary dialect (.text op.symbol) (.int a) (.int b) =
      (op.applyInt dialect a b).mapError .fault := by
  simp only [applyBinary, BinaryOp.ofJson?_symbol]

namespace Node

variable {dialect : Dialect} {env : Env} {e x y : Node}

theorem result_unary {v : Value} (op : UnaryOp) (he : (e.eval dialect env).result = .ok v) :
    ((ofUnary op e).eval dialect env).result = (op.apply v).mapError .fault := by
  simp only [ofUnary, eval, Outcome.andThen, he, Outcome.of, applyUnary, UnaryOp.ofJson?_symbol]

theorem result_binary_int {a b : Int} (op : BinaryOp)
    (hx : (x.eval dialect env).result = .ok (.int a))
    (hy : (y.eval dialect env).result = .ok (.int b)) :
    ((ofBinary op x y).eval dialect env).result = (op.applyInt dialect a b).mapError .fault := by
  simp only [ofBinary, eval, Outcome.andThen, hx, hy, Outcome.of, applyBinary_int]

/-! ## Exact values -/

/-- The tree is built from integers and from names bound to integers by signs, sums, differences and
    products, and the integer is its value where nothing is wrapped. The integers that the tree is
    built from have the property. -/
inductive Exact (P : Int → Prop) (env : Env) : Node → Int → Prop where
  | int {n : Int} (hn : P n) : Exact P env (.literal (.int n)) n
  | name {s : Scalar} {n : Int} (hs : env.get? s = some (.int n)) (hn : P n) :
      Exact P env (.ident (.scalar s)) n
  | pos {e : Node} {n : Int} (he : Exact P env e n) : Exact P env (.ofUnary .pos e) n
  | neg {e : Node} {n : Int} (he : Exact P env e n) : Exact P env (.ofUnary .neg e) (-n)
  | add {x y : Node} {m n : Int} (hx : Exact P env x m) (hy : Exact P env y n) :
      Exact P env (.ofBinary .add x y) (m + n)
  | sub {x y : Node} {m n : Int} (hx : Exact P env x m) (hy : Exact P env y n) :
      Exact P env (.ofBinary .sub x y) (m - n)
  | mul {x y : Node} {m n : Int} (hx : Exact P env x m) (hy : Exact P env y n) :
      Exact P env (.ofBinary .mul x y) (m * n)

/-- Evaluation gives an integer of the residue of the exact value. It is a word if all integers that
    the tree is built from are, since only literals, names and the sign `+` are not wrapped. -/
theorem Exact.exists_eval {P : Int → Prop} {n : Int} (h : Exact P env e n) (dialect : Dialect) :
    ∃ v, (e.eval dialect env).result = .ok (.int v) ∧ v ≡ n [ZMOD 2 ^ 32] ∧
      ((∀ m, P m → Word32.Fits m) → Word32.Fits v) := by
  -- A result that was wrapped is a word, so all that remains is its residue.
  have hwrap : ∀ {e : Node} {k n : Int}, (e.eval dialect env).result = .ok (.int (Word32.wrap k)) →
      k ≡ n [ZMOD 2 ^ 32] → ∃ v, (e.eval dialect env).result = .ok (.int v) ∧
        v ≡ n [ZMOD 2 ^ 32] ∧ ((∀ m, P m → Word32.Fits m) → Word32.Fits v) :=
    fun hresult hk =>
      ⟨_, hresult, (Word32.wrap_modEq _).trans hk, fun _ => Word32.fits_wrap _⟩
  induction h with
  | @int n hn => exact ⟨n, rfl, rfl, fun hP => hP n hn⟩
  | @name s n hs hn =>
    refine ⟨n, ?_, rfl, fun hP => hP n hn⟩
    simp [eval, Env.look, Json.name?, Env.read?, hs]
  | pos _ ih =>
    obtain ⟨v, hv, hmod, hfits⟩ := ih
    exact ⟨v, result_unary .pos hv, hmod, hfits⟩
  | neg _ ih =>
    obtain ⟨v, hv, hmod, -⟩ := ih
    exact hwrap (result_unary .neg hv) hmod.neg
  | add _ _ ihx ihy =>
    obtain ⟨v, hv, hmodv, -⟩ := ihx
    obtain ⟨w, hw, hmodw, -⟩ := ihy
    exact hwrap (result_binary_int .add hv hw) (hmodv.add hmodw)
  | sub _ _ ihx ihy =>
    obtain ⟨v, hv, hmodv, -⟩ := ihx
    obtain ⟨w, hw, hmodw, -⟩ := ihy
    exact hwrap (result_binary_int .sub hv hw) (hmodv.sub hmodw)
  | mul _ _ ihx ihy =>
    obtain ⟨v, hv, hmodv, -⟩ := ihx
    obtain ⟨w, hw, hmodw, -⟩ := ihy
    exact hwrap (result_binary_int .mul hv hw) (hmodv.mul hmodw)

/-- Wrapping picks the one word of a residue, and an expression evaluates to an integer of the
    residue of its exact value: to its wrapped exact value if it is built from words. -/
theorem wrapping_once_is_enough :
    (∀ m n, m = Word32.wrap n ↔ (-2 ^ 31 ≤ m ∧ m ≤ 2 ^ 31 - 1) ∧ m ≡ n [ZMOD 2 ^ 32]) ∧
    (∀ n, Word32.wrap (Word32.wrap n) = Word32.wrap n ∧ (Word32.wrap n = n ↔ Word32.Fits n)) ∧
    ∀ dialect env e n,
      (Exact (fun _ => True) env e n →
        ∃ v, (e.eval dialect env).result = .ok (.int v) ∧ v ≡ n [ZMOD 2 ^ 32]) ∧
      (Exact Word32.Fits env e n →
        (e.eval dialect env).result = .ok (.int (Word32.wrap n))) := by
  refine ⟨fun m n => Word32.eq_wrap_iff, fun n => ⟨?_, Word32.wrap_eq_self_iff⟩, ?_⟩
  · exact Word32.wrap_of_fits (Word32.fits_wrap n)
  · intro dialect env e n
    constructor
    · intro h
      obtain ⟨v, hv, hmod, -⟩ := h.exists_eval dialect
      exact ⟨v, hv, hmod⟩
    · intro h
      obtain ⟨v, hv, hmod, hfits⟩ := h.exists_eval dialect
      rw [hv, Word32.eq_wrap_iff.mpr ⟨hfits fun _ hm => hm, hmod⟩]

/-- The least word negated and multiplied, and a literal that is no word. -/
theorem wrapping_once_is_enough_negated_least :
    ((ofBinary .mul (ofUnary .neg (.ofName "x"))
        (ofBinary .sub (.ofName "x") (.literal (.int 3)))).eval .standard
        (Table.empty.put (.text "x") (.int (-2147483648)))).result =
      .ok (.int (Word32.wrap (-(-2147483648) * (-2147483648 - 3)))) ∧
    ∃ v, ((ofBinary .add (.literal (.int (10 ^ 30)))
        (ofUnary .pos (.literal (.int 5)))).eval .legacy .empty).result = .ok (.int v) ∧
      v ≡ 10 ^ 30 + 5 [ZMOD 2 ^ 32] := by
  constructor
  · apply (wrapping_once_is_enough.2.2 _ _ _ _).2
    exact .mul (.neg (.name (by decide) (by decide)))
      (.sub (.name (by decide) (by decide)) (.int (by decide)))
  · apply (wrapping_once_is_enough.2.2 _ _ _ _).1
    exact .add (.int trivial) (.pos (.int trivial))

end Node

/-! ## Quotients and remainders -/

/-- A rational number rounded toward zero. -/
def roundToZero (x : ℚ) : Int := if 0 ≤ x then ⌊x⌋ else ⌈x⌉

theorem roundToZero_neg (x : ℚ) : roundToZero (-x) = -roundToZero x := by
  unfold roundToZero
  rcases lt_trichotomy x 0 with hneg | rfl | hpos
  · rw [if_pos (neg_nonneg.mpr hneg.le), if_neg (not_le.mpr hneg), Int.floor_neg]
  · simp
  · rw [if_neg (not_le.mpr (neg_neg_of_pos hpos)), if_pos hpos.le, Int.ceil_neg]

namespace Word32

theorem tdiv_eq_roundToZero (a b : Int) : a.tdiv b = roundToZero ((a : ℚ) / b) := by
  -- Both sides are odd in the numerator and in the denominator.
  have hnat : ∀ m n : Nat, (m : Int).tdiv n = roundToZero ((m : ℚ) / n) := by
    intro m n
    have hfloor := Rat.floor_intCast_div_natCast m n
    rw [roundToZero, if_pos (by positivity), Int.tdiv_eq_ediv_of_nonneg (Int.natCast_nonneg m),
      ← hfloor, Int.cast_natCast]
  obtain ⟨m, rfl | rfl⟩ := a.eq_nat_or_neg <;> obtain ⟨n, rfl | rfl⟩ := b.eq_nat_or_neg <;>
    simp only [Int.neg_tdiv, Int.tdiv_neg, hnat, Int.cast_neg, Int.cast_natCast, neg_div, div_neg,
      roundToZero_neg]

theorem abs_tmod_lt (a : Int) {b : Int} (hb : b ≠ 0) : |a.tmod b| < |b| := by
  rw [Int.abs_eq_natAbs, Int.abs_eq_natAbs, Int.natAbs_tmod]
  exact_mod_cast Nat.mod_lt _ (Int.natAbs_pos.mpr hb)

theorem tmod_eq_zero_or_sign_eq (a b : Int) : a.tmod b = 0 ∨ (a.tmod b).sign = a.sign := by
  by_cases h : b ∣ a
  · exact .inl (Int.tmod_eq_zero_of_dvd h)
  · exact .inr (by rw [Int.sign_tmod, if_neg h])

/-- The remainder is the only integer that can be left over: the quotient determines it. -/
theorem eq_tmod_iff {a b s : Int} (hb : b ≠ 0) :
    s = a.tmod b ↔ a = b * a.tdiv b + s ∧ |s| < |b| ∧ (s = 0 ∨ s.sign = a.sign) := by
  have hsplit := Int.mul_tdiv_add_tmod a b
  constructor
  · rintro rfl
    exact ⟨hsplit.symm, abs_tmod_lt a hb, tmod_eq_zero_or_sign_eq a b⟩
  · rintro ⟨hs, -⟩
    omega

/-- The quotient of a word is a word, but for one pair. -/
theorem fits_tdiv {a b : Int} (ha : Fits a) (h : ¬ (a = -2 ^ 31 ∧ b = -1)) : Fits (a.tdiv b) := by
  unfold Fits least greatest at ha ⊢
  by_cases hbig : b.natAbs ≤ 1
  · obtain rfl | rfl | rfl : b = 0 ∨ b = 1 ∨ b = -1 := by omega
    · rw [Int.tdiv_zero]
      omega
    · rwa [Int.tdiv_one]
    · rw [Int.tdiv_neg, Int.tdiv_one]
      omega
  · have hhalf : (a.tdiv b).natAbs ≤ a.natAbs / 2 := by
      rw [Int.natAbs_tdiv]
      exact Nat.div_le_div_left (by omega) (by decide)
    omega

/-- Wrapping the quotient keeps its residue, and so that of the product and of the sum. -/
theorem wrap_mul_wrap_tdiv_add_tmod {a : Int} (ha : Fits a) (b : Int) :
    wrap (b * wrap (a.tdiv b) + a.tmod b) = a := by
  have hresidue := ((wrap_modEq (a.tdiv b)).mul_left b).add_right (a.tmod b)
  rw [Int.mul_tdiv_add_tmod] at hresidue
  exact (eq_wrap_iff.mpr ⟨ha, hresidue.symm⟩).symm

/-- The operators agree with the quotient and the remainder, and fail where there is none. -/
theorem applyBinary_division (dialect : Dialect) (a b : Int) :
    applyBinary dialect (.text BinaryOp.div.symbol) (.int a) (.int b) =
        (if b = 0 then .error (.fault (.divisionByZero .div)) else .ok (.int (wrap (a.tdiv b)))) ∧
      applyBinary dialect (.text BinaryOp.mod.symbol) (.int a) (.int b) =
        if b = 0 then .error (.fault (.divisionByZero .mod)) else .ok (.int (a.tmod b)) := by
  simp only [applyBinary_int, BinaryOp.applyInt, quotient?, remainder?]
  by_cases hb : b = 0
  · simp only [if_pos hb]
    exact ⟨rfl, rfl⟩
  · simp only [if_neg hb]
    exact ⟨rfl, rfl⟩

/-- The operators fail for the divisor zero only, and only with this fault. -/
theorem applyBinary_division_fails (dialect : Dialect) {op : BinaryOp} (hop : op = .div ∨ op = .mod)
    (a b : Int) :
    (applyBinary dialect (.text op.symbol) (.int a) (.int b) =
        .error (.fault (.divisionByZero op)) ↔ b = 0) ∧
      ∀ e, applyBinary dialect (.text op.symbol) (.int a) (.int b) = .error e →
        e = .fault (.divisionByZero op) := by
  obtain ⟨hdiv, hmod⟩ := applyBinary_division dialect a b
  have hresult : applyBinary dialect (.text op.symbol) (.int a) (.int b) =
        .error (.fault (.divisionByZero op)) ∧ b = 0 ∨
      (∃ v, applyBinary dialect (.text op.symbol) (.int a) (.int b) = .ok v) ∧ b ≠ 0 := by
    by_cases hb : b = 0
    · rw [if_pos hb] at hdiv hmod
      rcases hop with rfl | rfl
      · exact .inl ⟨hdiv, hb⟩
      · exact .inl ⟨hmod, hb⟩
    · rw [if_neg hb] at hdiv hmod
      rcases hop with rfl | rfl
      · exact .inr ⟨⟨_, hdiv⟩, hb⟩
      · exact .inr ⟨⟨_, hmod⟩, hb⟩
  rcases hresult with ⟨herror, hb⟩ | ⟨⟨v, hv⟩, hb⟩
  · rw [herror]
    exact ⟨iff_of_true rfl hb, fun e he => (Except.error.inj he).symm⟩
  · rw [hv]
    exact ⟨iff_of_false nofun hb, nofun⟩

/-- What the quotient and the remainder are for all integers, what the operators make of them for
    words, and when the operators fail. -/
theorem division_truncates (a b : Int) :
    (b ≠ 0 → ∃ q r, quotient? a b = some q ∧ remainder? a b = some r ∧
      q = roundToZero ((a : ℚ) / b) ∧
      ∀ s, s = r ↔ a = b * q + s ∧ |s| < |b| ∧ (s = 0 ∨ s.sign = a.sign)) ∧
    (Fits a → b ≠ 0 → ∀ dialect, ∃ q r,
      applyBinary dialect (.text "/") (.int a) (.int b) = .ok (.int q) ∧
      applyBinary dialect (.text "%") (.int a) (.int b) = .ok (.int r) ∧
      remainder? a b = some r ∧ Fits r ∧
      (if a = -2 ^ 31 ∧ b = -1 then q = -2 ^ 31 else quotient? a b = some q) ∧
      wrap (b * q + r) = a) ∧
    ∀ dialect op, op = .div ∨ op = .mod →
      (applyBinary dialect (.text op.symbol) (.int a) (.int b) =
        .error (.fault (.divisionByZero op)) ↔ b = 0) ∧
      ∀ e, applyBinary dialect (.text op.symbol) (.int a) (.int b) = .error e →
        e = .fault (.divisionByZero op) := by
  refine ⟨fun hb => ?_, fun ha hb dialect => ?_,
    fun dialect op hop => applyBinary_division_fails dialect hop a b⟩
  · exact ⟨a.tdiv b, a.tmod b, if_neg hb, if_neg hb, tdiv_eq_roundToZero a b,
      fun s => eq_tmod_iff hb⟩
  · obtain ⟨hdiv, hmod⟩ := applyBinary_division dialect a b
    rw [if_neg hb] at hdiv hmod
    refine ⟨_, _, hdiv, hmod, if_neg hb, fits_tmod b ha, ?_, wrap_mul_wrap_tdiv_add_tmod ha b⟩
    split
    · next hpair =>
      obtain ⟨rfl, rfl⟩ := hpair
      decide
    · next hpair => rw [wrap_of_fits (fits_tdiv ha hpair), quotient?, if_neg hb]

/-- The one pair of words whose quotient is no word, a remainder below zero, and no remainder. -/
theorem division_truncates_least_by_minus_one :
    (∃ q r, applyBinary .standard (.text "/") (.int (-2147483648)) (.int (-1)) = .ok (.int q) ∧
      applyBinary .standard (.text "%") (.int (-2147483648)) (.int (-1)) = .ok (.int r) ∧
      q = -2147483648 ∧ Fits r ∧ wrap (-1 * q + r) = -2147483648) ∧
    (∃ q r, quotient? (-7) 2 = some q ∧ remainder? (-7) 2 = some r ∧
      q = roundToZero (((-7 : Int) : ℚ) / (2 : Int)) ∧ -7 = 2 * q + r) ∧
    applyBinary .legacy (.text "%") (.int 5) (.int 0) = .error (.fault (.divisionByZero .mod)) := by
  refine ⟨?_, ?_, ((division_truncates 5 0).2.2 .legacy .mod (.inr rfl)).1.mpr rfl⟩
  · obtain ⟨q, r, hdiv, hmod, -, hfits, hq, hwrap⟩ :=
      (division_truncates (-2147483648) (-1)).2.1 (by decide) (by decide) .standard
    exact ⟨q, r, hdiv, hmod, by simpa using hq, hfits, hwrap⟩
  · obtain ⟨q, r, hq, hr, hround, hrest⟩ := (division_truncates (-7) 2).1 (by decide)
    exact ⟨q, r, hq, hr, hround, ((hrest r).mp rfl).1⟩

end Word32

end LineScript
