-- SUMMARY: Arithmetic of signed 32-bit words on unbounded integers.

/-!
# Signed 32-bit words

Numbers of the language are integers, and arithmetic brings its results back into the range of a
signed 32-bit word. Division rounds toward zero and the remainder takes the sign of the dividend.
-/

namespace LineScript.Word32

/-- The least signed 32-bit word, `-2 ^ 31`. -/
def least : Int := -2147483648

/-- The greatest signed 32-bit word, `2 ^ 31 - 1`. -/
def greatest : Int := 2147483647

/-- The integer is in the range of a signed 32-bit word. -/
def Fits (n : Int) : Prop := least ≤ n ∧ n ≤ greatest

instance (n : Int) : Decidable (Fits n) := inferInstanceAs (Decidable (_ ∧ _))

/-- The signed 32-bit word congruent to an integer modulo `2 ^ 32`. -/
def wrap (n : Int) : Int := n.bmod 4294967296

theorem fits_wrap (n : Int) : Fits (wrap n) := by
  simp only [Fits, wrap, least, greatest, Int.bmod]
  split <;> omega

theorem wrap_of_fits {n : Int} (h : Fits n) : wrap n = n := by
  simp only [Fits, least, greatest] at h
  simp only [wrap, Int.bmod]
  split <;> omega

theorem wrap_emod (n : Int) : wrap n % 4294967296 = n % 4294967296 := by
  simp only [wrap, Int.bmod]
  split <;> omega

/-- A word is found by counting from the least one, around the `2 ^ 32` words there are. -/
theorem wrap_eq_emod (n : Int) : wrap n = (n - least) % 4294967296 + least := by
  simp only [wrap, Int.bmod, least]
  split <;> omega

/-- The quotient rounded toward zero; there is none by zero. -/
def quotient? (a b : Int) : Option Int := if b = 0 then none else some (a.tdiv b)

/-- The remainder that goes with `quotient?`, of the sign of the dividend; there is none by zero. -/
def remainder? (a b : Int) : Option Int := if b = 0 then none else some (a.tmod b)

/-- The quotient has the magnitude of the quotient of the magnitudes, and a sign if the operands are
    of different signs. -/
theorem quotient?_eq_magnitude (a : Int) {b : Int} (hb : b ≠ 0) :
    quotient? a b = some (if (a < 0 ↔ b < 0) then ((a.natAbs / b.natAbs : Nat) : Int)
      else -((a.natAbs / b.natAbs : Nat) : Int)) := by
  rw [quotient?, if_neg hb, Int.ofNat_tdiv]
  rcases Int.lt_or_le a 0 with ha | ha
  · rw [Int.ofNat_natAbs_of_nonpos (Int.le_of_lt ha), Int.neg_tdiv]
    rcases Int.lt_or_le b 0 with hneg | hpos
    · rw [if_pos (iff_of_true ha hneg), Int.ofNat_natAbs_of_nonpos (Int.le_of_lt hneg),
        Int.tdiv_neg, Int.neg_neg]
    · rw [if_neg (by omega), Int.natAbs_of_nonneg hpos, Int.neg_neg]
  · rw [Int.natAbs_of_nonneg ha]
    rcases Int.lt_or_le b 0 with hneg | hpos
    · rw [if_neg (by omega), Int.ofNat_natAbs_of_nonpos (Int.le_of_lt hneg), Int.tdiv_neg,
        Int.neg_neg]
    · rw [if_pos (iff_of_false (by omega) (by omega)), Int.natAbs_of_nonneg hpos]

/-- The remainder is what the quotient leaves over. -/
theorem remainder?_eq_leftover (a b : Int) :
    remainder? a b = (quotient? a b).map fun q => a - b * q := by
  simp only [remainder?, quotient?]
  split
  · rfl
  · rw [Option.map_some, Int.tmod_def]

end LineScript.Word32
