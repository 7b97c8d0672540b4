-- SUMMARY: How runs of digits are read, and which integers are written.
import LineScript.Numeral
import LineScript.Word32
import Mathlib.Algebra.Group.Int.Defs
import Mathlib.Algebra.Group.Nat.Defs

/-!
# Plain numerals

A run of the digits `0` to `9` is read as the number it denotes, leading zeros allowed, unless it
is longer than `maxDigits`, in which case it is not read at all. In the other direction an integer
is written exactly if its magnitude is below `10 ^ maxDigits`. So every integer that is read can be
written.
-/

namespace LineScript

namespace Text

theorem isDigit_iff {c : Char} : c.isDigit ↔ 48 ≤ c.toNat ∧ c.toNat ≤ 57 := Char.isDigit_iff_toNat

theorem toNat_of_isBlank {c : Char} (h : isBlank c) : c.toNat ≤ 32 ∨ 133 ≤ c.toNat := by
  simp [isBlank, inRanges, blankRanges] at h
  omega

theorem digitValue?_of_isDigit {c : Char} (h : c.isDigit = true) :
    digitValue? c = some (c.toNat - '0'.toNat) := by
  have hc := isDigit_iff.mp h
  have hzero : (0x30 ≤ c.toNat && c.toNat ≤ 0x30 + 9) = true := by simp; omega
  simp [digitValue?, digitZeros, List.find?_cons_of_pos, hzero]

theorem not_isBlank_of_isDigit {c : Char} (h : c.isDigit = true) : isBlank c = false := by
  have hc := isDigit_iff.mp h
  refine Bool.eq_false_iff.mpr fun hblank => ?_
  have hbounds := toNat_of_isBlank hblank
  omega

theorem isDigit_of_mem_zeros {n : Nat} {c : Char} (h : c ∈ List.replicate n '0') : c.isDigit := by
  rw [List.eq_of_mem_replicate h]
  rfl

theorem digitsValue_zeros (n : Nat) : digitsValue (List.replicate n '0') = 0 := by
  induction n with
  | zero => rfl
  | succ n ih => exact ih

theorem digitValue?_lt {c : Char} {d : Nat} (h : digitValue? c = some d) : d < 10 := by
  obtain ⟨z, hz, rfl⟩ := Option.map_eq_some_iff.mp h
  have hrange := List.find?_some hz
  rw [Bool.and_eq_true, decide_eq_true_eq, decide_eq_true_eq] at hrange
  omega

end Text

namespace Numeral

theorem digits?_of_isDigit {c : Char} {cs : List Char} (h : ∀ d ∈ c :: cs, d.isDigit = true) :
    digits? (c :: cs) = some ((c :: cs).map fun d => d.toNat - '0'.toNat) := by
  induction cs generalizing c with
  | nil => simp [digits?, Text.digitValue?_of_isDigit (h c (by simp))]
  | cons d cs ih =>
    rw [List.forall_mem_cons] at h
    have hd : d ≠ '_' := by
      rintro rfl
      exact absurd (h.2 '_' (by simp)) (by decide)
    simp [digits?, Text.digitValue?_of_isDigit h.1, ih h.2]

theorem trimBoth_isPadding_of_isDigit {cs : List Char} (h : ∀ c ∈ cs, c.isDigit = true) :
    Text.trimBoth isPadding cs = cs := by
  have hkeep : ∀ ds : List Char, (∀ c ∈ ds, c.isDigit = true) → ds.dropWhile isPadding = ds := by
    intro ds hds
    cases ds with
    | nil => rfl
    | cons d ds =>
      have hd := Text.not_isBlank_of_isDigit (hds d (by simp))
      simp [isPadding, hd]
  have hreverse : ∀ c ∈ cs.reverse, c.isDigit = true := fun c hc => h c (List.mem_reverse.mp hc)
  rw [Text.trimBoth, hkeep cs h, hkeep cs.reverse hreverse, List.reverse_reverse]

/-- A run of digits is read as the number it denotes, unless it is too long. -/
theorem read?_of_isDigit {cs : List Char} (hne : cs ≠ []) (h : ∀ c ∈ cs, c.isDigit = true) :
    read? (String.ofList cs) =
      if cs.length ≤ maxDigits then some (Text.digitsValue cs : Int) else none := by
  obtain ⟨c, ds, rfl⟩ := List.exists_cons_of_ne_nil hne
  have hc := Text.isDigit_iff.mp (h c (by simp))
  have hplus : c ≠ '+' := by
    rintro rfl
    simp at hc
  have hminus : c ≠ '-' := by
    rintro rfl
    simp at hc
  have hnat : natural? (c :: ds) =
      if (c :: ds).length ≤ maxDigits then some (Text.digitsValue (c :: ds)) else none := by
    simp only [natural?, digits?_of_isDigit h, Option.bind_eq_bind, Option.bind_some,
      List.length_map, List.foldl_map, Text.digitsValue]
    rfl
  simp only [read?, String.toList_ofList, trimBoth_isPadding_of_isDigit h]
  split
  · next heq => exact absurd (List.cons.inj heq).1 hplus
  · next heq => exact absurd (List.cons.inj heq).1 hminus
  · rw [hnat]
    split <;> rfl

theorem read?_zeros {n : Nat} (h : maxDigits < n) :
    read? (String.ofList (List.replicate n '0')) = none := by
  have hne : List.replicate n '0' ≠ [] := by
    rw [Ne, List.replicate_eq_nil_iff]
    omega
  rw [read?_of_isDigit hne fun _ => Text.isDigit_of_mem_zeros, List.length_replicate,
    if_neg (by omega)]

/-! ## Integers that are written -/

theorem legible_iff {n : Int} : Legible n ↔ n.natAbs < 10 ^ maxDigits :=
  Nat.length_toDigits_le_iff (by decide) (by decide)

theorem Legible.of_natAbs_le {m n : Int} (h : Legible n) (hle : m.natAbs ≤ n.natAbs) :
    Legible m :=
  legible_iff.mpr (Nat.lt_of_le_of_lt hle (legible_iff.mp h))

/-- Few digits are always written. -/
theorem legible_of_natAbs_lt {n : Int} {k : Nat} (h : n.natAbs < 10 ^ k) (hk : k ≤ maxDigits) :
    Legible n :=
  legible_iff.mpr (Nat.lt_of_lt_of_le h (Nat.pow_le_pow_right (by decide) hk))

/-! ## Integers that are read -/

/-- A run of digits denotes less than the power of ten of its length. -/
theorem foldl_lt {ds : List Nat} (h : ∀ d ∈ ds, d < 10) (n : Nat) :
    ds.foldl (fun n d => 10 * n + d) n < (n + 1) * 10 ^ ds.length := by
  induction ds generalizing n with
  | nil => simp
  | cons d ds ih =>
    rw [List.forall_mem_cons] at h
    have hfirst : 10 * n + d + 1 ≤ 10 * (n + 1) := by omega
    calc (d :: ds).foldl (fun n d => 10 * n + d) n
      _ < (10 * n + d + 1) * 10 ^ ds.length := ih h.2 (10 * n + d)
      _ ≤ 10 * (n + 1) * 10 ^ ds.length := Nat.mul_le_mul_right _ hfirst
      _ = (n + 1) * 10 ^ (d :: ds).length := by
        rw [List.length_cons, Nat.pow_succ]
        ac_rfl

theorem lt_of_mem_digits? {cs : List Char} {ds : List Nat} (h : digits? cs = some ds) :
    ∀ d ∈ ds, d < 10 := by
  fun_induction digits? cs generalizing ds with
  | case1 => cases h
  | case2 c =>
    obtain ⟨d, hd, rfl⟩ := Option.map_eq_some_iff.mp h
    exact List.forall_mem_singleton.mpr (Text.digitValue?_lt hd)
  | case3 c cs ih =>
    obtain ⟨d, hd, hrest⟩ := Option.bind_eq_some_iff.mp h
    obtain ⟨es, hes, heq⟩ := Option.bind_eq_some_iff.mp hrest
    cases heq
    exact List.forall_mem_cons.mpr ⟨Text.digitValue?_lt hd, ih hes⟩
  | case4 c c' cs _ ih =>
    obtain ⟨d, hd, hrest⟩ := Option.bind_eq_some_iff.mp h
    obtain ⟨es, hes, heq⟩ := Option.bind_eq_some_iff.mp hrest
    cases heq
    exact List.forall_mem_cons.mpr ⟨Text.digitValue?_lt hd, ih hes⟩

theorem legible_of_natural? {cs : List Char} {n : Nat} (h : natural? cs = some n) :
    Legible n := by
  obtain ⟨ds, hds, hlength⟩ := Option.bind_eq_some_iff.mp h
  split at hlength
  · next hle =>
    cases hlength
    have hlt := foldl_lt (lt_of_mem_digits? hds) 0
    rw [Nat.zero_add, Nat.one_mul] at hlt
    exact legible_of_natAbs_lt hlt hle
  · cases hlength

theorem Legible.neg {n : Int} (h : Legible n) : Legible (-n) :=
  h.of_natAbs_le (Nat.le_of_eq (Int.natAbs_neg n))

/-- What is read can be written. -/
theorem legible_of_read? {s : String} {n : Int} (h : read? s = some n) : Legible n := by
  unfold read? at h
  split at h <;> obtain ⟨m, hm, rfl⟩ := Option.map_eq_some_iff.mp h
  · exact legible_of_natural? hm
  · exact (legible_of_natural? hm).neg
  · exact legible_of_natural? hm

theorem digitsValue_lt {cs : List Char} (h : ∀ c ∈ cs, c.isDigit) :
    Text.digitsValue cs < 10 ^ cs.length := by
  have hdigits : ∀ d ∈ cs.map (fun c => c.toNat - '0'.toNat), d < 10 := by
    intro d hd
    obtain ⟨c, hc, rfl⟩ := List.mem_map.mp hd
    have hrange := Text.isDigit_iff.mp (h c hc)
    change c.toNat - 48 < 10
    omega
  have hlt := foldl_lt hdigits 0
  rwa [List.foldl_map, List.length_map, Nat.zero_add, Nat.one_mul] at hlt

end Numeral

theorem Word32.Fits.legible {n : Int} (h : Word32.Fits n) : Numeral.Legible n := by
  refine Numeral.legible_of_natAbs_lt (k := 10) ?_ (by decide)
  unfold Fits least greatest at h
  omega

end LineScript
