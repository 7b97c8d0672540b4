-- SUMMARY: Double-precision numbers as exact data: rounding, truncation, shortest decimals.
import LineScript.Numeral

/-!
# Double-precision numbers

Stored programs may hold numbers with a fraction or an exponent. They are kept as exact data, a
sign, a significand and a power of two, and never as machine floats. A decimal is rounded to the
nearest such number, a tie going to the even significand. A number is shown by the fewest decimal
digits that round back to it, of two such decimals by the nearer one.
-/

namespace LineScript

/-- A double-precision number. A finite one is `± significand * 2 ^ exponent`. -/
inductive Binary64 where
  | finite (negative : Bool) (significand : Nat) (exponent : Int)
  | infinite (negative : Bool)
  | nan
  deriving DecidableEq, Repr

namespace Binary64

/-- The exponent of the smallest positive number. -/
def leastExponent : Int := -1074

/-- The exponent of the largest finite numbers. -/
def greatestExponent : Int := 971

/-- A power of two. -/
def twoTo (k : Nat) : Nat := Nat.pow 2 k

/-- A power of ten. -/
def tenTo (k : Nat) : Nat := Nat.pow 10 k

/-! ## Rounding -/

/-- The quotient rounded to the nearest natural number, a tie going to the even one. -/
def roundQuotient (num den : Nat) : Nat :=
  let q := num / den
  let r := num % den
  if 2 * r < den || (2 * r == den && q % 2 == 0) then q else q + 1

/-- The quotient of `num / den` by `2 ^ e`, as a pair of natural numbers. -/
def shifted (num den : Nat) (e : Int) : Nat × Nat :=
  (num * twoTo (-e).toNat, den * twoTo e.toNat)

/-- The double-precision number nearest to `± num / den`. -/
def ofRatio (negative : Bool) (num den : Nat) : Binary64 :=
  if num = 0 then
    .finite negative 0 leastExponent
  else
    let low := max ((num.log2 : Int) - den.log2 - 53) leastExponent
    let (n, d) := shifted num den low
    let e := if twoTo 53 * d ≤ n then low + 1 else low
    let (n, d) := shifted num den e
    let m := roundQuotient n d
    let (m, e) := if m = twoTo 53 then (twoTo 52, e + 1) else (m, e)
    if greatestExponent < e then .infinite negative else .finite negative m e

/-- The double-precision number nearest to `± digits * 10 ^ scale`. Decimals beyond the range are
    settled by their order of magnitude alone. -/
def ofDecimal (negative : Bool) (digits : Nat) (scale : Int) : Binary64 :=
  if digits = 0 then
    .finite negative 0 leastExponent
  else
    let magnitude := ((Numeral.natChars digits).length : Int) + scale
    if 310 < magnitude then .infinite negative
    else if magnitude < -330 then .finite negative 0 leastExponent
    else ofRatio negative (digits * tenTo scale.toNat) (tenTo (-scale).toNat)

/-- The integer part of `± significand * 2 ^ exponent`. -/
def truncate (negative : Bool) (significand : Nat) (exponent : Int) : Int :=
  let n : Nat := significand * twoTo exponent.toNat / twoTo (-exponent).toNat
  if negative then -(n : Int) else n

/-- The number is zero, of either sign. -/
def isZero : Binary64 → Bool
  | .finite _ m _ => m == 0
  | _ => false

/-- The integer that a number is equal to. -/
def toInt? : Binary64 → Option Int
  | .finite s m e =>
    if (m * twoTo e.toNat) % twoTo (-e).toNat = 0 then some (truncate s m e) else none
  | _ => none

/-- The first number is less than the second. A NaN is less than nothing, and nothing than a NaN. -/
def less : Binary64 → Binary64 → Bool
  | .finite s m e, .finite t n f =>
    let signed := fun (negative : Bool) (k : Nat) => if negative then -(k : Int) else k
    signed s (m * twoTo (e - f).toNat) < signed t (n * twoTo (f - e).toNat)
  | .infinite s, .infinite t => s && !t
  | .infinite s, .finite .. => s
  | .finite .., .infinite t => !t
  | .nan, _ | _, .nan => false

/-! ## Shortest decimal -/

/-- The decimal `digits * 10 ^ scale`. -/
structure Decimal where
  digits : Nat
  scale : Int

/-- Compare a decimal with `n * 2 ^ e`. -/
def Decimal.compareTo (x : Decimal) (n : Nat) (e : Int) : Ordering :=
  compare (x.digits * tenTo x.scale.toNat * twoTo (-e).toNat)
    (n * twoTo e.toNat * tenTo (-x.scale).toNat)

/-- The decimal rounds to `m * 2 ^ e`: it lies between the midpoints to the two neighbours, which
    belong to the number when `m` is even. Below a power of two the neighbour is half as far. -/
def Decimal.roundsTo (x : Decimal) (m : Nat) (e : Int) : Bool :=
  let low := if m = twoTo 52 && leastExponent < e then 4 * m - 1 else 4 * m - 2
  let below := x.compareTo low (e - 2)
  let above := x.compareTo (4 * m + 2) (e - 2)
  (below == .gt || (below == .eq && m % 2 == 0)) && (above == .lt || (above == .eq && m % 2 == 0))

/-- The least power of ten above `m * 2 ^ e`. -/
def decimalExponent (m : Nat) (e : Int) : Int :=
  let guess := ((m.log2 : Int) + e) * 30103 / 100000
  let above := [guess - 1, guess, guess + 1].find? fun k => (Decimal.mk 1 k).compareTo m e == .gt
  above.getD (guess + 2)

/-- The decimal with the given scale that rounds to `m * 2 ^ e`, the nearer one if there are two,
    of two equally near ones the even one. -/
def onGrid? (m : Nat) (e scale : Int) : Option Decimal :=
  let num := m * twoTo e.toNat * tenTo (-scale).toNat
  let den := twoTo (-e).toNat * tenTo scale.toNat
  let lower := Decimal.mk (num / den) scale
  let upper := Decimal.mk (num / den + 1) scale
  match lower.roundsTo m e, upper.roundsTo m e with
  | true, true => some ⟨roundQuotient num den, scale⟩
  | true, false => some lower
  | false, true => some upper
  | false, false => none

/-- The exact value of `m * 2 ^ e` as a decimal. -/
def exactDecimal (m : Nat) (e : Int) : Decimal :=
  ⟨m * twoTo e.toNat * Nat.pow 5 (-e).toNat, min e 0⟩

/-- A decimal with the fewest digits among those that round to `m * 2 ^ e`. -/
def shortest (m : Nat) (e : Int) : Decimal :=
  let k := decimalExponent m e
  ((List.range 17).findSome? fun i => onGrid? m e (k - (i + 1 : Nat))).getD (exactDecimal m e)

/-- Drop the zeros at the end of a run of digits, and count them. -/
def dropZeros (digits : List Char) : List Char × Nat :=
  let kept := (digits.reverse.dropWhile (· == '0')).reverse
  (kept, digits.length - kept.length)

/-! ## Text -/

/-- Lay out digits with the given exponent of the first one: positionally from `10 ^ -4` up to below
    `10 ^ 16`, with at least one digit behind the point, and otherwise with a signed exponent of at
    least two digits. -/
def layout (digits : List Char) (first : Int) : List Char :=
  if -4 ≤ first ∧ first < 0 then
    '0' :: '.' :: (List.replicate (-first - 1).toNat '0' ++ digits)
  else if 0 ≤ first ∧ first < 16 then
    let whole := first.toNat + 1
    let fraction := digits.drop whole
    digits.take whole ++ List.replicate (whole - digits.length) '0' ++
      '.' :: (if fraction.isEmpty then ['0'] else fraction)
  else
    let power := Numeral.natChars first.natAbs
    let fraction := digits.drop 1
    digits.take 1 ++ (if fraction.isEmpty then [] else '.' :: fraction) ++
      'e' :: (if first < 0 then '-' else '+') :: (List.replicate (2 - power.length) '0' ++ power)

/-- The shortest text of a finite number. -/
def finiteChars (negative : Bool) (m : Nat) (e : Int) : List Char :=
  let unsigned :=
    if m = 0 then
      layout ['0'] 0
    else
      let x := shortest m e
      let (digits, dropped) := dropZeros (Numeral.natChars x.digits)
      layout digits (x.scale + dropped + digits.length - 1)
  if negative then '-' :: unsigned else unsigned

/-- The text of a number in messages. -/
def render : Binary64 → String
  | .finite s m e => String.ofList (finiteChars s m e)
  | .infinite false => "inf"
  | .infinite true => "-inf"
  | .nan => "nan"

end Binary64

end LineScript
