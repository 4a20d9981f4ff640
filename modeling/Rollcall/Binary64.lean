/-!
# Double-precision numbers

A double is kept as its 64 bits; all arithmetic on it is exact arithmetic on `Nat`. The module holds
rounding to the nearest double, the reading of a decimal literal, and the shortest text.

A literal is read by way of its first digits that fit in 64 bits: they are rounded to a double,
which is then multiplied or divided by a power of ten, so that some literals come out one unit in
the last place off the nearest double.
-/

namespace Rollcall

structure Binary64 where
  bits : UInt64
deriving DecidableEq, Repr

namespace Binary64

/-- The least exponent of a double's last place. -/
def leastExponent : Int := -1074

def twoTo (k : Nat) : Nat := Nat.pow 2 k
def tenTo (k : Nat) : Nat := Nat.pow 10 k

/-- The floor of `num / den / 2 ^ e`, the remainder and the divisor it is a remainder of. -/
def scaledDiv (num den : Nat) (e : Int) : Nat × Nat × Nat :=
  if 0 ≤ e then
    let d := den * twoTo e.toNat
    (num / d, num % d, d)
  else
    let n := num * twoTo (-e).toNat
    (n / den, n % den, den)

/-- The bits of the double nearest to `num / den`, a tie going to the even one; `none` when that is
infinite. -/
def nearest? (num den : Nat) : Option Nat :=
  if num = 0 ∨ den = 0 then some 0
  else
    let low : Int := max leastExponent ((Nat.log2 num : Int) - Nat.log2 den - 53)
    let e := if (scaledDiv num den low).1 < twoTo 53 then low else low + 1
    let (q, r, d) := scaledDiv num den e
    let m := if 2 * r < d ∨ (2 * r = d ∧ q % 2 = 0) then q else q + 1
    let bits :=
      if m < twoTo 52 then m
      else (e - leastExponent + 1).toNat * twoTo 52 + (m - twoTo 52)
    if bits < 2047 * twoTo 52 then some bits else none

def decompose (magnitude : Nat) : Nat × Int :=
  let biased : Nat := magnitude / twoTo 52
  let rest : Nat := magnitude % twoTo 52
  if biased = 0 then (rest, leastExponent) else (twoTo 52 + rest, leastExponent + biased - 1)

def ratio (magnitude : Nat) : Nat × Nat :=
  let (m, e) := decompose magnitude
  if 0 ≤ e then (m * twoTo e.toNat, 1) else (m, twoTo (-e).toNat)

def powerOfTen (k : Nat) : Nat := (nearest? (tenTo k) 1).getD 0

def times? (a b : Nat) : Option Nat :=
  nearest? ((ratio a).1 * (ratio b).1) ((ratio a).2 * (ratio b).2)

def over? (a b : Nat) : Option Nat :=
  nearest? ((ratio a).1 * (ratio b).2) ((ratio a).2 * (ratio b).1)

/-- Scales a magnitude by a power of ten, at most 308 places at a time. Three divisions bring every
magnitude below `2 ^ 64` to zero. -/
def scale? : Nat → Nat → Int → Option Nat
  | 0, f, _ => some f
  | steps + 1, f, exponent =>
    if exponent.natAbs ≤ 308 then
      if 0 ≤ exponent then times? f (powerOfTen exponent.natAbs)
      else over? f (powerOfTen exponent.natAbs)
    else if f = 0 then some f
    else if 0 ≤ exponent then none
    else (over? f (powerOfTen 308)).bind fun g => scale? steps g (exponent + 308)

def ofMagnitude (negative : Bool) (magnitude : Nat) : Binary64 :=
  ⟨UInt64.ofNat (magnitude + if negative then twoTo 63 else 0)⟩

/-- The double read from `significand * 10 ^ exponent`; `none` when it is out of range. -/
def ofDecimal? (negative : Bool) (significand : Nat) (exponent : Int) : Option Binary64 :=
  ((nearest? significand 1).bind fun f => scale? 4 f exponent).map (ofMagnitude negative)

/-! ## The shortest text -/

def isNegative (x : Binary64) : Bool := twoTo 63 ≤ x.bits.toNat

def magnitude (x : Binary64) : Nat := x.bits.toNat % twoTo 63

/-- The power of ten of the leading digit of `num / den`. -/
def leadingExponent (num den : Nat) : Int :=
  if den ≤ num then (toString (num / den)).length - 1
  else ((List.range 400).find? fun k => den ≤ num * tenTo (k + 1)).elim 0 fun k => -(k + 1)

def decimalRatio (c : Nat) (u : Int) : Nat × Nat :=
  if 0 ≤ u then (c * tenTo u.toNat, 1) else (c, tenTo (-u).toNat)

/-- The digits with which `n` places name the value, if `n` places are enough: of the two
neighbours of the value on the grid of `n` digits the one that reads back as it, the nearer if both
do, the even one in a tie. The grid's unit comes with it. -/
def digitsAt? (magnitude n : Nat) : Option (Nat × Int) :=
  let (m, e) := decompose magnitude
  let (num, den) := ratio magnitude
  let u := leadingExponent num den + 1 - n
  let (uNum, uDen) := decimalRatio 1 u
  let c := num * uDen / (den * uNum)
  -- all bounds as multiples of a quarter of the value's last place
  let (qNum, qDen) := if 0 ≤ e then (twoTo e.toNat, 4) else (1, 4 * twoTo (-e).toNat)
  let low := 4 * m - if m = twoTo 52 ∧ leastExponent < e then 1 else 2
  let high := 4 * m + 2
  let reads (k : Nat) : Bool :=
    let (kNum, kDen) := decimalRatio k u
    if m % 2 = 0 then low * qNum * kDen ≤ kNum * qDen && kNum * qDen ≤ high * qNum * kDen
    else low * qNum * kDen < kNum * qDen && kNum * qDen < high * qNum * kDen
  match reads c, reads (c + 1) with
  | true, false => some (c, u)
  | false, true => some (c + 1, u)
  | true, true =>
    let twice := 2 * num * uDen
    let middle := (2 * c + 1) * den * uNum
    if twice < middle ∨ (twice = middle ∧ c % 2 = 0) then some (c, u) else some (c + 1, u)
  | false, false => none

/-- The digits of a nonzero magnitude and the power of ten of the first of them. -/
def shortest (magnitude : Nat) : List Char × Int :=
  let found := (List.range 17).findSome? fun n => digitsAt? magnitude (n + 1)
  let (c, u) := found.getD (0, 0)
  let digits := (toString c).toList
  ((digits.reverse.dropWhile (· = '0')).reverse, u + digits.length - 1)

/-- The powers of ten of the leading digit for which a double's text is positional. -/
structure TextStyle where
  leastPositional : Int
  greatestPositional : Int

/-- Positional from 0.00001 up to below 10 ^ 16, else with an exponent. -/
def TextStyle.standard : TextStyle := ⟨-5, 15⟩

def positional (digits : List Char) (x : Int) : List Char :=
  if x < 0 then '0' :: '.' :: List.replicate ((-x).toNat - 1) '0' ++ digits
  else
    let whole := x.toNat + 1
    if digits.length ≤ whole then
      digits ++ List.replicate (whole - digits.length) '0' ++ ['.', '0']
    else digits.take whole ++ '.' :: digits.drop whole

/-- A mantissa and an exponent, which always has a sign and no leading zeros. -/
def exponential (digits : List Char) (x : Int) : List Char :=
  let mantissa := match digits with
    | d :: rest@(_ :: _) => d :: '.' :: rest
    | ds => ds
  mantissa ++ 'e' :: (if x < 0 then '-' else '+') :: (toString x.natAbs).toList

def text (x : Binary64) : String :=
  let style := TextStyle.standard
  let body :=
    if x.magnitude = 0 then ['0', '.', '0']
    else
      let (digits, e) := shortest x.magnitude
      if style.leastPositional ≤ e ∧ e ≤ style.greatestPositional then positional digits e
      else exponential digits e
  String.ofList (if x.isNegative then '-' :: body else body)

end Binary64
end Rollcall
