/-!
# Binary floating point, 64 bits wide

A finite value is `mantissa * 2 ^ exponent` with a sign. Every operation rounds to the nearest
value, a tie going to the even mantissa.

* `Binary64.chars`: the fewest digits of which the value is the nearest one, and of several such
  decimals the nearest to the value.
* `Binary64.ofDecimal?`: the digits of a decimal are rounded, then multiplied or divided by a
  rounded power of ten. So the value read may be off the nearest one by some places, and what was
  written need not read back.

Everything is integer arithmetic, so both directions can be reasoned about and computed.
-/

namespace Lineage

/-- A finite value: `mantissa < 2 ^ 53`, and `mantissa ≥ 2 ^ 52` unless `exponent` is the least
one, `-1074`. Zero has a sign. -/
structure Binary64 where
  negative : Bool
  mantissa : Nat
  exponent : Int
  deriving DecidableEq, Repr, Inhabited

namespace Binary64

/-- A nonnegative fraction. -/
structure Ratio where
  num : Nat
  den : Nat

/-- `r * b ^ e`. -/
def Ratio.scale (r : Ratio) (b : Nat) (e : Int) : Ratio :=
  if 0 ≤ e then ⟨r.num * b.pow e.toNat, r.den⟩ else ⟨r.num, r.den * b.pow (-e).toNat⟩

/-- Whether `r ≤ s`. -/
def Ratio.le (r s : Ratio) : Bool := r.num * s.den ≤ s.num * r.den

/-- The nearest integer, a tie going to the even one. -/
def Ratio.round (r : Ratio) : Nat :=
  let q := r.num / r.den
  let twice := 2 * (r.num % r.den)
  if twice < r.den then q
  else if r.den < twice then q + 1
  else if q % 2 = 0 then q else q + 1

/-- The least mantissa unless the exponent is the least, `2 ^ 52`. -/
def leading : Nat := 1 <<< 52

/-- The least exponent, that of the values nearest to zero. -/
def minExponent : Int := -1074

/-- The largest exponent. -/
def maxExponent : Int := 971

/-- Zero with a sign. -/
def zero (negative : Bool) : Binary64 := ⟨negative, 0, minExponent⟩

/-- The value nearest to a fraction, or `none` beyond the largest value. -/
def ofRatio? (negative : Bool) (r : Ratio) : Option Binary64 :=
  if r.num = 0 then some (zero negative)
  else
    let guess : Int := (r.num.log2 : Int) - (r.den.log2 : Int) - 52
    -- the guess is the exponent sought or one more
    let low := r.scale 2 (-(guess - 1))
    let exponent := max minExponent (if low.num < 2 * leading * low.den then guess - 1 else guess)
    let m := (r.scale 2 (-exponent)).round
    let (m, exponent) := if m = 2 * leading then (leading, exponent + 1) else (m, exponent)
    if maxExponent < exponent then none else some ⟨negative, m, exponent⟩

/-- The magnitude as a fraction. -/
def ratio (x : Binary64) : Ratio := Ratio.scale ⟨x.mantissa, 1⟩ 2 x.exponent

/-! ## Reading -/

/-- The largest power of ten among the values. -/
def maxPower : Nat := 308

/-- The value nearest to a power of ten up to `maxPower`, as a fraction. -/
def powerOfTen (n : Nat) : Ratio := ((ofRatio? false ⟨Nat.pow 10 n, 1⟩).map ratio).getD ⟨1, 1⟩

/-- The product with a power of ten, or `none` beyond the largest value. -/
def shiftUp? (x : Binary64) (n : Nat) : Option Binary64 :=
  if x.mantissa = 0 then some x
  else if maxPower < n then none
  else
    let p := powerOfTen n
    ofRatio? x.negative ⟨x.ratio.num * p.num, x.ratio.den * p.den⟩

/-- The quotient by a power of ten up to `maxPower`. -/
def divide (x : Binary64) (n : Nat) : Binary64 :=
  let p := powerOfTen n
  (ofRatio? x.negative ⟨x.ratio.num * p.den, x.ratio.den * p.num⟩).getD x

/-- The quotient by a power of ten, in steps of `maxPower`. Two such steps leave nothing of a value
below `2 ^ 64`. -/
def shiftDown (x : Binary64) (n : Nat) : Binary64 :=
  if n ≤ maxPower then x.divide n
  else if n ≤ 2 * maxPower then (x.divide maxPower).divide (n - maxPower)
  else zero x.negative

/-- The value that `digits * 10 ^ e` is read as, or `none` beyond the largest value. The digits are
those of a number below `2 ^ 64`. -/
def ofDecimal? (negative : Bool) (digits : Nat) (e : Int) : Option Binary64 := do
  let x ← ofRatio? negative ⟨digits, 1⟩
  if 0 ≤ e then x.shiftUp? e.toNat else some (x.shiftDown (-e).toNat)

/-! ## Writing -/

/-- A decimal `digits * 10 ^ exponent`. -/
structure Decimal where
  digits : Nat
  exponent : Int
  deriving DecidableEq, Repr

/-- The closed interval of fractions around a magnitude of which it is the nearest value, in
quarters of the last place: one quarter below a power of two, two otherwise. -/
def neighbourhood (x : Binary64) : Ratio × Ratio :=
  let below := if x.mantissa = leading ∧ minExponent < x.exponent then 1 else 2
  (Ratio.scale ⟨4 * x.mantissa - below, 1⟩ 2 (x.exponent - 2),
   Ratio.scale ⟨4 * x.mantissa + 2, 1⟩ 2 (x.exponent - 2))

/-- Whether `x` is the value nearest to a decimal: that lies in the neighbourhood, whose ends belong
to it when the mantissa is even. -/
def isNearest (x : Binary64) (d : Decimal) : Bool :=
  let r := Ratio.scale ⟨d.digits, 1⟩ 10 d.exponent
  let (lo, hi) := x.neighbourhood
  if x.mantissa % 2 = 0 then lo.le r && r.le hi else !r.le lo && !hi.le r

/-- The decimal exponent of the leading digit of a positive fraction. -/
def leadingExponent (r : Ratio) : Int :=
  let guess : Int := ((r.num.log2 : Int) - (r.den.log2 : Int)) * 30103 / 100000
  -- the guess is within one of the exponent sought
  if Ratio.le (Ratio.scale ⟨1, 1⟩ 10 (guess + 1)) r then guess + 1
  else if Ratio.le (Ratio.scale ⟨1, 1⟩ 10 guess) r then guess
  else guess - 1

/-- The decimal of `places` digits nearest to `x`, if `x` is the value nearest to it. -/
def atPlaces (x : Binary64) (places : Nat) : Option Decimal :=
  let e := leadingExponent x.ratio - (places : Int) + 1
  let scaled := x.ratio.scale 10 (-e)
  let near := scaled.round
  let far := if near = scaled.num / scaled.den then near + 1 else near - 1
  if x.isNearest ⟨near, e⟩ then some ⟨near, e⟩
  else if x.isNearest ⟨far, e⟩ then some ⟨far, e⟩
  else none

/-- Drop the trailing zeros of a decimal, at most `fuel` of them. -/
def Decimal.trim : Nat → Decimal → Decimal
  | 0, d => d
  | fuel + 1, d =>
    if d.digits % 10 = 0 ∧ d.digits ≠ 0 then trim fuel ⟨d.digits / 10, d.exponent + 1⟩ else d

/-- The decimal with the fewest digits to which `x` is the nearest value; seventeen always
suffice. -/
def shortest (x : Binary64) : Decimal :=
  if x.mantissa = 0 then ⟨0, 0⟩
  else (((List.range 17).findSome? fun p => x.atPlaces (p + 1)).getD ⟨0, 0⟩).trim 17

/-- Positional for magnitudes from `10 ^ -5` up to `10 ^ 16`, with a signed exponent outside; a
whole number ends in `.0`. -/
def chars (x : Binary64) : List Char :=
  let d := x.shortest
  let digits := (toString d.digits).toList
  let point : Int := (digits.length : Int) + d.exponent
  let zeros (n : Int) := List.replicate n.toNat '0'
  let magnitude :=
    if x.mantissa = 0 then ['0', '.', '0']
    else if 0 ≤ d.exponent ∧ point ≤ 16 then digits ++ zeros d.exponent ++ ['.', '0']
    else if 0 < point ∧ point ≤ 16 then
      digits.take point.toNat ++ '.' :: digits.drop point.toNat
    else if -5 < point ∧ point ≤ 0 then '0' :: '.' :: zeros (-point) ++ digits
    else
      let tail := digits.drop 1
      digits.take 1 ++ (if tail.isEmpty then [] else '.' :: tail) ++
        'e' :: (if 0 < point then '+' :: (point - 1).repr.toList else (point - 1).repr.toList)
  if x.negative then '-' :: magnitude else magnitude

end Binary64

end Lineage
