import PageRender.Decimal.Numeral

/-!
# Doubles as exact numbers

A finite double is `mantissa * 2 ^ exponent`. Numerals are rounded to the nearest double, ties to
the even mantissa, in exact integer arithmetic.
-/

namespace PageRender

def twoTo (n : Nat) : Nat := Nat.pow 2 n

def tenTo (n : Nat) : Nat := Nat.pow 10 n

inductive DoubleParts where
  | finite (negative : Bool) (mantissa : Nat) (exponent : Int)
  | infinite (negative : Bool)
  | undefined
deriving DecidableEq

namespace DoubleParts

def ofFloat (x : Float) : DoubleParts :=
  let bits := x.toBits.toNat
  let negative := bits / twoTo 63 == 1
  let exponent : Nat := bits / twoTo 52 % twoTo 11
  let fraction : Nat := bits % twoTo 52
  if exponent == 2047 then if fraction == 0 then .infinite negative else .undefined
  else if exponent == 0 then .finite negative fraction (-1074)
  else .finite negative (fraction + twoTo 52) ((exponent : Int) - 1075)

/-- The integer a finite double is cut to, and whether nothing was cut off. -/
def truncate (mantissa : Nat) (exponent : Int) : Nat × Bool :=
  if 0 ≤ exponent then (mantissa * twoTo exponent.toNat, true)
  else
    let unit := twoTo (-exponent).toNat
    (mantissa / unit, mantissa % unit == 0)

end DoubleParts

/-- The quotient rounded to the nearest integer, a half to the even one. -/
def roundedQuotient (num den : Nat) : Nat :=
  let q := num / den
  let twice := 2 * (num % den)
  if twice < den || (twice == den && q % 2 == 0) then q else q + 1

namespace Numeral

def fraction (digits : Nat) (exponent : Int) : Nat × Nat :=
  if 0 ≤ exponent then (digits * tenTo exponent.toNat, 1)
  else (digits, tenTo (-exponent).toNat)

/-- The bits of the double nearest to a positive fraction; past the largest, of infinity. -/
def nearestBits (num den : Nat) : Nat :=
  let scale (q : Int) : Nat × Nat :=
    if 0 ≤ q then (num, den * twoTo q.toNat) else (num * twoTo (-q).toNat, den)
  let low : Int := max ((num.log2 : Int) - den.log2 - 53) (-1074)
  let (n, d) := scale low
  let q := if twoTo 53 ≤ n / d then low + 1 else low
  let (n, d) := scale q
  min ((q + 1074).toNat * twoTo 52 + roundedQuotient n d) (2047 * twoTo 52)

def toFloat : Numeral → Float
  | .undefined => 0.0 / 0.0
  | .infinite negative => if negative then -(1.0 / 0.0) else 1.0 / 0.0
  | .finite negative digits exponent =>
    let magnitude : Int := digits.log2 * 30103 / 100000 + exponent
    let bits :=
      if digits == 0 || magnitude < -400 then 0
      else if 400 < magnitude then 2047 * twoTo 52
      else
        let (num, den) := fraction digits exponent
        nearestBits num den
    Float.ofBits (UInt64.ofNat (if negative then bits + twoTo 63 else bits))

end Numeral

def doubleOfInt (n : Int) : Float :=
  (Numeral.finite (n < 0) n.natAbs 0).toFloat

def readDouble? (s : String) : Option Float :=
  (Numeral.read? s).map Numeral.toFloat

end PageRender
