import PageRender.Decimal.Double

/-!
# Decimal digits of a double

Two choices of digits for a positive double: the fewest that read back as the same double, and a
fixed number of significant digits. Both compare exact fractions.
-/

namespace PageRender

/-- A positive decimal fraction `0.digits * 10 ^ point`. -/
structure DecimalDigits where
  digits : List Nat
  point : Int
deriving DecidableEq

namespace DecimalDigits

/-- A fraction of naturals scaled by a power of two and by a power of ten. -/
def scaled (n : Nat) (two ten : Int) : Nat × Nat :=
  (n * twoTo two.toNat * tenTo ten.toNat, twoTo (-two).toNat * tenTo (-ten).toNat)

/-- The least `point` from `start` on, within a few steps, with `m * 2 ^ q < 10 ^ point`. -/
def pointFrom (m : Nat) (q : Int) : (steps : Nat) → (start : Int) → Int
  | 0, start => start
  | steps + 1, start =>
    let (num, den) := scaled m q (-start)
    if num < den then start else pointFrom m q steps (start + 1)

/-- Where the decimal point stands in `m * 2 ^ q`, before the first digit of which is not zero. -/
def pointOf (m : Nat) (q : Int) : Int :=
  pointFrom m q 6 ((((m.log2 : Int) + q) * 30103).fdiv 100000 - 1)

/-- The digits of a natural, without the zeros at its end. -/
def significant (n : Nat) : List Nat :=
  (((Nat.toDigits 10 n).reverse.dropWhile (· == '0')).reverse).map (·.toNat - '0'.toNat)

/-- The digits of `n * 10 ^ (point - places)`, which may have carried into one more place. -/
def ofRounded (n places : Nat) (point : Int) : DecimalDigits :=
  ⟨significant n, if tenTo places ≤ n then point + 1 else point⟩

/-- Whether `n * 10 ^ e` reads back as the double `m * 2 ^ q`: it lies between the midpoints to the
neighbouring doubles, or on one of them if the mantissa is even. -/
def readsBack (m : Nat) (q : Int) (n : Nat) (e : Int) : Bool :=
  let below := if m == twoTo 52 && -1074 < q then 4 * m - 1 else 4 * m - 2
  let above := 4 * m + 2
  let (num, den) := scaled n (2 - q) e
  if m % 2 == 0 then below * den ≤ num && num ≤ above * den
  else below * den < num && num < above * den

/-- With `places` digits, the nearest decimal that reads back as the double, if there is one. -/
def withPlaces? (m : Nat) (q point : Int) (places : Nat) : Option DecimalDigits :=
  let e := point - places
  let (num, den) := scaled m q (-e)
  let low := num / den
  let nearest := roundedQuotient num den
  let other := if nearest == low then low + 1 else low
  if readsBack m q nearest e then some (ofRounded nearest places point)
  else if readsBack m q other e then some (ofRounded other places point)
  else none

/-- The fewest digits that read back as the double `m * 2 ^ q`; seventeen always do. -/
def shortest (m : Nat) (q : Int) : DecimalDigits :=
  let point := pointOf m q
  ((List.range' 1 17).findSome? (withPlaces? m q point)).getD ⟨[], 0⟩

/-- The double `m * 2 ^ q` rounded to `places` significant digits. -/
def rounded (m : Nat) (q : Int) (places : Nat) : DecimalDigits :=
  let point := pointOf m q
  let (num, den) := scaled m q (places - point)
  ofRounded (roundedQuotient num den) places point

end DecimalDigits

end PageRender
