import PageRender.Decimal.Double

/-!
# Lengths and coordinates

Layout and painting are written for any arithmetic with the operations below. Pages are laid out in
doubles; exact fractions obey the same definitions.
-/

namespace PageRender

class Scalar (α : Type) extends Add α, Sub α, Mul α, Div α where
  ofNat : Nat → α
  ofNumeral : Numeral → α
  less : α → α → Bool
  equal : α → α → Bool

namespace Scalar

variable {α : Type} [Scalar α]

def atMost (a b : α) : Bool :=
  less a b || equal a b

/-- The second length if it is greater than the first. -/
def max (a b : α) : α :=
  if less a b then b else a

def greatest (a : α) (others : List α) : α :=
  others.foldl max a

def sum (lengths : List α) : α :=
  lengths.foldl (· + ·) (ofNat 0)

def read? (s : String) : Option α :=
  (Numeral.read? s).map ofNumeral

end Scalar

instance : Scalar Float where
  ofNat := Float.ofNat
  ofNumeral := Numeral.toFloat
  less a b := a < b
  equal a b := a == b

end PageRender
