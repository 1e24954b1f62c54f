import PageRender.Decimal.Shortest

/-!
# Number texts

How digits are laid out: positional notation for moderate sizes, an exponent of at least two
digits otherwise. Two layouts are in use, one for values and one for sizes in pixels.
-/

namespace PageRender

/-- The decisions of a number format: the last `point` written positionally and whether a whole
number keeps a zero after its point. -/
structure NumberLayout where
  lastPoint : Int
  wholeTail : String

namespace NumberLayout

/-- Values: positional below ten to the sixteenth, whole numbers end in `.0`. -/
def value : NumberLayout := ⟨16, ".0"⟩

def size : NumberLayout := ⟨6, ""⟩

def digitText (digits : List Nat) : String :=
  String.ofList (digits.map Nat.digitChar)

def zeros (n : Nat) : String :=
  String.ofList (List.replicate n '0')

/-- The exponent mark, sign and at least two digits. -/
def exponentText (e : Int) : String :=
  let digits := toString e.natAbs
  "e" ++ (if e < 0 then "-" else "+") ++ zeros (2 - digits.length) ++ digits

def positional (layout : NumberLayout) (d : DecimalDigits) : String :=
  if d.point ≤ 0 then "0." ++ zeros (-d.point).toNat ++ digitText d.digits
  else
    let whole := d.point.toNat
    if d.digits.length ≤ whole then
      digitText d.digits ++ zeros (whole - d.digits.length) ++ layout.wholeTail
    else digitText (d.digits.take whole) ++ "." ++ digitText (d.digits.drop whole)

def scientific (d : DecimalDigits) : String :=
  let tail := d.digits.drop 1
  digitText (d.digits.take 1) ++ (if tail.isEmpty then "" else "." ++ digitText tail) ++
    exponentText (d.point - 1)

/-- A positive decimal; four zeros after the point are the most that are written. -/
def write (layout : NumberLayout) (d : DecimalDigits) : String :=
  if -4 < d.point && d.point ≤ layout.lastPoint then layout.positional d else scientific d

end NumberLayout

/-- The text of a double, given the layout and the choice of digits for positive ones. -/
def doubleText (layout : NumberLayout) (choose : Nat → Int → DecimalDigits) (x : Float) : String :=
  match DoubleParts.ofFloat x with
  | .undefined => "nan"
  | .infinite negative => if negative then "-inf" else "inf"
  | .finite negative m q =>
    (if negative then "-" else "") ++
      if m == 0 then "0" ++ layout.wholeTail else layout.write (choose m q)

/-- The fewest digits that read back, as in `16.0`, `0.1`, `1e+16`. -/
def valueText (x : Float) : String :=
  doubleText .value DecimalDigits.shortest x

def sizeText (x : Float) : String :=
  doubleText .size (DecimalDigits.rounded · · 6) x

def truncated? (x : Float) : Option Int :=
  match DoubleParts.ofFloat x with
  | .finite negative m q =>
    let n := (DoubleParts.truncate m q).1
    some (if negative then -(n : Int) else n)
  | _ => none

def wholeNumber? (x : Float) : Option Int :=
  match DoubleParts.ofFloat x with
  | .finite _ m q => if (DoubleParts.truncate m q).2 then truncated? x else none
  | _ => none

end PageRender
