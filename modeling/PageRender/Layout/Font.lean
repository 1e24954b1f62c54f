import PageRender.Decimal.Integer
import PageRender.Decimal.Written
import PageRender.Fault
import PageRender.Scalar
import PageRender.Style.FontSize
import PageRender.Style.StyleMap

/-!
# Fonts

Layout knows a font by what it measures. A font source makes a font for a size, a weight and a
style, and may refuse.
-/

namespace PageRender

structure FontChoice (α : Type) where
  size : α
  weight : String
  style : String

/-- A font: the width of a text and its vertical measures. -/
structure Font (α : Type) where
  choice : FontChoice α
  measure : String → Except Fault α
  ascent : α
  descent : α
  lineSpace : α

abbrev FontSource (α : Type) := FontChoice α → Except Fault (Font α)

namespace FontChoice

def name (c : FontChoice Float) : String :=
  c.style ++ " " ++ c.weight ++ " " ++ sizeText c.size ++ "px"

def isHeavy (weight : String) : Except Fault Bool :=
  if isDigits weight then (readInteger weight).map (600 ≤ ·) else .ok false

def ofStyle {α : Type} [Scalar α] (style : StyleMap) : Except Fault (FontChoice α) := do
  let weight := style.getD "font-weight" "normal"
  let bold ← if weight == "bold" || weight == "bolder" then pure true else isHeavy weight
  let slant := style.getD "font-style" "normal"
  return {
    size := pixelsOrBase (style.getD "font-size" "16px")
    weight := if bold then "bold" else "normal"
    style := if slant == "italic" || slant == "oblique" then "italic" else "roman" }

end FontChoice

def FontSource.forStyle {α : Type} [Scalar α] (source : FontSource α) (style : StyleMap) :
    Except Fault (Font α) := do
  source (← FontChoice.ofStyle style)

/-- The measures of a typeface: heights above and below the base line, the first of either sign,
and the space between lines. -/
structure FaceMetrics where
  ascent : Float
  descent : Float
  leading : Float

namespace FaceMetrics

def measure (m : FaceMetrics) (name : String) : Except Fault Float :=
  if name == "ascent" then .ok m.ascent.abs
  else if name == "descent" then .ok m.descent
  else if name == "linespace" then .ok (m.ascent.abs + m.descent + m.leading)
  else .error (.unknownMetric name)

end FaceMetrics

/-- A typeface chosen by weight and slant. -/
structure Typeface where
  weight : Nat
  italic : Bool

/-- The typeface for a font: bold has its own weight, all else is normal and upright unless it is
called italic. -/
def FontChoice.typeface {α : Type} (c : FontChoice α) : Typeface :=
  ⟨if c.weight == "bold" then 700 else 400, c.style == "italic"⟩

/-- Fonts all of whose characters are equally wide. The measures are shares of the size. -/
structure EvenFont where
  advance : Float := 1
  ascent : Float := 0.75
  descent : Float := 0.25
  lineSpace : Float := 1

namespace EvenFont

/-- The source of these fonts, without those texts that cannot be measured. -/
def source (f : EvenFont) (unmeasured : Option String) : FontSource Float := fun c =>
  .ok {
    choice := c
    measure := fun text =>
      if unmeasured == some text then .error (.refused "cannot measure")
      else .ok (c.size * f.advance * Float.ofNat text.length)
    ascent := c.size * f.ascent
    descent := c.size * f.descent
    lineSpace := c.size * f.lineSpace }

end EvenFont

/-- The fonts that are in use when no others are supplied: as wide as high for each character,
three quarters of which are above the base line. -/
def standardFonts : FontSource Float := fun c =>
  let metrics : FaceMetrics := ⟨-0.75 * c.size, 0.25 * c.size, 0⟩
  .ok {
    choice := c
    measure := fun text => .ok (c.size * Float.ofNat text.length)
    ascent := metrics.ascent.abs
    descent := metrics.descent
    lineSpace := metrics.ascent.abs + metrics.descent + metrics.leading }

def noFonts : FontSource Float := fun _ => .error (.refused "no font")

end PageRender
