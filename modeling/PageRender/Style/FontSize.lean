import PageRender.Decimal.Written
import PageRender.Scalar
import PageRender.Text.Words

/-!
# Font sizes

A font size in percent or in `em` is taken relative to that of the parent and written in pixels with
six significant digits. Any other text stays as it is.
-/

namespace PageRender

def baseFontSize : Nat := 16

/-- A text in pixels, with or without its unit; a default if it is no number. -/
def pixels {α : Type} [Scalar α] (s : String) (default : α) : α :=
  (Scalar.read? ((Text.dropEnding? "px" s).getD s)).getD default

/-- A text in pixels; the base size if it is no number. -/
def pixelsOrBase {α : Type} [Scalar α] (s : String) : α :=
  pixels s (Scalar.ofNat baseFontSize)

def pixelText (x : Float) : String :=
  sizeText x ++ "px"

/-- The font size of an element whose parent has the second size. -/
def resolveFontSize (size parent : String) : String :=
  match Text.dropEnding? "%" size, Text.dropEnding? "em" size with
  | some percent, _ =>
    let share : Float := pixels percent (Float.ofNat 100) / Float.ofNat 100
    pixelText (share * pixelsOrBase parent)
  | none, some factor =>
    let factor : Float := pixels factor (Float.ofNat 1)
    pixelText (factor * pixelsOrBase parent)
  | none, none => size

end PageRender
