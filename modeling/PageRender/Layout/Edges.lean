import PageRender.Scalar
import PageRender.Style.FontSize
import PageRender.Style.StyleMap
import PageRender.Text.Unicode.LowerCase

/-!
# Margins, paddings and borders

Lengths are in pixels, or relative to the base font size in `em`, `rem` or percent. What cannot be
read counts as zero.
-/

namespace PageRender

/-- A length on each side of a box. -/
structure Edges (α : Type) where
  top : α
  right : α
  bottom : α
  left : α

variable {α : Type} [Scalar α]

/-- The length a text reads as, without its unit. -/
def unitless (s : String) : α :=
  (Scalar.read? s).getD (Scalar.ofNat 0)

def resolveLength (s : String) : α :=
  let s := Text.lowerCase (Text.trimmed s)
  let base : α := Scalar.ofNat baseFontSize
  match Text.dropEnding? "px" s, Text.dropEnding? "rem" s, Text.dropEnding? "em" s,
      Text.dropEnding? "%" s with
  | some n, _, _, _ => unitless n
  | none, some n, _, _ => (Scalar.read? n).elim (Scalar.ofNat 0) (· * base)
  | none, none, some n, _ => (Scalar.read? n).elim (Scalar.ofNat 0) (· * base)
  | none, none, none, some n =>
    (Scalar.read? n).elim (Scalar.ofNat 0) (· / Scalar.ofNat 100 * base)
  | none, none, none, none => unitless s

/-- Whether a text is meant as a length: it holds a digit and is no color. -/
def isLength (s : String) : Bool :=
  s.toList.any Text.isDigit && s.toList.head? != some '#' && !s.toList.contains '('

namespace Edges

def zero : Edges α :=
  ⟨Scalar.ofNat 0, Scalar.ofNat 0, Scalar.ofNat 0, Scalar.ofNat 0⟩

def ofShorthand (s : String) : Edges α :=
  match ((Text.wordsOf s).map resolveLength).take 4 with
  | [all] => ⟨all, all, all, all⟩
  | [vertical, horizontal] => ⟨vertical, horizontal, vertical, horizontal⟩
  | [top, horizontal, bottom] => ⟨top, horizontal, bottom, horizontal⟩
  | [top, right, bottom, left] => ⟨top, right, bottom, left⟩
  | _ => zero

/-- The edges under a property name; a property for one side comes before the shorthand. -/
def ofStyle (style : StyleMap) (name : String) : Edges α :=
  let all : Edges α := ofShorthand (style.getD name "0px")
  let side (s : String) (default : α) : α :=
    (style.get? (name ++ "-" ++ s)).elim default resolveLength
  ⟨side "top" all.top, side "right" all.right, side "bottom" all.bottom, side "left" all.left⟩

end Edges

/-- The width and the color of a border. -/
structure Border (α : Type) where
  width : α
  color : String

namespace Border

def styles : List String := [
  "none", "hidden", "solid", "dashed", "dotted", "double", "groove", "ridge", "inset", "outset"]

/-- A border while the words of its shorthand are read. -/
structure Words (α : Type) where
  width : α
  color : String
  styled : Bool := false

/-- Reads the words of a shorthand; `none` of them may hide the border. The color so far is the
color of a hidden border. -/
def readWords (b : Words α) : List String → Words α × Bool
  | [] => (b, false)
  | word :: words =>
    let lowered := Text.lowerCase word
    if lowered == "none" || lowered == "hidden" then (b, true)
    else if styles.contains lowered then readWords { b with styled := true } words
    else if isLength lowered then readWords { b with width := resolveLength lowered } words
    else readWords { b with color := word } words

/-- The border of a style. One with a style but no width is three pixels wide. -/
def ofStyle (style : StyleMap) (defaultColor : String) : Border α :=
  let zero : α := Scalar.ofNat 0
  let (b, hidden) := readWords ⟨zero, defaultColor, false⟩
    (Text.wordsOf (style.getD "border" "none"))
  if hidden then ⟨zero, b.color⟩
  else
    let width := if Scalar.equal b.width zero && b.styled then Scalar.ofNat 3 else b.width
    ⟨(style.get? "border-width").elim width resolveLength,
      (style.get? "border-color").getD b.color⟩

end Border

end PageRender
