import PageRender.Layout.Flow

/-!
# Font shelves

A font is made once. Whoever asks for a font of equal size, weight and style later gets the one that
was made first. Sizes are equal by value, so that both zeros are one size; which of them was asked
for first is seen in the name of the font.
-/

namespace PageRender

variable {α : Type} [Scalar α]

namespace FontChoice

def same (a b : FontChoice α) : Bool :=
  Scalar.equal a.size b.size && a.weight == b.weight && a.style == b.style

end FontChoice

/-- The choices that fonts were made for so far, the oldest first. -/
structure FontShelf (α : Type) where
  made : List (FontChoice α) := []

namespace FontShelf

def pick (shelf : FontShelf α) (c : FontChoice α) : FontChoice α :=
  (shelf.made.find? (·.same c)).getD c

def ask (shelf : FontShelf α) (c : FontChoice α) : FontShelf α :=
  if shelf.made.any (·.same c) then shelf else ⟨shelf.made ++ [c]⟩

/-- The shelf after the fonts for some styles were asked for in order. A style that has no font ends
this. -/
def askAll (shelf : FontShelf α) : List StyleMap → FontShelf α
  | [] => shelf
  | style :: styles =>
    match FontChoice.ofStyle style with
    | .ok c => (shelf.ask c).askAll styles
    | .error _ => shelf

end FontShelf

def FontSource.shelved (source : FontSource α) (shelf : FontShelf α) : FontSource α := fun c =>
  source (shelf.pick c)

/-- The style of an item. A line break has none. -/
def Piece.style? : Piece → Option StyleMap
  | .item node _ => some node.info.style
  | .lineBreak => none

namespace Node

mutual

/-- The styles whose fonts a node is laid out with as a block, in the order in which they are
needed. -/
def blockStyles : PageTree → List StyleMap
  | .text i s => (Node.text i s).pieces.filterMap Piece.style?
  | .element i t a cs =>
    if stacksChildren t cs then stackStyles cs
    else (Node.element i t a cs).pieces.filterMap Piece.style?

def stackStyles : List PageTree → List StyleMap
  | [] => []
  | n :: ns => if n.isHidden then stackStyles ns else n.blockStyles ++ stackStyles ns

end

end Node

end PageRender
