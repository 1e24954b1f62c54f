import PageRender.Layout.Edges
import PageRender.Layout.Font
import PageRender.Style.Cascade

/-!
# Boxes

A laid out page is a document box around the box of its root. A block box holds further block boxes
or lines; a line holds words and controls.
-/

namespace PageRender

/-- A rectangle by its sides; the right and the bottom side are outside. -/
structure Rect (α : Type) where
  left : α
  top : α
  right : α
  bottom : α

namespace Rect

variable {α : Type} [Scalar α]

def width (r : Rect α) : α := r.right - r.left

def height (r : Rect α) : α := r.bottom - r.top

def contains (r : Rect α) (x y : α) : Bool :=
  Scalar.atMost r.left x && Scalar.less x r.right && Scalar.atMost r.top y &&
    Scalar.less y r.bottom

def same (r s : Rect α) : Bool :=
  Scalar.equal r.left s.left && Scalar.equal r.top s.top && Scalar.equal r.right s.right &&
    Scalar.equal r.bottom s.bottom

end Rect

/-- The place and the size of a box. -/
structure Extent (α : Type) where
  x : α
  y : α
  width : α
  height : α

def Extent.rect {α : Type} [Scalar α] (e : Extent α) : Rect α :=
  ⟨e.x, e.y, e.x + e.width, e.y + e.height⟩

inductive ItemKind where
  | word (text : String)
  | control
deriving DecidableEq

/-- A word of a text node or a control, with its font. -/
structure Item (α : Type) where
  node : PageTree
  kind : ItemKind
  font : Font α
  extent : Extent α

structure Line (α : Type) where
  items : List (Item α)
  extent : Extent α

/-- The node of a block box with its edges and its extent, margins excluded. -/
structure BlockFrame (α : Type) where
  node : PageTree
  margin : Edges α
  padding : Edges α
  border : Border α
  extent : Extent α

inductive Block (α : Type) where
  | blocks (frame : BlockFrame α) (children : List (Block α))
  | lines (frame : BlockFrame α) (lines : List (Line α))

def Block.frame {α : Type} : Block α → BlockFrame α
  | blocks f _ => f
  | lines f _ => f

structure DocumentBox (α : Type) where
  extent : Extent α
  root : Block α

/-- A box of any kind, as a listing of all boxes shows it. -/
inductive Box (α : Type) where
  | document (box : DocumentBox α)
  | block (frame : BlockFrame α) (holdsLines : Bool)
  | line (block : PageTree) (box : Line α)
  | item (box : Item α)

namespace Box

variable {α : Type}

def extent : Box α → Extent α
  | document b => b.extent
  | block f _ => f.extent
  | line _ b => b.extent
  | item b => b.extent

/-- The node that a box stands for; a line stands for its block. -/
def node : Box α → PageTree
  | document b => b.root.frame.node
  | block f _ => f.node
  | line n _ => n
  | item b => b.node

end Box

namespace Block

variable {α : Type}

def lineOutline (depth : Nat) (node : PageTree) (ls : List (Line α)) : List (Nat × Box α) :=
  ls.flatMap fun l => (depth, .line node l) :: l.items.map fun i => (depth + 1, .item i)

mutual

def outline (depth : Nat) : Block α → List (Nat × Box α)
  | blocks f children => (depth, .block f false) :: outlines (depth + 1) children
  | lines f ls => (depth, .block f true) :: lineOutline (depth + 1) f.node ls

def outlines (depth : Nat) : List (Block α) → List (Nat × Box α)
  | [] => []
  | b :: bs => b.outline depth ++ outlines depth bs

end

end Block

namespace DocumentBox

variable {α : Type}

def outline (d : DocumentBox α) : List (Nat × Box α) :=
  (0, .document d) :: d.root.outline 1

/-- The node of the innermost box that holds a point. -/
def hit? [Scalar α] (d : DocumentBox α) (x y : α) : Option PageTree :=
  ((d.outline.filter fun e => e.2.extent.rect.contains x y).getLast?).map (·.2.node)

end DocumentBox

end PageRender
