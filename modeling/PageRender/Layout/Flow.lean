import PageRender.Layout.Lines

/-!
# Flow

Blocks are stacked below one another, each as wide as its parent leaves it. A block whose element
has block elements among its children stacks them; any other one with content fills lines.
-/

namespace PageRender

namespace Node

def blockTags : List String := [
  "html", "body", "article", "section", "nav", "aside",
  "h1", "h2", "h3", "h4", "h5", "h6", "hgroup", "header",
  "footer", "address", "p", "hr", "pre", "blockquote",
  "ol", "ul", "menu", "li", "dl", "dt", "dd", "figure",
  "figcaption", "main", "div", "table", "form", "fieldset",
  "legend", "details", "summary"]

def beginsBlock {α : Type} (n : Node α) : Bool :=
  n.tag?.any (blockTags.contains ·)

/-- Whether the inside of an element is stacked, not filled into lines. -/
def stacksChildren {α : Type} (tag : String) (children : List (Node α)) : Bool :=
  children.any beginsBlock || (children.isEmpty && !isControlTag tag)

end Node

variable {α : Type} [Scalar α]

/-- A block before its content is laid out: the frame with no height yet, and the place of the
content. -/
structure BlockOpening (α : Type) where
  frame : BlockFrame α
  contentX : α
  contentY : α
  contentWidth : α

/-- Opens a block inside a parent whose content starts at `left` and is `available` wide. What
stands before it ends at `above`. -/
def openBlock (left available above : α) (n : PageTree) : BlockOpening α :=
  let style := n.info.style
  let margin : Edges α := Edges.ofStyle style "margin"
  let padding : Edges α := Edges.ofStyle style "padding"
  let border : Border α := Border.ofStyle style (style.getD "color" "black")
  let x := left + margin.left
  let y := above + margin.top
  let width := available - margin.left - margin.right
  let inner := width - Scalar.ofNat 2 * border.width - padding.left - padding.right
  ⟨⟨n, margin, padding, border, ⟨x, y, width, Scalar.ofNat 0⟩⟩,
    x + border.width + padding.left, y + border.width + padding.top,
    Scalar.max (Scalar.ofNat 0) inner⟩

/-- The frame of a block whose content has the given height. -/
def BlockOpening.close (o : BlockOpening α) (contentHeight : α) : BlockFrame α :=
  let f := o.frame
  let height := contentHeight + f.padding.top + f.padding.bottom + Scalar.ofNat 2 * f.border.width
  { f with extent := { f.extent with height } }

def BlockFrame.below (f : BlockFrame α) : α :=
  f.extent.y + f.extent.height + f.margin.bottom

def BlockFrame.outerHeight (f : BlockFrame α) : α :=
  f.extent.height + f.margin.top + f.margin.bottom

def layoutLines (fonts : FontSource α) (o : BlockOpening α) (pieces : List Piece) :
    Except Fault (Block α) := do
  let filled ← fillLines fonts o.contentWidth .start pieces
  let ls := placeLines o.contentX o.contentY o.contentWidth filled.lines
  return .lines (o.close (Scalar.sum (ls.map (·.extent.height)))) ls

mutual

def layoutBlock (fonts : FontSource α) (left available above : α) :
    PageTree → Except Fault (Block α)
  | .text i s =>
    layoutLines fonts (openBlock left available above (.text i s)) (Node.text i s).pieces
  | .element i t a cs =>
    let o := openBlock left available above (.element i t a cs)
    if Node.stacksChildren t cs then do
      let bs ← layoutBlocks fonts o.contentX o.contentWidth o.contentY cs
      return .blocks (o.close (Scalar.sum (bs.map (·.frame.outerHeight)))) bs
    else layoutLines fonts o (Node.element i t a cs).pieces

/-- Lays out the nodes inside a block below one another; hidden ones have no box. -/
def layoutBlocks (fonts : FontSource α) (left available above : α) :
    List PageTree → Except Fault (List (Block α))
  | [] => .ok []
  | n :: ns =>
    if n.isHidden then layoutBlocks fonts left available above ns
    else do
      let b ← layoutBlock fonts left available above n
      return b :: (← layoutBlocks fonts left available b.frame.below ns)

end

def pageMarginX : Nat := 13

def pageMarginY : Nat := 18

def pageWidth (viewport : α) : α :=
  Scalar.max (Scalar.ofNat 0) (viewport - Scalar.ofNat (2 * pageMarginX))

def layoutPage (fonts : FontSource α) (width : α) (root : PageTree) :
    Except Fault (DocumentBox α) := do
  let x := Scalar.ofNat pageMarginX
  let y := Scalar.ofNat pageMarginY
  let b ← layoutBlock fonts x width y root
  return ⟨⟨x, y, width, b.frame.outerHeight⟩, b⟩

end PageRender
