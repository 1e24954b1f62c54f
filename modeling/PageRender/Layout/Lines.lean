import PageRender.Layout.Box

/-!
# Lines

The inside of a block is a sequence of words, controls and line breaks. A line takes pieces as long
as they fit; the first piece of a line always does.
-/

namespace PageRender

inductive Piece where
  | item (node : PageTree) (kind : ItemKind)
  | lineBreak

namespace Node

def isControlTag (tag : String) : Bool :=
  tag == "input" || tag == "button"

def isHidden (n : PageTree) : Bool :=
  n.tag?.isSome && n.info.style.get? "display" == some "none"

mutual

def pieces : PageTree → List Piece
  | .text i s => (Text.wordsOf s).map fun w => .item (.text i s) (.word w)
  | .element i t a cs =>
    if (Node.element i t a cs).isHidden then []
    else if t == "br" then [.lineBreak]
    else if isControlTag t then [.item (.element i t a cs) .control]
    else forestPieces cs

def forestPieces : List PageTree → List Piece
  | [] => []
  | n :: ns => n.pieces ++ forestPieces ns

end

end Node

variable {α : Type} [Scalar α]

def controlWidth : α := Scalar.ofNat 200

/-- An item with its measures, before its place is known. `space` is the width of the blank after
it. -/
structure MeasuredItem (α : Type) where
  node : PageTree
  kind : ItemKind
  font : Font α
  width : α
  space : α

/-- Lines while they are filled: those that are complete, the items of the last one, and where the
next item would start. -/
structure LineFilling (α : Type) where
  complete : List (List (MeasuredItem α))
  current : List (MeasuredItem α)
  cursor : α

namespace LineFilling

def start : LineFilling α := ⟨[], [], Scalar.ofNat 0⟩

def newLine (f : LineFilling α) : LineFilling α :=
  ⟨f.complete ++ [f.current], [], Scalar.ofNat 0⟩

def lines (f : LineFilling α) : List (List (MeasuredItem α)) :=
  f.complete ++ [f.current]

/-- Puts an item on the last line, or on a new one if it does not fit after other items. -/
def place (f : LineFilling α) (available : α) (item : MeasuredItem α) : LineFilling α :=
  let full := !f.current.isEmpty && Scalar.less available (f.cursor + item.width)
  let f := if full then f.newLine else f
  { f with current := f.current ++ [item], cursor := f.cursor + (item.width + item.space) }

end LineFilling

def measureItem (fonts : FontSource α) (node : PageTree) (kind : ItemKind) :
    Except Fault (MeasuredItem α) := do
  let font ← fonts.forStyle node.info.style
  let width ← match kind with
    | .word w => font.measure w
    | .control => pure controlWidth
  let space ← font.measure " "
  return ⟨node, kind, font, width, space⟩

def fillLines (fonts : FontSource α) (available : α) (f : LineFilling α) :
    List Piece → Except Fault (LineFilling α)
  | [] => .ok f
  | .lineBreak :: ps => fillLines fonts available f.newLine ps
  | .item node kind :: ps => do
    fillLines fonts available (f.place available (← measureItem fonts node kind)) ps

def placeItems (x baseline : α) : List (MeasuredItem α) → List (Item α)
  | [] => []
  | m :: ms =>
    ⟨m.node, m.kind, m.font, ⟨x, baseline - m.font.ascent, m.width, m.font.lineSpace⟩⟩ ::
      placeItems (x + m.width + m.space) baseline ms

/-- Lines leave a quarter of the height of their fonts free. -/
def lineFactor : α := Scalar.ofNat 5 / Scalar.ofNat 4

/-- A line at a given place. A line without items has no height. -/
def placeLine (x y width : α) (items : List (MeasuredItem α)) : Line α :=
  match items with
  | [] => ⟨[], ⟨x, y, width, Scalar.ofNat 0⟩⟩
  | first :: others =>
    let ascent := Scalar.greatest first.font.ascent (others.map (·.font.ascent))
    let descent := Scalar.greatest first.font.descent (others.map (·.font.descent))
    let placed := placeItems x (y + lineFactor * ascent) (first :: others)
    ⟨placed, ⟨x, y, width, lineFactor * (ascent + descent)⟩⟩

def placeLines (x y width : α) : List (List (MeasuredItem α)) → List (Line α)
  | [] => []
  | items :: rest =>
    let l := placeLine x y width items
    l :: placeLines x (y + l.extent.height) width rest

end PageRender
