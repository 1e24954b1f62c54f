import PageRender.Layout.Flow
import PageRender.Paint.Color

/-!
# Paint commands

A page is painted by a list of commands, each with the rectangle it covers. Backgrounds come before
what stands on them.
-/

namespace PageRender

inductive Command (α : Type) where
  | text (rect : Rect α) (text : String) (font : Font α) (color : String)
  | fill (rect : Rect α) (color : String)
  | border (rect : Rect α) (color : String) (thickness : α)
  | cursor (rect : Rect α) (color : String)

namespace Command

def rect {α : Type} : Command α → Rect α
  | text r _ _ _ => r
  | fill r _ => r
  | border r _ _ => r
  | cursor r _ => r

def describeRect (r : Rect Float) : String :=
  "Rect(" ++ ", ".intercalate ([r.left, r.top, r.right, r.bottom].map valueText) ++ ")"

def describe : Command Float → String
  | text r t _ _ =>
    "DrawText(text=" ++ Text.quoted t ++ ", x=" ++ valueText r.left ++ ", y=" ++
      valueText r.top ++ ")"
  | fill r c => "DrawRect(" ++ describeRect r ++ ", color=" ++ Text.quoted c ++ ")"
  | border r _ t => "DrawOutline(" ++ describeRect r ++ ", thickness=" ++ valueText t ++ ")"
  | cursor r _ => "DrawCursor(" ++ describeRect r ++ ")"

variable {α : Type} [Scalar α]

/-- The command that paints a text with its top left corner at a point. -/
def textAt (x y : α) (content : String) (font : Font α) (color : String) :
    Except Fault (Command α) := do
  let width ← font.measure content
  return .text ⟨x, y, x + width, y + font.lineSpace⟩ content font color

end Command

variable {α : Type} [Scalar α]

def textColor (n : PageTree) : String :=
  n.info.style.getD "color" "black"

def paintBackground (n : PageTree) (e : Extent α) : List (Command α) :=
  let color := n.info.style.getD "background-color" "transparent"
  if Color.isTransparent (some color) then [] else [.fill e.rect color]

/-- What a block box paints itself. Controls are painted by their items. -/
def paintFrame (f : BlockFrame α) : List (Command α) :=
  if f.node.tag?.any Node.isControlTag then []
  else
    paintBackground f.node f.extent ++
      if Scalar.less (Scalar.ofNat 0) f.border.width then
        [.border f.extent.rect f.border.color f.border.width]
      else []

/-- The text a control shows: what is inside a button; the value of an input, or what is said to
stand in its place. -/
def controlLabel (n : PageTree) : String :=
  if n.hasTag "button" then Text.trimmed n.textContent
  else
    let value := (n.attribute? "value").getD ""
    if value.isEmpty then (n.attribute? "placeholder").getD "" else value

def paintControl (i : Item α) : Except Fault (List (Command α)) := do
  let n := i.node
  let e := i.extent
  let color := textColor n
  let border : Border α := Border.ofStyle n.info.style color
  let outline := Command.border e.rect border.color (Scalar.max (Scalar.ofNat 1) border.width)
  let label := controlLabel n
  let labelWidth ← i.font.measure label
  let x :=
    if n.hasTag "button" then e.x + (e.width - labelWidth) / Scalar.ofNat 2
    else e.x + Scalar.ofNat 4
  let y := e.y + (e.height - i.font.lineSpace) / Scalar.ofNat 2
  let text ← if label.isEmpty then pure [] else (Command.textAt x y label i.font color).map ([·])
  let cursor ←
    if n.info.focused && n.hasTag "input" then do
      let cx := x + (← i.font.measure ((n.attribute? "value").getD ""))
      let cy := e.y + Scalar.ofNat 2
      let height := Scalar.max (Scalar.ofNat 0) (e.height - Scalar.ofNat 4)
      pure [Command.cursor ⟨cx, cy, cx + Scalar.ofNat 1, cy + height⟩ color]
    else pure []
  return paintBackground n e ++ [outline] ++ text ++ cursor

def paintItem (i : Item α) : Except Fault (List (Command α)) :=
  match i.kind with
  | .word w => (Command.textAt i.extent.x i.extent.y w i.font (textColor i.node)).map ([·])
  | .control => paintControl i

def paintItems : List (Item α) → Except Fault (List (Command α))
  | [] => .ok []
  | i :: is => do
    let first ← paintItem i
    return first ++ (← paintItems is)

mutual

def paintBlock : Block α → Except Fault (List (Command α))
  | .lines f ls => do
    return paintFrame f ++ (← paintItems (ls.flatMap (·.items)))
  | .blocks f children => do
    return paintFrame f ++ (← paintBlocks children)

def paintBlocks : List (Block α) → Except Fault (List (Command α))
  | [] => .ok []
  | b :: bs => do
    let first ← paintBlock b
    return first ++ (← paintBlocks bs)

end

def paintPage (d : DocumentBox α) : Except Fault (List (Command α)) :=
  paintBlock d.root

end PageRender
