import PageRender.Paint.Command

/-!
# Drawing on a canvas

The commands that can show in a viewport are carried out on a white canvas, moved up by the amount
scrolled. A canvas records what it is told to draw.
-/

namespace PageRender

/-- How a shape is drawn: its color, its outline if it is not filled, and whether its edges are
smooth. -/
structure Pen (α : Type) where
  color : Color
  stroke : Option α
  smooth : Bool

/-- What a canvas is told to draw. -/
inductive CanvasCall (α : Type) where
  | clear (color : Color)
  | rect (rect : Rect α) (pen : Pen α)
  | string (x baseline : α) (text : String) (pen : Pen α)

variable {α : Type} [Scalar α]

def Rect.scrolled (r : Rect α) (scroll : α) : Rect α :=
  ⟨r.left, r.top - scroll, r.right, r.bottom - scroll⟩

namespace Command

def isOutside (scroll height : α) (c : Command α) : Bool :=
  Scalar.less (scroll + height) c.rect.top || Scalar.less c.rect.bottom scroll

def draw (scroll : α) : Command α → Except Fault (List (CanvasCall α))
  | fill r color =>
    if color == "transparent" then .ok []
    else do return [.rect (r.scrolled scroll) ⟨← Color.parse color, none, false⟩]
  | border r color thickness => do
    return [.rect (r.scrolled scroll) ⟨← Color.parse color, some thickness, true⟩]
  | cursor r color => do
    return [.rect (r.scrolled scroll) ⟨← Color.parse color, none, false⟩]
  | text r content font color => do
    let pen : Pen α := ⟨← Color.parse color, none, true⟩
    return [.string r.left (r.top - scroll + font.ascent) content pen]

end Command

def drawAll (scroll height : α) : List (Command α) → Except Fault (List (CanvasCall α))
  | [] => .ok []
  | c :: cs =>
    if c.isOutside scroll height then drawAll scroll height cs
    else do
      let first ← c.draw scroll
      return first ++ (← drawAll scroll height cs)

def raster (display : List (Command α)) (height scroll : α) :
    Except Fault (List (CanvasCall α)) := do
  return .clear .white :: (← drawAll scroll height display)

def pixelCount (side : Float) : Except Fault Int :=
  match DoubleParts.ofFloat side with
  | .infinite _ => .error .infiniteInteger
  | .undefined => .error .undefinedInteger
  | .finite .. => .ok ((truncated? side).getD 0)

def rasterSized (display : List (Command Float)) (width height scroll : Float) :
    Except Fault (List (CanvasCall Float)) := do
  let _ ← pixelCount width
  let _ ← pixelCount height
  raster display height scroll

end PageRender
