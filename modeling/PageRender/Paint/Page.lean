import PageRender.Paint.Command

/-!
# Rendering a page

A styled page is laid out and painted. Either stage may be stopped by a fault; then there is nothing
to show.
-/

namespace PageRender

inductive RenderStage where
  | layout
  | paint
deriving DecidableEq

/-- The stage that was stopped and the cause. -/
structure LayoutFailure where
  stage : RenderStage
  fault : Fault
deriving DecidableEq

def LayoutFailure.message (f : LayoutFailure) : String :=
  (match f.stage with
    | .layout => "layout failed: "
    | .paint => "paint failed: ") ++ f.fault.message

variable {α : Type} [Scalar α]

def layoutStyled (fonts : FontSource α) (width : α) (root : PageTree) :
    Except LayoutFailure (DocumentBox α) :=
  (layoutPage fonts width root).mapError (⟨.layout, ·⟩)

def layoutDocument (fonts : FontSource α) (viewport : α) (root : PageTree) :
    Except LayoutFailure (DocumentBox α) :=
  layoutStyled fonts (pageWidth viewport) root

def paintDocument (d : DocumentBox α) : Except LayoutFailure (List (Command α)) :=
  (paintPage d).mapError (⟨.paint, ·⟩)

def renderPage (fonts : FontSource α) (viewport : α) (root : PageTree) :
    Except LayoutFailure (DocumentBox α × List (Command α)) := do
  let d ← layoutDocument fonts viewport root
  return (d, ← paintDocument d)

/-- The display list of a styled page, empty if it cannot be rendered. -/
def displayOrEmpty (fonts : FontSource α) (viewport : α) (root : PageTree) : List (Command α) :=
  match renderPage fonts viewport root with
  | .ok (_, display) => display
  | .error _ => []

namespace Node

mutual

def withFocus (id : Nat) : PageTree → PageTree
  | .text i s => .text i s
  | .element i t a cs =>
    .element (if i.id == id then { i with focused := true } else i) t a (forestWithFocus id cs)

def forestWithFocus (id : Nat) : List PageTree → List PageTree
  | [] => []
  | n :: ns => n.withFocus id :: forestWithFocus id ns

end

mutual

/-- The nodes of a tree that a selector selects, below ancestors with the given tags. -/
def selectedBy (s : Selector) (above : List String) : PageTree → List PageTree
  | .text _ _ => []
  | .element i t a cs =>
    (if s.selects t above then [.element i t a cs] else []) ++ forestSelectedBy s (t :: above) cs

def forestSelectedBy (s : Selector) (above : List String) : List PageTree → List PageTree
  | [] => []
  | n :: ns => n.selectedBy s above ++ forestSelectedBy s above ns

end

end Node

end PageRender
