import PageRender.Frame.Basic

/-!
# Drawing the page

The styles of the whole document are computed anew, and it is laid out and painted. A page that
cannot be laid out or painted is blank.
-/

namespace PageRender

namespace Frame

def styled (f : Frame) : PageTree × List Diagnostic :=
  Style.apply f.tree f.authorSheet f.userSheet

def shelve (root : PageTree) (f : Frame) : Frame :=
  { f with shelf := f.shelf.map (·.askAll root.blockStyles) }

def pageFonts (f : Frame) : FontSource Float :=
  f.shelf.elim f.fonts f.fonts.shelved

def layout (f : Frame) (root : PageTree) : Except LayoutFailure (DocumentBox Float) :=
  match f.pageWidth with
  | some width => layoutStyled f.pageFonts width root
  | none => .error ⟨.layout, .missingSize⟩

end Frame

def writeSheetFindings (n : Nat) : FrameM Unit := do
  if n == 0 then return
  else modify (·.write .info ("Recovered from " ++ toString n ++ " CSS error(s)"))

def restyle : FrameM PageTree :=
  traced "style" "style" [] do
    let f ← get
    if f.loaded then
      let (root, diagnostics) := f.styled
      writeSheetFindings diagnostics.length
      modify fun f => { f with diagnostics := f.markupDiagnostics ++ diagnostics }
      return root
    else throw .noDocument

/-- What is shown of a page: its boxes and what paints them. -/
abbrev Drawing := DocumentBox Float × List (Command Float)

def draw (root : PageTree) : FrameM (Option Drawing) := do
  modify (·.shelve root)
  let f ← get
  match ← traced "layout" "layout" [] (pure (f.layout root)) with
  | .error _ => return none
  | .ok box =>
    match ← traced "paint" "paint" [] (pure (paintDocument box)) with
    | .error _ => return none
    | .ok display => return some (box, display)

def render : FrameM Unit := do
  let root ← restyle
  match ← draw root with
  | some (box, display) => modify fun f => { f with document := some box, display }
  | none => do
    modify (·.write .error "Layout failed, rendering a blank viewport")
    modify fun f => { f with document := none, display := [] }
  modify fun f => { f with rendered := some f.generation }

def renderIfNeeded : FrameM Unit := do
  if (← get).needsRender then render

end PageRender
