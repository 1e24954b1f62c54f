import PageRender.Frame.Rendering
import PageRender.Url.Resolution

/-!
# Loading a page

The markup is read and drawn before its scripts run in document order; if they have changed the
document, it is drawn again. Scripts that stand elsewhere are not run here, only their addresses are
collected.
-/

namespace PageRender

open Script

def runNamedScript (source name : String) : FrameM Value := do
  if (← get).loaded then
    traced "script" "script" [("script", name)] (inCurrentRealm (runScript source name))
  else throw .noDocument

namespace Frame

def scriptElements (f : Frame) : List NodeId :=
  (f.tree.descendants.filter (Node.hasTag "script")).map fun n => n.info.id

/-- The frame with a new page in it, whose scripts have not run. The timers of the page before it
are cancelled. -/
def replacePage (f : Frame) (document : Markup.Document) : Frame :=
  let page : Page := {
    dom := .ofTree document.root
    generation := f.generation + 1
    journal := f.page.journal }
  { f with
    loaded := true
    markupDiagnostics := document.diagnostics
    earlierTimers := f.earlierTimers ++ f.page.discard.timers
    realm := .forPage page }

end Frame

/-- Runs a script element, or notes the address of a script that stands elsewhere. -/
def loadScript (index : Nat) (node : NodeId) : FrameM Unit := do
  let f ← get
  match f.dom.attribute? node "src" with
  | some source =>
    match Url.resolve f.address source with
    | .error e => throw e
    | .ok url => do
      modify fun f => { f with externalScripts := f.externalScripts ++ [url] }
      modify (·.record ⟨.instant, "external_script", "script", [("url", url)]⟩)
  | none =>
    discard (runNamedScript (f.dom.tree node).textContent ("inline script #" ++ toString index))

/-- Runs script elements in order, which are numbered from `index`. -/
def loadScripts (index : Nat) : List NodeId → FrameM Unit
  | [] => return
  | node :: nodes => do
    loadScript index node
    loadScripts (index + 1) nodes

def writeMarkupFindings (n : Nat) : FrameM Unit := do
  if n == 0 then return
  else modify (·.write .info ("Recovered from " ++ toString n ++ " markup error(s)"))

def openPage (html address authorSheet : String) : FrameM Unit := do
  modify fun f => { f with address, authorSheet, focus := none }
  let document ← traced "parse_html" "parse" [] (pure (Markup.parse html))
  writeMarkupFindings document.diagnostics.length
  modify (·.replacePage document)

def load (html address authorSheet : String) : FrameM Unit :=
  traced "frame_load" "load" [] do
    openPage html address authorSheet
    render
    modify fun f => { f with externalScripts := [] }
    loadScripts 0 (← get).scriptElements
    renderIfNeeded

end PageRender
