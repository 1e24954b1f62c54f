import PageRender.Layout.FontShelf
import PageRender.Paint.Page
import PageRender.Script.Session
import PageRender.Trace

/-!
# Frames

A frame holds one page: its document and its scripts, and what was last drawn of it. Changes of the
document are counted, so that the frame can tell whether what was drawn is still up to date.
-/

namespace PageRender

open Script

/-- A frame. Before the first page is loaded, its realm has an empty document. Pages cannot be laid
out in a frame that gives them no width. A frame that keeps the fonts it has made has a shelf for
them. -/
structure Frame where
  pageWidth : Option Float := some (pageWidth 800)
  fonts : FontSource Float
  shelf : Option (FontShelf Float) := none
  userSheet : String := ""
  tracer : Tracer String := {}
  loaded : Bool := false
  address : String := "about:blank"
  authorSheet : String := ""
  realm : Realm := {}
  earlierTimers : List Timer := []
  markupDiagnostics : List Diagnostic := []
  diagnostics : List Diagnostic := []
  externalScripts : List String := []
  focus : Option NodeId := none
  document : Option (DocumentBox Float) := none
  display : List (Command Float) := []
  rendered : Option Nat := none

/-- A request to go to another page. -/
structure Navigation where
  url : String
  method : String := "GET"
  body : Option String := none

/-- What is done with a frame. The frame outlives a fault. -/
abbrev FrameM := EStateM Fault Frame

namespace Frame

def page (f : Frame) : Page :=
  f.realm.page

def dom (f : Frame) : Dom :=
  f.page.dom

def tree (f : Frame) : PageTree :=
  f.dom.tree 0

def generation (f : Frame) : Nat :=
  f.page.generation

def needsRender (f : Frame) : Bool :=
  f.rendered != some f.generation

def timers (f : Frame) : List Timer :=
  f.earlierTimers ++ f.page.timers

def onPage (f : Frame) (g : Page → Page) : Frame :=
  { f with realm := f.realm.onPage g }

def markChanged (f : Frame) : Frame :=
  f.onPage fun p => p.changed p.dom

def changeDom (f : Frame) (g : Dom → Dom) : Frame :=
  f.onPage fun p => p.changed (g p.dom)

def write (f : Frame) (level : Level) (text : String) : Frame :=
  f.onPage (·.write level text)

def record (e : TraceEvent String) (f : Frame) : Frame :=
  { f with tracer := f.tracer.record e }

/-- The frame after a timer has fired. The timers of earlier pages have nothing to call. -/
def fire (f : Frame) (timer : Nat) : Frame :=
  if timer < f.earlierTimers.length then f
  else f.onPage (·.fire (timer - f.earlierTimers.length))

def nodeAt (f : Frame) (x y : Float) : Option NodeId :=
  ((f.document.bind (·.hit? x y))).map fun n => n.info.id

end Frame

def traced {α : Type} (name category : String) (args : List (String × String)) (body : FrameM α) :
    FrameM α :=
  withStage Frame.record name category args body

def inRealm {α : Type} (body : HostM α) : FrameM α :=
  fun f =>
    match body f.realm with
    | .ok v r => .ok v { f with realm := r }
    | .error e r => .error e { f with realm := r }

def inCurrentRealm {α : Type} (body : HostM α) : FrameM α :=
  inRealm do
    modify Realm.refreshIds
    body

end PageRender
