import PageRender.Frame.Loading
import PageRender.Url.Percent

/-!
# Using a page

Clicks and keys become events, of which the page may prevent what follows. What leads to another
page is answered as a request to go there.
-/

namespace PageRender

open Script

/-- Tells the listeners of an element about an event, and whether one of them prevented it. -/
def sendEvent (type : String) (node : NodeId) : FrameM Bool := do
  if (← get).loaded then inCurrentRealm (dispatchEvent node type) else return false

namespace Frame

def withoutFocus (f : Frame) : Frame :=
  match f.focus with
  | some node => { f with focus := none }.changeDom (·.setFocus node false)
  | none => f

/-- The frame with the focus on a control, which is cleared. -/
def focusOn (f : Frame) (node : NodeId) : Frame :=
  { f with focus := some node }.changeDom fun d =>
    (d.setAttribute node "value" "").setFocus node true

def valueOf (f : Frame) (node : NodeId) : String :=
  (f.dom.attribute? node "value").getD ""

def setValue (f : Frame) (node : NodeId) (value : String) : Frame :=
  f.changeDom (·.setAttribute node "value" value)

def isForm (f : Frame) (node : NodeId) : Bool :=
  f.dom.tag? node == some "form" && (f.dom.attribute? node "action").isSome

def formAround (f : Frame) (node : NodeId) : Option NodeId :=
  (f.dom.chain node).tail.find? f.isForm

def formFields (f : Frame) (form : NodeId) : List (String × String) :=
  (f.dom.tree form).descendants.filterMap fun n =>
    if n.hasTag "input" then
      (n.attribute? "name").map fun name => (name, (n.attribute? "value").getD "")
    else none

end Frame

def formBody (fields : List (String × String)) : String :=
  "&".intercalate
    (fields.map fun (name, value) => Url.percentEncoded name ++ "=" ++ Url.percentEncoded value)

def submitForm (form : NodeId) : FrameM (Option Navigation) := do
  if ← sendEvent "submit" form then return none
  else
    let f ← get
    match f.dom.attribute? form "action" with
    | none => throw (.missingKey "action")
    | some action =>
      match Url.resolve f.address action with
      | .error e => throw e
      | .ok url => do
        modify (·.write .info ("Submitting form to " ++ url))
        return some { url, method := "POST", body := some (formBody (f.formFields form)) }

/-- What a click on an element does by itself. -/
inductive ClickAction where
  | follow
  | edit
  | press
  | nothing

/-- What a click on a node does by itself; a text does not even hear of it. -/
def Frame.clickAction? (f : Frame) (node : NodeId) : Option ClickAction :=
  (f.dom.tag? node).map fun tag =>
    if tag == "a" && (f.dom.attribute? node "href").isSome then .follow
    else if tag == "input" then .edit
    else if tag == "button" then .press
    else .nothing

/-- Follows a link as it stands after its listeners were told. -/
def followLink (node : NodeId) : FrameM (Option Navigation) := do
  let f ← get
  match Url.resolve f.address ((f.dom.attribute? node "href").getD "") with
  | .error e => throw e
  | .ok url => return some { url }

def pressButton (node : NodeId) : FrameM (Option Navigation) := do
  match (← get).formAround node with
  | some form => submitForm form
  | none => return none

/-- Passes a click from a node on to its ancestors, up to one that takes it. -/
def passClick : List NodeId → FrameM (Option Navigation)
  | [] => return none
  | node :: above => do
    match (← get).clickAction? node with
    | none => passClick above
    | some action => do
      let prevented ← sendEvent "click" node
      match action with
      | .follow => if prevented then return none else followLink node
      | .edit => do
        if !prevented then modify (·.focusOn node)
        return none
      | .press => if prevented then return none else pressButton node
      | .nothing => if prevented then return none else passClick above

def click (x y : Float) : FrameM (Option Navigation) := do
  modify (·.withoutFocus)
  let f ← get
  let navigation ← passClick (((f.nodeAt x y).map f.dom.chain).getD [])
  renderIfNeeded
  return navigation

def keypress (text : String) : FrameM Unit := do
  match (← get).focus with
  | none => return
  | some node => do
    if ← sendEvent "keydown" node then return
    else do
      modify fun f => f.setValue node (f.valueOf node ++ text)
      render

def backspace : FrameM Unit := do
  let f ← get
  match f.focus with
  | none => return
  | some node => do
    let value := f.valueOf node
    if value.isEmpty then return
    else do
      modify (·.setValue node (String.ofList value.toList.dropLast))
      render

def runPendingTasks : FrameM Nat := do
  if (← get).loaded then
    let count ← inCurrentRealm runPending
    renderIfNeeded
    return count
  else return 0

end PageRender
