import PageRender.Proofs.Frame.Operations
import PageRender.Proofs.Script.Starting

/-! # Code that a frame starts

All that is done with a frame is done again with a record of the code that it starts. A script that is run and a
listener that is told of an event find the elements of the document as it is when they start, and so does the
first callback of those that wait. The callbacks behind it need not: the list of ids is made once for all of them.
-/

namespace PageRender

open Script

namespace Recorded

variable {α : Type}

def inRealm (body : HostedM (Recorded Realm) α) : HostedM (Recorded Frame) α := fun s =>
  match body ⟨s.state.realm, s.starts⟩ with
  | .ok v t => .ok v ⟨{ s.state with realm := t.state }, t.starts⟩
  | .error e t => .error e ⟨{ s.state with realm := t.state }, t.starts⟩

def inCurrentRealm (body : HostedM (Recorded Realm) α) : HostedM (Recorded Frame) α :=
  inRealm do
    quietly (modify Realm.refreshIds)
    body

def traced (name category : String) (args : List (String × String)) (body : HostedM (Recorded Frame) α) :
    HostedM (Recorded Frame) α :=
  withStage (fun e s => { s with state := s.state.record e }) name category args body

/-! ## What is done with a frame -/

def runNamedScript (source name : String) : HostedM (Recorded Frame) Value := do
  if (← get).state.loaded then
    traced "script" "script" [("script", name)] (inCurrentRealm (runScript source name))
  else throw .noDocument

def sendEvent (type : String) (node : NodeId) : HostedM (Recorded Frame) Bool := do
  if (← get).state.loaded then inCurrentRealm (dispatchEvent node type) else return false

def loadScript (index : Nat) (node : NodeId) : HostedM (Recorded Frame) Unit := do
  let f := (← get).state
  match f.dom.attribute? node "src" with
  | some _ => quietly (PageRender.loadScript index node)
  | none =>
    discard (runNamedScript (f.dom.tree node).textContent ("inline script #" ++ toString index))

def loadScripts (index : Nat) : List NodeId → HostedM (Recorded Frame) Unit
  | [] => return
  | node :: nodes => do
    loadScript index node
    loadScripts (index + 1) nodes

def load (html address authorSheet : String) : HostedM (Recorded Frame) Unit :=
  traced "frame_load" "load" [] do
    quietly (openPage html address authorSheet)
    quietly render
    quietly (modify fun f => { f with externalScripts := [] })
    loadScripts 0 (← get).state.scriptElements
    quietly renderIfNeeded

def submitForm (form : NodeId) : HostedM (Recorded Frame) (Option Navigation) := do
  if ← sendEvent "submit" form then return none
  else
    quietly do
      let f ← get
      match f.dom.attribute? form "action" with
      | none => throw (.missingKey "action")
      | some action =>
        match Url.resolve f.address action with
        | .error e => throw e
        | .ok url => do
          modify (·.write .info ("Submitting form to " ++ url))
          return some { url, method := "POST", body := some (formBody (f.formFields form)) }

def pressButton (node : NodeId) : HostedM (Recorded Frame) (Option Navigation) := do
  match (← get).state.formAround node with
  | some form => submitForm form
  | none => return none

def passClick : List NodeId → HostedM (Recorded Frame) (Option Navigation)
  | [] => return none
  | node :: above => do
    match (← get).state.clickAction? node with
    | none => passClick above
    | some action => do
      let prevented ← sendEvent "click" node
      match action with
      | .follow => if prevented then return none else quietly (followLink node)
      | .edit => do
        if !prevented then quietly (modify (·.focusOn node))
        return none
      | .press => if prevented then return none else pressButton node
      | .nothing => if prevented then return none else passClick above

def click (x y : Float) : HostedM (Recorded Frame) (Option Navigation) := do
  quietly (modify (·.withoutFocus))
  let f := (← get).state
  let navigation ← passClick (((f.nodeAt x y).map f.dom.chain).getD [])
  quietly renderIfNeeded
  return navigation

def keypress (text : String) : HostedM (Recorded Frame) Unit := do
  match (← get).state.focus with
  | none => return
  | some node => do
    if ← sendEvent "keydown" node then return
    else
      quietly do
        modify fun f => f.setValue node (f.valueOf node ++ text)
        render

def runPendingTasks : HostedM (Recorded Frame) Nat := do
  if (← get).state.loaded then
    let count ← inCurrentRealm runPending
    quietly renderIfNeeded
    return count
  else return 0

def perform : Operation → HostedM (Recorded Frame) Unit
  | .load html address authorSheet => load html address authorSheet
  | .runScript source name => discard (runNamedScript source name)
  | .click x y => discard (click x y)
  | .keypress text => keypress text
  | .runPendingTasks => discard runPendingTasks
  | .sendEvent type node => discard (sendEvent type node)
  | .submitForm form => discard (submitForm form)
  | .backspace => quietly backspace
  | .fireTimer timer => quietly (modify (·.fire timer))
  | .render => quietly render
  | .markChanged => quietly (modify Frame.markChanged)

def after (s : Recorded Frame) (op : Operation) : Recorded Frame :=
  stateAfter (perform op) s

def afterAll (s : Recorded Frame) (ops : List Operation) : Recorded Frame :=
  ops.foldl after s

/-! ## What is recorded -/

namespace Records

section

variable {P : Start → Prop} {s : Recorded Frame}

theorem state_stateAfter {xR : HostedM (Recorded Frame) α} {x : FrameM α} (hx : Records P xR x s) :
    (stateAfter xR s).state = stateAfter x s.state := by
  rw [stateAfter, stateAfter, ← hx.forgets]
  cases xR s <;> rfl

theorem inRealm {bodyR : HostedM (Recorded Realm) α} {body : HostM α}
    (hBody : Records P bodyR body ⟨s.state.realm, s.starts⟩) :
    Records P (Recorded.inRealm bodyR) (PageRender.inRealm body) s := by
  obtain ⟨hForgets, hStarts⟩ := hBody
  constructor
  · rw [Recorded.inRealm, PageRender.inRealm, ← hForgets]
    cases bodyR ⟨s.state.realm, s.starts⟩ <;> rfl
  · rw [stateAfter] at hStarts ⊢
    rw [Recorded.inRealm]
    cases hResult : bodyR ⟨s.state.realm, s.starts⟩ <;> rw [hResult] at hStarts <;> exact hStarts

theorem inCurrentRealm {bodyR : HostedM (Recorded Realm) α} {body : HostM α}
    (hBody : Records P bodyR body ⟨s.state.realm.refreshIds, s.starts⟩) :
    Records P (Recorded.inCurrentRealm bodyR) (PageRender.inCurrentRealm body) s :=
  inRealm (.modify hBody)

theorem traced {bodyR : HostedM (Recorded Frame) α} {body : FrameM α} (name category : String)
    (args : List (String × String)) (hBody : ∀ t, Records P bodyR body t) :
    Records P (Recorded.traced name category args bodyR) (PageRender.traced name category args body) s := by
  let begun : Recorded Frame := { s with state := s.state.record ⟨.start, name, category, args⟩ }
  obtain ⟨hForgets, hStarts⟩ := hBody begun
  constructor
  · change forget (withStage _ name category args bodyR s) =
      withStage Frame.record name category args body s.state
    rw [withStage, withStage, ← hForgets]
    cases bodyR begun <;> rfl
  · rw [stateAfter] at hStarts ⊢
    rw [Recorded.traced, withStage]
    cases hResult : bodyR begun <;> rw [hResult] at hStarts <;> exact hStarts

end

theorem runNamedScript (source name : String) (s : Recorded Frame) :
    Records Start.IsInformed (Recorded.runNamedScript source name) (PageRender.runNamedScript source name) s := by
  refine .get ?_
  cases s.state.loaded with
  | false => exact .throw _
  | true => exact .traced _ _ _ fun t => .inCurrentRealm (.runScript rfl source name)

theorem sendEvent (type : String) (node : NodeId) (s : Recorded Frame) :
    Records Start.IsInformed (Recorded.sendEvent type node) (PageRender.sendEvent type node) s := by
  refine .get ?_
  cases s.state.loaded with
  | false => exact .pure false
  | true => exact .inCurrentRealm (.dispatchEvent rfl node type)

theorem loadScript (index : Nat) (node : NodeId) (s : Recorded Frame) :
    Records Start.IsInformed (Recorded.loadScript index node) (PageRender.loadScript index node) s := by
  refine .get ?_
  dsimp only
  cases hSource : s.state.dom.attribute? node "src" with
  | none => exact (runNamedScript _ _ s).discard
  | some source =>
    refine (Records.quietly _).congr ?_
    rw [PageRender.loadScript, get_bind, hSource]

theorem loadScripts (index : Nat) (nodes : List NodeId) (s : Recorded Frame) :
    Records Start.IsInformed (Recorded.loadScripts index nodes) (PageRender.loadScripts index nodes) s := by
  induction nodes generalizing index s with
  | nil => exact .pure ()
  | cons node nodes ih => exact (loadScript index node s).bind fun _ t _ => ih (index + 1) t

theorem load (html address authorSheet : String) (s : Recorded Frame) :
    Records Start.IsInformed (Recorded.load html address authorSheet)
      (PageRender.load html address authorSheet) s := by
  refine .traced _ _ _ fun t => (Records.quietly _).bind fun _ t _ => (Records.quietly _).bind fun _ t _ => ?_
  exact .modify (.get ((loadScripts 0 _ _).bind fun _ _ _ => .quietly _))

theorem submitForm (form : NodeId) (s : Recorded Frame) :
    Records Start.IsInformed (Recorded.submitForm form) (PageRender.submitForm form) s := by
  refine (sendEvent "submit" form s).bind fun prevented t _ => ?_
  cases prevented with
  | true => exact .pure none
  | false => exact .quietly _

theorem pressButton (node : NodeId) (s : Recorded Frame) :
    Records Start.IsInformed (Recorded.pressButton node) (PageRender.pressButton node) s := by
  refine .get ?_
  cases s.state.formAround node with
  | none => exact .pure none
  | some form => exact submitForm form s

theorem passClick (nodes : List NodeId) (s : Recorded Frame) :
    Records Start.IsInformed (Recorded.passClick nodes) (PageRender.passClick nodes) s := by
  induction nodes generalizing s with
  | nil => exact .pure none
  | cons node above ih =>
    refine .get ?_
    cases s.state.clickAction? node with
    | none => exact ih s
    | some action =>
      refine (sendEvent "click" node s).bind fun prevented t _ => ?_
      cases action <;> cases prevented
      case edit.false => exact .modify (.pure none)
      case edit.true => exact .pure none
      case follow.false => exact .quietly _
      case press.false => exact pressButton node t
      case nothing.false => exact ih t
      all_goals exact .pure none

theorem click (x y : Float) (s : Recorded Frame) :
    Records Start.IsInformed (Recorded.click x y) (PageRender.click x y) s :=
  .modify (.get ((passClick _ _).bind fun navigation _ _ =>
    (Records.quietly _).bind fun _ _ _ => .pure navigation))

theorem keypress (text : String) (s : Recorded Frame) :
    Records Start.IsInformed (Recorded.keypress text) (PageRender.keypress text) s := by
  refine .get ?_
  cases s.state.focus with
  | none => exact .pure ()
  | some node =>
    refine (sendEvent "keydown" node s).bind fun prevented t _ => ?_
    cases prevented with
    | true => exact .pure ()
    | false => exact .quietly _

theorem runPendingTasks (s : Recorded Frame) :
    Records Start.IsInformed Recorded.runPendingTasks PageRender.runPendingTasks s := by
  refine .get ?_
  cases s.state.loaded with
  | false => exact .pure 0
  | true =>
    refine (Records.inCurrentRealm (.runPending rfl)).bind fun count _ _ => ?_
    exact (Records.quietly _).bind fun _ _ _ => .pure count

theorem perform (op : Operation) (s : Recorded Frame) :
    Records Start.IsInformed (Recorded.perform op) op.perform s := by
  cases op with
  | load html address authorSheet => exact load html address authorSheet s
  | runScript source name => exact (runNamedScript source name s).discard
  | click x y => exact (click x y s).discard
  | keypress text => exact keypress text s
  | runPendingTasks => exact (runPendingTasks s).discard
  | sendEvent type node => exact (sendEvent type node s).discard
  | submitForm form => exact (submitForm form s).discard
  | fireTimer timer => exact .quietly (Operation.fireTimer timer).perform
  | markChanged => exact .quietly Operation.markChanged.perform
  | backspace | render => exact .quietly _

end Records

/-- A frame is not changed by the record. All code that is started in a run finds the elements of the document as
it was when the frame came to its scripts. For every script and every event, and for the first callback of those
that wait, this is the document as it is when the code starts. -/
theorem informed_afterAll (pageWidth : Option Float) (fonts : FontSource Float) (userSheet : String)
    (tracer : Tracer String) (ops : List Operation) :
    let opened := Frame.opened pageWidth fonts userSheet tracer
    (afterAll ⟨opened, []⟩ ops).state = opened.afterAll ops ∧
      ∀ start ∈ (afterAll ⟨opened, []⟩ ops).starts, start.IsInformed := by
  intro opened
  have hRun : ∀ s : Recorded Frame, (∀ start ∈ s.starts, start.IsInformed) →
      (afterAll s ops).state = s.state.afterAll ops ∧ ∀ start ∈ (afterAll s ops).starts, start.IsInformed := by
    induction ops with
    | nil => exact fun s h => ⟨rfl, h⟩
    | cons op ops ih =>
      intro s h
      have hStep := Records.perform op s
      have hRest := ih (s.after op) (hStep.starts h)
      rw [Frame.afterAll_cons, Frame.after, ← hStep.state_stateAfter]
      exact hRest
  exact hRun ⟨opened, []⟩ (List.forall_mem_nil _)

/-- A page of which two timers have fired. The first callback gives an element another id. -/
def renamingFrame : Frame :=
  let dom := Dom.ofTree (Markup.parse "<p id=old>text</p>").root
  let source := "function rename() \x7b document.getElementById('old').id = 'new' \x7d " ++
    "setTimeout(rename); setTimeout(rename)"
  let realm := stateAfter (do modify Realm.refreshIds; Script.runScript source "") (.forPage { dom })
  { fonts := standardFonts, loaded := true, realm := (realm.onPage (·.fire 0)).onPage (·.fire 1) }

/-- No code is started but by the callbacks. -/
theorem starts_runPendingTasks {s : Recorded Frame} (hLoaded : s.state.loaded = true) :
    (stateAfter runPendingTasks s).starts = (stateAfter (inCurrentRealm runPending) s).starts := by
  have hDraw : ∀ count : Nat, Leads (Order.Preimage starts Eq) (do quietly renderIfNeeded; return count) :=
    fun count => (leads_quietly _).bind fun _ => .pure count
  rw [runPendingTasks, stateAfter_get, if_pos hLoaded]
  cases hResult : inCurrentRealm runPending s with
  | ok count t =>
    rw [stateAfter_bind hResult, stateAfter_of_ok hResult]
    exact (hDraw count t).symm
  | error e t => rw [stateAfter_of_error (bind_error hResult _), stateAfter_of_error hResult]

/-- The second callback finds nothing under the id that the element has by then. -/
theorem uninformed_behind_rename :
    ∃ start ∈ (stateAfter runPendingTasks ⟨renamingFrame, []⟩).starts,
      ¬ start.realm.Finds (start.realm.page.dom.tree 0) := by
  have hInformed := (Records.runPendingTasks ⟨renamingFrame, []⟩).starts (List.forall_mem_nil _)
  rw [starts_runPendingTasks rfl] at hInformed ⊢
  have hRenamed : ∃ start ∈ (stateAfter (inCurrentRealm runPending) ⟨renamingFrame, []⟩).starts,
      (start.entered.page.dom.tree 0).elementById? "new" ≠ (start.realm.page.dom.tree 0).elementById? "new" := by
    decide +kernel
  obtain ⟨start, hStart, hNew⟩ := hRenamed
  exact ⟨start, hStart, fun h => hNew ((hInformed start hStart).entered.elementById?_eq h "new")⟩

end Recorded

end PageRender
