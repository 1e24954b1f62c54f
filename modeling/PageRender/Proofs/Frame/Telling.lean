import PageRender.Proofs.Frame.Trees
import PageRender.Proofs.Script.Listening

/-! # Telling the listeners of a page

Whatever is done with a frame, its page numbers its events so that every new one is told to all the listeners
that it has, once each and in order. The same holds of the events that scripts, listeners and timers send
while they run.
-/

namespace PageRender

open Script

namespace Script.Realm.IsNumbered

variable {r : Realm} (h : r.IsNumbered)

include h

theorem onPage {f : Page → Page} (hHolds : (f r.page).Holds (Value.IsBelow r.page.dispatches))
    (hDispatches : (f r.page).dispatches = r.page.dispatches)
    (hPrevented : (f r.page).prevented = r.page.prevented) : (r.onPage f).IsNumbered where
  holds := by
    rw [show (r.onPage f).page.dispatches = r.page.dispatches from hDispatches]
    exact h.holds.onPage hHolds
  prevented dispatch hMem := by
    rw [show (r.onPage f).page.prevented = r.page.prevented from hPrevented] at hMem
    rw [show (r.onPage f).page.dispatches = r.page.dispatches from hDispatches]
    exact h.prevented dispatch hMem

theorem refreshIds : r.refreshIds.IsNumbered :=
  h.onPage { h.holds.page with } rfl rfl

end Script.Realm.IsNumbered

namespace Frame

/-- If the page numbered its events before, it does so afterwards. -/
def KeepsNumbered (f g : Frame) : Prop :=
  f.realm.IsNumbered → g.realm.IsNumbered

instance : IsPreorder Frame KeepsNumbered where
  refl _ := id
  trans _ _ _ hFirst hRest h := hRest (hFirst h)

theorem keepsNumbered_onPage (f : Frame) {change : Page → Page}
    (hHolds : ∀ W, f.page.Holds W → (change f.page).Holds W)
    (hDispatches : (change f.page).dispatches = f.page.dispatches)
    (hPrevented : (change f.page).prevented = f.page.prevented) : f.KeepsNumbered (f.onPage change) :=
  fun h => h.onPage (hHolds _ h.holds.page) hDispatches hPrevented

theorem keepsNumbered_changeDom (f : Frame) (change : Dom → Dom) : f.KeepsNumbered (f.changeDom change) :=
  f.keepsNumbered_onPage (fun _ h => { h with }) rfl rfl

theorem keepsNumbered_write (f : Frame) (level : Level) (text : String) :
    f.KeepsNumbered (f.write level text) :=
  f.keepsNumbered_onPage (fun _ h => { h with }) rfl rfl

theorem keepsNumbered_withoutFocus (f : Frame) : f.KeepsNumbered f.withoutFocus := by
  rw [withoutFocus]
  split
  · exact keepsNumbered_changeDom { f with focus := none } _
  · exact refl_of KeepsNumbered f

theorem keepsNumbered_focusOn (f : Frame) (node : NodeId) : f.KeepsNumbered (f.focusOn node) :=
  keepsNumbered_changeDom { f with focus := some node } _

theorem keepsNumbered_fire (f : Frame) (timer : Nat) : f.KeepsNumbered (f.fire timer) := by
  rw [fire]
  split
  · exact refl_of KeepsNumbered f
  · refine f.keepsNumbered_onPage (fun _ h => h.fire _) ?_ ?_
    all_goals
      rw [Page.fire]
      split <;> rfl

/-- A new page numbers its events anew. -/
theorem isNumbered_replacePage (f : Frame) (document : Markup.Document) :
    (f.replacePage document).realm.IsNumbered := by
  let page : Page := {
    dom := .ofTree document.root
    generation := f.generation + 1
    journal := f.page.journal }
  have hPage : Realm.IsNumbered { page } := isNumbered_fresh rfl rfl rfl rfl
  simpa only [replacePage] using flow_isNumbered.forPage hPage

end Frame

theorem leads_inCurrentRealm_keepsNumbered {α : Type} {body : HostM α} {K : Realm → α → Prop}
    (hBody : ∀ {r}, r.IsNumbered →
      Yields (fun r => Value.IsBelow r.page.dispatches) Realm.IsNumbered r K body) :
    Leads Frame.KeepsNumbered (inCurrentRealm body) := by
  intro f h
  rw [inCurrentRealm, stateAfter_inRealm]
  exact (hBody h.refreshIds).stateAfter.inv

theorem leads_openPage_keepsNumbered (html address authorSheet : String) :
    Leads Frame.KeepsNumbered (openPage html address authorSheet) := by
  refine leads_openPage_of (.of_record fun _ _ => id) Frame.keepsNumbered_write (fun _ _ _ => id) ?_ html address authorSheet
  exact fun f document _ => f.isNumbered_replacePage document

theorem leads_render_keepsNumbered : Leads Frame.KeepsNumbered render := by
  intro f h
  obtain ⟨journal, hRealm, -⟩ := stateAfter_render f
  rw [hRealm]
  exact h.onPage (f := fun p => { p with journal }) { h.holds.page with } rfl rfl

theorem spans_keepsNumbered : Spans Frame.KeepsNumbered where
  toPassesTrace := .of_record fun _ _ => id
  write := Frame.keepsNumbered_write
  scripts _ _ := id
  markChanged f := f.keepsNumbered_changeDom id
  withoutFocus := Frame.keepsNumbered_withoutFocus
  focusOn := Frame.keepsNumbered_focusOn
  setValue f _ _ := f.keepsNumbered_changeDom _
  fire := Frame.keepsNumbered_fire
  openPage := leads_openPage_keepsNumbered
  runScript source name := leads_inCurrentRealm_keepsNumbered fun h => flow_isNumbered.runScript h source name
  dispatchEvent node type :=
    leads_inCurrentRealm_keepsNumbered fun h => flow_isNumbered.dispatchEvent h node type
  runPending := leads_inCurrentRealm_keepsNumbered flow_isNumbered.runPending
  render := leads_render_keepsNumbered

namespace Frame

theorem isNumbered_afterAll (pageWidth : Option Float) (fonts : FontSource Float) (userSheet : String)
    (tracer : Tracer String) (ops : List Operation) :
    ((opened pageWidth fonts userSheet tracer).afterAll ops).realm.IsNumbered :=
  spans_keepsNumbered.afterAll _ ops (isNumbered_fresh rfl rfl rfl rfl)

/-- Whatever was done with a frame, its page numbers its events, and so does every realm that evaluation
leads to from one that does. In each of these, at any depth of events that are sent while others are told,
an event is told to the listeners that the element has when it is sent, once each and in the order in which
they were added; those that are added meanwhile it is not told to, and they are there for the events that
follow. It is answered with true if its own function was called meanwhile, and only then. -/
theorem told_afterAll (pageWidth : Option Float) (fonts : FontSource Float) (userSheet : String)
    (tracer : Tracer String) (ops : List Operation) :
    ((opened pageWidth fonts userSheet tracer).afterAll ops).realm.refreshIds.IsNumbered ∧
    (∀ n, FlowsUpTo (fun r => Value.IsBelow r.page.dispatches) Realm.IsNumbered n) ∧
    ∀ r : Realm, r.IsNumbered → ∀ node type,
      (∀ n, Sent node type r (dispatch (n + 1) node type r)) ∧
      dispatchEvent node type r =
        match dispatch stepSupply node type r with
        | .ok prevented s => .ok prevented s
        | .error i s => .error i.toFault s := by
  exact ⟨(isNumbered_afterAll pageWidth fonts userSheet tracer ops).refreshIds, flow_isNumbered.evaluation,
    fun r hr node type => ⟨sent_dispatch hr node type, dispatchEvent_eq hr node type⟩⟩

theorem told_afterAll_of_listener :
    let page := ({} : Page).addListener 4 "click" (.native 0 .log)
    let r : Realm := { page }
    r.page.listenersOf 4 "click" = [.native 0 .log] ∧ r.IsNumbered ∧
      Sent 4 "click" r (dispatch 9 4 "click" r) := by
  intro page r
  have hNew : Realm.IsNumbered {} := isNumbered_fresh rfl rfl rfl rfl
  have hNumbered : r.IsNumbered :=
    hNew.onPage (f := fun _ => page) (hNew.holds.page.addListener 4 "click" trivial) rfl rfl
  exact ⟨rfl, hNumbered,
    ((told_afterAll (some 800) standardFonts "" {} []).2.2 r hNumbered 4 "click").1 8⟩

end Frame

end PageRender
