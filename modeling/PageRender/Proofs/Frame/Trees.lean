import PageRender.Proofs.Frame.Drawing
import PageRender.Proofs.Script.Soundness

/-! # The trees of a page

Whatever pages are loaded into a frame, and whatever scripts, listeners and timers do to them in between,
the nodes of the page make up trees: that of its document, and those that were cut off from it. The main
statement says what the walks rely on that go up from a clicked node, from a control to the form around it,
and down the document. It holds after every run of operations, and from there also wherever the steps of a
script, an event or a task run out.
-/

namespace PageRender

open Script

namespace Frame

/-- If scripts of the page have named elements of the document before, they have so afterwards. -/
def KeepsWhole (f g : Frame) : Prop :=
  f.realm.IsWhole → g.realm.IsWhole

instance : IsPreorder Frame KeepsWhole where
  refl _ := id
  trans _ _ _ hFirst hRest h := hRest (hFirst h)

theorem keepsWhole_onPage (f : Frame) {change : Page → Page}
    (h : ∀ E, f.page.IsSound E → (change f.page).IsSound E) : f.KeepsWhole (f.onPage change) :=
  fun hWhole => (hWhole.onPage (h _)).isWhole

theorem keepsWhole_write (f : Frame) (level : Level) (text : String) :
    f.KeepsWhole (f.write level text) :=
  f.keepsWhole_onPage fun _ hPage => { hPage with }

theorem keepsWhole_changeDom (f : Frame) (change : Dom → Dom)
    (h : ∀ E, f.dom.IsForestOver E → (change f.dom).IsForestOver E) :
    f.KeepsWhole (f.changeDom change) :=
  f.keepsWhole_onPage fun E hPage => hPage.changed (h E hPage.dom)

theorem keepsWhole_withoutFocus (f : Frame) : f.KeepsWhole f.withoutFocus := by
  rw [withoutFocus]
  split
  · exact keepsWhole_changeDom { f with focus := none } _ fun _ hDom => hDom.setFocus _ _
  · exact refl_of KeepsWhole f

theorem keepsWhole_focusOn (f : Frame) (node : NodeId) : f.KeepsWhole (f.focusOn node) :=
  keepsWhole_changeDom { f with focus := some node } _ fun _ hDom => (hDom.setAttribute _ _ _).setFocus _ _

theorem keepsWhole_fire (f : Frame) (timer : Nat) : f.KeepsWhole (f.fire timer) := by
  rw [fire]
  split
  · exact refl_of KeepsWhole f
  · exact f.keepsWhole_onPage fun _ hPage => hPage.fire _

/-- The scripts of a new page know no element yet. -/
theorem isWhole_replacePage (f : Frame) (document : Markup.Document) :
    (f.replacePage document).realm.IsWhole := by
  have hPage := isSound_newPage (Dom.isForest_ofTree document.root) (f.generation + 1) f.page.journal
  simpa only [replacePage] using isWhole_forPage hPage

end Frame

theorem leads_inCurrentRealm_keepsWhole {α : Type} {body : HostM α}
    {K : (NodeId → Prop) → α → Prop} (hBody : ∀ E, KeepsSound E (K E) body) :
    Leads Frame.KeepsWhole (inCurrentRealm body) := by
  intro f hWhole
  have hAfter := (hBody _).stateAfter hWhole.refreshIds
  rw [inCurrentRealm, stateAfter_inRealm]
  exact hAfter.isWhole

theorem leads_openPage_keepsWhole (html address authorSheet : String) :
    Leads Frame.KeepsWhole (openPage html address authorSheet) := by
  refine leads_openPage_of (.of_record fun _ _ => id) Frame.keepsWhole_write (fun _ _ _ => id) ?_ html address authorSheet
  exact fun f document _ => f.isWhole_replacePage document

theorem leads_render_keepsWhole : Leads Frame.KeepsWhole render := by
  intro f hWhole
  obtain ⟨journal, hRealm, -⟩ := stateAfter_render f
  rw [hRealm]
  have hNoted := hWhole.onPage (f := fun p => { p with journal }) fun hPage => { hPage with }
  exact hNoted.isWhole

theorem spans_keepsWhole : Spans Frame.KeepsWhole where
  toPassesTrace := .of_record fun _ _ => id
  write := Frame.keepsWhole_write
  scripts _ _ := id
  markChanged f := f.keepsWhole_changeDom id fun _ => id
  withoutFocus := Frame.keepsWhole_withoutFocus
  focusOn := Frame.keepsWhole_focusOn
  setValue f node value := f.keepsWhole_changeDom _ fun _ hDom => hDom.setAttribute node "value" value
  fire := Frame.keepsWhole_fire
  openPage := leads_openPage_keepsWhole
  runScript source name := leads_inCurrentRealm_keepsWhole fun _ => keepsSound_runScript source name
  dispatchEvent node type := leads_inCurrentRealm_keepsWhole fun _ => keepsSound_dispatchEvent node type
  runPending := leads_inCurrentRealm_keepsWhole fun _ => keepsSound_runPending
  render := leads_render_keepsWhole

namespace Frame

theorem isWhole_opened (pageWidth : Option Float) (fonts : FontSource Float) (userSheet : String)
    (tracer : Tracer String) : (opened pageWidth fonts userSheet tracer).realm.IsWhole :=
  (isSound_fresh (isSound_newPage Dom.isForest_empty 0 [])).isWhole

/-- After any run, the document can be walked, and so it can wherever the steps of a script, an event or a
task run out that comes next. -/
theorem isWalkable_afterAll (pageWidth : Option Float) (fonts : FontSource Float) (userSheet : String)
    (tracer : Tracer String) (ops : List Operation) :
    let f := (opened pageWidth fonts userSheet tracer).afterAll ops
    f.dom.IsWalkable ∧
    (∀ n program, (stateAfter (execAll n .undefined program) f.realm.refreshIds).page.dom.IsWalkable) ∧
    (∀ n node type, (stateAfter (dispatch n node type) f.realm.refreshIds).page.dom.IsWalkable) ∧
    ∀ n, ∀ t ∈ f.page.tasks,
      (stateAfter (callValue n t.callback [] (some t.scope)) f.realm.refreshIds).page.dom.IsWalkable := by
  intro f
  have hWhole : f.realm.IsWhole :=
    spans_keepsWhole.afterAll _ ops (isWhole_opened pageWidth fonts userSheet tracer)
  have hCurrent := hWhole.refreshIds
  refine ⟨hWhole.page.dom.forest.isWalkable, ?_, ?_, ?_⟩
  · intro n program
    have hAfter := ((evaluationSound n).execAll .undefined program trivial).stateAfter hCurrent
    exact hAfter.page.dom.forest.isWalkable
  · intro n node type
    have hAfter := ((evaluationSound n).dispatch node type).stateAfter hCurrent
    exact hAfter.page.dom.forest.isWalkable
  · intro n t ht
    have hCallback := hCurrent.page.tasks t ht
    have hCall := (evaluationSound n).callValue (some t.scope) hCallback (List.forall_mem_nil _)
    exact (hCall.stateAfter hCurrent).page.dom.forest.isWalkable

end Frame

end PageRender
