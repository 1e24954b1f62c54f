import PageRender.Proofs.Frame.Focusing
import PageRender.Proofs.Frame.Redrawing

/-! # Typing

A key that is typed is told to the input that has the focus, and its text goes behind the value only if no
listener prevents that. The key that takes the last character back is told to nobody, so nothing on the page can
prevent what it does.
-/

namespace PageRender

open Script

theorem Dom.attribute?_setAttribute_self {d : Dom} {id : NodeId} {tag : String} (hTag : d.tag? id = some tag)
    (name value : String) : (d.setAttribute id name value).attribute? id name = some value := by
  rw [tag?] at hTag
  rw [attribute?, attributes, setAttribute, node?_modify, if_pos rfl]
  cases hNode : d.node? id with
  | none =>
    rw [hNode] at hTag
    cases hTag
  | some n =>
    obtain ⟨content, parent, children, focused⟩ := n
    rw [hNode] at hTag
    cases content with
    | text s => cases hTag
    | element t a =>
      change (a.insert name value).get? name = some value
      rw [OrderedMap.get?_insert, if_pos (beq_self_eq_true name)]

namespace Frame

/-! ## Before the first page -/

/-- A frame in which no page was opened shows nothing, and nothing has the focus in it. -/
def BlankUntilLoaded (f : Frame) : Prop :=
  f.loaded = false → f.focus = none ∧ f.document = none

/-- It is the same page with the same focus, and a frame without a page still shows what it showed. -/
structure SamePage (f g : Frame) : Prop where
  loaded : g.loaded = f.loaded
  focus : g.focus = f.focus
  document : f.loaded = false → g.document = f.document

instance : IsPreorder Frame SamePage where
  refl _ := ⟨rfl, rfl, fun _ => rfl⟩
  trans _ _ _ h k :=
    ⟨k.loaded.trans h.loaded, k.focus.trans h.focus,
      fun hNot => (k.document (h.loaded.trans hNot)).trans (h.document hNot)⟩

theorem leads_inCurrentRealm_samePage {α : Type} (body : HostM α) : Leads SamePage (inCurrentRealm body) := by
  intro f
  rw [inCurrentRealm, stateAfter_inRealm]
  exact ⟨rfl, rfl, fun _ => rfl⟩

theorem leads_render_samePage : Leads SamePage render := by
  intro f
  by_cases hLoaded : f.loaded = true
  · obtain ⟨tracer, diagnostics, journal, hRender⟩ := render_of_loaded hLoaded
    rw [stateAfter_of_ok hRender]
    exact ⟨rfl, rfl, fun hNot => absurd (hLoaded.symm.trans hNot) Bool.noConfusion⟩
  · rw [stateAfter_of_error (render_of_not_loaded hLoaded)]
    exact ⟨rfl, rfl, fun _ => rfl⟩

theorem spansOnPage_samePage : SpansOnPage SamePage where
  toPassesTrace := .of_record fun _ _ => ⟨rfl, rfl, fun _ => rfl⟩
  write _ _ _ := ⟨rfl, rfl, fun _ => rfl⟩
  scripts _ _ := ⟨rfl, rfl, fun _ => rfl⟩
  markChanged _ := ⟨rfl, rfl, fun _ => rfl⟩
  setValue _ _ _ := ⟨rfl, rfl, fun _ => rfl⟩
  fire f timer := by
    rw [Frame.fire]
    split <;> exact ⟨rfl, rfl, fun _ => rfl⟩
  runScript _ _ := leads_inCurrentRealm_samePage _
  dispatchEvent _ _ := leads_inCurrentRealm_samePage _
  runPending := leads_inCurrentRealm_samePage _
  render := leads_render_samePage

/-- A click on a frame without a page hits nothing. -/
theorem samePage_click_of_blank {f : Frame} (hFocus : f.focus = none) (hDocument : f.document = none)
    (x y : Float) : f.SamePage (f.after (.click x y)) := by
  have hSame : f.withoutFocus = f := by rw [withoutFocus, hFocus]
  have hNode : f.nodeAt x y = none := by rw [nodeAt, hDocument, Option.bind_none, Option.map_none]
  have hAfter : f.after (.click x y) = stateAfter (PageRender.click x y) f := Operation.stateAfter_discard _ f
  rw [hAfter, PageRender.click]
  change f.SamePage (stateAfter (passClick (((f.withoutFocus.nodeAt x y).map f.withoutFocus.dom.chain).getD []) >>=
    fun navigation => do renderIfNeeded; return navigation) f.withoutFocus)
  rw [hSame, hNode]
  exact (spansOnPage_samePage.renderIfNeeded.bind fun _ => .pure none) f

theorem BlankUntilLoaded.after {f : Frame} (h : f.BlankUntilLoaded) (hTracked : f.Tracked) (op : Operation) :
    (f.after op).BlankUntilLoaded := by
  have of_same (hSame : f.SamePage (f.after op)) : (f.after op).BlankUntilLoaded := fun hNot => by
    have hBefore := hSame.loaded.symm.trans hNot
    obtain ⟨hFocus, hDocument⟩ := h hBefore
    exact ⟨hSame.focus.trans hFocus, (hSame.document hBefore).trans hDocument⟩
  cases hOp : op.leavesPage with
  | false => exact of_same (spansOnPage_samePage.perform hOp f)
  | true =>
    cases op with
    | load html address authorSheet =>
      intro hNot
      rw [loaded_after_load hTracked html address authorSheet] at hNot
      cases hNot
    | click x y =>
      cases hLoaded : f.loaded with
      | false =>
        obtain ⟨hFocus, hDocument⟩ := h hLoaded
        exact of_same (samePage_click_of_blank hFocus hDocument x y)
      | true =>
        have hStill : (f.after (.click x y)).loaded = true :=
          (spans_keepsTracked.perform (.click x y) f hTracked).2 hLoaded
        intro hNot
        rw [hStill] at hNot
        cases hNot
    | _ => cases hOp

/-! ## Keys -/

/-- A frame in which keys go to an input of a page, or nowhere. -/
structure TakesKeys (f : Frame) : Prop where
  numbered : f.realm.IsNumbered
  input : ∀ {node}, f.focus = some node → f.dom.tag? node = some "input"
  loaded : ∀ {node}, f.focus = some node → f.loaded = true

section

variable (pageWidth : Option Float) (fonts : FontSource Float) (userSheet : String) (tracer : Tracer String)
  (ops : List Operation)

theorem blankUntilLoaded_afterAll : ((opened pageWidth fonts userSheet tracer).afterAll ops).BlankUntilLoaded :=
  afterAll_induction_of_kept (fun op g hTracked => (spans_keepsTracked.perform op g hTracked).1)
    (tracked_opened pageWidth fonts userSheet tracer) (fun _ => ⟨rfl, rfl⟩)
    (fun op _ hTracked h => h.after hTracked op) ops

theorem focusAgrees_afterAll : ((opened pageWidth fonts userSheet tracer).afterAll ops).FocusAgrees :=
  afterAll_induction_of_kept (fun op => spans_keepsWhole.perform op)
    (isWhole_opened pageWidth fonts userSheet tracer) (.of_unmarked rfl fun _ => rfl)
    (fun op _ hWhole h => (h.after hWhole op).1) ops

theorem takesKeys_afterAll : ((opened pageWidth fonts userSheet tracer).afterAll ops).TakesKeys where
  numbered := isNumbered_afterAll pageWidth fonts userSheet tracer ops
  input := (focusAgrees_afterAll pageWidth fonts userSheet tracer ops).input
  loaded {node} hFocus := by
    refine Bool.of_not_eq_false fun hNot => ?_
    rw [(blankUntilLoaded_afterAll pageWidth fonts userSheet tracer ops hNot).1] at hFocus
    cases hFocus

end

/-- The value of an element was changed, and nothing was told of it. -/
structure Edited (f : Frame) (node : NodeId) (value : String) (g : Frame) : Prop where
  value : g.valueOf node = value
  focus : g.focus = f.focus
  untold : g.page.dispatches = f.page.dispatches

theorem valueOf_setValue {f : Frame} {node : NodeId} {tag : String} (hTag : f.dom.tag? node = some tag)
    (value : String) : (f.setValue node value).valueOf node = value := by
  have hDom : (f.setValue node value).dom = f.dom.setAttribute node "value" value := rfl
  rw [valueOf, hDom, Dom.attribute?_setAttribute_self hTag, Option.getD_some]

theorem edited_setValue {f : Frame} {node : NodeId} {tag : String} (hLoaded : f.loaded = true)
    (hTag : f.dom.tag? node = some tag) (value : String) :
    ∃ g, render (f.setValue node value) = .ok () g ∧ f.Edited node value g := by
  obtain ⟨tracer, diagnostics, journal, hRender⟩ := render_of_loaded (f := f.setValue node value) hLoaded
  exact ⟨_, hRender, valueOf_setValue hTag value, rfl, rfl⟩

/-- How a key press ends. The listeners of the input hear of it first. The text goes behind the value that they
left, unless one of them prevented that. -/
def KeyEnds (f : Frame) (text : String) : EStateM.Result Fault Frame Unit → Prop
  | .ok _ h => f.focus = none ∧ h = f ∨ ∃ node prevented g, f.focus = some node ∧
      sendEvent "keydown" node f = .ok prevented g ∧
      (Sending.IsPrevented ⟨"keydown", node, f, g⟩ → h = g) ∧
      (¬ Sending.IsPrevented ⟨"keydown", node, f, g⟩ → g.Edited node (g.valueOf node ++ text) h)
  | .error e h => Fault.IsOfScript e ∧ ∃ node, f.focus = some node ∧ sendEvent "keydown" node f = .error e h

theorem TakesKeys.keyEnds {f : Frame} (h : f.TakesKeys) (text : String) : f.KeyEnds text (keypress text f) := by
  rw [keypress, get_bind]
  cases hFocus : f.focus with
  | none => exact .inl ⟨hFocus, rfl⟩
  | some node =>
    dsimp only
    rcases sendEvent_cases h.numbered "keydown" node with
      ⟨prevented, g, hTold, hGoes, hPrevented⟩ | ⟨e, g, hTold, hFault⟩
    · rw [bind_ok hTold]
      cases prevented with
      | true =>
        have hIs := hPrevented.mp rfl
        exact .inr ⟨node, true, g, hFocus, hTold, fun _ => rfl, fun hNot => absurd hIs hNot⟩
      | false =>
        have hFree : ¬ Sending.IsPrevented ⟨"keydown", node, f, g⟩ :=
          fun hIs => Bool.noConfusion (hPrevented.mpr hIs)
        have hSame : f.SamePage g := (spansOnPage_samePage.sendEvent "keydown" node).of_ok hTold
        have hTag : g.dom.tag? node = some "input" := by
          rw [hGoes.lasts.tag? (Dom.HasElement.lt_size (Option.isSome_iff_exists.mpr ⟨_, h.input hFocus⟩))]
          exact h.input hFocus
        obtain ⟨k, hRender, hEdited⟩ := edited_setValue (hSame.loaded.trans (h.loaded hFocus)) hTag
          (g.valueOf node ++ text)
        rw [if_neg Bool.false_ne_true, modify_bind, hRender]
        exact .inr ⟨node, false, g, hFocus, hTold, fun hIs => absurd hIs hFree, fun _ => hEdited⟩
    · rw [bind_error hTold]
      exact ⟨hFault, node, hFocus, hTold⟩

/-- What is left of a text without its last character. -/
def withoutLast (text : String) : String :=
  String.ofList text.toList.dropLast

/-- The last character is taken back, whoever listens. -/
theorem backspace_edits {f : Frame} {node : NodeId} {tag : String} (hFocus : f.focus = some node)
    (hLoaded : f.loaded = true) (hTag : f.dom.tag? node = some tag) :
    ∃ g, backspace f = .ok () g ∧ f.Edited node (withoutLast (f.valueOf node)) g := by
  rw [backspace, get_bind, hFocus]
  dsimp only
  split
  · rename_i hEmpty
    have hNothing : withoutLast (f.valueOf node) = f.valueOf node := by
      rw [String.isEmpty_iff.mp hEmpty]
      rfl
    exact ⟨f, rfl, hNothing.symm, rfl, rfl⟩
  · exact edited_setValue hLoaded hTag _

theorem TakesKeys.backspace_ok {f : Frame} (h : f.TakesKeys) : ∃ g, backspace f = .ok () g ∧
    match f.focus with
    | none => g = f
    | some node => f.Edited node (withoutLast (f.valueOf node)) g := by
  cases hFocus : f.focus with
  | none =>
    refine ⟨f, ?_, rfl⟩
    rw [backspace, get_bind, hFocus]
    rfl
  | some node => exact backspace_edits hFocus (h.loaded hFocus) (h.input hFocus)

/-- After any run, a key that is typed is told to the input that has the focus, and its text is added to the
value if no listener prevented that, and only then. Nothing can prevent that the last character is taken back:
no event is sent for it. -/
theorem typing_afterAll (pageWidth : Option Float) (fonts : FontSource Float) (userSheet : String)
    (tracer : Tracer String) (ops : List Operation) :
    let f := (opened pageWidth fonts userSheet tracer).afterAll ops
    (∀ text, f.KeyEnds text (keypress text f)) ∧
    ∃ g, backspace f = .ok () g ∧
      match f.focus with
      | none => g = f
      | some node => f.Edited node (withoutLast (f.valueOf node)) g := by
  intro f
  have hTakes := takesKeys_afterAll pageWidth fonts userSheet tracer ops
  exact ⟨hTakes.keyEnds, hTakes.backspace_ok⟩

/-- A page that prevents all keys in an input. No text can be typed behind its value, but the value loses its
last character, and no listener has heard of that. -/
theorem backspace_unprevented :
    let f := (listeningFrame "e.preventDefault()").setValue 5 "hi"
    f.focus = some 5 ∧ f.valueOf 5 = "hi" ∧ (f.after (.keypress "x")).valueOf 5 = "hi" ∧
      (f.after .backspace).valueOf 5 = "h" ∧ (f.after .backspace).page.dispatches = f.page.dispatches := by
  intro f
  have hTag : f.dom.tag? 5 = some "input" := by decide +kernel
  have hValue : f.valueOf 5 = "hi" := by decide +kernel
  obtain ⟨g, hDone, hEdited⟩ := backspace_edits (f := f) rfl rfl hTag
  have hAfter : f.after .backspace = g := stateAfter_of_ok hDone
  rw [hAfter, hEdited.value, hEdited.untold, hValue]
  exact ⟨rfl, rfl, by decide +kernel, rfl, rfl⟩

end Frame

end PageRender
