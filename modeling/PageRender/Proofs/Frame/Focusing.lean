import Mathlib.Data.List.Perm.Subperm
import PageRender.Proofs.Frame.Clicking

/-! # The focus

Which input has the focus is noted twice, by the frame and by the document. Only a click moves it, which takes
it away first, and only a load gives it up with the page. So the two agree whatever scripts, listeners and
timers do meanwhile. But nothing looks at the focus when an element is given other children: the input may be
taken from the page and keep the focus, and it is never put back there.
-/

namespace PageRender

open Script

namespace Frame

/-- The focus stays where it is, and the nodes of the page last. -/
structure Stays (f g : Frame) : Prop where
  focus : g.focus = f.focus
  page : f.page.Lasts g.page

namespace Stays

variable {f g h : Frame}

theorem of_dom (hFocus : g.focus = f.focus) (hDom : g.dom = f.dom) : f.Stays g :=
  ⟨hFocus, .of_dom hDom⟩

theorem trans (hFirst : f.Stays g) (hRest : g.Stays h) : f.Stays h :=
  ⟨hRest.focus.trans hFirst.focus, trans_of Page.Lasts hFirst.page hRest.page⟩

end Stays

instance : IsPreorder Frame Stays where
  refl _ := .of_dom rfl rfl
  trans _ _ _ := .trans

theorem stays_setValue (f : Frame) (node : NodeId) (value : String) : f.Stays (f.setValue node value) :=
  ⟨rfl, f.dom.lasts_setAttribute node "value" value, f.dom.isFocused_setAttribute node "value" value⟩

theorem stays_fire (f : Frame) (timer : Nat) : f.Stays (f.fire timer) := by
  rw [fire]
  split
  · exact .of_dom rfl rfl
  · refine .of_dom rfl ?_
    change (f.page.fire _).dom = f.page.dom
    rw [Page.fire]
    split <;> rfl

end Frame

theorem leads_inCurrentRealm_stays {α : Type} {body : HostM α}
    (hBody : Leads (Order.Preimage Realm.page Page.Lasts) body) : Leads Frame.Stays (inCurrentRealm body) := by
  intro f
  rw [inCurrentRealm, stateAfter_inRealm]
  have hLasts : f.realm.refreshIds.page.Lasts (stateAfter body f.realm.refreshIds).page :=
    hBody f.realm.refreshIds
  exact ⟨rfl, hLasts.dom, hLasts.focus⟩

theorem leads_render_stays : Leads Frame.Stays render := by
  intro f
  obtain ⟨journal, hRealm, hFocus⟩ := stateAfter_render f
  refine .of_dom hFocus ?_
  rw [Frame.dom, Frame.page, hRealm]
  rfl

theorem spansOnPage_stays : SpansOnPage Frame.Stays where
  toPassesTrace := .of_record fun _ _ => .of_dom rfl rfl
  write _ _ _ := .of_dom rfl rfl
  scripts _ _ := .of_dom rfl rfl
  markChanged _ := .of_dom rfl rfl
  setValue := Frame.stays_setValue
  fire := Frame.stays_fire
  runScript source name := leads_inCurrentRealm_stays (holdsAcross_lasts.leads (leads_runScript source name))
  dispatchEvent node type :=
    leads_inCurrentRealm_stays (holdsAcross_lasts.leads (leads_dispatchEvent node type))
  runPending := leads_inCurrentRealm_stays holdsAcross_lasts.leads_runPending
  render := leads_render_stays

namespace Frame

theorem lasts_withoutFocus (f : Frame) : f.dom.Lasts f.withoutFocus.dom := by
  rw [withoutFocus]
  split
  · rename_i node _
    exact f.dom.lasts_setFocus node false
  · exact refl_of Dom.Lasts f.dom

theorem size_withoutFocus (f : Frame) : f.withoutFocus.dom.size = f.dom.size := by
  rw [withoutFocus]
  split
  · exact Array.size_modify
  · rfl

theorem lasts_focusOn (f : Frame) (node : NodeId) : f.dom.Lasts (f.focusOn node).dom :=
  trans_of Dom.Lasts (f.dom.lasts_setAttribute node "value" "") (Dom.lasts_setFocus _ node true)

theorem focus_withoutFocus (f : Frame) : f.withoutFocus.focus = none := by
  rw [withoutFocus]
  split
  · rfl
  · assumption

/-! ## One focus -/

/-- What has the focus is an input, and the document marks it and nothing else. -/
structure FocusAgrees (f : Frame) : Prop where
  marked : ∀ id, f.dom.isFocused id = true ↔ f.focus = some id
  input : ∀ {id}, f.focus = some id → f.dom.tag? id = some "input"

namespace FocusAgrees

variable {f g : Frame}

theorem of_unmarked (hFocus : f.focus = none) (hDom : ∀ id, f.dom.isFocused id = false) : f.FocusAgrees where
  marked id := by simp [hFocus, hDom]
  input h := by
    rw [hFocus] at h
    cases h

variable (h : f.FocusAgrees)

include h

theorem lt_size {id : Nat} (hFocus : f.focus = some id) : id < f.dom.size :=
  Dom.HasElement.lt_size (Option.isSome_iff_exists.mpr ⟨_, h.input hFocus⟩)

theorem of_stays (hStays : f.Stays g) : g.FocusAgrees where
  marked id := by
    have hMarked : g.dom.isFocused = f.dom.isFocused := hStays.page.focus
    rw [hMarked, hStays.focus]
    exact h.marked id
  input hFocus := by
    rw [hStays.focus] at hFocus
    exact (hStays.page.dom.tag? (h.lt_size hFocus)).trans (h.input hFocus)

theorem withoutFocus : f.withoutFocus.FocusAgrees := by
  refine .of_unmarked (focus_withoutFocus f) fun id => ?_
  rw [Frame.withoutFocus]
  split
  · rename_i node hFocus
    have hDom : (({ f with focus := none } : Frame).changeDom (·.setFocus node false)).dom =
      f.dom.setFocus node false := rfl
    rw [hDom, Dom.isFocused_setFocus (h.lt_size hFocus)]
    split
    · rfl
    · rename_i hNe
      refine Bool.eq_false_iff.mpr fun hMarked => hNe ?_
      exact Option.some.inj (hFocus.symm.trans ((h.marked id).mp hMarked))
  · rename_i hNone
    refine Bool.eq_false_iff.mpr fun hMarked => ?_
    have hFocus := (h.marked id).mp hMarked
    rw [hNone] at hFocus
    cases hFocus

/-- Nothing has the focus when an input is given it. -/
theorem focusOn (hNone : f.focus = none) {node : NodeId} (hInput : f.dom.tag? node = some "input") :
    (f.focusOn node).FocusAgrees := by
  have hSize : node < f.dom.size := Dom.HasElement.lt_size (Option.isSome_iff_exists.mpr ⟨_, hInput⟩)
  have hCleared := f.dom.lasts_setAttribute node "value" ""
  have hDom : (f.focusOn node).dom = (f.dom.setAttribute node "value" "").setFocus node true := rfl
  refine ⟨fun id => ?_, fun {id} hFocus => ?_⟩
  · have hSelf : (f.focusOn node).focus = some id ↔ node = id := Option.some_inj
    have hOther := h.marked id
    rw [hDom, Dom.isFocused_setFocus (Nat.lt_of_lt_of_le hSize hCleared.size_le),
      Dom.isFocused_setAttribute, hSelf]
    rw [hNone] at hOther
    split <;> simp_all
  · cases hFocus
    exact ((f.lasts_focusOn node).tag? hSize).trans hInput

end FocusAgrees

/-! ## What a click does with the focus -/

/-- From the frame at the start of a click, in which nothing has the focus, to one on the way or behind it: the
focus may have gone to an input that was there from the start. -/
inductive Clicked (f : Frame) : Frame → Prop
  | unmoved {g : Frame} (stays : f.Stays g) : Clicked f g
  | focused {g h : Frame} {node : NodeId} (before : f.Stays g) (there : node < f.dom.size)
      (input : g.dom.tag? node = some "input") (behind : (g.focusOn node).Stays h) : Clicked f h

namespace Clicked

variable {f g h : Frame}

theorem trans_stays (hClicked : f.Clicked g) (hStays : g.Stays h) : f.Clicked h := by
  cases hClicked with
  | unmoved stays => exact .unmoved (stays.trans hStays)
  | focused before there input behind => exact .focused before there input (behind.trans hStays)

theorem lasts (hClicked : f.Clicked g) : f.dom.Lasts g.dom := by
  cases hClicked with
  | unmoved stays => exact stays.page.dom
  | @focused k _ node before there input behind =>
    exact trans_of Dom.Lasts before.page.dom (trans_of Dom.Lasts (k.lasts_focusOn node) behind.page.dom)

theorem lt_size (hClicked : f.Clicked g) (hNone : f.focus = none) {id : Nat} (hFocus : g.focus = some id) :
    id < f.dom.size := by
  cases hClicked with
  | unmoved stays =>
    rw [stays.focus, hNone] at hFocus
    cases hFocus
  | focused before there input behind =>
    rw [behind.focus] at hFocus
    cases hFocus
    exact there

theorem focusAgrees (hClicked : f.Clicked g) (hNone : f.focus = none) (hAgrees : f.FocusAgrees) :
    g.FocusAgrees := by
  cases hClicked with
  | unmoved stays => exact hAgrees.of_stays stays
  | focused before there input behind =>
    exact ((hAgrees.of_stays before).focusOn (before.focus.trans hNone) input).of_stays behind

end Clicked

theorem tag?_of_edit {f : Frame} {node : NodeId} (h : f.clickAction? node = some .edit) :
    f.dom.tag? node = some "input" := by
  rw [clickAction?] at h
  cases hTag : f.dom.tag? node with
  | none =>
    rw [hTag] at h
    cases h
  | some tag =>
    rw [hTag, Option.map_some, Option.some.injEq] at h
    split at h
    · cases h
    split at h
    · rename_i hInput
      rw [eq_of_beq hInput]
    split at h <;> cases h

/-- All nodes that the click is yet to come to were there at its start. -/
theorem clicked_passClick {start f : Frame} (hStays : start.Stays f) {nodes : List NodeId}
    (hThere : ∀ node ∈ nodes, node < start.dom.size) : start.Clicked (stateAfter (passClick nodes) f) := by
  induction nodes generalizing f with
  | nil => exact .unmoved hStays
  | cons node above ih =>
    obtain ⟨hNode, hAbove⟩ := List.forall_mem_cons.mp hThere
    rw [passClick, stateAfter_get]
    cases hAction : f.clickAction? node with
    | none => exact ih hStays hAbove
    | some action =>
      have hSent := spansOnPage_stays.sendEvent "click" node
      dsimp only
      cases hTold : sendEvent "click" node f with
      | error e g =>
        rw [stateAfter_of_error (bind_error hTold _)]
        have hAfter := hSent f
        rw [stateAfter_of_error hTold] at hAfter
        exact .unmoved (hStays.trans hAfter)
      | ok prevented g =>
        rw [stateAfter_bind hTold]
        have hTelling := hSent.of_ok hTold
        have hNow := hStays.trans hTelling
        cases prevented with
        | true =>
          cases action with
          | follow | edit | press | nothing => exact .unmoved hNow
        | false =>
          cases action with
          | follow => exact .unmoved (hNow.trans (PassesOnPage.followLink node g))
          | edit =>
            -- It was an input before its listeners were told, and they cannot change that.
            have hInput := tag?_of_edit hAction
            have hSize : node < f.dom.size := Nat.lt_of_lt_of_le hNode hStays.page.dom.size_le
            exact .focused hNow hNode ((hTelling.page.dom.tag? hSize).trans hInput) (.of_dom rfl rfl)
          | press => exact .unmoved (hNow.trans (spansOnPage_stays.pressButton node g))
          | nothing => exact ih hNow hAbove

theorem clicked_click {f : Frame} (hForest : f.withoutFocus.dom.IsForest) (x y : Float) :
    f.withoutFocus.Clicked (stateAfter (click x y) f) := by
  have hPassed : f.withoutFocus.Clicked
      (stateAfter (passClick (((f.withoutFocus.nodeAt x y).map f.withoutFocus.dom.chain).getD []))
        f.withoutFocus) := by
    cases f.withoutFocus.nodeAt x y with
    | none => exact .unmoved (.of_dom rfl rfl)
    | some id =>
      rcases Nat.lt_or_ge id f.withoutFocus.dom.size with hSize | hSize
      · exact clicked_passClick (.of_dom rfl rfl) (hForest.wayUp_chainTo hSize hSize).lt_size
      · obtain ⟨-, -, hNowhere⟩ := nowhere_of_size_le hSize
        rw [Option.map_some, Option.getD_some, stateAfter_of_ok hNowhere]
        exact .unmoved (.of_dom rfl rfl)
  rw [click]
  change f.withoutFocus.Clicked (stateAfter (passClick _ >>= _) f.withoutFocus)
  cases hDone : passClick (((f.withoutFocus.nodeAt x y).map f.withoutFocus.dom.chain).getD [])
      f.withoutFocus with
  | error e g =>
    rw [stateAfter_of_error hDone] at hPassed
    rwa [stateAfter_of_error (bind_error hDone _)]
  | ok navigation g =>
    rw [stateAfter_of_ok hDone] at hPassed
    rw [stateAfter_bind hDone]
    exact hPassed.trans_stays ((spansOnPage_stays.renderIfNeeded.bind fun _ => .pure navigation) g)

/-! ## Every operation -/

/-- A load begins with a page on which nothing has the focus. -/
theorem exists_unmarked_load (f : Frame) (html address authorSheet : String) :
    ∃ k : Frame, k.focus = none ∧ (∀ id, k.dom.isFocused id = false) ∧
      k.Stays (stateAfter (load html address authorSheet) f) := by
  let started := f.record ⟨.start, "frame_load", "load", []⟩
  obtain ⟨tracer, hOpen⟩ := openPage_eq html address authorSheet started
  have hDom := (page_opening html address authorSheet started).1
  have hFocus : (started.opening html address authorSheet).focus = none := rfl
  generalize started.opening html address authorSheet = k at hOpen hDom hFocus
  refine ⟨{ k with tracer }, hFocus, fun id => ?_, ?_⟩
  · change k.page.dom.isFocused id = false
    rw [hDom]
    exact Dom.isFocused_ofTree _ id
  · rw [load, stateAfter_traced, stateAfter_bind hOpen]
    exact (spansOnPage_stays.loaded _).trans (.of_dom rfl rfl)

theorem FocusAgrees.after {f : Frame} (h : f.FocusAgrees) (hWhole : f.realm.IsWhole) (op : Operation) :
    (f.after op).FocusAgrees ∧
      ∀ id, (f.after op).focus = some id → id < f.dom.size ∧ f.dom.Lasts (f.after op).dom := by
  cases hOp : op.leavesPage with
  | false =>
    have hStays : f.Stays (f.after op) := spansOnPage_stays.perform hOp f
    refine ⟨h.of_stays hStays, fun id hFocus => ⟨?_, hStays.page.dom⟩⟩
    rw [hStays.focus] at hFocus
    exact h.lt_size hFocus
  | true =>
    cases op with
    | load html address authorSheet =>
      obtain ⟨k, hNone, hUnmarked, hStays⟩ := f.exists_unmarked_load html address authorSheet
      refine ⟨(FocusAgrees.of_unmarked hNone hUnmarked).of_stays hStays, fun id hFocus => ?_⟩
      have hStill := hStays.focus.trans hNone
      rw [show f.after _ = stateAfter (PageRender.load html address authorSheet) f from rfl, hStill] at hFocus
      cases hFocus
    | click x y =>
      have hForest := (f.keepsWhole_withoutFocus hWhole).page.dom.forest
      have hClicked := clicked_click hForest x y
      have hAfter : f.after (.click x y) = stateAfter (PageRender.click x y) f :=
        Operation.stateAfter_discard _ f
      rw [hAfter]
      refine ⟨hClicked.focusAgrees f.focus_withoutFocus h.withoutFocus, fun id hFocus => ⟨?_, ?_⟩⟩
      · rw [← f.size_withoutFocus]
        exact hClicked.lt_size f.focus_withoutFocus hFocus
      · exact trans_of Dom.Lasts f.lasts_withoutFocus hClicked.lasts
    | _ => cases hOp

/-- The node is in the tree of the page. -/
def IsOnPage (f : Frame) (id : NodeId) : Prop :=
  id ∈ f.tree.descendants.map (·.info.id)

instance (f : Frame) (id : NodeId) : Decidable (f.IsOnPage id) :=
  inferInstanceAs (Decidable (id ∈ f.tree.descendants.map (·.info.id)))

/-- At most one element of the page is marked, and it is what has the focus. -/
theorem FocusAgrees.tree {f : Frame} (h : f.FocusAgrees) (hForest : f.dom.IsForest) :
    (∀ n ∈ f.tree.descendants, n.info.focused = true ↔ f.focus = some n.info.id) ∧
      (f.tree.descendants.filter (·.info.focused)).length ≤ 1 := by
  have hMarked : ∀ n ∈ f.tree.descendants, n.info.focused = true ↔ f.focus = some n.info.id := by
    intro n hMem
    rw [hForest.focused_of_mem_treeTo (Nat.le_add_left _ _) hMem]
    exact h.marked n.info.id
  refine ⟨hMarked, ?_⟩
  have hDistinct : ((f.tree.descendants.filter (·.info.focused)).map (·.info.id)).Nodup :=
    (hForest.nodup_ids_tree 0).sublist (List.filter_sublist.map _)
  have hFocus : (f.tree.descendants.filter (·.info.focused)).map (·.info.id) ⊆ f.focus.toList := by
    intro id hMem
    obtain ⟨n, hFiltered, rfl⟩ := List.mem_map.mp hMem
    obtain ⟨hNode, hFocused⟩ := List.mem_filter.mp hFiltered
    exact Option.mem_toList.mpr ((hMarked n hNode).mp hFocused)
  have hLength := (List.subperm_of_subset hDistinct hFocus).length_le
  rw [List.length_map] at hLength
  exact hLength.trans (by cases f.focus <;> simp)

/-- After any run, what has the focus is an input, and the document marks it and nothing else, so that the
page shows at most one focus, and none if the frame has none. The focus is on the page as long as it was
there and no element around it was given other children. Once taken from the page it never comes back. -/
theorem focus_afterAll (pageWidth : Option Float) (fonts : FontSource Float) (userSheet : String)
    (tracer : Tracer String) (ops : List Operation) :
    let f := (opened pageWidth fonts userSheet tracer).afterAll ops
    f.FocusAgrees ∧
    (∀ n ∈ f.tree.descendants, n.info.focused = true ↔ f.focus = some n.info.id) ∧
    (f.tree.descendants.filter (·.info.focused)).length ≤ 1 ∧
    ∀ op id, (f.after op).focus = some id ∧ (f.after op).IsOnPage id ↔
      (f.after op).focus = some id ∧ f.IsOnPage id ∧
        ∀ p, f.IsOnPage p → f.dom.Reaches p id → p ≠ id →
          (f.after op).dom.childrenOf p = f.dom.childrenOf p := by
  intro f
  have hWhole : f.realm.IsWhole :=
    spans_keepsWhole.afterAll _ ops (isWhole_opened pageWidth fonts userSheet tracer)
  have hAgrees : f.FocusAgrees := by
    have hBoth : f.FocusAgrees ∧ f.realm.IsWhole := by
      refine afterAll_induction (P := fun f => f.FocusAgrees ∧ f.realm.IsWhole) ?_ (fun op g hg => ?_) ops
      · exact ⟨.of_unmarked rfl fun _ => rfl, isWhole_opened pageWidth fonts userSheet tracer⟩
      · exact ⟨(hg.1.after hg.2 op).1, spans_keepsWhole.perform op g hg.2⟩
    exact hBoth.1
  have hForest := hWhole.page.dom.forest
  obtain ⟨hMarked, hOne⟩ := hAgrees.tree hForest
  refine ⟨hAgrees, hMarked, hOne, fun op id => and_congr_right fun hFocus => ?_⟩
  obtain ⟨hSize, hLasts⟩ := (hAgrees.after hWhole op).2 id hFocus
  have hForest' : (f.after op).dom.IsForest := (spans_keepsWhole.perform op f hWhole).page.dom.forest
  have hOn (g : Frame) (hg : g.dom.IsForest) (k : NodeId) : g.IsOnPage k ↔ g.dom.Reaches 0 k :=
    hg.mem_ids_tree
  simp only [hOn f hForest, hOn _ hForest']
  exact hLasts.reaches_iff hForest hForest' hSize

/-- A page with an input in an element, which has the focus. -/
def typingFrame : Frame :=
  let dom := Dom.ofTree (Markup.parse "<div id=d><input></div>").root
  Frame.focusOn { fonts := standardFonts, loaded := true, realm := .forPage { dom } } 4

/-- A script takes the input from the page. It keeps the focus, and nothing of the page is marked. -/
theorem focus_off_page :
    typingFrame.focus = some 4 ∧ typingFrame.dom.tag? 4 = some "input" ∧ typingFrame.IsOnPage 4 ∧
    let g := typingFrame.after (.runScript "document.getElementById('d').textContent = ''" "")
    g.focus = some 4 ∧ ¬ g.IsOnPage 4 ∧ g.dom.isFocused 4 = true ∧
      g.tree.descendants.filter (·.info.focused) = [] := by
  decide +kernel

end Frame

end PageRender
