import PageRender.Proofs.Frame.Telling
import PageRender.Proofs.Frame.Turns
import PageRender.Proofs.Script.Lasting

/-! # Where a click leads

A click goes up from the node that was hit. At every node the way is decided anew, by what the node is at that
time and by what the listeners say to the event that it is sent, and they may change the document meanwhile.
The way itself does not change with it, because nodes keep their parents. In the end the click leads to another
page if it came to a link, or to a button with a form around it, and none of the events that were sent on the
way was prevented before it was over.
-/

namespace PageRender

open Script

namespace Dom

/-- The nodes are those on the way up from a node, if there is one to start from. -/
inductive WayUp (d : Dom) : Option NodeId → List NodeId → Prop
  | top : WayUp d none []
  | node {id : Nat} {above : List NodeId} (hSize : id < d.size) (rest : WayUp d (d.parent? id) above) :
      WayUp d (some id) (id :: above)

variable {d e : Dom}

theorem IsForest.wayUp_chainTo (h : d.IsForest) {count id : Nat} (hCount : id < count)
    (hSize : id < d.size) : d.WayUp (some id) (d.chainTo count id) := by
  induction count generalizing id with
  | zero => omega
  | succ count ih =>
    rw [chainTo]
    refine .node hSize ?_
    cases hParent : d.parent? id with
    | none => exact .top
    | some p =>
      have hOlder := h.older hParent
      exact ih (by omega) (by omega)

theorem WayUp.lt_size {start : Option NodeId} {nodes : List NodeId} (h : d.WayUp start nodes) :
    ∀ id ∈ nodes, id < d.size := by
  induction h with
  | top => simp
  | node hSize rest ih => exact List.forall_mem_cons.mpr ⟨hSize, ih⟩

/-- The way up lasts as long as its nodes do. -/
theorem Lasts.wayUp (h : d.Lasts e) {start : Option NodeId} {nodes : List NodeId} (hWay : d.WayUp start nodes) :
    e.WayUp start nodes := by
  induction hWay with
  | top => exact .top
  | node hSize rest ih =>
    refine .node (Nat.lt_of_lt_of_le hSize h.size_le) ?_
    rw [h.parent? hSize]
    exact ih

end Dom

/-! ## Events of a frame -/

/-- A frame before and after an event that it sends to an element. -/
structure Sending where
  type : String
  node : NodeId
  before : Frame
  after : Frame

/-- The function that prevents the event was called before the event was over. -/
def Sending.IsPrevented (s : Sending) : Prop :=
  s.before.page.dispatches ∈ s.after.page.prevented

/-- What a frame keeps while events are sent: the nodes of its page, and the numbers of events. -/
structure Frame.GoesOn (f g : Frame) : Prop where
  lasts : f.dom.Lasts g.dom
  numbered : g.realm.IsNumbered

theorem Frame.GoesOn.of_dispatchEvent {type : String} {node : NodeId} {f : Frame} (h : f.realm.IsNumbered)
    {prevented : Bool} {r : Realm} (hDone : dispatchEvent node type f.realm.refreshIds = .ok prevented r) :
    f.GoesOn { f with realm := r } where
  lasts := (((leads_dispatchEvent node type).of_ok hDone).onPage PageChange.lasts).dom
  numbered := ((flow_isNumbered.dispatchEvent h.refreshIds node type).ok hDone).1.inv

theorem sendEvent_of_loaded {f : Frame} (hLoaded : f.loaded = true) (type : String) (node : NodeId) :
    sendEvent type node f =
      match dispatchEvent node type f.realm.refreshIds with
      | .ok prevented r => .ok prevented { f with realm := r }
      | .error e r => .error e { f with realm := r } := by
  rw [sendEvent, get_bind, if_pos hLoaded]
  unfold inCurrentRealm inRealm
  rw [modify_bind]
  cases dispatchEvent node type f.realm.refreshIds <;> rfl

theorem sendEvent_cases {f : Frame} (h : f.realm.IsNumbered) (type : String) (node : NodeId) :
    (∃ prevented g, sendEvent type node f = .ok prevented g ∧ f.GoesOn g ∧
      (prevented = true ↔ Sending.IsPrevented ⟨type, node, f, g⟩)) ∨
    ∃ e g, sendEvent type node f = .error e g ∧ Fault.IsOfScript e := by
  by_cases hLoaded : f.loaded = true
  · rw [sendEvent_of_loaded hLoaded]
    cases hDone : dispatchEvent node type f.realm.refreshIds with
    | ok prevented r =>
      exact .inl ⟨prevented, _, rfl, .of_dispatchEvent h hDone, prevented_iff_of_dispatchEvent h.refreshIds hDone⟩
    | error e r => exact .inr ⟨e, _, rfl, isOfScript_of_dispatchEvent hDone⟩
  · have hUnsent : sendEvent type node f = .ok false f := by
      rw [sendEvent, get_bind, if_neg hLoaded]
      rfl
    have hFree : ¬ Sending.IsPrevented ⟨type, node, f, f⟩ :=
      fun hMem => absurd (h.prevented _ hMem) (Nat.lt_irrefl _)
    exact .inl ⟨false, f, hUnsent, ⟨refl_of Dom.Lasts f.dom, h⟩, by simp [hFree]⟩

theorem Frame.isForm_of_formAround {f : Frame} {node form : NodeId} (h : f.formAround node = some form) :
    (f.dom.attribute? form "action").isSome := by
  have hForm := List.find?_some h
  rw [isForm, Bool.and_eq_true] at hForm
  exact hForm.2

/-- A form that has an action still has one after it was told of its submission. -/
theorem submitForm_cases {f : Frame} {form : NodeId} (h : f.realm.IsNumbered)
    (hAction : (f.dom.attribute? form "action").isSome) :
    (∃ prevented g navigation k, sendEvent "submit" form f = .ok prevented g ∧
      submitForm form f = .ok navigation k ∧
      (navigation.isSome ↔ ¬ Sending.IsPrevented ⟨"submit", form, f, g⟩)) ∨
    ∃ e k, submitForm form f = .error e k ∧
      (Fault.IsOfScript e ∨ ∃ address link, Url.resolve address link = .error e) := by
  rcases sendEvent_cases h "submit" form with
    ⟨prevented, g, hTold, hGoes, hPrevented⟩ | ⟨e, g, hTold, hFault⟩
  · cases prevented with
    | true =>
      refine .inl ⟨true, g, none, g, hTold, ?_, by simp [hPrevented.mp rfl]⟩
      rw [submitForm, bind_ok hTold]
      rfl
    | false =>
      have hFree : ¬ Sending.IsPrevented ⟨"submit", form, f, g⟩ := fun h => nomatch hPrevented.mpr h
      obtain ⟨action, hStill⟩ := Option.isSome_iff_exists.mp (hGoes.lasts.attribute? hAction)
      rw [submitForm, bind_ok hTold, if_neg Bool.false_ne_true, get_bind, hStill]
      dsimp only
      cases hUrl : Url.resolve g.address action with
      | error e => exact .inr ⟨e, g, rfl, .inr ⟨_, _, hUrl⟩⟩
      | ok url => exact .inl ⟨false, g, _, _, hTold, rfl, by simp [hFree]⟩
  · refine .inr ⟨e, g, ?_, .inl hFault⟩
    rw [submitForm, bind_error hTold]

/-! ## The way of a click -/

/-- Where a click comes to. -/
inductive Arrival where
  | nowhere
  | link (node : NodeId)
  | control (node : NodeId)
  | button (node : NodeId) (form : Option NodeId)

/-- It is a link, or a button with a form around it. -/
def Arrival.Leads : Arrival → Prop
  | link _ => True
  | button _ form => form.isSome
  | nowhere | control _ => False

/-- A click goes up from a node of a frame. The events that it sends on the way are listed in order. What a
node does with it is decided when the click gets there, and the parent is the one that it has after that. -/
inductive Climb : Frame → Option NodeId → List Sending → Arrival → Prop
  | top {f : Frame} : Climb f none [] .nowhere
  | text {f : Frame} {node : NodeId} {sent : List Sending} {a : Arrival} (text : f.clickAction? node = none)
      (rest : Climb f (f.dom.parent? node) sent a) : Climb f (some node) sent a
  | passed {f g : Frame} {node : NodeId} {sent : List Sending} {a : Arrival}
      (other : f.clickAction? node = some .nothing) (told : sendEvent "click" node f = .ok false g)
      (rest : Climb g (g.dom.parent? node) sent a) : Climb f (some node) (⟨"click", node, f, g⟩ :: sent) a
  | stopped {f g : Frame} {node : NodeId} (other : f.clickAction? node = some .nothing)
      (told : sendEvent "click" node f = .ok true g) : Climb f (some node) [⟨"click", node, f, g⟩] .nowhere
  | link {f g : Frame} {node : NodeId} {prevented : Bool} (link : f.clickAction? node = some .follow)
      (told : sendEvent "click" node f = .ok prevented g) :
      Climb f (some node) [⟨"click", node, f, g⟩] (.link node)
  | control {f g : Frame} {node : NodeId} {prevented : Bool} (control : f.clickAction? node = some .edit)
      (told : sendEvent "click" node f = .ok prevented g) :
      Climb f (some node) [⟨"click", node, f, g⟩] (.control node)
  | button {f g : Frame} {node : NodeId} {prevented : Bool} (button : f.clickAction? node = some .press)
      (told : sendEvent "click" node f = .ok prevented g)
      (unsent : prevented = true ∨ g.formAround node = none) :
      Climb f (some node) [⟨"click", node, f, g⟩] (.button node (g.formAround node))
  | submit {f g h : Frame} {node form : NodeId} {prevented : Bool}
      (button : f.clickAction? node = some .press) (told : sendEvent "click" node f = .ok false g)
      (around : g.formAround node = some form) (submitted : sendEvent "submit" form g = .ok prevented h) :
      Climb f (some node) [⟨"click", node, f, g⟩, ⟨"submit", form, g, h⟩] (.button node (some form))

/-- The events that were sent let the click lead to another page, if it came to something that does. -/
def LeadsOn (sent : List Sending) (a : Arrival) : Prop :=
  a.Leads ∧ ∀ s ∈ sent, ¬ s.IsPrevented

theorem leadsOn_singleton {s : Sending} {a : Arrival} : LeadsOn [s] a ↔ a.Leads ∧ ¬ s.IsPrevented := by
  simp [LeadsOn]

/-- How a click ends that goes up from a node: it leads to another page or not, or the steps of a listener
run out, or the address of the other page cannot be made out. -/
def ClickEnds (f : Frame) (start : Option NodeId) : EStateM.Result Fault Frame (Option Navigation) → Prop
  | .ok navigation _ => ∃ sent a, Climb f start sent a ∧ (navigation.isSome ↔ LeadsOn sent a)
  | .error e _ => Fault.IsOfScript e ∨ ∃ address link, Url.resolve address link = .error e

namespace ClickEnds

variable {f g : Frame} {node : NodeId} {prevented : Bool}
  (hPrevented : prevented = true ↔ Sending.IsPrevented ⟨"click", node, f, g⟩)

/-- What becomes of a click further up becomes of it below, if that sends no event that was prevented. -/
theorem of_rest {start rest : Option NodeId} {result : EStateM.Result Fault Frame (Option Navigation)}
    (h : ClickEnds g rest result) (hClimb : ∀ sent a, Climb g rest sent a →
      ∃ all, Climb f start all a ∧ (LeadsOn all a ↔ LeadsOn sent a)) : ClickEnds f start result := by
  cases result with
  | ok navigation k =>
    obtain ⟨sent, a, hRest, hLeads⟩ := h
    obtain ⟨all, hAll, hSame⟩ := hClimb sent a hRest
    exact ⟨all, a, hAll, hLeads.trans hSame.symm⟩
  | error e k => exact h

include hPrevented

theorem follow (hLink : f.clickAction? node = some .follow)
    (hTold : sendEvent "click" node f = .ok prevented g) :
    ClickEnds f (some node) ((if prevented then return none else followLink node) g) := by
  have hClimb := Climb.link hLink hTold
  cases prevented with
  | true => exact ⟨_, _, hClimb, by simp [leadsOn_singleton, hPrevented.mp rfl]⟩
  | false =>
    have hFree : ¬ Sending.IsPrevented ⟨"click", node, f, g⟩ := fun h => nomatch hPrevented.mpr h
    change ClickEnds f (some node) (followLink node g)
    rw [followLink, get_bind]
    cases hUrl : Url.resolve g.address ((g.dom.attribute? node "href").getD "") with
    | error e => exact .inr ⟨_, _, hUrl⟩
    | ok url => exact ⟨_, _, hClimb, by simp [leadsOn_singleton, hFree, Arrival.Leads]⟩

omit hPrevented in
theorem edit (hControl : f.clickAction? node = some .edit)
    (hTold : sendEvent "click" node f = .ok prevented g) :
    ClickEnds f (some node) ((do
      if !prevented then modify (·.focusOn node)
      return none : FrameM (Option Navigation)) g) := by
  have hClimb := Climb.control hControl hTold
  cases prevented <;> exact ⟨_, _, hClimb, by simp [leadsOn_singleton, Arrival.Leads]⟩

theorem press (hNumbered : g.realm.IsNumbered) (hButton : f.clickAction? node = some .press)
    (hTold : sendEvent "click" node f = .ok prevented g) :
    ClickEnds f (some node) ((if prevented then return none else pressButton node) g) := by
  cases prevented with
  | true =>
    exact ⟨_, _, .button hButton hTold (.inl rfl), by simp [leadsOn_singleton, hPrevented.mp rfl]⟩
  | false =>
    have hFree : ¬ Sending.IsPrevented ⟨"click", node, f, g⟩ := fun h => nomatch hPrevented.mpr h
    change ClickEnds f (some node) (pressButton node g)
    rw [pressButton, get_bind]
    cases hForm : g.formAround node with
    | none =>
      exact ⟨_, _, .button hButton hTold (.inr hForm), by simp [leadsOn_singleton, Arrival.Leads, hForm]⟩
    | some form =>
      change ClickEnds f (some node) (submitForm form g)
      rcases submitForm_cases hNumbered (Frame.isForm_of_formAround hForm) with
        ⟨submitted, k, navigation, l, hSubmit, hDone, hNavigation⟩ | ⟨e, k, hDone, hFault⟩
      · rw [hDone]
        exact ⟨_, _, .submit hButton hTold hForm hSubmit, by simp [hNavigation, LeadsOn, Arrival.Leads, hFree]⟩
      · rw [hDone]
        exact hFault

theorem pass {above : List NodeId} (hOther : f.clickAction? node = some .nothing)
    (hTold : sendEvent "click" node f = .ok prevented g)
    (hRest : ClickEnds g (g.dom.parent? node) (passClick above g)) :
    ClickEnds f (some node) ((if prevented then return none else passClick above) g) := by
  cases prevented with
  | true => exact ⟨_, _, .stopped hOther hTold, by simp [LeadsOn, Arrival.Leads]⟩
  | false =>
    have hFree : ¬ Sending.IsPrevented ⟨"click", node, f, g⟩ := fun h => nomatch hPrevented.mpr h
    exact .of_rest hRest fun sent a hClimb => ⟨_, .passed hOther hTold hClimb, by simp [LeadsOn, hFree]⟩

end ClickEnds

theorem passClick_ends {f : Frame} {start : Option NodeId} {nodes : List NodeId}
    (hWay : f.dom.WayUp start nodes) (hNumbered : f.realm.IsNumbered) :
    ClickEnds f start (passClick nodes f) := by
  induction nodes generalizing f start with
  | nil =>
    cases hWay
    exact ⟨[], .nowhere, .top, by simp [LeadsOn, Arrival.Leads]⟩
  | cons node above ih =>
    cases hWay with
    | node hSize rest =>
      rw [passClick, get_bind]
      cases hAction : f.clickAction? node with
      | none => exact .of_rest (ih rest hNumbered) fun sent a hRest => ⟨sent, .text hAction hRest, Iff.rfl⟩
      | some action =>
        rcases sendEvent_cases hNumbered "click" node with
          ⟨prevented, g, hTold, hGoes, hPrevented⟩ | ⟨e, g, hTold, hFault⟩
        · dsimp only
          rw [bind_ok hTold]
          cases action with
          | follow => exact .follow hPrevented hAction hTold
          | edit => exact .edit hAction hTold
          | press => exact .press hPrevented hGoes.numbered hAction hTold
          | nothing =>
            -- The listeners may have cut the node off, but it is still below the same parent.
            have hParent : g.dom.parent? node = f.dom.parent? node := hGoes.lasts.parent? hSize
            have hAbove := hGoes.lasts.wayUp rest
            exact .pass hPrevented hAction hTold (ih (hParent ▸ hAbove) hGoes.numbered)
        · dsimp only
          rw [bind_error hTold]
          exact .inl hFault

/-- Nothing is done to a node that is not there, which has nothing above it. -/
theorem nowhere_of_size_le {f : Frame} {id : Nat} (hSize : f.dom.size ≤ id) :
    f.clickAction? id = none ∧ f.dom.parent? id = none ∧ passClick (f.dom.chain id) f = .ok none f := by
  have hNode : f.dom.node? id = none := Dom.node?_eq_none hSize
  have hText : f.clickAction? id = none := by
    rw [Frame.clickAction?, Dom.tag?, hNode]
    rfl
  have hTop : f.dom.parent? id = none := by
    rw [Dom.parent?, hNode]
    rfl
  refine ⟨hText, hTop, ?_⟩
  rw [Dom.chain]
  cases f.dom.size with
  | zero => rfl
  | succ n =>
    rw [Dom.chainTo, hTop, passClick, get_bind, hText]
    rfl

theorem passClick_chain_ends {f : Frame} (hForest : f.dom.IsForest) (hNumbered : f.realm.IsNumbered)
    (hit : Option NodeId) : ClickEnds f hit (passClick ((hit.map f.dom.chain).getD []) f) := by
  cases hit with
  | none => exact passClick_ends .top hNumbered
  | some id =>
    rcases Nat.lt_or_ge id f.dom.size with hSize | hSize
    · exact passClick_ends (hForest.wayUp_chainTo hSize hSize) hNumbered
    · obtain ⟨hText, hTop, hNowhere⟩ := nowhere_of_size_le hSize
      rw [Option.map_some, Option.getD_some, hNowhere]
      exact ⟨[], .nowhere, .text hText (hTop ▸ .top), by simp [LeadsOn, Arrival.Leads]⟩

/-- The events that a click sends, and where it comes to, are settled by the frame and the node. -/
theorem Climb.unique {f : Frame} {start : Option NodeId} {sent sent' : List Sending} {a a' : Arrival}
    (h : Climb f start sent a) (h' : Climb f start sent' a') : sent = sent' ∧ a = a' := by
  induction h generalizing sent' with
  | top =>
    cases h'
    exact ⟨rfl, rfl⟩
  | text text rest ih =>
    cases h' with
    | text _ rest' => exact ih rest'
    | _ => simp_all
  | passed other told rest ih =>
    cases h' with
    | passed _ told' rest' =>
      rw [told] at told'
      cases told'
      obtain ⟨rfl, rfl⟩ := ih rest'
      exact ⟨rfl, rfl⟩
    | _ => simp_all
  | stopped other told => cases h' <;> simp_all
  | link link told => cases h' <;> simp_all
  | control control told => cases h' <;> simp_all
  | button button told unsent => cases h' <;> simp_all
  | submit button told around submitted => cases h' <;> simp_all

namespace Frame

/-- A click on a frame, whatever was done with it before, answers with a request for another page if it came
to a link, or to a button with a form around it, and if no event that was sent on the way was prevented
before it was over. It gives no answer only if the frame has no page, or a fault stopped a listener, or the
address of the other page could not be made out. -/
theorem click_leads_on (pageWidth : Option Float) (fonts : FontSource Float) (userSheet : String)
    (tracer : Tracer String) (ops : List Operation) (x y : Float) :
    let f := (opened pageWidth fonts userSheet tracer).afterAll ops
    match click x y f with
    | .ok navigation _ =>
      ∃ sent a, Climb f.withoutFocus (f.nodeAt x y) sent a ∧ (navigation.isSome ↔ LeadsOn sent a) ∧
        ∀ sent' a', Climb f.withoutFocus (f.nodeAt x y) sent' a' → sent' = sent ∧ a' = a
    | .error e _ =>
      f.loaded = false ∨ Fault.IsOfScript e ∨ ∃ address link, Url.resolve address link = .error e := by
  intro f
  have hWhole : f.withoutFocus.realm.IsWhole :=
    f.keepsWhole_withoutFocus (spans_keepsWhole.afterAll _ ops (isWhole_opened pageWidth fonts userSheet tracer))
  have hNumbered : f.withoutFocus.realm.IsNumbered :=
    f.keepsNumbered_withoutFocus (isNumbered_afterAll pageWidth fonts userSheet tracer ops)
  have hHit : f.withoutFocus.nodeAt x y = f.nodeAt x y := by
    rw [withoutFocus]
    split <;> rfl
  have hEnds := passClick_chain_ends hWhole.page.dom.forest hNumbered (f.nodeAt x y)
  rw [click, modify_bind, get_bind, hHit]
  cases hPass : passClick (((f.nodeAt x y).map f.withoutFocus.dom.chain).getD []) f.withoutFocus with
  | error e g =>
    rw [hPass] at hEnds
    rw [bind_error hPass]
    exact .inr hEnds
  | ok navigation g =>
    rw [hPass] at hEnds
    obtain ⟨sent, a, hClimb, hLeads⟩ := hEnds
    rw [bind_ok hPass]
    cases hRender : renderIfNeeded g with
    | ok _ h =>
      rw [bind_ok hRender]
      exact ⟨sent, a, hClimb, hLeads, fun sent' a' hOther => hOther.unique hClimb⟩
    | error e h =>
      rw [bind_error hRender]
      refine .inl (Bool.eq_false_iff.mpr fun hLoaded => ?_)
      have hFollows : f.Follows g :=
        (f.follows_withoutFocus).trans ((passes_follows.passClick _).of_ok hPass)
      obtain ⟨k, hDrawn, -⟩ := renderIfNeeded_ok (hFollows.loaded hLoaded)
      rw [hRender] at hDrawn
      cases hDrawn

/-- A page with a link around an element that keeps the event of a click on it. When the link hears of the
click, it prevents that event, which was over before. -/
def lateFrame : Frame :=
  let dom := Dom.ofTree (Markup.parse "<a id=l href=/next><b id=s>link</b></a>").root
  let source := "function keep(e) \x7b window.e = e \x7d function late() \x7b window.e.preventDefault() \x7d"
  let listen (p : Page) : Page :=
    (p.addListener 4 "click" (.function 0)).addListener 3 "click" (.function 1)
  { fonts := standardFonts, loaded := true, address := "http://example.com/",
    realm := (stateAfter (runScript source "") (.forPage { dom })).onPage listen }

/-- An event of the click was prevented during the click, and it leads to another page all the same. -/
theorem prevented_too_late :
    ∃ navigation g, passClick (lateFrame.dom.chain 4) lateFrame = .ok (some navigation) g ∧
      navigation.url = "http://example.com/next" ∧ lateFrame.page.dispatches ∈ g.page.prevented := by
  obtain ⟨answer, g, hClick, hOutcome⟩ := exists_eq_ok_of_match
    (x := passClick (lateFrame.dom.chain 4)) (s := lateFrame)
    (p := fun answer g => answer.any (·.url == "http://example.com/next") &&
      g.page.prevented.contains lateFrame.page.dispatches) (by decide +kernel)
  rw [Bool.and_eq_true, Option.any_eq_true, List.contains_iff_mem] at hOutcome
  obtain ⟨⟨navigation, rfl, hUrl⟩, hPrevented⟩ := hOutcome
  exact ⟨navigation, g, hClick, eq_of_beq hUrl, hPrevented⟩

end Frame

end PageRender
