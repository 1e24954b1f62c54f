import PageRender.Proofs.Commuting
import PageRender.Proofs.Frame.Operations
import PageRender.Proofs.Script.Unseen

/-! # Frames with a past

A frame may have a past: changes that were counted, lines of the journal and timers from before its page
was opened. What is done with the frame comes out the same without them, and adds to them what it would
add by itself. Only the numbers of the timers begin behind those of the past.
-/

namespace PageRender

open Script

/-- What happened in a frame before its page was opened. -/
structure Past where
  changes : Nat := 0
  lines : Journal := []
  timers : List Timer := []

def Past.unseen (p : Past) : Unseen where
  changes := p.changes
  lines := p.lines

/-- The frame with a past, and without a trace. -/
def Frame.behind (p : Past) (f : Frame) : Frame :=
  { f with
    tracer := {}
    earlierTimers := p.timers ++ f.earlierTimers
    rendered := f.rendered.map (p.changes + ·)
    realm := f.realm.plus p.unseen }

section

variable (p : Past)

namespace Frame

theorem loaded_behind (f : Frame) : (f.behind p).loaded = f.loaded :=
  rfl

theorem dom_behind (f : Frame) : (f.behind p).dom = f.dom :=
  rfl

theorem address_behind (f : Frame) : (f.behind p).address = f.address :=
  rfl

theorem focus_behind (f : Frame) : (f.behind p).focus = f.focus :=
  rfl

theorem needsRender_behind (f : Frame) : (f.behind p).needsRender = f.needsRender := by
  have hGeneration : (f.behind p).generation = p.changes + f.generation := rfl
  rw [needsRender, needsRender, hGeneration]
  cases h : f.rendered <;>
  · rw [Bool.eq_iff_iff]
    simp [behind, h]

theorem write_behind (f : Frame) (level : Level) (text : String) :
    (f.behind p).write level text = (f.write level text).behind p :=
  congrArg (fun r => { f.behind p with realm := r }) (f.realm.write_plus p.unseen level text)

theorem changeDom_behind (f : Frame) (change : Dom → Dom) :
    (f.behind p).changeDom change = (f.changeDom change).behind p :=
  congrArg (fun q => { f.behind p with realm := { f.realm with page := q } })
    (f.page.plus_changed p.unseen (change f.dom))

theorem withoutFocus_behind (f : Frame) : (f.behind p).withoutFocus = f.withoutFocus.behind p := by
  unfold withoutFocus
  rw [f.focus_behind]
  cases f.focus with
  | none => rfl
  | some node => exact changeDom_behind p { f with focus := none } _

theorem focusOn_behind (f : Frame) (node : NodeId) :
    (f.behind p).focusOn node = (f.focusOn node).behind p :=
  changeDom_behind p { f with focus := some node } _

theorem page_fire_behind (f : Frame) (timer : Nat) :
    (f.behind p).onPage (·.fire timer) = (f.onPage (·.fire timer)).behind p :=
  congrArg (fun q => { f.behind p with realm := { f.realm with page := q } })
    (f.realm.page.plus_fire p.unseen rfl timer)

/-- The timers of the past have nothing to call, and the numbers of the others begin behind them. -/
theorem fire_behind (f : Frame) (timer : Nat) :
    (f.behind p).fire timer =
      if timer < p.timers.length then f.behind p
      else (f.fire (timer - p.timers.length)).behind p := by
  have hEarlier : (f.behind p).earlierTimers.length = p.timers.length + f.earlierTimers.length := by
    simp [behind]
  unfold fire
  rw [hEarlier, Nat.sub_add_eq]
  by_cases hPast : timer < p.timers.length
  · rw [if_pos hPast, if_pos (by omega)]
  · rw [if_neg hPast]
    by_cases hFrame : timer - p.timers.length < f.earlierTimers.length
    · rw [if_pos hFrame, if_pos (by omega)]
    · rw [if_neg hFrame, if_neg (by omega), page_fire_behind]

theorem replacePage_behind (f : Frame) (document : Markup.Document) :
    (f.behind p).replacePage document = (f.replacePage document).behind p := by
  have hRealm : Realm.forPage {
      dom := .ofTree document.root
      generation := (f.behind p).generation + 1
      journal := (f.behind p).page.journal } =
      (Realm.forPage {
        dom := .ofTree document.root
        generation := f.generation + 1
        journal := f.page.journal }).plus p.unseen := by
    rw [← Realm.forPage_plus]
    rfl
  unfold replacePage
  dsimp only
  rw [hRealm]
  generalize Realm.forPage _ = r
  have hTimers : (f.behind p).page.discard.timers = f.page.discard.timers := rfl
  rw [hTimers]
  simp only [behind, List.append_assoc]

end Frame

section

variable {α : Type}

theorem commutes_traced {body : FrameM α} (hBody : Commutes (Frame.behind p) body)
    (name category : String) (args : List (String × String)) :
    Commutes (Frame.behind p) (traced name category args body) := by
  intro f
  have hInside : body ((f.behind p).record ⟨.start, name, category, args⟩) = _ :=
    hBody (f.record ⟨.start, name, category, args⟩)
  unfold traced withStage
  rw [hInside]
  cases body (f.record ⟨.start, name, category, args⟩) <;> rfl

theorem commutes_inRealm {body : HostM α} (hBody : Commutes (·.plus p.unseen) body) :
    Commutes (Frame.behind p) (inRealm body) := by
  intro f
  unfold inRealm
  rw [show (f.behind p).realm = f.realm.plus p.unseen from rfl, hBody f.realm]
  cases body f.realm <;> rfl

theorem commutes_inCurrentRealm {body : HostM α} (hBody : Commutes (·.plus p.unseen) body) :
    Commutes (Frame.behind p) (inCurrentRealm body) :=
  commutes_inRealm p ((commutes_refreshIds p.unseen).bind fun _ => hBody)

end

theorem commutes_write (level : Level) (text : String) :
    Commutes (Frame.behind p) (modify (·.write level text) : FrameM PUnit) :=
  .modify fun f => f.write_behind p level text

/-! ## Drawing -/

theorem commutes_writeSheetFindings (n : Nat) : Commutes (Frame.behind p) (writeSheetFindings n) := by
  rw [writeSheetFindings]
  split
  · exact .pure ()
  · exact commutes_write p _ _

theorem commutes_restyle : Commutes (Frame.behind p) restyle := by
  have hStyled : ∀ (root : PageTree) diagnostics, Commutes (Frame.behind p) (do
      writeSheetFindings diagnostics.length
      modify fun f => { f with diagnostics := f.markupDiagnostics ++ diagnostics }
      return root) :=
    fun root diagnostics =>
      (commutes_writeSheetFindings p _).bind fun _ => .bind (.modify fun _ => rfl) fun _ => .pure root
  refine commutes_traced p (.get fun f => ?_) _ _ _
  dsimp only
  rw [f.loaded_behind]
  split
  · exact hStyled f.styled.1 f.styled.2 f
  · rfl

theorem commutes_draw (root : PageTree) : Commutes (Frame.behind p) (draw root) := by
  refine .bind (.modify fun _ => rfl) fun _ => .get fun f => ?_
  refine Commutes.bind (x := traced "layout" "layout" [] (pure (f.layout root)))
    (commutes_traced p (.pure _) _ _ _) (fun laidOut => ?_) f
  cases laidOut with
  | error e => exact .pure _
  | ok box =>
    refine (commutes_traced p (.pure _) _ _ _).bind fun painted => ?_
    cases painted <;> exact .pure _

theorem commutes_render : Commutes (Frame.behind p) render := by
  have hDone : Commutes (Frame.behind p)
      (modify fun f => { f with rendered := some f.generation } : FrameM PUnit) :=
    .modify fun _ => rfl
  refine (commutes_restyle p).bind fun root => (commutes_draw p root).bind fun drawing => ?_
  cases drawing with
  | none => exact (commutes_write p _ _).bind fun _ => .bind (.modify fun _ => rfl) fun _ => hDone
  | some both => exact .bind (.modify fun _ => rfl) fun _ => hDone

theorem commutes_renderIfNeeded : Commutes (Frame.behind p) renderIfNeeded := by
  refine .get fun f => ?_
  rw [f.needsRender_behind p]
  split
  · exact commutes_render p f
  · rfl

/-! ## Scripts and loads -/

theorem commutes_runNamedScript (source name : String) :
    Commutes (Frame.behind p) (runNamedScript source name) := by
  refine .get fun f => ?_
  rw [f.loaded_behind]
  split
  · have hScript := commutes_inCurrentRealm p (commutes_runScript p.unseen source name)
    exact commutes_traced p hScript _ _ _ f
  · rfl

theorem commutes_sendEvent (type : String) (node : NodeId) :
    Commutes (Frame.behind p) (sendEvent type node) := by
  refine .get fun f => ?_
  rw [f.loaded_behind]
  split
  · exact commutes_inCurrentRealm p (commutes_dispatchEvent p.unseen node type) f
  · rfl

theorem commutes_loadScript (index : Nat) (node : NodeId) :
    Commutes (Frame.behind p) (loadScript index node) := by
  have hNoted : ∀ url, Commutes (Frame.behind p) (do
      modify fun f => { f with externalScripts := f.externalScripts ++ [url] }
      modify (Frame.record ⟨.instant, "external_script", "script", [("url", url)]⟩) : FrameM Unit) :=
    fun url => .bind (.modify fun _ => rfl) fun _ => .modify fun _ => rfl
  refine .get fun f => ?_
  rw [f.dom_behind, f.address_behind]
  cases f.dom.attribute? node "src" with
  | some source =>
    dsimp only
    cases Url.resolve f.address source with
    | error e => rfl
    | ok url => exact hNoted url f
  | none => exact (commutes_runNamedScript p _ _).discard f

theorem commutes_loadScripts (index : Nat) (nodes : List NodeId) :
    Commutes (Frame.behind p) (loadScripts index nodes) := by
  induction nodes generalizing index with
  | nil => exact .pure ()
  | cons node nodes ih => exact (commutes_loadScript p index node).bind fun _ => ih (index + 1)

theorem commutes_openPage (html address authorSheet : String) :
    Commutes (Frame.behind p) (openPage html address authorSheet) := by
  have hFindings : ∀ n, Commutes (Frame.behind p) (writeMarkupFindings n) := by
    intro n
    rw [writeMarkupFindings]
    split
    · exact .pure ()
    · exact commutes_write p _ _
  refine .bind (.modify fun _ => rfl) fun _ => (commutes_traced p (.pure _) _ _ _).bind fun document => ?_
  exact (hFindings _).bind fun _ => .modify fun f => f.replacePage_behind p document

/-- The part of a load after the page was drawn for the first time. -/
def finishLoad : FrameM Unit := do
  loadScripts 0 (← get).scriptElements
  renderIfNeeded

theorem commutes_finishLoad : Commutes (Frame.behind p) finishLoad :=
  .get fun f => (commutes_loadScripts p 0 f.scriptElements).bind (fun _ => commutes_renderIfNeeded p) f

theorem commutes_load (html address authorSheet : String) :
    Commutes (Frame.behind p) (load html address authorSheet) := by
  have hRest := fun _ : Unit => (commutes_render p).bind fun _ =>
    Commutes.bind (x := (modify fun f => { f with externalScripts := [] } : FrameM PUnit))
      (.modify fun _ => rfl) fun _ => commutes_finishLoad p
  exact commutes_traced p ((commutes_openPage p html address authorSheet).bind hRest) _ _ _

/-! ## Interaction -/

theorem commutes_submitForm (form : NodeId) : Commutes (Frame.behind p) (submitForm form) := by
  refine (commutes_sendEvent p "submit" form).bind fun prevented => ?_
  split
  · exact .pure none
  · have hSubmitted : ∀ url (n : Option Navigation), Commutes (Frame.behind p) (do
        modify (·.write .info ("Submitting form to " ++ url))
        return n) :=
      fun url n => (commutes_write p _ _).bind fun _ => .pure n
    refine .get fun f => ?_
    rw [f.dom_behind, f.address_behind]
    cases f.dom.attribute? form "action" with
    | none => rfl
    | some action =>
      dsimp only
      cases Url.resolve f.address action with
      | error e => rfl
      | ok url => exact hSubmitted url _ f

theorem commutes_followLink (node : NodeId) : Commutes (Frame.behind p) (followLink node) := by
  refine .get fun f => ?_
  rw [f.dom_behind, f.address_behind]
  cases Url.resolve f.address ((f.dom.attribute? node "href").getD "") <;> rfl

theorem commutes_pressButton (node : NodeId) : Commutes (Frame.behind p) (pressButton node) := by
  refine .get fun f => ?_
  rw [show (f.behind p).formAround node = f.formAround node from rfl]
  cases f.formAround node with
  | some form => exact commutes_submitForm p form f
  | none => rfl

theorem commutes_passClick (nodes : List NodeId) : Commutes (Frame.behind p) (passClick nodes) := by
  induction nodes with
  | nil => exact .pure none
  | cons node above ih =>
    refine .get fun f => ?_
    rw [show (f.behind p).clickAction? node = f.clickAction? node from rfl]
    cases f.clickAction? node with
    | none => exact ih f
    | some action =>
      refine Commutes.bind (commutes_sendEvent p "click" node) (fun prevented => ?_) f
      cases action with
      | follow =>
        dsimp only
        split
        · exact .pure none
        · exact commutes_followLink p node
      | edit =>
        dsimp only
        split
        · exact .bind (.modify fun g => g.focusOn_behind p node) fun _ => .pure none
        · exact .pure none
      | press =>
        dsimp only
        split
        · exact .pure none
        · exact commutes_pressButton p node
      | nothing =>
        dsimp only
        split
        · exact .pure none
        · exact ih

theorem commutes_click (x y : Float) : Commutes (Frame.behind p) (click x y) := by
  refine .bind (.modify fun f => f.withoutFocus_behind p) fun _ => .get fun f => ?_
  rw [show (f.behind p).nodeAt x y = f.nodeAt x y from rfl, f.dom_behind]
  refine Commutes.bind (commutes_passClick p _) (fun navigation => ?_) f
  exact (commutes_renderIfNeeded p).bind fun _ => .pure navigation

theorem commutes_setValue (change : Frame → String)
    (hSame : ∀ f, change (f.behind p) = change f) (node : NodeId) :
    Commutes (Frame.behind p) (do modify fun f => f.setValue node (change f); render) := by
  refine .bind (.modify fun f => ?_) fun _ => commutes_render p
  rw [hSame]
  exact f.changeDom_behind p _

theorem commutes_keypress (text : String) : Commutes (Frame.behind p) (keypress text) := by
  refine .get fun f => ?_
  rw [f.focus_behind]
  cases f.focus with
  | none => rfl
  | some node =>
    refine Commutes.bind (commutes_sendEvent p "keydown" node) (fun prevented => ?_) f
    split
    · exact .pure ()
    · exact commutes_setValue p (fun f => f.valueOf node ++ text) (fun _ => rfl) node

theorem commutes_backspace : Commutes (Frame.behind p) backspace := by
  refine .get fun f => ?_
  rw [f.focus_behind]
  cases f.focus with
  | none => rfl
  | some node =>
    dsimp only
    rw [show (f.behind p).valueOf node = f.valueOf node from rfl]
    split
    · rfl
    · exact commutes_setValue p (fun _ => _) (fun _ => rfl) node f

theorem commutes_runPendingTasks : Commutes (Frame.behind p) runPendingTasks := by
  refine .get fun f => ?_
  rw [f.loaded_behind]
  split
  · refine Commutes.bind (commutes_inCurrentRealm p (commutes_runPending p.unseen rfl)) (fun count => ?_) f
    exact (commutes_renderIfNeeded p).bind fun _ => .pure count
  · rfl

end

end PageRender
