import PageRender.Proofs.Frame.Drawing
import PageRender.Proofs.Frame.Past
import PageRender.Proofs.Script.Waiting

/-! # Leaving a page

A load leaves nothing of the pages before it, but for the count of changes, the journal and the timers
that nothing can be called with any more. What is done with the frame from then on comes out as it does
in a frame that is opened for this page.
-/

namespace PageRender

open Script

/-! ## What operations answer -/

/-- What an operation tells the one who asked for it. -/
inductive Answer where
  | done
  | value (v : Value)
  | navigation (n : Option Navigation)
  | count (n : Nat)
  | prevented (b : Bool)

namespace Operation

def answer : Operation → FrameM Answer
  | load html address authorSheet => do
    PageRender.load html address authorSheet
    return .done
  | runScript source name => return .value (← runNamedScript source name)
  | click x y => return .navigation (← PageRender.click x y)
  | keypress text => do
    PageRender.keypress text
    return .done
  | backspace => do
    PageRender.backspace
    return .done
  | fireTimer timer => do
    modify (·.fire timer)
    return .done
  | runPendingTasks => return .count (← PageRender.runPendingTasks)
  | render => do
    PageRender.render
    return .done
  | markChanged => do
    modify Frame.markChanged
    return .done
  | sendEvent type node => return .prevented (← PageRender.sendEvent type node)
  | submitForm form => return .navigation (← PageRender.submitForm form)

/-- A timer fires by itself; nobody asked for it. -/
def isFiring : Operation → Bool
  | fireTimer _ => true
  | _ => false

theorem stateAfter_andReturn {α β : Type} (x : FrameM α) (k : α → β) (f : Frame) :
    stateAfter (do return k (← x)) f = stateAfter x f := by
  cases hResult : x f with
  | ok v g => rw [stateAfter_bind hResult, stateAfter_of_ok hResult]; rfl
  | error e g => rw [stateAfter_of_error (bind_error hResult _), stateAfter_of_error hResult]

theorem stateAfter_discard {α : Type} (x : FrameM α) (f : Frame) :
    stateAfter (discard x) f = stateAfter x f := by
  change stateAfter ((fun _ => PUnit.unit) <$> x) f = _
  rw [map_eq_pure_bind]
  exact stateAfter_andReturn x _ f

theorem stateAfter_answer (op : Operation) (f : Frame) : stateAfter op.answer f = f.after op := by
  rw [Frame.after]
  cases op with
  | load | keypress | backspace | render => exact stateAfter_andReturn _ (fun _ => Answer.done) f
  | fireTimer | markChanged => rfl
  | runScript | click | runPendingTasks | sendEvent | submitForm =>
    exact (stateAfter_andReturn _ _ f).trans (stateAfter_discard _ f).symm

end Operation

/-- What the operations of a run answer, or why they fail. -/
def Frame.answers (f : Frame) : List Operation → List (Except Fault Answer)
  | [] => []
  | op :: ops =>
    if op.isFiring then (f.after op).answers ops
    else outcome op.answer f :: (f.after op).answers ops

theorem Frame.answers_fireTimer (f : Frame) (timer : Nat) (ops : List Operation) :
    f.answers (.fireTimer timer :: ops) = (f.fire timer).answers ops :=
  if_pos rfl

structure View where
  tree : PageTree
  styles : PageTree
  document : Option (DocumentBox Float)
  display : List (Command Float)
  diagnostics : List Diagnostic
  externalScripts : List String
  focus : Option NodeId
  alerts : List String
  console : List String
  needsRender : Bool

def Frame.view (f : Frame) : View where
  tree := f.tree
  styles := f.styled.1
  document := f.document
  display := f.display
  diagnostics := f.diagnostics
  externalScripts := f.externalScripts
  focus := f.focus
  alerts := f.page.alerts
  console := f.page.console
  needsRender := f.needsRender

/-! ## Runs with a past -/

/-- The operation for a frame without the first `n` timers, of which no firing is left. -/
def Operation.since? (n : Nat) : Operation → Option Operation
  | fireTimer timer => if timer < n then none else some (.fireTimer (timer - n))
  | op => some op

section

variable (p : Past)

theorem Operation.commutes_answer {op : Operation} (h : op.isFiring = false) :
    Commutes (Frame.behind p) op.answer := by
  cases op with
  | load html address authorSheet => exact (commutes_load p html address authorSheet).bind fun _ => .pure _
  | runScript source name => exact (commutes_runNamedScript p source name).bind fun v => .pure _
  | click x y => exact (commutes_click p x y).bind fun n => .pure _
  | keypress text => exact (commutes_keypress p text).bind fun _ => .pure _
  | backspace => exact (commutes_backspace p).bind fun _ => .pure _
  | fireTimer timer => cases h
  | runPendingTasks => exact (commutes_runPendingTasks p).bind fun count => .pure _
  | render => exact (commutes_render p).bind fun _ => .pure _
  | markChanged => exact .bind (.modify fun f => f.changeDom_behind p id) fun _ => .pure _
  | sendEvent type node => exact (commutes_sendEvent p type node).bind fun b => .pure _
  | submitForm form => exact (commutes_submitForm p form).bind fun n => .pure _

namespace Frame

theorem after_behind {op : Operation} (h : op.isFiring = false) (f : Frame) :
    (f.behind p).after op = (f.after op).behind p := by
  rw [← op.stateAfter_answer, ← op.stateAfter_answer]
  exact (op.commutes_answer p h).stateAfter f

/-- A run of a frame with a past is the run of the frame without it. -/
theorem afterAll_behind (f : Frame) (ops : List Operation) :
    (f.behind p).afterAll ops = (f.afterAll (ops.filterMap (·.since? p.timers.length))).behind p ∧
    (f.behind p).answers ops = f.answers (ops.filterMap (·.since? p.timers.length)) := by
  induction ops generalizing f with
  | nil => exact ⟨rfl, rfl⟩
  | cons op ops ih =>
    cases hFiring : op.isFiring with
    | false =>
      have hSince : op.since? p.timers.length = some op := by
        cases op <;> first | rfl | cases hFiring
      rw [List.filterMap_cons_some hSince, afterAll_cons, afterAll_cons, after_behind p hFiring, answers,
        answers, hFiring, (op.commutes_answer p hFiring).outcome f, after_behind p hFiring, (ih _).1, (ih _).2]
      exact ⟨rfl, rfl⟩
    | true =>
      cases op with
      | fireTimer timer =>
        have hAfter : ∀ g : Frame, g.after (.fireTimer timer) = g.fire timer := fun _ => rfl
        rw [afterAll_cons, answers_fireTimer, hAfter, fire_behind]
        by_cases hPast : timer < p.timers.length
        · have hSince : (Operation.fireTimer timer).since? p.timers.length = none := if_pos hPast
          rw [List.filterMap_cons_none hSince, if_pos hPast]
          exact ih f
        · have hSince : (Operation.fireTimer timer).since? p.timers.length =
              some (.fireTimer (timer - p.timers.length)) := if_neg hPast
          rw [List.filterMap_cons_some hSince, if_neg hPast, afterAll_cons, answers_fireTimer]
          exact ih (f.fire (timer - p.timers.length))
      | _ => cases hFiring

theorem view_behind (f : Frame) : (f.behind p).view = f.view := by
  rw [view, view, needsRender_behind]
  rfl

end Frame

end

/-! ## A load in a frame with a past -/

def markupFindings (n : Nat) : Journal :=
  if n == 0 then [] else [⟨.info, "Recovered from " ++ toString n ++ " markup error(s)"⟩]

theorem writeMarkupFindings_eq (n : Nat) (f : Frame) : writeMarkupFindings n f =
    .ok () (f.noting f.tracer f.diagnostics (f.page.journal ++ markupFindings n)) := by
  rw [writeMarkupFindings, markupFindings]
  split
  · rw [List.append_nil]
    rfl
  · rfl

namespace Frame

/-- The frame with a page that was not drawn yet. -/
def opening (html address authorSheet : String) (f : Frame) : Frame :=
  let document := Markup.parse html
  { f with
    loaded := true
    address
    authorSheet
    markupDiagnostics := document.diagnostics
    earlierTimers := f.earlierTimers ++ f.page.discard.timers
    focus := none
    realm := .forPage {
      dom := .ofTree document.root
      generation := f.generation + 1
      journal := f.page.journal ++ markupFindings document.diagnostics.length } }

theorem replacePage_eq {f : Frame} {generation : Nat} {journal : Journal}
    (hGeneration : f.generation = generation) (hJournal : f.page.journal = journal)
    (document : Markup.Document) :
    f.replacePage document =
      { f with
        loaded := true
        markupDiagnostics := document.diagnostics
        earlierTimers := f.earlierTimers ++ f.page.discard.timers
        realm := .forPage { dom := .ofTree document.root, generation := generation + 1, journal } } := by
  subst hGeneration hJournal
  rfl

theorem openPage_eq (html address authorSheet : String) (f : Frame) : ∃ tracer,
    openPage html address authorSheet f = .ok () { f.opening html address authorSheet with tracer } := by
  let g : Frame := { f with address, authorSheet, focus := none }
  let h := (g.record ⟨.start, "parse_html", "parse", []⟩).record ⟨.stop, "parse_html", "parse", []⟩
  have hParse : traced "parse_html" "parse" [] (pure (Markup.parse html)) g = .ok (Markup.parse html) h := rfl
  let journal := f.page.journal ++ markupFindings (Markup.parse html).diagnostics.length
  let k := h.noting h.tracer h.diagnostics journal
  have hGeneration : k.generation = f.generation := rfl
  have hJournal : k.page.journal = journal := rfl
  have hTimers : k.page.discard.timers = f.page.discard.timers := rfl
  refine ⟨h.tracer, ?_⟩
  unfold openPage opening
  rw [modify_bind, bind_ok hParse, bind_ok (writeMarkupFindings_eq _ h)]
  refine congrArg (EStateM.Result.ok ()) ((replacePage_eq hGeneration hJournal _).trans ?_)
  rw [hTimers]
  dsimp only [journal]
  generalize Realm.forPage _ = r
  rfl

/-- The frame without what was drawn of the page before, and without a trace. -/
def undrawn (f : Frame) : Frame :=
  { f with
    tracer := {}
    document := none
    display := []
    rendered := none
    diagnostics := []
    externalScripts := [] }

/-- What was drawn before is gone with the next drawing. -/
theorem render_undrawn {f : Frame} (hLoaded : f.loaded = true) : ∃ g h,
    render f = .ok () g ∧ render f.undrawn = .ok () h ∧
    { g with tracer := {}, externalScripts := [] } = { h with tracer := {}, externalScripts := [] } := by
  obtain ⟨tracer, hRender⟩ := exists_render_eq hLoaded
  obtain ⟨tracer', hRender'⟩ := exists_render_eq (f := f.undrawn) hLoaded
  exact ⟨_, _, hRender, hRender', rfl⟩

def past (f : Frame) : Past where
  changes := f.generation
  lines := f.page.journal
  timers := f.earlierTimers ++ f.page.discard.timers

theorem length_timers_past (f : Frame) : f.past.timers.length = f.timers.length := by
  have hDiscard : f.page.discard.timers.length = f.page.timers.length := by
    have hTasks := congrArg List.length f.page.timerTasks_discard
    simpa [Page.timerTasks] using hTasks
  simp [past, timers, hDiscard]

/-- A page that was not drawn yet is the same in any frame, but for the past of the frame. -/
theorem undrawn_opening {f : Frame} (hShelf : f.shelf = none) (html address authorSheet : String) :
    (f.opening html address authorSheet).undrawn =
      ((opened f.pageWidth f.fonts f.userSheet {}).opening html address authorSheet).behind f.past := by
  have hRealm : ∀ dom findings,
      Realm.forPage { dom, generation := f.generation + 1, journal := f.page.journal ++ findings } =
        (Realm.forPage { dom, generation := 1, journal := findings }).plus f.past.unseen := by
    intro dom findings
    rw [← Realm.forPage_plus]
    rfl
  let fresh := opened f.pageWidth f.fonts f.userSheet {}
  have hGeneration : fresh.generation = 0 := rfl
  have hJournal : fresh.page.journal = [] := rfl
  have hTimers : fresh.page.discard.timers = [] := rfl
  unfold opening undrawn behind
  dsimp only
  have hEarlier : f.past.timers ++ (fresh.earlierTimers ++ []) = f.earlierTimers ++ f.page.discard.timers :=
    List.append_nil _
  rw [hRealm, hShelf, hGeneration, hJournal, hTimers, hEarlier, List.nil_append, Nat.zero_add]
  generalize (Realm.forPage _).plus _ = r
  rfl

/-- In any two frames that are set up alike the same page is opened, but for what was drawn before and for
the past. -/
theorem openPage_undrawn {f : Frame} (hShelf : f.shelf = none) (html address authorSheet : String) :
    ∃ k k₀, openPage html address authorSheet f = .ok () k ∧
      openPage html address authorSheet (opened f.pageWidth f.fonts f.userSheet {}) = .ok () k₀ ∧
      k.loaded = true ∧ k₀.loaded = true ∧ k.undrawn = k₀.behind f.past := by
  obtain ⟨tracer, hOpen⟩ := openPage_eq html address authorSheet f
  obtain ⟨tracer₀, hOpen₀⟩ := openPage_eq html address authorSheet
    (opened f.pageWidth f.fonts f.userSheet {})
  have hTracer : ∀ (g : Frame) (tracer : Tracer String),
      ({ g with tracer } : Frame).undrawn = g.undrawn ∧
      ({ g with tracer } : Frame).behind f.past = g.behind f.past := fun _ _ => ⟨rfl, rfl⟩
  refine ⟨_, _, hOpen, hOpen₀, rfl, rfl, ?_⟩
  rw [(hTracer _ _).1, (hTracer _ _).2]
  exact undrawn_opening hShelf html address authorSheet

theorem behind_none (f : Frame) : f.behind {} = { f with tracer := {} } := by
  have hPage : f.page.plus (Past.unseen {}) = f.page := by
    simp [Page.plus, Past.unseen]
  have hRealm : f.realm.plus (Past.unseen {}) = f.realm :=
    congrArg (fun q => { f.realm with page := q }) hPage
  have hRendered : f.rendered.map (0 + ·) = f.rendered := by
    simp
  unfold behind
  dsimp only
  rw [hRealm, hRendered]
  rfl

theorem load_eq_of_render {html address authorSheet : String} {f k g : Frame}
    (hOpen : openPage html address authorSheet (f.record ⟨.start, "frame_load", "load", []⟩) = .ok () k)
    (hRender : render k = .ok () g) :
    load html address authorSheet f = changing (record ⟨.stop, "frame_load", "load", []⟩)
      (finishLoad { g with externalScripts := [] }) := by
  unfold load traced withStage
  rw [bind_ok hOpen, bind_ok hRender, modify_bind]
  rfl

/-- A load comes out as in a frame that nothing was done with, but for the past of the frame. -/
theorem load_behind {f : Frame} (hShelf : f.shelf = none) (html address authorSheet : String) :
    changing (behind {}) (load html address authorSheet f) =
      changing (behind f.past)
        (load html address authorSheet (opened f.pageWidth f.fonts f.userSheet {})) := by
  obtain ⟨k, k₀, hOpen, hOpen₀, hLoaded, hLoaded₀, hPage⟩ := openPage_undrawn
    (f := f.record ⟨.start, "frame_load", "load", []⟩) hShelf html address authorSheet
  -- the first drawing
  obtain ⟨g, h, hRender, hUndrawn, hSame⟩ := render_undrawn hLoaded
  obtain ⟨g₀, -, hRender₀, -⟩ := render_undrawn hLoaded₀
  have hDrawn : h = g₀.behind f.past := by
    have hBoth := commutes_render f.past k₀
    rw [← show k.undrawn = k₀.behind f.past from hPage, hUndrawn, hRender₀] at hBoth
    cases hBoth
    rfl
  -- what comes after it
  let s : Frame := { g with externalScripts := [] }
  let s₀ : Frame := { g₀ with externalScripts := [] }
  have hStart : s.behind {} = s₀.behind f.past := by
    rw [hDrawn] at hSame
    exact (behind_none s).trans hSame
  have hRest : changing (behind {}) (finishLoad s) = changing (behind f.past) (finishLoad s₀) := by
    rw [← commutes_finishLoad {} s, hStart, commutes_finishLoad f.past s₀]
  rw [load_eq_of_render hOpen hRender, load_eq_of_render hOpen₀ hRender₀, changing_changing,
    changing_changing]
  exact hRest

/-- From a load on, a frame is used as one that nothing was done with before. -/
theorem afterAll_load {f : Frame} (hShelf : f.shelf = none) (html address authorSheet : String)
    (ops : List Operation) :
    let fresh := opened f.pageWidth f.fonts f.userSheet {}
    let load := Operation.load html address authorSheet
    let since := ops.filterMap (·.since? f.timers.length)
    (f.afterAll (load :: ops)).view = (fresh.afterAll (load :: since)).view ∧
    f.answers (load :: ops) = fresh.answers (load :: since) := by
  intro fresh load since
  obtain ⟨hOutcome, hAfter⟩ := of_changing_eq (load_behind hShelf html address authorSheet)
  have hLoad : (f.after load).behind {} = (fresh.after load).behind f.past := hAfter
  have hAnswer : outcome load.answer f = outcome load.answer fresh := by
    have hEach := outcome_andReturn (PageRender.load html address authorSheet) fun _ => Answer.done
    exact (hEach f).trans (hOutcome ▸ (hEach fresh).symm)
  obtain ⟨hFrame, hAnswers⟩ := afterAll_behind {} (f.after load) ops
  obtain ⟨hFresh, hFreshAnswers⟩ := afterAll_behind f.past (fresh.after load) ops
  have hAll : ops.filterMap (·.since? (Past.timers {}).length) = ops := by
    have hEach : ∀ op : Operation, op.since? 0 = some op := by
      intro op
      cases op <;> rfl
    simp [hEach]
  rw [hAll] at hFrame hAnswers
  rw [f.length_timers_past] at hFresh hFreshAnswers
  constructor
  · rw [afterAll_cons, afterAll_cons, ← view_behind {}, ← hFrame, hLoad, hFresh, view_behind]
  · have hCons : ∀ (g : Frame) ops, g.answers (load :: ops) =
        outcome load.answer g :: (g.after load).answers ops := fun _ _ => rfl
    rw [hCons, hCons, hAnswer, ← hAnswers, hLoad, hFreshAnswers]

/-- What a frame was set up with stays, in a frame without a shelf for its fonts. -/
def KeepsSettings (f g : Frame) : Prop :=
  f.shelf = none → g.settings = f.settings

instance : IsPreorder Frame KeepsSettings where
  refl _ _ := rfl
  trans f g h hFirst hRest hShelf := by
    have hSettings := hFirst hShelf
    have hSame : g.shelf = f.shelf := congrArg (fun s => s.2.2.1) hSettings
    exact (hRest (hSame.trans hShelf)).trans hSettings

theorem spans_keepsSettings : Spans KeepsSettings := by
  refine .of_follows (fun h _ => h.settings) ?_
  intro f hShelf
  by_cases hLoaded : f.loaded = true
  · obtain ⟨tracer, hRender⟩ := exists_render_eq hLoaded
    rw [stateAfter_of_ok hRender]
    have hKept : (f.shelve f.styled.1).settings = f.settings := by
      rw [shelve, hShelf, Option.map_none, ← hShelf]
    exact hKept
  · rw [stateAfter_of_error (render_of_not_loaded hLoaded)]
    rfl

end Frame

end PageRender
