import Mathlib.Order.RelClasses
import PageRender.Frame.Interaction
import PageRender.Proofs.Leading

/-! # What is done between drawings

All that is done with a frame between two drawings is made of a few single changes, of runs of scripts and
of pages that are opened. A relation that holds across each of these holds across what they are put together
to, whether that comes to its end or fails.
-/

namespace PageRender

open Script

/-- The relation holds across an instant of a trace, and across a stage if it does so across what is done in
it. -/
structure PassesTrace (R : Frame → Frame → Prop) : Prop where
  stage : ∀ {α : Type} {body : FrameM α} (name category : String) (args : List (String × String)),
    Leads R body → Leads R (traced name category args body)
  instant : ∀ name category args f, R f (Frame.record ⟨.instant, name, category, args⟩ f)

/-- The relation holds across all single things that are done with a page between two drawings, as long as
it is the page and the focus stays where it is. -/
structure PassesOnPage (R : Frame → Frame → Prop) : Prop extends PassesTrace R where
  write : ∀ f level text, R f (Frame.write f level text)
  scripts : ∀ (f : Frame) urls, R f { f with externalScripts := urls }
  markChanged : ∀ f, R f (Frame.markChanged f)
  setValue : ∀ f node value, R f (Frame.setValue f node value)
  fire : ∀ f timer, R f (Frame.fire f timer)
  runScript : ∀ source name, Leads R (inCurrentRealm (runScript source name))
  dispatchEvent : ∀ node type, Leads R (inCurrentRealm (dispatchEvent node type))
  runPending : Leads R (inCurrentRealm runPending)

/-- The relation holds across all single things that are done with a frame between two drawings. -/
structure Passes (R : Frame → Frame → Prop) : Prop extends PassesOnPage R where
  withoutFocus : ∀ f, R f (Frame.withoutFocus f)
  focusOn : ∀ f node, R f (Frame.focusOn f node)
  openPage : ∀ html address authorSheet, Leads R (openPage html address authorSheet)

theorem stateAfter_traced (name category : String) (args : List (String × String)) (body : FrameM α)
    (f : Frame) : stateAfter (traced name category args body) f =
      (stateAfter body (f.record ⟨.start, name, category, args⟩)).record
        ⟨.stop, name, category, []⟩ := by
  unfold stateAfter traced withStage
  cases body (f.record ⟨.start, name, category, args⟩) <;> rfl

theorem leads_traced {R : Frame → Frame → Prop} [IsPreorder Frame R]
    (hRecord : ∀ e f, R f (Frame.record e f)) {body : FrameM α} (hBody : Leads R body)
    (name category : String) (args : List (String × String)) :
    Leads R (traced name category args body) := by
  intro f
  rw [stateAfter_traced]
  exact trans_of R (hRecord _ f) (trans_of R (hBody _) (hRecord _ _))

theorem PassesTrace.of_record {R : Frame → Frame → Prop} [IsPreorder Frame R]
    (hRecord : ∀ e f, R f (Frame.record e f)) : PassesTrace R where
  stage name category args hBody := leads_traced hRecord hBody name category args
  instant _ _ _ f := hRecord _ f

/-- A page is opened in steps that are taken in every frame. -/
theorem leads_openPage_of {R : Frame → Frame → Prop} [IsPreorder Frame R] (hTrace : PassesTrace R)
    (hWrite : ∀ f level text, R f (Frame.write f level text))
    (hLeave : ∀ (f : Frame) address authorSheet, R f { f with address, authorSheet, focus := none })
    (hReplace : ∀ (f : Frame) document, R f (f.replacePage document)) (html address authorSheet : String) :
    Leads R (openPage html address authorSheet) := by
  have hParse : Leads R (traced "parse_html" "parse" [] (pure (Markup.parse html))) :=
    hTrace.stage _ _ _ (.pure _)
  refine Leads.bind (.modify fun f => hLeave f address authorSheet) fun _ => hParse.bind fun document => ?_
  refine Leads.bind ?_ fun _ => .modify fun f => hReplace f document
  rw [writeMarkupFindings]
  split
  · exact .pure ()
  · exact .modify fun f => hWrite f _ _

namespace PassesOnPage

variable {R : Frame → Frame → Prop} [IsPreorder Frame R] (h : PassesOnPage R)

include h

theorem runNamedScript (source name : String) : Leads R (runNamedScript source name) := by
  refine .get fun f => ?_
  split
  · exact h.stage _ _ _ (h.runScript source name) f
  · exact refl_of R f

theorem sendEvent (type : String) (node : NodeId) : Leads R (sendEvent type node) := by
  refine .get fun f => ?_
  split
  · exact h.dispatchEvent node type f
  · exact refl_of R f

theorem loadScript (index : Nat) (node : NodeId) : Leads R (loadScript index node) := by
  refine .get fun f => ?_
  split
  · split
    · exact refl_of R f
    · exact trans_of R (h.scripts f _) (h.instant _ _ _ _)
  · exact (h.runNamedScript _ _).discard f

theorem loadScripts (index : Nat) (nodes : List NodeId) : Leads R (loadScripts index nodes) := by
  induction nodes generalizing index with
  | nil => exact .pure ()
  | cons node nodes ih => exact (h.loadScript index node).bind fun _ => ih (index + 1)

theorem submitForm (form : NodeId) : Leads R (submitForm form) := by
  refine (h.sendEvent "submit" form).bind fun prevented => ?_
  split
  · exact .pure none
  · refine .get fun f => ?_
    split
    · exact refl_of R f
    · split
      · exact refl_of R f
      · exact h.write f _ _

omit h in
theorem followLink (node : NodeId) : Leads R (followLink node) := by
  refine .get fun f => ?_
  split <;> exact refl_of R f

theorem pressButton (node : NodeId) : Leads R (pressButton node) := by
  refine .get fun f => ?_
  split
  · exact h.submitForm _ f
  · exact refl_of R f

end PassesOnPage

namespace Passes

variable {R : Frame → Frame → Prop}

theorem imp {Q : Frame → Frame → Prop} (h : Passes Q) (hTrace : PassesTrace R)
    (hQ : ∀ f g, Q f g → R f g) : Passes R where
  toPassesTrace := hTrace
  write f level text := hQ _ _ (h.write f level text)
  scripts f urls := hQ _ _ (h.scripts f urls)
  markChanged f := hQ _ _ (h.markChanged f)
  withoutFocus f := hQ _ _ (h.withoutFocus f)
  focusOn f node := hQ _ _ (h.focusOn f node)
  setValue f node value := hQ _ _ (h.setValue f node value)
  fire f timer := hQ _ _ (h.fire f timer)
  openPage html address authorSheet := (h.openPage html address authorSheet).imp hQ
  runScript source name := (h.runScript source name).imp hQ
  dispatchEvent node type := (h.dispatchEvent node type).imp hQ
  runPending := h.runPending.imp hQ

variable [IsPreorder Frame R] (h : Passes R)

include h

theorem passClick (nodes : List NodeId) : Leads R (passClick nodes) := by
  induction nodes with
  | nil => exact .pure none
  | cons node above ih =>
    refine .get fun f => ?_
    split
    · exact ih f
    · rename_i action _
      refine Leads.bind (h.sendEvent "click" node) (fun prevented => ?_) f
      cases action with
      | follow =>
        dsimp only
        split
        · exact .pure none
        · exact PassesOnPage.followLink node
      | edit =>
        dsimp only
        split
        · exact .bind (.modify fun g => h.focusOn g node) fun _ => .pure none
        · exact .pure none
      | press =>
        dsimp only
        split
        · exact .pure none
        · exact h.pressButton node
      | nothing =>
        dsimp only
        split
        · exact .pure none
        · exact ih

end Passes

end PageRender
