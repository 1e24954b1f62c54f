import PageRender.Proofs.Frame.Following
import PageRender.Proofs.Frame.Operations

/-! # What holds across operations

All that is done with a frame is made of what follows without a drawing, and of drawings. A relation that
holds across both holds across every operation, however that ends.
-/

namespace PageRender

open Script

/-- What could open another page or move the focus. -/
def Operation.leavesPage : Operation → Bool
  | load .. | click .. => true
  | _ => false

/-- The relation holds across all that is done with a page, as long as it is the page and the focus stays
where it is. -/
structure SpansOnPage (R : Frame → Frame → Prop) : Prop extends PassesOnPage R where
  render : Leads R render

/-- The relation holds across all that is done with a frame between two drawings, and across a drawing. -/
structure Spans (R : Frame → Frame → Prop) : Prop extends Passes R, SpansOnPage R

namespace SpansOnPage

variable {R : Frame → Frame → Prop} [IsPreorder Frame R] (h : SpansOnPage R)

include h

theorem renderIfNeeded : Leads R renderIfNeeded := by
  refine .get fun f => ?_
  split
  · exact h.render f
  · exact refl_of R f

/-- The part of a load after the page was opened. -/
theorem loaded : Leads R (do
    PageRender.render
    modify fun f => { f with externalScripts := [] }
    loadScripts 0 (← get).scriptElements
    PageRender.renderIfNeeded) := by
  have hClear : Leads R (modify fun f => { f with externalScripts := [] } : FrameM Unit) :=
    .modify fun f => h.scripts f []
  refine h.render.bind fun _ => hClear.bind fun _ => .get fun f => ?_
  exact ((h.loadScripts 0 _).bind fun _ => h.renderIfNeeded) f

theorem changeValue (change : Frame → String) (node : NodeId) :
    Leads R (do modify fun f => f.setValue node (change f); PageRender.render) :=
  Leads.bind (.modify fun f => h.setValue f node _) fun _ => h.render

theorem keypress (text : String) : Leads R (keypress text) := by
  refine .get fun f => ?_
  split
  · exact refl_of R f
  · rename_i node _
    refine Leads.bind (h.sendEvent "keydown" node) (fun prevented => ?_) f
    split
    · exact .pure ()
    · exact h.changeValue (fun f => f.valueOf node ++ text) node

theorem backspace : Leads R backspace := by
  refine .get fun f => ?_
  split
  · exact refl_of R f
  · dsimp only
    split
    · exact refl_of R f
    · exact h.changeValue (fun _ => _) _ f

theorem runPendingTasks : Leads R runPendingTasks := by
  refine .get fun f => ?_
  split
  · refine Leads.bind h.runPending (fun count => ?_) f
    exact h.renderIfNeeded.bind fun _ => .pure count
  · exact refl_of R f

theorem perform {op : Operation} (hOp : op.leavesPage = false) : Leads R op.perform := by
  cases op with
  | load | click => cases hOp
  | runScript source name => exact (h.runNamedScript source name).discard
  | keypress text => exact h.keypress text
  | backspace => exact h.backspace
  | fireTimer timer => exact .modify fun f => h.fire f timer
  | runPendingTasks => exact h.runPendingTasks.discard
  | render => exact h.render
  | markChanged => exact .modify h.markChanged
  | sendEvent type node => exact (h.sendEvent type node).discard
  | submitForm form => exact (h.submitForm form).discard

end SpansOnPage

namespace Spans

variable {R : Frame → Frame → Prop}

/-- What holds between a frame and what follows without a drawing. -/
theorem of_follows [IsPreorder Frame R] (hFollows : ∀ {f g : Frame}, f.Follows g → R f g)
    (hRender : Leads R PageRender.render) : Spans R where
  toPasses :=
    passes_follows.imp (.of_record fun e f => hFollows (f.follows_record e)) fun _ _ => hFollows
  render := hRender

variable [IsPreorder Frame R] (h : Spans R)

include h

theorem load (html address authorSheet : String) : Leads R (load html address authorSheet) :=
  h.stage _ _ _ ((h.openPage html address authorSheet).bind fun _ => h.loaded)

theorem click (x y : Float) : Leads R (click x y) := by
  refine Leads.bind (.modify h.withoutFocus) fun _ => .get fun f => ?_
  refine Leads.bind (h.passClick _) (fun navigation => ?_) f
  exact h.renderIfNeeded.bind fun _ => .pure navigation

theorem perform (op : Operation) : Leads R op.perform := by
  cases hOp : op.leavesPage with
  | false => exact h.toSpansOnPage.perform hOp
  | true =>
    cases op with
    | load html address authorSheet => exact h.load html address authorSheet
    | click x y => exact (h.click x y).discard
    | _ => cases hOp

/-- A relation that holds across every operation holds across every run. -/
theorem afterAll (f : Frame) (ops : List Operation) : R f (f.afterAll ops) :=
  Frame.afterAll_induction (refl_of R f) (fun op g hg => trans_of R hg (h.perform op g)) ops

end Spans

end PageRender
