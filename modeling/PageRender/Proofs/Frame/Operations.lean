import PageRender.Frame.Interaction
import PageRender.Proofs.Leading

/-! # Runs of a frame

A frame is used by one operation after the other. One that fails leaves the frame to the next as it
is by then.
-/

namespace PageRender

/-- What can be done with a frame from outside. -/
inductive Operation where
  | load (html address authorSheet : String)
  | runScript (source name : String)
  | click (x y : Float)
  | keypress (text : String)
  | backspace
  | fireTimer (timer : Nat)
  | runPendingTasks
  | render
  | markChanged
  | sendEvent (type : String) (node : NodeId)
  | submitForm (form : NodeId)

def Operation.perform : Operation → FrameM Unit
  | load html address authorSheet => PageRender.load html address authorSheet
  | runScript source name => discard (runNamedScript source name)
  | click x y => discard (PageRender.click x y)
  | keypress text => PageRender.keypress text
  | backspace => PageRender.backspace
  | fireTimer timer => modify (·.fire timer)
  | runPendingTasks => discard PageRender.runPendingTasks
  | render => PageRender.render
  | markChanged => modify Frame.markChanged
  | sendEvent type node => discard (PageRender.sendEvent type node)
  | submitForm form => discard (PageRender.submitForm form)

namespace Frame

/-- The frame after an operation, whether that came to its end or failed. -/
def after (f : Frame) (op : Operation) : Frame :=
  stateAfter op.perform f

/-- A frame that nothing has been done with. Its fonts are the same whenever they are asked for. -/
def opened (pageWidth : Option Float) (fonts : FontSource Float) (userSheet : String)
    (tracer : Tracer String) : Frame :=
  { pageWidth, fonts, userSheet, tracer }

/-- The frame after all operations of a run. -/
def afterAll (f : Frame) (ops : List Operation) : Frame :=
  ops.foldl after f

theorem afterAll_cons (f : Frame) (op : Operation) (ops : List Operation) :
    f.afterAll (op :: ops) = (f.after op).afterAll ops :=
  rfl

theorem afterAll_nil (f : Frame) : f.afterAll [] = f :=
  rfl

theorem afterAll_induction {P : Frame → Prop} {f : Frame} (hStart : P f)
    (hStep : ∀ op g, P g → P (g.after op)) (ops : List Operation) : P (f.afterAll ops) := by
  induction ops generalizing f with
  | nil => exact hStart
  | cons op ops ih =>
    rw [afterAll_cons]
    exact ih (hStep op f hStart)

/-- Every step may rely on what all steps keep. -/
theorem afterAll_induction_of_kept {I P : Frame → Prop} {f : Frame} (hKept : ∀ op g, I g → I (g.after op))
    (hFirst : I f) (hStart : P f) (hStep : ∀ op g, I g → P g → P (g.after op)) (ops : List Operation) :
    P (f.afterAll ops) :=
  (afterAll_induction (P := fun g => I g ∧ P g) ⟨hFirst, hStart⟩
    (fun op g h => ⟨hKept op g h.1, hStep op g h.1 h.2⟩) ops).2

end Frame

end PageRender
