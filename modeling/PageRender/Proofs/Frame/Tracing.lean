import Mathlib.Data.List.Forall2
import Mathlib.Logic.Function.Basic
import PageRender.Proofs.Frame.Leaving

/-! # Traces of frames

However the stages of an operation end, each of them is ended inside the stage that it was begun in. The main
statement is about all frames that are used on a thread, with one trace: between its start and its end, what is
recorded are the stages of the operations, one inside or behind the other, and nothing is recorded before or
afterwards.
-/

namespace PageRender

open Script

/-! ## Balanced stages -/

section

variable {α : Type}

/-- The beginnings and ends of stages among events. -/
def brackets (es : List (TraceEvent α)) : List (TraceEvent α) :=
  es.filter (·.phase ≠ .instant)

/-- The events of a stage with what is recorded inside it. -/
def stageEvents (name category : String) (args : List (String × α)) (inner : List (TraceEvent α)) :
    List (TraceEvent α) :=
  ⟨.start, name, category, args⟩ :: inner ++ [⟨.stop, name, category, []⟩]

/-- Every beginning of a stage is followed by its end, under the same name and in the same category, and what is
between them is balanced, as is what comes behind. -/
inductive Balanced : List (TraceEvent α) → Prop
  | nil : Balanced []
  | stage {inner rest : List (TraceEvent α)} (name category : String) (args : List (String × α))
      (hInner : Balanced inner) (hRest : Balanced rest) :
      Balanced (⟨.start, name, category, args⟩ :: inner ++ ⟨.stop, name, category, []⟩ :: rest)

theorem Balanced.append {xs ys : List (TraceEvent α)} (h : Balanced xs) (k : Balanced ys) :
    Balanced (xs ++ ys) := by
  induction h with
  | nil => exact k
  | stage name category args hInner _ _ ih =>
    rw [List.append_assoc, List.cons_append]
    exact .stage name category args hInner ih

theorem brackets_append (xs ys : List (TraceEvent α)) : brackets (xs ++ ys) = brackets xs ++ brackets ys :=
  List.filter_append xs ys

theorem balanced_stageEvents {inner : List (TraceEvent α)} (h : Balanced (brackets inner))
    (name category : String) (args : List (String × α)) :
    Balanced (brackets (stageEvents name category args inner)) := by
  rw [stageEvents, brackets_append]
  exact .stage name category args h .nil

theorem balanced_stageEvents_nil (name category : String) (args : List (String × α)) :
    Balanced (brackets (stageEvents name category args [])) := by
  have hNothing : Balanced (brackets ([] : List (TraceEvent α))) := .nil
  exact balanced_stageEvents hNothing name category args

theorem balanced_brackets_append {xs ys : List (TraceEvent α)} (h : Balanced (brackets xs))
    (k : Balanced (brackets ys)) : Balanced (brackets (xs ++ ys)) := by
  rw [brackets_append]
  exact h.append k

end

/-! ## Recording -/

namespace Tracer

variable {α : Type}

def recordAll (t : Tracer α) (es : List (TraceEvent α)) : Tracer α :=
  es.foldl record t

theorem recordAll_append (t : Tracer α) (xs ys : List (TraceEvent α)) :
    t.recordAll (xs ++ ys) = (t.recordAll xs).recordAll ys :=
  List.foldl_append

theorem recordAll_of_disabled {t : Tracer α} (h : t.enabled = false) (es : List (TraceEvent α)) :
    t.recordAll es = t := by
  induction es with
  | nil => rfl
  | cons e es ih =>
    have hFirst : t.record e = t := by rw [record, h]; rfl
    rw [recordAll, List.foldl_cons, hFirst]
    exact ih

theorem recordAll_of_enabled {t : Tracer α} (h : t.enabled = true) (es : List (TraceEvent α)) :
    t.recordAll es = { t with events := t.events ++ es } := by
  induction es generalizing t with
  | nil => rw [List.append_nil]; rfl
  | cons e es ih =>
    have hFirst : t.record e = { t with events := t.events ++ [e] } := if_pos h
    have hRest := ih (t := { t with events := t.events ++ [e] }) h
    rw [recordAll, List.foldl_cons, hFirst]
    rwa [List.append_assoc] at hRest

theorem recordAll_stageEvents (t : Tracer α) (name category : String) (args : List (String × α))
    (inner : List (TraceEvent α)) :
    t.recordAll (stageEvents name category args inner) =
      ((t.record ⟨.start, name, category, args⟩).recordAll inner).record ⟨.stop, name, category, []⟩ :=
  recordAll_append t _ _

end Tracer

namespace Frame

/-- What was recorded between the first frame and the second is balanced. -/
def Traces (f g : Frame) : Prop :=
  ∃ es, Balanced (brackets es) ∧ g.tracer = f.tracer.recordAll es

theorem traces_of_eq {f g : Frame} (h : g.tracer = f.tracer) : f.Traces g :=
  ⟨[], .nil, h⟩

instance : IsPreorder Frame Traces where
  refl _ := traces_of_eq rfl
  trans f g h := by
    rintro ⟨xs, hFirst, hTracer⟩ ⟨ys, hRest, hTracer'⟩
    refine ⟨xs ++ ys, balanced_brackets_append hFirst hRest, ?_⟩
    rw [Tracer.recordAll_append, ← hTracer, hTracer']

end Frame

/-! ## Stages and operations -/

/-- A stage that is traced is ended behind all that is recorded in it, however it ends. -/
theorem exists_tracer_traced {α : Type} {body : FrameM α} (hBody : Leads Frame.Traces body)
    (name category : String) (args : List (String × String)) (f : Frame) :
    ∃ inner, Balanced (brackets inner) ∧ (stateAfter (traced name category args body) f).tracer =
      f.tracer.recordAll (stageEvents name category args inner) := by
  obtain ⟨inner, hInner, hTracer⟩ := hBody (f.record ⟨.start, name, category, args⟩)
  refine ⟨inner, hInner, ?_⟩
  rw [stateAfter_traced, Tracer.recordAll_stageEvents]
  exact congrArg (Tracer.record · _) hTracer

theorem passesTrace_traces : PassesTrace Frame.Traces where
  stage name category args hBody f := by
    obtain ⟨inner, hInner, hTracer⟩ := exists_tracer_traced hBody name category args f
    exact ⟨_, balanced_stageEvents hInner name category args, hTracer⟩
  instant name category args _ := ⟨[⟨.instant, name, category, args⟩], .nil, rfl⟩

/-- Nothing is recorded while scripts, listeners and callbacks run. -/
theorem tracer_inCurrentRealm {α : Type} (body : HostM α) (f : Frame) :
    (stateAfter (inCurrentRealm body) f).tracer = f.tracer := by
  rw [inCurrentRealm, stateAfter_inRealm]

theorem leads_inCurrentRealm_traces {α : Type} (body : HostM α) : Leads Frame.Traces (inCurrentRealm body) :=
  fun f => Frame.traces_of_eq (tracer_inCurrentRealm body f)

theorem leads_openPage_traces (html address authorSheet : String) :
    Leads Frame.Traces (openPage html address authorSheet) := by
  have hReplace : ∀ (f : Frame) document, (f.replacePage document).tracer = f.tracer := by
    intro f document
    unfold Frame.replacePage
    rfl
  exact leads_openPage_of passesTrace_traces (fun _ _ _ => Frame.traces_of_eq rfl)
    (fun _ _ _ => Frame.traces_of_eq rfl) (fun f document => Frame.traces_of_eq (hReplace f document))
    html address authorSheet

/-- The styles are a stage of their own. Without a page it fails, and is ended all the same. -/
theorem tracer_restyle (f : Frame) :
    (stateAfter restyle f).tracer = f.tracer.recordAll (stageEvents "style" "style" [] []) := by
  rw [restyle, stateAfter_traced, Tracer.recordAll_stageEvents]
  refine congrArg (Tracer.record · _) ?_
  rw [stateAfter_get]
  split
  · rw [stateAfter_bind (writeSheetFindings_eq _ _)]
    rfl
  · rfl

theorem leads_draw_traces (root : PageTree) : Leads Frame.Traces (draw root) := by
  refine Leads.bind (.modify fun _ => Frame.traces_of_eq rfl) fun _ => .get fun f => ?_
  refine Leads.bind (passesTrace_traces.stage _ _ _ (.pure _)) (fun laid => ?_) f
  split
  · exact .pure none
  · refine Leads.bind (passesTrace_traces.stage _ _ _ (.pure _)) fun painted => ?_
    split <;> exact .pure _

/-- A drawing begins with the styles. -/
theorem exists_tracer_render (f : Frame) : ∃ rest, Balanced (brackets rest) ∧
    (stateAfter render f).tracer = f.tracer.recordAll (stageEvents "style" "style" [] [] ++ rest) := by
  have hStyle := tracer_restyle f
  obtain ⟨behind, hRender, hBehind⟩ : ∃ behind : PageTree → FrameM Unit, render = restyle >>= behind ∧
      ∀ root, Leads Frame.Traces (behind root) := by
    refine ⟨_, rfl, fun root => (leads_draw_traces root).bind fun drawing => ?_⟩
    cases drawing <;> exact fun _ => Frame.traces_of_eq rfl
  cases hResult : restyle f with
  | ok root g =>
    rw [stateAfter_of_ok hResult] at hStyle
    obtain ⟨rest, hBalanced, hTracer⟩ := hBehind root g
    refine ⟨rest, hBalanced, ?_⟩
    rw [hRender, stateAfter_bind hResult, Tracer.recordAll_append, ← hStyle]
    exact hTracer
  | error e g =>
    rw [stateAfter_of_error hResult] at hStyle
    refine ⟨[], .nil, ?_⟩
    rw [hRender, stateAfter_of_error (bind_error hResult _), List.append_nil, hStyle]

theorem leads_render_traces : Leads Frame.Traces render := by
  intro f
  obtain ⟨rest, hRest, hTracer⟩ := exists_tracer_render f
  exact ⟨_, balanced_brackets_append (balanced_stageEvents_nil _ _ _) hRest, hTracer⟩

theorem spans_traces : Spans Frame.Traces where
  toPassesTrace := passesTrace_traces
  write _ _ _ := Frame.traces_of_eq rfl
  scripts _ _ := Frame.traces_of_eq rfl
  markChanged _ := Frame.traces_of_eq rfl
  withoutFocus f := by
    rw [Frame.withoutFocus]
    split <;> exact Frame.traces_of_eq rfl
  focusOn _ _ := Frame.traces_of_eq rfl
  setValue _ _ _ := Frame.traces_of_eq rfl
  fire f timer := by
    rw [Frame.fire]
    split <;> exact Frame.traces_of_eq rfl
  openPage := leads_openPage_traces
  runScript _ _ := leads_inCurrentRealm_traces _
  dispatchEvent _ _ := leads_inCurrentRealm_traces _
  runPending := leads_inCurrentRealm_traces _
  render := leads_render_traces

/-- What an operation records. A load is a single stage; a script that is run by itself is one too, unless there is
no page to run it on; a drawing begins with the styles. -/
def Operation.TracedAs : Operation → List (TraceEvent String) → Prop
  | load .., es => ∃ inner, Balanced (brackets inner) ∧ es = stageEvents "frame_load" "load" [] inner
  | runScript _ name, es => es = [] ∨ es = stageEvents "script" "script" [("script", name)] []
  | render, es => ∃ rest, Balanced (brackets rest) ∧ es = stageEvents "style" "style" [] [] ++ rest
  | _, es => Balanced (brackets es)

theorem Operation.TracedAs.balanced {op : Operation} {es : List (TraceEvent String)} (h : op.TracedAs es) :
    Balanced (brackets es) := by
  cases op with
  | load html address authorSheet =>
    obtain ⟨inner, hInner, rfl⟩ := h
    exact balanced_stageEvents hInner _ _ _
  | runScript source name =>
    obtain rfl | rfl := h
    · exact .nil
    · exact balanced_stageEvents_nil _ _ _
  | render =>
    obtain ⟨rest, hRest, rfl⟩ := h
    exact balanced_brackets_append (balanced_stageEvents_nil _ _ _) hRest
  | _ => exact h

theorem tracer_runNamedScript (source name : String) (f : Frame) :
    ∃ es, (Operation.runScript source name).TracedAs es ∧
      (stateAfter (runNamedScript source name) f).tracer = f.tracer.recordAll es := by
  rw [runNamedScript, stateAfter_get]
  split
  · refine ⟨_, .inr rfl, ?_⟩
    rw [stateAfter_traced, Tracer.recordAll_stageEvents]
    exact congrArg (Tracer.record · _) (tracer_inCurrentRealm _ _)
  · exact ⟨[], .inl rfl, rfl⟩

/-- However an operation ends, what it records is what its stages are. -/
theorem Operation.exists_tracedAs (op : Operation) (f : Frame) :
    ∃ es, op.TracedAs es ∧ (f.after op).tracer = f.tracer.recordAll es := by
  cases op with
  | load html address authorSheet =>
    have hBody := (spans_traces.openPage html address authorSheet).bind fun _ => spans_traces.loaded
    obtain ⟨inner, hInner, hTracer⟩ := exists_tracer_traced hBody "frame_load" "load" [] f
    exact ⟨_, ⟨inner, hInner, rfl⟩, hTracer⟩
  | runScript source name =>
    obtain ⟨es, hTraced, hTracer⟩ := tracer_runNamedScript source name f
    have hAfter : f.after (.runScript source name) = stateAfter (runNamedScript source name) f :=
      stateAfter_discard _ f
    exact ⟨es, hTraced, hAfter ▸ hTracer⟩
  | render =>
    obtain ⟨rest, hRest, hTracer⟩ := exists_tracer_render f
    exact ⟨_, ⟨rest, hRest, rfl⟩, hTracer⟩
  | click x y => exact spans_traces.perform (.click x y) f
  | keypress text => exact spans_traces.perform (.keypress text) f
  | backspace => exact spans_traces.perform .backspace f
  | fireTimer timer => exact spans_traces.perform (.fireTimer timer) f
  | runPendingTasks => exact spans_traces.perform .runPendingTasks f
  | markChanged => exact spans_traces.perform .markChanged f
  | sendEvent type node => exact spans_traces.perform (.sendEvent type node) f
  | submitForm form => exact spans_traces.perform (.submitForm form) f

/-! ## Frames on a thread -/

/-- The frames that are used on a thread, by number. They share one trace. -/
structure Thread where
  tracer : Tracer String := {}
  frames : Nat → Frame

/-- What is done with the frames of a thread: one is put in its place, new or set up otherwise than before, or one
is used. -/
inductive Use where
  | setUp (number : Nat) (frame : Frame)
  | operate (number : Nat) (op : Operation)

def Use.TracedAs : Use → List (TraceEvent String) → Prop
  | setUp .., es => es = []
  | operate _ op, es => op.TracedAs es

theorem Use.TracedAs.balanced {u : Use} {es : List (TraceEvent String)} (h : u.TracedAs es) :
    Balanced (brackets es) := by
  cases u with
  | setUp number frame =>
    obtain rfl : es = [] := h
    exact .nil
  | operate number op =>
    have hOperation : op.TracedAs es := h
    exact hOperation.balanced

namespace Thread

/-- The thread after one use of its frames, whether that came to its end or failed. -/
def after (t : Thread) : Use → Thread
  | .setUp number frame => { t with frames := Function.update t.frames number frame }
  | .operate number op =>
    let f := { t.frames number with tracer := t.tracer }.after op
    { tracer := f.tracer, frames := Function.update t.frames number f }

def afterAll (t : Thread) (uses : List Use) : Thread :=
  uses.foldl after t

def start (t : Thread) : Thread :=
  { t with tracer := .begin }

def finish (t : Thread) : Thread :=
  { t with tracer := t.tracer.stopped }

theorem exists_tracedAs (t : Thread) (u : Use) :
    ∃ es, u.TracedAs es ∧ (t.after u).tracer = t.tracer.recordAll es := by
  cases u with
  | setUp number frame => exact ⟨[], rfl, rfl⟩
  | operate number op => exact op.exists_tracedAs { t.frames number with tracer := t.tracer }

theorem exists_parts (t : Thread) (uses : List Use) : ∃ parts,
    List.Forall₂ Use.TracedAs uses parts ∧
      (t.afterAll uses).tracer = t.tracer.recordAll parts.flatten := by
  induction uses generalizing t with
  | nil => exact ⟨[], .nil, rfl⟩
  | cons u uses ih =>
    obtain ⟨es, hFirst, hTracer⟩ := t.exists_tracedAs u
    obtain ⟨parts, hParts, hRest⟩ := ih (t.after u)
    refine ⟨es :: parts, .cons hFirst hParts, ?_⟩
    rw [List.flatten_cons, Tracer.recordAll_append, ← hTracer]
    exact hRest

theorem balanced_flatten {uses : List Use} {parts : List (List (TraceEvent String))}
    (h : List.Forall₂ Use.TracedAs uses parts) : Balanced (brackets parts.flatten) := by
  induction h with
  | nil => exact .nil
  | cons hFirst _ ih => exact balanced_brackets_append hFirst.balanced ih

theorem tracer_afterAll_of_disabled {t : Thread} (h : t.tracer.enabled = false) (uses : List Use) :
    (t.afterAll uses).tracer = t.tracer := by
  obtain ⟨parts, -, hTracer⟩ := t.exists_parts uses
  rw [hTracer, Tracer.recordAll_of_disabled h]

/-- Before a trace is started nothing is recorded, whatever is done with frames. From its start on it consists of
what the uses of the frames record, one behind the other, and these are balanced, whether the uses come to their
end or fail. Ending it yields all of this and nothing else, and nothing is recorded from then on. -/
theorem balanced_between (frames : Nat → Frame) (before : List Use) (t : Thread) (during after : List Use) :
    (Thread.afterAll { frames } before).tracer = {} ∧
    let traced := t.start.afterAll during
    (∃ parts, List.Forall₂ Use.TracedAs during parts ∧
      traced.tracer.events = parts.flatten) ∧
    Balanced (brackets traced.tracer.events) ∧
    traced.tracer.entries? = some (.program Tracer.programName :: traced.tracer.events.map .event) ∧
    (traced.finish.afterAll after).tracer = { enabled := false, events := traced.tracer.events } := by
  refine ⟨tracer_afterAll_of_disabled rfl before, ?_⟩
  intro traced
  obtain ⟨parts, hParts, hTracer⟩ := t.start.exists_parts during
  have hTraced : traced.tracer = { enabled := true, events := parts.flatten } :=
    hTracer.trans (Tracer.recordAll_of_enabled rfl _)
  have hEvents : traced.tracer.events = parts.flatten := by rw [hTraced]
  refine ⟨⟨parts, hParts, hEvents⟩, ?_, ?_, tracer_afterAll_of_disabled rfl after⟩
  · rw [hEvents]
    exact balanced_flatten hParts
  · rw [Tracer.entries?, hTraced]
    rfl

end Thread

end PageRender
