/-!
# Traces

A trace is a record of when the stages of the program begin and end. Events are recorded only
between the start of a trace and its end.
-/

namespace PageRender

inductive TracePhase where
  | start
  | stop
  | instant
deriving DecidableEq

/-- An event with arguments of type `α`. -/
structure TraceEvent (α : Type) where
  phase : TracePhase
  name : String
  category : String
  args : List (String × α) := []
deriving DecidableEq

/-- A trace that may be going on, and the events recorded since it was started. -/
structure Tracer (α : Type) where
  enabled : Bool := false
  events : List (TraceEvent α) := []

/-- An entry of a finished trace: the name of the program, or an event. -/
inductive TraceEntry (α : Type) where
  | program (name : String)
  | event (event : TraceEvent α)

def stageCategory : String := "function"

def instantCategory : String := "instant"

def TracePhase.letter : TracePhase → String
  | start => "B"
  | stop => "E"
  | instant => "i"

namespace TraceEntry

variable {α : Type}

def letter : TraceEntry α → String
  | program _ => "M"
  | event e => e.phase.letter

def name : TraceEntry α → String
  | program _ => "process_name"
  | event e => e.name

def category? : TraceEntry α → Option String
  | program _ => none
  | event e => some e.category

/-- The reach of an entry, which only instants have: the thread. -/
def scope? : TraceEntry α → Option String
  | program _ => none
  | event e => if e.phase = .instant then some "t" else none

end TraceEntry

namespace Tracer

variable {α : Type}

def begin : Tracer α :=
  { enabled := true }

def record (t : Tracer α) (e : TraceEvent α) : Tracer α :=
  if t.enabled then { t with events := t.events ++ [e] } else t

def stopped (t : Tracer α) : Tracer α :=
  { t with enabled := false }

def programName : String := "render-pipeline"

def entries? (t : Tracer α) : Option (List (TraceEntry α)) :=
  if t.enabled then some (.program programName :: t.events.map .event) else none

end Tracer

/-- Does something as a stage of a trace, which stops however it ends. `record` says how an event
gets into the trace. -/
def withStage {ε σ α β : Type} (record : TraceEvent α → σ → σ) (name category : String)
    (args : List (String × α)) (body : EStateM ε σ β) : EStateM ε σ β :=
  fun s =>
    match body (record ⟨.start, name, category, args⟩ s) with
    | .ok v s => .ok v (record ⟨.stop, name, category, []⟩ s)
    | .error e s => .error e (record ⟨.stop, name, category, []⟩ s)

end PageRender
