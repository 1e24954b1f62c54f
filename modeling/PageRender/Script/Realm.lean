import PageRender.Fault
import PageRender.Journal
import PageRender.Script.Parser
import PageRender.Script.Value

/-!
# Realms

What scripts of one page share: their variables and objects, and the parts of the page that they
see and change. Variables live in scopes; the first scope holds the globals. A scope that a call has
left is kept for the timers that were set in it.
-/

namespace PageRender.Script

structure Timer where
  interval : Float
  callback : Value
  scope : Nat
  cancelled : Bool := false

/-- A callback that waits to be run, and the scope its timer was set in. -/
structure TimerTask where
  callback : Value
  scope : Nat

/-- The parts of a page that scripts see and change. `generation` counts the changes. -/
structure Page where
  dom : Dom := {}
  generation : Nat := 0
  observed : Bool := true
  idMap : OrderedMap String NodeId := .empty
  listeners : OrderedMap (NodeId × String) (List Value) := .empty
  handles : List NodeId := []
  alerts : List String := []
  console : List String := []
  timers : List Timer := []
  liveTimers : Nat := 0
  tasks : List TimerTask := []
  discarded : Bool := false
  dispatches : Nat := 0
  prevented : List Nat := []
  journal : Journal := []

structure ExternalCall where
  name : String
  args : List Value

/-- What the scripts of one page share. `current` is the scope in which names are set and looked up
first, `outer` the one a timer adds. -/
structure Realm where
  scopes : Array Scope := #[.empty]
  current : Nat := 0
  outer : Option Nat := none
  depth : Nat := 0
  closures : Array Closure := #[]
  objects : Array Scope := #[]
  natives : Nat := 0
  externalCalls : List ExternalCall := []
  page : Page := {}

inductive ScriptError where
  | unknownName (name : String)
  | readOfNothing (name base : String)
  | notSettable (name base : String)
  | notCallable (what text : String)
  | callbackNotCallable (text : String)
  | refused (native reason : String)
  | stackExceeded
deriving DecidableEq

def ScriptError.message : ScriptError → String
  | unknownName name => "undefined identifier '" ++ name ++ "'"
  | readOfNothing name base => "cannot read property '" ++ name ++ "' of " ++ base
  | notSettable name base => "cannot set property '" ++ name ++ "' of " ++ base
  | notCallable what text => what ++ " is not a function (got " ++ text ++ ")"
  | callbackNotCallable text => text ++ " is not a function"
  | refused native reason => native ++ ": " ++ reason
  | stackExceeded => "maximum call stack size exceeded"

/-- What ends a script before its time: a program that cannot be read, with the number of the token
at which that was noticed, an error while it runs, or a fault that no script can be blamed for. -/
inductive Interrupt where
  | unreadable (expected : Expected) (found : Found) (position : Nat)
  | error (error : ScriptError)
  | fault (fault : Fault)
deriving DecidableEq

def Interrupt.message? : Interrupt → Option String
  | unreadable expected found _ =>
    some ("expected " ++ expected.text ++ ", found " ++ found.text)
  | error e => some e.message
  | fault _ => none

/-- The fault that an interrupt is to those who run a script and do not forgive it. -/
def Interrupt.toFault (i : Interrupt) : Fault :=
  match i with
  | fault f => f
  | unreadable .. | error _ => .refused (i.message?.getD "")

/-- Evaluation in a realm. The realm outlives an interrupt. -/
abbrev ScriptM := EStateM Interrupt Realm

namespace Realm

def scope (r : Realm) (id : Nat) : Scope :=
  (r.scopes[id]?).getD .empty

def object (r : Realm) (id : Nat) : Scope :=
  (r.objects[id]?).getD .empty

def describeObject (r : Realm) (id : Nat) : String :=
  "JSObject(" ++ Text.quotedList ((r.object id).keys.mergeSort (· ≤ ·)) ++ ")"

def elementLabel (r : Realm) (node : NodeId) : String :=
  "<" ++ (r.page.dom.tag? node).getD "" ++ ">"

def textOf (r : Realm) : Value → String
  | .undefined => "undefined"
  | .null => "null"
  | .boolean b => if b then "true" else "false"
  | .number x => Value.numberText x
  | .string s => s
  | .function _ | .native _ _ => "function"
  | .object id => r.describeObject id
  | .element node => "[object HTMLElement " ++ r.elementLabel node ++ "]"

def describe (r : Realm) : Value → String
  | .undefined => "undefined"
  | .null => "None"
  | .boolean b => if b then "True" else "False"
  | .number x => valueText x
  | .string s => Text.quoted s
  | .function id =>
    "<function " ++ ((r.closures[id]?).bind Closure.name).getD "anonymous" ++ ">"
  | .native _ n => "<native function " ++ n.name ++ ">"
  | .object id => r.describeObject id
  | .element node => "[object HTMLElement " ++ r.elementLabel node ++ "]"

/-- The value of a name: in the current scope, in the outer one, or among the globals. -/
def lookup? (r : Realm) (name : String) : Option Value :=
  ((r.scope r.current).get? name).or
    ((r.outer.bind fun o => (r.scope o).get? name).or ((r.scope 0).get? name))

def setName (r : Realm) (name : String) (v : Value) : Realm :=
  { r with scopes := r.scopes.modify r.current (·.insert name v) }

/-- The realm with one more function, which remembers the current scope. -/
def addClosure (r : Realm) (params : List String) (body : List Stmt) (name : Option String) :
    Realm × Value :=
  let closure : Closure := ⟨params, body, r.scope r.current, name⟩
  ({ r with closures := r.closures.push closure }, .function r.closures.size)

def addObject (r : Realm) (properties : Scope) : Realm × Value :=
  ({ r with objects := r.objects.push properties }, .object r.objects.size)

def addNative (r : Realm) (n : Native) : Realm × Value :=
  ({ r with natives := r.natives + 1 }, .native r.natives n)

def onPage (r : Realm) (f : Page → Page) : Realm :=
  { r with page := f r.page }

end Realm

namespace Page

/-- The page after a change that scripts made to its document. -/
def changed (p : Page) (dom : Dom) : Page :=
  { p with dom, generation := if p.observed then p.generation + 1 else p.generation }

def write (p : Page) (level : Level) (text : String) : Page :=
  { p with journal := p.journal ++ [⟨level, text⟩] }

def withHandle (p : Page) (node : NodeId) : Page :=
  if p.handles.contains node then p else { p with handles := p.handles ++ [node] }

/-- The listeners of an element for a type of event, in the order in which they were added. -/
def listenersOf (p : Page) (node : NodeId) (type : String) : List Value :=
  p.listeners.getD (node, type) []

def addListener (p : Page) (node : NodeId) (type : String) (listener : Value) : Page :=
  { p with listeners := p.listeners.insert (node, type) (p.listenersOf node type ++ [listener]) }

def addTimer (p : Page) (t : Timer) : Page :=
  { p with timers := p.timers ++ [t], liveTimers := p.liveTimers + 1 }

def fire (p : Page) (timer : Nat) : Page :=
  match p.timers[timer]? with
  | some t => { p with tasks := p.tasks ++ [⟨t.callback, t.scope⟩] }
  | none => p

/-- The page after it was left: its live timers are cancelled. -/
def discard (p : Page) : Page :=
  let kept := p.timers.length - p.liveTimers
  let cancelled := (p.timers.drop kept).map fun t => { t with cancelled := true }
  { p with discarded := true, liveTimers := 0, timers := p.timers.take kept ++ cancelled }

end Page

end PageRender.Script
