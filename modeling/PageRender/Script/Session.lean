import PageRender.Script.Evaluation
import PageRender.Script.Lexer

/-!
# The scripts of a page

A page runs all its scripts in one realm: those in its markup, the listeners of its elements and the
callbacks of its timers. One that fails leaves a line in the journal and the realm to the next.

A timer that fires adds a task to a queue. Its callback is called when the task is run, unless the
page has been left by then.
-/

namespace PageRender.Script

def readProgram (source : String) : Except Interrupt Program :=
  match tokenize source with
  | .error f => .error (.fault f)
  | .ok tokens =>
    (parse tokens).mapError fun
      | .unexpected expected found left => .unreadable expected found (tokens.length - left)
      | .statementExpected => .fault .statementExpected
      | .outOfSteps => .fault .outOfSteps

def runSource (source : String) : ScriptM Value := do
  match readProgram source with
  | .error i => throw i
  | .ok program => evaluate program

def newHost (natives : List Native) : ScriptM Value := do
  let properties ← natives.mapM fun n => do return (n.name, ← newNative n)
  let (r, v) := (← get).addObject (.ofList properties)
  set r
  return v

def setPageNames : ScriptM Unit := do
  let window ← newHost [.alert, .setTimeout]
  let document ← newHost [.getElementById, .querySelector]
  let console ← newHost [.log]
  let names : List (String × Value) := [
    ("document", document), ("window", window), ("console", console),
    ("alert", ← property window "alert"), ("setTimeout", ← property window "setTimeout")]
  for (name, value) in names do
    modify (·.setName name value)

namespace Realm

def forPage (page : Page) : Realm :=
  match setPageNames { page } with
  | .ok _ r => r
  | .error _ r => r

def globals (r : Realm) : Scope :=
  r.scope 0

/-- The realm with its ids looked up anew in the document. -/
def refreshIds (r : Realm) : Realm :=
  r.onPage fun p => { p with idMap := p.dom.idMap 0 }

end Realm

/-- What a page asks of its realm. Only a fault can stop it. -/
abbrev HostM := EStateM Fault Realm

/-- Turns what a script can be blamed for into a line of the journal and a value of its own. -/
def forgiving {α : Type} (context : String) (otherwise : α) (body : ScriptM α) : HostM α :=
  fun r =>
    match body r with
    | .ok v s => .ok v s
    | .error i s =>
      match i.message? with
      | some text => .ok otherwise (s.onPage (·.write .warning (context ++ text)))
      | none => .error i.toFault s

/-- Runs a script. One that fails has the value null. -/
def runScript (source name : String) : HostM Value :=
  forgiving ("Script " ++ name ++ " error: ") .null (runSource source)

/-- Tells the listeners of an element about an event, and whether one of them prevented it. -/
def dispatchEvent (node : NodeId) (type : String) : HostM Bool :=
  forgiving "" false (dispatch stepSupply node type)

def runCallback (t : TimerTask) : HostM Unit := do
  if (← get).page.discarded then return
  else
    forgiving "setTimeout callback failed: " ()
      (discard (callValue stepSupply t.callback [] (some t.scope)))

/-- Runs the first task of the queue, and tells whether there was one. -/
def runTask : HostM Bool := do
  match (← get).page.tasks with
  | [] => return false
  | t :: ts => do
    modify (·.onPage fun p => { p with tasks := ts })
    runCallback t
    return true

def runTasks : Nat → HostM Nat
  | 0 => return 0
  | n + 1 => do
    if ← runTask then return (← runTasks n) + 1
    else return 0

/-- Runs all tasks of the queue and counts them. To run a task adds none. -/
def runPending : HostM Nat := do
  runTasks (← get).page.tasks.length

end PageRender.Script
