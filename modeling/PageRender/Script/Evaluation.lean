import PageRender.Decimal.Integer
import PageRender.Markup.Reader
import PageRender.Script.Realm
import PageRender.Text.Unicode.UpperCase

/-!
# Evaluation

Statements and expressions are evaluated in a realm. A call sets names in a scope of its own, which
starts as the snapshot of the function with its parameters, and the scopes of the caller are back in
place however the call ends.

Evaluation has a supply of steps, of which every loop round and every level of nesting takes one. To
run out of it is a fault of its own and not an error of the script.
-/

namespace PageRender.Script

/-- How a statement ends: with a value, or by returning one from the function around it. -/
inductive Completion where
  | value (value : Value)
  | returned (value : Value)

namespace Completion

def result : Completion → Value
  | returned v => v
  | value _ => .undefined

def programResult : Completion → Value
  | returned v => v
  | value v => v

end Completion

def raise {α : Type} (e : ScriptError) : ScriptM α :=
  throw (.error e)

def onPage (f : Page → Page) : ScriptM Unit :=
  modify (·.onPage f)

def textOf (v : Value) : ScriptM String :=
  return (← get).textOf v

def readName (name : String) : ScriptM Value := do
  match (← get).lookup? name with
  | some v => return v
  | none => raise (.unknownName name)

def newNative (n : Native) : ScriptM Value := do
  let (r, v) := (← get).addNative n
  set r
  return v

def binaryValue (op : BinaryOp) (a b : Value) : ScriptM Value := do
  match op with
  | .equal => return .boolean (a.looselyEquals b)
  | .notEqual => return .boolean (!a.looselyEquals b)
  | .add =>
    match a, b with
    | .string s, _ => return .string (s ++ (← textOf b))
    | _, .string t => return .string ((← textOf a) ++ t)
    | _, _ => return .number (a.toNumber + b.toNumber)
  | .subtract => return .number (a.toNumber - b.toNumber)
  | .multiply => return .number (a.toNumber * b.toNumber)
  | .divide => return .number (a.toNumber / b.toNumber)
  | .less =>
    match a, b with
    | .string s, .string t => return .boolean (s < t)
    | _, _ => return .boolean (a.toNumber < b.toNumber)
  | .greater =>
    match a, b with
    | .string s, .string t => return .boolean (t < s)
    | _, _ => return .boolean (b.toNumber < a.toNumber)

def unaryValue (op : UnaryOp) (v : Value) : Value :=
  match op with
  | .not => .boolean (!v.isTruthy)
  | .negate => .number (-v.toNumber)

def updated (op : UpdateOp) (x : Float) : Float :=
  match op with
  | .increment => x + 1
  | .decrement => x - 1

/-- A property of a text: its length, or the character at a position written in digits. -/
def stringProperty (s name : String) : ScriptM Value := do
  if name == "length" then return .number (Float.ofNat s.length)
  else if isDigits name then
    match readInteger name with
    | .error f => throw (.fault f)
    | .ok i =>
      match s.toList[i.toNat]? with
      | some c => return .string (String.singleton c)
      | none => return .undefined
  else return .undefined

def elementProperty (node : NodeId) (name : String) : ScriptM Value := do
  let dom := (← get).page.dom
  match name with
  | "tagName" => return .string (Text.upperCase ((dom.tag? node).getD ""))
  | "id" => return .string ((dom.attribute? node "id").getD "")
  | "value" => return .string ((dom.attribute? node "value").getD "")
  | "textContent" => return .string (dom.tree node).textContent
  | "innerHTML" => return .string (dom.tree node).innerMarkup
  | "getAttribute" => newNative (.getAttribute node)
  | "setAttribute" => newNative (.setAttribute node)
  | "addEventListener" => newNative (.addEventListener node)
  | "click" => newNative (.click node)
  | _ => return .undefined

def property (base : Value) (name : String) : ScriptM Value := do
  match base with
  | .undefined | .null => raise (.readOfNothing name (← textOf base))
  | .object id => return ((← get).object id).getD name .undefined
  | .string s => stringProperty s name
  | .element node => elementProperty node name
  | _ => return .undefined

def setElementProperty (node : NodeId) (name : String) (v : Value) : ScriptM Unit := do
  let dom := (← get).page.dom
  match name with
  | "textContent" =>
    let text ← textOf v
    onPage (·.changed (dom.replaceChildren node [.text () text]))
  | "innerHTML" =>
    let text ← textOf v
    onPage (·.changed (dom.replaceChildren node (Markup.parseFragment text)))
  | "id" | "value" =>
    let text ← textOf v
    onPage (·.changed (dom.setAttribute node name text))
  | _ => raise (.notSettable name "element")

def setProperty (base : Value) (name : String) (v : Value) : ScriptM Unit := do
  match base with
  | .object id => modify fun r => { r with objects := r.objects.modify id (·.insert name v) }
  | .element node => setElementProperty node name v
  | _ => raise (.notSettable name (← textOf base))

def calleeText : Expr → String
  | .name n => n
  | .member o n => calleeText o ++ "." ++ n
  | _ => "expression"

def Arity.adjust (a : Arity) (args : List Value) : List Value :=
  let filled := args ++ List.replicate (a.fixed - args.length) .undefined
  if a.variadic then filled else filled.take a.fixed

def elementById (id : String) : ScriptM Value := do
  match (← get).page.idMap.get? id with
  | some node => do
    onPage (·.withHandle node)
    return .element node
  | none => return .null

def writeConsole (text : String) : ScriptM Unit :=
  onPage fun p => { p with console := p.console ++ [text] }.write .info ("console.log: " ++ text)

def showAlert (text : String) : ScriptM Unit :=
  onPage fun p => { p with alerts := p.alerts ++ [text] }.write .info ("Alert: " ++ text)

def timerInterval (delay : Value) : Float :=
  Scalar.max 0 delay.toNumber / 1000

def startTimer (callback delay : Value) : ScriptM Unit :=
  modify fun r => r.onPage (·.addTimer ⟨timerInterval delay, callback, r.current, false⟩)

/-- Calls a native that runs no script. `none` is answered for the one that does. -/
def callHost (n : Native) (args : List Value) : ScriptM (Option Value) := do
  let arg (i : Nat) : Value := (args[i]?).getD .undefined
  match n with
  | .external name _ reply => do
    modify fun r => { r with externalCalls := r.externalCalls ++ [⟨name, args⟩] }
    match reply with
    | .firstArgument => return some (arg 0)
    | .refusal reason => raise (.refused name reason)
  | .getElementById => return some (← elementById (← textOf (arg 0)))
  | .querySelector =>
    match (Text.trimmed (← textOf (arg 0))).toList with
    | '#' :: id => return some (← elementById (String.ofList id))
    | _ => return some .null
  | .alert => do
    showAlert (← textOf (arg 0))
    return some .undefined
  | .setTimeout => do
    startTimer (arg 0) (arg 1)
    return some .undefined
  | .log => do
    writeConsole (" ".intercalate (← args.mapM textOf))
    return some .undefined
  | .getAttribute node => do
    let name ← textOf (arg 0)
    return some (((← get).page.dom.attribute? node name).elim .null .string)
  | .setAttribute node => do
    let name ← textOf (arg 0)
    let value ← textOf (arg 1)
    onPage fun p => p.changed (p.dom.setAttribute node name value)
    return some .null
  | .addEventListener node => do
    if (arg 1).isCallable then
      let type ← textOf (arg 0)
      onPage (·.addListener node type (arg 1))
    return some .null
  | .preventDefault dispatch => do
    onPage fun p => { p with prevented := dispatch :: p.prevented }
    return some .null
  | .click _ => return none

def maxDepth : Nat := 100

def Closure.scope (c : Closure) (args : List Value) : Scope :=
  (c.params.zipIdx).foldl (fun s (p, i) => s.insert p ((args[i]?).getD .undefined)) c.snapshot

/-- Evaluates a body in a scope of its own, and puts the scopes of the caller back. -/
def inScope {α : Type} (scope : Scope) (outer : Option Nat) (body : ScriptM α) : ScriptM α :=
  fun r =>
    let inside := {
      r with
      scopes := r.scopes.push scope
      current := r.scopes.size
      outer
      depth := r.depth + 1 }
    let back (s : Realm) := { s with current := r.current, outer := r.outer, depth := r.depth }
    match body inside with
    | .ok v s => .ok v (back s)
    | .error e s => .error e (back s)

def logErrors (context : Realm → String) (body : ScriptM Unit) : ScriptM Unit :=
  fun r =>
    match body r with
    | .ok v s => .ok v s
    | .error i s =>
      match i.message? with
      | some text => .ok () (s.onPage (·.write .warning (context s ++ text)))
      | none => .error i s

def newEvent (node : NodeId) (type : String) : ScriptM (Value × Nat) := do
  let dispatch := (← get).page.dispatches
  onPage fun p => { p with dispatches := dispatch + 1 }.withHandle node
  let prevent ← newNative (.preventDefault dispatch)
  let properties : Scope :=
    .ofList [("type", .string type), ("target", .element node), ("preventDefault", prevent)]
  let (r, event) := (← get).addObject properties
  set r
  return (event, dispatch)

def listenerContext (node : NodeId) (type : String) (r : Realm) : String :=
  "Listener for " ++ type ++ " on " ++ r.elementLabel node ++ " failed: "

mutual

def exec : Nat → Stmt → ScriptM Completion
  | 0, _ => throw (.fault .outOfSteps)
  | n + 1, s =>
    match s with
    | .declare _ name init => do
      let v ← match init with
        | some e => eval n e
        | none => pure .undefined
      modify (·.setName name v)
      return .value v
    | .function name params body => do
      let (r, f) := (← get).addClosure params body (some name)
      set (r.setName name f)
      return .value .undefined
    | .ifElse test consequent alternate => do
      if (← eval n test).isTruthy then exec n consequent
      else
        match alternate with
        | some s => exec n s
        | none => return .value .undefined
    | .forLoop init test update body => do
      match init with
      | some s => discard (exec n s)
      | none => pure ()
      loop n test update body
    | .whileLoop test body => loop n (some test) none body
    | .returns argument => do
      match argument with
      | some e => return .returned (← eval n e)
      | none => return .returned .undefined
    | .block body => execAll n .undefined body
    | .expression e => return .value (← eval n e)

/-- Evaluates statements in order; the value is that of the last one. -/
def execAll : Nat → Value → List Stmt → ScriptM Completion
  | 0, _, _ => throw (.fault .outOfSteps)
  | _ + 1, last, [] => return .value last
  | n + 1, _, s :: ss => do
    match ← exec n s with
    | .returned v => return .returned v
    | .value v => execAll n v ss

def loop : Nat → Option Expr → Option Expr → Stmt → ScriptM Completion
  | 0, _, _, _ => throw (.fault .outOfSteps)
  | n + 1, test, update, body => do
    let holds ← match test with
      | some e => do pure (← eval n e).isTruthy
      | none => pure true
    if holds then
      match ← exec n body with
      | .returned v => return .returned v
      | .value _ => do
        match update with
        | some e => discard (eval n e)
        | none => pure ()
        loop n test update body
    else return .value .undefined

def eval : Nat → Expr → ScriptM Value
  | 0, _ => throw (.fault .outOfSteps)
  | n + 1, e =>
    match e with
    | .literal l => return .ofLiteral l
    | .name name => readName name
    | .member object name => do property (← eval n object) name
    | .index object key => do
      let base ← eval n object
      property base (← textOf (← eval n key))
    | .call callee args => do
      let f ← eval n callee
      let args ← evalAll n args
      if f.isCallable then callValue n f args none
      else raise (.notCallable (calleeText callee) (← textOf f))
    | .function params body => do
      let (r, f) := (← get).addClosure params body none
      set r
      return f
    | .unary op operand => return unaryValue op (← eval n operand)
    | .binary op left right => do
      let a ← eval n left
      binaryValue op a (← eval n right)
    | .update op target before => do
      let old := (← eval n target.toExpr).toNumber
      store n target (.number (updated op old))
      return .number (if before then updated op old else old)
    | .assign target value => do
      let v ← eval n value
      store n target v
      return v

def evalAll : Nat → List Expr → ScriptM (List Value)
  | 0, _ => throw (.fault .outOfSteps)
  | _ + 1, [] => return []
  | n + 1, e :: es => do
    let v ← eval n e
    return v :: (← evalAll n es)

def store : Nat → Target → Value → ScriptM Unit
  | 0, _, _ => throw (.fault .outOfSteps)
  | n + 1, target, v =>
    match target with
    | .name name => modify (·.setName name v)
    | .member object name => do setProperty (← eval n object) name v
    | .index object key => do
      let base ← eval n object
      setProperty base (← textOf (← eval n key)) v

/-- Calls a value. Names may also be looked up in the scope a timer was set in. -/
def callValue : Nat → Value → List Value → Option Nat → ScriptM Value
  | 0, _, _, _ => throw (.fault .outOfSteps)
  | n + 1, f, args, timerScope =>
    match f with
    | .native _ native => do
      match ← callHost native (native.arity.adjust args) with
      | some v => return v
      | none =>
        match native with
        | .click node => do
          discard (dispatch n node "click")
          return .null
        | _ => return .null
    | .function id => do
      let r ← get
      match r.closures[id]? with
      | none => return .undefined
      | some c =>
        if maxDepth ≤ r.depth then raise .stackExceeded
        else do
          let body := inScope (c.scope args) (timerScope.or r.outer) (execAll n .undefined c.body)
          return (← body).result
    | _ => do raise (.callbackNotCallable (← textOf f))

/-- Tells the listeners of an element about an event, and whether one of them prevented it. -/
def dispatch : Nat → NodeId → String → ScriptM Bool
  | 0, _, _ => throw (.fault .outOfSteps)
  | n + 1, node, type => do
    match (← get).page.listenersOf node type with
    | [] => return false
    | listeners => do
      let (event, number) ← newEvent node type
      callListeners n node type event listeners
      return (← get).page.prevented.contains number

/-- Calls listeners in order. One that fails does not keep the others from being called. -/
def callListeners : Nat → NodeId → String → Value → List Value → ScriptM Unit
  | 0, _, _, _, _ => throw (.fault .outOfSteps)
  | _ + 1, _, _, _, [] => return
  | n + 1, node, type, event, f :: fs => do
    logErrors (listenerContext node type) (discard (callValue n f [event] none))
    callListeners n node type event fs

end

def stepSupply : Nat := 1000000000

/-- Evaluates a program; the value is that of its last statement. -/
def evaluate (p : Program) : ScriptM Value :=
  return (← execAll stepSupply .undefined p).programResult

end PageRender.Script
