import PageRender.Proofs.Leading
import PageRender.Script.Session

/-! # Effects of evaluation

Whatever a script says, a realm changes in few ways: a name is set in the current scope, something is
added, an object or the page changes, or all this happens inside a call, after which the scopes of the
caller are in place again. What each of these keeps is kept by every evaluation, of whatever program
and however it ends. Calls themselves set no name of the scope they are made in.
-/

namespace PageRender.Script

/-- One change of a page by a script. -/
inductive PageChange (p : Page) : Page → Prop
  | setAttribute (node : NodeId) (name value : String) :
      PageChange p (p.changed (p.dom.setAttribute node name value))
  | replaceChildren (node : NodeId) (nodes : List (Node Unit)) :
      PageChange p (p.changed (p.dom.replaceChildren node nodes))
  | handle (node : NodeId) : PageChange p (p.withHandle node)
  | dispatch : PageChange p { p with dispatches := p.dispatches + 1 }
  | prevented (dispatch : Nat) : PageChange p { p with prevented := dispatch :: p.prevented }
  | listener (node : NodeId) (type : String) (f : Value) : PageChange p (p.addListener node type f)
  | timer (t : Timer) : PageChange p (p.addTimer t)
  | console (text : String) : PageChange p { p with console := p.console ++ [text] }
  | alert (text : String) : PageChange p { p with alerts := p.alerts ++ [text] }
  | journal (level : Level) (text : String) : PageChange p (p.write level text)

namespace Realm

/-- The realm inside a call, which has a scope of its own. -/
def enter (r : Realm) (scope : Scope) (outer : Option Nat) : Realm :=
  { r with
    scopes := r.scopes.push scope
    current := r.scopes.size
    outer
    depth := r.depth + 1 }

/-- The realm after a call, with the scopes of its caller in place. -/
def leave (r caller : Realm) : Realm :=
  { r with current := caller.current, outer := caller.outer, depth := caller.depth }

end Realm

/-- What evaluation does to a realm. Names of the current scope are set only if `own` is true. -/
inductive Effects : (own : Bool) → Realm → Realm → Prop
  | refl {own : Bool} (r : Realm) : Effects own r r
  | trans {own : Bool} {r s t : Realm} (first : Effects own r s) (rest : Effects own s t) :
      Effects own r t
  | name (r : Realm) (name : String) (v : Value) : Effects true r (r.setName name v)
  | closure {own : Bool} (r : Realm) (params : List String) (body : List Stmt) (name : Option String) :
      Effects own r (r.addClosure params body name).1
  | native {own : Bool} (r : Realm) (n : Native) : Effects own r (r.addNative n).1
  | newObject {own : Bool} (r : Realm) (properties : Scope) : Effects own r (r.addObject properties).1
  | object {own : Bool} (r : Realm) (id : Nat) (name : String) (v : Value) :
      Effects own r { r with objects := r.objects.modify id (·.insert name v) }
  | external {own : Bool} (r : Realm) (call : ExternalCall) :
      Effects own r { r with externalCalls := r.externalCalls ++ [call] }
  | page {own : Bool} (r : Realm) {p : Page} (change : PageChange r.page p) :
      Effects own r { r with page := p }
  | call {own : Bool} (r : Realm) (scope : Scope) (outer : Option Nat) {s : Realm}
      (body : Effects true (r.enter scope outer) s) : Effects own r (s.leave r)

instance (own : Bool) : IsPreorder Realm (Effects own) where
  refl := .refl
  trans _ _ _ := .trans

/-- What single changes of a page keep of it is kept by all effects. -/
theorem Effects.onPage {own : Bool} {r s : Realm} {R : Page → Page → Prop} [IsPreorder Page R]
    (hChange : ∀ {p q}, PageChange p q → R p q) (h : Effects own r s) : R r.page s.page := by
  induction h with
  | refl r => exact refl_of R r.page
  | trans first rest ihFirst ihRest => exact trans_of R ihFirst ihRest
  | page r change => exact hChange change
  | call r scope outer body ih => exact ih
  | name r | closure r | native r | newObject r | object r | external r => exact refl_of R r.page

theorem inScope_apply {α : Type} (scope : Scope) (outer : Option Nat) (body : ScriptM α) (r : Realm) :
    inScope scope outer body r =
      match body (r.enter scope outer) with
      | .ok v s => .ok v (s.leave r)
      | .error e s => .error e (s.leave r) :=
  rfl

/-- A loop goes round while its test holds, and is left from inside its body alone. -/
theorem exists_loop_eq (n : Nat) (test update : Option Expr) (body : Stmt) :
    ∃ behind : Completion → ScriptM Completion,
      (∀ v, behind (.returned v) = pure (.returned v)) ∧
      (∀ v, behind (.value v) = update.elim (loop n test update body) fun e => do
        discard (eval n e)
        loop n test update body) ∧
      loop (n + 1) test update body = test.elim (exec n body >>= behind) fun e => do
        if (← eval n e).isTruthy then exec n body >>= behind else return .value .undefined := by
  cases test with
  | none =>
    refine ⟨_, ?_, ?_, loop.eq_def (n + 1) none update body⟩
    · exact fun v => rfl
    · exact fun v => by cases update <;> rfl
  | some e =>
    refine ⟨_, ?_, ?_, loop.eq_def (n + 1) (some e) update body⟩
    · exact fun v => rfl
    · exact fun v => by cases update <;> rfl

end PageRender.Script
