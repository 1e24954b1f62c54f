import Mathlib.Data.List.Infix
import PageRender.Proofs.OrderedMap
import PageRender.Proofs.Script.Ending
import PageRender.Proofs.Script.Numerals
import PageRender.Proofs.Script.Scopes
import PageRender.Proofs.Script.Waiting

/-! # What a script is not forgiven

A script that cannot be read or that fails is forgiven. It leaves a warning, what it did before stays done,
and nothing that was set up before is lost. Only few faults are not forgiven: a number with a digit that has
no value, a statement that is missing at the end, and the two faults of evaluation.
-/

namespace PageRender.Script

section

variable {α β : Type}

/-- The action ends in no other faults than those that a script can run into. -/
def OnlyScriptFaults (x : ScriptM α) : Prop :=
  ∀ r f s, x r = .error (.fault f) s → Fault.IsOfScript f

theorem OnlyScriptFaults.of_ok {a : Realm → α × Realm} :
    OnlyScriptFaults fun r => .ok (a r).1 (a r).2 := by
  intro r f s h
  cases h

theorem OnlyScriptFaults.raise (e : ScriptError) : OnlyScriptFaults (raise e : ScriptM α) := by
  intro r f s h
  cases h

theorem OnlyScriptFaults.fault {f : Fault} (hf : Fault.IsOfScript f) :
    OnlyScriptFaults (throw (.fault f) : ScriptM α) := by
  intro r g s h
  cases h
  exact hf

theorem OnlyScriptFaults.bind {x : ScriptM α} {k : α → ScriptM β} (hx : OnlyScriptFaults x)
    (hk : ∀ v, OnlyScriptFaults (k v)) : OnlyScriptFaults (x >>= k) := by
  intro r f s h
  cases hResult : x r with
  | ok v t =>
    rw [bind_ok hResult] at h
    exact hk v t f s h
  | error i t =>
    rw [bind_error hResult] at h
    cases h
    exact hx r f s hResult

theorem OnlyScriptFaults.inScope {body : ScriptM α} (hBody : OnlyScriptFaults body) (scope : Scope)
    (outer : Option Nat) : OnlyScriptFaults (inScope scope outer body) := by
  intro r f s h
  rw [inScope_apply] at h
  cases hResult : body (r.enter scope outer) with
  | ok v t =>
    rw [hResult] at h
    cases h
  | error i t =>
    rw [hResult] at h
    cases h
    exact hBody _ f t hResult

theorem OnlyScriptFaults.logErrors {body : ScriptM Unit} (hBody : OnlyScriptFaults body)
    (context : Realm → String) : OnlyScriptFaults (logErrors context body) := by
  intro r f s h
  unfold Script.logErrors at h
  cases hResult : body r with
  | ok v t =>
    rw [hResult] at h
    cases h
  | error i t =>
    rw [hResult] at h
    dsimp only at h
    cases hMessage : i.message? with
    | some text =>
      rw [hMessage] at h
      cases h
    | none =>
      rw [hMessage] at h
      cases h
      exact hBody r f s hResult

theorem onlyScriptFaults : Compositional fun _ _ => OnlyScriptFaults where
  step _ := .of_ok
  raise := .raise
  fault := .fault
  bind := .bind
  inScope scope outer hBody := hBody.inScope scope outer
  logErrors _ _ hBody := hBody.logErrors _

end

/-- Listeners and callbacks end in no other faults than those that a script can run into. -/
theorem isOfScript_of_dispatchEvent {node : NodeId} {type : String} {r s : Realm} {f : Fault}
    (h : dispatchEvent node type r = .error f s) : Fault.IsOfScript f :=
  (onlyScriptFaults.evaluation stepSupply).dispatch true node type r f s (forgiving_eq_error_iff.mp h)

theorem TimerTask.isOfScript_of_call {t : TimerTask} {r s : Realm} {f : Fault}
    (h : t.call r = .error f s) : Fault.IsOfScript f :=
  (onlyScriptFaults.evaluation stepSupply).callValue true t.callback [] _ r f s (call_eq_error h)

/-! ## Reading and running a text -/

/-- The faults that a text may run into as a script. -/
inductive FaultOfSource (source : String) : Fault → Prop
  | number {number : List Char} (h : HasUnreadableNumber source.toList number) :
      FaultOfSource source (.malformedNumber (String.ofList number))
  | missing {ts : List Token} (hTokens : tokenize source = .ok ts) (hAwaits : AwaitsStatement ts) :
      FaultOfSource source .statementExpected
  | running {f : Fault} {program : Program} (hRead : readProgram source = .ok program) (h : Fault.IsOfScript f) :
      FaultOfSource source f

theorem faultOfSource_of_readProgram {source : String} {f : Fault}
    (h : readProgram source = .error (.fault f)) : FaultOfSource source f := by
  rw [readProgram] at h
  cases hTokens : tokenize source with
  | error e =>
    rw [hTokens] at h
    cases h
    obtain ⟨number, rfl, hNumber⟩ := exists_of_tokens_eq_error hTokens
    exact .number hNumber
  | ok ts =>
    rw [hTokens] at h
    dsimp only at h
    have hEnds := parse_ends ts
    cases hParse : parse ts with
    | ok program =>
      rw [hParse] at h
      cases h
    | error e =>
      rw [hParse] at h hEnds
      cases e with
      | unexpected => cases h
      | statementExpected =>
        cases h
        exact .missing hTokens (AwaitsBody.awaitsStatement hEnds)
      | outOfSteps => exact hEnds.elim

theorem faultOfSource_of_runSource {source : String} {r s : Realm} {f : Fault}
    (h : runSource source r = .error (.fault f) s) : FaultOfSource source f := by
  rw [runSource] at h
  cases hRead : readProgram source with
  | error i =>
    rw [hRead] at h
    cases h
    exact faultOfSource_of_readProgram hRead
  | ok program =>
    rw [hRead] at h
    have hEvaluate : OnlyScriptFaults (evaluate program) :=
      .bind ((onlyScriptFaults.evaluation _).execAll _ program) fun done =>
        .of_ok (a := fun r => (done.programResult, r))
    exact .running hRead (hEvaluate r f s h)

/-- How the running of a script ends: it comes to a value, is forgiven with a warning, or stops in a fault. -/
inductive ScriptEnds (source name : String) (r : Realm) : EStateM.Result Fault Realm Value → Prop
  | value {v : Value} {s : Realm} (h : runSource source r = .ok v s) : ScriptEnds source name r (.ok v s)
  | forgiven {i : Interrupt} {text : String} {s : Realm} (h : runSource source r = .error i s)
      (hMessage : i.message? = some text) :
      ScriptEnds source name r
        (.ok .null (s.onPage (·.write .warning ("Script " ++ name ++ " error: " ++ text))))
  | fault {f : Fault} {s : Realm} (h : runSource source r = .error (.fault f) s)
      (hFault : FaultOfSource source f) : ScriptEnds source name r (.error f s)

theorem runScript_ends (source name : String) (r : Realm) :
    ScriptEnds source name r (runScript source name r) := by
  unfold runScript forgiving
  cases hResult : runSource source r with
  | ok v s => exact .value hResult
  | error i s =>
    dsimp only
    cases hMessage : i.message? with
    | some text => exact .forgiven hResult hMessage
    | none =>
      cases i with
      | fault f => exact .fault hResult (faultOfSource_of_runSource hResult)
      | unreadable | error => cases hMessage

/-! ## What a script leaves -/

/-- What was set up before is still there: tasks, timers and listeners. -/
structure Realm.KeepsSetUp (r s : Realm) : Prop extends Realm.KeepsTasks r s where
  listeners : ∀ node type, r.page.listenersOf node type <+: s.page.listenersOf node type

instance : IsPreorder Realm Realm.KeepsSetUp where
  refl r := ⟨refl_of Realm.KeepsTasks r, fun _ _ => List.prefix_rfl⟩
  trans _ _ _ h k :=
    ⟨trans_of Realm.KeepsTasks h.toKeepsTasks k.toKeepsTasks,
      fun node type => (h.listeners node type).trans (k.listeners node type)⟩

theorem PageChange.listeners {p q : Page} (h : PageChange p q) (node : NodeId) (type : String) :
    p.listenersOf node type <+: q.listenersOf node type := by
  cases h with
  | listener other type' f =>
    rw [Page.addListener, Page.listenersOf, Page.listenersOf, OrderedMap.getD_insert]
    split
    · rename_i hKey
      obtain ⟨rfl, rfl⟩ := Prod.mk.inj (eq_of_beq hKey)
      exact List.prefix_append _ _
    · exact List.prefix_rfl
  | handle other =>
    rw [Page.withHandle]
    split <;> exact List.prefix_rfl
  | setAttribute | replaceChildren | dispatch | prevented | timer | console | alert | journal =>
    exact List.prefix_rfl

theorem Effects.keepsSetUp {own : Bool} {r s : Realm} (h : Effects own r s) : r.KeepsSetUp s := by
  refine ⟨h.keepsTasks, fun node type => ?_⟩
  exact h.onPage (R := Order.Preimage (Page.listenersOf · node type) (· <+: ·)) fun hChange =>
    hChange.listeners node type

/-- The realm is at the top level, outside of every call, and its page was not left. Scripts, listeners and
callbacks can be run in it. -/
structure Realm.Ready (r : Realm) : Prop where
  current : r.current = 0
  outer : r.outer = none
  depth : r.depth = 0
  kept : r.page.discarded = false

theorem Effects.ready {own : Bool} {r s : Realm} (h : Effects own r s) (hr : r.Ready) : s.Ready where
  current := h.keepsScopes.current.trans hr.current
  outer := h.keepsScopes.outer.trans hr.outer
  depth := h.keepsScopes.depth.trans hr.depth
  kept := h.keepsTasks.discarded.trans hr.kept

theorem Realm.ready_forPage {page : Page} (hKept : page.discarded = false) : (forPage page).Ready :=
  (effects_forPage page).ready ⟨rfl, rfl, rfl, hKept⟩

/-- However the running of a script ends, it had no other effects than evaluation has. -/
theorem ScriptEnds.effects {source name : String} {r : Realm} {result : EStateM.Result Fault Realm Value}
    (h : ScriptEnds source name r result) :
    Effects true r (match result with | .ok _ s | .error _ s => s) := by
  have hSource := leads_runSource source r
  cases h with
  | value h => rwa [stateAfter_of_ok h] at hSource
  | forgiven h =>
    rw [stateAfter_of_error h] at hSource
    exact hSource.trans (.page _ (.journal _ _))
  | fault h => rwa [stateAfter_of_error h] at hSource

end PageRender.Script
