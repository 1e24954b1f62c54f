import PageRender.Proofs.Script.Faults
import PageRender.Proofs.Script.Numbering

/-! # Telling listeners

An event is told to the listeners that are there when it is sent, in the order in which they were added.
Each of them is called once, whatever it does: also if it fails, adds listeners, sends events itself or
changes the document. Only a fault ends this before its time.
-/

namespace PageRender.Script

/-- A listener is called with a number of steps left, in one realm, and leaves another one. -/
structure ListenerCall where
  listener : Value
  steps : Nat
  before : Realm
  after : Realm

/-- The call came to its end, or it failed and left a warning. -/
inductive ListenerCall.Made (node : NodeId) (type : String) (event : Value) (c : ListenerCall) : Prop
  | returned (v : Value) (h : callValue c.steps c.listener [event] none c.before = .ok v c.after)
  | failed (i : Interrupt) (text : String) (s : Realm)
      (h : callValue c.steps c.listener [event] none c.before = .error i s) (hText : i.message? = some text)
      (hAfter : c.after = s.onPage (·.write .warning (listenerContext node type s ++ text)))

/-- Calls were made one after the other, the first of them in the first realm, each next in the realm that
the one before it left, and the last of them left the last realm. -/
inductive CallsMade (node : NodeId) (type : String) (event : Value) : Realm → List ListenerCall → Realm → Prop
  | nobody {r : Realm} : CallsMade node type event r [] r
  | call {c : ListenerCall} {cs : List ListenerCall} {s : Realm} (made : c.Made node type event)
      (rest : CallsMade node type event c.after cs s) : CallsMade node type event c.before (c :: cs) s

variable {node : NodeId} {type : String} {event : Value} {r s : Realm}

theorem ListenerCall.Made.effects {c : ListenerCall} (h : c.Made node type event) :
    Effects false c.before c.after := by
  have hCall := (evaluationLeads c.steps).callValue false c.listener [event] none c.before
  cases h with
  | returned v h => rwa [stateAfter_of_ok h] at hCall
  | failed i text s h hText hAfter =>
    rw [stateAfter_of_error h] at hCall
    rw [hAfter]
    exact hCall.trans (.page s (.journal _ _))

theorem CallsMade.effects {calls : List ListenerCall} (h : CallsMade node type event r calls s) :
    Effects false r s := by
  induction h with
  | nobody => exact .refl _
  | call made rest ih => exact made.effects.trans ih

/-- What becomes of listeners that are called in order. -/
inductive Telling (node : NodeId) (type : String) (event : Value) (listeners : List Value) (r : Realm) :
    EStateM.Result Interrupt Realm Unit → Prop
  | all {calls : List ListenerCall} {s : Realm} (told : CallsMade node type event r calls s)
      (all : calls.map (·.listener) = listeners) : Telling node type event listeners r (.ok () s)
  | outOfSteps {calls : List ListenerCall} {s : Realm} (told : CallsMade node type event r calls s)
      (first : calls.map (·.listener) <+: listeners) :
      Telling node type event listeners r (.error (.fault .outOfSteps) s)
  | fault {calls : List ListenerCall} {s t : Realm} {steps : Nat} {f : Value} {fs : List Value} {fault : Fault}
      (told : CallsMade node type event r calls s) (first : calls.map (·.listener) ++ f :: fs = listeners)
      (stopped : callValue steps f [event] none s = .error (.fault fault) t) :
      Telling node type event listeners r (.error (.fault fault) t)

/-- One call more, before the others. -/
theorem Telling.cons {c : ListenerCall} (made : c.Made node type event) {listeners : List Value}
    {result : EStateM.Result Interrupt Realm Unit} (h : Telling node type event listeners c.after result) :
    Telling node type event (c.listener :: listeners) c.before result := by
  cases h with
  | all told all => exact .all (.call made told) (by rw [List.map_cons, all])
  | outOfSteps told first => exact .outOfSteps (.call made told) (List.cons_prefix_cons.mpr ⟨rfl, first⟩)
  | fault told first stopped =>
    exact .fault (.call made told) (by rw [List.map_cons, List.cons_append, first]) stopped

theorem made_of_logErrors_eq_ok {n : Nat} {f : Value} {u : Unit}
    (h : logErrors (listenerContext node type) (discard (callValue n f [event] none)) r = .ok u s) :
    ListenerCall.Made node type event ⟨f, n, r, s⟩ := by
  unfold logErrors at h
  cases hCall : discard (callValue n f [event] none) r with
  | ok v t =>
    rw [hCall] at h
    cases h
    obtain ⟨w, hValue⟩ := exists_of_discard_eq_ok hCall
    exact .returned w hValue
  | error i t =>
    rw [hCall] at h
    dsimp only at h
    cases hText : i.message? with
    | none =>
      rw [hText] at h
      cases h
    | some text =>
      rw [hText] at h
      cases h
      exact .failed i text t (eq_error_of_discard hCall) hText rfl

theorem exists_fault_of_logErrors_eq_error {n : Nat} {f : Value} {i : Interrupt}
    (h : logErrors (listenerContext node type) (discard (callValue n f [event] none)) r = .error i s) :
    ∃ fault, i = .fault fault ∧ callValue n f [event] none r = .error (.fault fault) s := by
  unfold logErrors at h
  cases hCall : discard (callValue n f [event] none) r with
  | ok v t =>
    rw [hCall] at h
    cases h
  | error j t =>
    rw [hCall] at h
    have hValue := eq_error_of_discard hCall
    cases j with
    | fault fault =>
      cases h
      exact ⟨fault, rfl, hValue⟩
    | unreadable | error => cases h

theorem callListeners_telling (n : Nat) (node : NodeId) (type : String) (event : Value)
    (listeners : List Value) (r : Realm) :
    Telling node type event listeners r (callListeners n node type event listeners r) := by
  induction n generalizing listeners r with
  | zero =>
    rw [callListeners]
    exact .outOfSteps .nobody List.nil_prefix
  | succ n ih =>
    cases listeners with
    | nil =>
      rw [callListeners]
      exact .all .nobody rfl
    | cons f fs =>
      rw [callListeners]
      cases hFirst : logErrors (listenerContext node type) (discard (callValue n f [event] none)) r with
      | ok v s =>
        rw [bind_ok hFirst]
        exact (ih fs s).cons (made_of_logErrors_eq_ok hFirst)
      | error i s =>
        obtain ⟨fault, rfl, hCall⟩ := exists_fault_of_logErrors_eq_error hFirst
        rw [bind_error hFirst]
        exact .fault .nobody rfl hCall

/-! ## New events -/

theorem PageChange.prevented_suffix {p q : Page} (h : PageChange p q) : p.prevented <:+ q.prevented := by
  cases h with
  | prevented dispatch => exact List.suffix_cons _ _
  | handle other =>
    rw [Page.withHandle]
    split <;> exact List.suffix_rfl
  | setAttribute | replaceChildren | dispatch | listener | timer | console | alert | journal =>
    exact List.suffix_rfl

/-- What was prevented stays so. -/
theorem Effects.prevented_suffix {own : Bool} (h : Effects own r s) :
    r.page.prevented <:+ s.page.prevented :=
  h.onPage (R := Order.Preimage Page.prevented (· <:+ ·)) PageChange.prevented_suffix

/-- A new event is an object that was not there before. The function that prevents it has a number that no
other event has, and it was never prevented. -/
structure EventMade (node : NodeId) (type : String) (r : Realm) (event : Value) (s : Realm) : Prop where
  made : newEvent node type r = .ok (event, r.page.dispatches) s
  object : event = .object r.objects.size
  prevents : (s.object r.objects.size).get? "preventDefault" =
    some (.native r.natives (.preventDefault r.page.dispatches))
  next : s.page.dispatches = r.page.dispatches + 1
  notYet : r.page.dispatches ∉ s.page.prevented

theorem Page.prevented_withHandle (p : Page) (node : NodeId) : (p.withHandle node).prevented = p.prevented := by
  rw [withHandle]
  split <;> rfl

theorem Page.dispatches_withHandle (p : Page) (node : NodeId) :
    (p.withHandle node).dispatches = p.dispatches := by
  rw [withHandle]
  split <;> rfl

theorem exists_eventMade (h : r.IsNumbered) (node : NodeId) (type : String) :
    ∃ event s, EventMade node type r event s ∧ Effects false r s := by
  have hEffects : Leads (Effects false) (newEvent node type) := leads_effects.newEvent node type
  refine ⟨_, _, ⟨rfl, rfl, ?_, ?_, ?_⟩, hEffects.of_ok rfl⟩
  · exact congrArg (fun o : Option Scope => (o.getD .empty).get? "preventDefault") Array.getElem?_push_size
  · exact Page.dispatches_withHandle _ node
  · intro hMem
    have hOld := (Page.prevented_withHandle { r.page with dispatches := r.page.dispatches + 1 } node) ▸ hMem
    exact Nat.lt_irrefl _ (h.prevented _ hOld)

/-- What becomes of an event that is sent to an element: to its listeners at that time it is told, and to
those that they add it is not. It was prevented if its own function was called meanwhile. -/
inductive Sent (node : NodeId) (type : String) (r : Realm) : EStateM.Result Interrupt Realm Bool → Prop
  | toNobody (hNone : r.page.listenersOf node type = []) : Sent node type r (.ok false r)
  | toAll {event : Value} {s t : Realm} {calls : List ListenerCall} {prevented : Bool} {called : List Nat}
      (made : EventMade node type r event s) (told : CallsMade node type event s calls t)
      (all : calls.map (·.listener) = r.page.listenersOf node type)
      (kept : r.page.listenersOf node type <+: t.page.listenersOf node type)
      (meanwhile : t.page.prevented = called ++ s.page.prevented)
      (hPrevented : prevented = true ↔ r.page.dispatches ∈ called) : Sent node type r (.ok prevented t)
  | stopped {event : Value} {s t : Realm} {fault : Fault} (made : EventMade node type r event s)
      (short : Telling node type event (r.page.listenersOf node type) s (.error (.fault fault) t)) :
      Sent node type r (.error (.fault fault) t)

/-- The end of an event of which its listeners were told. -/
theorem Sent.of_telling {event : Value} {s : Realm} (made : EventMade node type r event s)
    (hEffects : Effects false r s) (n : Nat) :
    Sent node type r ((do
      callListeners n node type event (r.page.listenersOf node type)
      return (← get).page.prevented.contains r.page.dispatches : ScriptM Bool) s) := by
  have hTelling := callListeners_telling n node type event (r.page.listenersOf node type) s
  cases hCalls : callListeners n node type event (r.page.listenersOf node type) s with
  | ok u t =>
    rw [hCalls] at hTelling
    rw [bind_ok hCalls, get_bind]
    cases hTelling with
    | all told all =>
      obtain ⟨called, hCalled⟩ := told.effects.prevented_suffix
      have hKept := (hEffects.trans told.effects).keepsSetUp.listeners node type
      refine .toAll made told all hKept hCalled.symm ?_
      rw [List.contains_iff_mem, ← hCalled, List.mem_append, or_iff_left made.notYet]
  | error i t =>
    rw [hCalls] at hTelling
    rw [bind_error hCalls]
    cases hTelling with
    | outOfSteps told first => exact .stopped made (.outOfSteps told first)
    | fault told first stopped => exact .stopped made (.fault told first stopped)

theorem sent_dispatch (h : r.IsNumbered) (node : NodeId) (type : String) (n : Nat) :
    Sent node type r (dispatch (n + 1) node type r) := by
  obtain ⟨event, s, hMade, hEffects⟩ := exists_eventMade h node type
  cases hListeners : r.page.listenersOf node type with
  | nil =>
    have hNothing : dispatch (n + 1) node type r = .ok false r := by
      rw [dispatch, get_bind, hListeners]
      rfl
    rw [hNothing]
    exact .toNobody hListeners
  | cons f fs =>
    have hTold : dispatch (n + 1) node type r = (do
        callListeners n node type event (r.page.listenersOf node type)
        return (← get).page.prevented.contains r.page.dispatches : ScriptM Bool) s := by
      rw [dispatch, get_bind, hListeners]
      exact bind_ok hMade.made _
    rw [hTold]
    exact .of_telling hMade hEffects n

theorem Sent.prevented_iff (h : r.IsNumbered) {prevented : Bool} {t : Realm}
    (hSent : Sent node type r (.ok prevented t)) :
    prevented = true ↔ r.page.dispatches ∈ t.page.prevented := by
  cases hSent with
  | toNobody hNone => simpa using fun hMem => Nat.lt_irrefl _ (h.prevented _ hMem)
  | toAll made told all kept meanwhile hPrevented =>
    rw [hPrevented, meanwhile, List.mem_append, or_iff_left made.notYet]

/-- The host of a page has nothing to forgive: a listener that fails is passed over. -/
theorem dispatchEvent_eq (h : r.IsNumbered) (node : NodeId) (type : String) :
    dispatchEvent node type r =
      match dispatch stepSupply node type r with
      | .ok prevented s => .ok prevented s
      | .error i s => .error i.toFault s := by
  have hSent := sent_dispatch h node type (stepSupply - 1)
  rw [show stepSupply - 1 + 1 = stepSupply from rfl] at hSent
  rw [dispatchEvent, forgiving]
  cases hResult : dispatch stepSupply node type r with
  | ok prevented s => rfl
  | error i s =>
    rw [hResult] at hSent
    cases hSent with
    | stopped made short => rfl

theorem prevented_iff_of_dispatchEvent (h : r.IsNumbered) {prevented : Bool}
    (hDone : dispatchEvent node type r = .ok prevented s) :
    prevented = true ↔ r.page.dispatches ∈ s.page.prevented := by
  have hSent := sent_dispatch h node type (stepSupply - 1)
  rw [show stepSupply - 1 + 1 = stepSupply from rfl] at hSent
  rw [dispatchEvent_eq h] at hDone
  cases hResult : dispatch stepSupply node type r with
  | ok b t =>
    rw [hResult] at hDone hSent
    cases hDone
    exact hSent.prevented_iff h
  | error i t =>
    rw [hResult] at hDone
    cases hDone

end PageRender.Script
