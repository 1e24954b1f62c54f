import PageRender.Proofs.Script.Finding
import PageRender.Proofs.Script.Waiting

/-! # Code that is started

What a host does is run a second time with a record of the code that it starts: for each script, event and
callback the realm in which it starts, and that which the host came into. Without the record it is what the host
does, so that what holds of all that is recorded holds whenever code is started.
-/

namespace PageRender

/-- What a host does with a state of its own, and may fail at. -/
abbrev HostedM (σ : Type) := EStateM Fault σ

namespace Script

inductive Code where
  | script (source name : String)
  | event (node : NodeId) (type : String)
  | callback (task : TimerTask)

def Code.isCallback : Code → Bool
  | callback _ => true
  | script .. | event .. => false

/-- Code that is started in a realm, as it is then and as it was when the host came into it. Some callbacks may
have been called on the same visit before. -/
structure Start where
  code : Code
  realm : Realm
  entered : Realm
  earlier : Nat

/-- Code that is all that a host comes for. -/
def Start.alone (code : Code) (r : Realm) : Start :=
  ⟨code, r, r, 0⟩

/-- The code finds the elements of the document as it was when the host came. These are those of the document as
it is by then, unless it is a callback that comes behind another. -/
structure Start.IsInformed (s : Start) : Prop where
  entered : s.realm.Finds (s.entered.page.dom.tree 0)
  current : s.code.isCallback = false ∨ s.earlier = 0 → s.realm.Finds (s.realm.page.dom.tree 0)

theorem Start.isInformed_alone {code : Code} {r : Realm} (h : r.page.idMap = r.page.dom.idMap 0) :
    (alone code r).IsInformed where
  entered := Realm.finds_of_idMap h
  current _ := Realm.finds_of_idMap h

end Script

open Script

/-- A state with the code that was started on the way to it. -/
structure Recorded (σ : Type) where
  state : σ
  starts : List Start := []

namespace Recorded

variable {σ α β : Type}

/-- Does something that starts no code. -/
def quietly (x : HostedM σ α) : HostedM (Recorded σ) α := fun s =>
  match x s.state with
  | .ok v t => .ok v { s with state := t }
  | .error e t => .error e { s with state := t }

/-- Does something that begins with a piece of code. -/
def starting (start : σ → Start) (x : HostedM σ α) : HostedM (Recorded σ) α := fun s =>
  quietly x { s with starts := s.starts ++ [start s.state] }

/-- An outcome without the record. -/
def forget : EStateM.Result Fault (Recorded σ) α → EStateM.Result Fault σ α
  | .ok v s => .ok v s.state
  | .error e s => .error e s.state

theorem leads_quietly (x : HostedM σ α) : Leads (Order.Preimage starts Eq) (quietly x) := by
  intro s
  rw [stateAfter, quietly]
  cases x s.state <;> exact rfl

/-- From a recorded state, the first action does what the second does, and records code with the property. -/
structure Records (P : Start → Prop) (xR : HostedM (Recorded σ) α) (x : HostedM σ α) (s : Recorded σ) : Prop where
  forgets : forget (xR s) = x s.state
  starts : (∀ start ∈ s.starts, P start) → ∀ start ∈ (stateAfter xR s).starts, P start

namespace Records

variable {P : Start → Prop} {s : Recorded σ}

theorem quietly (x : HostedM σ α) : Records P (quietly x) x s := by
  have hSame : s.starts = (stateAfter (Recorded.quietly x) s).starts := leads_quietly x s
  refine ⟨?_, fun h => hSame ▸ h⟩
  rw [Recorded.quietly]
  cases x s.state <;> rfl

theorem starting {start : σ → Start} (hStart : P (start s.state)) (x : HostedM σ α) :
    Records P (starting start x) x s := by
  have hQuiet := quietly (P := P) (s := { s with starts := s.starts ++ [start s.state] }) x
  refine ⟨hQuiet.forgets, fun h => hQuiet.starts ?_⟩
  exact List.forall_mem_append.mpr ⟨h, List.forall_mem_singleton.mpr hStart⟩

theorem congr {xR : HostedM (Recorded σ) α} {x y : HostedM σ α} (hx : Records P xR x s)
    (h : x s.state = y s.state) : Records P xR y s :=
  ⟨hx.forgets.trans h, hx.starts⟩

theorem pure (v : α) : Records P (pure v) (pure v) s :=
  ⟨rfl, id⟩

theorem throw (e : Fault) : Records P (throw e : HostedM (Recorded σ) α) (throw e) s :=
  ⟨rfl, id⟩

theorem bind {xR : HostedM (Recorded σ) α} {x : HostedM σ α} {kR : α → HostedM (Recorded σ) β}
    {k : α → HostedM σ β} (hx : Records P xR x s)
    (hk : ∀ v t, x s.state = .ok v t.state → Records P (kR v) (k v) t) :
    Records P (xR >>= kR) (x >>= k) s := by
  have hForgets := hx.forgets
  have hStarts := hx.starts
  cases hResult : xR s with
  | error e t =>
    rw [hResult] at hForgets
    rw [stateAfter_of_error hResult] at hStarts
    refine ⟨?_, ?_⟩
    · rw [bind_error hResult, bind_error hForgets.symm]
      rfl
    · rw [stateAfter_of_error (bind_error hResult kR)]
      exact hStarts
  | ok v t =>
    rw [hResult] at hForgets
    rw [stateAfter_of_ok hResult] at hStarts
    have hRest := hk v t hForgets.symm
    refine ⟨?_, fun h => ?_⟩
    · rw [bind_ok hResult, bind_ok hForgets.symm]
      exact hRest.forgets
    · rw [stateAfter_bind hResult]
      exact hRest.starts (hStarts h)

theorem modify {f : σ → σ} {kR : HostedM (Recorded σ) β} {k : HostedM σ β}
    (h : Records P kR k { s with state := f s.state }) :
    Records P (Recorded.quietly (modify f) >>= fun _ => kR) (modify f >>= fun _ => k) s :=
  ⟨h.forgets, h.starts⟩

theorem get {kR : Recorded σ → HostedM (Recorded σ) β} {k : σ → HostedM σ β}
    (h : Records P (kR s) (k s.state) s) : Records P (MonadState.get >>= kR) (MonadState.get >>= k) s :=
  ⟨h.forgets, h.starts⟩

theorem map {xR : HostedM (Recorded σ) α} {x : HostedM σ α} (hx : Records P xR x s) (f : α → β) :
    Records P (f <$> xR) (f <$> x) s := by
  rw [map_eq_pure_bind, map_eq_pure_bind]
  exact hx.bind fun v t _ => .pure (f v)

theorem discard {xR : HostedM (Recorded σ) α} {x : HostedM σ α} (hx : Records P xR x s) :
    Records P (discard xR) (discard x) s :=
  hx.map _

end Records

/-! ## What a host does in a realm -/

def runScript (source name : String) : HostedM (Recorded Realm) Value :=
  starting (.alone (.script source name)) (Script.runScript source name)

def dispatchEvent (node : NodeId) (type : String) : HostedM (Recorded Realm) Bool :=
  starting (.alone (.event node type)) (Script.dispatchEvent node type)

section

variable (entered : Realm)

/-- Calls the callback of a task on a visit on which some tasks were run before. -/
def runCallback (earlier : Nat) (t : TimerTask) : HostedM (Recorded Realm) Unit := do
  if (← get).state.page.discarded then return
  else starting (fun r => ⟨.callback t, r, entered, earlier⟩) t.call

def runTask (earlier : Nat) : HostedM (Recorded Realm) Bool := do
  match (← get).state.page.tasks with
  | [] => return false
  | t :: ts => do
    quietly (modify (·.onPage fun p => { p with tasks := ts }))
    runCallback entered earlier t
    return true

def runTasks (earlier : Nat) : Nat → HostedM (Recorded Realm) Nat
  | 0 => return 0
  | n + 1 => do
    if ← runTask entered earlier then return (← runTasks (earlier + 1) n) + 1
    else return 0

end

def runPending : HostedM (Recorded Realm) Nat := do
  let r := (← get).state
  runTasks r 0 r.page.tasks.length

theorem holdsAcross_idMap : HoldsAcross (Order.Preimage (·.page.idMap) Eq) where
  effects hEffects := hEffects.idMap
  takeTask _ _ := rfl

/-- A host that is in the realm to run what waits, and has run some tasks. The list of ids is as it was. -/
structure IsVisited (entered : Realm) (earlier : Nat) (r : Realm) : Prop where
  fresh : entered.page.idMap = entered.page.dom.idMap 0
  idMap : r.page.idMap = entered.page.idMap
  first : earlier = 0 → r.page.dom = entered.page.dom

namespace IsVisited

variable {entered r : Realm} {earlier : Nat} (h : IsVisited entered earlier r)

include h

theorem isInformed (t : TimerTask) : Start.IsInformed ⟨.callback t, r, entered, earlier⟩ where
  entered := Realm.finds_of_idMap (h.idMap.trans h.fresh)
  current hFirst := by
    have hSame := h.first (hFirst.resolve_left Bool.noConfusion)
    exact Realm.finds_of_idMap (h.idMap.trans (hSame ▸ h.fresh))

theorem takeTask (ts : List TimerTask) : IsVisited entered earlier (r.onPage fun p => { p with tasks := ts }) :=
  ⟨h.fresh, h.idMap, h.first⟩

theorem ran {found : Bool} {s : Realm} (hRun : Script.runTask r = .ok found s) :
    IsVisited entered (earlier + 1) s where
  fresh := h.fresh
  idMap := (holdsAcross_idMap.leads_runTask.of_ok hRun).symm.trans h.idMap
  first := nofun

end IsVisited

namespace Records

variable {entered : Realm} {earlier : Nat} {s : Recorded Realm}

theorem runScript (h : s.state.page.idMap = s.state.page.dom.idMap 0) (source name : String) :
    Records Start.IsInformed (Recorded.runScript source name) (Script.runScript source name) s :=
  starting (Start.isInformed_alone h) _

theorem dispatchEvent (h : s.state.page.idMap = s.state.page.dom.idMap 0) (node : NodeId) (type : String) :
    Records Start.IsInformed (Recorded.dispatchEvent node type) (Script.dispatchEvent node type) s :=
  starting (Start.isInformed_alone h) _

theorem runCallback (h : IsVisited entered earlier s.state) (t : TimerTask) :
    Records Start.IsInformed (Recorded.runCallback entered earlier t) (Script.runCallback t) s := by
  refine .get ?_
  cases s.state.page.discarded with
  | true => exact .pure ()
  | false =>
    change Records _ (Recorded.starting (fun r => ⟨.callback t, r, entered, earlier⟩) t.call) t.call s
    exact starting (h.isInformed t) t.call

theorem runTask (h : IsVisited entered earlier s.state) :
    Records Start.IsInformed (Recorded.runTask entered earlier) Script.runTask s := by
  refine .get ?_
  cases s.state.page.tasks with
  | nil => exact .pure false
  | cons t ts =>
    refine .modify ?_
    exact (runCallback (h.takeTask ts) t).bind fun _ _ _ => .pure true

theorem runTasks (h : IsVisited entered earlier s.state) (n : Nat) :
    Records Start.IsInformed (Recorded.runTasks entered earlier n) (Script.runTasks n) s := by
  induction n generalizing earlier s with
  | zero => exact .pure 0
  | succ n ih =>
    refine (runTask h).bind fun found t hFound => ?_
    cases found with
    | false => exact .pure 0
    | true => exact (ih (h.ran hFound)).bind fun count _ _ => .pure (count + 1)

theorem runPending (h : s.state.page.idMap = s.state.page.dom.idMap 0) :
    Records Start.IsInformed Recorded.runPending Script.runPending s :=
  .get (runTasks ⟨h, rfl, fun _ => rfl⟩ _)

end Records

end Recorded

end PageRender
