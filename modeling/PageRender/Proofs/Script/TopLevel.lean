import PageRender.Proofs.Script.Hosting
import PageRender.Proofs.Script.Scopes

/-! # The top level

Names are set in the current scope and looked up there, then in the scope that a timer adds and among the
globals. Every evaluation ends at the place it began at, whether it comes to its end or not. So a host
that runs scripts, tells listeners about events and runs the callbacks that wait always finds the realm
of its page at the top level: the globals are the current scope, and no timer adds one.
-/

namespace PageRender.Script

/-- Names are set in the same scope, and looked up in the same scopes, as before. -/
structure Realm.SamePlace (r s : Realm) : Prop where
  current : s.current = r.current
  outer : s.outer = r.outer

instance : IsPreorder Realm Realm.SamePlace where
  refl _ := ⟨rfl, rfl⟩
  trans _ _ _ h k := ⟨k.current.trans h.current, k.outer.trans h.outer⟩

theorem Effects.samePlace {own : Bool} {r s : Realm} (h : Effects own r s) : r.SamePlace s :=
  ⟨h.keepsScopes.current, h.keepsScopes.outer⟩

theorem holdsAcross_samePlace : HoldsAcross Realm.SamePlace where
  effects := Effects.samePlace
  takeTask _ _ := ⟨rfl, rfl⟩

/-- What the host of a page does with its realm. The page itself it may change as it likes, as it does
when a timer fires or the page is left. -/
inductive HostAction where
  | runScript (source name : String)
  | dispatchEvent (node : NodeId) (type : String)
  | runPending
  | changePage (change : Page → Page)

def HostAction.perform : HostAction → HostM Unit
  | runScript source name => discard (Script.runScript source name)
  | dispatchEvent node type => discard (Script.dispatchEvent node type)
  | runPending => discard Script.runPending
  | changePage change => modify (·.onPage change)

/-- The realm after an action, whether that came to its end or was stopped by a fault. -/
def Realm.after (r : Realm) (action : HostAction) : Realm :=
  stateAfter action.perform r

def Realm.afterAll (r : Realm) (actions : List HostAction) : Realm :=
  actions.foldl after r

theorem HostAction.leads_perform (action : HostAction) : Leads Realm.SamePlace action.perform := by
  cases action with
  | runScript source name => exact (holdsAcross_samePlace.leads (leads_runScript source name)).discard
  | dispatchEvent node type => exact (holdsAcross_samePlace.leads (leads_dispatchEvent node type)).discard
  | runPending => exact holdsAcross_samePlace.leads_runPending.discard
  | changePage change => exact .modify fun r => ⟨rfl, rfl⟩

theorem Realm.samePlace_afterAll (r : Realm) (actions : List HostAction) :
    r.SamePlace (r.afterAll actions) := by
  induction actions generalizing r with
  | nil => exact ⟨rfl, rfl⟩
  | cons action actions ih => exact trans_of Realm.SamePlace (action.leads_perform r) (ih (r.after action))

/-- After any actions of its host a realm is at the top level, as it is before the first of them; and
every statement and every expression leaves any realm at the place where it found it, however its
evaluation ends. -/
theorem top_level_afterAll (page : Page) (actions : List HostAction) :
    let r := (Realm.forPage page).afterAll actions
    (r.current = 0 ∧ r.outer = none) ∧
    ∀ (n : Nat) (s : Realm),
      (∀ statement, let t := stateAfter (exec n statement) s
        t.current = s.current ∧ t.outer = s.outer) ∧
      (∀ expression, let t := stateAfter (eval n expression) s
        t.current = s.current ∧ t.outer = s.outer) := by
  intro r
  have hPage : Realm.SamePlace { page } (Realm.forPage page) := (effects_forPage page).samePlace
  have hActions : Realm.SamePlace { page } r :=
    trans_of Realm.SamePlace hPage ((Realm.forPage page).samePlace_afterAll actions)
  refine ⟨⟨hActions.current, hActions.outer⟩, fun n s => ⟨fun statement => ?_, fun expression => ?_⟩⟩
  · have hSame := ((evaluationLeads n).exec statement s).samePlace
    exact ⟨hSame.current, hSame.outer⟩
  · have hSame := ((evaluationLeads n).eval expression s).samePlace
    exact ⟨hSame.current, hSame.outer⟩

end PageRender.Script
