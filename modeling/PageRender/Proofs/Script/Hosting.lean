import Mathlib.Order.RelClasses
import PageRender.Proofs.Script.Compositions

/-! # What hosts do

The host of a page runs its scripts, tells its listeners about events and runs the callbacks that wait.
All this has no other effects than evaluation. Beyond it, the host takes the tasks from the queue. What
holds across both holds across all that hosts do, also where a fault ends it.
-/

namespace PageRender.Script

/-- Of what ends a script before its time, only a fault is not forgiven. -/
theorem forgiving_eq_error_iff {α : Type} {context : String} {otherwise : α} {body : ScriptM α}
    {r s : Realm} {f : Fault} :
    forgiving context otherwise body r = .error f s ↔ body r = .error (.fault f) s := by
  unfold forgiving
  cases body r with
  | ok v t => simp
  | error i t => cases i <;> simp [Interrupt.message?, Interrupt.toFault]

theorem leads_forgiving {α : Type} {body : ScriptM α} (hBody : Leads (Effects true) body)
    (context : String) (otherwise : α) : Leads (Effects true) (forgiving context otherwise body) := by
  intro r
  have hAfter := hBody r
  rw [stateAfter] at hAfter ⊢
  unfold forgiving
  cases hResult : body r with
  | ok v s =>
    rw [hResult] at hAfter
    exact hAfter
  | error i s =>
    rw [hResult] at hAfter
    dsimp only
    cases i.message? with
    | none => exact hAfter
    | some text => exact hAfter.trans (.page s (.journal _ _))

theorem leads_runScript (source name : String) : Leads (Effects true) (runScript source name) :=
  leads_forgiving (leads_runSource source) _ _

theorem leads_dispatchEvent (node : NodeId) (type : String) :
    Leads (Effects true) (dispatchEvent node type) :=
  leads_forgiving ((evaluationLeads stepSupply).dispatch true node type) _ _

theorem leads_runCallback (t : TimerTask) : Leads (Effects true) (runCallback t) := by
  refine .get fun r => ?_
  split
  · exact .refl r
  · exact leads_forgiving ((evaluationLeads stepSupply).callValue true t.callback [] _).discard _ _ r

theorem effects_forPage (page : Page) : Effects true { page } (Realm.forPage page) := by
  have hAfter : Effects true { page } (stateAfter setPageNames { page }) := leads_effects.setPageNames _
  rw [stateAfter] at hAfter
  unfold Realm.forPage
  cases hResult : setPageNames { page } <;> rwa [hResult] at hAfter

/-! ## The page of a new realm

To set the names that scripts find in a page, nothing is done with the page itself.
-/

theorem leads_property_page (base : Value) (name : String) :
    Leads (Order.Preimage Realm.page Eq) (property base name) := by
  have hText : ∀ v, Leads (Order.Preimage Realm.page Eq) (textOf v) := fun v r => rfl
  cases base with
  | undefined | null => exact (hText _).bind fun s => .throw _
  | object id => exact fun r => rfl
  | string s =>
    intro r
    unfold property stringProperty
    dsimp only
    split
    · rfl
    split
    · split
      · rfl
      · split <;> rfl
    · rfl
  | element node =>
    refine .get fun r => ?_
    dsimp only
    split <;> rfl
  | boolean | number | function | native => exact .pure _

theorem leads_newHost_page (natives : List Native) :
    Leads (Order.Preimage Realm.page Eq) (newHost natives) := by
  have hNative : ∀ n : Native, Leads (Order.Preimage Realm.page Eq) (do return (n.name, ← newNative n)) :=
    fun n r => rfl
  exact (Leads.mapM hNative natives).bind fun properties r => rfl

theorem leads_setPageNames_page : Leads (Order.Preimage Realm.page Eq) setPageNames := by
  refine (leads_newHost_page _).bind fun window => (leads_newHost_page _).bind fun document =>
    (leads_newHost_page _).bind fun console => (leads_property_page window _).bind fun alert =>
      (leads_property_page window _).bind fun setTimeout => ?_
  refine (Leads.forIn (fun entry _ => ?_) _ _).bind fun _ => .pure ()
  exact fun r => rfl

theorem Realm.page_forPage (page : Page) : (forPage page).page = page := by
  have hAfter : page = (stateAfter setPageNames { page }).page := leads_setPageNames_page { page }
  rw [stateAfter] at hAfter
  unfold forPage
  cases hResult : setPageNames { page } <;> rw [hResult] at hAfter <;> exact hAfter.symm

/-! ## What all that hosts do keeps -/

/-- A relation between a realm and what becomes of it holds across all evaluation and across the changes
that a host makes itself. -/
structure HoldsAcross (R : Realm → Realm → Prop) : Prop where
  effects : ∀ {r s}, Effects true r s → R r s
  takeTask : ∀ r ts, R r (r.onPage fun p => { p with tasks := ts })

namespace HoldsAcross

variable {R : Realm → Realm → Prop} [IsPreorder Realm R] (h : HoldsAcross R)

include h

omit [IsPreorder Realm R] in
theorem leads {α : Type} {x : HostM α} (hx : Leads (Effects true) x) : Leads R x :=
  hx.imp fun _ _ => h.effects

theorem leads_runTask : Leads R runTask := by
  refine .get fun r => ?_
  split
  · exact refl_of R r
  · rename_i t ts _
    have hRun : Leads R (do runCallback t; return true) :=
      (h.leads (leads_runCallback t)).bind fun _ => .pure true
    exact trans_of R (h.takeTask r ts) (hRun _)

theorem leads_runTasks (n : Nat) : Leads R (runTasks n) := by
  induction n with
  | zero => exact .pure 0
  | succ n ih =>
    refine h.leads_runTask.bind fun found => ?_
    cases found with
    | false => exact .pure 0
    | true => exact ih.bind fun count => .pure (count + 1)

theorem leads_runPending : Leads R runPending :=
  .get fun r => h.leads_runTasks _ r

end HoldsAcross

end PageRender.Script
