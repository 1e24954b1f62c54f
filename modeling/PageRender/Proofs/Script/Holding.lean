import PageRender.Proofs.OrderedMap
import PageRender.Proofs.Script.Effects

/-! # The values that a realm holds

What scripts come by they put into variables, objects, functions, listeners and timers. If all values that a
realm holds are of some kind, and one of this kind is put into one of these places, they still are.
-/

namespace PageRender.Script

variable {W : Value → Prop}

/-- All values of the scope are of a kind. -/
def Scope.All (W : Value → Prop) (s : Scope) : Prop :=
  ∀ e ∈ s.entries, W e.2

/-- All values that are left with a page are of a kind: its listeners and what its timers call. -/
structure Page.Holds (W : Value → Prop) (p : Page) : Prop where
  listeners : ∀ e ∈ p.listeners.entries, ∀ f ∈ e.2, W f
  timers : ∀ t ∈ p.timers, W t.callback
  tasks : ∀ t ∈ p.tasks, W t.callback

/-- All values that a realm holds are of a kind. -/
structure Realm.Holds (W : Value → Prop) (r : Realm) : Prop where
  scope : ∀ i, Scope.All W (r.scope i)
  snapshot : ∀ (i : Nat) (c : Closure), r.closures[i]? = some c → Scope.All W c.snapshot
  object : ∀ i, Scope.All W (r.object i)
  page : r.page.Holds W

/-! ## Scopes -/

namespace Scope.All

variable {s : Scope}

theorem imp {V : Value → Prop} (h : ∀ v, W v → V v) (hs : Scope.All W s) : Scope.All V s :=
  fun e he => h e.2 (hs e he)

theorem empty : Scope.All W .empty := by
  intro e he
  cases he

theorem insert (h : Scope.All W s) (name : String) {v : Value} (hv : W v) :
    Scope.All W (OrderedMap.insert s name v) := by
  intro e he
  rcases OrderedMap.mem_setEntry he with rfl | hMem
  · exact hv
  · exact h e hMem

theorem get? (h : Scope.All W s) {name : String} {v : Value} (hv : OrderedMap.get? s name = some v) :
    W v := by
  obtain ⟨before, after, hEntries, -⟩ := List.lookup_eq_some_iff.mp hv
  exact h (name, v) (by rw [hEntries]; simp)

theorem getD (h : Scope.All W s) (hUndefined : W .undefined) (name : String) :
    W (OrderedMap.getD s name .undefined) := by
  rw [OrderedMap.getD]
  cases hGet : OrderedMap.get? s name with
  | none => exact hUndefined
  | some v => exact h.get? hGet

theorem ofList {entries : List (String × Value)} (h : ∀ e ∈ entries, W e.2) :
    Scope.All W (.ofList entries) :=
  List.foldlRecOn entries _ (motive := fun s : Scope => Scope.All W s) empty
    fun _ hs e he => hs.insert e.1 (h e he)

end Scope.All

section

variable (hUndefined : W .undefined) {args : List Value} (hArgs : ∀ v ∈ args, W v)

include hUndefined hArgs

theorem holds_arg (i : Nat) : W ((args[i]?).getD .undefined) := by
  cases hArg : args[i]? with
  | none => exact hUndefined
  | some v => exact hArgs v (List.mem_of_getElem? hArg)

theorem Arity.holds_adjust (a : Arity) : ∀ v ∈ a.adjust args, W v := by
  have hFilled : ∀ v ∈ args ++ List.replicate (a.fixed - args.length) .undefined, W v := by
    intro v hv
    rcases List.mem_append.mp hv with hArg | hMissing
    · exact hArgs v hArg
    · rw [List.eq_of_mem_replicate hMissing]
      exact hUndefined
  intro v hv
  rw [Arity.adjust] at hv
  split at hv
  · exact hFilled v hv
  · exact hFilled v (List.mem_of_mem_take hv)

theorem Closure.all_scope {c : Closure} (h : Scope.All W c.snapshot) : Scope.All W (c.scope args) :=
  List.foldlRecOn c.params.zipIdx _ (motive := fun s : Scope => Scope.All W s) h
    fun _ hs entry _ => hs.insert entry.1 (holds_arg hUndefined hArgs entry.2)

end

/-! ## Pages -/

namespace Page.Holds

variable {p : Page} (h : p.Holds W)

include h

theorem listenersOf {node : NodeId} {type : String} {f : Value} (hf : f ∈ p.listenersOf node type) :
    W f := by
  rw [Page.listenersOf, OrderedMap.getD] at hf
  cases hGet : p.listeners.get? (node, type) with
  | none =>
    rw [hGet] at hf
    cases hf
  | some fs =>
    rw [hGet] at hf
    obtain ⟨before, after, hEntries, -⟩ := List.lookup_eq_some_iff.mp hGet
    exact h.listeners ((node, type), fs) (by rw [hEntries]; simp) f hf

theorem addListener (node : NodeId) (type : String) {f : Value} (hf : W f) :
    (p.addListener node type f).Holds W :=
  { h with
    listeners := by
      intro e he
      rcases OrderedMap.mem_setEntry he with rfl | hMem
      · intro g hg
        rcases List.mem_append.mp hg with hOld | hNew
        · exact h.listenersOf hOld
        · rwa [List.mem_singleton.mp hNew]
      · exact h.listeners e hMem }

theorem addTimer {t : Timer} (ht : W t.callback) : (p.addTimer t).Holds W :=
  { h with
    timers := by
      intro u hu
      rcases List.mem_append.mp hu with hOld | hNew
      · exact h.timers u hOld
      · rwa [List.mem_singleton.mp hNew] }

theorem fire (timer : Nat) : (p.fire timer).Holds W := by
  rw [Page.fire]
  split
  · rename_i t hTimer
    refine { h with tasks := fun task hTask => ?_ }
    rcases List.mem_append.mp hTask with hOld | hNew
    · exact h.tasks task hOld
    · rw [List.mem_singleton.mp hNew]
      exact h.timers t (List.mem_of_getElem? hTimer)
  · exact h

end Page.Holds

/-! ## Realms -/

namespace Realm.Holds

variable {r : Realm}

theorem imp {V : Value → Prop} (h : ∀ v, W v → V v) (hr : r.Holds W) : r.Holds V where
  scope i := (hr.scope i).imp h
  snapshot i c hc := (hr.snapshot i c hc).imp h
  object i := (hr.object i).imp h
  page := {
    listeners e he f hf := h f (hr.page.listeners e he f hf)
    timers t ht := h _ (hr.page.timers t ht)
    tasks t ht := h _ (hr.page.tasks t ht) }

/-- A realm that no script has run in holds what its page holds. -/
theorem fresh {page : Page} (hPage : page.Holds W) : Realm.Holds W { page } where
  scope i := by cases i <;> exact .empty
  snapshot _ _ hc := by cases hc
  object _ := .empty
  page := hPage

variable (h : r.Holds W)

include h

theorem onPage {f : Page → Page} (hPage : (f r.page).Holds W) : (r.onPage f).Holds W :=
  { h with page := hPage }

theorem lookup? {name : String} {v : Value} (hv : r.lookup? name = some v) : W v := by
  rw [Realm.lookup?, Option.or_eq_some_iff] at hv
  rcases hv with hCurrent | ⟨-, hv⟩
  · exact (h.scope _).get? hCurrent
  rw [Option.or_eq_some_iff] at hv
  rcases hv with hOuter | ⟨-, hGlobal⟩
  · obtain ⟨o, -, hGet⟩ := Option.bind_eq_some_iff.mp hOuter
    exact (h.scope o).get? hGet
  · exact (h.scope 0).get? hGlobal

theorem setName (name : String) {v : Value} (hv : W v) : (r.setName name v).Holds W :=
  { h with
    scope := by
      intro i
      rw [Realm.scope, Realm.setName, Array.getElem?_modify]
      split
      · cases hScope : r.scopes[i]? with
        | none => exact .empty
        | some s =>
          have hOld := h.scope i
          rw [Realm.scope, hScope] at hOld
          exact hOld.insert name hv
      · exact h.scope i }

theorem addClosure (params : List String) (body : List Stmt) (name : Option String) :
    (r.addClosure params body name).1.Holds W :=
  { h with
    snapshot := by
      intro i c hc
      rw [Realm.addClosure, Array.getElem?_push] at hc
      split at hc
      · cases hc
        exact h.scope r.current
      · exact h.snapshot i c hc }

theorem addObject {properties : Scope} (hProperties : Scope.All W properties) :
    (r.addObject properties).1.Holds W :=
  { h with
    object := by
      intro i
      rw [Realm.object, Realm.addObject, Array.getElem?_push]
      split
      · exact hProperties
      · exact h.object i }

theorem setProperty (id : Nat) (name : String) {v : Value} (hv : W v) :
    Realm.Holds W { r with objects := r.objects.modify id (·.insert name v) } :=
  { h with
    object := by
      intro i
      rw [Realm.object, Array.getElem?_modify]
      split
      · cases hObject : r.objects[i]? with
        | none => exact .empty
        | some s =>
          have hOld := h.object i
          rw [Realm.object, hObject] at hOld
          exact hOld.insert name hv
      · exact h.object i }

theorem enter {scope : Scope} (hScope : Scope.All W scope) (outer : Option Nat) :
    (r.enter scope outer).Holds W :=
  { h with
    scope := by
      intro i
      rw [Realm.scope, Realm.enter, Array.getElem?_push]
      split
      · exact hScope
      · exact h.scope i }

end Realm.Holds

end PageRender.Script
