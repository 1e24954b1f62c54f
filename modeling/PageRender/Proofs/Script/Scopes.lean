import PageRender.Proofs.Script.Compositions

/-! # Scopes

Evaluation sets names in the current scope only. A call does this in a scope of its own and hides it
when it ends, so that every scope and every function from before the call is the same after it.
-/

namespace PageRender.Script

/-- What evaluation leaves as it was: the place in the scopes, every function that was made, and every
scope but the current one, which is kept as well if `own` is false. -/
structure KeepsScopes (own : Bool) (r s : Realm) : Prop where
  current : s.current = r.current
  outer : s.outer = r.outer
  depth : s.depth = r.depth
  scopes_size_le : r.scopes.size ≤ s.scopes.size
  scope : ∀ i < r.scopes.size, (own = true → i ≠ r.current) → s.scopes[i]? = r.scopes[i]?
  closures_size_le : r.closures.size ≤ s.closures.size
  closure : ∀ i < r.closures.size, s.closures[i]? = r.closures[i]?

namespace KeepsScopes

variable {own : Bool} {r s t : Realm}

/-- A step that leaves scopes and functions alone. -/
theorem of_eq (hCurrent : s.current = r.current) (hOuter : s.outer = r.outer)
    (hDepth : s.depth = r.depth) (hScopes : s.scopes = r.scopes) (hClosures : s.closures = r.closures) :
    KeepsScopes own r s where
  current := hCurrent
  outer := hOuter
  depth := hDepth
  scopes_size_le := Nat.le_of_eq (by rw [hScopes])
  scope i _ _ := by rw [hScopes]
  closures_size_le := Nat.le_of_eq (by rw [hClosures])
  closure i _ := by rw [hClosures]

theorem trans (h : KeepsScopes own r s) (h' : KeepsScopes own s t) : KeepsScopes own r t where
  current := h'.current.trans h.current
  outer := h'.outer.trans h.outer
  depth := h'.depth.trans h.depth
  scopes_size_le := Nat.le_trans h.scopes_size_le h'.scopes_size_le
  scope i hi hOwn := by
    have hSecond : t.scopes[i]? = s.scopes[i]? :=
      h'.scope i (Nat.lt_of_lt_of_le hi h.scopes_size_le) fun ho => h.current ▸ hOwn ho
    rw [hSecond, h.scope i hi hOwn]
  closures_size_le := Nat.le_trans h.closures_size_le h'.closures_size_le
  closure i hi := by
    rw [h'.closure i (Nat.lt_of_lt_of_le hi h.closures_size_le), h.closure i hi]

theorem setName (r : Realm) (name : String) (v : Value) : KeepsScopes true r (r.setName name v) where
  current := rfl
  outer := rfl
  depth := rfl
  scopes_size_le := Nat.le_of_eq (by rw [Realm.setName, Array.size_modify])
  scope i _ hOwn := by rw [Realm.setName, Array.getElem?_modify, if_neg (hOwn rfl).symm]
  closures_size_le := Nat.le_refl _
  closure _ _ := rfl

theorem addClosure (r : Realm) (params : List String) (body : List Stmt) (name : Option String) :
    KeepsScopes own r (r.addClosure params body name).1 where
  current := rfl
  outer := rfl
  depth := rfl
  scopes_size_le := Nat.le_refl _
  scope _ _ _ := rfl
  closures_size_le := by simp [Realm.addClosure]
  closure i hi := by rw [Realm.addClosure, Array.getElem?_push_lt hi, Array.getElem?_eq_getElem hi]

/-- Inside a call only the new scope is current, which is behind all others. -/
theorem leave {scope : Scope} {outer : Option Nat} (h : KeepsScopes true (r.enter scope outer) s) :
    KeepsScopes own r (s.leave r) where
  current := rfl
  outer := rfl
  depth := rfl
  scopes_size_le := by
    have hInside : r.scopes.size + 1 ≤ s.scopes.size := by
      simpa [Realm.enter] using h.scopes_size_le
    exact Nat.le_of_succ_le hInside
  scope i hi _ := by
    have hInside : s.scopes[i]? = (r.scopes.push scope)[i]? :=
      h.scope i (by rw [Realm.enter, Array.size_push]; omega) fun _ => Nat.ne_of_lt hi
    rw [Realm.leave, hInside, Array.getElem?_push_lt hi, Array.getElem?_eq_getElem hi]
  closures_size_le := h.closures_size_le
  closure := h.closure

end KeepsScopes

theorem Effects.keepsScopes {own : Bool} {r s : Realm} (h : Effects own r s) :
    KeepsScopes own r s := by
  induction h with
  | refl | native | newObject | object | external | page => exact .of_eq rfl rfl rfl rfl rfl
  | trans first rest ihFirst ihRest => exact ihFirst.trans ihRest
  | name r name v => exact .setName r name v
  | closure r params body name => exact .addClosure r params body name
  | call r scope outer body ih => exact ih.leave

/-- Whatever is called and however the call ends, all scopes and functions from before it are as they
were: those of its caller, the globals and what other functions remember. -/
theorem callValue_keeps_scopes (n : Nat) (f : Value) (args : List Value) (timerScope : Option Nat)
    (r : Realm) :
    let s := stateAfter (callValue n f args timerScope) r
    (∀ i < r.scopes.size, s.scopes[i]? = r.scopes[i]?) ∧
    (∀ i < r.closures.size, s.closures[i]? = r.closures[i]?) ∧
    s.current = r.current ∧ s.outer = r.outer := by
  intro s
  have hKeeps : KeepsScopes false r s :=
    ((evaluationLeads n).callValue false f args timerScope r).keepsScopes
  refine ⟨?_, hKeeps.closure, hKeeps.current, hKeeps.outer⟩
  intro i hi
  exact hKeeps.scope i hi (by simp)

end PageRender.Script
