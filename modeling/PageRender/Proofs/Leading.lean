import Mathlib.Order.Defs.Unbundled

/-! # Where actions lead

An action that may fail leaves a state behind however it ends. A relation that is reflexive and
transitive holds between the state before an action and the one it leaves as soon as it does so for
the parts of the action.
-/

namespace PageRender

variable {ε σ α β : Type}

/-- The state that an action leaves, however it ends. -/
def stateAfter (x : EStateM ε σ α) (s : σ) : σ :=
  match x s with
  | .ok _ t => t
  | .error _ t => t

/-- However it ends, the action leaves a state that is related to the one before it. -/
def Leads (R : σ → σ → Prop) (x : EStateM ε σ α) : Prop :=
  ∀ s, R s (stateAfter x s)

theorem stateAfter_of_ok {x : EStateM ε σ α} {s t : σ} {v : α} (h : x s = .ok v t) :
    stateAfter x s = t := by
  rw [stateAfter, h]

theorem stateAfter_of_error {x : EStateM ε σ α} {s t : σ} {e : ε} (h : x s = .error e t) :
    stateAfter x s = t := by
  rw [stateAfter, h]

theorem exists_eq_ok_of_match {x : EStateM ε σ α} {s : σ} {p : α → σ → Bool}
    (h : (match x s with | .ok v t => p v t | .error .. => false) = true) :
    ∃ v t, x s = .ok v t ∧ p v t = true := by
  cases hResult : x s with
  | ok v t =>
    rw [hResult] at h
    exact ⟨v, t, rfl, h⟩
  | error e t =>
    rw [hResult] at h
    cases h

theorem bind_ok {x : EStateM ε σ α} {s t : σ} {v : α} (h : x s = .ok v t) (f : α → EStateM ε σ β) :
    (x >>= f) s = f v t := by
  simp only [bind, EStateM.bind, h]

theorem bind_error {x : EStateM ε σ α} {s t : σ} {e : ε} (h : x s = .error e t)
    (f : α → EStateM ε σ β) : (x >>= f) s = .error e t := by
  simp only [bind, EStateM.bind, h]

theorem get_bind (f : σ → EStateM ε σ β) (s : σ) : (get >>= f) s = f s s :=
  rfl

theorem modify_bind (g : σ → σ) (f : PUnit → EStateM ε σ β) (s : σ) : (modify g >>= f) s = f ⟨⟩ (g s) :=
  rfl

theorem stateAfter_get (f : σ → EStateM ε σ β) (s : σ) : stateAfter (get >>= f) s = stateAfter (f s) s :=
  rfl

theorem stateAfter_bind {x : EStateM ε σ α} {s t : σ} {v : α} (h : x s = .ok v t)
    (f : α → EStateM ε σ β) : stateAfter (x >>= f) s = stateAfter (f v) t := by
  rw [stateAfter, bind_ok h, stateAfter]

theorem exists_of_bind_eq_ok {x : EStateM ε σ α} {f : α → EStateM ε σ β} {s t : σ} {w : β}
    (h : (x >>= f) s = .ok w t) : ∃ v s', x s = .ok v s' ∧ f v s' = .ok w t := by
  cases hx : x s with
  | ok v s' => exact ⟨v, s', rfl, by rw [← h, bind_ok hx]⟩
  | error e s' =>
    rw [bind_error hx] at h
    cases h

theorem exists_of_discard_eq_ok {x : EStateM ε σ α} {s t : σ} (h : discard x s = .ok () t) :
    ∃ v, x s = .ok v t := by
  change ((fun _ => PUnit.unit) <$> x) s = _ at h
  rw [map_eq_pure_bind] at h
  obtain ⟨v, s', hFirst, hRest⟩ := exists_of_bind_eq_ok h
  cases hRest
  exact ⟨v, hFirst⟩

theorem eq_error_of_discard {x : EStateM ε σ α} {s t : σ} {e : ε} (h : discard x s = .error e t) :
    x s = .error e t := by
  change ((fun _ => PUnit.unit) <$> x) s = _ at h
  rw [map_eq_pure_bind] at h
  cases hResult : x s with
  | ok v s' =>
    rw [bind_ok hResult] at h
    cases h
  | error e' s' =>
    rw [bind_error hResult] at h
    cases h
    rfl

namespace Leads

variable {R : σ → σ → Prop} [IsPreorder σ R]

omit [IsPreorder σ R] in
theorem of_ok {x : EStateM ε σ α} {s t : σ} {v : α} (hx : Leads R x) (h : x s = .ok v t) : R s t := by
  have hAfter := hx s
  rwa [stateAfter_of_ok h] at hAfter

theorem pure (v : α) : Leads R (pure v : EStateM ε σ α) :=
  fun s => refl_of R s

theorem throw (e : ε) : Leads R (throw e : EStateM ε σ α) :=
  fun s => refl_of R s

omit [IsPreorder σ R] in
theorem modify {f : σ → σ} (h : ∀ s, R s (f s)) : Leads R (modify f : EStateM ε σ PUnit) :=
  h

theorem bind {x : EStateM ε σ α} {f : α → EStateM ε σ β} (hx : Leads R x) (hf : ∀ v, Leads R (f v)) :
    Leads R (x >>= f) := by
  intro s
  have hFirst := hx s
  cases hResult : x s with
  | ok v t =>
    rw [stateAfter_of_ok hResult] at hFirst
    rw [stateAfter, bind_ok hResult]
    exact trans_of R hFirst (hf v t)
  | error e t =>
    rw [stateAfter_of_error hResult] at hFirst
    rw [stateAfter, bind_error hResult]
    exact hFirst

omit [IsPreorder σ R] in
/-- What an action does may depend on the state it finds. -/
theorem get {f : σ → EStateM ε σ β} (h : ∀ s, R s (stateAfter (f s) s)) : Leads R (get >>= f) :=
  h

theorem map {x : EStateM ε σ α} (f : α → β) (hx : Leads R x) : Leads R (f <$> x) := by
  rw [map_eq_pure_bind]
  exact hx.bind fun v => .pure (f v)

theorem discard {x : EStateM ε σ α} (hx : Leads R x) : Leads R (discard x) :=
  hx.map _

theorem mapM {f : α → EStateM ε σ β} (hf : ∀ v, Leads R (f v)) (vs : List α) : Leads R (vs.mapM f) := by
  induction vs with
  | nil => exact .pure []
  | cons v vs ih =>
    rw [List.mapM_cons]
    exact (hf v).bind fun w => ih.bind fun ws => .pure (w :: ws)

theorem forIn {f : α → β → EStateM ε σ (ForInStep β)} (hf : ∀ v w, Leads R (f v w)) (vs : List α)
    (w : β) : Leads R (forIn vs w f) := by
  induction vs generalizing w with
  | nil => exact .pure w
  | cons v vs ih =>
    rw [List.forIn_cons]
    refine (hf v w).bind fun step => ?_
    cases step with
    | done w => exact .pure w
    | yield w => exact ih w

omit [IsPreorder σ R] in
theorem imp {Q : σ → σ → Prop} {x : EStateM ε σ α} (hx : Leads R x) (h : ∀ s t, R s t → Q s t) :
    Leads Q x :=
  fun s => h s _ (hx s)

end Leads

/-! ## What actions keep -/

/-- However it ends, the action keeps the invariant, and its value has the property. -/
structure Keeps (I : σ → Prop) (K : α → Prop) (x : EStateM ε σ α) : Prop where
  ok : ∀ {s t v}, I s → x s = .ok v t → I t ∧ K v
  error : ∀ {s t e}, I s → x s = .error e t → I t

theorem Keeps.stateAfter {I : σ → Prop} {K : α → Prop} {x : EStateM ε σ α} (hx : Keeps I K x) {s : σ}
    (hs : I s) : I (PageRender.stateAfter x s) := by
  cases hResult : x s with
  | ok v t =>
    rw [stateAfter_of_ok hResult]
    exact (hx.ok hs hResult).1
  | error e t =>
    rw [stateAfter_of_error hResult]
    exact hx.error hs hResult

end PageRender
