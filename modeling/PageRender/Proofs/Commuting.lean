import PageRender.Proofs.Leading

/-! # Actions that commute with a change of the state

An action commutes with a change if it does not matter which of the two comes first. It then answers, or
fails, in both states alike. Actions made of such actions commute with the change as well.
-/

namespace PageRender

variable {ε σ α β : Type}

/-- The same result with its state changed. -/
def changing (g : σ → σ) : EStateM.Result ε σ α → EStateM.Result ε σ α
  | .ok v s => .ok v (g s)
  | .error e s => .error e (g s)

theorem changing_changing (g h : σ → σ) (x : EStateM.Result ε σ α) :
    changing g (changing h x) = changing (g ∘ h) x := by
  cases x <;> rfl

def Commutes (g : σ → σ) (x : EStateM ε σ α) : Prop :=
  ∀ s, x (g s) = changing g (x s)

/-- What an action answers, or why it fails. -/
def outcome (x : EStateM ε σ α) (s : σ) : Except ε α :=
  match x s with
  | .ok v _ => .ok v
  | .error e _ => .error e

theorem outcome_of_ok {x : EStateM ε σ α} {s t : σ} {v : α} (h : x s = .ok v t) :
    outcome x s = .ok v := by
  rw [outcome, h]

theorem outcome_of_error {x : EStateM ε σ α} {s t : σ} {e : ε} (h : x s = .error e t) :
    outcome x s = .error e := by
  rw [outcome, h]

theorem outcome_andReturn (x : EStateM ε σ α) (k : α → β) (s : σ) :
    outcome (do return k (← x)) s = (outcome x s).map k := by
  cases hResult : x s with
  | ok v t =>
    rw [outcome_of_ok hResult, outcome, bind_ok hResult]
    rfl
  | error e t =>
    rw [outcome_of_error hResult, outcome_of_error (bind_error hResult _)]
    rfl

/-- Two runs with the same result but for the state answer alike. -/
theorem of_changing_eq {g h : σ → σ} {x y : EStateM ε σ α} {s t : σ}
    (hSame : changing g (x s) = changing h (y t)) :
    outcome x s = outcome y t ∧ g (stateAfter x s) = h (stateAfter y t) := by
  unfold outcome stateAfter
  cases hx : x s with
  | ok v s' =>
    cases hy : y t with
    | ok w t' =>
      rw [hx, hy] at hSame
      injection hSame with hValue hState
      exact ⟨congrArg Except.ok hValue, hState⟩
    | error e t' =>
      rw [hx, hy] at hSame
      injection hSame
  | error e s' =>
    cases hy : y t with
    | ok w t' =>
      rw [hx, hy] at hSame
      injection hSame
    | error e' t' =>
      rw [hx, hy] at hSame
      injection hSame with hError hState
      exact ⟨congrArg Except.error hError, hState⟩

namespace Commutes

variable {g : σ → σ}

theorem stateAfter {x : EStateM ε σ α} (h : Commutes g x) (s : σ) :
    stateAfter x (g s) = g (PageRender.stateAfter x s) := by
  rw [PageRender.stateAfter, PageRender.stateAfter, h s]
  cases x s <;> rfl

theorem outcome {x : EStateM ε σ α} (h : Commutes g x) (s : σ) :
    outcome x (g s) = PageRender.outcome x s := by
  rw [PageRender.outcome, PageRender.outcome, h s]
  cases x s <;> rfl

theorem pure (v : α) : Commutes g (pure v : EStateM ε σ α) :=
  fun _ => rfl

theorem throw (e : ε) : Commutes g (throw e : EStateM ε σ α) :=
  fun _ => rfl

theorem modify {f : σ → σ} (h : ∀ s, f (g s) = g (f s)) : Commutes g (modify f : EStateM ε σ PUnit) :=
  fun s => congrArg (EStateM.Result.ok PUnit.unit) (h s)

theorem bind {x : EStateM ε σ α} {f : α → EStateM ε σ β} (hx : Commutes g x)
    (hf : ∀ v, Commutes g (f v)) : Commutes g (x >>= f) := by
  intro s
  have hFirst := hx s
  cases hResult : x s with
  | ok v t =>
    rw [hResult] at hFirst
    rw [bind_ok hFirst, bind_ok hResult]
    exact hf v t
  | error e t =>
    rw [hResult] at hFirst
    rw [bind_error hFirst, bind_error hResult]
    rfl

theorem get {f : σ → EStateM ε σ β} (h : ∀ s, f (g s) (g s) = changing g (f s s)) :
    Commutes g (get >>= f) :=
  h

theorem map {x : EStateM ε σ α} (f : α → β) (hx : Commutes g x) : Commutes g (f <$> x) := by
  rw [map_eq_pure_bind]
  exact hx.bind fun v => .pure (f v)

theorem discard {x : EStateM ε σ α} (hx : Commutes g x) : Commutes g (discard x) :=
  hx.map _

end Commutes

end PageRender
