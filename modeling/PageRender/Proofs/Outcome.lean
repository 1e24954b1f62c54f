/-! # Outcomes

An action that may fail has a value only if all its parts have one.
-/

namespace PageRender.Outcome

variable {ε α β : Type}

theorem ok_bind {x : Except ε α} {v : α} (h : x = .ok v) (f : α → Except ε β) : x >>= f = f v := by
  rw [h]
  rfl

theorem bind_eq_ok_iff {x : Except ε α} {f : α → Except ε β} {w : β} :
    x >>= f = .ok w ↔ ∃ v, x = .ok v ∧ f v = .ok w := by
  cases x <;> simp [bind, Except.bind]

theorem map_eq_ok_iff {x : Except ε α} {f : α → β} {w : β} :
    x.map f = .ok w ↔ ∃ v, x = .ok v ∧ f v = w := by
  cases x <;> simp [Except.map]

theorem mapError_eq_ok_iff {δ : Type} {x : Except ε α} {f : ε → δ} {v : α} :
    x.mapError f = .ok v ↔ x = .ok v := by
  cases x with
  | error e =>
    show (Except.error (f e) : Except δ α) = .ok v ↔ Except.error e = .ok v
    simp
  | ok w =>
    show (Except.ok w : Except δ α) = .ok v ↔ (Except.ok w : Except ε α) = .ok v
    simp

theorem exists_of_isOk {x : Except ε α} (h : x.isOk = true) : ∃ v, x = .ok v := by
  cases x with
  | error e => cases h
  | ok v => exact ⟨v, rfl⟩

end PageRender.Outcome
