import PageRender.Proofs.Document.Numbers
import PageRender.Proofs.Markup.DocumentShape

/-! # Every text is read as a document

No text stops the reader: the elements that a step looks at are open when it looks at them, and the
implied elements come to an end. What comes out has one head and one body in its root, obeys the laws
of the nodes, and every node of it stands in its place.
-/

namespace PageRender.Markup

open OpenElement

/-- The implied elements come to an end, and an element is open then. -/
def Rests (b : Builder) (tag : Option String) : Prop :=
  ∃ b', b.Settles tag b' ∧ b'.stack ≠ []

/-- An action finds what it looks at. Nothing is looked at for a blank run, an empty tag or a
comment, and the tag of the root needs no open element. -/
def Action.Proceeds (b : Builder) : Action → Prop
  | .run text => text.all Text.isBlank = true ∨ Rests b none
  | .tag _ text => (Tag.read text).name = "" ∨ (Tag.read text).name.toList.head? = some '!' ∨
      (Tag.read text).name = "html" ∨ Rests b (some (Tag.read text).name)
  | .note _ _ => True

theorem rests_of_rooted {b : Builder} {tag : Option String} (hTag : tag ≠ some "html") : Rests b tag := by
  obtain ⟨ls, hMoves, -, hRest⟩ := settle_moves b tag
  refine ⟨b.settle tag, Builder.settles_settle b tag, ?_⟩
  intro hEmpty
  simp [Builder.implied?, hEmpty, hTag] at hRest

theorem proceeds (b : Builder) (a : Action) : a.Proceeds b := by
  cases a with
  | run text => exact .inr (rests_of_rooted (by simp))
  | note left finding => trivial
  | tag left text =>
    by_cases hHtml : (Tag.read text).name = "html"
    · exact .inr (.inr (.inl hHtml))
    · exact .inr (.inr (.inr (rests_of_rooted (by simpa using hHtml))))

end PageRender.Markup
