import PageRender.Proofs.Layout.Stacking
import PageRender.Paint.Page

/-! # What a point hits

A point is taken to mean the node of the last box in the listing that holds it. For a point inside a
word or a control this is the node of that word or control, as nothing that comes later can hold it.
-/

namespace PageRender

/-- The last entry of a list that satisfies a test is one that satisfies it and that no entry with this
property follows. -/
theorem getLast?_filter_of_pairwise {α : Type} {p : α → Bool} {xs : List α} {a : α}
    {R : α → α → Prop} (hPairwise : xs.Pairwise R) (hMem : a ∈ xs) (hSelf : p a = true)
    (hLater : ∀ b, R a b → p b = false) : (xs.filter p).getLast? = some a := by
  obtain ⟨before, after, rfl⟩ := List.append_of_mem hMem
  have hAfter : ∀ b ∈ after, R a b :=
    (List.pairwise_cons.mp (List.pairwise_append.mp hPairwise).2.1).1
  have hNone : after.filter p = [] :=
    List.filter_eq_nil_iff.mpr fun b hb => by rw [hLater b (hAfter b hb)]; exact Bool.false_ne_true
  rw [List.filter_append, List.filter_cons_of_pos hSelf, hNone, List.getLast?_concat]

theorem Extent.not_contains_of_clears [NumeralReading] {e f : Extent ℚ} (h : e.Clears f) {x y : ℚ}
    (hInside : e.rect.contains x y = true) : f.rect.contains x y = false := by
  rw [Extent.contains_rat] at hInside
  rw [← Bool.not_eq_true, Extent.contains_rat]
  rintro ⟨⟨hLeft, -⟩, hTop, -⟩
  rcases h with hBeside | hBelow
  · linarith
  · linarith

/-- In exact arithmetic, on a page without negative edges and with sound fonts, a point inside a word or a
control hits its node. -/
theorem hit?_of_mem_outline [NumeralReading] {fonts : FontSource ℚ} (hFonts : fonts.IsSound) {width : ℚ}
    {root : PageTree} {d : DocumentBox ℚ} (h : layoutStyled fonts width root = .ok d)
    (hNonneg : ∀ e ∈ d.outline, e.2.Nonneg) {depth : Nat} {i : Item ℚ}
    (hItem : (depth, .item i) ∈ d.outline) {x y : ℚ} (hx : i.extent.x ≤ x ∧ x < i.extent.x + i.extent.width)
    (hy : i.extent.y ≤ y ∧ y < i.extent.y + i.extent.height) : d.hit? x y = some i.node := by
  obtain ⟨b, hBlock, hPage⟩ := Outcome.bind_eq_ok_iff.mp (Outcome.mapError_eq_ok_iff.mp h)
  have hInside : i.extent.rect.contains x y = true := Extent.contains_rat.mpr ⟨hx, hy⟩
  have hRoot : d.root = b := by
    cases hPage
    rfl
  rw [DocumentBox.outline, List.forall_mem_cons] at hNonneg
  have hStacked := (sits_layoutBlock hFonts (hRoot ▸ hNonneg.2) hBlock).stacked
  have hClear : d.outline.Pairwise fun e f => ∀ i, e.2 = .item i → i.extent.Clears f.2.extent := by
    rw [DocumentBox.outline, hRoot]
    exact List.pairwise_cons.mpr ⟨fun _ _ _ => nofun, hStacked.clear⟩
  have hLast := getLast?_filter_of_pairwise
    (p := fun e : Nat × Box ℚ => e.2.extent.rect.contains x y) hClear hItem hInside
    fun e he => Extent.not_contains_of_clears (he i rfl) hInside
  rw [DocumentBox.hit?, hLast]
  rfl

/-- Numerals without a value are read as zero. -/
instance : NumeralReading where
  toRat
    | .finite negative digits exponent => (if negative then -1 else 1) * digits * 10 ^ exponent
    | .infinite _ | .undefined => 0
  toRat_finite _ _ _ := rfl

/-- A font all of whose characters are half as wide as it is high. -/
def evenFont (size : ℚ) (c : FontChoice ℚ) : Font ℚ where
  choice := c
  measure text := .ok (size / 2 * text.length)
  ascent := 3 / 4 * size
  descent := 1 / 4 * size
  lineSpace := size

/-- Fonts of two sizes, the larger one for heavy words. -/
def evenFonts : FontSource ℚ := fun c =>
  .ok (evenFont (if c.weight == "bold" then 24 else 16) c)

theorem isSound_evenFont {size : ℚ} (h : 0 ≤ size) (c : FontChoice ℚ) : (evenFont size c).IsSound where
  measure text width hWidth := by
    cases hWidth
    exact mul_nonneg (div_nonneg h zero_le_two) text.length.cast_nonneg
  ascent := mul_nonneg (by norm_num) h
  descent := mul_nonneg (by norm_num) h
  lineSpace := by
    rw [evenFont]
    linarith

theorem isSound_evenFonts : evenFonts.IsSound := by
  intro c font h
  cases h
  apply isSound_evenFont
  split <;> norm_num

/-- A heading and a form with a text, a control and a heavy word in one line. -/
def formPage : PageTree :=
  let heavy := StyleMap.empty.set "font-weight" "bold"
  .element { id := 0 } "body" .empty [
    .element { id := 1, style := StyleMap.empty.set "margin" "8px 2em" } "h1" .empty [
      .text { id := 2, style := heavy } "Your name"],
    .element { id := 3, style := StyleMap.empty.set "border" "solid" } "form" .empty [
      .text { id := 4 } "Name: ",
      .element { id := 5 } "input" .empty [],
      .text { id := 6, style := heavy } "please"]]

theorem hit?_formPage :
    ∃ d i, evenFonts.IsSound ∧ layoutStyled evenFonts 774 formPage = .ok d ∧
      (∀ e ∈ d.outline, e.2.Nonneg) ∧ (4, Box.item i) ∈ d.outline ∧
      (i.extent.x ≤ 80 ∧ 80 < i.extent.x + i.extent.width) ∧
      (i.extent.y ≤ 80 ∧ 80 < i.extent.y + i.extent.height) ∧
      d.hit? 80 80 = some i.node ∧ i.node.info.id = 5 := by
  have hTest : (match layoutStyled evenFonts 774 formPage with
      | .ok d => d.outline.all (fun e => e.2.Nonneg) && d.outline.any fun e =>
        match e.2 with
        | .item i => e.1 == 4 && i.node.info.id == 5 &&
          decide ((i.extent.x ≤ 80 ∧ 80 < i.extent.x + i.extent.width) ∧
            i.extent.y ≤ 80 ∧ 80 < i.extent.y + i.extent.height)
        | _ => false
      | .error _ => false) = true := by decide +kernel
  split at hTest
  · rename_i d hLayout
    obtain ⟨hEdges, hItem⟩ := (Bool.and_eq_true _ _).mp hTest
    have hNonneg : ∀ e ∈ d.outline, e.2.Nonneg := by simpa using hEdges
    obtain ⟨⟨depth, box⟩, hMem, hItem⟩ := List.any_eq_true.mp hItem
    dsimp only at hItem
    split at hItem
    · rename_i i
      simp only [Bool.and_eq_true, beq_iff_eq, decide_eq_true_eq] at hItem
      obtain ⟨⟨rfl, hId⟩, hx, hy⟩ := hItem
      exact ⟨d, i, isSound_evenFonts, hLayout, hNonneg, hMem, hx, hy,
        hit?_of_mem_outline isSound_evenFonts hLayout hNonneg hMem hx hy, hId⟩
    · cases hItem
  · cases hTest

end PageRender
