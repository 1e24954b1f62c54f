import PageRender.Proofs.Layout.Content
import PageRender.Proofs.Layout.Exact

/-! # Boxes beside and below one another

The boxes of a page are listed from the outside in and in the order in which they are laid out. Each one
lies within the height of the boxes around it. So what comes later in the listing is inside what comes
before it, or below it, or on the same line and to the right of it. A word or a control has nothing
inside: all that follows it in the listing stays clear of it.
-/

namespace PageRender

namespace Extent

structure Within (top bottom : ℚ) (e : Extent ℚ) : Prop where
  top_le : top ≤ e.y
  bottom_le : e.bottom ≤ bottom

theorem Within.mono {top bottom top' bottom' : ℚ} {e : Extent ℚ} (h : e.Within top bottom)
    (hTop : top' ≤ top) (hBottom : bottom ≤ bottom') : e.Within top' bottom' :=
  ⟨le_trans hTop h.top_le, le_trans h.bottom_le hBottom⟩

/-- The second box begins where the first one ends, to its right or below it, or further away. -/
def Clears (e f : Extent ℚ) : Prop :=
  e.right ≤ f.x ∨ e.bottom ≤ f.y

end Extent

/-- A listing of boxes between two heights, in which all that follows a word or a control is clear of
it. -/
structure Stacked (top bottom : ℚ) (boxes : List (Nat × Box ℚ)) : Prop where
  within : ∀ e ∈ boxes, e.2.extent.Within top bottom
  clear : boxes.Pairwise fun e f => ∀ i, e.2 = .item i → i.extent.Clears f.2.extent

namespace Stacked

variable {top middle bottom : ℚ} {boxes others : List (Nat × Box ℚ)}

theorem nil (top bottom : ℚ) : Stacked top bottom [] where
  within _ h := absurd h List.not_mem_nil
  clear := .nil

theorem mono {top' bottom' : ℚ} (h : Stacked top bottom boxes) (hTop : top' ≤ top)
    (hBottom : bottom ≤ bottom') : Stacked top' bottom' boxes :=
  ⟨fun e he => (h.within e he).mono hTop hBottom, h.clear⟩

/-- Below a listing there is room for another one. -/
theorem append (h : Stacked top middle boxes) (k : Stacked middle bottom others) (hTop : top ≤ middle)
    (hBottom : middle ≤ bottom) : Stacked top bottom (boxes ++ others) where
  within e he := by
    rcases List.mem_append.mp he with he | he
    · exact (h.within e he).mono le_rfl hBottom
    · exact (k.within e he).mono hTop le_rfl
  clear := by
    -- Across the two listings, all of the second one is below all of the first.
    refine List.pairwise_append.mpr ⟨h.clear, k.clear, fun e he f hf i hItem => .inr ?_⟩
    have hAbove : e.2.extent.bottom ≤ middle := (h.within e he).bottom_le
    rw [hItem] at hAbove
    exact le_trans hAbove (k.within f hf).top_le

/-- A box that can hold others comes before them. -/
theorem cons {depth : Nat} {box : Box ℚ} (hOuter : ∀ i, box ≠ .item i)
    (hBox : box.extent.Within top bottom) (h : Stacked top bottom boxes) :
    Stacked top bottom ((depth, box) :: boxes) where
  within e he := by
    rcases List.mem_cons.mp he with rfl | he
    · exact hBox
    · exact h.within e he
  clear := List.pairwise_cons.mpr ⟨fun _ _ i hItem => absurd hItem (hOuter i), h.clear⟩

end Stacked

section

variable [NumeralReading]

/-! ## Lines -/

theorem le_of_mem_placeItems {x baseline : ℚ} {ms : List (MeasuredItem ℚ)}
    (hSound : ∀ m ∈ ms, m.IsSound) : ∀ i ∈ placeItems x baseline ms, x ≤ i.extent.x := by
  induction ms generalizing x with
  | nil => exact fun _ hNone => absurd hNone List.not_mem_nil
  | cons m ms ih =>
    rw [List.forall_mem_cons] at hSound
    obtain ⟨hFirst, hRest⟩ := hSound
    intro i hi
    rcases List.mem_cons.mp hi with rfl | hi
    · exact le_rfl
    · have hStart := ih hRest i hi
      have hWidth := hFirst.width
      have hSpace := hFirst.space
      linarith

/-- Items on a line stand beside one another. -/
theorem pairwise_placeItems {x baseline : ℚ} {ms : List (MeasuredItem ℚ)}
    (hSound : ∀ m ∈ ms, m.IsSound) :
    (placeItems x baseline ms).Pairwise fun i j => i.extent.right ≤ j.extent.x := by
  induction ms generalizing x with
  | nil => exact .nil
  | cons m ms ih =>
    rw [List.forall_mem_cons] at hSound
    obtain ⟨hFirst, hRest⟩ := hSound
    refine List.pairwise_cons.mpr ⟨fun j hj => ?_, ih hRest⟩
    have hStart := le_of_mem_placeItems hRest j hj
    have hSpace := hFirst.space
    rw [Extent.right]
    linarith

theorem exists_of_mem_placeItems {x baseline : ℚ} {ms : List (MeasuredItem ℚ)} {i : Item ℚ}
    (hi : i ∈ placeItems x baseline ms) : ∃ m ∈ ms, ∃ x',
      i = ⟨m.node, m.kind, m.font, ⟨x', baseline - m.font.ascent, m.width, m.font.lineSpace⟩⟩ := by
  induction ms generalizing x with
  | nil => cases hi
  | cons m ms ih =>
    rcases List.mem_cons.mp hi with rfl | hi
    · exact ⟨m, List.mem_cons_self, x, rfl⟩
    · obtain ⟨m', hm', hPlace⟩ := ih hi
      exact ⟨m', List.mem_cons_of_mem _ hm', hPlace⟩

theorem y_placeLine (x y width : ℚ) (ms : List (MeasuredItem ℚ)) : (placeLine x y width ms).extent.y = y := by
  cases ms <;> rfl

theorem height_placeLine_nonneg (x y width : ℚ) {ms : List (MeasuredItem ℚ)}
    (hFonts : ∀ m ∈ ms, 0 ≤ m.font.ascent ∧ 0 ≤ m.font.descent) :
    0 ≤ (placeLine x y width ms).extent.height := by
  cases ms with
  | nil => exact le_rfl
  | cons m others =>
    obtain ⟨hAbove, hBelow⟩ := hFonts m List.mem_cons_self
    have hAscent : m.font.ascent ≤ Scalar.greatest m.font.ascent (others.map (·.font.ascent)) :=
      Scalar.le_greatest List.mem_cons_self
    have hDescent : m.font.descent ≤ Scalar.greatest m.font.descent (others.map (·.font.descent)) :=
      Scalar.le_greatest List.mem_cons_self
    rw [placeLine, lineFactor_rat]
    dsimp only
    linarith

/-- A line is high enough for its items. -/
theorem within_placeLine {x y width : ℚ} {ms : List (MeasuredItem ℚ)} (hLevel : ∀ m ∈ ms, m.font.IsLevel) :
    ∀ i ∈ (placeLine x y width ms).items,
      i.extent.Within y (y + (placeLine x y width ms).extent.height) := by
  cases ms with
  | nil => exact fun _ hNone => absurd hNone List.not_mem_nil
  | cons first others =>
    intro i hi
    obtain ⟨m, hm, x', rfl⟩ := exists_of_mem_placeItems hi
    have hFont := hLevel m hm
    have hAscent : m.font.ascent ≤ Scalar.greatest first.font.ascent (others.map (·.font.ascent)) :=
      Scalar.le_greatest (List.mem_map_of_mem (f := (·.font.ascent)) hm)
    have hDescent : m.font.descent ≤ Scalar.greatest first.font.descent (others.map (·.font.descent)) :=
      Scalar.le_greatest (List.mem_map_of_mem (f := (·.font.descent)) hm)
    have hAbove := hFont.ascent
    have hBelow := hFont.descent
    have hSpace := hFont.lineSpace
    constructor
    · rw [lineFactor_rat]
      dsimp only
      linarith
    · rw [placeLine, lineFactor_rat, Extent.bottom]
      dsimp only
      linarith

theorem pairwise_placeLine {x y width : ℚ} {ms : List (MeasuredItem ℚ)} (hSound : ∀ m ∈ ms, m.IsSound) :
    (placeLine x y width ms).items.Pairwise fun i j => i.extent.right ≤ j.extent.x := by
  cases ms with
  | nil => exact .nil
  | cons m ms => exact pairwise_placeItems hSound

theorem stacked_placeLine {x y width : ℚ} {ms : List (MeasuredItem ℚ)} (hSound : ∀ m ∈ ms, m.IsSound)
    (depth : Nat) (node : PageTree) :
    Stacked y (y + (placeLine x y width ms).extent.height)
      ((depth, .line node (placeLine x y width ms)) ::
        (placeLine x y width ms).items.map fun i => (depth + 1, .item i)) := by
  have hTop := y_placeLine x y width ms
  refine .cons (by rintro i ⟨⟩) ⟨le_of_eq hTop.symm, le_of_eq (congrArg (· + _) hTop)⟩ ⟨?_, ?_⟩
  · intro e he
    obtain ⟨i, hi, rfl⟩ := List.mem_map.mp he
    exact within_placeLine (fun m hm => (hSound m hm).font.isLevel) i hi
  · refine List.pairwise_map.mpr ((pairwise_placeLine hSound).imp ?_)
    intro i j hBeside k hItem
    cases hItem
    exact .inl hBeside

/-- The lines of a block are stacked, and take up the sum of their heights. -/
theorem stacked_placeLines {x y width : ℚ} {lines : List (List (MeasuredItem ℚ))}
    (hSound : ∀ m ∈ lines.flatten, m.IsSound) (depth : Nat) (node : PageTree) :
    0 ≤ Scalar.sum ((placeLines x y width lines).map (·.extent.height)) ∧
    Stacked y (y + Scalar.sum ((placeLines x y width lines).map (·.extent.height)))
      (Block.lineOutline depth node (placeLines x y width lines)) := by
  rw [Scalar.sum_rat]
  induction lines generalizing y with
  | nil => exact ⟨le_rfl, .nil _ _⟩
  | cons ms rest ih =>
    rw [List.flatten_cons, List.forall_mem_append] at hSound
    obtain ⟨hFirst, hRest⟩ := hSound
    have hLine := height_placeLine_nonneg x y width fun m hm =>
      ⟨(hFirst m hm).font.ascent, (hFirst m hm).font.descent⟩
    obtain ⟨hBelow, hOthers⟩ := ih (y := y + (placeLine x y width ms).extent.height) hRest
    rw [placeLines, List.map_cons, List.sum_cons]
    refine ⟨by linarith, (stacked_placeLine hFirst depth node).append (hOthers.mono le_rfl ?_) ?_ ?_⟩
    all_goals linarith

theorem forall_fillLines {fonts : FontSource ℚ} {P : MeasuredItem ℚ → Prop}
    (hMeasure : ∀ node kind m, measureItem fonts node kind = .ok m → P m) {available : ℚ}
    {ps : List Piece} {f g : LineFilling ℚ} (hBefore : ∀ m ∈ f.items, P m)
    (h : fillLines fonts available f ps = .ok g) : ∀ m ∈ g.items, P m := by
  induction ps generalizing f with
  | nil =>
    cases h
    exact hBefore
  | cons p ps ih =>
    cases p with
    | lineBreak =>
      refine ih ?_ h
      rwa [LineFilling.items_newLine]
    | item node kind =>
      obtain ⟨m, hm, hRest⟩ := Outcome.bind_eq_ok_iff.mp h
      refine ih ?_ hRest
      rw [LineFilling.items_place, List.forall_mem_append, List.forall_mem_singleton]
      exact ⟨hBefore, hMeasure node kind m hm⟩

/-! ## Blocks -/

structure Edges.Nonneg (e : Edges ℚ) : Prop where
  top : 0 ≤ e.top
  right : 0 ≤ e.right
  bottom : 0 ≤ e.bottom
  left : 0 ≤ e.left

instance (e : Edges ℚ) : Decidable e.Nonneg :=
  decidable_of_iff (0 ≤ e.top ∧ 0 ≤ e.right ∧ 0 ≤ e.bottom ∧ 0 ≤ e.left)
    ⟨fun ⟨ht, hr, hb, hl⟩ => ⟨ht, hr, hb, hl⟩, fun h => ⟨h.top, h.right, h.bottom, h.left⟩⟩

structure BlockFrame.Nonneg (f : BlockFrame ℚ) : Prop where
  margin : f.margin.Nonneg
  padding : f.padding.Nonneg
  border : 0 ≤ f.border.width

instance (f : BlockFrame ℚ) : Decidable f.Nonneg :=
  decidable_of_iff (f.margin.Nonneg ∧ f.padding.Nonneg ∧ 0 ≤ f.border.width)
    ⟨fun ⟨hm, hp, hb⟩ => ⟨hm, hp, hb⟩, fun h => ⟨h.margin, h.padding, h.border⟩⟩

/-- No edge of the box is negative; only blocks have edges. -/
def Box.Nonneg : Box ℚ → Prop
  | .block f _ => f.Nonneg
  | .document _ | .line .. | .item _ => True

instance : (b : Box ℚ) → Decidable b.Nonneg
  | .block f _ => inferInstanceAs (Decidable f.Nonneg)
  | .document _ | .line .. | .item _ => .isTrue trivial

omit [NumeralReading] in
theorem nonneg_frame {b : Block ℚ} {depth : Nat} (h : ∀ e ∈ b.outline depth, e.2.Nonneg) :
    b.frame.Nonneg := by
  cases b <;> exact h _ List.mem_cons_self

/-- A block that begins below `above`, and whose boxes lie within its height. -/
structure Block.Sits (depth : Nat) (above : ℚ) (b : Block ℚ) : Prop where
  y : b.frame.extent.y = above + b.frame.margin.top
  height : 0 ≤ b.frame.extent.height
  stacked : Stacked b.frame.extent.y b.frame.extent.bottom (b.outline depth)

section

variable {left available above contentHeight : ℚ} {n : PageTree} {f : BlockFrame ℚ} {depth : Nat}
  {inside : List (Nat × Box ℚ)}

theorem stacked_close (hFrame : f = (openBlock left available above n).close contentHeight)
    (hNonneg : f.Nonneg) (hHeight : 0 ≤ contentHeight)
    (hInside : Stacked (openBlock left available above n).contentY
      ((openBlock left available above n).contentY + contentHeight) inside) (holdsLines : Bool) :
    f.extent.y = above + f.margin.top ∧ 0 ≤ f.extent.height ∧
    Stacked f.extent.y f.extent.bottom ((depth, .block f holdsLines) :: inside) := by
  have hTop := hNonneg.padding.top
  have hBottom := hNonneg.padding.bottom
  have hBorder := hNonneg.border
  have hContent : (openBlock left available above n).contentY =
      f.extent.y + f.border.width + f.padding.top := by
    rw [hFrame]
    rfl
  have hOuter : f.extent.height =
      contentHeight + f.padding.top + f.padding.bottom + 2 * f.border.width := by
    rw [hFrame]
    rfl
  refine ⟨?_, by linarith, .cons (by rintro i ⟨⟩) ⟨le_rfl, le_rfl⟩ (hInside.mono ?_ ?_)⟩
  · rw [hFrame]
    rfl
  · linarith
  · rw [Extent.bottom]
    linarith

theorem sits_layoutLines {fonts : FontSource ℚ} (hFonts : fonts.IsSound) {pieces : List Piece}
    {b : Block ℚ} (hNonneg : ∀ e ∈ b.outline depth, e.2.Nonneg)
    (h : layoutLines fonts (openBlock left available above n) pieces = .ok b) : b.Sits depth above := by
  obtain ⟨filled, hFilled, h⟩ := Outcome.bind_eq_ok_iff.mp h
  cases h
  have hSound : ∀ m ∈ filled.items, m.IsSound :=
    forall_fillLines (fun _ _ _ => isSound_measureItem hFonts) (fun _ h => absurd h List.not_mem_nil) hFilled
  obtain ⟨hHeight, hLines⟩ := stacked_placeLines hSound (depth + 1) _
  have hSelf : BlockFrame.Nonneg _ := hNonneg _ List.mem_cons_self
  obtain ⟨hY, hOuter, hStacked⟩ := stacked_close rfl hSelf hHeight hLines true
  exact ⟨hY, hOuter, hStacked⟩

end

/-- Blocks are stacked, and take up the sum of their heights with margins. -/
theorem stacked_of_laidBelow {above : ℚ} {ns : List PageTree} {bs : List (Block ℚ)} {depth : Nat}
    (hNonneg : ∀ e ∈ Block.outlines depth bs, e.2.Nonneg)
    (h : LaidBelow (fun above _ b => (∀ e ∈ b.outline depth, e.2.Nonneg) → b.Sits depth above) above ns bs) :
    0 ≤ Scalar.sum (bs.map (·.frame.outerHeight)) ∧
    Stacked above (above + Scalar.sum (bs.map (·.frame.outerHeight))) (Block.outlines depth bs) := by
  rw [Scalar.sum_rat]
  induction h with
  | nil above =>
    rw [List.map_nil, List.sum_nil, add_zero]
    exact ⟨le_rfl, .nil _ _⟩
  | hidden _ _ ih => exact ih hNonneg
  | @cons above n b ns bs _ hBlock _ ih =>
    rw [Block.outlines, List.forall_mem_append] at hNonneg
    obtain ⟨hFirst, hOthers⟩ := hNonneg
    have hSits := hBlock hFirst
    obtain ⟨hHeight, hStacked⟩ := ih hOthers
    have hMargin := (nonneg_frame hFirst).margin
    have hTop := hMargin.top
    have hBottom := hMargin.bottom
    have hY := hSits.y
    have hInner := hSits.height
    have hOuter : b.frame.outerHeight =
      b.frame.extent.height + b.frame.margin.top + b.frame.margin.bottom := rfl
    have hBelow : b.frame.below = above + b.frame.outerHeight := by
      rw [BlockFrame.below]
      linarith
    rw [hBelow] at hStacked
    rw [List.map_cons, List.sum_cons, ← add_assoc]
    refine ⟨by linarith, (hSits.stacked.mono ?_ ?_).append hStacked ?_ ?_⟩
    · linarith
    · rw [Extent.bottom]
      linarith
    · linarith
    · linarith

theorem sits_layoutBlock {fonts : FontSource ℚ} (hFonts : fonts.IsSound) {left available above : ℚ}
    {n : PageTree} {b : Block ℚ} {depth : Nat} (hNonneg : ∀ e ∈ b.outline depth, e.2.Nonneg)
    (h : layoutBlock fonts left available above n = .ok b) : b.Sits depth above := by
  revert depth
  apply layoutBlock_induction (motive := fun _ _ above _ b => ∀ depth, (∀ e ∈ b.outline depth, e.2.Nonneg) →
    b.Sits depth above) ?_ ?_ h
  · intro left available above n b _ hLines depth hNonneg
    exact sits_layoutLines hFonts hNonneg hLines
  · intro left available above n bs _ hBlocks depth hNonneg
    obtain ⟨hSelf, hChildren⟩ := List.forall_mem_cons.mp hNonneg
    obtain ⟨hHeight, hInside⟩ :=
      stacked_of_laidBelow hChildren (hBlocks.imp fun _ _ _ _ hBlock => hBlock (depth + 1))
    obtain ⟨hY, hOuter, hStacked⟩ := stacked_close rfl hSelf hHeight hInside false
    exact ⟨hY, hOuter, hStacked⟩

end

end PageRender
