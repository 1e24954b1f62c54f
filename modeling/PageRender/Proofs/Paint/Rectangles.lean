import PageRender.Proofs.Layout.Heights

/-! # Rectangles of paint commands

Every command comes from a box, with the rectangle of that box or of a text in it. Down the tree the boxes get
narrower by margins, borders and paddings. The room that a block leaves to what is inside is never negative, but the
margins of a block inside can be wider than that. Such a block has a negative width, and is painted with it.
-/

namespace PageRender

/-! ## Commands of boxes -/

section

variable {α : Type} [Scalar α]

/-- What a box paints itself. -/
def Box.Paints : Box α → Command α → Prop
  | .block f _, c => c ∈ paintFrame f
  | .item i, c => ∃ cs, paintItem i = .ok cs ∧ c ∈ cs
  | .document _, _ | .line .., _ => False

/-- The commands are those of the boxes. -/
def PaintedBy (cs : List (Command α)) (boxes : List (Nat × Box α)) : Prop :=
  ∀ c, c ∈ cs ↔ ∃ e ∈ boxes, e.2.Paints c

namespace PaintedBy

variable {cs ds : List (Command α)} {boxes others : List (Nat × Box α)}

theorem nil : PaintedBy ([] : List (Command α)) [] := by
  intro c
  simp

theorem append (h : PaintedBy cs boxes) (k : PaintedBy ds others) : PaintedBy (cs ++ ds) (boxes ++ others) := by
  intro c
  rw [List.mem_append, h c, k c]
  simp only [List.mem_append, or_and_right, exists_or]

theorem cons {box : Box α} (hBox : ∀ c, c ∈ cs ↔ box.Paints c) (h : PaintedBy ds boxes) (depth : Nat) :
    PaintedBy (cs ++ ds) ((depth, box) :: boxes) := by
  intro c
  rw [List.mem_append, hBox c, h c]
  simp only [List.mem_cons, or_and_right, exists_or, exists_eq_left]

end PaintedBy

theorem paintedBy_items {is : List (Item α)} {cs : List (Command α)} (h : paintItems is = .ok cs) (depth : Nat) :
    PaintedBy cs (is.map fun i => (depth, .item i)) := by
  induction is generalizing cs with
  | nil =>
    cases h
    exact .nil
  | cons i is ih =>
    obtain ⟨first, hFirst, h⟩ := Outcome.bind_eq_ok_iff.mp h
    obtain ⟨others, hOthers, h⟩ := Outcome.bind_eq_ok_iff.mp h
    cases h
    refine .cons (fun c => ?_) (ih hOthers) depth
    constructor
    · exact fun hc => ⟨first, hFirst, hc⟩
    · rintro ⟨cs, hPaint, hc⟩
      obtain rfl := Except.ok.inj (hFirst.symm.trans hPaint)
      exact hc

theorem paintedBy_lines {node : PageTree} {ls : List (Line α)} {cs : List (Command α)}
    (h : paintItems (ls.flatMap (·.items)) = .ok cs) (depth : Nat) :
    PaintedBy cs (Block.lineOutline depth node ls) := by
  intro c
  rw [paintedBy_items h (depth + 1) c]
  constructor
  · rintro ⟨e, he, hc⟩
    obtain ⟨i, hi, rfl⟩ := List.mem_map.mp he
    obtain ⟨l, hl, hi⟩ := List.mem_flatMap.mp hi
    exact ⟨_, List.mem_flatMap.mpr ⟨l, hl, List.mem_cons_of_mem _ (List.mem_map_of_mem hi)⟩, hc⟩
  · rintro ⟨e, he, hc⟩
    obtain ⟨l, hl, he⟩ := List.mem_flatMap.mp he
    rcases List.mem_cons.mp he with rfl | he
    · exact hc.elim
    · obtain ⟨i, hi, rfl⟩ := List.mem_map.mp he
      exact ⟨_, List.mem_map_of_mem (List.mem_flatMap.mpr ⟨l, hl, hi⟩), hc⟩

mutual

theorem paintedBy_block {b : Block α} {cs : List (Command α)} (h : paintBlock b = .ok cs) (depth : Nat) :
    PaintedBy cs (b.outline depth) := by
  cases b with
  | lines f ls =>
    rw [paintBlock] at h
    obtain ⟨inside, hInside, h⟩ := Outcome.bind_eq_ok_iff.mp h
    cases h
    exact .cons (fun _ => Iff.rfl) (paintedBy_lines hInside (depth + 1)) depth
  | blocks f bs =>
    rw [paintBlock] at h
    obtain ⟨inside, hInside, h⟩ := Outcome.bind_eq_ok_iff.mp h
    cases h
    exact .cons (fun _ => Iff.rfl) (paintedBy_blocks hInside (depth + 1)) depth

theorem paintedBy_blocks {bs : List (Block α)} {cs : List (Command α)} (h : paintBlocks bs = .ok cs)
    (depth : Nat) : PaintedBy cs (Block.outlines depth bs) := by
  cases bs with
  | nil =>
    rw [paintBlocks] at h
    cases h
    exact .nil
  | cons b bs =>
    rw [paintBlocks] at h
    obtain ⟨first, hFirst, h⟩ := Outcome.bind_eq_ok_iff.mp h
    obtain ⟨others, hOthers, h⟩ := Outcome.bind_eq_ok_iff.mp h
    cases h
    exact (paintedBy_block hFirst depth).append (paintedBy_blocks hOthers depth)

end

theorem rect_of_mem_paintBackground {n : PageTree} {e : Extent α} {c : Command α}
    (h : c ∈ paintBackground n e) : c.rect = e.rect := by
  rw [paintBackground] at h
  split at h
  · cases h
  · obtain rfl := List.mem_singleton.mp h
    rfl

theorem rect_of_mem_paintFrame {f : BlockFrame α} {c : Command α} (h : c ∈ paintFrame f) :
    c.rect = f.extent.rect := by
  rw [paintFrame] at h
  split at h
  · cases h
  · rcases List.mem_append.mp h with h | h
    · exact rect_of_mem_paintBackground h
    · split at h
      · obtain rfl := List.mem_singleton.mp h
        rfl
      · cases h

/-- What a control can paint: its background, a border around it, the label and the cursor behind the label. -/
inductive Item.PaintsAsControl (i : Item α) : Command α → Prop
  | background {c : Command α} (h : c ∈ paintBackground i.node i.extent) : PaintsAsControl i c
  | border (color : String) (thickness : α) : PaintsAsControl i (.border i.extent.rect color thickness)
  | label {x y : α} {text color : String} {c : Command α} (h : Command.textAt x y text i.font color = .ok c) :
      PaintsAsControl i c
  | cursor (x y height : α) (color : String) :
      PaintsAsControl i (.cursor ⟨x, y, x + Scalar.ofNat 1, y + Scalar.max (Scalar.ofNat 0) height⟩ color)

theorem paintsAsControl_of_mem {i : Item α} {cs : List (Command α)} (h : paintControl i = .ok cs) :
    ∀ c ∈ cs, i.PaintsAsControl c := by
  have hNone : ∀ c ∈ ([] : List (Command α)), i.PaintsAsControl c := List.forall_mem_nil _
  have hParts {color : String} {thickness : α} {text cursor : List (Command α)}
      (hText : ∀ c ∈ text, i.PaintsAsControl c) (hCursor : ∀ c ∈ cursor, i.PaintsAsControl c) :
      ∀ c ∈ paintBackground i.node i.extent ++ [.border i.extent.rect color thickness] ++ text ++ cursor,
        i.PaintsAsControl c := by
    simp only [List.forall_mem_append, List.forall_mem_singleton]
    exact ⟨⟨⟨fun c hc => .background hc, .border color thickness⟩, hText⟩, hCursor⟩
  obtain ⟨labelWidth, -, h⟩ := Outcome.bind_eq_ok_iff.mp h
  dsimp only at h
  split at h
  · obtain ⟨text, hText, h⟩ := Outcome.bind_eq_ok_iff.mp h
    cases hText
    split at h
    · obtain ⟨before, -, h⟩ := Outcome.bind_eq_ok_iff.mp h
      rw [← Except.ok.inj h]
      exact hParts hNone (List.forall_mem_singleton.mpr (.cursor ..))
    · rw [← Except.ok.inj h]
      exact hParts hNone hNone
  · obtain ⟨text, hText, h⟩ := Outcome.bind_eq_ok_iff.mp h
    obtain ⟨label, hLabel, rfl⟩ := Outcome.map_eq_ok_iff.mp hText
    have hText := List.forall_mem_singleton.mpr (Item.PaintsAsControl.label hLabel)
    split at h
    · obtain ⟨before, -, h⟩ := Outcome.bind_eq_ok_iff.mp h
      rw [← Except.ok.inj h]
      exact hParts hText (List.forall_mem_singleton.mpr (.cursor ..))
    · rw [← Except.ok.inj h]
      exact hParts hText hNone

end

/-! ## Commands of items -/

structure Font.IsNonneg (font : Font ℚ) : Prop where
  measure : ∀ text width, font.measure text = .ok width → 0 ≤ width
  ascent : 0 ≤ font.ascent
  descent : 0 ≤ font.descent
  lineSpace : 0 ≤ font.lineSpace

def FontSource.IsNonneg (fonts : FontSource ℚ) : Prop :=
  ∀ choice font, fonts choice = .ok font → font.IsNonneg

/-- An item as it was measured: no less wide than nothing, and as high as its font. -/
structure Item.IsNonneg (i : Item ℚ) : Prop where
  font : i.font.IsNonneg
  width : 0 ≤ i.extent.width
  height : i.extent.height = i.font.lineSpace

section

variable [NumeralReading]

/-- Neither the width nor the height is negative. -/
def Rect.IsNonneg (r : Rect ℚ) : Prop :=
  0 ≤ r.width ∧ 0 ≤ r.height

theorem Extent.width_rect (e : Extent ℚ) : e.rect.width = e.width :=
  add_sub_cancel_left e.x e.width

theorem Extent.height_rect (e : Extent ℚ) : e.rect.height = e.height :=
  add_sub_cancel_left e.y e.height

theorem isNonneg_textAt {x y : ℚ} {text : String} {font : Font ℚ} {color : String} {c : Command ℚ}
    (hFont : font.IsNonneg) (h : Command.textAt x y text font color = .ok c) : c.rect.IsNonneg := by
  obtain ⟨width, hWidth, h⟩ := Outcome.bind_eq_ok_iff.mp h
  cases h
  have hText := hFont.measure text width hWidth
  have hSpace := hFont.lineSpace
  constructor
  · rw [Command.rect, Rect.width, add_sub_cancel_left]
    exact hText
  · rw [Command.rect, Rect.height, add_sub_cancel_left]
    exact hSpace

theorem Item.IsNonneg.rect {i : Item ℚ} (h : i.IsNonneg) : i.extent.rect.IsNonneg := by
  constructor
  · rw [Extent.width_rect]
    exact h.width
  · rw [Extent.height_rect, h.height]
    exact h.font.lineSpace

theorem Item.PaintsAsControl.isNonneg {i : Item ℚ} (hItem : i.IsNonneg) {c : Command ℚ}
    (h : i.PaintsAsControl c) : c.rect.IsNonneg := by
  cases h with
  | background h =>
    rw [rect_of_mem_paintBackground h]
    exact hItem.rect
  | border => exact hItem.rect
  | label h => exact isNonneg_textAt hItem.font h
  | cursor =>
    constructor
    · rw [Command.rect, Rect.width, add_sub_cancel_left]
      exact zero_le_one
    · rw [Command.rect, Rect.height, add_sub_cancel_left, Scalar.max_rat]
      exact le_max_left _ _

theorem isNonneg_paintItem {i : Item ℚ} (hItem : i.IsNonneg) {cs : List (Command ℚ)} (h : paintItem i = .ok cs) :
    ∀ c ∈ cs, c.rect.IsNonneg := by
  rw [paintItem] at h
  split at h
  · obtain ⟨c, hc, rfl⟩ := Outcome.map_eq_ok_iff.mp h
    exact List.forall_mem_singleton.mpr (isNonneg_textAt hItem.font hc)
  · exact fun c hc => (paintsAsControl_of_mem h c hc).isNonneg hItem

/-! ## Widths -/

namespace Box

/-- The margins to the left and to the right. -/
def marginWidth : Box ℚ → ℚ
  | block f _ => f.margin.left + f.margin.right
  | document _ | line .. | item _ => 0

/-- The room that a box leaves to what is inside; it is not negative for a block. -/
def contentWidth : Box ℚ → ℚ
  | block f _ => max 0 (f.extent.width - 2 * f.border.width - f.padding.left - f.padding.right)
  | document d => d.extent.width
  | line _ l => l.extent.width
  | item i => i.extent.width

end Box

/-- The boxes inside the document box or a block take up, with their margins, the width of its content. The items of
the lines are as they were measured. -/
structure Sized (e : Box ℚ × List (Box ℚ)) : Prop where
  width : e.1.isColumn = true → ∀ b ∈ e.2, b.extent.width + b.marginWidth = e.1.contentWidth
  item : ∀ i, e.1 = .item i → i.IsNonneg

omit [NumeralReading] in
theorem sized_block {f : BlockFrame ℚ} {holdsLines : Bool} {inside : List (Box ℚ)}
    (h : ∀ b ∈ inside, b.extent.width + b.marginWidth = (Box.block f holdsLines).contentWidth) :
    Sized (.block f holdsLines, inside) := by
  constructor
  · exact fun _ => h
  · rintro i ⟨⟩

theorem isNonneg_measureItem {fonts : FontSource ℚ} (hFonts : fonts.IsNonneg) {node : PageTree} {kind : ItemKind}
    {m : MeasuredItem ℚ} (h : measureItem fonts node kind = .ok m) : m.font.IsNonneg ∧ 0 ≤ m.width := by
  obtain ⟨⟨choice, hMade⟩, -, hWidth⟩ := measured_of_measureItem h
  have hFont : m.font.IsNonneg := hFonts choice m.font hMade
  refine ⟨hFont, ?_⟩
  rcases hWidth with hWidth | ⟨text, hWidth⟩
  · rw [hWidth]
    exact Nat.cast_nonneg 200
  · exact hFont.measure text m.width hWidth

section

variable {fonts : FontSource ℚ} (hFonts : fonts.IsNonneg) {left available above : ℚ} {n : PageTree}

theorem isNonneg_placeLine {x y width : ℚ} {ms : List (MeasuredItem ℚ)}
    (h : ∀ m ∈ ms, m.font.IsNonneg ∧ 0 ≤ m.width) : ∀ i ∈ (placeLine x y width ms).items, i.IsNonneg := by
  cases ms with
  | nil => exact fun _ hNone => absurd hNone List.not_mem_nil
  | cons first others =>
    intro i hi
    obtain ⟨m, hm, x', rfl⟩ := exists_of_mem_placeItems hi
    exact ⟨(h m hm).1, (h m hm).2, rfl⟩

theorem width_placeLine (x y width : ℚ) (ms : List (MeasuredItem ℚ)) :
    (placeLine x y width ms).extent.width = width := by
  cases ms <;> rfl

theorem sized_placeLines (node : PageTree) {x y width : ℚ} {lines : List (List (MeasuredItem ℚ))}
    (h : ∀ m ∈ lines.flatten, m.font.IsNonneg ∧ 0 ≤ m.width) :
    (∀ l ∈ placeLines x y width lines, l.extent.width = width) ∧
      ∀ e ∈ (placeLines x y width lines).flatMap (Block.lineFamilies node), Sized e := by
  induction lines generalizing y with
  | nil => exact ⟨fun _ hNone => absurd hNone List.not_mem_nil, fun _ hNone => absurd hNone List.not_mem_nil⟩
  | cons ms lines ih =>
    rw [List.flatten_cons, List.forall_mem_append] at h
    obtain ⟨hFirst, hRest⟩ := h
    obtain ⟨hWidths, hSized⟩ := ih (y := y + (placeLine x y width ms).extent.height) hRest
    rw [placeLines, List.flatMap_cons, List.forall_mem_append]
    refine ⟨List.forall_mem_cons.mpr ⟨width_placeLine .., hWidths⟩, ?_, hSized⟩
    rw [Block.lineFamilies, List.forall_mem_cons]
    constructor
    · constructor
      · rintro ⟨⟩
      · rintro i ⟨⟩
    · intro e he
      obtain ⟨i, hi, rfl⟩ := List.mem_map.mp he
      constructor
      · rintro ⟨⟩
      · rintro j ⟨⟩
        exact isNonneg_placeLine hFirst i hi

/-- A block that fills the available width with its margins. -/
structure Block.IsSized (available : ℚ) (b : Block ℚ) : Prop where
  width : b.box.extent.width + b.box.marginWidth = available
  families : ∀ e ∈ b.families, Sized e

theorem contentWidth_close (contentHeight : ℚ) (holdsLines : Bool) :
    (Box.block ((openBlock left available above n).close contentHeight) holdsLines).contentWidth =
      (openBlock left available above n).contentWidth := by
  rw [Box.contentWidth, openBlock]
  exact (Scalar.max_rat _ _).symm

theorem width_close (contentHeight : ℚ) (holdsLines : Bool) :
    (Box.block ((openBlock left available above n).close contentHeight) holdsLines).extent.width +
      (Box.block ((openBlock left available above n).close contentHeight) holdsLines).marginWidth = available := by
  have hWidth : (Box.block ((openBlock left available above n).close contentHeight) holdsLines).extent.width =
      available - (openBlock left available above n).frame.margin.left -
        (openBlock left available above n).frame.margin.right := rfl
  have hMargin : (Box.block ((openBlock left available above n).close contentHeight) holdsLines).marginWidth =
      (openBlock left available above n).frame.margin.left +
        (openBlock left available above n).frame.margin.right := rfl
  rw [hWidth, hMargin]
  linarith

section

include hFonts

theorem isSized_layoutLines {ps : List Piece} {b : Block ℚ}
    (h : layoutLines fonts (openBlock left available above n) ps = .ok b) : b.IsSized available := by
  obtain ⟨filled, hFilled, h⟩ := Outcome.bind_eq_ok_iff.mp h
  cases h
  have hMeasured : ∀ m ∈ filled.items, m.font.IsNonneg ∧ 0 ≤ m.width :=
    forall_fillLines (fun _ _ _ => isNonneg_measureItem hFonts) (fun _ h => absurd h List.not_mem_nil) hFilled
  obtain ⟨hWidths, hLines⟩ := sized_placeLines n hMeasured
  refine ⟨width_close _ true, List.forall_mem_cons.mpr ⟨sized_block fun b hb => ?_, hLines⟩⟩
  obtain ⟨l, hl, rfl⟩ := List.mem_map.mp hb
  rw [contentWidth_close]
  exact (add_zero _).trans (hWidths l hl)

end

theorem sized_of_laidBelow {available above : ℚ} {ns : List PageTree} {bs : List (Block ℚ)}
    (h : LaidBelow (fun _ _ b => b.IsSized available) above ns bs) :
    (∀ b ∈ bs, b.box.extent.width + b.box.marginWidth = available) ∧ ∀ e ∈ Block.forestFamilies bs, Sized e := by
  induction h with
  | nil => exact ⟨fun _ hNone => absurd hNone List.not_mem_nil, fun _ hNone => absurd hNone List.not_mem_nil⟩
  | hidden _ _ ih => exact ih
  | cons _ hBlock _ ih =>
    obtain ⟨hWidths, hInside⟩ := ih
    rw [Block.forestFamilies, List.forall_mem_append]
    exact ⟨List.forall_mem_cons.mpr ⟨hBlock.width, hWidths⟩, hBlock.families, hInside⟩

theorem isSized_layoutBlock {fonts : FontSource ℚ} (hFonts : fonts.IsNonneg) {left available above : ℚ}
    {n : PageTree} {b : Block ℚ} (h : layoutBlock fonts left available above n = .ok b) : b.IsSized available := by
  apply layoutBlock_induction (motive := fun _ available _ _ b => b.IsSized available) ?_ ?_ h
  · intro left available above n b _ hLines
    exact isSized_layoutLines hFonts hLines
  · intro left available above n bs _ hBlocks
    obtain ⟨hWidths, hInside⟩ := sized_of_laidBelow hBlocks
    refine ⟨width_close _ false, List.forall_mem_cons.mpr ⟨sized_block fun b hb => ?_, hInside⟩⟩
    obtain ⟨c, hc, rfl⟩ := List.mem_map.mp hb
    rw [contentWidth_close]
    exact hWidths c hc

theorem sized_layoutStyled {fonts : FontSource ℚ} (hFonts : fonts.IsNonneg) {width : ℚ} {root : PageTree}
    {d : DocumentBox ℚ} (h : layoutStyled fonts width root = .ok d) : ∀ e ∈ d.families, Sized e := by
  obtain ⟨b, hBlock, hPage⟩ := Outcome.bind_eq_ok_iff.mp (Outcome.mapError_eq_ok_iff.mp h)
  cases hPage
  have hRoot := isSized_layoutBlock hFonts hBlock
  refine List.forall_mem_cons.mpr ⟨?_, hRoot.families⟩
  constructor
  · exact fun _ => List.forall_mem_singleton.mpr hRoot.width
  · rintro i ⟨⟩

end

/-! ## Pages -/

theorem isColumn_of_block_mem {box : Box ℚ} {inside : List (Box ℚ)} (h : Arranged box inside) {f : BlockFrame ℚ}
    {holdsLines : Bool} (hMem : .block f holdsLines ∈ inside) : box.isColumn = true := by
  cases h with
  | column hKind => exact hKind
  | line =>
    obtain ⟨i, -, hi⟩ := List.mem_map.mp hMem
    cases hi
  | item => cases hMem

omit [NumeralReading] in
theorem isUpright_of_nonneg {b : Box ℚ} (hEdges : b.Nonneg) (hItem : ∀ i, b = .item i → i.IsNonneg) :
    b.IsUpright := by
  cases b with
  | block => exact hEdges
  | item i => exact ⟨(hItem i rfl).font.ascent, (hItem i rfl).font.descent⟩
  | document | line => trivial

/-- In exact arithmetic, on a page without negative edges and with fonts that measure nothing negative, no command
has a rectangle of negative height. None has one of negative width just if no block that paints something has margins
that are wider together than the content of the box around it. -/
theorem rects_renderPage {fonts : FontSource ℚ} (hFonts : fonts.IsNonneg) {viewport : ℚ} {root : PageTree}
    {d : DocumentBox ℚ} {display : List (Command ℚ)} (h : renderPage fonts viewport root = .ok (d, display))
    (hEdges : ∀ e ∈ d.outline, e.2.Nonneg) :
    (∀ c ∈ display, 0 ≤ c.rect.height) ∧
    ((∀ c ∈ display, 0 ≤ c.rect.width) ↔ ∀ e ∈ d.families, ∀ f holdsLines, .block f holdsLines ∈ e.2 →
      paintFrame f ≠ [] → f.margin.left + f.margin.right ≤ e.1.contentWidth) := by
  obtain ⟨d, hLayout, h⟩ := Outcome.bind_eq_ok_iff.mp h
  obtain ⟨display, hPaint, h⟩ := Outcome.bind_eq_ok_iff.mp h
  cases h
  have hSized : ∀ e ∈ d.families, Sized e := sized_layoutStyled hFonts hLayout
  have hArranged : ∀ e ∈ d.families, Arranged e.1 e.2 := arranged_layoutStyled hLayout
  have hPainted : PaintedBy display (d.root.outline 1) :=
    paintedBy_block (Outcome.mapError_eq_ok_iff.mp hPaint) 1
  have hBox : ∀ b ∈ d.families.map Prod.fst, b.Nonneg ∧ ∀ i, b = .item i → i.IsNonneg := by
    intro b hb
    obtain ⟨e, he, rfl⟩ := List.mem_map.mp hb
    rw [d.map_fst_families] at hb
    obtain ⟨e', he', hSame⟩ := List.mem_map.mp hb
    exact ⟨hSame ▸ hEdges e' he', (hSized e he).item⟩
  have hHeights := height_nonneg_of_isUpright d.nested_families hArranged
    fun b hb => isUpright_of_nonneg (hBox b hb).1 (hBox b hb).2
  have hListed : ∀ e ∈ d.root.outline 1, e.2 ∈ d.root.families.map Prod.fst := by
    intro e he
    rw [Block.map_fst_families 1]
    exact List.mem_map_of_mem he
  have hItems : ∀ e ∈ d.root.outline 1, ∀ i, e.2 = .item i → i.IsNonneg := fun e he =>
    (hBox e.2 (List.mem_cons_of_mem _ (hListed e he))).2
  have hWidths : ∀ e ∈ d.families, ∀ f holdsLines, .block f holdsLines ∈ e.2 →
      f.extent.width + (f.margin.left + f.margin.right) = e.1.contentWidth := by
    intro e he f holdsLines hMem
    exact (hSized e he).width (isColumn_of_block_mem (hArranged e he) hMem) _ hMem
  refine ⟨fun c hc => ?_, fun hPositive e he f holdsLines hMem hPaints => ?_, fun hMargins c hc => ?_⟩
  · obtain ⟨⟨depth, box⟩, he, hPaints⟩ := (hPainted c).mp hc
    cases box with
    | block f holdsLines =>
      rw [rect_of_mem_paintFrame hPaints, Extent.height_rect]
      apply hHeights (.block f holdsLines) (List.mem_cons_of_mem _ (hListed _ he))
      rintro i ⟨⟩
    | item i =>
      obtain ⟨cs, hItem, hc⟩ := hPaints
      exact (isNonneg_paintItem (hItems _ he i rfl) hItem c hc).2
    | document | line => exact hPaints.elim
  · obtain ⟨c, hc⟩ := List.exists_mem_of_ne_nil _ hPaints
    have hInside : Box.block f holdsLines ∈ d.families.map Prod.fst := d.nested_families.mem e he _ hMem
    have hBlock : Box.block f holdsLines ∈ (d.root.outline 1).map Prod.snd := by
      rw [← Block.map_fst_families]
      exact (List.mem_cons.mp hInside).resolve_left (by rintro ⟨⟩)
    obtain ⟨⟨depth, box⟩, hOutline, hBox⟩ := List.mem_map.mp hBlock
    have hRect := hPositive c ((hPainted c).mpr ⟨_, hOutline, hBox ▸ hc⟩)
    have hWidth := hWidths e he f holdsLines hMem
    rw [rect_of_mem_paintFrame hc, Extent.width_rect] at hRect
    linarith
  · obtain ⟨⟨depth, box⟩, he, hPaints⟩ := (hPainted c).mp hc
    cases box with
    | block f holdsLines =>
      rw [rect_of_mem_paintFrame hPaints, Extent.width_rect]
      obtain ⟨e, hFamily, hMem⟩ := d.inside_families _ (hListed _ he)
      have hFits := hMargins e hFamily f holdsLines hMem (List.ne_nil_of_mem hPaints)
      have hWidth := hWidths e hFamily f holdsLines hMem
      linarith
    | item i =>
      obtain ⟨cs, hItem, hc⟩ := hPaints
      exact (isNonneg_paintItem (hItems _ he i rfl) hItem c hc).1
    | document | line => exact hPaints.elim

end

/-- A page whose body has a color and the usual margins. -/
def coloredPage : PageTree :=
  .element { id := 0 } "html" .empty [
    .element { id := 1, style := (StyleMap.empty.set "margin" "8px").set "background-color" "white" } "body" .empty [
      .text { id := 2 } "one"]]

theorem isNonneg_evenFonts : evenFonts.IsNonneg := by
  intro c font h
  have hSound := isSound_evenFonts c font h
  cases h
  refine ⟨hSound.measure, hSound.ascent, hSound.descent, ?_⟩
  rw [evenFont]
  dsimp only
  split <;> norm_num

theorem rects_coloredPage : ∃ d display, evenFonts.IsNonneg ∧
    renderPage evenFonts 800 coloredPage = .ok (d, display) ∧ (∀ e ∈ d.outline, e.2.Nonneg) ∧ display.length = 2 ∧
    ∀ c ∈ display, 0 ≤ c.rect.width ∧ 0 ≤ c.rect.height := by
  have hTest : (match renderPage evenFonts 800 coloredPage with
      | .ok (d, display) => d.outline.all (fun e => e.2.Nonneg) && display.length == 2 &&
        d.families.all fun e => e.2.all fun b =>
          match b with
          | .block f _ => decide (f.margin.left + f.margin.right ≤ e.1.contentWidth)
          | _ => true
      | .error _ => false) = true := by decide +kernel
  split at hTest
  · rename_i d display hRender
    obtain ⟨hPage, hMargins⟩ := (Bool.and_eq_true _ _).mp hTest
    obtain ⟨hAll, hTwo⟩ := (Bool.and_eq_true _ _).mp hPage
    have hEdges : ∀ e ∈ d.outline, e.2.Nonneg := by simpa using hAll
    obtain ⟨hHeights, hWidths⟩ := rects_renderPage isNonneg_evenFonts hRender hEdges
    have hFits := hWidths.mpr fun e he f holdsLines hMem _ =>
      of_decide_eq_true (List.all_eq_true.mp (List.all_eq_true.mp hMargins e he) _ hMem)
    exact ⟨d, display, isNonneg_evenFonts, hRender, hEdges, eq_of_beq hTwo, fun c hc => ⟨hFits c hc, hHeights c hc⟩⟩
  · cases hTest

/-- The margins of the body are wider than a narrow page. -/
theorem negative_width_painted : ∃ d display, evenFonts.IsNonneg ∧
    renderPage evenFonts 20 coloredPage = .ok (d, display) ∧ (∀ e ∈ d.outline, e.2.Nonneg) ∧
    ∃ c ∈ display, c.rect.width < 0 := by
  have hTest : (match renderPage evenFonts 20 coloredPage with
      | .ok (d, display) => d.outline.all (fun e => e.2.Nonneg) && display.any fun c => decide (c.rect.width < 0)
      | .error _ => false) = true := by decide +kernel
  split at hTest
  · rename_i d display hRender
    obtain ⟨hEdges, hNarrow⟩ := (Bool.and_eq_true _ _).mp hTest
    obtain ⟨c, hc, hWidth⟩ := List.any_eq_true.mp hNarrow
    exact ⟨d, display, isNonneg_evenFonts, hRender, by simpa using hEdges, c, hc, of_decide_eq_true hWidth⟩
  · cases hTest

end PageRender
