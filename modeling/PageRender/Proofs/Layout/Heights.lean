import PageRender.Proofs.Layout.Hitting

/-! # Heights and positions

The place of a box is found from the one before it, on the way down, and its height from those inside it, on the
way up. In exact arithmetic the two agree: the boxes inside a box form a column, which begins where the content of
the box does and ends where its content ends. If no edge is negative and the fonts are level, all that is inside a
box lies within its content, and the boxes of a column do not overlap.
-/

namespace PageRender

/-! ## Boxes with those directly inside them -/

/-- A listing of boxes in which those inside a box come later than the box. -/
inductive Nested {α : Type} : List (Box α × List (Box α)) → Prop
  | nil : Nested []
  | cons {box : Box α} {inside : List (Box α)} {fs : List (Box α × List (Box α))}
    (listed : ∀ b ∈ inside, b ∈ fs.map Prod.fst) (rest : Nested fs) : Nested ((box, inside) :: fs)

namespace Nested

variable {α : Type} {fs gs : List (Box α × List (Box α))}

theorem append (hf : Nested fs) (hg : Nested gs) : Nested (fs ++ gs) := by
  induction hf with
  | nil => exact hg
  | cons listed rest ih =>
    rw [List.cons_append]
    apply Nested.cons _ ih
    intro b hb
    rw [List.map_append]
    exact List.mem_append_left _ (listed b hb)

theorem mem (h : Nested fs) : ∀ e ∈ fs, ∀ b ∈ e.2, b ∈ fs.map Prod.fst := by
  induction h with
  | nil => exact fun _ hNone => absurd hNone List.not_mem_nil
  | cons listed rest ih =>
    intro e he b hb
    apply List.mem_cons_of_mem
    rcases List.mem_cons.mp he with rfl | he
    · exact listed b hb
    · exact ih e he b hb

end Nested

namespace Block

variable {α : Type}

def box : Block α → Box α
  | blocks f _ => .block f false
  | lines f _ => .block f true

def lineFamilies (node : PageTree) (l : Line α) : List (Box α × List (Box α)) :=
  (.line node l, l.items.map .item) :: l.items.map fun i => (.item i, [])

mutual

/-- The boxes of a block as its outline lists them, each with the boxes directly inside it. -/
def families : Block α → List (Box α × List (Box α))
  | blocks f children => (.block f false, children.map box) :: forestFamilies children
  | lines f ls => (.block f true, ls.map (.line f.node)) :: ls.flatMap (lineFamilies f.node)

def forestFamilies : List (Block α) → List (Box α × List (Box α))
  | [] => []
  | b :: bs => b.families ++ forestFamilies bs

end

theorem box_mem_families (b : Block α) : b.box ∈ b.families.map Prod.fst := by
  cases b <;> exact List.mem_cons_self

theorem map_fst_lineFamilies (depth : Nat) (node : PageTree) (ls : List (Line α)) :
    (ls.flatMap (lineFamilies node)).map Prod.fst = (lineOutline depth node ls).map Prod.snd := by
  induction ls with
  | nil => rfl
  | cons l ls ih =>
    rw [lineOutline] at ih ⊢
    rw [List.flatMap_cons, List.flatMap_cons, List.map_append, List.map_append, ih]
    simp [lineFamilies, Function.comp_def]

mutual

theorem map_fst_families (depth : Nat) (b : Block α) :
    b.families.map Prod.fst = (b.outline depth).map Prod.snd := by
  cases b with
  | blocks f children =>
    rw [families, outline, List.map_cons, List.map_cons, map_fst_forestFamilies]
  | lines f ls =>
    rw [families, outline, List.map_cons, List.map_cons, map_fst_lineFamilies]

theorem map_fst_forestFamilies (depth : Nat) (bs : List (Block α)) :
    (forestFamilies bs).map Prod.fst = (outlines depth bs).map Prod.snd := by
  cases bs with
  | nil => rfl
  | cons b bs =>
    rw [forestFamilies, outlines, List.map_append, List.map_append, map_fst_families, map_fst_forestFamilies]

end

theorem nested_lineFamilies (node : PageTree) (ls : List (Line α)) :
    Nested (ls.flatMap (lineFamilies node)) ∧
      ∀ b ∈ ls.map (.line node), b ∈ (ls.flatMap (lineFamilies node)).map Prod.fst := by
  induction ls with
  | nil => exact ⟨.nil, fun _ hNone => absurd hNone List.not_mem_nil⟩
  | cons l ls ih =>
    obtain ⟨hNested, hListed⟩ := ih
    have hItems : ∀ is : List (Item α), Nested (is.map fun i => (Box.item i, [])) := by
      intro is
      induction is with
      | nil => exact .nil
      | cons i is ih => exact .cons (fun _ hNone => absurd hNone List.not_mem_nil) ih
    rw [List.flatMap_cons, List.map_append]
    refine ⟨.append (.cons (fun b hb => ?_) (hItems l.items)) hNested, List.forall_mem_cons.mpr ⟨?_, ?_⟩⟩
    · rwa [List.map_map]
    · exact List.mem_append_left _ List.mem_cons_self
    · exact fun b hb => List.mem_append_right _ (hListed b hb)

mutual

theorem nested_families (b : Block α) : Nested b.families := by
  cases b with
  | blocks f children =>
    obtain ⟨hNested, hListed⟩ := nested_forestFamilies children
    exact .cons hListed hNested
  | lines f ls =>
    obtain ⟨hNested, hListed⟩ := nested_lineFamilies f.node ls
    exact .cons hListed hNested

theorem nested_forestFamilies (bs : List (Block α)) :
    Nested (forestFamilies bs) ∧ ∀ b ∈ bs.map box, b ∈ (forestFamilies bs).map Prod.fst := by
  cases bs with
  | nil => exact ⟨.nil, fun _ hNone => absurd hNone List.not_mem_nil⟩
  | cons b bs =>
    obtain ⟨hNested, hListed⟩ := nested_forestFamilies bs
    rw [forestFamilies, List.map_append]
    refine ⟨.append (nested_families b) hNested, List.forall_mem_cons.mpr ⟨?_, fun c hc => ?_⟩⟩
    · exact List.mem_append_left _ b.box_mem_families
    · exact List.mem_append_right _ (hListed c hc)

end

mutual

/-- Every box but the outermost one is inside another. -/
theorem inside_families (b : Block α) : ∀ x ∈ b.families.map Prod.fst, x = b.box ∨ ∃ e ∈ b.families, x ∈ e.2 := by
  cases b with
  | blocks f children =>
    refine List.forall_mem_cons.mpr ⟨.inl rfl, fun x hx => .inr ?_⟩
    rcases inside_forestFamilies children x hx with hx | ⟨e, he, hx⟩
    · exact ⟨_, List.mem_cons_self, hx⟩
    · exact ⟨e, List.mem_cons_of_mem _ he, hx⟩
  | lines f ls =>
    refine List.forall_mem_cons.mpr ⟨.inl rfl, fun x hx => .inr ?_⟩
    obtain ⟨e, he, rfl⟩ := List.mem_map.mp hx
    obtain ⟨l, hl, hLine⟩ := List.mem_flatMap.mp he
    rcases List.mem_cons.mp hLine with rfl | hItem
    · exact ⟨_, List.mem_cons_self, List.mem_map_of_mem hl⟩
    · obtain ⟨i, hi, rfl⟩ := List.mem_map.mp hItem
      refine ⟨(.line f.node l, l.items.map .item), List.mem_cons_of_mem _ ?_, List.mem_map_of_mem hi⟩
      exact List.mem_flatMap.mpr ⟨l, hl, List.mem_cons_self⟩

theorem inside_forestFamilies (bs : List (Block α)) :
    ∀ x ∈ (forestFamilies bs).map Prod.fst, x ∈ bs.map box ∨ ∃ e ∈ forestFamilies bs, x ∈ e.2 := by
  cases bs with
  | nil => exact fun _ hNone => absurd hNone List.not_mem_nil
  | cons b bs =>
    rw [forestFamilies, List.map_append, List.forall_mem_append]
    constructor
    · intro x hx
      rcases inside_families b x hx with rfl | ⟨e, he, hx⟩
      · exact .inl List.mem_cons_self
      · exact .inr ⟨e, List.mem_append_left _ he, hx⟩
    · intro x hx
      rcases inside_forestFamilies bs x hx with hx | ⟨e, he, hx⟩
      · exact .inl (List.mem_cons_of_mem _ hx)
      · exact .inr ⟨e, List.mem_append_right _ he, hx⟩

end

end Block

namespace DocumentBox

variable {α : Type}

def families (d : DocumentBox α) : List (Box α × List (Box α)) :=
  (.document d, [d.root.box]) :: d.root.families

theorem map_fst_families (d : DocumentBox α) : d.families.map Prod.fst = d.outline.map Prod.snd := by
  rw [families, outline, List.map_cons, List.map_cons, Block.map_fst_families]

theorem nested_families (d : DocumentBox α) : Nested d.families :=
  .cons (List.forall_mem_singleton.mpr d.root.box_mem_families) d.root.nested_families

theorem inside_families (d : DocumentBox α) :
    ∀ x ∈ d.root.families.map Prod.fst, ∃ e ∈ d.families, x ∈ e.2 := by
  intro x hx
  rcases d.root.inside_families x hx with rfl | ⟨e, he, hx⟩
  · exact ⟨_, List.mem_cons_self, List.mem_singleton_self _⟩
  · exact ⟨e, List.mem_cons_of_mem _ he, hx⟩

end DocumentBox

namespace Box

/-- Whether the boxes inside are put below one another, not beside one another. -/
def isColumn {α : Type} : Box α → Bool
  | document _ | block .. => true
  | line .. | item _ => false

def marginTop : Box ℚ → ℚ
  | block f _ => f.margin.top
  | document _ | line .. | item _ => 0

def marginBottom : Box ℚ → ℚ
  | block f _ => f.margin.bottom
  | document _ | line .. | item _ => 0

/-- The room between the upper side of a box and its content. -/
def insetTop : Box ℚ → ℚ
  | block f _ => f.border.width + f.padding.top
  | document _ | line .. | item _ => 0

/-- The room between the content of a box and its lower side. -/
def insetBottom : Box ℚ → ℚ
  | block f _ => f.padding.bottom + f.border.width
  | document _ | line .. | item _ => 0

def contentTop (b : Box ℚ) : ℚ := b.extent.y + b.insetTop

def contentBottom (b : Box ℚ) : ℚ := b.extent.bottom - b.insetBottom

/-- The edges of a block are not negative, and the font of a word or a control is level. -/
def IsRegular : Box ℚ → Prop
  | block f _ => f.Nonneg
  | item i => i.font.IsLevel
  | document _ | line .. => True

instance : (b : Box ℚ) → Decidable b.IsRegular
  | block f _ => inferInstanceAs (Decidable f.Nonneg)
  | item i => inferInstanceAs (Decidable i.font.IsLevel)
  | document _ | line .. => .isTrue trivial

/-- The edges of a block are not negative, and the font of a word or a control reaches up and down. -/
def IsUpright : Box ℚ → Prop
  | block f _ => f.Nonneg
  | item i => 0 ≤ i.font.ascent ∧ 0 ≤ i.font.descent
  | document _ | line .. => True

theorem IsRegular.isUpright {b : Box ℚ} (h : b.IsRegular) : b.IsUpright := by
  cases b with
  | block => exact h
  | item i => exact ⟨h.ascent, h.descent⟩
  | document | line => trivial

theorem IsUpright.marginTop_nonneg {b : Box ℚ} (h : b.IsUpright) : 0 ≤ b.marginTop := by
  cases b with
  | block f _ => exact h.margin.top
  | document | line | item => exact le_rfl

theorem IsUpright.marginBottom_nonneg {b : Box ℚ} (h : b.IsUpright) : 0 ≤ b.marginBottom := by
  cases b with
  | block f _ => exact h.margin.bottom
  | document | line | item => exact le_rfl

theorem IsUpright.insetTop_nonneg {b : Box ℚ} (h : b.IsUpright) : 0 ≤ b.insetTop := by
  cases b with
  | block f _ => exact add_nonneg h.border h.padding.top
  | document | line | item => exact le_rfl

theorem IsUpright.insetBottom_nonneg {b : Box ℚ} (h : b.IsUpright) : 0 ≤ b.insetBottom := by
  cases b with
  | block f _ => exact add_nonneg h.padding.bottom h.border
  | document | line | item => exact le_rfl

end Box

namespace Block

theorem box_ne_item (b : Block ℚ) (i : Item ℚ) : b.box ≠ .item i := by
  cases b <;> rintro ⟨⟩

theorem extent_box (b : Block ℚ) : b.box.extent = b.frame.extent := by
  cases b <;> rfl

theorem marginTop_box (b : Block ℚ) : b.box.marginTop = b.frame.margin.top := by
  cases b <;> rfl

theorem marginBottom_box (b : Block ℚ) : b.box.marginBottom = b.frame.margin.bottom := by
  cases b <;> rfl

end Block

/-! ## Columns -/

/-- Boxes that are put below one another from one height to another, margins between them. Words and controls do
not stand so. -/
inductive Column : ℚ → ℚ → List (Box ℚ) → Prop
  | nil (y : ℚ) : Column y y []
  | cons {top bottom : ℚ} {b : Box ℚ} {bs : List (Box ℚ)} (kind : ∀ i, b ≠ .item i)
    (first : b.extent.y = top + b.marginTop) (rest : Column (b.extent.bottom + b.marginBottom) bottom bs) :
    Column top bottom (b :: bs)

namespace Column

variable {top bottom : ℚ} {bs : List (Box ℚ)}

/-- A column ends below the margin of its last box. -/
theorem ends (h : Column top bottom bs) :
    ∀ last ∈ bs.getLast?, last.extent.bottom + last.marginBottom = bottom := by
  induction h with
  | nil => exact fun last hNone => absurd hNone (Option.not_mem_none last)
  | @cons top bottom b bs kind first rest ih =>
    intro last hLast
    cases bs with
    | nil =>
      obtain rfl := Option.some.inj hLast
      cases rest
      rfl
    | cons c cs =>
      rw [List.getLast?_cons_cons] at hLast
      exact ih last hLast

theorem ne_item (h : Column top bottom bs) : ∀ b ∈ bs, ∀ i, b ≠ .item i := by
  induction h with
  | nil => exact fun _ hNone => absurd hNone List.not_mem_nil
  | cons kind first rest ih => exact List.forall_mem_cons.mpr ⟨kind, ih⟩

theorem top_le_bottom (h : Column top bottom bs) (hUpright : ∀ b ∈ bs, b.IsUpright)
    (hHeight : ∀ b ∈ bs, 0 ≤ b.extent.height) : top ≤ bottom := by
  induction h with
  | nil => exact le_rfl
  | @cons top bottom b bs kind first rest ih =>
    obtain ⟨hBox, hBoxes⟩ := List.forall_mem_cons.mp hUpright
    obtain ⟨hSelf, hOthers⟩ := List.forall_mem_cons.mp hHeight
    have hRest := ih hBoxes hOthers
    have hAbove := hBox.marginTop_nonneg
    have hBelow := hBox.marginBottom_nonneg
    rw [Extent.bottom] at hRest
    linarith

section

variable (hRegular : ∀ b ∈ bs, b.IsRegular) (hHeight : ∀ b ∈ bs, 0 ≤ b.extent.height)

include hRegular hHeight

theorem within (h : Column top bottom bs) : ∀ b ∈ bs, b.extent.Within top bottom := by
  induction h with
  | nil => exact fun _ hNone => absurd hNone List.not_mem_nil
  | @cons top bottom b bs kind first rest ih =>
    obtain ⟨hBox, hBoxes⟩ := List.forall_mem_cons.mp hRegular
    obtain ⟨hSelf, hOthers⟩ := List.forall_mem_cons.mp hHeight
    have hRest := rest.top_le_bottom (fun c hc => (hBoxes c hc).isUpright) hOthers
    have hAbove := hBox.isUpright.marginTop_nonneg
    have hBelow := hBox.isUpright.marginBottom_nonneg
    intro c hc
    rcases List.mem_cons.mp hc with rfl | hc
    · constructor <;> linarith
    · apply (ih hBoxes hOthers c hc).mono _ le_rfl
      rw [Extent.bottom]
      linarith

/-- In a column every box is above those that follow it. -/
theorem pairwise (h : Column top bottom bs) : bs.Pairwise fun b c => b.extent.bottom ≤ c.extent.y := by
  induction h with
  | nil => exact .nil
  | @cons top bottom b bs kind first rest ih =>
    obtain ⟨hBox, hBoxes⟩ := List.forall_mem_cons.mp hRegular
    obtain ⟨-, hOthers⟩ := List.forall_mem_cons.mp hHeight
    have hBelow := hBox.isUpright.marginBottom_nonneg
    apply List.Pairwise.cons _ (ih hBoxes hOthers)
    intro c hc
    have hTop := (rest.within hBoxes hOthers c hc).top_le
    linarith

end

end Column

section

variable [NumeralReading]

/-! ## How the layout arranges boxes -/

/-- What is inside a box: a column that is as high as its content, or the items of a line, or nothing. -/
inductive Arranged : Box ℚ → List (Box ℚ) → Prop
  | column {box : Box ℚ} {bs : List (Box ℚ)} (hKind : box.isColumn = true)
    (hColumn : Column box.contentTop box.contentBottom bs) : Arranged box bs
  | line (node : PageTree) (x y width : ℚ) (ms : List (MeasuredItem ℚ)) :
    Arranged (.line node (placeLine x y width ms)) ((placeLine x y width ms).items.map .item)
  | item (i : Item ℚ) : Arranged (.item i) []

theorem Arranged.toColumn {box : Box ℚ} {bs : List (Box ℚ)} (h : Arranged box bs) (hKind : box.isColumn = true) :
    Column box.contentTop box.contentBottom bs := by
  cases h with
  | column _ hColumn => exact hColumn
  | line | item => cases hKind

theorem map_font_placeItems (x baseline : ℚ) (ms : List (MeasuredItem ℚ)) :
    (placeItems x baseline ms).map (·.font) = ms.map (·.font) := by
  induction ms generalizing x with
  | nil => rfl
  | cons m ms ih => rw [placeItems, List.map_cons, List.map_cons, ih]

theorem arranged_lineFamilies (node : PageTree) (x y width : ℚ) (ms : List (MeasuredItem ℚ)) :
    ∀ e ∈ Block.lineFamilies node (placeLine x y width ms), Arranged e.1 e.2 := by
  refine List.forall_mem_cons.mpr ⟨.line node x y width ms, fun e he => ?_⟩
  obtain ⟨i, -, rfl⟩ := List.mem_map.mp he
  exact .item i

/-- The lines of a block make up a column. -/
theorem column_placeLines (node : PageTree) (x y width : ℚ) (lines : List (List (MeasuredItem ℚ))) :
    Column y (y + Scalar.sum ((placeLines x y width lines).map (·.extent.height)))
      ((placeLines x y width lines).map (.line node)) ∧
    ∀ e ∈ (placeLines x y width lines).flatMap (Block.lineFamilies node), Arranged e.1 e.2 := by
  rw [Scalar.sum_rat]
  induction lines generalizing y with
  | nil =>
    refine ⟨?_, fun _ hNone => absurd hNone List.not_mem_nil⟩
    rw [placeLines, List.map_nil, List.sum_nil, add_zero]
    exact .nil y
  | cons ms lines ih =>
    have hTop := y_placeLine x y width ms
    obtain ⟨hColumn, hInside⟩ := ih (y + (placeLine x y width ms).extent.height)
    rw [placeLines, List.map_cons, List.sum_cons, ← add_assoc]
    constructor
    · refine .cons (by rintro i ⟨⟩) (hTop.trans (add_zero y).symm) ?_
      rw [Box.extent, Box.marginBottom, add_zero, Extent.bottom, hTop]
      exact hColumn
    · rw [List.flatMap_cons, List.forall_mem_append]
      exact ⟨arranged_lineFamilies node x y width ms, hInside⟩

section

variable {fonts : FontSource ℚ} {left available above contentHeight : ℚ} {n : PageTree}

/-- A block that is closed with the height of the column inside it has that column as its content. -/
theorem arranged_close {bs : List (Box ℚ)}
    (h : Column (openBlock left available above n).contentY
      ((openBlock left available above n).contentY + contentHeight) bs) (holdsLines : Bool) :
    Arranged (.block ((openBlock left available above n).close contentHeight) holdsLines) bs := by
  have hTop : (Box.block ((openBlock left available above n).close contentHeight) holdsLines).contentTop =
      (openBlock left available above n).contentY :=
    (add_assoc _ _ _).symm
  have hHeight : ((openBlock left available above n).close contentHeight).extent.height =
      contentHeight + (openBlock left available above n).frame.padding.top +
        (openBlock left available above n).frame.padding.bottom +
        2 * (openBlock left available above n).frame.border.width := rfl
  have hBottom : (Box.block ((openBlock left available above n).close contentHeight) holdsLines).contentBottom =
      (openBlock left available above n).contentY + contentHeight := by
    rw [← hTop, Box.contentTop, Box.contentBottom, Extent.bottom, Box.extent, hHeight, Box.insetTop,
      Box.insetBottom, BlockOpening.close]
    dsimp only
    linarith
  exact .column rfl (hTop ▸ hBottom ▸ h)

/-- A block that begins below `above`, with every box of it arranged. -/
structure Block.IsArranged (above : ℚ) (b : Block ℚ) : Prop where
  y : b.frame.extent.y = above + b.frame.margin.top
  families : ∀ e ∈ b.families, Arranged e.1 e.2

theorem isArranged_layoutLines {pieces : List Piece} {b : Block ℚ}
    (h : layoutLines fonts (openBlock left available above n) pieces = .ok b) : b.IsArranged above := by
  obtain ⟨filled, -, h⟩ := Outcome.bind_eq_ok_iff.mp h
  cases h
  obtain ⟨hColumn, hLines⟩ := column_placeLines n (openBlock left available above n).contentX
    (openBlock left available above n).contentY (openBlock left available above n).contentWidth filled.lines
  exact ⟨rfl, List.forall_mem_cons.mpr ⟨arranged_close hColumn true, hLines⟩⟩

end

theorem Block.IsArranged.below {above : ℚ} {b : Block ℚ} (h : b.IsArranged above) :
    b.frame.below = above + b.frame.outerHeight := by
  have hOuter : b.frame.outerHeight =
      b.frame.extent.height + b.frame.margin.top + b.frame.margin.bottom := rfl
  have hTop := h.y
  rw [BlockFrame.below]
  linarith

/-- In a column a block takes up its height with its margins. -/
theorem Block.IsArranged.cons {above bottom : ℚ} {b : Block ℚ} {bs : List (Box ℚ)} (h : b.IsArranged above)
    (hRest : Column b.frame.below bottom bs) : Column above bottom (b.box :: bs) := by
  apply Column.cons b.box_ne_item
  · rw [b.extent_box, b.marginTop_box, h.y]
  · rw [b.extent_box, b.marginBottom_box]
    exact hRest

/-- The blocks inside a block make up a column. -/
theorem column_of_laidBelow {above : ℚ} {ns : List PageTree} {bs : List (Block ℚ)}
    (h : LaidBelow (fun above _ b => b.IsArranged above) above ns bs) :
    Column above (above + Scalar.sum (bs.map (·.frame.outerHeight))) (bs.map Block.box) ∧
    ∀ e ∈ Block.forestFamilies bs, Arranged e.1 e.2 := by
  rw [Scalar.sum_rat]
  induction h with
  | nil above =>
    refine ⟨?_, fun _ hNone => absurd hNone List.not_mem_nil⟩
    rw [List.map_nil, List.map_nil, List.sum_nil, add_zero]
    exact .nil above
  | hidden _ _ ih => exact ih
  | cons _ hBlock _ ih =>
    obtain ⟨hColumn, hInside⟩ := ih
    rw [List.map_cons, List.map_cons, List.sum_cons, ← add_assoc, ← hBlock.below, Block.forestFamilies,
      List.forall_mem_append]
    exact ⟨hBlock.cons hColumn, hBlock.families, hInside⟩

theorem isArranged_layoutBlock {fonts : FontSource ℚ} {left available above : ℚ} {n : PageTree} {b : Block ℚ}
    (h : layoutBlock fonts left available above n = .ok b) : b.IsArranged above := by
  apply layoutBlock_induction (motive := fun _ _ above _ b => b.IsArranged above) ?_ ?_ h
  · intro left available above n b _ hLines
    exact isArranged_layoutLines hLines
  · intro left available above n bs _ hBlocks
    obtain ⟨hColumn, hInside⟩ := column_of_laidBelow hBlocks
    exact ⟨rfl, List.forall_mem_cons.mpr ⟨arranged_close hColumn false, hInside⟩⟩

theorem arranged_layoutStyled {fonts : FontSource ℚ} {width : ℚ} {root : PageTree} {d : DocumentBox ℚ}
    (h : layoutStyled fonts width root = .ok d) : ∀ e ∈ d.families, Arranged e.1 e.2 := by
  obtain ⟨b, hBlock, hPage⟩ := Outcome.bind_eq_ok_iff.mp (Outcome.mapError_eq_ok_iff.mp h)
  cases hPage
  have hRoot := isArranged_layoutBlock hBlock
  refine List.forall_mem_cons.mpr ⟨.column rfl ?_, hRoot.families⟩
  rw [Box.contentTop, Box.contentBottom, Box.insetTop, Box.insetBottom, add_zero, sub_zero]
  refine hRoot.cons ?_
  rw [hRoot.below]
  exact .nil _

/-! ## Regular pages -/

theorem font_of_items {P : Font ℚ → Prop} {x y width : ℚ} {ms : List (MeasuredItem ℚ)}
    (h : ∀ i ∈ (placeLine x y width ms).items, P i.font) : ∀ m ∈ ms, P m.font := by
  have hFonts : (placeLine x y width ms).items.map (·.font) = ms.map (·.font) := by
    cases ms with
    | nil => rfl
    | cons m ms => exact map_font_placeItems ..
  intro m hm
  have hMem : m.font ∈ (placeLine x y width ms).items.map (·.font) := hFonts ▸ List.mem_map_of_mem hm
  obtain ⟨i, hi, hFont⟩ := List.mem_map.mp hMem
  exact hFont ▸ h i hi

theorem isLevel_of_items {x y width : ℚ} {ms : List (MeasuredItem ℚ)}
    (h : ∀ b ∈ (placeLine x y width ms).items.map Box.item, b.IsRegular) : ∀ m ∈ ms, m.font.IsLevel :=
  font_of_items fun i hi => h (.item i) (List.mem_map_of_mem hi)

/-- No block and no line of an upright page has a negative height: this is so for the boxes that are listed behind
a box, among them those inside it, and so for the box itself. -/
theorem height_nonneg_of_isUpright {fs : List (Box ℚ × List (Box ℚ))} (hNested : Nested fs)
    (hArranged : ∀ e ∈ fs, Arranged e.1 e.2) (hUpright : ∀ b ∈ fs.map Prod.fst, b.IsUpright) :
    ∀ b ∈ fs.map Prod.fst, (∀ i, b ≠ .item i) → 0 ≤ b.extent.height := by
  induction hNested with
  | nil => exact fun _ hNone => absurd hNone List.not_mem_nil
  | @cons box inside fs listed rest ih =>
    rw [List.forall_mem_cons] at hArranged
    rw [List.map_cons, List.forall_mem_cons] at hUpright
    obtain ⟨hBox, hBoxes⟩ := hArranged
    obtain ⟨hSelf, hOthers⟩ := hUpright
    have hHeights := ih hBoxes hOthers
    refine List.forall_mem_cons.mpr ⟨fun hKind => ?_, hHeights⟩
    have hInside : ∀ b ∈ inside, b.IsUpright := fun b hb => hOthers b (listed b hb)
    cases hBox with
    | column _ hColumn =>
      have hContent := hColumn.top_le_bottom hInside
        fun b hb => hHeights b (listed b hb) (hColumn.ne_item b hb)
      have hTop := hSelf.insetTop_nonneg
      have hBottom := hSelf.insetBottom_nonneg
      rw [Box.contentTop, Box.contentBottom, Extent.bottom] at hContent
      linarith
    | line node x y width ms =>
      apply height_placeLine_nonneg
      exact font_of_items (P := fun font => 0 ≤ font.ascent ∧ 0 ≤ font.descent) fun i hi =>
        hInside (.item i) (List.mem_map_of_mem hi)
    | item i => exact absurd rfl (hKind i)

theorem height_nonneg {fs : List (Box ℚ × List (Box ℚ))} (hNested : Nested fs)
    (hArranged : ∀ e ∈ fs, Arranged e.1 e.2) (hRegular : ∀ b ∈ fs.map Prod.fst, b.IsRegular) :
    ∀ b ∈ fs.map Prod.fst, (∀ i, b ≠ .item i) → 0 ≤ b.extent.height :=
  height_nonneg_of_isUpright hNested hArranged fun b hb => (hRegular b hb).isUpright

/-- In exact arithmetic the last box inside the document box or a block ends where the content of that box does. On
a page without negative edges and with level fonts, what is inside a box lies within the height of its content, and
blocks and lines stand clear of those below them. -/
theorem arranged_families {fonts : FontSource ℚ} {width : ℚ} {root : PageTree} {d : DocumentBox ℚ}
    (h : layoutStyled fonts width root = .ok d) :
    (∀ e ∈ d.families, e.1.isColumn = true → ∀ last ∈ e.2.getLast?,
      last.extent.y + last.extent.height + last.marginBottom + e.1.insetBottom =
        e.1.extent.y + e.1.extent.height) ∧
    ((∀ e ∈ d.outline, e.2.IsRegular) → ∀ e ∈ d.families,
      (∀ b ∈ e.2, b.extent.Within e.1.contentTop e.1.contentBottom) ∧
      (e.1.isColumn = true → e.2.Pairwise fun b c => b.extent.bottom ≤ c.extent.y)) := by
  have hArranged := arranged_layoutStyled h
  constructor
  · intro e he hKind last hLast
    have hEnd := ((hArranged e he).toColumn hKind).ends last hLast
    rw [Box.contentBottom, Extent.bottom, Extent.bottom] at hEnd
    linarith
  · intro hRegular e he
    have hListed : ∀ b ∈ d.families.map Prod.fst, b.IsRegular := by
      rw [d.map_fst_families]
      exact List.forall_mem_map.mpr hRegular
    have hInside : ∀ b ∈ e.2, b ∈ d.families.map Prod.fst := d.nested_families.mem e he
    have hHeights := height_nonneg d.nested_families hArranged hListed
    obtain ⟨box, inside⟩ := e
    have hBox := hArranged _ he
    cases hBox with
    | column _ hColumn =>
      have hSound : ∀ b ∈ inside, b.IsRegular := fun b hb => hListed b (hInside b hb)
      have hSize : ∀ b ∈ inside, 0 ≤ b.extent.height :=
        fun b hb => hHeights b (hInside b hb) (hColumn.ne_item b hb)
      exact ⟨hColumn.within hSound hSize, fun _ => hColumn.pairwise hSound hSize⟩
    | line node x y width ms =>
      refine ⟨fun b hb => ?_, fun hKind => absurd hKind Bool.false_ne_true⟩
      have hLevel := isLevel_of_items fun b hb => hListed b (hInside b hb)
      obtain ⟨i, hi, rfl⟩ := List.mem_map.mp hb
      refine (within_placeLine hLevel i hi).mono ?_ ?_
      · exact le_of_eq ((add_zero _).trans (y_placeLine x y width ms))
      · exact le_of_eq ((congrArg (· + _) (y_placeLine x y width ms).symm).trans (sub_zero _).symm)
    | item i => exact ⟨fun _ hNone => absurd hNone List.not_mem_nil, fun hKind => absurd hKind Bool.false_ne_true⟩

end

/-- The heading and the form of a page stand below one another, and the form ends where the content of the page
does. -/
theorem arranged_families_formPage :
    ∃ d e first last, layoutStyled evenFonts 774 formPage = .ok d ∧ (∀ e ∈ d.outline, e.2.IsRegular) ∧
      e ∈ d.families ∧ e.1.isColumn = true ∧ e.2 = [first, last] ∧
      last.extent.y + last.extent.height + last.marginBottom + e.1.insetBottom =
        e.1.extent.y + e.1.extent.height ∧
      first.extent.Within e.1.contentTop e.1.contentBottom ∧
      last.extent.Within e.1.contentTop e.1.contentBottom ∧ first.extent.bottom ≤ last.extent.y := by
  have hTest : (match layoutStyled evenFonts 774 formPage with
      | .ok d => d.outline.all (fun e => e.2.IsRegular) &&
        d.families.any fun e => e.1.isColumn && e.2.length == 2
      | .error _ => false) = true := by decide +kernel
  split at hTest
  · rename_i d hLayout
    obtain ⟨hAll, hAny⟩ := (Bool.and_eq_true _ _).mp hTest
    have hRegular : ∀ e ∈ d.outline, e.2.IsRegular := by simpa using hAll
    obtain ⟨⟨box, inside⟩, hMem, hPair⟩ := List.any_eq_true.mp hAny
    obtain ⟨hKind, hTwo⟩ := (Bool.and_eq_true _ _).mp hPair
    obtain ⟨first, last, rfl⟩ := List.length_eq_two.mp (eq_of_beq hTwo)
    obtain ⟨hEnds, hFits⟩ := arranged_families hLayout
    obtain ⟨hWithin, hColumn⟩ := hFits hRegular _ hMem
    exact ⟨d, _, first, last, hLayout, hRegular, hMem, hKind, rfl, hEnds _ hMem hKind last rfl,
      hWithin first List.mem_cons_self, hWithin last (List.mem_cons_of_mem _ List.mem_cons_self),
      (List.pairwise_cons.mp (hColumn hKind)).1 last List.mem_cons_self⟩
  · cases hTest

end PageRender
