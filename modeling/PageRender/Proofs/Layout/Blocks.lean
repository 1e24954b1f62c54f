import PageRender.Layout.Flow
import PageRender.Proofs.Markup.Descendants
import PageRender.Proofs.Outcome

/-! # Blocks inside blocks

A node that is laid out as a block either fills lines or stacks the blocks of its children. What holds of the blocks
of lines, and of a block whenever it holds of the blocks that it stacks, holds of every block of a layout.
-/

namespace PageRender

/-- The inside of a text is filled into lines, and so is that of an element that does not stack it. -/
def Node.fillsLines : PageTree → Bool
  | .text .. => true
  | .element _ t _ cs => !stacksChildren t cs

variable {α : Type} [Scalar α]

theorem layoutBlock_of_fillsLines (fonts : FontSource α) (left available above : α) {n : PageTree}
    (h : n.fillsLines = true) :
    layoutBlock fonts left available above n = layoutLines fonts (openBlock left available above n) n.pieces := by
  cases n with
  | text i s => rw [layoutBlock]
  | element i t a cs =>
    rw [Node.fillsLines, Bool.not_eq_true'] at h
    rw [layoutBlock, h]
    rfl

/-- The block of a node that stacks the blocks of its children. -/
def stackBlocks (left available above : α) (n : PageTree) (bs : List (Block α)) : Block α :=
  .blocks ((openBlock left available above n).close (Scalar.sum (bs.map (·.frame.outerHeight)))) bs

theorem layoutBlock_of_not_fillsLines (fonts : FontSource α) (left available above : α) {n : PageTree}
    (h : n.fillsLines = false) :
    layoutBlock fonts left available above n =
      (layoutBlocks fonts (openBlock left available above n).contentX (openBlock left available above n).contentWidth
        (openBlock left available above n).contentY n.children).map (stackBlocks left available above n) := by
  cases n with
  | text i s => cases h
  | element i t a cs =>
    rw [Node.fillsLines, Bool.not_eq_false'] at h
    rw [layoutBlock, h]
    rfl

/-- Blocks of nodes, each of which begins where the one before it ends; hidden nodes have none. `P` is about a block,
its node and where it begins. -/
inductive LaidBelow (P : α → PageTree → Block α → Prop) : α → List PageTree → List (Block α) → Prop
  | nil (above : α) : LaidBelow P above [] []
  | hidden {above : α} {n : PageTree} {ns : List PageTree} {bs : List (Block α)} (hHidden : n.isHidden = true)
      (hRest : LaidBelow P above ns bs) : LaidBelow P above (n :: ns) bs
  | cons {above : α} {n : PageTree} {b : Block α} {ns : List PageTree} {bs : List (Block α)}
      (hVisible : n.isHidden = false) (hBlock : P above n b) (hRest : LaidBelow P b.frame.below ns bs) :
      LaidBelow P above (n :: ns) (b :: bs)

theorem LaidBelow.imp {P Q : α → PageTree → Block α → Prop} {above : α} {ns : List PageTree} {bs : List (Block α)}
    (h : LaidBelow P above ns bs) (hImp : ∀ n ∈ ns, ∀ above b, P above n b → Q above n b) :
    LaidBelow Q above ns bs := by
  induction h with
  | nil above => exact .nil above
  | hidden hHidden _ ih => exact .hidden hHidden (ih (List.forall_mem_cons.mp hImp).2)
  | cons hVisible hBlock _ ih =>
    obtain ⟨hFirst, hOthers⟩ := List.forall_mem_cons.mp hImp
    exact .cons hVisible (hFirst _ _ hBlock) (ih hOthers)

theorem laidBelow_of_layoutBlocks {fonts : FontSource α} {left available above : α} {ns : List PageTree}
    {bs : List (Block α)} (h : layoutBlocks fonts left available above ns = .ok bs) :
    LaidBelow (fun above n b => layoutBlock fonts left available above n = .ok b) above ns bs := by
  induction ns generalizing above bs with
  | nil =>
    rw [layoutBlocks] at h
    cases h
    exact .nil above
  | cons n ns ih =>
    rw [layoutBlocks] at h
    split at h
    · rename_i hHidden
      exact .hidden hHidden (ih h)
    · rename_i hVisible
      obtain ⟨b, hFirst, h⟩ := Outcome.bind_eq_ok_iff.mp h
      obtain ⟨others, hOthers, h⟩ := Outcome.bind_eq_ok_iff.mp h
      cases h
      exact .cons (Bool.eq_false_iff.mpr hVisible) hFirst (ih hOthers)

theorem layoutBlock_induction {fonts : FontSource α} {motive : α → α → α → PageTree → Block α → Prop}
    (lines : ∀ left available above n b, n.fillsLines = true →
      layoutLines fonts (openBlock left available above n) n.pieces = .ok b → motive left available above n b)
    (blocks : ∀ left available above n bs, n.fillsLines = false →
      LaidBelow (motive (openBlock left available above n).contentX (openBlock left available above n).contentWidth)
        (openBlock left available above n).contentY n.children bs →
      motive left available above n (stackBlocks left available above n bs))
    {left available above : α} {n : PageTree} {b : Block α} (h : layoutBlock fonts left available above n = .ok b) :
    motive left available above n b := by
  induction n using Node.inductionOnChildren generalizing left available above b with
  | step n ih =>
    cases hFills : n.fillsLines with
    | true =>
      rw [layoutBlock_of_fillsLines fonts left available above hFills] at h
      exact lines left available above n b hFills h
    | false =>
      rw [layoutBlock_of_not_fillsLines fonts left available above hFills] at h
      obtain ⟨bs, hBlocks, rfl⟩ := Outcome.map_eq_ok_iff.mp h
      exact blocks left available above n bs hFills
        ((laidBelow_of_layoutBlocks hBlocks).imp fun c hc _ _ hBlock => ih c hc hBlock)

end PageRender
