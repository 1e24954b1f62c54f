import PageRender.Paint.Page
import PageRender.Proofs.Layout.Breaking
import PageRender.Proofs.Style.Computed

/-! # Boxes of controls

Which boxes stand for which nodes does not depend on sizes and places, but for the number of lines. It is read off
the tree: a node that stacks its children has a block box around theirs, any other one a block box around the items
of its lines. A control within a line is one item, whatever is inside. A control that is a block itself is looked at
as any other block is: if it has a block as a child, its children are stacked, and there is no item for it.
-/

namespace PageRender

/-! ## The way to a node -/

namespace Node

variable {α : Type}

/-- The nodes from the parent of a node up to another node that it is in. -/
inductive Lineage : Node α → List (Node α) → Node α → Prop
  | self (n : Node α) : Lineage n [] n
  | child {m c n : Node α} {above : List (Node α)} (hc : c ∈ m.children) (h : Lineage c above n) :
      Lineage m (above ++ [m]) n

mutual

theorem exists_lineage_of_mem {m n : Node α} {above outer : List (Node α)} (h : (above, n) ∈ m.lineages outer) :
    ∃ inner, above = inner ++ outer ∧ Lineage m inner n := by
  cases m with
  | text i s =>
    cases List.mem_singleton.mp h
    exact ⟨[], rfl, .self _⟩
  | element i t a cs =>
    rw [lineages, List.mem_cons] at h
    rcases h with h | h
    · cases h
      exact ⟨[], rfl, .self _⟩
    · obtain ⟨c, hc, inner, rfl, hLineage⟩ := exists_lineage_of_mem_forest h
      exact ⟨inner ++ [.element i t a cs], by simp, .child hc hLineage⟩

theorem exists_lineage_of_mem_forest {ms : List (Node α)} {n : Node α} {above outer : List (Node α)}
    (h : (above, n) ∈ forestLineages outer ms) :
    ∃ c ∈ ms, ∃ inner, above = inner ++ outer ∧ Lineage c inner n := by
  cases ms with
  | nil => cases h
  | cons m ms =>
    rw [forestLineages, List.mem_append] at h
    rcases h with h | h
    · exact ⟨m, List.mem_cons_self, exists_lineage_of_mem h⟩
    · obtain ⟨c, hc, hInner⟩ := exists_lineage_of_mem_forest h
      exact ⟨c, List.mem_cons_of_mem m hc, hInner⟩

end

theorem Lineage.mem_descendants {m n : Node α} {above : List (Node α)} (h : Lineage m above n) :
    n ∈ m.descendants := by
  induction h with
  | self n => exact n.mem_descendants_self
  | child hc h ih => exact mem_descendants_iff.mpr (.inr ⟨_, hc, ih⟩)

end Node

/-! ## What stands for which node -/

/-- A box of a block or of an item, without its place. -/
inductive Standing where
  | block (node : PageTree) (holdsLines : Bool)
  | item (node : PageTree) (kind : ItemKind)

namespace Standing

def node : Standing → PageTree
  | block n _ => n
  | item n _ => n

def isItem : Standing → Bool
  | block .. => false
  | item .. => true

end Standing

def itemStandings (ps : List Piece) : List Standing :=
  (ps.filterMap Piece.content?).map fun content => .item content.1 content.2

namespace Node

mutual

/-- The boxes of a node that is laid out as a block, but for the lines. -/
def standings : PageTree → List Standing
  | .text i s => .block (.text i s) true :: itemStandings (Node.text i s).pieces
  | .element i t a cs =>
    if stacksChildren t cs then .block (.element i t a cs) false :: forestStandings cs
    else .block (.element i t a cs) true :: itemStandings (Node.element i t a cs).pieces

def forestStandings : List PageTree → List Standing
  | [] => []
  | n :: ns => (if n.isHidden then [] else n.standings) ++ forestStandings ns

end

theorem standings_of_fillsLines {n : PageTree} (h : n.fillsLines = true) :
    n.standings = .block n true :: itemStandings n.pieces := by
  cases n with
  | text i s => rfl
  | element i t a cs =>
    rw [fillsLines, Bool.not_eq_true'] at h
    rw [standings, h]
    rfl

theorem standings_of_not_fillsLines {n : PageTree} (h : n.fillsLines = false) :
    n.standings = .block n false :: forestStandings n.children := by
  cases n with
  | text i s => cases h
  | element i t a cs =>
    rw [fillsLines, Bool.not_eq_false'] at h
    rw [standings, h]
    rfl

end Node

section

variable {α : Type}

def Item.standing (i : Item α) : Standing :=
  .item i.node i.kind

def Box.standing? : Box α → Option Standing
  | .block f holdsLines => some (.block f.node holdsLines)
  | .item i => some i.standing
  | .document _ | .line .. => none

/-- Boxes that stand for nodes in this way; a line stands for a node that has a box of its own. -/
structure StandFor (boxes : List (Nat × Box α)) (standings : List Standing) : Prop where
  eq : boxes.filterMap (·.2.standing?) = standings
  node_mem : ∀ e ∈ boxes, e.2.node ∈ standings.map Standing.node

theorem StandFor.append {boxes others : List (Nat × Box α)} {ss ts : List Standing} (h : StandFor boxes ss)
    (k : StandFor others ts) : StandFor (boxes ++ others) (ss ++ ts) := by
  refine ⟨by rw [List.filterMap_append, h.eq, k.eq], fun e he => ?_⟩
  rw [List.map_append, List.mem_append]
  exact (List.mem_append.mp he).imp (h.node_mem e) (k.node_mem e)

theorem StandFor.cons {boxes : List (Nat × Box α)} {ss : List Standing} (h : StandFor boxes ss) (depth : Nat)
    (f : BlockFrame α) (holdsLines : Bool) :
    StandFor ((depth, .block f holdsLines) :: boxes) (.block f.node holdsLines :: ss) := by
  refine ⟨by rw [List.filterMap_cons, Box.standing?, h.eq], List.forall_mem_cons.mpr ⟨List.mem_cons_self, ?_⟩⟩
  exact fun e he => List.mem_cons_of_mem _ (h.node_mem e he)

theorem standings_lineOutline (depth : Nat) (node : PageTree) (ls : List (Line α)) :
    (Block.lineOutline depth node ls).filterMap (·.2.standing?) = (ls.flatMap (·.items)).map Item.standing := by
  rw [Block.lineOutline, List.filterMap_flatMap, List.map_flatMap]
  refine List.flatMap_congr fun l _ => ?_
  rw [List.filterMap_cons, List.filterMap_map]
  exact congrFun (List.filterMap_eq_map) l.items

theorem node_lineOutline {depth : Nat} {node : PageTree} {ls : List (Line α)} {e : Nat × Box α}
    (h : e ∈ Block.lineOutline depth node ls) :
    e.2.node = node ∨ e.2.node ∈ ((ls.flatMap (·.items)).map Item.standing).map Standing.node := by
  obtain ⟨l, hl, he⟩ := List.mem_flatMap.mp h
  rcases List.mem_cons.mp he with rfl | he
  · exact .inl rfl
  · obtain ⟨i, hi, rfl⟩ := List.mem_map.mp he
    have hItem : i ∈ ls.flatMap (·.items) := List.mem_flatMap.mpr ⟨l, hl, hi⟩
    exact .inr (List.mem_map_of_mem (List.mem_map_of_mem hItem))

variable [Scalar α] {fonts : FontSource α}

theorem standFor_layoutLines {o : BlockOpening α} {ps : List Piece} {b : Block α}
    (h : layoutLines fonts o ps = .ok b) (depth : Nat) :
    StandFor (b.outline depth) (.block o.frame.node true :: itemStandings ps) := by
  obtain ⟨filled, hFilled, h⟩ := Outcome.bind_eq_ok_iff.mp h
  cases h
  have hItems : ((placeLines o.contentX o.contentY o.contentWidth filled.lines).flatMap (·.items)).map Item.standing =
      itemStandings ps := by
    have hContent := content_placeLines o.contentX o.contentY o.contentWidth filled.lines
    rw [show filled.lines.flatten = filled.items from rfl, content_fillLines hFilled,
      LineFilling.items_start] at hContent
    rw [itemStandings, ← List.nil_append (ps.filterMap Piece.content?), ← List.map_nil, ← hContent, List.map_map]
    rfl
  constructor
  · rw [Block.outline, List.filterMap_cons, standings_lineOutline, hItems]
    rfl
  · refine List.forall_mem_cons.mpr ⟨List.mem_cons_self, fun e he => ?_⟩
    rw [List.map_cons, List.mem_cons, ← hItems]
    exact node_lineOutline he

theorem standFor_of_laidBelow {above : α} {ns : List PageTree} {bs : List (Block α)} {depth : Nat}
    (h : LaidBelow (fun _ n b => StandFor (b.outline depth) n.standings) above ns bs) :
    StandFor (Block.outlines depth bs) (Node.forestStandings ns) := by
  induction h with
  | nil => exact ⟨rfl, fun _ hNone => absurd hNone List.not_mem_nil⟩
  | hidden hHidden _ ih => rwa [Node.forestStandings, if_pos hHidden]
  | cons hVisible hBlock _ ih =>
    rw [Block.outlines, Node.forestStandings, hVisible]
    exact hBlock.append ih

theorem standFor_layoutBlock {left available above : α} {n : PageTree} {b : Block α}
    (h : layoutBlock fonts left available above n = .ok b) (depth : Nat) :
    StandFor (b.outline depth) n.standings := by
  revert depth
  apply layoutBlock_induction (motive := fun _ _ _ n b => ∀ depth, StandFor (b.outline depth) n.standings) ?_ ?_ h
  · intro left available above n b hFills hLines depth
    rw [Node.standings_of_fillsLines hFills]
    exact standFor_layoutLines hLines depth
  · intro left available above n bs hStacks hBlocks depth
    rw [Node.standings_of_not_fillsLines hStacks]
    exact (standFor_of_laidBelow (hBlocks.imp fun _ _ _ _ hBlock => hBlock (depth + 1))).cons ..

end

/-! ## Apart from a node -/

namespace Node

/-- The number belongs to no node of the tree. -/
def Lacks (n : PageTree) (id : Nat) : Prop :=
  id ∉ n.descendants.map (·.info.id)

theorem Lacks.of_mem {m n : PageTree} {id : Nat} (h : m.Lacks id) (hn : n ∈ m.descendants) : n.Lacks id := by
  intro hMem
  obtain ⟨k, hk, rfl⟩ := List.mem_map.mp hMem
  exact h (List.mem_map_of_mem (mem_descendants_trans hk hn))

section

variable {m c n : PageTree} (hIds : (m.descendants.map (·.info.id)).Nodup)

include hIds

theorem lacks_of_child (hc : c ∈ m.children) : c.Lacks m.info.id := by
  rw [descendants_eq_cons, List.map_cons, List.nodup_cons] at hIds
  intro hMem
  obtain ⟨k, hk, hId⟩ := List.mem_map.mp hMem
  exact hIds.1 (hId ▸ List.mem_map_of_mem (List.mem_flatMap.mpr ⟨c, hc, hk⟩))

theorem nodup_ids_child (hc : c ∈ m.children) : (c.descendants.map (·.info.id)).Nodup := by
  obtain ⟨before, after, hChildren⟩ := List.append_of_mem hc
  rw [descendants_eq_cons, hChildren] at hIds
  refine hIds.sublist (List.Sublist.map _ (List.Sublist.cons _ ?_))
  rw [List.flatMap_append, List.flatMap_cons]
  exact (List.sublist_append_left _ _).trans (List.sublist_append_right _ _)

theorem lacks_of_sibling {before after : List PageTree} (hChildren : m.children = before ++ c :: after) :
    ∀ k ∈ before ++ after, ∀ j ∈ k.descendants, c.Lacks j.info.id := by
  rw [descendants_eq_cons, hChildren, List.map_cons, List.nodup_cons, List.flatMap_append, List.flatMap_cons,
    List.map_append, List.map_append] at hIds
  obtain ⟨-, hFrom, hAcross⟩ := List.nodup_append.mp hIds.2
  obtain ⟨-, -, hAfter⟩ := List.nodup_append.mp hFrom
  intro k hk j hj hMem
  rcases List.mem_append.mp hk with hk | hk
  · exact hAcross _ (List.mem_map_of_mem (List.mem_flatMap.mpr ⟨k, hk, hj⟩)) _ (List.mem_append_left _ hMem) rfl
  · exact hAfter _ hMem _ (List.mem_map_of_mem (List.mem_flatMap.mpr ⟨k, hk, hj⟩)) rfl

/-- A node has a number of its own, and so nothing inside another node has it. -/
theorem id_ne_of_inside {k : PageTree} (hn : n ∈ m.descendants) (hk : k ∈ n.children.flatMap descendants) :
    m.info.id ≠ k.info.id := by
  have hInside : k ∈ m.children.flatMap descendants := by
    rcases mem_descendants_iff.mp hn with rfl | ⟨c, hc, hn⟩
    · exact hk
    · refine List.mem_flatMap.mpr ⟨c, hc, mem_descendants_trans ?_ hn⟩
      rw [descendants_eq_cons]
      exact List.mem_cons_of_mem n hk
  rw [descendants_eq_cons, List.map_cons, List.nodup_cons] at hIds
  intro hId
  exact hIds.1 (hId ▸ List.mem_map_of_mem hInside)

end

theorem nodup_ids_of_lineage {m n : PageTree} {above : List PageTree} (h : Lineage m above n)
    (hIds : (m.descendants.map (·.info.id)).Nodup) : (n.descendants.map (·.info.id)).Nodup := by
  induction h with
  | self => exact hIds
  | child hc h ih => exact ih (nodup_ids_child hIds hc)

end Node

/-! ## Controls -/

namespace Node

def isShownControl (n : PageTree) : Bool :=
  n.tag?.any isControlTag && !n.isHidden

/-- What is inside of such an element is laid out on the way through it. -/
def isOpen (n : PageTree) : Bool :=
  !n.isHidden && !n.hasTag "br" && !n.tag?.any isControlTag

theorem forestPieces_eq (ns : List PageTree) : forestPieces ns = ns.flatMap pieces := by
  induction ns with
  | nil => rfl
  | cons n ns ih => rw [forestPieces, List.flatMap_cons, ih]

theorem forestStandings_eq (ns : List PageTree) :
    forestStandings ns = (ns.filter (!·.isHidden)).flatMap standings := by
  induction ns with
  | nil => rfl
  | cons n ns ih =>
    rw [forestStandings, ih, List.filter_cons]
    cases n.isHidden <;> rfl

theorem pieces_of_isShownControl {n : PageTree} (h : n.isShownControl = true) : n.pieces = [.item n .control] := by
  cases n with
  | text i s => cases h
  | element i t a cs =>
    rw [isShownControl, Bool.and_eq_true, Bool.not_eq_true'] at h
    have hControl : isControlTag t = true := h.1
    have hBreak : (t == "br") = false := by
      rw [beq_eq_false_iff_ne]
      rintro rfl
      exact absurd hControl (by decide)
    rw [pieces, h.2, hBreak, hControl]
    rfl

theorem pieces_of_isOpen {n : PageTree} (h : n.isOpen = true) (hChildren : n.children ≠ []) :
    n.pieces = n.children.flatMap pieces := by
  cases n with
  | text i s => exact absurd rfl hChildren
  | element i t a cs =>
    simp only [isOpen, Bool.and_eq_true, Bool.not_eq_true'] at h
    obtain ⟨⟨hVisible, hBreak⟩, hControl⟩ := h
    have hBreak : (t == "br") = false := hBreak
    have hControl : isControlTag t = false := hControl
    rw [pieces, hVisible, hBreak, hControl]
    exact forestPieces_eq cs

theorem node_mem_pieces (n : PageTree) : ∀ p ∈ n.pieces.filterMap Piece.content?, p.1 ∈ n.descendants := by
  induction n using inductionOnChildren with
  | step n ih =>
  cases n with
  | text i s =>
    intro p hp
    obtain ⟨piece, hPiece, hContent⟩ := List.mem_filterMap.mp hp
    obtain ⟨w, -, rfl⟩ := List.mem_map.mp hPiece
    cases hContent
    exact mem_descendants_self _
  | element i t a cs =>
    intro p hp
    rw [pieces] at hp
    split at hp
    · cases hp
    split at hp
    · cases hp
    split at hp
    · obtain rfl := List.mem_singleton.mp hp
      exact mem_descendants_self _
    · rw [forestPieces_eq, List.filterMap_flatMap, List.mem_flatMap] at hp
      obtain ⟨c, hc, hp⟩ := hp
      exact mem_descendants_iff.mpr (.inr ⟨c, hc, ih c hc p hp⟩)

theorem node_mem_standings (n : PageTree) : ∀ s ∈ n.standings, s.node ∈ n.descendants := by
  induction n using inductionOnChildren with
  | step n ih =>
  have hItems : ∀ s ∈ itemStandings n.pieces, s.node ∈ n.descendants := by
    intro s hs
    obtain ⟨p, hp, rfl⟩ := List.mem_map.mp hs
    exact node_mem_pieces n p hp
  cases n with
  | text i s => exact List.forall_mem_cons.mpr ⟨mem_descendants_self _, hItems⟩
  | element i t a cs =>
    rw [standings]
    split
    · refine List.forall_mem_cons.mpr ⟨mem_descendants_self _, fun s hs => ?_⟩
      rw [forestStandings_eq, List.mem_flatMap] at hs
      obtain ⟨c, hc, hs⟩ := hs
      have hChild := (List.mem_filter.mp hc).1
      exact mem_descendants_iff.mpr (.inr ⟨c, hChild, ih c hChild s hs⟩)
    · exact List.forall_mem_cons.mpr ⟨mem_descendants_self _, hItems⟩

/-- In a line that comes to a control, there is one item for it, and none for what is inside. -/
theorem exists_content_eq {m n : PageTree} {above : List PageTree} (h : Lineage m above n)
    (hIds : (m.descendants.map (·.info.id)).Nodup) (hShown : n.isShownControl = true)
    (hOpen : ∀ a ∈ above, a.isOpen = true) :
    ∃ before after, m.pieces.filterMap Piece.content? = before ++ (n, .control) :: after ∧
      ∀ p ∈ before ++ after, n.Lacks p.1.info.id := by
  induction h with
  | self n =>
    rw [pieces_of_isShownControl hShown]
    exact ⟨[], [], rfl, by simp⟩
  | @child m c n above hc h ih =>
    -- The items of the siblings come before and after those of the child on the way.
    obtain ⟨hOpenInside, hOpenSelf⟩ := List.forall_mem_append.mp hOpen
    obtain ⟨before, after, hContent, hApart⟩ := ih (nodup_ids_child hIds hc) hShown hOpenInside
    obtain ⟨front, back, hChildren⟩ := List.append_of_mem hc
    have hSibling : ∀ k ∈ front ++ back, ∀ p ∈ k.pieces.filterMap Piece.content?, n.Lacks p.1.info.id := by
      intro k hk p hp
      exact (lacks_of_sibling hIds hChildren k hk _ (node_mem_pieces k p hp)).of_mem h.mem_descendants
    rw [pieces_of_isOpen (hOpenSelf m (List.mem_singleton_self m)) (List.ne_nil_of_mem hc), hChildren,
      List.filterMap_flatMap, List.flatMap_append, List.flatMap_cons, hContent]
    refine ⟨front.flatMap (fun k => k.pieces.filterMap Piece.content?) ++ before,
      after ++ back.flatMap (fun k => k.pieces.filterMap Piece.content?), by simp, fun p hp => ?_⟩
    simp only [List.mem_append, List.mem_flatMap] at hp hApart hSibling
    rcases hp with (⟨k, hk, hp⟩ | hp) | hp | ⟨k, hk, hp⟩
    · exact hSibling k (.inl hk) p hp
    · exact hApart p (.inl hp)
    · exact hApart p (.inr hp)
    · exact hSibling k (.inr hk) p hp

end Node

/-- One item stands for the control, and nothing for a node inside. -/
structure HoldsControl (n : PageTree) (ss : List Standing) : Prop where
  once : ss.filter (fun s => s.node.info.id == n.info.id && s.isItem) = [.item n .control]
  inside : ∀ s ∈ ss, ∀ k ∈ n.children.flatMap Node.descendants, s.node.info.id ≠ k.info.id

/-- The inside of a control is stacked, and no item stands for it. -/
structure StacksControl (n : PageTree) (ss : List Standing) : Prop where
  stacked : .block n false ∈ ss
  missing : ∀ s ∈ ss, s.isItem = true → s.node.info.id ≠ n.info.id

section

variable {n : PageTree} {before ss after : List Standing}

theorem filter_of_lacks (h : ∀ s ∈ ss, n.Lacks s.node.info.id) :
    ss.filter (fun s => s.node.info.id == n.info.id && s.isItem) = [] := by
  rw [List.filter_eq_nil_iff]
  intro s hs
  rw [Bool.and_eq_true, beq_iff_eq]
  rintro ⟨hId, -⟩
  exact h s hs (hId ▸ List.mem_map_of_mem n.mem_descendants_self)

theorem inside_of_lacks (h : ∀ s ∈ ss, n.Lacks s.node.info.id) :
    ∀ s ∈ ss, ∀ k ∈ n.children.flatMap Node.descendants, s.node.info.id ≠ k.info.id := by
  intro s hs k hk hId
  refine h s hs (hId ▸ List.mem_map_of_mem ?_)
  rw [Node.descendants_eq_cons]
  exact List.mem_cons_of_mem n hk

theorem HoldsControl.among (h : HoldsControl n ss) (hBefore : ∀ s ∈ before, n.Lacks s.node.info.id)
    (hAfter : ∀ s ∈ after, n.Lacks s.node.info.id) : HoldsControl n (before ++ (ss ++ after)) := by
  constructor
  · rw [List.filter_append, List.filter_append, filter_of_lacks hBefore, filter_of_lacks hAfter, h.once]
    rfl
  · rw [List.forall_mem_append, List.forall_mem_append]
    exact ⟨inside_of_lacks hBefore, h.inside, inside_of_lacks hAfter⟩

theorem HoldsControl.cons_block {m : PageTree} {holdsLines : Bool} (h : HoldsControl n ss)
    (hOutside : ∀ k ∈ n.children.flatMap Node.descendants, m.info.id ≠ k.info.id) :
    HoldsControl n (.block m holdsLines :: ss) := by
  constructor
  · rw [List.filter_cons_of_neg (by simp [Standing.isItem]), h.once]
  · exact List.forall_mem_cons.mpr ⟨hOutside, h.inside⟩

theorem StacksControl.among (h : StacksControl n ss) (hBefore : ∀ s ∈ before, n.Lacks s.node.info.id)
    (hAfter : ∀ s ∈ after, n.Lacks s.node.info.id) : StacksControl n (before ++ (ss ++ after)) := by
  have hOthers {ts : List Standing} (hts : ∀ s ∈ ts, n.Lacks s.node.info.id) :
      ∀ s ∈ ts, s.isItem = true → s.node.info.id ≠ n.info.id := by
    intro s hs _ hId
    exact hts s hs (hId ▸ List.mem_map_of_mem n.mem_descendants_self)
  constructor
  · exact List.mem_append_right _ (List.mem_append_left _ h.stacked)
  · rw [List.forall_mem_append, List.forall_mem_append]
    exact ⟨hOthers hBefore, h.missing, hOthers hAfter⟩

end

namespace Node

theorem isHidden_of_lineage {c n : PageTree} {above : List PageTree} (h : Lineage c above n)
    (hShown : n.isShownControl = true) (hOpen : ∀ a ∈ above, a.isOpen = true) : c.isHidden = false := by
  cases h with
  | self =>
    rw [isShownControl, Bool.and_eq_true, Bool.not_eq_true'] at hShown
    exact hShown.2
  | child hc h =>
    have hSelf := hOpen c (by simp)
    simp only [isOpen, Bool.and_eq_true, Bool.not_eq_true'] at hSelf
    exact hSelf.1.1

/-- The boxes of a child among those of its parent, which stacks its children. -/
theorem exists_standings_eq {m c : PageTree} (hIds : (m.descendants.map (·.info.id)).Nodup) (hc : c ∈ m.children)
    (hVisible : c.isHidden = false) (hStacks : m.fillsLines = false) :
    ∃ before after, m.standings = before ++ (c.standings ++ after) ∧
      (∀ s ∈ before, c.Lacks s.node.info.id) ∧ ∀ s ∈ after, c.Lacks s.node.info.id := by
  obtain ⟨front, back, hChildren⟩ := List.append_of_mem hc
  have hSibling : ∀ ks, ks ⊆ front ++ back → ∀ s ∈ (ks.filter (!·.isHidden)).flatMap standings,
      c.Lacks s.node.info.id := by
    intro ks hks s hs
    obtain ⟨k, hk, hs⟩ := List.mem_flatMap.mp hs
    exact lacks_of_sibling hIds hChildren k (hks (List.mem_filter.mp hk).1) _ (node_mem_standings k s hs)
  refine ⟨.block m false :: (front.filter (!·.isHidden)).flatMap standings,
    (back.filter (!·.isHidden)).flatMap standings, ?_, ?_, ?_⟩
  · rw [standings_of_not_fillsLines hStacks, forestStandings_eq, hChildren]
    simp [hVisible]
  · exact List.forall_mem_cons.mpr ⟨lacks_of_child hIds hc, hSibling front (List.subset_append_left _ _)⟩
  · exact hSibling back (List.subset_append_right _ _)

section

variable {m n : PageTree} {above : List PageTree} (h : Lineage m above n)
  (hIds : (m.descendants.map (·.info.id)).Nodup) (hShown : n.isShownControl = true)
  (hOpen : ∀ a ∈ above, a.isOpen = true)

include h hIds hShown hOpen

theorem holdsControl_of_fillsLines (hFills : m.fillsLines = true) : HoldsControl n m.standings := by
  obtain ⟨before, after, hContent, hApart⟩ := exists_content_eq h hIds hShown hOpen
  rw [List.forall_mem_append] at hApart
  rw [standings_of_fillsLines hFills, itemStandings, hContent]
  have hItems {ps : List (PageTree × ItemKind)} (hps : ∀ p ∈ ps, n.Lacks p.1.info.id) :
      ∀ s ∈ ps.map fun p => Standing.item p.1 p.2, n.Lacks s.node.info.id := List.forall_mem_map.mpr hps
  have hSelf : HoldsControl n [.item n .control] := by
    refine ⟨by simp [Standing.isItem, Standing.node], List.forall_mem_singleton.mpr fun k hk => ?_⟩
    exact id_ne_of_inside (nodup_ids_of_lineage h hIds) n.mem_descendants_self hk
  have hLine := hSelf.among (hItems hApart.1) (hItems hApart.2)
  rw [List.map_append, List.map_cons]
  exact hLine.cons_block fun k hk => id_ne_of_inside hIds h.mem_descendants hk

/-- If a control or something around it fills lines, a line holds the control. -/
theorem holdsControl_standings (hFills : ∃ a ∈ n :: above, a.fillsLines = true) : HoldsControl n m.standings := by
  induction h with
  | self n =>
    obtain ⟨a, ha, hFills⟩ := hFills
    obtain rfl := List.mem_singleton.mp ha
    exact holdsControl_of_fillsLines (.self a) hIds hShown hOpen hFills
  | @child m c n above hc h ih =>
    -- The first one from the outside in that fills lines decides.
    cases hSelf : m.fillsLines with
    | true => exact holdsControl_of_fillsLines (.child hc h) hIds hShown hOpen hSelf
    | false =>
      have hOpenInside := (List.forall_mem_append.mp hOpen).1
      have hFillsInside : ∃ a ∈ n :: above, a.fillsLines = true := by
        obtain ⟨a, ha, hFills⟩ := hFills
        rw [← List.cons_append, List.mem_append, List.mem_singleton] at ha
        rcases ha with ha | rfl
        · exact ⟨a, ha, hFills⟩
        · rw [hSelf] at hFills
          cases hFills
      obtain ⟨before, after, hStandings, hBefore, hAfter⟩ :=
        exists_standings_eq hIds hc (isHidden_of_lineage h hShown hOpenInside) hSelf
      rw [hStandings]
      exact (ih (nodup_ids_child hIds hc) hShown hOpenInside hFillsInside).among
        (fun s hs => (hBefore s hs).of_mem h.mem_descendants) (fun s hs => (hAfter s hs).of_mem h.mem_descendants)

theorem stacksControl_standings (hStacks : ∀ a ∈ n :: above, a.fillsLines = false) :
    StacksControl n m.standings := by
  induction h with
  | self n =>
    have hSelf := hStacks n List.mem_cons_self
    rw [standings_of_not_fillsLines hSelf, forestStandings_eq]
    refine ⟨List.mem_cons_self, List.forall_mem_cons.mpr ⟨nofun, fun s hs _ hId => ?_⟩⟩
    obtain ⟨c, hc, hs⟩ := List.mem_flatMap.mp hs
    exact lacks_of_child hIds (List.mem_filter.mp hc).1 (hId ▸ List.mem_map_of_mem (node_mem_standings c s hs))
  | @child m c n above hc h ih =>
    rw [← List.cons_append, List.forall_mem_append] at hStacks
    have hOpenInside := (List.forall_mem_append.mp hOpen).1
    obtain ⟨before, after, hStandings, hBefore, hAfter⟩ := exists_standings_eq hIds hc
      (isHidden_of_lineage h hShown hOpenInside) (hStacks.2 m (List.mem_singleton_self m))
    rw [hStandings]
    exact (ih (nodup_ids_child hIds hc) hShown hOpenInside hStacks.1).among
      (fun s hs => (hBefore s hs).of_mem h.mem_descendants) (fun s hs => (hAfter s hs).of_mem h.mem_descendants)

end

end Node

/-! ## Pages -/

section

variable {α : Type}

def Box.item? : Box α → Option (Item α)
  | .item i => some i
  | .document _ | .block .. | .line .. => none

def DocumentBox.items (d : DocumentBox α) : List (Item α) :=
  d.outline.filterMap (·.2.item?)

/-- Exactly one item stands for a node, as a control, and no box for a node inside. -/
structure DocumentBox.HasControl (d : DocumentBox α) (n : PageTree) : Prop where
  once : ∃ i, d.items.filter (·.node.info.id == n.info.id) = [i] ∧ i.node = n ∧ i.kind = .control
  inside : ∀ e ∈ d.outline, ∀ k ∈ n.children.flatMap Node.descendants, e.2.node.info.id ≠ k.info.id

theorem map_standing_items (boxes : List (Nat × Box α)) :
    (boxes.filterMap (·.2.item?)).map Item.standing = (boxes.filterMap (·.2.standing?)).filter Standing.isItem := by
  induction boxes with
  | nil => rfl
  | cons e boxes ih =>
    obtain ⟨depth, box⟩ := e
    cases box with
    | item i => exact congrArg (i.standing :: ·) ih
    | document | block | line => exact ih

variable {root : PageTree} {d : DocumentBox α}

theorem standFor_layoutDocument [Scalar α] {fonts : FontSource α} {viewport : α}
    (h : layoutDocument fonts viewport root = .ok d) : StandFor d.outline root.standings := by
  obtain ⟨b, hBlock, hPage⟩ := Outcome.bind_eq_ok_iff.mp (Outcome.mapError_eq_ok_iff.mp h)
  cases hPage
  have hRoot := standFor_layoutBlock hBlock 1
  refine ⟨hRoot.eq, List.forall_mem_cons.mpr ⟨?_, hRoot.node_mem⟩⟩
  -- The document stands for the node of the block at the root, which comes first among the blocks.
  cases b with
  | blocks f bs => exact hRoot.node_mem (1, .block f false) List.mem_cons_self
  | lines f ls => exact hRoot.node_mem (1, .block f true) List.mem_cons_self

theorem HoldsControl.hasControl {n : PageTree} (h : StandFor d.outline root.standings)
    (hHolds : HoldsControl n root.standings) : d.HasControl n := by
  constructor
  · have hItems : (d.items.filter (·.node.info.id == n.info.id)).map Item.standing = [.item n .control] := by
      rw [← hHolds.once, ← h.eq, ← List.filter_filter, ← map_standing_items, List.filter_map]
      rfl
    obtain ⟨i, hi, hStanding⟩ := List.map_eq_singleton_iff.mp hItems
    cases i
    cases hStanding
    exact ⟨_, hi, rfl, rfl⟩
  · intro e he
    obtain ⟨s, hs, hNode⟩ := List.mem_map.mp (h.node_mem e he)
    rw [← hNode]
    exact hHolds.inside s hs

theorem StacksControl.not_hasControl {n : PageTree} (h : StandFor d.outline root.standings)
    (hStacks : StacksControl n root.standings) :
    (∃ depth f, (depth, .block f false) ∈ d.outline ∧ f.node = n) ∧ ∀ i ∈ d.items, i.node.info.id ≠ n.info.id := by
  constructor
  · have hBlock := hStacks.stacked
    rw [← h.eq, List.mem_filterMap] at hBlock
    obtain ⟨⟨depth, box⟩, hMem, hBox⟩ := hBlock
    cases box with
    | block f holdsLines =>
      cases hBox
      exact ⟨depth, f, hMem, rfl⟩
    | document | line | item => cases hBox
  · intro i hi
    have hStanding : i.standing ∈ d.items.map Item.standing := List.mem_map_of_mem hi
    rw [DocumentBox.items, map_standing_items, h.eq] at hStanding
    exact hStacks.missing i.standing (List.mem_filter.mp hStanding).1 rfl

theorem Node.fillsLines_of_isShownControl {n : PageTree} (h : n.isShownControl = true) :
    n.fillsLines = true ↔ ∀ c ∈ n.children, c.beginsBlock = false := by
  cases n with
  | text i s => cases h
  | element i t a cs =>
    rw [isShownControl, Bool.and_eq_true] at h
    have hControl : isControlTag t = true := h.1
    rw [fillsLines, stacksChildren, hControl, Bool.not_true, Bool.and_false, Bool.or_false, Bool.not_eq_true',
      List.any_eq_false]
    simp [children]

/-- A control that is shown has one item for itself, and nothing for what is inside, if none of its children is a
block or an element around it fills lines. Where everything down to the control is stacked, and it has such a child,
its inside is stacked too, and there is no item for it. -/
theorem hasControl_layoutDocument [Scalar α] {fonts : FontSource α} {viewport : α}
    (h : layoutDocument fonts viewport root = .ok d)
    (hIds : (root.descendants.map (·.info.id)).Nodup) {above : List PageTree} {n : PageTree}
    (hMem : (above, n) ∈ root.lineages []) (hShown : n.isShownControl = true)
    (hOpen : ∀ a ∈ above, a.isOpen = true) :
    (d.HasControl n ↔ (∀ c ∈ n.children, c.beginsBlock = false) ∨ ∃ a ∈ above, a.fillsLines = true) ∧
    (d.HasControl n ∨ (∃ depth f, (depth, .block f false) ∈ d.outline ∧ f.node = n) ∧
      ∀ i ∈ d.items, i.node.info.id ≠ n.info.id) := by
  obtain ⟨inner, rfl, hLineage⟩ := Node.exists_lineage_of_mem hMem
  rw [List.append_nil] at hOpen ⊢
  have hStands := standFor_layoutDocument h
  rw [← Node.fillsLines_of_isShownControl hShown]
  by_cases hFills : ∃ a ∈ n :: inner, a.fillsLines = true
  · have hHas := (Node.holdsControl_standings hLineage hIds hShown hOpen hFills).hasControl hStands
    exact ⟨iff_of_true hHas (by simpa using hFills), .inl hHas⟩
  · have hStacks : ∀ a ∈ n :: inner, a.fillsLines = false := by simpa using hFills
    have hMissing := (Node.stacksControl_standings hLineage hIds hShown hOpen hStacks).not_hasControl hStands
    refine ⟨iff_of_false ?_ (by simpa using hFills), .inr hMissing⟩
    rintro ⟨⟨i, hi, rfl, -⟩, -⟩
    have hItem : i ∈ d.items.filter (·.node.info.id == i.node.info.id) := hi ▸ List.mem_singleton_self i
    exact hMissing.2 i (List.mem_filter.mp hItem).1 rfl

end

/-- A button beside a word, and one beside a heading, each with a block inside. -/
def buttonPage : PageTree :=
  .element { id := 0 } "body" .empty [
    .element { id := 1 } "h1" .empty [
      .text { id := 2 } "press",
      .element { id := 3 } "button" .empty [.element { id := 4 } "div" .empty [.text { id := 5 } "here"]]],
    .element { id := 6 } "button" .empty [.element { id := 7 } "div" .empty [.text { id := 8 } "there"]]]

theorem hasControl_buttonPage : ∃ d above n, layoutDocument evenFonts 800 buttonPage = .ok d ∧
    (buttonPage.descendants.map (·.info.id)).Nodup ∧ (above, n) ∈ buttonPage.lineages [] ∧
    n.isShownControl = true ∧ (∀ a ∈ above, a.isOpen = true) ∧ n.info.id = 3 ∧ d.HasControl n := by
  have hIsOk : (layoutDocument evenFonts 800 buttonPage).isOk = true := by decide +kernel
  have hIds : (buttonPage.descendants.map (·.info.id)).Nodup := by decide +kernel
  have hButton : ∃ e ∈ buttonPage.lineages [], e.2.info.id = 3 ∧ e.2.isShownControl = true ∧
      (∀ a ∈ e.1, a.isOpen = true) ∧ ∃ a ∈ e.1, a.fillsLines = true := by decide +kernel
  obtain ⟨d, hLayout⟩ := Outcome.exists_of_isOk hIsOk
  obtain ⟨⟨above, n⟩, hMem, hId, hShown, hOpen, hFills⟩ := hButton
  exact ⟨d, above, n, hLayout, hIds, hMem, hShown, hOpen, hId,
    (hasControl_layoutDocument hLayout hIds hMem hShown hOpen).1.mpr (.inr hFills)⟩

/-- The button beside the heading is no control on the page. -/
theorem button_without_control : ∃ d above n, layoutDocument evenFonts 800 buttonPage = .ok d ∧
    (buttonPage.descendants.map (·.info.id)).Nodup ∧ (above, n) ∈ buttonPage.lineages [] ∧
    n.isShownControl = true ∧ (∀ a ∈ above, a.isOpen = true) ∧ n.info.id = 6 ∧ ¬ d.HasControl n := by
  have hTest : (match layoutDocument evenFonts 800 buttonPage with
      | .ok d => d.items.all (·.node.info.id != 6)
      | .error _ => false) = true := by decide +kernel
  have hIds : (buttonPage.descendants.map (·.info.id)).Nodup := by decide +kernel
  have hButton : ∃ e ∈ buttonPage.lineages [], e.2.info.id = 6 ∧ e.2.isShownControl = true ∧
      ∀ a ∈ e.1, a.isOpen = true := by decide +kernel
  obtain ⟨⟨above, n⟩, hMem, hId, hShown, hOpen⟩ := hButton
  split at hTest
  · rename_i d hLayout
    refine ⟨d, above, n, hLayout, hIds, hMem, hShown, hOpen, hId, ?_⟩
    rintro ⟨⟨i, hItem, hNode, -⟩, -⟩
    have hMemItem : i ∈ d.items := (List.mem_filter.mp (hItem ▸ List.mem_singleton_self i)).1
    have hOther := List.all_eq_true.mp hTest i hMemItem
    rw [hNode, hId] at hOther
    cases hOther
  · cases hTest

end PageRender
