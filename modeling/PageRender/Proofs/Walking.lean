import Mathlib.Algebra.BigOperators.Group.List.Basic
import Mathlib.Data.List.Lex
import PageRender.Proofs.Layout.Heights
import PageRender.Proofs.Script.Finding

/-! # Walks over trees

Trees are listed without recursion: a list of pending trees, of which the last one is next, stands for what the
recursion would still have to come back to. What is listed already and what the recursion lists of the pending trees,
from the last one to the first, is the same in every turn. This holds of the nodes of a document and of the boxes of
a layout alike. So what is found in document order is found first on the smallest way from the root.
-/

namespace PageRender

/-- Finite trees of any kind. The size of a tree is the number of its nodes. -/
class TreeLike (τ : Type) where
  children : τ → List τ
  size : τ → Nat
  size_eq : ∀ n, size n = ((children n).map size).sum + 1

namespace TreeLike

variable {τ : Type} [TreeLike τ]

theorem size_lt {c n : τ} (h : c ∈ children n) : size c < size n := by
  have hLe := List.single_le_sum (l := (children n).map size) (by simp) _ (List.mem_map_of_mem h)
  rw [size_eq n]
  omega

@[elab_as_elim]
theorem inductionOnChildren {P : τ → Prop} (step : ∀ n, (∀ c ∈ children n, P c) → P n) (n : τ) : P n :=
  step n fun c _ => inductionOnChildren step c
termination_by size n
decreasing_by exact size_lt ‹_›

/-- The nodes of a tree by recursion: a node comes before those below its first child, and these before those below
the next one. -/
def preorder (n : τ) : List τ :=
  n :: (children n).attach.flatMap fun c => preorder c.1
termination_by size n
decreasing_by exact size_lt c.2

theorem preorder_eq (n : τ) : preorder n = n :: (children n).flatMap preorder := by
  rw [preorder, List.flatMap_subtype (g := preorder) (fun _ _ => rfl), List.unattach_attach]

end TreeLike

open TreeLike

/-! ## The walk -/

structure Walk (τ : Type) where
  listed : List τ
  pending : List τ

namespace Walk

variable {τ : Type} [TreeLike τ]

/-- The last pending tree is listed, and its children are pending instead, the first one last. -/
def turn? (w : Walk τ) : Option (Walk τ) :=
  w.pending.getLast?.map fun n =>
    { listed := w.listed ++ [n], pending := w.pending.dropLast ++ (children n).reverse }

theorem turn?_concat (listed pending : List τ) (n : τ) :
    turn? ⟨listed, pending ++ [n]⟩ = some ⟨listed ++ [n], pending ++ (children n).reverse⟩ := by
  rw [turn?, List.getLast?_concat, List.dropLast_concat]
  rfl

theorem turn?_cases (w : Walk τ) :
    w.pending = [] ∧ w.turn? = none ∨
      ∃ pending n, w.pending = pending ++ [n] ∧
        w.turn? = some ⟨w.listed ++ [n], pending ++ (children n).reverse⟩ := by
  obtain ⟨listed, pending⟩ := w
  obtain rfl | ⟨pending, n, rfl⟩ := pending.eq_nil_or_concat
  · exact .inl ⟨rfl, rfl⟩
  · rw [List.concat_eq_append]
    exact .inr ⟨pending, n, rfl, turn?_concat listed pending n⟩

/-- The number of nodes that are not listed yet. -/
def ahead (w : Walk τ) : Nat :=
  (w.pending.map size).sum

theorem ahead_turn {w v : Walk τ} (h : w.turn? = some v) : v.ahead < w.ahead := by
  obtain ⟨-, hNone⟩ | ⟨pending, n, hPending, hTurn⟩ := w.turn?_cases
  · cases hNone.symm.trans h
  · obtain rfl := Option.some.inj (hTurn.symm.trans h)
    have hSize := size_eq n
    simp only [ahead, hPending, List.map_append, List.sum_append, List.map_reverse, List.sum_reverse, List.map_cons,
      List.map_nil, List.sum_cons, List.sum_nil]
    omega

/-- What is listed when nothing is pending any more. -/
def finish (w : Walk τ) : List τ :=
  match _ : w.turn? with
  | some v => v.finish
  | none => w.listed
termination_by w.ahead
decreasing_by exact ahead_turn ‹_›

/-- The listing to which a walk is on the way. -/
def promised (w : Walk τ) : List τ :=
  w.listed ++ w.pending.reverse.flatMap preorder

theorem promised_turn {w v : Walk τ} (h : w.turn? = some v) : v.promised = w.promised := by
  obtain ⟨-, hNone⟩ | ⟨pending, n, hPending, hTurn⟩ := w.turn?_cases
  · cases hNone.symm.trans h
  · obtain rfl := Option.some.inj (hTurn.symm.trans h)
    -- Pending trees count from the last one on, so that the children come in their order, before what was pending.
    rw [promised, promised, hPending, List.reverse_append, List.reverse_reverse, List.flatMap_append,
      List.reverse_append, List.reverse_singleton, List.singleton_append, List.flatMap_cons, preorder_eq n,
      List.append_assoc, List.singleton_append, List.cons_append]

theorem finish_eq_promised (w : Walk τ) : w.finish = w.promised := by
  fun_induction finish w with
  | case1 w v h ih => rw [ih, promised_turn h]
  | case2 w h =>
    obtain ⟨hPending, -⟩ | ⟨pending, n, -, hTurn⟩ := w.turn?_cases
    · rw [promised, hPending]
      exact (List.append_nil _).symm
    · cases hTurn.symm.trans h

end Walk

namespace TreeLike

variable {τ : Type} [TreeLike τ]

/-- The nodes of a tree behind those that are listed already. -/
def addToList (n : τ) (listed : List τ) : List τ :=
  Walk.finish { listed, pending := [n] }

theorem addToList_eq (n : τ) (listed : List τ) : addToList n listed = listed ++ preorder n := by
  rw [addToList, Walk.finish_eq_promised, Walk.promised, List.reverse_singleton, List.flatMap_singleton]

/-! ## Places -/

/-- The node at the end of a way from the root: which child to take at each step. -/
def at? (n : τ) : List Nat → Option τ
  | [] => some n
  | k :: way => (children n)[k]?.bind (at? · way)

/-- The nodes as they are listed, each with the way to it. -/
def places (n : τ) : List (List Nat × τ) :=
  ([], n) :: (children n).attach.zipIdx.flatMap fun c => (places c.1.1).map fun e => (c.2 :: e.1, e.2)
termination_by size n
decreasing_by exact size_lt c.1.2

def placesBelow (c : τ × Nat) : List (List Nat × τ) :=
  (places c.1).map fun e => (c.2 :: e.1, e.2)

theorem places_eq (n : τ) : places n = ([], n) :: (children n).zipIdx.flatMap placesBelow := by
  rw [places]
  congr 1
  conv_rhs => rw [← List.attach_map_subtype_val (children n), List.zipIdx_map, List.flatMap_map]
  rfl

theorem map_snd_places (n : τ) : (places n).map Prod.snd = preorder n := by
  induction n using inductionOnChildren with
  | step n ih =>
    have hBelow : ∀ c ∈ (children n).zipIdx, (placesBelow c).map Prod.snd = preorder c.1 := by
      intro c hc
      rw [← ih c.1 (List.fst_mem_of_mem_zipIdx hc), placesBelow, List.map_map]
      rfl
    rw [places_eq, preorder_eq, List.map_cons, List.map_flatMap, List.flatMap_congr hBelow]
    conv_rhs => rw [← List.zipIdx_map_fst 0 (children n), List.flatMap_map]

theorem mem_places_iff {n m : τ} {way : List Nat} : (way, m) ∈ places n ↔ at? n way = some m := by
  induction way generalizing n with
  | nil =>
    rw [places_eq]
    simp [at?, placesBelow, eq_comm]
  | cons k way ih =>
    rw [places_eq, at?, Option.bind_eq_some_iff, List.mem_cons, or_iff_right (by simp), List.mem_flatMap]
    constructor
    · rintro ⟨⟨c, k'⟩, hChild, hMem⟩
      obtain ⟨⟨way', m'⟩, hPlace, hSame⟩ := List.mem_map.mp hMem
      cases hSame
      exact ⟨c, List.mem_zipIdx_iff_getElem?.mp hChild, ih.mp hPlace⟩
    · rintro ⟨c, hChild, hPlace⟩
      exact ⟨(c, k), List.mem_zipIdx_iff_getElem?.mpr hChild, List.mem_map_of_mem (ih.mpr hPlace)⟩

/-- The ways grow along the listing. -/
theorem pairwise_places (n : τ) : (places n).Pairwise (·.1 < ·.1) := by
  induction n using inductionOnChildren with
  | step n ih =>
    rw [places_eq, List.pairwise_cons, List.pairwise_flatMap]
    refine ⟨fun e hMem => ?_, fun c hChild => ?_, ?_⟩
    · obtain ⟨c, -, hMem⟩ := List.mem_flatMap.mp hMem
      obtain ⟨f, -, rfl⟩ := List.mem_map.mp hMem
      exact List.nil_lt_cons _ _
    · refine List.pairwise_map.mpr ((ih c.1 (List.fst_mem_of_mem_zipIdx hChild)).imp fun hLt => ?_)
      exact List.cons_lt_cons_iff.mpr (.inr ⟨rfl, hLt⟩)
    · have hIndices : ((children n).zipIdx.map Prod.snd).Pairwise (· < ·) := by
        rw [List.zipIdx_map_snd]
        exact List.pairwise_lt_range'
      refine (List.pairwise_map.mp hIndices).imp fun hLt e he f hf => ?_
      obtain ⟨e, -, rfl⟩ := List.mem_map.mp he
      obtain ⟨f, -, rfl⟩ := List.mem_map.mp hf
      exact List.cons_lt_cons_iff.mpr (.inl hLt)

theorem mem_preorder_iff {n m : τ} : m ∈ preorder n ↔ ∃ way, at? n way = some m := by
  rw [← map_snd_places, List.mem_map]
  simp only [Prod.exists, mem_places_iff, exists_eq_right]

/-- Each node is listed once: at the way to it, and the ways are in their order. -/
theorem exists_ways (n : τ) :
    ∃ ways : List (List Nat), ways.Pairwise (· < ·) ∧ (∀ way, way ∈ ways ↔ (at? n way).isSome) ∧
      ways.map (at? n) = (preorder n).map some := by
  refine ⟨(places n).map Prod.fst, List.pairwise_map.mpr (pairwise_places n), fun way => ?_, ?_⟩
  · rw [List.mem_map, Option.isSome_iff_exists]
    constructor
    · rintro ⟨⟨way, m⟩, hPlace, rfl⟩
      exact ⟨m, mem_places_iff.mp hPlace⟩
    · rintro ⟨m, hPlace⟩
      exact ⟨(way, m), mem_places_iff.mpr hPlace, rfl⟩
  · rw [← map_snd_places, List.map_map, List.map_map]
    exact List.map_congr_left fun e hPlace => mem_places_iff.mp hPlace

/-- The first entry that passes is the one with the least key. -/
theorem find?_eq_some_iff_of_pairwise {κ ν : Type} [Preorder κ] {es : List (κ × ν)} (h : es.Pairwise (·.1 < ·.1))
    {p : κ × ν → Bool} {e : κ × ν} :
    es.find? p = some e ↔ e ∈ es ∧ p e = true ∧ ∀ f ∈ es, f.1 < e.1 → p f = false := by
  constructor
  · intro hFound
    -- An entry with a smaller key is none of the later ones.
    obtain ⟨hPasses, earlier, later, rfl, hNone⟩ := List.find?_eq_some_iff_append.mp hFound
    obtain ⟨-, hLater, -⟩ := List.pairwise_append.mp h
    refine ⟨by simp, hPasses, fun f hMem hLt => ?_⟩
    obtain hMem | hMem := List.mem_append.mp hMem
    · exact Bool.not_eq_true' _ ▸ hNone f hMem
    · obtain rfl | hMem := List.mem_cons.mp hMem
      · exact absurd hLt (lt_irrefl _)
      · exact absurd hLt (lt_asymm ((List.pairwise_cons.mp hLater).1 f hMem))
  · rintro ⟨hMem, hPasses, hFirst⟩
    obtain ⟨earlier, later, rfl⟩ := List.append_of_mem hMem
    obtain ⟨-, -, hBefore⟩ := List.pairwise_append.mp h
    refine List.find?_eq_some_iff_append.mpr ⟨hPasses, earlier, later, rfl, fun f hf => ?_⟩
    rw [hFirst f (List.mem_append_left _ hf) (hBefore f hf e List.mem_cons_self)]
    rfl

/-- The first node that passes is the one with the smallest way. -/
theorem find?_preorder_iff {p : τ → Bool} {n m : τ} :
    (preorder n).find? p = some m ↔
      ∃ way, at? n way = some m ∧ p m = true ∧ ∀ other < way, ∀ k, at? n other = some k → p k = false := by
  rw [← map_snd_places, List.find?_map, Option.map_eq_some_iff]
  simp only [find?_eq_some_iff_of_pairwise (pairwise_places n), Prod.exists, Prod.forall, mem_places_iff,
    Function.comp_apply]
  constructor
  · rintro ⟨way, m, ⟨hPlace, hPasses, hFirst⟩, rfl⟩
    exact ⟨way, hPlace, hPasses, fun other hLt k hOther => hFirst other k hOther hLt⟩
  · rintro ⟨way, hPlace, hPasses, hFirst⟩
    exact ⟨way, m, ⟨hPlace, hPasses, fun other k hOther hLt => hFirst other hLt k hOther⟩, rfl⟩

end TreeLike

/-! ## Documents -/

namespace Node

variable {α : Type}

theorem forestSize_eq_sum (ns : List (Node α)) : forestSize ns = (ns.map size).sum := by
  induction ns with
  | nil => rfl
  | cons n ns ih => rw [forestSize, List.map_cons, List.sum_cons, ih]

instance : TreeLike (Node α) where
  children := children
  size := size
  size_eq n := by rw [size_eq_forestSize_children, forestSize_eq_sum, Nat.add_comm]

theorem descendants_eq_preorder (n : Node α) : n.descendants = preorder n := by
  induction n using inductionOnChildren with
  | step n ih =>
    rw [descendants_eq_cons, preorder_eq]
    exact congrArg (n :: ·) (List.flatMap_congr ih)

theorem at?_eq (n : Node α) (way : Path) : TreeLike.at? n way = n.at? way := by
  induction way generalizing n with
  | nil => rfl
  | cons k way ih => exact congrArg n.children[k]?.bind (funext ih)

theorem nodup_keys_addId {m : OrderedMap String (Node α)} (h : m.keys.Nodup) (n : Node α) :
    (addId m n).keys.Nodup := by
  rw [addId]
  cases n.attribute? "id" with
  | none => exact h
  | some id =>
    dsimp only
    split
    · exact h
    · exact OrderedMap.nodup_setEntry id n h

theorem nodup_keys_idMap (n : Node α) : n.idMap.keys.Nodup := by
  have hFold : ∀ (ns : List (Node α)) (m : OrderedMap String (Node α)), m.keys.Nodup →
      (ns.foldl addId m).keys.Nodup := by
    intro ns
    induction ns with
    | nil => exact fun _ h => h
    | cons k ns ih => exact fun m h => ih _ (nodup_keys_addId h k)
  exact hFold n.descendants .empty List.nodup_nil

theorem hasId_iff {n : Node α} {id : String} : n.hasId id = true ↔ n.attribute? "id" = some id :=
  beq_iff_eq

theorem get?_idMap_iff {n m : Node α} {id : String} :
    n.idMap.get? id = some m ↔
      ∃ way, n.at? way = some m ∧ m.attribute? "id" = some id ∧
        ∀ other < way, ∀ k, n.at? other = some k → k.attribute? "id" ≠ some id := by
  rw [get?_idMap, descendants_eq_preorder, find?_preorder_iff]
  simp only [at?_eq, hasId_iff, ← Bool.not_eq_true, ne_eq]

theorem mem_keys_idMap_iff {n : Node α} {id : String} :
    id ∈ n.idMap.keys ↔ ∃ way m, n.at? way = some m ∧ m.attribute? "id" = some id := by
  rw [OrderedMap.mem_keys_iff, get?_idMap, List.find?_isSome, descendants_eq_preorder]
  simp only [mem_preorder_iff, at?_eq, hasId_iff]
  constructor
  · rintro ⟨m, ⟨way, hPlace⟩, hId⟩
    exact ⟨way, m, hPlace, hId⟩
  · rintro ⟨way, m, hPlace, hId⟩
    exact ⟨m, ⟨way, hPlace⟩, hId⟩

theorem textContent_text (i : α) (s : String) : (text i s).textContent = s := by
  rw [textContent, descendants_eq_cons]
  exact String.empty_append

theorem textContent_element (i : α) (t : String) (a : Attributes) (cs : List (Node α)) :
    (element i t a cs).textContent = String.join (cs.map textContent) := by
  have hText : ∀ n : Node α, n.textContent = String.join n.texts := fun _ => rfl
  apply String.toList_injective
  rw [hText, texts_element, forestTexts, String.toList_join, String.toList_join, List.flatMap_assoc,
    List.flatMap_map]
  exact List.flatMap_congr fun c _ => (hText c ▸ String.toList_join).symm

end Node

/-! ## Layouts -/

/-- A document box, or a part of a layout that is inside one. -/
inductive BoxTree (α : Type) where
  | document (box : DocumentBox α)
  | block (box : Block α)
  | line (block : PageTree) (box : Line α)
  | item (box : Item α)

namespace BoxTree

variable {α : Type}

def box : BoxTree α → Box α
  | document d => .document d
  | block b => b.box
  | line n l => .line n l
  | item i => .item i

def children : BoxTree α → List (BoxTree α)
  | document d => [.block d.root]
  | block (.blocks _ bs) => bs.map .block
  | block (.lines f ls) => ls.map (.line f.node)
  | line _ l => l.items.map .item
  | item _ => []

/-- The boxes of a part as an outline lists them. -/
def boxes : BoxTree α → List (Box α)
  | document d => d.outline.map Prod.snd
  | block b => (b.outline 0).map Prod.snd
  | line n l => .line n l :: l.items.map .item
  | item i => [.item i]

theorem map_snd_outline (depth : Nat) (b : Block α) : (b.outline depth).map Prod.snd = (block b).boxes := by
  rw [boxes, ← Block.map_fst_families, ← Block.map_fst_families]

theorem map_snd_outlines (depth : Nat) (bs : List (Block α)) :
    (Block.outlines depth bs).map Prod.snd = (bs.map block).flatMap boxes := by
  induction bs with
  | nil => rfl
  | cons b bs ih =>
    rw [Block.outlines, List.map_append, ih, map_snd_outline]
    rfl

theorem map_snd_lineOutline (depth : Nat) (node : PageTree) (ls : List (Line α)) :
    (Block.lineOutline depth node ls).map Prod.snd = (ls.map (line node)).flatMap boxes := by
  rw [Block.lineOutline, List.map_flatMap, List.flatMap_map]
  refine List.flatMap_congr fun l _ => ?_
  rw [List.map_cons, List.map_map]
  rfl

theorem boxes_eq (b : BoxTree α) : b.boxes = b.box :: b.children.flatMap boxes := by
  cases b with
  | document d =>
    rw [boxes, DocumentBox.outline, List.map_cons, map_snd_outline, children, List.flatMap_singleton]
    rfl
  | block b =>
    cases b with
    | blocks f bs => exact congrArg (_ :: ·) (map_snd_outlines 1 bs)
    | lines f ls => exact congrArg (_ :: ·) (map_snd_lineOutline 1 f.node ls)
  | line n l =>
    rw [boxes, children, List.flatMap_map, List.map_eq_flatMap]
    rfl
  | item i => rfl

instance : TreeLike (BoxTree α) where
  children := children
  size b := b.boxes.length
  size_eq b := by
    rw [boxes_eq, List.length_cons, List.length_flatMap]

theorem map_box_preorder (b : BoxTree α) : (preorder b).map box = b.boxes := by
  induction b using TreeLike.inductionOnChildren with
  | step b ih =>
    rw [preorder_eq, List.map_cons, List.map_flatMap, List.flatMap_congr ih, boxes_eq]
    rfl

end BoxTree

/-- The walk with a list of pending trees lists what the recursion does, behind what is listed already, and each node
once: the nodes at all the ways there are, in the order of the ways. It is the one by which documents are listed, and
boxes of a layout. So the ids of a document are those that its elements have, each with the element that has it on the
smallest way, and the text of an element is that of its children, one after the other. -/
theorem listing_is_recursive {α β : Type} :
    (∀ (τ : Type) [TreeLike τ] (n : τ) (listed : List τ), addToList n listed = listed ++ preorder n ∧
      preorder n = n :: (children n).flatMap preorder ∧
      ∃ ways : List (List Nat), ways.Pairwise (· < ·) ∧ (∀ way, way ∈ ways ↔ (at? n way).isSome) ∧
        ways.map (at? n) = (preorder n).map some) ∧
    (∀ d : DocumentBox β, d.outline.map Prod.snd = (addToList (BoxTree.document d) []).map BoxTree.box) ∧
    (∀ n : Node α, n.descendants = addToList n [] ∧ n.idMap.keys.Nodup ∧
      (∀ id, id ∈ n.idMap.keys ↔ ∃ way m, n.at? way = some m ∧ m.attribute? "id" = some id) ∧
      ∀ id m, n.idMap.get? id = some m ↔
        ∃ way, n.at? way = some m ∧ m.attribute? "id" = some id ∧
          ∀ other < way, ∀ k, n.at? other = some k → k.attribute? "id" ≠ some id) ∧
    (∀ (i : α) s, (Node.text i s).textContent = s) ∧
    ∀ (i : α) t a cs, (Node.element i t a cs).textContent = String.join (cs.map Node.textContent) := by
  refine ⟨fun τ _ n listed => ⟨addToList_eq n listed, preorder_eq n, exists_ways n⟩, fun d => ?_, fun n => ?_,
    Node.textContent_text, Node.textContent_element⟩
  · rw [addToList_eq, List.nil_append, BoxTree.map_box_preorder]
    rfl
  · refine ⟨?_, n.nodup_keys_idMap, fun id => Node.mem_keys_idMap_iff, fun id m => Node.get?_idMap_iff⟩
    rw [addToList_eq, List.nil_append, n.descendants_eq_preorder]

end PageRender
