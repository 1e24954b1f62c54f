import PageRender.Proofs.Document.Numbers
import PageRender.Proofs.Markup.Joining

/-! # Replaced children

New nodes are added behind all others, and the node that gets them is the only one that is changed. So
the tree of the document is the same up to adjacent texts if the new nodes are the same as the old ones.
-/

namespace PageRender

namespace Node

variable {α : Type}

mutual

@[simp] theorem joined_numberFrom (next : Nat) (n : Node Unit) : (n.numberFrom next).1.joined = n.joined := by
  cases n with
  | text => rfl
  | element i t a cs => rw [Dom.fst_numberFrom_element, joined, joined, joinedForest_numberForest]

@[simp] theorem joinedForest_numberForest (next : Nat) (ns : List (Node Unit)) :
    joinedForest (numberForest next ns).1 = joinedForest ns := by
  cases ns with
  | nil => rfl
  | cons n ns =>
    rw [Dom.fst_numberForest_cons, joinedForest, joinedForest, joined_numberFrom,
      joinedForest_numberForest]

end

mutual

@[simp] theorem markup_numberFrom (next : Nat) (n : Node Unit) : (n.numberFrom next).1.markup = n.markup := by
  cases n with
  | text => rfl
  | element i t a cs => rw [Dom.fst_numberFrom_element, markup, markup, forestMarkup_numberForest]

@[simp] theorem forestMarkup_numberForest (next : Nat) (ns : List (Node Unit)) :
    forestMarkup (numberForest next ns).1 = forestMarkup ns := by
  cases ns with
  | nil => rfl
  | cons n ns =>
    rw [Dom.fst_numberForest_cons, forestMarkup, forestMarkup, markup_numberFrom,
      forestMarkup_numberForest]

end

theorem innerMarkup_numberFrom (next : Nat) (n : Node Unit) :
    (n.numberFrom next).1.innerMarkup = n.innerMarkup := by
  cases n with
  | text => rfl
  | element i t a cs => exact forestMarkup_numberForest (next + 1) cs

end Node

namespace Dom

open Node

variable {d : Dom} {id : Nat} {ms : List (Node Unit)}

theorem node?_setChildren_of_ne (d : Dom) (ids : List Nat) {k : Nat} (h : id ≠ k) :
    (d.setChildren id ids).node? k = d.node? k := by
  rw [node?_eq_getElem?, node?_eq_getElem?, setChildren, toList_modify, List.getElem?_modify_ne _ _ h]

theorem node?_setChildren_self (ids : List Nat) {n : DomNode} (h : d.node? id = some n) :
    (d.setChildren id ids).node? id = some { n with children := ids } := by
  rw [node?_eq_getElem?] at h ⊢
  rw [setChildren, toList_modify, List.getElem?_modify_eq, h]
  rfl

theorem node?_addForest (parent : Nat) (ns : List (Node Unit)) {k : Nat} (h : k < d.size) :
    (d.addForest parent ns).1.node? k = d.node? k := by
  rw [node?_eq_getElem?, node?_eq_getElem?, (addForest_toList d parent ns).1]
  exact List.getElem?_append_left h

theorem lies_addForest (d : Dom) (parent : Nat) (ns : List (Node Unit)) :
    (d.addForest parent ns).1.Lies d.size (laidForest d.size parent ns) := by
  have hNodes : (d.addForest parent ns).1.nodes.toList =
      d.nodes.toList ++ laidForest d.size parent ns ++ [] := by
    rw [(addForest_toList d parent ns).1, List.append_nil]
  exact lies_of_toList hNodes

theorem replaceChildren_eq (d : Dom) (id : Nat) (ms : List (Node Unit)) :
    d.replaceChildren id ms = (d.addForest id ms).1.setChildren id (rootIds d.size ms) := by
  rw [← (addForest_toList d id ms).2]
  rfl

theorem size_replaceChildren (d : Dom) (id : Nat) (ms : List (Node Unit)) :
    (d.replaceChildren id ms).size = d.size + forestSize ms := by
  rw [replaceChildren_eq, size_eq_length, setChildren, toList_modify, List.length_modify,
    (addForest_toList d id ms).1, List.length_append, length_laidForest, size_eq_length]

theorem node?_replaceChildren_of_ne (ms : List (Node Unit)) {k : Nat} (hSize : k < d.size) (hNe : id ≠ k) :
    (d.replaceChildren id ms).node? k = d.node? k := by
  rw [replaceChildren_eq, node?_setChildren_of_ne _ _ hNe, node?_addForest id ms hSize]

theorem node?_replaceChildren_self (ms : List (Node Unit)) {n : DomNode} (hSize : id < d.size) (h : d.node? id = some n) :
    (d.replaceChildren id ms).node? id = some { n with children := rootIds d.size ms } := by
  rw [replaceChildren_eq]
  exact node?_setChildren_self _ ((node?_addForest id ms hSize).trans h)

theorem Lies.congr {d' : Dom} {next : Nat} {ls : List DomNode} (h : d.Lies next ls)
    (hNodes : ∀ k, next ≤ k → k < next + ls.length → d'.node? k = d.node? k) : d'.Lies next ls := by
  induction ls generalizing next with
  | nil => trivial
  | cons l ls ih =>
    rw [List.length_cons] at hNodes
    obtain ⟨hNode, hRest⟩ := h
    refine ⟨(hNodes next (Nat.le_refl _) (by omega)).trans hNode, ih hRest ?_⟩
    intro k hLow hHigh
    exact hNodes k (by omega) (by omega)

/-- The new nodes lie behind those that were there. -/
theorem lies_replaceChildren (ms : List (Node Unit)) (h : id < d.size) :
    (d.replaceChildren id ms).Lies d.size (laidForest d.size id ms) := by
  apply (lies_addForest d id ms).congr
  intro k hLow _
  rw [replaceChildren_eq, node?_setChildren_of_ne]
  omega

theorem treeTo_replaceChildren_of_notMem {next : Nat} {parent : Option Nat} {n : Node Unit}
    (hLies : d.Lies next (laid next parent n)) (hSize : next + n.size ≤ d.size)
    (hId : id < next ∨ next + n.size ≤ id) {levels : Nat} (hLevels : n.size ≤ levels) :
    (d.replaceChildren id ms).treeTo levels next = (n.numberFrom next).1 := by
  refine treeTo_of_lies n (hLies.congr ?_) hLevels
  intro k hLow hHigh
  rw [length_laid] at hHigh
  apply node?_replaceChildren_of_ne <;> omega

theorem map_treeTo_replaceChildren_of_lt {next parent : Nat} {ns : List (Node Unit)}
    (hLies : d.Lies next (laidForest next parent ns)) (hSize : next + forestSize ns ≤ d.size)
    (hId : id < next) {levels : Nat} (hLevels : forestSize ns ≤ levels) :
    (rootIds next ns).map ((d.replaceChildren id ms).treeTo levels) = (numberForest next ns).1 := by
  refine map_treeTo_of_lies ns (hLies.congr ?_) hLevels
  intro k hLow hHigh
  rw [length_laidForest] at hHigh
  apply node?_replaceChildren_of_ne <;> omega

mutual

/-- With equal nodes in the place of the children of a node, a tree that the node belongs to is the
same. -/
theorem joined_treeTo_replaceChildren {next k : Nat} {parent : Option Nat} (n : Node Unit) {e : Node Unit}
    (hLies : d.Lies next (laid next parent n)) (hSize : next + n.size ≤ d.size)
    (hNode : n.descendants[k]? = some e) (hChildren : joinedForest ms = joinedForest e.children)
    (levels : Nat) (hLevels : n.size + forestSize ms ≤ levels) :
    ((d.replaceChildren (next + k) ms).treeTo levels next).joined = n.joined := by
  rw [descendants_eq_cons] at hNode
  have hPos := size_pos n
  obtain ⟨levels, rfl⟩ : ∃ l, levels = l + 1 := ⟨levels - 1, by omega⟩
  cases n with
  | text i s =>
    cases k with
    | succ k => cases hNode
    | zero =>
      have hSelf := node?_replaceChildren_self ms (by omega) hLies.1
      simp only [Nat.add_zero, treeTo, hSelf, joined]
  | element i t a cs =>
    rw [laid, Lies] at hLies
    rw [Node.size] at hSize hLevels
    cases k with
    | zero =>
      cases hNode
      have hSelf := node?_replaceChildren_self ms (by omega) hLies.1
      have hBelow : next < d.size := by omega
      have hNew : (rootIds d.size ms).map ((d.replaceChildren next ms).treeTo levels) =
          (numberForest d.size ms).1 :=
        map_treeTo_of_lies ms (lies_replaceChildren ms hBelow) (by omega)
      simp only [Nat.add_zero, treeTo, hSelf, joined, hNew, joinedForest_numberForest, hChildren,
        children]
    | succ k =>
      have hNe : next + (k + 1) ≠ next := by omega
      have hOther := node?_replaceChildren_of_ne (d := d) ms (by omega) hNe
      rw [List.getElem?_cons_succ, children] at hNode
      have hBelow := joinedForest_treeTo_replaceChildren cs hLies.2 (by omega) hNode hChildren levels
        (by omega)
      rw [show next + 1 + k = next + (k + 1) by omega] at hBelow
      simp only [treeTo, hOther, hLies.1, joined, hBelow]

theorem joinedForest_treeTo_replaceChildren {next parent k : Nat} (ns : List (Node Unit)) {e : Node Unit}
    (hLies : d.Lies next (laidForest next parent ns)) (hSize : next + forestSize ns ≤ d.size)
    (hNode : (ns.flatMap descendants)[k]? = some e)
    (hChildren : joinedForest ms = joinedForest e.children) (levels : Nat)
    (hLevels : forestSize ns + forestSize ms ≤ levels) :
    joinedForest ((rootIds next ns).map ((d.replaceChildren (next + k) ms).treeTo levels)) =
      joinedForest ns := by
  cases ns with
  | nil => cases hNode
  | cons n ns =>
    rw [forestSize] at hSize hLevels
    rw [lies_laidForest_cons] at hLies
    rw [List.flatMap_cons] at hNode
    rw [rootIds, List.map_cons, joinedForest, joinedForest]
    by_cases hFirst : k < n.size
    · rw [List.getElem?_append_left (by rw [length_descendants]; exact hFirst)] at hNode
      rw [joined_treeTo_replaceChildren n hLies.1 (by omega) hNode hChildren levels (by omega),
        map_treeTo_replaceChildren_of_lt hLies.2 (by omega) (by omega) (by omega),
        joinedForest_numberForest]
    · rw [List.getElem?_append_right (by rw [length_descendants]; omega), length_descendants] at hNode
      have hRest := joinedForest_treeTo_replaceChildren ns hLies.2 (by omega) hNode hChildren levels
        (by omega)
      rw [show next + n.size + (k - n.size) = next + k by omega] at hRest
      rw [hRest, treeTo_replaceChildren_of_notMem hLies.1 (by omega) (by omega) (by omega),
        joined_numberFrom]

end

mutual

theorem lies_of_getElem? {next k : Nat} {parent : Option Nat} (n : Node Unit) {e : Node Unit}
    (hLies : d.Lies next (laid next parent n)) (hNode : n.descendants[k]? = some e) :
    ∃ p, d.Lies (next + k) (laid (next + k) p e) := by
  rw [descendants_eq_cons] at hNode
  cases k with
  | zero =>
    cases hNode
    exact ⟨parent, hLies⟩
  | succ k =>
    rw [List.getElem?_cons_succ] at hNode
    cases n with
    | text i s => cases hNode
    | element i t a cs =>
      rw [laid, Lies] at hLies
      rw [show next + (k + 1) = next + 1 + k by omega]
      exact lies_forest_of_getElem? cs hLies.2 hNode

theorem lies_forest_of_getElem? {next parent k : Nat} (ns : List (Node Unit)) {e : Node Unit}
    (hLies : d.Lies next (laidForest next parent ns)) (hNode : (ns.flatMap descendants)[k]? = some e) :
    ∃ p, d.Lies (next + k) (laid (next + k) p e) := by
  cases ns with
  | nil => cases hNode
  | cons n ns =>
    rw [lies_laidForest_cons] at hLies
    rw [List.flatMap_cons] at hNode
    by_cases hFirst : k < n.size
    · rw [List.getElem?_append_left (by rw [length_descendants]; exact hFirst)] at hNode
      exact lies_of_getElem? n hLies.1 hNode
    · rw [List.getElem?_append_right (by rw [length_descendants]; omega), length_descendants] at hNode
      rw [show next + k = next + n.size + (k - n.size) by omega]
      exact lies_forest_of_getElem? ns hLies.2 hNode

end

/-- The tree below the node with a number is the node that has this place in document order. -/
theorem tree_of_getElem? {root e : Node Unit} (h : root.descendants[id]? = some e) :
    (ofTree root).tree id = (e.numberFrom id).1 := by
  obtain ⟨p, hLies⟩ := lies_of_getElem? root (lies_ofTree root) h
  rw [Nat.zero_add] at hLies
  apply treeTo_of_lies e hLies
  rw [size_ofTree]
  exact size_le_of_mem_descendants (List.mem_of_getElem? h)

/-- With equal nodes in the place of the children of a node, the document is the same. -/
theorem joined_tree_replaceChildren {root e : Node Unit} (hNode : root.descendants[id]? = some e)
    (hChildren : joinedForest ms = joinedForest e.children) :
    (((ofTree root).replaceChildren id ms).tree 0).joined = root.joined := by
  have hTree := joined_treeTo_replaceChildren root (lies_ofTree root) (by rw [size_ofTree]; omega)
    hNode hChildren ((ofTree root).replaceChildren id ms).size
    (by rw [size_replaceChildren, size_ofTree])
  rwa [Nat.zero_add] at hTree

end Dom

end PageRender
