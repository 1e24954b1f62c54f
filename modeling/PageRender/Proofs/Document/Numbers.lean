import PageRender.Document.Dom
import PageRender.Proofs.Markup.Descendants

/-! # The numbers of the nodes of a document

The nodes of a tree lie one after another in document order, so the number of a node tells where it
stands. From this layout the tree is recovered, and every node but the root is found once, in the
list of its parent.
-/

namespace PageRender.Dom

/-- The numbers of the roots of several trees that lie one after another. -/
def rootIds (next : Nat) : List (Node Unit) → List Nat
  | [] => []
  | n :: ns => next :: rootIds (next + n.size) ns

mutual

/-- The nodes of a tree in document order, the first with the number `next`. -/
def laid (next : Nat) (parent : Option Nat) : Node Unit → List DomNode
  | .text _ s => [{ content := .text s, parent }]
  | .element _ t a cs =>
    { content := .element t a, parent, children := rootIds (next + 1) cs } ::
      laidForest (next + 1) next cs

/-- The nodes of several trees below one node. -/
def laidForest (next parent : Nat) : List (Node Unit) → List DomNode
  | [] => []
  | n :: ns => laid next (some parent) n ++ laidForest (next + n.size) parent ns

end

mutual

@[simp] theorem length_laid (next : Nat) (parent : Option Nat) (n : Node Unit) :
    (laid next parent n).length = n.size := by
  cases n with
  | text => rfl
  | element i t a cs =>
    rw [laid, List.length_cons, length_laidForest, Node.size, Nat.add_comm]

@[simp] theorem length_laidForest (next parent : Nat) (ns : List (Node Unit)) :
    (laidForest next parent ns).length = Node.forestSize ns := by
  cases ns with
  | nil => rfl
  | cons n ns => rw [laidForest, List.length_append, length_laid, length_laidForest, Node.forestSize]

end

theorem size_eq_length (d : Dom) : d.size = d.nodes.toList.length := rfl

theorem node?_eq_getElem? (d : Dom) (id : Nat) : d.node? id = d.nodes.toList[id]? := by
  rw [node?, Array.getElem?_toList]

theorem toList_modify (d : Dom) (id : Nat) (f : DomNode → DomNode) :
    (d.modify id f).nodes.toList = d.nodes.toList.modify id f := by
  rw [modify, Array.toList_modify]

theorem modify_length_append (l : List DomNode) (n : DomNode) (l' : List DomNode)
    (f : DomNode → DomNode) : (l ++ n :: l').modify l.length f = l ++ f n :: l' := by
  induction l with
  | nil => rfl
  | cons m l ih => rw [List.cons_append, List.length_cons, List.modify_succ_cons, ih, List.cons_append]

theorem addTree_element (d : Dom) (parent : Option Nat) (i : Unit) (t : String) (a : Attributes)
    (cs : List (Node Unit)) :
    d.addTree parent (.element i t a cs) =
      ((d.push { content := .element t a, parent }).addForest d.size cs).1.setChildren d.size
        ((d.push { content := .element t a, parent }).addForest d.size cs).2 := rfl

theorem addForest_cons (d : Dom) (parent : Nat) (n : Node Unit) (ns : List (Node Unit)) :
    d.addForest parent (n :: ns) =
      (((d.addTree (some parent) n).addForest parent ns).1,
        d.size :: ((d.addTree (some parent) n).addForest parent ns).2) := rfl

mutual

theorem addTree_toList (d : Dom) (parent : Option Nat) (n : Node Unit) :
    (d.addTree parent n).nodes.toList = d.nodes.toList ++ laid d.size parent n := by
  cases n with
  | text i s => simp [addTree, push, laid]
  | element i t a cs =>
    have hPush : (d.push { content := .element t a, parent }).nodes.toList =
        d.nodes.toList ++ [{ content := .element t a, parent }] := by simp [push]
    have hSize : (d.push { content := .element t a, parent }).size = d.size + 1 := by
      rw [size_eq_length, hPush, List.length_append]
      rfl
    have hForest := addForest_toList (d.push { content := .element t a, parent }) d.size cs
    rw [hPush, hSize, List.append_assoc] at hForest
    rw [addTree_element, setChildren, toList_modify, hForest.1, hForest.2, size_eq_length,
      List.singleton_append, modify_length_append, laid]

theorem addForest_toList (d : Dom) (parent : Nat) (ns : List (Node Unit)) :
    (d.addForest parent ns).1.nodes.toList = d.nodes.toList ++ laidForest d.size parent ns ∧
      (d.addForest parent ns).2 = rootIds d.size ns := by
  cases ns with
  | nil => simp [addForest, laidForest, rootIds]
  | cons n ns =>
    have hTree := addTree_toList d (some parent) n
    have hSize : (d.addTree (some parent) n).size = d.size + n.size := by
      rw [size_eq_length, hTree, List.length_append, length_laid]
      rfl
    obtain ⟨hNodes, hIds⟩ := addForest_toList (d.addTree (some parent) n) parent ns
    rw [addForest_cons, laidForest, rootIds, hNodes, hIds, hTree, hSize, List.append_assoc]
    exact ⟨rfl, rfl⟩

end

theorem ofTree_toList (n : Node Unit) : (ofTree n).nodes.toList = laid 0 none n := by
  rw [ofTree, addTree_toList]
  rfl

/-- Nodes lie one after another from a number on. -/
def Lies (d : Dom) : Nat → List DomNode → Prop
  | _, [] => True
  | id, n :: ns => d.node? id = some n ∧ Lies d (id + 1) ns

theorem lies_append {d : Dom} {id : Nat} {ns ms : List DomNode} :
    d.Lies id (ns ++ ms) ↔ d.Lies id ns ∧ d.Lies (id + ns.length) ms := by
  induction ns generalizing id with
  | nil => simp [Lies]
  | cons n ns ih =>
    rw [List.cons_append, Lies, Lies, ih, and_assoc, List.length_cons, Nat.add_right_comm, Nat.add_assoc]

theorem lies_of_toList {d : Dom} {ns ms ls : List DomNode} (h : d.nodes.toList = ns ++ ms ++ ls) :
    d.Lies ns.length ms := by
  induction ms generalizing ns with
  | nil => trivial
  | cons m ms ih =>
    constructor
    · rw [node?_eq_getElem?, h, List.append_assoc, List.cons_append,
        List.getElem?_append_right (Nat.le_refl _), Nat.sub_self]
      rfl
    · have hLength : (ns ++ [m]).length = ns.length + 1 := by simp
      rw [← hLength]
      exact ih (by rw [h]; simp)

theorem lies_ofTree (n : Node Unit) : (ofTree n).Lies 0 (laid 0 none n) := by
  have hNodes : (ofTree n).nodes.toList = [] ++ laid 0 none n ++ [] := by simp [ofTree_toList]
  exact lies_of_toList hNodes

theorem size_ofTree (n : Node Unit) : (ofTree n).size = n.size := by
  rw [size_eq_length, ofTree_toList, length_laid]

theorem lies_laidForest_cons {d : Dom} {next parent : Nat} {n : Node Unit} {ns : List (Node Unit)} :
    d.Lies next (laidForest next parent (n :: ns)) ↔
      d.Lies next (laid next (some parent) n) ∧
        d.Lies (next + n.size) (laidForest (next + n.size) parent ns) := by
  rw [laidForest, lies_append, length_laid]

mutual

theorem snd_numberFrom (next : Nat) (n : Node Unit) : (n.numberFrom next).2 = next + n.size := by
  cases n with
  | text => rfl
  | element i t a cs => rw [Node.numberFrom, snd_numberForest, Node.size, Nat.add_assoc]

theorem snd_numberForest (next : Nat) (ns : List (Node Unit)) :
    (Node.numberForest next ns).2 = next + Node.forestSize ns := by
  cases ns with
  | nil => rfl
  | cons n ns =>
    rw [Node.numberForest, snd_numberForest, snd_numberFrom, Node.forestSize, Nat.add_assoc]

end

theorem fst_numberFrom_element (next : Nat) (i : Unit) (t : String) (a : Attributes)
    (cs : List (Node Unit)) :
    ((Node.element i t a cs).numberFrom next).1 =
      .element { id := next } t a (Node.numberForest (next + 1) cs).1 := rfl

theorem numberForest_cons (next : Nat) (n : Node Unit) (ns : List (Node Unit)) :
    Node.numberForest next (n :: ns) =
      ((n.numberFrom next).1 :: (Node.numberForest (n.numberFrom next).2 ns).1,
        (Node.numberForest (n.numberFrom next).2 ns).2) := rfl

theorem fst_numberForest_cons (next : Nat) (n : Node Unit) (ns : List (Node Unit)) :
    (Node.numberForest next (n :: ns)).1 =
      (n.numberFrom next).1 :: (Node.numberForest (next + n.size) ns).1 := by
  rw [numberForest_cons, snd_numberFrom]

mutual

theorem treeTo_of_lies {d : Dom} {next : Nat} {parent : Option Nat} (n : Node Unit)
    (h : d.Lies next (laid next parent n)) {levels : Nat} (hLevels : n.size ≤ levels) :
    d.treeTo levels next = (n.numberFrom next).1 := by
  cases n with
  | text i s =>
    obtain ⟨k, rfl⟩ : ∃ k, levels = k + 1 := ⟨levels - 1, by rw [Node.size] at hLevels; omega⟩
    simp [treeTo, h.1, Node.numberFrom]
  | element i t a cs =>
    rw [Node.size] at hLevels
    obtain ⟨k, rfl⟩ : ∃ k, levels = k + 1 := ⟨levels - 1, by omega⟩
    rw [laid, Lies] at h
    have hChildren : (rootIds (next + 1) cs).map (d.treeTo k) = (Node.numberForest (next + 1) cs).1 :=
      map_treeTo_of_lies cs h.2 (by omega)
    simp [treeTo, h.1, Node.numberFrom, hChildren]

theorem map_treeTo_of_lies {d : Dom} {next parent : Nat} (ns : List (Node Unit))
    (h : d.Lies next (laidForest next parent ns)) {levels : Nat}
    (hLevels : Node.forestSize ns ≤ levels) :
    (rootIds next ns).map (d.treeTo levels) = (Node.numberForest next ns).1 := by
  cases ns with
  | nil => rfl
  | cons n ns =>
    rw [Node.forestSize] at hLevels
    rw [lies_laidForest_cons] at h
    rw [rootIds, List.map_cons, treeTo_of_lies n h.1 (by omega),
      map_treeTo_of_lies ns h.2 (by omega), fst_numberForest_cons]

end

/-- The tree below the first node of a document is the tree that it was made of. -/
theorem tree_ofTree (n : Node Unit) : (ofTree n).tree 0 = n.numbered :=
  treeTo_of_lies n (lies_ofTree n) (Nat.le_of_eq (size_ofTree n).symm)

mutual

theorem ids_numberFrom (next : Nat) (n : Node Unit) :
    (n.numberFrom next).1.descendants.map (·.info.id) = List.range' next n.size := by
  cases n with
  | text => rw [Node.numberFrom, Node.descendants_eq_cons]; rfl
  | element i t a cs =>
    rw [fst_numberFrom_element, Node.descendants_eq_cons, List.map_cons, Node.size,
      Nat.add_comm 1, List.range'_succ, ← ids_numberForest (next + 1) cs]
    rfl

theorem ids_numberForest (next : Nat) (ns : List (Node Unit)) :
    ((Node.numberForest next ns).1.flatMap Node.descendants).map (·.info.id) =
      List.range' next (Node.forestSize ns) := by
  cases ns with
  | nil => rfl
  | cons n ns =>
    rw [fst_numberForest_cons, List.flatMap_cons, List.map_append, ids_numberFrom, ids_numberForest,
      Node.forestSize, List.range'_append_1]

end

def childrenOf (d : Dom) (id : Nat) : List Nat :=
  ((d.node? id).map DomNode.children).getD []

theorem childrenOf_eq {d : Dom} {id : Nat} {n : DomNode} (h : d.node? id = some n) :
    d.childrenOf id = n.children := by
  rw [childrenOf, h]
  rfl

theorem parent?_of_lies {d : Dom} {next : Nat} {parent : Option Nat} {n : Node Unit}
    (h : d.Lies next (laid next parent n)) : d.parent? next = parent := by
  cases n with
  | text => simp [parent?, h.1]
  | element =>
    rw [laid, Lies] at h
    simp [parent?, h.1]

theorem parent?_of_mem_rootIds {d : Dom} {next parent : Nat} {ns : List (Node Unit)}
    (h : d.Lies next (laidForest next parent ns)) {id : Nat} (hId : id ∈ rootIds next ns) :
    d.parent? id = some parent := by
  induction ns generalizing next with
  | nil => cases hId
  | cons n ns ih =>
    rw [lies_laidForest_cons] at h
    rw [rootIds] at hId
    rcases List.mem_cons.mp hId with rfl | hId
    · exact parent?_of_lies h.1
    · exact ih h.2 hId

theorem le_of_mem_rootIds {next id : Nat} {ns : List (Node Unit)} (h : id ∈ rootIds next ns) :
    next ≤ id := by
  induction ns generalizing next with
  | nil => cases h
  | cons n ns ih =>
    rw [rootIds] at h
    rcases List.mem_cons.mp h with rfl | h
    · exact Nat.le_refl _
    · exact Nat.le_trans (Nat.le_add_right _ _) (ih h)

theorem size_pos (n : Node Unit) : 0 < n.size := by
  rw [Node.size_eq_forestSize_children]
  omega

theorem nodup_rootIds (next : Nat) (ns : List (Node Unit)) : (rootIds next ns).Nodup := by
  induction ns generalizing next with
  | nil => exact List.nodup_nil
  | cons n ns ih =>
    rw [rootIds, List.nodup_cons]
    refine ⟨?_, ih _⟩
    intro hMem
    have hLe := le_of_mem_rootIds hMem
    have hPos := size_pos n
    omega

/-- The children of a node are told apart, each of them knows its parent, and a text has none. -/
structure Holds (d : Dom) (id : Nat) : Prop where
  distinct : (d.childrenOf id).Nodup
  parent : ∀ c ∈ d.childrenOf id, d.parent? c = some id
  text : ∀ n s, d.node? id = some n → n.content = .text s → d.childrenOf id = []

/-- A node stands among the children of its parent, which has a smaller number. -/
def IsHeld (d : Dom) (id : Nat) : Prop :=
  ∃ p < id, d.parent? id = some p ∧ id ∈ d.childrenOf p

mutual

theorem holds_of_lies {d : Dom} {next : Nat} {parent : Option Nat} (n : Node Unit)
    (h : d.Lies next (laid next parent n)) {id : Nat} (hLow : next ≤ id)
    (hHigh : id < next + n.size) : d.Holds id ∧ (id = next ∨ d.IsHeld id) := by
  cases n with
  | text i s =>
    rw [Node.size] at hHigh
    obtain rfl : id = next := by omega
    have hChildren : d.childrenOf id = [] := childrenOf_eq h.1
    refine ⟨⟨?_, ?_, fun _ _ _ _ => hChildren⟩, .inl rfl⟩
    · rw [hChildren]
      exact List.nodup_nil
    · rw [hChildren]
      intro c hc
      cases hc
  | element i t a cs =>
    rw [Node.size] at hHigh
    rw [laid, Lies] at h
    have hChildren := childrenOf_eq h.1
    by_cases hEq : id = next
    · subst hEq
      refine ⟨⟨?_, ?_, ?_⟩, .inl rfl⟩
      · rw [hChildren]
        exact nodup_rootIds _ cs
      · rw [hChildren]
        intro c hc
        exact parent?_of_mem_rootIds h.2 hc
      · intro n s hn hText
        rw [h.1, Option.some.injEq] at hn
        subst hn
        cases hText
    · have hAbove : next + 1 ≤ id := by omega
      obtain ⟨hHolds, hHeld⟩ := holds_of_lies_forest cs h.2 hAbove (by omega)
      refine ⟨hHolds, .inr ?_⟩
      rcases hHeld with hMem | hHeld
      · exact ⟨next, by omega, parent?_of_mem_rootIds h.2 hMem, by rw [hChildren]; exact hMem⟩
      · exact hHeld

theorem holds_of_lies_forest {d : Dom} {next parent : Nat} (ns : List (Node Unit))
    (h : d.Lies next (laidForest next parent ns)) {id : Nat} (hLow : next ≤ id)
    (hHigh : id < next + Node.forestSize ns) :
    d.Holds id ∧ (id ∈ rootIds next ns ∨ d.IsHeld id) := by
  cases ns with
  | nil =>
    rw [Node.forestSize] at hHigh
    omega
  | cons n ns =>
    rw [Node.forestSize] at hHigh
    rw [lies_laidForest_cons] at h
    rw [rootIds]
    by_cases hFirst : id < next + n.size
    · obtain ⟨hHolds, hHeld⟩ := holds_of_lies n h.1 hLow hFirst
      refine ⟨hHolds, hHeld.imp_left ?_⟩
      intro hEq
      rw [hEq]
      exact List.mem_cons_self
    · have hBehind : next + n.size ≤ id := by omega
      obtain ⟨hHolds, hHeld⟩ := holds_of_lies_forest ns h.2 hBehind (by omega)
      exact ⟨hHolds, hHeld.imp_left (List.mem_cons_of_mem _)⟩

end

/-- A document in which every node stands in its place: each occurs once in the tree below the first
one, and the parent of a node is the node in whose list of children it stands, once. -/
structure IsTree (d : Dom) : Prop where
  listed : (d.tree 0).descendants.map (·.info.id) = List.range d.size
  root : d.parent? 0 = none
  held : ∀ id, 0 < id → id < d.size → d.IsHeld id
  parent : ∀ p c, c ∈ d.childrenOf p ↔ d.parent? c = some p
  distinct : ∀ p, (d.childrenOf p).Nodup
  text : ∀ id n s, d.node? id = some n → n.content = .text s → d.childrenOf id = []

theorem isTree_ofTree (n : Node Unit) : (ofTree n).IsTree := by
  have hLies := lies_ofTree n
  have hHolds : ∀ id, (ofTree n).Holds id := by
    intro id
    by_cases hId : id < n.size
    · exact (holds_of_lies n hLies (Nat.zero_le _) (by omega)).1
    · have hNone : (ofTree n).node? id = none := by
        rw [node?_eq_getElem?, List.getElem?_eq_none_iff, ofTree_toList, length_laid]
        omega
      have hChildren : (ofTree n).childrenOf id = [] := by simp [childrenOf, hNone]
      exact ⟨by simp [hChildren], by simp [hChildren], fun _ _ _ _ => hChildren⟩
  have hRoot : (ofTree n).parent? 0 = none := parent?_of_lies hLies
  have hHeld : ∀ id, 0 < id → id < (ofTree n).size → (ofTree n).IsHeld id := by
    intro id hPos hId
    rw [size_ofTree] at hId
    exact (holds_of_lies n hLies (Nat.zero_le _) (by omega)).2.resolve_left (by omega)
  refine ⟨?_, hRoot, hHeld, ?_, fun p => (hHolds p).distinct,
    fun id => (hHolds id).text⟩
  · rw [tree_ofTree, Node.numbered, ids_numberFrom, size_ofTree, List.range_eq_range']
  · intro p c
    constructor
    · exact (hHolds p).parent c
    · intro hParent
      have hSize : c < (ofTree n).size := by
        rw [parent?] at hParent
        obtain ⟨m, hm, -⟩ := Option.bind_eq_some_iff.mp hParent
        rw [node?_eq_getElem?] at hm
        exact (List.getElem?_eq_some_iff.mp hm).1
      have hPos : 0 < c := by
        rcases Nat.eq_zero_or_pos c with rfl | hPos
        · rw [hRoot] at hParent
          cases hParent
        · exact hPos
      obtain ⟨q, -, hq, hMem⟩ := hHeld c hPos hSize
      rw [hq] at hParent
      cases hParent
      exact hMem

end PageRender.Dom
