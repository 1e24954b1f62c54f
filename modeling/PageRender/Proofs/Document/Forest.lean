import Mathlib.Data.List.Nodup
import Mathlib.Logic.Relation
import PageRender.Proofs.Document.Replacing
import PageRender.Proofs.OrderedMap

/-! # Nodes in the document and out of it

A node that is replaced is cut off: it is in no list of children any more, but it keeps what is below it
and still knows the parent that it had. So the nodes of a document make up several trees. Whichever element
is given new children, in the document or cut off, a parent stays older than the nodes it has, and no other
node than its parent has a node among its children. From this the tree below a node lists what is reached
from there without repetition, and the way up from a node comes to an end.
-/

namespace PageRender

/-- Where a node stands, and whether it is an element. -/
def DomNode.place (n : DomNode) : Option NodeId × List NodeId × Bool :=
  (n.parent, n.children, match n.content with | .element .. => true | .text _ => false)

namespace Dom

open Node

variable {d : Dom} {id : Nat}

def HasElement (d : Dom) (id : Nat) : Prop :=
  (d.tag? id).isSome = true

/-- Every node has an older parent or none, only elements have children, and these are told apart and
have that element as their parent. -/
structure IsForest (d : Dom) : Prop where
  root : d.parent? 0 = none
  older : ∀ {c p : Nat}, d.parent? c = some p → p < c
  parent : ∀ {c p : Nat}, c ∈ d.childrenOf p → d.parent? c = some p
  element : ∀ {c p : Nat}, c ∈ d.childrenOf p → d.HasElement p
  distinct : ∀ p : Nat, (d.childrenOf p).Nodup

theorem node?_eq_none (h : d.size ≤ id) : d.node? id = none := by
  rw [node?_eq_getElem?]
  exact List.getElem?_eq_none h

theorem exists_node? (h : id < d.size) : ∃ n, d.node? id = some n := by
  rw [node?_eq_getElem?]
  exact ⟨_, List.getElem?_eq_getElem h⟩

theorem childrenOf_eq_nil (h : d.size ≤ id) : d.childrenOf id = [] := by
  rw [childrenOf, node?_eq_none h]
  rfl

theorem lt_size_of_parent? {p : Nat} (h : d.parent? id = some p) : id < d.size := by
  by_contra hSize
  rw [parent?, node?_eq_none (Nat.le_of_not_lt hSize)] at h
  cases h

theorem HasElement.lt_size (h : d.HasElement id) : id < d.size := by
  by_contra hSize
  rw [HasElement, tag?, node?_eq_none (Nat.le_of_not_lt hSize)] at h
  cases h

theorem hasElement_iff :
    d.HasElement id ↔ ∃ n t a, d.node? id = some n ∧ n.content = .element t a := by
  rw [HasElement, tag?]
  cases hNode : d.node? id with
  | none => simp
  | some n => cases hContent : n.content <;> simp [hContent]

theorem Holds.element {c : Nat} (h : d.Holds id) (hc : c ∈ d.childrenOf id) : d.HasElement id := by
  by_cases hSize : d.size ≤ id
  · rw [childrenOf_eq_nil hSize] at hc
    cases hc
  · obtain ⟨n, hNode⟩ := exists_node? (Nat.lt_of_not_le hSize)
    cases hContent : n.content with
    | element t a => exact hasElement_iff.mpr ⟨n, t, a, hNode, hContent⟩
    | text s =>
      rw [h.text n s hNode hContent] at hc
      cases hc

theorem isForest_empty : IsForest {} where
  root := rfl
  older h := by cases h
  parent h := by cases h
  element h := by cases h
  distinct _ := List.nodup_nil

theorem IsTree.isForest (h : d.IsTree) : d.IsForest where
  root := h.root
  older {c p} hParent := by
    have hPos : 0 < c := by
      apply Nat.pos_of_ne_zero
      rintro rfl
      rw [h.root] at hParent
      cases hParent
    obtain ⟨q, hLt, hHeld, -⟩ := h.held c hPos (lt_size_of_parent? hParent)
    rw [hParent] at hHeld
    cases hHeld
    exact hLt
  parent hc := (h.parent _ _).mp hc
  element {c p} hc := by
    have hHolds : d.Holds p := ⟨h.distinct p, fun c hc => (h.parent p c).mp hc, h.text p⟩
    exact hHolds.element hc
  distinct := h.distinct

theorem isForest_ofTree (n : Node Unit) : (ofTree n).IsForest :=
  (isTree_ofTree n).isForest

/-! ## Changes of single nodes -/

theorem node?_modify (d : Dom) (id k : Nat) (f : DomNode → DomNode) :
    (d.modify id f).node? k = if id = k then (d.node? k).map f else d.node? k := by
  rw [node?_eq_getElem?, node?_eq_getElem?, toList_modify]
  split
  · rename_i hEq
    rw [hEq, List.getElem?_modify_eq]
    rfl
  · rename_i hNe
    exact List.getElem?_modify_ne _ _ hNe

theorem place_modify {f : DomNode → DomNode} (hf : ∀ n, (f n).place = n.place) (d : Dom) (id k : Nat) :
    ((d.modify id f).node? k).map DomNode.place = (d.node? k).map DomNode.place := by
  rw [node?_modify]
  split
  · cases d.node? k with
    | none => rfl
    | some n => exact congrArg some (hf n)
  · rfl

section

variable {d' : Dom} (hPlaces : ∀ k, (d'.node? k).map DomNode.place = (d.node? k).map DomNode.place)

include hPlaces

theorem parent?_of_places (k : Nat) : d'.parent? k = d.parent? k := by
  have hPlace (e : Dom) : e.parent? k = ((e.node? k).map DomNode.place).bind Prod.fst := by
    rw [parent?, Option.bind_map]
    rfl
  rw [hPlace, hPlace, hPlaces]

theorem childrenOf_of_places (k : Nat) : d'.childrenOf k = d.childrenOf k := by
  have hPlace (e : Dom) :
      e.childrenOf k = (((e.node? k).map DomNode.place).map fun place => place.2.1).getD [] := by
    rw [childrenOf, Option.map_map]
    rfl
  rw [hPlace, hPlace, hPlaces]

theorem hasElement_of_places (k : Nat) : d'.HasElement k ↔ d.HasElement k := by
  have hPlace (e : Dom) :
      e.HasElement k ↔ ((e.node? k).map DomNode.place).any (fun place => place.2.2) = true := by
    rw [HasElement, tag?]
    cases e.node? k with
    | none => simp
    | some n => cases hContent : n.content <;> simp [DomNode.place, hContent]
  rw [hPlace, hPlace, hPlaces]

theorem IsForest.of_places (h : d.IsForest) : d'.IsForest where
  root := (parent?_of_places hPlaces 0).trans h.root
  older {c p} hParent := h.older ((parent?_of_places hPlaces c).symm.trans hParent)
  parent {c p} hc := by
    rw [childrenOf_of_places hPlaces] at hc
    exact (parent?_of_places hPlaces c).trans (h.parent hc)
  element {c p} hc := by
    rw [childrenOf_of_places hPlaces] at hc
    exact (hasElement_of_places hPlaces p).mpr (h.element hc)
  distinct p := by
    rw [childrenOf_of_places hPlaces]
    exact h.distinct p

end

theorem place_setAttribute (d : Dom) (id : Nat) (name value : String) (k : Nat) :
    ((d.setAttribute id name value).node? k).map DomNode.place = (d.node? k).map DomNode.place := by
  apply place_modify
  rintro ⟨content, parent, children, focused⟩
  cases content <;> rfl

theorem place_setFocus (d : Dom) (id : Nat) (focused : Bool) (k : Nat) :
    ((d.setFocus id focused).node? k).map DomNode.place = (d.node? k).map DomNode.place :=
  place_modify (f := fun n => { n with focused }) (fun _ => rfl) d id k

/-! ## Replaced children -/

section

variable (ms : List (Node Unit)) {k : Nat}

theorem parent?_replaceChildren_of_lt (h : id < d.size) (hk : k < d.size) :
    (d.replaceChildren id ms).parent? k = d.parent? k := by
  by_cases hEq : id = k
  · subst hEq
    obtain ⟨n, hNode⟩ := exists_node? h
    rw [parent?, parent?, node?_replaceChildren_self ms h hNode, hNode]
    rfl
  · rw [parent?, parent?, node?_replaceChildren_of_ne ms hk hEq]

theorem childrenOf_replaceChildren_self (h : id < d.size) :
    (d.replaceChildren id ms).childrenOf id = rootIds d.size ms := by
  obtain ⟨n, hNode⟩ := exists_node? h
  exact childrenOf_eq (node?_replaceChildren_self ms h hNode)

theorem childrenOf_replaceChildren_of_ne (hk : k < d.size) (hNe : id ≠ k) :
    (d.replaceChildren id ms).childrenOf k = d.childrenOf k := by
  rw [childrenOf, childrenOf, node?_replaceChildren_of_ne ms hk hNe]

theorem HasElement.replaceChildren (h : id < d.size) (hk : d.HasElement k) :
    (d.replaceChildren id ms).HasElement k := by
  obtain ⟨n, t, a, hNode, hContent⟩ := hasElement_iff.mp hk
  rw [hasElement_iff]
  by_cases hEq : id = k
  · subst hEq
    exact ⟨_, t, a, node?_replaceChildren_self ms h hNode, hContent⟩
  · exact ⟨n, t, a, (node?_replaceChildren_of_ne ms hk.lt_size hEq).trans hNode, hContent⟩

/-- The new nodes stand in their places: the roots below the node that they were given to, and the
others below new ones. -/
theorem holds_replaceChildren (h : id < d.size) (hLow : d.size ≤ k)
    (hHigh : k < (d.replaceChildren id ms).size) :
    (d.replaceChildren id ms).Holds k ∧
      (k ∈ rootIds d.size ms ∨ (d.replaceChildren id ms).IsHeld k) := by
  rw [size_replaceChildren] at hHigh
  exact holds_of_lies_forest ms (lies_replaceChildren ms h) hLow hHigh

theorem parent?_of_mem_rootIds_replaceChildren (h : id < d.size) (hk : k ∈ rootIds d.size ms) :
    (d.replaceChildren id ms).parent? k = some id :=
  parent?_of_mem_rootIds (lies_replaceChildren ms h) hk

/-- What the children of a node are afterwards: the new roots, the old children, those of a new node,
which stands in its place, or none. -/
theorem childrenOf_replaceChildren (h : id < d.size) (p : Nat) :
    p = id ∧ (d.replaceChildren id ms).childrenOf p = rootIds d.size ms ∨
      (d.replaceChildren id ms).childrenOf p = d.childrenOf p ∨
      (d.replaceChildren id ms).Holds p ∨ (d.replaceChildren id ms).childrenOf p = [] := by
  by_cases hSelf : p = id
  · subst hSelf
    exact .inl ⟨rfl, childrenOf_replaceChildren_self ms h⟩
  by_cases hOld : p < d.size
  · exact .inr (.inl (childrenOf_replaceChildren_of_ne ms hOld (Ne.symm hSelf)))
  by_cases hNew : p < (d.replaceChildren id ms).size
  · exact .inr (.inr (.inl (holds_replaceChildren ms h (Nat.le_of_not_lt hOld) hNew).1))
  · exact .inr (.inr (.inr (childrenOf_eq_nil (Nat.le_of_not_lt hNew))))

theorem IsForest.replaceChildren (hForest : d.IsForest) (hElement : d.HasElement id) :
    (d.replaceChildren id ms).IsForest where
  root := by
    have hSize := hElement.lt_size
    rw [parent?_replaceChildren_of_lt ms hSize (by omega), hForest.root]
  older {c p} hParent := by
    have hSize := hElement.lt_size
    by_cases hOld : c < d.size
    · rw [parent?_replaceChildren_of_lt ms hSize hOld] at hParent
      exact hForest.older hParent
    · rcases (holds_replaceChildren ms hSize (Nat.le_of_not_lt hOld) (lt_size_of_parent? hParent)).2 with
        hRoot | ⟨q, hLt, hHeld, -⟩
      · rw [parent?_of_mem_rootIds_replaceChildren ms hSize hRoot] at hParent
        cases hParent
        omega
      · rw [hHeld] at hParent
        cases hParent
        exact hLt
  parent {c p} hc := by
    have hSize := hElement.lt_size
    rcases childrenOf_replaceChildren ms hSize p with ⟨rfl, hNew⟩ | hSame | hHolds | hNone
    · rw [hNew] at hc
      exact parent?_of_mem_rootIds_replaceChildren ms hSize hc
    · rw [hSame] at hc
      have hParent := hForest.parent hc
      rwa [parent?_replaceChildren_of_lt ms hSize (lt_size_of_parent? hParent)]
    · exact hHolds.parent c hc
    · rw [hNone] at hc
      cases hc
  element {c p} hc := by
    have hSize := hElement.lt_size
    rcases childrenOf_replaceChildren ms hSize p with ⟨rfl, -⟩ | hSame | hHolds | hNone
    · exact hElement.replaceChildren ms hSize
    · rw [hSame] at hc
      exact (hForest.element hc).replaceChildren ms hSize
    · exact hHolds.element hc
    · rw [hNone] at hc
      cases hc
  distinct p := by
    rcases childrenOf_replaceChildren ms hElement.lt_size p with ⟨-, hNew⟩ | hSame | hHolds | hNone
    · rw [hNew]
      exact nodup_rootIds _ ms
    · rw [hSame]
      exact hForest.distinct p
    · exact hHolds.distinct
    · rw [hNone]
      exact List.nodup_nil

end

-- A node that was cut off knows the parent it had, and may be given children itself.
example :
    let d := ofTree (.element () "p" .empty [.element () "b" .empty []])
    let e := (d.replaceChildren 0 []).replaceChildren 1 [.text () "x"]
    e.childrenOf 0 = [] ∧ e.parent? 1 = some 0 ∧ e.childrenOf 1 = [2] ∧ e.parent? 2 = some 1 := by
  decide

/-- The nodes of the document make up trees, and those of a set are elements. -/
structure IsForestOver (d : Dom) (E : Nat → Prop) : Prop where
  forest : d.IsForest
  element : ∀ {k : Nat}, E k → d.HasElement k

namespace IsForestOver

variable {E : Nat → Prop} (h : d.IsForestOver E)

include h

theorem setAttribute (id : Nat) (name value : String) :
    (d.setAttribute id name value).IsForestOver E where
  forest := h.forest.of_places (d.place_setAttribute id name value)
  element hk := (hasElement_of_places (d.place_setAttribute id name value) _).mpr (h.element hk)

theorem setFocus (id : Nat) (focused : Bool) : (d.setFocus id focused).IsForestOver E where
  forest := h.forest.of_places (d.place_setFocus id focused)
  element hk := (hasElement_of_places (d.place_setFocus id focused) _).mpr (h.element hk)

theorem replaceChildren (hId : E id) (ms : List (Node Unit)) :
    (d.replaceChildren id ms).IsForestOver E where
  forest := h.forest.replaceChildren ms (h.element hId)
  element hk := (h.element hk).replaceChildren ms (h.element hId).lt_size

end IsForestOver

/-! ## The tree below a node -/

/-- The second node stands below the first one, or is that node itself. -/
def Reaches (d : Dom) : Nat → Nat → Prop :=
  Relation.ReflTransGen fun p c => c ∈ d.childrenOf p

namespace IsForest

variable (h : d.IsForest)

include h

theorem lt_of_mem {c p : Nat} (hc : c ∈ d.childrenOf p) : p < c :=
  h.older (h.parent hc)

theorem le_of_reaches {x y : Nat} (hReach : d.Reaches x y) : x ≤ y := by
  induction hReach with
  | refl => exact Nat.le_refl _
  | tail _ hc ih => exact Nat.le_trans ih (Nat.le_of_lt (h.lt_of_mem hc))

/-- The way down to a node leads through its parent. -/
theorem reaches_parent {p q c : Nat} (hc : c ∈ d.childrenOf q) (hReach : d.Reaches p c) (hNe : p ≠ c) :
    d.Reaches p q := by
  obtain hEq | ⟨q', hAbove, hc'⟩ := Relation.ReflTransGen.cases_tail hReach
  · exact absurd hEq.symm hNe
  · have hSame : q' = q := Option.some.inj ((h.parent hc').symm.trans (h.parent hc))
    rwa [hSame] at hAbove

/-- Of two nodes from which a third one is reached, one is reached from the other. -/
theorem reaches_total {x y z : Nat} (hx : d.Reaches x z) (hy : d.Reaches y z) :
    d.Reaches x y ∨ d.Reaches y x := by
  have hUnique : Relator.RightUnique (Function.swap fun p c => c ∈ d.childrenOf p) := by
    intro c p q hp hq
    have hSame := (h.parent hp).symm.trans (h.parent hq)
    exact Option.some.inj hSame
  rw [Reaches, ← Relation.reflTransGen_swap] at hx hy
  rcases Relation.ReflTransGen.total_of_right_unique hUnique hx hy with hUp | hUp
  · exact .inr (Relation.reflTransGen_swap.mp hUp)
  · exact .inl (Relation.reflTransGen_swap.mp hUp)

/-- No node is reached from two children of one node. -/
theorem eq_of_reaches {p x y z : Nat} (hx : x ∈ d.childrenOf p) (hy : y ∈ d.childrenOf p)
    (hxz : d.Reaches x z) (hyz : d.Reaches y z) : x = y := by
  have hBelow : ∀ {a b : Nat},
      a ∈ d.childrenOf p → b ∈ d.childrenOf p → d.Reaches a b → a = b := by
    intro a b ha hb hReach
    by_contra hNe
    have hLe := h.le_of_reaches (h.reaches_parent hb hReach hNe)
    have hLt := h.lt_of_mem ha
    omega
  rcases h.reaches_total hxz hyz with hReach | hReach
  · exact hBelow hx hy hReach
  · exact (hBelow hy hx hReach).symm

theorem childrenOf_of_text {n : DomNode} {s : String} (hNode : d.node? id = some n)
    (hText : n.content = .text s) : d.childrenOf id = [] := by
  rw [List.eq_nil_iff_forall_not_mem]
  intro c hc
  obtain ⟨m, t, a, hElement, hTag⟩ := hasElement_iff.mp (h.element hc)
  rw [hNode] at hElement
  cases hElement
  rw [hText] at hTag
  cases hTag

theorem ids_treeTo_succ (levels : Nat) (id : Nat) :
    (d.treeTo (levels + 1) id).descendants.map (·.info.id) =
      id :: (d.childrenOf id).flatMap fun c => (d.treeTo levels c).descendants.map (·.info.id) := by
  rw [descendants_eq_cons, treeTo]
  cases hNode : d.node? id with
  | none => simp [childrenOf, hNode, children, info]
  | some n =>
    dsimp only
    cases hContent : n.content with
    | element t a =>
      rw [children, List.flatMap_map, List.map_cons, info, List.map_flatMap, childrenOf_eq hNode]
    | text s =>
      have hChildren := h.childrenOf_of_text hNode hContent
      simp [hChildren, children, info]

/-- With levels for all nodes, the tree below a node lists what is reached from it. -/
theorem mem_ids_treeTo {levels : Nat} {id x : Nat} (hLevels : d.size ≤ id + levels) :
    x ∈ (d.treeTo levels id).descendants.map (·.info.id) ↔ d.Reaches id x := by
  induction levels generalizing id with
  | zero =>
    have hChildren : d.childrenOf id = [] := childrenOf_eq_nil hLevels
    rw [Reaches, Relation.ReflTransGen.cases_head_iff, hChildren]
    simp [treeTo, descendants_eq_cons, children, info, eq_comm]
  | succ levels ih =>
    rw [h.ids_treeTo_succ, Reaches, Relation.ReflTransGen.cases_head_iff, List.mem_cons, eq_comm,
      List.mem_flatMap]
    refine or_congr_right (exists_congr fun c => and_congr_right fun hc => ?_)
    have hLt := h.lt_of_mem hc
    exact ih (by omega)

theorem nodup_ids_treeTo {levels : Nat} {id : Nat} (hLevels : d.size ≤ id + levels) :
    ((d.treeTo levels id).descendants.map (·.info.id)).Nodup := by
  induction levels generalizing id with
  | zero => simp [treeTo, descendants_eq_cons, children]
  | succ levels ih =>
    have hDeeper : ∀ c ∈ d.childrenOf id, d.size ≤ c + levels := by
      intro c hc
      have hLt := h.lt_of_mem hc
      omega
    rw [h.ids_treeTo_succ, List.nodup_cons, List.nodup_flatMap]
    refine ⟨?_, fun c hc => ih (hDeeper c hc), ?_⟩
    · intro hMem
      obtain ⟨c, hc, hBelow⟩ := List.mem_flatMap.mp hMem
      have hLe := h.le_of_reaches ((h.mem_ids_treeTo (hDeeper c hc)).mp hBelow)
      have hLt := h.lt_of_mem hc
      omega
    · refine (h.distinct id).imp_of_mem ?_
      intro x y hx hy hNe z hxz hyz
      rw [h.mem_ids_treeTo (hDeeper x hx)] at hxz
      rw [h.mem_ids_treeTo (hDeeper y hy)] at hyz
      exact hNe (h.eq_of_reaches hx hy hxz hyz)

theorem mem_ids_tree {id x : Nat} :
    x ∈ (d.tree id).descendants.map (·.info.id) ↔ d.Reaches id x :=
  h.mem_ids_treeTo (Nat.le_add_left _ _)

theorem nodup_ids_tree (id : Nat) : ((d.tree id).descendants.map (·.info.id)).Nodup :=
  h.nodup_ids_treeTo (Nat.le_add_left _ _)

/-! ## The way up -/

/-- The way up from a node has no more steps than there are nodes before it. -/
theorem exists_parent_iterate_eq_none (id : Nat) :
    ∃ steps ≤ id + 1, (·.bind d.parent?)^[steps] (some id) = none := by
  induction id using Nat.strong_induction_on with
  | _ id ih =>
    cases hParent : d.parent? id with
    | none => exact ⟨1, by omega, hParent⟩
    | some p =>
      have hLt := h.older hParent
      obtain ⟨steps, hSteps, hEnd⟩ := ih p hLt
      refine ⟨steps + 1, by omega, ?_⟩
      rw [Function.iterate_succ_apply, Option.bind_some, hParent, hEnd]

/-- The ancestors are listed up to one that has no parent. -/
theorem exists_getLast?_chainTo {count : Nat} {id : Nat} (hCount : id < count) :
    ∃ top, (d.chainTo count id).getLast? = some top ∧ d.parent? top = none := by
  induction count generalizing id with
  | zero => omega
  | succ count ih =>
    rw [chainTo]
    cases hParent : d.parent? id with
    | none => exact ⟨id, rfl, hParent⟩
    | some p =>
      have hBelow : p < count := Nat.lt_of_lt_of_le (h.older hParent) (Nat.le_of_lt_succ hCount)
      obtain ⟨top, hLast, hTop⟩ := ih hBelow
      refine ⟨top, ?_, hTop⟩
      rw [Option.map_some, Option.getD_some, List.getLast?_cons, hLast]
      rfl

end IsForest

/-- What those who walk through a document rely on. The way down from the root comes to every node once
that is reached, each of which but the root is held, once, by a node that is reached as well and is its
parent. No text holds a node, and no node, in the document or cut off, is held by another one than its
parent or has a way up that does not end. -/
structure IsWalkable (d : Dom) : Prop where
  once : ((d.tree 0).descendants.map (·.info.id)).Nodup
  listed : ∀ id, id ∈ (d.tree 0).descendants.map (·.info.id) ↔ d.Reaches 0 id
  held : ∀ id, d.Reaches 0 id → id ≠ 0 →
    ∃ p, d.Reaches 0 p ∧ d.parent? id = some p ∧ (d.childrenOf p).count id = 1
  parent : ∀ p c, c ∈ d.childrenOf p → d.parent? c = some p
  text : ∀ id n s, d.node? id = some n → n.content = .text s → n.children = []
  ends : ∀ id, ∃ steps, (·.bind d.parent?)^[steps] (some id) = none
  top : ∀ id < d.size, ∃ top, (d.chain id).getLast? = some top ∧ d.parent? top = none

theorem IsForest.isWalkable (h : d.IsForest) : d.IsWalkable where
  once := h.nodup_ids_tree 0
  listed _ := h.mem_ids_tree
  held id hReach hNe := by
    rcases Relation.ReflTransGen.cases_tail hReach with hEq | ⟨p, hp, hc⟩
    · exact absurd hEq hNe
    · exact ⟨p, hp, h.parent hc, List.count_eq_one_of_mem (h.distinct p) hc⟩
  parent _ _ := h.parent
  text id n s hNode hText := by
    rw [← childrenOf_eq hNode]
    exact h.childrenOf_of_text hNode hText
  ends id := by
    obtain ⟨steps, -, hEnd⟩ := h.exists_parent_iterate_eq_none id
    exact ⟨steps, hEnd⟩
  top _ := h.exists_getLast?_chainTo

/-! ## Ids -/

/-- The elements of a tree are elements of the document. -/
theorem tag?_of_mem_treeTo {levels : Nat} {n : PageTree} {t : String}
    (hMem : n ∈ (d.treeTo levels id).descendants) (hTag : n.tag? = some t) :
    d.tag? n.info.id = some t := by
  induction levels generalizing id with
  | zero =>
    rw [treeTo, descendants_eq_cons, children, List.flatMap_nil, List.mem_singleton] at hMem
    rw [hMem] at hTag
    cases hTag
  | succ levels ih =>
    rw [treeTo, descendants_eq_cons] at hMem
    cases hNode : d.node? id with
    | none =>
      rw [hNode] at hMem
      obtain rfl := List.mem_singleton.mp hMem
      cases hTag
    | some m =>
      rw [hNode] at hMem
      dsimp only at hMem
      cases hContent : m.content with
      | text s =>
        rw [hContent] at hMem
        obtain rfl := List.mem_singleton.mp hMem
        cases hTag
      | element u a =>
        rw [hContent, List.mem_cons, children, List.mem_flatMap] at hMem
        rcases hMem with rfl | ⟨c, hc, hBelow⟩
        · rw [info, tag?, hNode, Option.map_some, hContent]
          exact hTag
        · obtain ⟨k, -, rfl⟩ := List.mem_map.mp hc
          exact ih hBelow

end Dom

theorem Node.attribute?_of_mem_idMap {α : Type} {n : Node α} {e : String × Node α}
    (h : e ∈ n.idMap.entries) : e.2 ∈ n.descendants ∧ e.2.attribute? "id" = some e.1 := by
  refine List.foldlRecOn n.descendants _ (motive := fun m : OrderedMap String (Node α) =>
    ∀ e ∈ m.entries, e.2 ∈ n.descendants ∧ e.2.attribute? "id" = some e.1) ?_ ?_ e h
  · intro e he
    cases he
  · intro m ih node hNode
    split
    · rename_i id hId
      split
      · exact ih
      · intro e he
        rcases OrderedMap.mem_setEntry he with rfl | hMem
        · exact ⟨hNode, hId⟩
        · exact ih e hMem
    · exact ih

/-- What is found by its id is an element. -/
theorem Dom.hasElement_of_mem_idMap {d : Dom} {root : Nat} {e : String × NodeId}
    (h : e ∈ (d.idMap root).entries) : d.HasElement e.2 := by
  obtain ⟨⟨k, n⟩, hMem, rfl⟩ := List.mem_map.mp h
  obtain ⟨hNode, hId⟩ := Node.attribute?_of_mem_idMap hMem
  cases n with
  | text i s => cases hId
  | element i t a cs => exact Option.isSome_iff_exists.mpr ⟨t, tag?_of_mem_treeTo hNode rfl⟩

end PageRender
