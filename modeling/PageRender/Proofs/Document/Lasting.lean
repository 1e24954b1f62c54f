import PageRender.Proofs.Document.Forest

/-! # Nodes last

Scripts add nodes and set attributes, and they give elements other children. The nodes that were there stay
what they were: they keep their parents, their tags and the names of their attributes. An element that is
given other children has none of the former ones left, so that what was taken from the page does not come
back. Which node has the focus does not change with it, and a new node does not have it.
-/

namespace PageRender

/-- A text stays as it is. An element keeps its tag, and every attribute that it has it keeps having. -/
inductive NodeContent.Lasts : NodeContent → NodeContent → Prop
  | text (s : String) : Lasts (.text s) (.text s)
  | element (t : String) {a b : Attributes} (kept : ∀ name, (a.get? name).isSome → (b.get? name).isSome) :
      Lasts (.element t a) (.element t b)

structure DomNode.Lasts (n m : DomNode) : Prop where
  content : n.content.Lasts m.content
  parent : m.parent = n.parent

theorem NodeContent.Lasts.refl (c : NodeContent) : c.Lasts c := by
  cases c with
  | text s => exact .text s
  | element t a => exact .element t fun _ => id

theorem NodeContent.Lasts.trans {a b c : NodeContent} (h : a.Lasts b) (k : b.Lasts c) : a.Lasts c := by
  cases h with
  | text s => exact k
  | element t first =>
    cases k with
    | element t rest => exact .element t fun name => rest name ∘ first name

namespace Dom

variable {d e : Dom}

theorem size_le_of_lasts
    (h : ∀ {k : Nat} {n : DomNode}, d.node? k = some n → ∃ m, e.node? k = some m ∧ n.Lasts m) :
    d.size ≤ e.size := by
  by_contra hLess
  obtain ⟨n, hNode⟩ := exists_node? (Nat.lt_of_not_le hLess)
  obtain ⟨m, hLast, -⟩ := h hNode
  rw [node?_eq_none (Nat.le_refl _)] at hLast
  cases hLast

/-- The nodes of the first document last in the second one, each with the children that it had or with new
ones alone. -/
structure Lasts (d e : Dom) : Prop where
  old : ∀ {k : Nat} {n : DomNode}, d.node? k = some n → ∃ m, e.node? k = some m ∧ n.Lasts m
  children : ∀ {k : Nat}, k < d.size →
    e.childrenOf k = d.childrenOf k ∨ ∀ c ∈ e.childrenOf k, d.size ≤ c

instance : IsPreorder Dom Lasts where
  refl d := ⟨fun h => ⟨_, h, .refl _, rfl⟩, fun _ => .inl rfl⟩
  trans d e f h k := {
    old := by
      intro i n hNode
      obtain ⟨m, hMiddle, hFirst⟩ := h.old hNode
      obtain ⟨l, hLast, hRest⟩ := k.old hMiddle
      exact ⟨l, hLast, hFirst.content.trans hRest.content, hRest.parent.trans hFirst.parent⟩
    children := by
      intro i hSize
      have hLe := size_le_of_lasts h.old
      rcases k.children (Nat.lt_of_lt_of_le hSize hLe) with hSame | hNew
      · rw [hSame]
        exact h.children hSize
      · exact .inr fun c hMem => Nat.le_trans hLe (hNew c hMem) }

theorem childrenOf_modify {f : DomNode → DomNode} (hf : ∀ n, (f n).children = n.children) (d : Dom)
    (id k : Nat) : (d.modify id f).childrenOf k = d.childrenOf k := by
  rw [childrenOf, childrenOf, node?_modify]
  split
  · cases d.node? k with
    | none => rfl
    | some n => exact hf n
  · rfl

theorem lasts_modify {f : DomNode → DomNode} (hf : ∀ n : DomNode, n.Lasts (f n))
    (hChildren : ∀ n, (f n).children = n.children) (d : Dom) (id : Nat) : d.Lasts (d.modify id f) where
  old {k n} hNode := by
    rw [node?_modify, hNode]
    split
    · exact ⟨f n, rfl, hf n⟩
    · exact ⟨n, rfl, .refl _, rfl⟩
  children {k} _ := .inl (childrenOf_modify hChildren d id k)

theorem lasts_setAttribute (d : Dom) (id : Nat) (name value : String) :
    d.Lasts (d.setAttribute id name value) := by
  refine lasts_modify (fun n => ?_) (fun n => ?_) d id
  · obtain ⟨content, parent, children, focused⟩ := n
    cases content with
    | text s => exact ⟨.refl _, rfl⟩
    | element t a =>
      refine ⟨.element t fun other h => ?_, rfl⟩
      rw [OrderedMap.get?_insert]
      split
      · rfl
      · exact h
  · obtain ⟨content, parent, children, focused⟩ := n
    cases content <;> rfl

theorem lasts_setFocus (d : Dom) (id : Nat) (focused : Bool) : d.Lasts (d.setFocus id focused) :=
  lasts_modify (f := fun n => { n with focused }) (fun _ => ⟨.refl _, rfl⟩) (fun _ => rfl) d id

theorem lasts_replaceChildren (d : Dom) (id : Nat) (ns : List (Node Unit)) :
    d.Lasts (d.replaceChildren id ns) where
  old {k n} hNode := by
    have hSize : k < d.size := Nat.lt_of_not_le fun hLe => by
      rw [node?_eq_none hLe] at hNode
      cases hNode
    by_cases hEq : id = k
    · subst hEq
      exact ⟨_, node?_replaceChildren_self ns hSize hNode, .refl _, rfl⟩
    · exact ⟨n, (node?_replaceChildren_of_ne ns hSize hEq).trans hNode, .refl _, rfl⟩
  children {k} hSize := by
    by_cases hEq : id = k
    · subst hEq
      rw [childrenOf_replaceChildren_self ns hSize]
      exact .inr fun c => le_of_mem_rootIds
    · exact .inl (childrenOf_replaceChildren_of_ne ns hSize hEq)

namespace Lasts

variable (h : d.Lasts e)

include h

theorem parent? {k : Nat} (hk : k < d.size) : e.parent? k = d.parent? k := by
  obtain ⟨n, hNode⟩ := exists_node? hk
  obtain ⟨m, hLast, hLasts⟩ := h.old hNode
  rw [Dom.parent?, Dom.parent?, hLast, hNode]
  exact hLasts.parent

theorem tag? {k : Nat} (hk : k < d.size) : e.tag? k = d.tag? k := by
  obtain ⟨n, hNode⟩ := exists_node? hk
  obtain ⟨m, hLast, hLasts⟩ := h.old hNode
  rw [Dom.tag?, Dom.tag?, hLast, hNode, Option.map_some, Option.map_some]
  have hContent := hLasts.content
  generalize n.content = c, m.content = c' at hContent
  cases hContent <;> rfl

theorem attribute? {k : Nat} {name : String} (hName : (d.attribute? k name).isSome) :
    (e.attribute? k name).isSome := by
  cases hNode : d.node? k with
  | none =>
    rw [Dom.attribute?, attributes, hNode] at hName
    cases hName
  | some n =>
    obtain ⟨m, hLast, hLasts⟩ := h.old hNode
    rw [Dom.attribute?, attributes, hNode, Option.map_some] at hName
    rw [Dom.attribute?, attributes, hLast, Option.map_some]
    have hContent := hLasts.content
    generalize n.content = c, m.content = c' at hContent hName
    cases hContent with
    | text s => cases hName
    | element t kept => exact kept name hName

theorem size_le : d.size ≤ e.size :=
  size_le_of_lasts h.old

/-- Of the nodes that were there, those are still reached from another one that were so before and that are
below no element that was given other children since. -/
theorem reaches_iff (hForest : d.IsForest) (hForest' : e.IsForest) {top k : Nat} (hk : k < d.size) :
    e.Reaches top k ↔ d.Reaches top k ∧
      ∀ p, d.Reaches top p → d.Reaches p k → p ≠ k → e.childrenOf p = d.childrenOf p := by
  constructor
  · intro hReach
    induction hReach with
    | refl =>
      refine ⟨.refl, fun p hAbove hBelow hNe => absurd ?_ hNe⟩
      exact Nat.le_antisymm (hForest.le_of_reaches hBelow) (hForest.le_of_reaches hAbove)
    | @tail q c _ hc ih =>
      have hq : q < d.size := Nat.lt_trans (hForest'.lt_of_mem hc) hk
      -- Among the children of `q` is one that was there before, so it was given no others.
      have hSame : e.childrenOf q = d.childrenOf q := by
        refine (h.children hq).resolve_right fun hNew => ?_
        exact Nat.not_le_of_lt hk (hNew c hc)
      obtain ⟨hBefore, hKept⟩ := ih hq
      rw [hSame] at hc
      refine ⟨hBefore.tail hc, fun p hAbove hBelow hNe => ?_⟩
      have hBelow' : d.Reaches p q := hForest.reaches_parent hc hBelow hNe
      by_cases hEq : p = q
      · rw [hEq]
        exact hSame
      · exact hKept p hAbove hBelow' hEq
  · rintro ⟨hReach, hKept⟩
    induction hReach with
    | refl => exact .refl
    | @tail q c hBefore hc ih =>
      have hLt := hForest.lt_of_mem hc
      have hAbove : e.Reaches top q :=
        ih (Nat.lt_trans hLt hk) fun p hAbove hBelow _ =>
          hKept p hAbove (hBelow.tail hc) fun hEq => by
            have hLe := hForest.le_of_reaches hBelow
            omega
      refine hAbove.tail ?_
      rw [hKept q hBefore (.single hc) (Nat.ne_of_lt hLt)]
      exact hc

end Lasts

/-! ## The focus -/

def isFocused (d : Dom) (id : NodeId) : Bool :=
  (d.node? id).elim false DomNode.focused

theorem isFocused_modify {f : DomNode → DomNode} (hf : ∀ n, (f n).focused = n.focused) (d : Dom) (id : Nat) :
    (d.modify id f).isFocused = d.isFocused := by
  funext k
  rw [isFocused, isFocused, node?_modify]
  split
  · cases d.node? k with
    | none => rfl
    | some n => exact hf n
  · rfl

theorem isFocused_setAttribute (d : Dom) (id : Nat) (name value : String) :
    (d.setAttribute id name value).isFocused = d.isFocused := by
  refine isFocused_modify (fun n => ?_) d id
  obtain ⟨content, parent, children, focused⟩ := n
  cases content <;> rfl

theorem isFocused_setFocus {id : Nat} (hSize : id < d.size) (focused : Bool) (k : Nat) :
    (d.setFocus id focused).isFocused k = if id = k then focused else d.isFocused k := by
  rw [isFocused, isFocused, setFocus, node?_modify]
  split
  · rename_i hEq
    obtain ⟨n, hNode⟩ := exists_node? hSize
    rw [← hEq, hNode]
    rfl
  · rfl

mutual

theorem focused_of_mem_laid {next : Nat} {parent : Option Nat} {n : Node Unit} {m : DomNode}
    (h : m ∈ laid next parent n) : m.focused = false := by
  cases n with
  | text i s =>
    rw [laid, List.mem_singleton] at h
    rw [h]
  | element i t a cs =>
    rw [laid, List.mem_cons] at h
    rcases h with rfl | hBelow
    · rfl
    · exact focused_of_mem_laidForest hBelow

theorem focused_of_mem_laidForest {next parent : Nat} {ns : List (Node Unit)} {m : DomNode}
    (h : m ∈ laidForest next parent ns) : m.focused = false := by
  cases ns with
  | nil => cases h
  | cons n ns =>
    rw [laidForest, List.mem_append] at h
    rcases h with hFirst | hRest
    · exact focused_of_mem_laid hFirst
    · exact focused_of_mem_laidForest hRest

end

theorem isFocused_of_append {l : List DomNode} (h : e.nodes.toList = d.nodes.toList ++ l)
    (hNew : ∀ m ∈ l, m.focused = false) : e.isFocused = d.isFocused := by
  funext k
  rw [isFocused, isFocused, node?_eq_getElem?, node?_eq_getElem?, h]
  by_cases hSize : k < d.nodes.toList.length
  · rw [List.getElem?_append_left hSize]
  · rw [List.getElem?_append_right (Nat.le_of_not_lt hSize), List.getElem?_eq_none (Nat.le_of_not_lt hSize)]
    cases hNode : l[k - d.nodes.toList.length]? with
    | none => rfl
    | some m => exact hNew m (List.mem_of_getElem? hNode)

theorem isFocused_replaceChildren (d : Dom) (id : Nat) (ns : List (Node Unit)) :
    (d.replaceChildren id ns).isFocused = d.isFocused := by
  have hRoots (e : Dom) (ids : List Nat) : (e.setChildren id ids).isFocused = e.isFocused :=
    isFocused_modify (f := fun n => { n with children := ids }) (fun _ => rfl) e id
  rw [replaceChildren_eq, hRoots]
  exact isFocused_of_append (addForest_toList d id ns).1 fun _ => focused_of_mem_laidForest

theorem isFocused_ofTree (n : Node Unit) (k : Nat) : (ofTree n).isFocused k = false := by
  have hEmpty : (ofTree n).isFocused = isFocused {} :=
    isFocused_of_append ((ofTree_toList n).trans (List.nil_append _).symm) fun _ => focused_of_mem_laid
  rw [hEmpty]
  rfl

/-- The nodes of the tree below a node have the focus that they have in the document. -/
theorem IsForest.focused_of_mem_treeTo (h : d.IsForest) {levels id : Nat} {n : PageTree}
    (hLevels : d.size ≤ id + levels) (hMem : n ∈ (d.treeTo levels id).descendants) :
    n.info.focused = d.isFocused n.info.id := by
  induction levels generalizing id with
  | zero =>
    rw [treeTo, Node.descendants_eq_cons, Node.children, List.flatMap_nil, List.mem_singleton] at hMem
    have hNone : d.node? id = none := node?_eq_none hLevels
    rw [hMem, isFocused, Node.info, hNone]
    rfl
  | succ levels ih =>
    rw [treeTo, Node.descendants_eq_cons] at hMem
    cases hNode : d.node? id with
    | none =>
      rw [hNode] at hMem
      rw [List.mem_singleton.mp hMem, isFocused, Node.info, hNode]
      rfl
    | some m =>
      rw [hNode] at hMem
      dsimp only at hMem
      cases hContent : m.content with
      | text s =>
        rw [hContent] at hMem
        rw [List.mem_singleton.mp hMem, isFocused, Node.info, hNode]
        rfl
      | element t a =>
        rw [hContent, List.mem_cons, Node.children, List.mem_flatMap] at hMem
        rcases hMem with rfl | ⟨c, hc, hBelow⟩
        · rw [isFocused, Node.info, hNode]
          rfl
        · obtain ⟨k, hk, rfl⟩ := List.mem_map.mp hc
          have hLt := h.lt_of_mem ((childrenOf_eq hNode).symm ▸ hk)
          exact ih (by omega) hBelow

end Dom

end PageRender
