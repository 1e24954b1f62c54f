import PageRender.Markup.Node

/-! # Document order

The nodes of a tree in document order, by recursion on the tree, and the texts among them. What
holds of every node of a tree is carried by these equations; the list of pending trees with which
they are listed is not used again.
-/

namespace PageRender.Node

variable {α : Type}

theorem walk_append (xs ys : List (Node α)) : walk (xs ++ ys) = walk xs ++ walk ys := by
  fun_induction walk xs with
  | case1 => rfl
  | case2 n pending ih =>
    rw [List.cons_append, walk, ← List.append_assoc, ih]
    rfl

theorem walk_eq_flatMap (ns : List (Node α)) : walk ns = ns.flatMap descendants := by
  induction ns with
  | nil => rw [walk]; rfl
  | cons n ns ih =>
    rw [List.flatMap_cons, ← ih, descendants, ← walk_append]
    rfl

theorem descendants_eq_cons (n : Node α) : n.descendants = n :: n.children.flatMap descendants := by
  rw [descendants, walk, List.append_nil, walk_eq_flatMap]

mutual

theorem length_descendants (n : Node α) : n.descendants.length = n.size := by
  cases n with
  | text => rw [descendants_eq_cons]; rfl
  | element i t a cs =>
    rw [descendants_eq_cons, List.length_cons, children, length_flatMap_descendants, size, Nat.add_comm]

theorem length_flatMap_descendants (ns : List (Node α)) :
    (ns.flatMap descendants).length = forestSize ns := by
  cases ns with
  | nil => rfl
  | cons n ns =>
    rw [List.flatMap_cons, List.length_append, length_descendants, length_flatMap_descendants, forestSize]

end

theorem size_le_forestSize {c : Node α} {ns : List (Node α)} (h : c ∈ ns) : c.size ≤ forestSize ns := by
  obtain ⟨xs, ys, rfl⟩ := List.append_of_mem h
  simp only [forestSize_append, forestSize]
  omega

/-- What passes from the children of a node to the node holds of all nodes. -/
@[elab_as_elim]
theorem inductionOnChildren {P : Node α → Prop} (step : ∀ n, (∀ c ∈ n.children, P c) → P n)
    (n : Node α) : P n := by
  apply step
  intro c hc
  have hSize : c.size < n.size := by
    have hLe := size_le_forestSize hc
    rw [size_eq_forestSize_children n]
    omega
  exact inductionOnChildren step c
termination_by n.size

theorem mem_descendants_self (n : Node α) : n ∈ n.descendants := by
  rw [descendants_eq_cons]
  exact List.mem_cons_self

theorem mem_descendants_iff {n m : Node α} :
    m ∈ n.descendants ↔ m = n ∨ ∃ c ∈ n.children, m ∈ c.descendants := by
  rw [descendants_eq_cons, List.mem_cons, List.mem_flatMap]

theorem mem_descendants_trans {k m n : Node α} (hk : k ∈ m.descendants) (hm : m ∈ n.descendants) :
    k ∈ n.descendants := by
  induction n using inductionOnChildren with
  | step n ih =>
    rcases mem_descendants_iff.mp hm with rfl | ⟨c, hc, hm⟩
    · exact hk
    · exact mem_descendants_iff.mpr (.inr ⟨c, hc, ih c hc hm⟩)

theorem size_le_of_mem_descendants {m n : Node α} (h : m ∈ n.descendants) : m.size ≤ n.size := by
  induction n using inductionOnChildren with
  | step n ih =>
    rcases mem_descendants_iff.mp h with rfl | ⟨c, hc, hm⟩
    · exact Nat.le_refl _
    · have hLe := size_le_forestSize hc
      have hChild := ih c hc hm
      rw [size_eq_forestSize_children n]
      omega

/-- A law holds of all nodes of a tree. -/
def All (P : Node α → Prop) (n : Node α) : Prop :=
  ∀ m ∈ n.descendants, P m

instance (P : Node α → Prop) [DecidablePred P] : DecidablePred (All P) :=
  fun n => inferInstanceAs (Decidable (∀ m ∈ n.descendants, P m))

theorem all_iff {P : Node α → Prop} {n : Node α} :
    n.All P ↔ P n ∧ ∀ c ∈ n.children, c.All P := by
  constructor
  · intro h
    refine ⟨h n n.mem_descendants_self, ?_⟩
    intro c hc m hm
    exact h m (mem_descendants_iff.mpr (.inr ⟨c, hc, hm⟩))
  · rintro ⟨hn, hChildren⟩ m hm
    rcases mem_descendants_iff.mp hm with rfl | ⟨c, hc, hm⟩
    · exact hn
    · exact hChildren c hc m hm

theorem All.of_mem {P : Node α → Prop} {n m : Node α} (h : n.All P) (hm : m ∈ n.descendants) :
    m.All P := by
  intro k hk
  exact h k (mem_descendants_trans hk hm)

def texts (n : Node α) : List String :=
  n.descendants.filterMap text?

def forestTexts (ns : List (Node α)) : List String :=
  ns.flatMap texts

@[simp] theorem texts_text (i : α) (s : String) : (text i s).texts = [s] := by
  rw [texts, descendants_eq_cons]
  rfl

@[simp] theorem texts_element (i : α) (t : String) (a : Attributes) (cs : List (Node α)) :
    (element i t a cs).texts = forestTexts cs := by
  rw [texts, descendants_eq_cons, List.filterMap_cons, forestTexts, children, List.filterMap_flatMap]
  rfl

@[simp] theorem forestTexts_nil : forestTexts ([] : List (Node α)) = [] := rfl

@[simp] theorem forestTexts_cons (n : Node α) (ns : List (Node α)) :
    forestTexts (n :: ns) = n.texts ++ forestTexts ns := rfl

@[simp] theorem forestTexts_append (xs ys : List (Node α)) :
    forestTexts (xs ++ ys) = forestTexts xs ++ forestTexts ys := by
  rw [forestTexts, List.flatMap_append]
  rfl

end PageRender.Node
