import Mathlib.Data.List.Chain
import PageRender.Proofs.Markup.Descendants

/-! # Adjacent texts

Markup cannot tell two adjacent texts from one. A tree is compared with what is read back after its
adjacent texts are joined and its annotations are left out.
-/

namespace PageRender.Node

variable {α β : Type}

/-- One node in front of others; of two texts one is made. -/
def joinCons : Node Unit → List (Node Unit) → List (Node Unit)
  | text _ s, text _ s' :: ns => text () (s ++ s') :: ns
  | n, ns => n :: ns

mutual

/-- A tree without its annotations, in which adjacent texts are one. -/
def joined : Node α → Node Unit
  | text _ s => text () s
  | element _ t a cs => element () t a (joinedForest cs)

def joinedForest : List (Node α) → List (Node Unit)
  | [] => []
  | n :: ns => joinCons n.joined (joinedForest ns)

end

theorem joinCons_element (i : Unit) (t : String) (a : Attributes) (cs ns : List (Node Unit)) :
    joinCons (element i t a cs) ns = element i t a cs :: ns := by
  cases ns <;> rfl

theorem joinCons_text_text (s s' : String) (ns : List (Node Unit)) :
    joinCons (text () s) (joinCons (text () s') ns) = joinCons (text () (s ++ s')) ns := by
  cases ns with
  | nil => rfl
  | cons n ns =>
    cases n with
    | text i s'' => simp [joinCons, String.append_assoc]
    | element => rfl

theorem joinedForest_joinCons {n : Node Unit} (hNode : n.joined = n) (ns : List (Node Unit)) :
    joinedForest (joinCons n ns) = joinCons n (joinedForest ns) := by
  cases n with
  | element i t a cs => rw [joinCons_element, joinedForest, hNode]
  | text i s =>
    cases ns with
    | nil => rfl
    | cons m ns =>
      cases m with
      | element => rw [joinCons, joinedForest, hNode]
                   simp
      | text i' s' => rw [joinCons, joinedForest, joinedForest, joined, joined, joinCons_text_text]

mutual

theorem joined_joined (n : Node α) : n.joined.joined = n.joined := by
  cases n with
  | text => rfl
  | element i t a cs => rw [joined, joined, joinedForest_joinedForest]

theorem joinedForest_joinedForest (ns : List (Node α)) :
    joinedForest (joinedForest ns) = joinedForest ns := by
  cases ns with
  | nil => rfl
  | cons n ns =>
    rw [joinedForest, joinedForest_joinCons (joined_joined n), joinedForest_joinedForest]

end

/-- The text of the characters that are held in reverse, if there are any. -/
def pending (held : List Char) : List (Node Unit) :=
  if held.isEmpty then [] else [text () (String.ofList held.reverse)]

@[simp] theorem pending_nil : pending [] = [] := rfl

theorem pending_of_ne_nil {held : List Char} (h : held ≠ []) :
    pending held = [text () (String.ofList held.reverse)] := by
  rw [pending, if_neg (by simpa using h)]

theorem joinedForest_pending (held : List Char) : joinedForest (pending held) = pending held := by
  rw [pending]
  split <;> rfl

theorem joinedForest_pending_text {held : List Char} {i : Unit} {s : String} {ns : List (Node Unit)}
    (hText : s ≠ "") : joinedForest (pending held ++ text i s :: ns) =
      joinedForest (pending (s.toList.reverse ++ held) ++ ns) := by
  have hNonempty : s.toList.reverse ++ held ≠ [] := by
    intro hNil
    have hReverse := (List.append_eq_nil_iff.mp hNil).1
    exact hText (String.toList_eq_nil_iff.mp (List.reverse_eq_nil_iff.mp hReverse))
  rw [pending_of_ne_nil hNonempty, List.reverse_append, List.reverse_reverse, String.ofList_append,
    String.ofList_toList, List.singleton_append]
  by_cases hHeld : held = []
  · subst hHeld
    rw [pending_nil, List.nil_append, List.reverse_nil, String.ofList_nil, String.empty_append]
  · rw [pending_of_ne_nil hHeld, List.singleton_append, joinedForest, joinedForest, joinedForest]
    exact joinCons_text_text _ _ _

theorem joinedForest_pending_element (held : List Char) (i : Unit) (t : String) (a : Attributes)
    (cs ns : List (Node Unit)) : joinedForest (pending held ++ element i t a cs :: ns) =
      pending held ++ element () t a (joinedForest cs) :: joinedForest ns := by
  rw [pending]
  split
  · rw [List.nil_append, List.nil_append, joinedForest, joined, joinCons_element]
  · rw [List.singleton_append, List.singleton_append, joinedForest, joinedForest, joined, joined,
      joinCons_element]
    rfl

/-- No text stands next to another one, right below a node. -/
def Separate (n : Node Unit) : Prop :=
  n.children.IsChain fun c c' => c.tag? ≠ none ∨ c'.tag? ≠ none

theorem joinCons_eq_cons {n : Node Unit} {ns : List (Node Unit)}
    (h : ∀ m ∈ ns.head?, n.tag? ≠ none ∨ m.tag? ≠ none) : joinCons n ns = n :: ns := by
  cases n with
  | element => exact joinCons_element _ _ _ _ _
  | text =>
    cases ns with
    | nil => rfl
    | cons m ns =>
      cases m with
      | element => rfl
      | text =>
        rcases h _ rfl with hTag | hTag
        · exact absurd rfl hTag
        · exact absurd rfl hTag

theorem joinedForest_eq_self {ns : List (Node Unit)} (hNodes : ∀ n ∈ ns, n.joined = n)
    (hChain : ns.IsChain fun c c' => c.tag? ≠ none ∨ c'.tag? ≠ none) : joinedForest ns = ns := by
  induction ns with
  | nil => rfl
  | cons n ns ih =>
    rw [List.forall_mem_cons] at hNodes
    rw [joinedForest, hNodes.1, ih hNodes.2 hChain.of_cons]
    apply joinCons_eq_cons
    intro m hm
    cases ns with
    | nil => cases hm
    | cons m' ns =>
      cases hm
      exact (List.isChain_cons_cons.mp hChain).1

theorem joined_eq_self {n : Node Unit} (h : n.All Separate) : n.joined = n := by
  induction n using inductionOnChildren with
  | step n ih =>
    obtain ⟨hSeparate, hChildren⟩ := all_iff.mp h
    cases n with
    | text => rfl
    | element i t a cs =>
      have hSelf : joinedForest cs = cs :=
        joinedForest_eq_self (fun c hc => ih c hc (hChildren c hc)) hSeparate
      rw [joined, hSelf]

end PageRender.Node
