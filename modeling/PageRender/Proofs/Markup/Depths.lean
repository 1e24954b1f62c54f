import PageRender.Proofs.Markup.Rereading

/-! # Depths

The depths of the nodes in the body, added up over the open elements and what is in them. To close an
element or to open a section again leaves the sum alone, so only what is added counts, and it counts
less where fewer elements are open.
-/

namespace PageRender

namespace Node

variable {α : Type}

mutual

/-- The depths of the nodes of a tree whose root has the depth `k`. -/
def depths (k : Nat) : Node α → Nat
  | text _ _ => k
  | element _ _ _ cs => k + forestDepths (k + 1) cs

def forestDepths (k : Nat) : List (Node α) → Nat
  | [] => 0
  | n :: ns => n.depths k + forestDepths k ns

end

theorem forestDepths_append (k : Nat) (ns ms : List (Node α)) :
    forestDepths k (ns ++ ms) = forestDepths k ns + forestDepths k ms := by
  induction ns with
  | nil => rw [List.nil_append, forestDepths, Nat.zero_add]
  | cons n ns ih => rw [List.cons_append, forestDepths, forestDepths, ih, Nat.add_assoc]

theorem forestDepths_singleton (k : Nat) (n : Node α) : forestDepths k [n] = n.depths k := rfl

/-- The nodes inside the bodies among some nodes. -/
def bodyNodes (ns : List (Node α)) : List (Node α) :=
  (ns.filter (hasTag "body")).flatMap children

theorem bodyNodes_append (ns ms : List (Node α)) : bodyNodes (ns ++ ms) = bodyNodes ns ++ bodyNodes ms := by
  rw [bodyNodes, List.filter_append, List.flatMap_append]
  rfl

theorem bodyNodes_element (i : α) (t : String) (a : Attributes) (cs : List (Node α)) :
    bodyNodes [element i t a cs] = if t = "body" then cs else [] := by
  simp only [bodyNodes, hasTag, tag?, List.filter_cons, List.filter_nil]
  by_cases h : t = "body" <;> simp [h, children]

end Node

namespace Markup

open OpenElement Node

/-- Only the outermost open element is an `html` element, and none has plain content. -/
inductive Single : List OpenElement → Prop
  | root {e : OpenElement} (h : e.tag = "html") : Single [e]
  | inner {e e' : OpenElement} {rest : List OpenElement} (hTag : e.tag ≠ "html")
      (hPlain : e.tag ∉ Tag.rawTags) (h : Single (e' :: rest)) : Single (e :: e' :: rest)

/-- Whether the body is open. -/
def inBody : List OpenElement → Bool
  | [] => false
  | [_] => false
  | [e, _] => e.tag == "body"
  | _ :: e :: e' :: rest => inBody (e :: e' :: rest)

/-- The depths of the nodes in the body, the open ones among them. -/
def stackDepths : List OpenElement → Nat
  | [] => 0
  | [root] => forestDepths 1 (bodyNodes root.children)
  | e :: e' :: rest =>
    (if inBody (e :: e' :: rest) then rest.length + forestDepths (rest.length + 1) e.children else 0) +
      stackDepths (e' :: rest)

variable {e e' root : OpenElement} {rest : List OpenElement}

theorem inBody_cons (e e' e'' : OpenElement) (rest : List OpenElement) :
    inBody (e :: e' :: e'' :: rest) = inBody (e' :: e'' :: rest) := rfl

theorem stackDepths_cons (e e' : OpenElement) (rest : List OpenElement) :
    stackDepths (e :: e' :: rest) =
      (if inBody (e :: e' :: rest) then rest.length + forestDepths (rest.length + 1) e.children else 0) +
        stackDepths (e' :: rest) := by
  rw [stackDepths]

theorem inBody_of_tag_eq (h : e.tag = root.tag) (rest : List OpenElement) :
    inBody (e :: rest) = inBody (root :: rest) := by
  match rest with
  | [] => rfl
  | [_] => simp only [inBody, h]
  | _ :: _ :: _ => rfl

theorem single_of_tag_eq (h : e.tag = root.tag) (hSingle : Single (e :: rest)) :
    Single (root :: rest) := by
  cases hSingle with
  | root hTag => exact .root (h.symm.trans hTag)
  | inner hTag hPlain hRest => exact .inner (h ▸ hTag) (h ▸ hPlain) hRest

theorem Single.exists_cons {s : List OpenElement} (h : Single s) : ∃ e rest, s = e :: rest := by
  cases h with
  | root => exact ⟨_, _, rfl⟩
  | inner => exact ⟨_, _, rfl⟩

theorem Single.root_tag (h : Single [root]) : root.tag = "html" := by
  cases h with
  | root hTag => exact hTag

theorem Single.plain (h : Single (e :: rest)) : e.tag ∉ Tag.rawTags := by
  cases h with
  | root hTag =>
    rw [hTag]
    decide
  | inner _ hPlain _ => exact hPlain

theorem Single.tag_ne (h : Single (e :: e' :: rest)) : e.tag ≠ "html" := by
  cases h with
  | inner hTag _ _ => exact hTag

theorem Single.tail (h : Single (e :: e' :: rest)) : Single (e' :: rest) := by
  cases h with
  | inner _ _ hRest => exact hRest

/-- A node that is added counts with the depth at which it is added. -/
theorem stackDepths_add (e e' : OpenElement) (rest : List OpenElement) (n : Node Unit) : stackDepths (e.add n :: e' :: rest) =
    stackDepths (e :: e' :: rest) + if inBody (e :: e' :: rest) then n.depths (rest.length + 1) else 0 := by
  have hTag : (e.add n).tag = e.tag := rfl
  have hInBody := inBody_of_tag_eq hTag (e' :: rest)
  rw [stackDepths, stackDepths, hInBody]
  cases inBody (e :: e' :: rest) with
  | false => simp
  | true =>
    simp only [if_true, add, forestDepths_append, forestDepths_singleton]
    omega

theorem stackDepths_close (e e' : OpenElement) (rest : List OpenElement) :
    stackDepths (e'.add e.close :: rest) = stackDepths (e :: e' :: rest) := by
  cases rest with
  | nil =>
    rw [stackDepths, stackDepths, stackDepths, add, bodyNodes_append, close, bodyNodes_element, inBody,
      forestDepths_append]
    by_cases hTag : e.tag = "body"
    · simp [hTag, Nat.add_comm]
    · simp [hTag, forestDepths]
  | cons e'' rest =>
    have hDepths : e.close.depths (rest.length + 1) =
        (e'' :: rest).length + forestDepths ((e'' :: rest).length + 1) e.children := rfl
    rw [stackDepths_add, stackDepths_cons e, inBody_cons, hDepths, Nat.add_comm]

theorem stackDepths_push (t : String) (a : Attributes) (e e' : OpenElement) (rest : List OpenElement) :
    stackDepths (⟨t, a, []⟩ :: e :: e' :: rest) =
      stackDepths (e :: e' :: rest) + if inBody (e :: e' :: rest) then rest.length + 1 else 0 := by
  rw [stackDepths_cons, inBody_cons, Nat.add_comm]
  rfl

theorem stackDepths_section (root : OpenElement) {t : String} (a : Attributes) (h : IsSection t) :
    stackDepths [root.opened t a, root.without t] = stackDepths [root] := by
  rw [stackDepths, stackDepths, stackDepths, inBody, opened_tag, List.length_nil, Nat.zero_add, Nat.zero_add]
  cases hChild : root.child? t with
  | some n =>
    obtain ⟨before, hChildren, -, hWithout, -⟩ := opened_of_child? a hChild
    rw [hWithout, hChildren, ← List.singleton_append (l := root.after t), bodyNodes_append,
      bodyNodes_append, bodyNodes_append, close, bodyNodes_element, opened_tag]
    simp only [forestDepths_append]
    rcases h with rfl | rfl
    · simp [forestDepths]
    · simp
      omega
  | none =>
    obtain ⟨hOpened, hWithout⟩ := opened_of_child?_eq_none a hChild
    have hHead : bodyNodes [Node.bare "head"] = [] := rfl
    rw [hOpened, hWithout, bodyNodes_append, forestDepths_append]
    split <;> split <;> simp [forestDepths, hHead] <;> rfl

theorem single_section {root : OpenElement} {t : String} (a : Attributes) (h : Single [root])
    (hSection : IsSection t) : Single [root.opened t a, root.without t] := by
  refine .inner ?_ ?_ (.root ((without_tag root t).trans h.root_tag))
  · rw [opened_tag]
    rcases hSection with rfl | rfl <;> decide
  · rw [opened_tag]
    rcases hSection with rfl | rfl <;> decide

theorem pop_depths {b : Builder} (h : Single b.stack) :
    Single b.pop.stack ∧ stackDepths b.pop.stack = stackDepths b.stack ∧
      b.pop.stack.length = max 1 (b.stack.length - 1) := by
  obtain ⟨stack, f⟩ := b
  match stack with
  | [] => cases h
  | [_] => exact ⟨h, rfl, rfl⟩
  | e :: e' :: rest =>
    rw [Builder.pop_mk]
    refine ⟨single_of_tag_eq (e := e') rfl h.tail, stackDepths_close e e' rest, ?_⟩
    simp only [List.length_cons]
    omega

section Settling

variable {b b' : Builder} {tag : Option String}

theorem implied?_depths (h : b.implied? tag = some b') (hSingle : Single b.stack) :
    Single b'.stack ∧ stackDepths b'.stack = stackDepths b.stack := by
  have hTurn := Builder.turn_of_implied? h
  generalize b.stack = stack at hTurn hSingle ⊢
  generalize b'.stack = stack' at hTurn ⊢
  cases hTurn with
  | root => cases hSingle
  | @opening root =>
    have hSection := isSection_impliedSection root tag
    exact ⟨single_section .empty hSingle hSection, stackDepths_section root .empty hSection⟩
  | @closing s root =>
    obtain ⟨hPop, hDepths, -⟩ := pop_depths (b := ⟨[s, root], []⟩) hSingle
    exact ⟨hPop, hDepths⟩

theorem settle_depths (b : Builder) (tag : Option String) (hSingle : Single b.stack) :
    Single (b.settle tag).stack ∧ stackDepths (b.settle tag).stack = stackDepths b.stack := by
  have hSettles := Builder.settles_settle b tag
  generalize b.settle tag = b' at hSettles
  induction hSettles with
  | done => exact ⟨hSingle, rfl⟩
  | turn hTurn _ ih =>
    obtain ⟨hSingle', hDepths⟩ := implied?_depths hTurn hSingle
    rw [← hDepths]
    exact ih hSingle'

theorem settle_of_two_lt (h : 2 < b.stack.length) : b.settle tag = b := by
  obtain ⟨stack, f⟩ := b
  match stack with
  | e :: e' :: e'' :: rest => exact Builder.settle_mk_deep e e' e'' rest f tag

theorem length_settle_le (b : Builder) (tag : Option String) :
    (b.settle tag).stack.length ≤ max 2 b.stack.length := by
  by_cases hDeep : 2 < (b.settle tag).stack.length
  · have hSame := (Builder.settles_settle b tag).eq_of_two_lt hDeep
    rw [hSame]
    omega
  · omega

/-- A section is open after the turns, unless the tag may stand in the root. -/
theorem exists_settle_stack (hSingle : Single b.stack) (hTag : Builder.standsInRoot tag = false) :
    ∃ e e' rest, (b.settle tag).stack = e :: e' :: rest := by
  obtain ⟨-, -, -, hRest⟩ := settle_moves b tag
  obtain ⟨hSettled, -⟩ := settle_depths b tag hSingle
  generalize b.settle tag = b' at hRest hSettled ⊢
  obtain ⟨stack, f⟩ := b'
  match stack with
  | [] => cases hSettled
  | [root] =>
    rw [Builder.implied?_root hSettled.root_tag hTag] at hRest
    cases hRest
  | e :: e' :: rest => exact ⟨e, e', rest, rfl⟩

end Settling

end Markup

end PageRender
