import PageRender.Proofs.Markup.Reading

/-! # Laws of the nodes that are read

Whatever the source says, a text shows something, a void element is empty, the names and attributes
of an element are as a tag gives them, and only plain content holds an opening bracket. The laws
concern a node and its children alone, so they are kept while elements are closed, taken out and
opened again.
-/

namespace PageRender

namespace Node

/-- What is true of every node that is read. -/
def Lawful : Node Unit → Prop
  | text _ s => ∃ c ∈ s.toList, Text.isBlank c = false
  | element _ t a cs => Tag.IsElementName t ∧ Tag.AreAttributes a ∧ (t ∈ Tag.voidTags → cs = []) ∧
      (t ∉ Tag.rawTags → ∀ s, text () s ∈ cs → '<' ∉ s.toList)

end Node

namespace Tag

theorem isElementName_html : IsElementName "html" :=
  ⟨⟨by decide, by decide +kernel, by decide⟩, by decide⟩

theorem isElementName_head : IsElementName "head" :=
  ⟨⟨by decide, by decide +kernel, by decide⟩, by decide⟩

theorem isElementName_body : IsElementName "body" :=
  ⟨⟨by decide, by decide +kernel, by decide⟩, by decide⟩

theorem isElementName_of_isSection {t : String} (h : Markup.IsSection t) : IsElementName t := by
  rcases h with rfl | rfl
  · exact isElementName_head
  · exact isElementName_body

theorem notMem_voidTags_of_isSection {t : String} (h : Markup.IsSection t) : t ∉ voidTags := by
  rcases h with rfl | rfl <;> decide

end Tag

namespace OpenElement

/-- What is true of every open element, and of the nodes in it. -/
structure Lawful (e : OpenElement) : Prop where
  name : Tag.IsElementName e.tag
  attributes : Tag.AreAttributes e.attributes
  filled : e.tag ∉ Tag.voidTags
  plain : e.tag ∉ Tag.rawTags → ∀ s, .text () s ∈ e.children → '<' ∉ s.toList
  below : ∀ n ∈ e.children, n.All Node.Lawful

namespace Lawful

variable {e : OpenElement}

theorem empty {t : String} {a : Attributes} (hName : Tag.IsElementName t)
    (hAttributes : Tag.AreAttributes a) (hVoid : t ∉ Tag.voidTags) : Lawful ⟨t, a, []⟩ where
  name := hName
  attributes := hAttributes
  filled := hVoid
  plain _ _ h := by cases h
  below _ h := by cases h

theorem add {n : Node Unit} (h : e.Lawful) (hNode : n.All Node.Lawful)
    (hPlain : e.tag ∉ Tag.rawTags → ∀ s, n = .text () s → '<' ∉ s.toList) : (e.add n).Lawful where
  name := h.name
  attributes := h.attributes
  filled := h.filled
  plain hRaw s hs := by
    rcases List.mem_append.mp hs with hs | hs
    · exact h.plain hRaw s hs
    · exact hPlain hRaw s (List.mem_singleton.mp hs).symm
  below m hm := by
    rcases List.mem_append.mp hm with hm | hm
    · exact h.below m hm
    · exact List.mem_singleton.mp hm ▸ hNode

theorem add_element {t : String} {a : Attributes} {cs : List (Node Unit)} (h : e.Lawful)
    (hNode : (Node.element () t a cs).All Node.Lawful) : (e.add (.element () t a cs)).Lawful :=
  h.add hNode (fun _ _ hEq => by cases hEq)

theorem close (h : e.Lawful) : e.close.All Node.Lawful :=
  Node.all_iff.mpr ⟨⟨h.name, h.attributes, fun hVoid => absurd hVoid h.filled, h.plain⟩, h.below⟩

theorem of_all {i : Unit} {t : String} {a : Attributes} {cs : List (Node Unit)}
    (h : (Node.element i t a cs).All Node.Lawful) (hVoid : t ∉ Tag.voidTags) : Lawful ⟨t, a, cs⟩ := by
  obtain ⟨⟨hName, hAttributes, -, hPlain⟩, hBelow⟩ := Node.all_iff.mp h
  exact ⟨hName, hAttributes, hVoid, hPlain, hBelow⟩

theorem sublist {cs : List (Node Unit)} (h : e.Lawful) (hSublist : cs.Sublist e.children) :
    Lawful { e with children := cs } where
  name := h.name
  attributes := h.attributes
  filled := h.filled
  plain hRaw s hs := h.plain hRaw s (hSublist.mem hs)
  below n hn := h.below n (hSublist.mem hn)

end Lawful

theorem all_lawful_bare {t : String} (h : Markup.IsSection t) : (Node.bare t).All Node.Lawful :=
  (Lawful.empty (Tag.isElementName_of_isSection h) Tag.areAttributes_empty
    (Tag.notMem_voidTags_of_isSection h)).close

theorem Lawful.opened {e : OpenElement} {t : String} {a : Attributes} (h : e.Lawful)
    (hSection : Markup.IsSection t) (hAttributes : Tag.AreAttributes a) : (e.opened t a).Lawful := by
  have hVoid := Tag.notMem_voidTags_of_isSection hSection
  rw [OpenElement.opened]
  cases hChild : e.child? t with
  | none => exact .empty (Tag.isElementName_of_isSection hSection) hAttributes hVoid
  | some n =>
    have hNode := h.below n (List.mem_of_find?_eq_some hChild)
    have hTag := hasTag_iff.mp (List.find?_some hChild)
    cases n with
    | text => cases hTag
    | element i t' a' cs =>
      have hName : t' = t := by simpa [Node.tag?] using hTag
      subst hName
      exact .of_all hNode hVoid

theorem Lawful.without {e : OpenElement} {t : String} (h : e.Lawful) : (e.without t).Lawful := by
  rw [OpenElement.without]
  split
  · exact h.sublist List.eraseP_sublist
  · split
    · exact h.add_element (all_lawful_bare (.inl rfl))
    · exact h

end OpenElement

namespace Markup

open OpenElement

theorem Move.lawful {s s' : List OpenElement} {l : Effect} (h : ∀ e ∈ s, e.Lawful)
    (hMove : Move s l s') : ∀ e ∈ s', e.Lawful := by
  cases hMove with
  | root hAttributes =>
    rw [List.forall_mem_singleton]
    exact .empty Tag.isElementName_html hAttributes (by decide)
  | text hShown hPlain =>
    rw [List.forall_mem_cons] at h ⊢
    refine ⟨h.1.add (Node.all_iff.mpr ⟨hShown, by simp [Node.children]⟩) ?_, h.2⟩
    rintro hRaw s hs
    cases hs
    exact hPlain.resolve_right hRaw
  | void hVoid hName hAttributes =>
    rw [List.forall_mem_cons] at h ⊢
    refine ⟨h.1.add_element (Node.all_iff.mpr ⟨?_, by simp [Node.children]⟩), h.2⟩
    exact ⟨hName, hAttributes, fun _ => rfl, by simp⟩
  | push hVoid _ hName hAttributes =>
    exact List.forall_mem_cons.mpr ⟨.empty hName hAttributes hVoid, h⟩
  | section_ _ hSection hAttributes =>
    rw [List.forall_mem_cons] at h
    rw [List.forall_mem_cons, List.forall_mem_cons]
    exact ⟨h.1.opened hSection hAttributes, h.1.without, h.2⟩
  | close =>
    rw [List.forall_mem_cons, List.forall_mem_cons] at h
    rw [List.forall_mem_cons]
    exact ⟨h.2.1.add_element h.1.close, h.2.2⟩

theorem Moves.lawful {s s' : List OpenElement} {ls : List Effect} (h : ∀ e ∈ s, e.Lawful)
    (hMoves : Moves s ls s') : ∀ e ∈ s', e.Lawful :=
  hMoves.keep (P := fun s => ∀ e ∈ s, e.Lawful) (fun _ _ _ h hMove => hMove.lawful h) h

end Markup

end PageRender
