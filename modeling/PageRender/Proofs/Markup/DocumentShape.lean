import PageRender.Proofs.Markup.Lawful

/-! # The shape of a document

The root of what was read holds at most one head and one body; the end of the text adds what is
missing and puts the head first.
-/

namespace PageRender.Markup

open OpenElement

theorem areSections_cases {ts : List (Option String)} (h : AreSections ts) :
    ts = [] ∨ ts = [some "head"] ∨ ts = [some "body"] ∨ ts = [some "head", some "body"] ∨
      ts = [some "body", some "head"] := by
  obtain ⟨hDistinct, hTags⟩ := h
  match ts with
  | [] => exact .inl rfl
  | [t] =>
    rcases hTags t (by simp) with rfl | rfl
    · exact .inr (.inl rfl)
    · exact .inr (.inr (.inl rfl))
  | t :: u :: rest =>
    have hTwo : ∀ v ∈ rest, v ≠ t ∧ v ≠ u := by
      simp only [List.nodup_cons, List.mem_cons, not_or] at hDistinct
      intro v hv
      exact ⟨fun hEq => hDistinct.1.2 (hEq ▸ hv), fun hEq => hDistinct.2.1 (hEq ▸ hv)⟩
    have hRest : rest = [] := by
      rw [List.eq_nil_iff_forall_not_mem]
      intro v hv
      obtain ⟨hvt, hvu⟩ := hTwo v hv
      have hut : t ≠ u := by
        simp only [List.nodup_cons, List.mem_cons, not_or] at hDistinct
        exact hDistinct.1.1
      rcases hTags t (by simp) with rfl | rfl <;> rcases hTags u (by simp) with rfl | rfl <;>
        rcases hTags v (by simp [hv]) with rfl | rfl <;> simp at hut hvt hvu
    subst hRest
    simp only [List.nodup_cons, List.mem_singleton] at hDistinct
    rcases hTags t (by simp) with rfl | rfl <;> rcases hTags u (by simp) with rfl | rfl <;>
      simp at hDistinct ⊢

/-- A section of an element, or an empty one. -/
def section? (e : OpenElement) (tag : String) : Node Unit :=
  (e.child? tag).getD (.bare tag)

theorem tag?_bare (tag : String) : (Node.bare tag).tag? = some tag := rfl

/-- The end of a text leaves exactly a head and a body in the root, the head first. -/
theorem completeRoot_eq {root : OpenElement} (h : AreSections root.childTags) :
    Builder.completeRoot root =
      .element () root.tag root.attributes [section? root "head", section? root "body"] := by
  obtain ⟨t, a, cs⟩ := root
  rcases areSections_cases h with hTags | hTags | hTags | hTags | hTags
  all_goals
    simp only [childTags, List.map_eq_cons_iff, List.map_eq_nil_iff] at hTags
  · subst hTags
    rfl
  · obtain ⟨n, ns, rfl, hHead, rfl⟩ := hTags
    simp [Builder.completeRoot, section?, child?, Node.hasTag, hHead, add, tag?_bare]
  · obtain ⟨n, ns, rfl, hBody, rfl⟩ := hTags
    simp [Builder.completeRoot, section?, child?, Node.hasTag, hBody, add, tag?_bare]
  · obtain ⟨n, ns, rfl, hHead, m, ms, rfl, hBody, rfl⟩ := hTags
    simp [Builder.completeRoot, section?, child?, Node.hasTag, hHead, hBody]
  · obtain ⟨n, ns, rfl, hBody, m, ms, rfl, hHead, rfl⟩ := hTags
    simp [Builder.completeRoot, section?, child?, Node.hasTag, hHead, hBody]

theorem finish_sections {a : Attributes} {h b : Node Unit} (hHead : h.tag? = some "head")
    (hBody : b.tag? = some "body") (f : List (Nat × Finding)) :
    Builder.finish ⟨[⟨"html", a, [h, b]⟩], f⟩ = .element () "html" a [h, b] := by
  have hSections : AreSections (OpenElement.childTags ⟨"html", a, [h, b]⟩) := by
    simp [AreSections, childTags, hHead, hBody]
  have hFinish : Builder.finish ⟨[⟨"html", a, [h, b]⟩], f⟩ =
      Builder.completeRoot ⟨"html", a, [h, b]⟩ := by
    simp [Builder.finish, Builder.closeAll]
  rw [hFinish, completeRoot_eq hSections]
  simp [section?, child?, Node.hasTag, hHead, hBody]

/-- A document: a head and a body in an `html` element, and every node of it lawful. -/
structure IsDocument (n : Node Unit) : Prop where
  shape : ∃ a h b, n = .element () "html" a [h, b] ∧ h.tag? = some "head" ∧ b.tag? = some "body"
  lawful : n.All Node.Lawful

theorem section?_spec {root : OpenElement} {tag : String} (h : root.Lawful) (hSection : IsSection tag) :
    (section? root tag).tag? = some tag ∧ (section? root tag).All Node.Lawful := by
  rw [section?]
  cases hChild : root.child? tag with
  | none => exact ⟨rfl, all_lawful_bare hSection⟩
  | some n =>
    exact ⟨hasTag_iff.mp (List.find?_some hChild), h.below n (List.mem_of_find?_eq_some hChild)⟩

theorem isDocument_completeRoot {root : OpenElement} (hRooted : Rooted [root]) (h : root.Lawful) :
    IsDocument (Builder.completeRoot root) := by
  obtain ⟨hTag, hSections⟩ := hRooted
  obtain ⟨hHead, hHeadLawful⟩ := section?_spec h (.inl rfl)
  obtain ⟨hBody, hBodyLawful⟩ := section?_spec h (.inr rfl)
  rw [completeRoot_eq hSections, hTag]
  refine ⟨⟨root.attributes, _, _, rfl, hHead, hBody⟩, Node.all_iff.mpr ⟨?_, ?_⟩⟩
  · refine ⟨Tag.isElementName_html, h.attributes, fun hVoid => absurd hVoid (by decide), ?_⟩
    intro _ s hs
    rcases List.mem_cons.mp hs with hs | hs
    · rw [← hs] at hHead
      cases hHead
    · rw [← List.mem_singleton.mp hs] at hBody
      cases hBody
  · intro c hc
    rcases List.mem_cons.mp hc with rfl | hc
    · exact hHeadLawful
    · exact List.mem_singleton.mp hc ▸ hBodyLawful

/-- The root that is left on the stack when a text has been read. -/
theorem exists_root (source : String) :
    ∃ root ls, Moves (read {} false [] source.toList).stack ls [root] ∧ Quiet ls ∧
      Builder.closeAll (ended (read {} false [] source.toList)).stack = some root ∧
      (parse source).root = Builder.completeRoot root ∧ Rooted [root] ∧ root.Lawful := by
  obtain ⟨hRooted, hLawful⟩ := read_keep (P := fun s => ∀ e ∈ s, e.Lawful)
    (fun _ _ _ _ h hMove => hMove.lawful h) (by simp) source.toList
  obtain ⟨root, ls, hMoves, hQuiet, hRoot, hFinish⟩ := finish_moves hRooted
  exact ⟨root, ls, hMoves, hQuiet, hRoot, hFinish, hMoves.rooted hRooted,
    hMoves.lawful hLawful root List.mem_cons_self⟩

theorem isDocument_parse (source : String) : IsDocument (parse source).root := by
  obtain ⟨root, ls, -, -, -, hParse, hRooted, hLawful⟩ := exists_root source
  rw [hParse]
  exact isDocument_completeRoot hRooted hLawful

end PageRender.Markup
