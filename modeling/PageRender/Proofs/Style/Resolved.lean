import PageRender.Proofs.Style.Winning

/-! # Resolved styles

In a styled tree nothing is left to be looked up. No value is the keyword and no font size is relative, so that a
size which nobody declares for an element is taken over from its parent as it stands, and is not scaled once more
on the way down. A text declares nothing at all: it has the inherited properties of its parent and no others.
-/

namespace PageRender

namespace Style

theorem IsComputed.items_ne_inherit {style : StyleMap} (h : IsComputed style) {e : String × String}
    (he : e ∈ style.items) : e.2 ≠ "inherit" := by
  obtain ⟨name, value⟩ := e
  rintro rfl
  exact h.noKeyword name ((StyleMap.mem_items_iff h.proper).mp he)

theorem IsComputed.exists_size {style : StyleMap} (h : IsComputed style) :
    ∃ size, style.get? "font-size" = some size ∧ IsAbsolute size := by
  obtain ⟨size, hSize⟩ := Option.isSome_iff_exists.mp (h.inherited ("font-size", "16px") (by decide))
  exact ⟨size, hSize, h.absolute size hSize⟩

/-! ## What a node has from its parent -/

theorem lookup_declared_of_undeclared {rules : List Rule} {above : List String} {tag : String}
    {attributes : Attributes} {name : String} (hNames : ∀ r ∈ rules, r.declarations.keys.Nodup)
    (hRules : ∀ r ∈ rules, r.sets above tag name = false) (hInline : inlineValue? attributes name = none) :
    (declared (Stylesheet.byPriority rules) above tag attributes).reverse.lookup name = none := by
  have hNone : (Stylesheet.byPriority rules).filter (·.sets above tag name) = [] :=
    List.filter_eq_nil_iff.mpr fun r hr => Bool.eq_false_iff.mp (hRules r (Stylesheet.mem_byPriority.mp hr))
  rw [lookup_declared (fun r hr => hNames r (Stylesheet.mem_byPriority.mp hr)), hInline, hNone]
  rfl

/-- A size that nobody declares is the one at the parent, which is absolute and is not resolved again. -/
theorem get?_ofElement_size {rules : List Rule} {style : StyleMap} (h : IsComputed style) {above : List String}
    {tag : String} {attributes : Attributes}
    (hUndeclared : (declared rules above tag attributes).reverse.lookup "font-size" = none) :
    (ofElement rules (some style) above tag attributes).get? "font-size" = style.get? "font-size" := by
  obtain ⟨size, hSize, hAbsolute⟩ := h.exists_size
  have hFrom : fromParent? (some style) "font-size" = some size := hSize
  have hInitial : initial? (some style) "font-size" = some size := by
    rw [initial?, hFrom]
    rfl
  have hKeyword : size ≠ "inherit" := fun hSame => h.noKeyword "font-size" (hSame ▸ hSize)
  rw [get?_ofElement, if_pos rfl, specified?, hUndeclared, Option.none_or, hInitial, Option.map_some,
    withoutKeyword, if_neg hKeyword, Option.getD_some, resolveFontSize_of_isAbsolute hAbsolute, hSize]

theorem map_fst_items_ofText (parent : Option StyleMap) :
    (ofText parent).items.map Prod.fst = inheritedDefaults.map Prod.fst := by
  rw [ofText, resolveSize, inherited]
  simp only [inheritedDefaults, List.map_cons, List.map_nil]
  -- The names that are set do not hang on the values, which would be evaluated otherwise.
  generalize resolveFontSize _ _ = size
  generalize (fromParent? parent "font-size").getD _ = inheritedSize
  generalize (fromParent? parent "font-style").getD _ = slant
  generalize (fromParent? parent "font-weight").getD _ = weight
  generalize (fromParent? parent "color").getD _ = color
  rfl

/-- A text has for every inherited property the value at its parent. -/
theorem get?_ofText_some {style : StyleMap} (h : IsComputed style) {e : String × String}
    (he : e ∈ inheritedDefaults) : (ofText (some style)).get? e.1 = style.get? e.1 := by
  have hAll : ∀ e ∈ inheritedDefaults, inheritedDefaults.lookup e.1 = some e.2 := by decide
  obtain ⟨value, hValue⟩ := Option.isSome_iff_exists.mp (h.inherited e he)
  have hFrom : fromParent? (some style) e.1 = some value := hValue
  rw [get?_ofText]
  split
  · rename_i hName
    rw [hName] at hFrom hValue
    rw [hFrom, Option.getD_some, resolveFontSize_of_isAbsolute (h.absolute value hValue), hName, hValue]
  · rw [hFrom, hAll e he, hValue]
    rfl

/-! ## Styled trees -/

/-- A styled tree has no keyword and no relative size left. A size that is not declared for an element is that of
the parent, and a text has the inherited properties with the values that its parent has. -/
theorem apply_isResolved (root : PageTree) (author user : String) :
    (∀ n ∈ (apply root author user).1.descendants,
      (∀ e ∈ n.info.style.items, e.2 ≠ "inherit") ∧
        ∃ size, n.info.style.get? "font-size" = some size ∧ IsAbsolute size) ∧
    (∀ parent above i t a cs, (parent :: above, .element i t a cs) ∈ (apply root author user).1.lineages [] →
      (∀ r ∈ (Stylesheet.parse (combinedSheet root author user)).1,
        r.sets (Node.tagsOf (parent :: above)) t "font-size" = false) →
      inlineValue? a "font-size" = none →
      i.style.get? "font-size" = parent.info.style.get? "font-size") ∧
    ∀ above i s, (above, .text i s) ∈ (apply root author user).1.lineages [] →
      i.style.items.map Prod.fst = ["font-size", "font-style", "font-weight", "color"] ∧
      ∀ parent ∈ above.head?, ∀ e ∈ i.style.items, parent.info.style.get? e.1 = some e.2 := by
  refine ⟨?_, ?_, ?_⟩
  · intro n hn
    rw [← Node.map_snd_lineages []] at hn
    obtain ⟨e, he, rfl⟩ := List.mem_map.mp hn
    have hComputed := (followsParent_apply he).isComputed
    exact ⟨fun _ => hComputed.items_ne_inherit, hComputed.exists_size⟩
  · intro parent above i t a cs h hRules hInline
    obtain ⟨hParent, hStyle⟩ := followsParent_apply h
    have hOwn : i.style = ofElement _ (some parent.info.style) _ t a := hStyle
    rw [hOwn]
    exact get?_ofElement_size (hParent _ rfl)
      (lookup_declared_of_undeclared Stylesheet.nodup_parse hRules hInline)
  · intro above i s h
    obtain ⟨hParent, hStyle⟩ := followsParent_apply h
    have hOwn : i.style = ofText (Node.parentStyle? above) := hStyle
    have hComputed : IsComputed i.style := hOwn ▸ isComputed_ofText hParent
    have hKeys : i.style.items.map Prod.fst = inheritedDefaults.map Prod.fst := by
      rw [hOwn]
      exact map_fst_items_ofText _
    refine ⟨hKeys, ?_⟩
    intro parent hFirst e he
    have hAbove : Node.parentStyle? above = some parent.info.style := by rw [Node.parentStyle?, hFirst]; rfl
    rw [hAbove] at hOwn hParent
    obtain ⟨d, hMem, hName⟩ := List.mem_map.mp (hKeys ▸ List.mem_map_of_mem he)
    rw [← hName, ← get?_ofText_some (hParent _ rfl) hMem, ← hOwn, hName]
    exact (StyleMap.mem_items_iff hComputed.proper).mp he

/-- A paragraph that declares no size, inside an element with a relative one. -/
def scaledParagraph : PageTree :=
  .element { id := 0 } "div" ⟨[("style", "font-size: 150%")]⟩ [
    .element { id := 1 } "p" ⟨[]⟩ [.text { id := 2 } "one"]]

/-- The paragraph takes the size of the element around it, and the text that of the paragraph. -/
theorem apply_isResolved_scaledParagraph :
    ∃ parent i j cs s, (apply scaledParagraph "" "").1 = parent ∧
      ([parent], .element i "p" ⟨[]⟩ cs) ∈ parent.lineages [] ∧
      ([.element i "p" ⟨[]⟩ cs, parent], .text j s) ∈ parent.lineages [] ∧
      (∃ size, parent.info.style.get? "font-size" = some size ∧ IsAbsolute size) ∧
      i.style.get? "font-size" = parent.info.style.get? "font-size" ∧
      ∀ e ∈ j.style.items, i.style.get? e.1 = some e.2 := by
  obtain ⟨hNodes, hElements, hTexts⟩ := apply_isResolved scaledParagraph "" ""
  have hMem : ∃ i j cs s,
      ([(apply scaledParagraph "" "").1], .element i "p" ⟨[]⟩ cs) ∈
        (apply scaledParagraph "" "").1.lineages [] ∧
      ([.element i "p" ⟨[]⟩ cs, (apply scaledParagraph "" "").1], .text j s) ∈
        (apply scaledParagraph "" "").1.lineages [] := by
    rw [apply_eq]
    exact ⟨_, _, _, _, List.mem_cons_of_mem _ List.mem_cons_self,
      List.mem_cons_of_mem _ (List.mem_cons_of_mem _ List.mem_cons_self)⟩
  obtain ⟨i, j, cs, s, hParagraph, hText⟩ := hMem
  have hTags : Node.tagsOf [(apply scaledParagraph "" "").1] = ["div"] := by
    rw [apply_eq]
    rfl
  have hRules : ∀ r ∈ (Stylesheet.parse (combinedSheet scaledParagraph "" "")).1,
      r.sets ["div"] "p" "font-size" = false := by
    have hEmbedded : embeddedSheet scaledParagraph = "" := by decide +kernel
    have hParse : (Stylesheet.parse ("" ++ "\n" ++ ("" ++ "\n" ++ ""))).1 = [] := by decide +kernel
    have hDefaults : ∀ r ∈ defaultBlocks.flatMap SheetBlock.rules, r.sets ["div"] "p" "font-size" = false := by
      decide +kernel
    rw [Stylesheet.rules_behind_defaults, hEmbedded, hParse, List.append_nil]
    exact hDefaults
  refine ⟨_, i, j, cs, s, rfl, hParagraph, hText, ?_, ?_, ?_⟩
  · exact (hNodes _ (Node.mem_descendants_self _)).2
  · exact hElements _ _ _ _ _ _ hParagraph (hTags ▸ hRules) (by decide +kernel)
  · exact (hTexts _ _ _ hText).2 _ rfl

end Style

end PageRender
