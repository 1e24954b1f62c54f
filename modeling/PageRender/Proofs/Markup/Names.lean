import PageRender.Markup.Tag
import PageRender.Proofs.OrderedMap
import PageRender.Proofs.Text.Folding

/-! # Names and attributes of a tag

What a tag is read as: a folded name and folded attribute names without blanks, every attribute
once, and no angle bracket in any of it when there was none in the text of the tag.
-/

namespace PageRender

section

variable (P : Char → Prop) [DecidablePred P] (cs : List Char)

-- To go through the characters of a text is cheaper than to go through all characters.
instance (priority := high) decidableForallChars : Decidable (∀ c ∈ cs, P c) :=
  List.decidableBAll P cs

instance (priority := high) decidableExistsChars : Decidable (∃ c ∈ cs, P c) :=
  List.decidableBEx P cs

end

namespace Tag

def BracketFree (cs : List Char) : Prop :=
  '<' ∉ cs ∧ '>' ∉ cs

theorem BracketFree.subset {cs ds : List Char} (h : BracketFree cs) (hSubset : ds ⊆ cs) :
    BracketFree ds :=
  ⟨fun hMem => h.1 (hSubset hMem), fun hMem => h.2 (hSubset hMem)⟩

/-- A name that folding leaves alone and that ends at a blank or a bracket. -/
structure IsName (s : String) : Prop where
  ne_empty : s ≠ ""
  folded : Text.foldCase s = s
  plain : ∀ c ∈ s.toList, Text.isBlank c = false ∧ c ≠ '<' ∧ c ≠ '>'

/-- The name of an element: it is not that of a closing tag or of a comment. -/
structure IsElementName (s : String) : Prop extends IsName s where
  opening : s.toList.head? ≠ some '/' ∧ s.toList.head? ≠ some '!'

structure IsAttributeName (s : String) : Prop extends IsName s where
  noEquals : '=' ∉ s.toList

/-- Attributes that stand once each, with no bracket in any value. -/
structure AreAttributes (a : Attributes) : Prop where
  distinct : (a.entries.map Prod.fst).Nodup
  names : ∀ e ∈ a.entries, IsAttributeName e.1
  values : ∀ e ∈ a.entries, BracketFree e.2.toList

instance (cs : List Char) : Decidable (BracketFree cs) :=
  inferInstanceAs (Decidable (_ ∧ _))

instance (s : String) : Decidable (IsName s) :=
  decidable_of_iff (s ≠ "" ∧ Text.foldCase s = s ∧ ∀ c ∈ s.toList, Text.isBlank c = false ∧ c ≠ '<' ∧ c ≠ '>')
    ⟨fun h => ⟨h.1, h.2.1, h.2.2⟩, fun h => ⟨h.ne_empty, h.folded, h.plain⟩⟩

instance (s : String) : Decidable (IsElementName s) :=
  decidable_of_iff (IsName s ∧ s.toList.head? ≠ some '/' ∧ s.toList.head? ≠ some '!')
    ⟨fun h => ⟨h.1, h.2⟩, fun h => ⟨h.toIsName, h.opening⟩⟩

instance (s : String) : Decidable (IsAttributeName s) :=
  decidable_of_iff (IsName s ∧ '=' ∉ s.toList) ⟨fun h => ⟨h.1, h.2⟩, fun h => ⟨h.toIsName, h.noEquals⟩⟩

instance (a : Attributes) : Decidable (AreAttributes a) :=
  decidable_of_iff ((a.entries.map Prod.fst).Nodup ∧ (∀ e ∈ a.entries, IsAttributeName e.1) ∧
      ∀ e ∈ a.entries, BracketFree e.2.toList)
    ⟨fun h => ⟨h.1, h.2.1, h.2.2⟩, fun h => ⟨h.distinct, h.names, h.values⟩⟩

theorem areAttributes_empty : AreAttributes .empty where
  distinct := List.nodup_nil
  names e h := by cases h
  values e h := by cases h

theorem AreAttributes.insert {a : Attributes} {name value : String} (h : AreAttributes a)
    (hName : IsAttributeName name) (hValue : BracketFree value.toList) :
    AreAttributes (a.insert name value) where
  distinct := OrderedMap.nodup_setEntry name value h.distinct
  names e he := by
    rcases OrderedMap.mem_setEntry he with rfl | he
    · exact hName
    · exact h.names e he
  values e he := by
    rcases OrderedMap.mem_setEntry he with rfl | he
    · exact hValue
    · exact h.values e he

theorem isName_foldCase {cs : List Char} (hNonempty : cs ≠ [])
    (hPlain : ∀ c ∈ cs, Text.isBlank c = false ∧ c ≠ '<' ∧ c ≠ '>') :
    IsName (Text.foldCase (String.ofList cs)) where
  ne_empty := Text.foldCase_ne_empty (by simpa using hNonempty)
  folded := Text.foldCase_foldCase _
  plain c hc := by
    have hBack := fun hLow => hPlain c (by simpa using Text.mem_of_mem_foldCase hc hLow)
    refine ⟨?_, ?_, ?_⟩
    · cases hBlank : Text.isBlank c with
      | false => rfl
      | true => rw [(hBack (.inl hBlank)).1] at hBlank; cases hBlank
    · rintro rfl
      exact (hBack (.inr (by decide))).2.1 rfl
    · rintro rfl
      exact (hBack (.inr (by decide))).2.2 rfl

theorem isAttributeName_foldCase {cs : List Char} (hNonempty : cs ≠ [])
    (hName : ∀ c ∈ cs, isNameChar c = true) (hPlain : BracketFree cs) :
    IsAttributeName (Text.foldCase (String.ofList cs)) where
  toIsName := by
    refine isName_foldCase hNonempty ?_
    intro c hc
    have hChar := hName c hc
    simp only [isNameChar, Bool.and_eq_true, Bool.not_eq_true'] at hChar
    exact ⟨hChar.2, fun hEq => hPlain.1 (hEq ▸ hc), fun hEq => hPlain.2 (hEq ▸ hc)⟩
  noEquals hc := by
    have hChar := hName '=' (by simpa using Text.mem_of_mem_foldCase hc (.inr (by decide)))
    cases hChar

theorem eq_false_of_dropWhile_eq {p : Char → Bool} {cs rest : List Char} {c : Char}
    (h : cs.dropWhile p = c :: rest) : p c = false := by
  have hHead := List.head?_dropWhile_not p cs
  rw [h] at hHead
  exact hHead

theorem cons_subset_of_dropWhile_eq {p : Char → Bool} {cs rest : List Char} {c : Char}
    (h : cs.dropWhile p = c :: rest) : c :: rest ⊆ cs := by
  rw [← h]
  exact (List.dropWhile_sublist p).subset

theorem readValue_subset (cs : List Char) : (readValue cs).1 ⊆ cs ∧ (readValue cs).2 ⊆ cs := by
  cases cs with
  | nil => exact ⟨List.Subset.refl _, List.Subset.refl _⟩
  | cons q cs =>
    rw [readValue]
    split
    · exact ⟨List.subset_cons_of_subset q (List.takeWhile_sublist _).subset,
        List.subset_cons_of_subset q
          ((List.drop_sublist 1 _).trans (List.dropWhile_sublist _)).subset⟩
    · exact ⟨(List.takeWhile_sublist _).subset, (List.dropWhile_sublist _).subset⟩

theorem isAttributeName_of_dropWhile_eq {cs rest : List Char} {c : Char}
    (hDrop : cs.dropWhile Text.isBlank = c :: rest) (hEquals : ¬(c == '=') = true)
    (hPlain : BracketFree cs) :
    IsAttributeName (Text.foldCase (String.ofList (c :: rest.takeWhile isNameChar))) := by
  have hSubset := cons_subset_of_dropWhile_eq hDrop
  apply isAttributeName_foldCase (List.cons_ne_nil _ _)
  · intro d hd
    rcases List.mem_cons.mp hd with rfl | hd
    · simp [isNameChar, eq_false_of_dropWhile_eq hDrop, bne, Bool.eq_false_iff.mpr hEquals]
    · exact List.all_eq_true.mp List.all_takeWhile d hd
  · exact hPlain.subset (List.Subset.trans
      (List.cons_subset_cons c (List.takeWhile_sublist _).subset) hSubset)

theorem areAttributes_readAttributes {found : Attributes} {cs : List Char} (h : AreAttributes found)
    (hPlain : BracketFree cs) : AreAttributes (readAttributes found cs) := by
  fun_induction readAttributes found cs with
  | case1 => exact h
  | case2 found cs c rest hDrop hEquals ih =>
    have hSubset := cons_subset_of_dropWhile_eq hDrop
    exact ih h (hPlain.subset (List.Subset.trans (List.subset_cons_self c rest) hSubset))
  | case3 found cs c rest hDrop hEquals name after hAfter value ih =>
    have hSubset := cons_subset_of_dropWhile_eq hDrop
    have hAfterSubset : after ⊆ cs :=
      List.Subset.trans (List.subset_cons_self '=' after)
        (List.Subset.trans (cons_subset_of_dropWhile_eq hAfter)
          (List.Subset.trans (List.subset_cons_self c rest) hSubset))
    have hValue := readValue_subset after
    apply ih
    · apply h.insert (isAttributeName_of_dropWhile_eq hDrop hEquals hPlain)
      rw [String.toList_ofList]
      exact hPlain.subset (List.Subset.trans hValue.1 hAfterSubset)
    · exact hPlain.subset (List.Subset.trans hValue.2 hAfterSubset)
  | case4 found cs c rest hDrop hEquals name hAfter ih =>
    have hSubset := cons_subset_of_dropWhile_eq hDrop
    apply ih
    · exact h.insert (isAttributeName_of_dropWhile_eq hDrop hEquals hPlain) ⟨by simp, by simp⟩
    · exact hPlain.subset (List.Subset.trans (List.dropWhile_sublist _).subset
        (List.Subset.trans (List.subset_cons_self c rest) hSubset))

theorem trim_subset (cs : List Char) : Text.trim cs ⊆ cs := by
  intro c hc
  rw [Text.trim, Text.trimStart, Text.trimStart, List.mem_reverse] at hc
  exact (List.dropWhile_sublist _).mem (List.mem_reverse.mp ((List.dropWhile_sublist _).mem hc))

theorem withoutSlash_subset (cs : List Char) : withoutSlash cs ⊆ cs := by
  rw [withoutSlash]
  split
  · exact List.Subset.trans (List.dropLast_sublist _).subset (trim_subset cs)
  · exact trim_subset cs

/-- What the text of a tag is read as, if it is neither empty nor a closing tag nor a comment. -/
theorem isElementName_read {cs : List Char} (hPlain : BracketFree cs) (hNonempty : (read cs).name ≠ "")
    (hOpening : (read cs).name.toList.head? ≠ some '/' ∧ (read cs).name.toList.head? ≠ some '!') :
    IsElementName (read cs).name where
  toIsName := by
    have hPlain := hPlain.subset (withoutSlash_subset cs)
    apply isName_foldCase
    · intro hEmpty
      apply hNonempty
      rw [read, hEmpty]
      rfl
    · intro c hc
      have hBlank := List.all_eq_true.mp List.all_takeWhile c hc
      have hMem := (List.takeWhile_sublist _).mem hc
      exact ⟨by simpa using hBlank, fun hEq => hPlain.1 (hEq ▸ hMem), fun hEq => hPlain.2 (hEq ▸ hMem)⟩
  opening := hOpening

theorem areAttributes_read {cs : List Char} (hPlain : BracketFree cs) :
    AreAttributes (read cs).attributes := by
  have hPlain := hPlain.subset (withoutSlash_subset cs)
  exact areAttributes_readAttributes areAttributes_empty
    (hPlain.subset (List.dropWhile_sublist _).subset)

end Tag

end PageRender
