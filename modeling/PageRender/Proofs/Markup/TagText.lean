import PageRender.Proofs.Markup.Attributes

/-! # Tags are read as they are written

A tag is written as its name and, after one blank each, its attributes. If no value holds a quotation
mark and the text does not end in a slash, the tag that was written is read.
-/

namespace PageRender.Tag

/-- The value of an attribute in a tag; an empty one is left out. -/
def valueText (value : String) : List Char :=
  if value.isEmpty then [] else '=' :: '"' :: (value.toList ++ ['"'])

def attributeText (e : String × String) : List Char :=
  ' ' :: (e.1.toList ++ valueText e.2)

def openingText (name : String) (a : Attributes) : List Char :=
  name.toList ++ a.entries.flatMap attributeText

theorem toList_attributeMarkup (e : String × String) :
    (Node.attributeMarkup e).toList = attributeText e := by
  rw [Node.attributeMarkup, attributeText, valueText]
  split
  · rw [String.toList_append, List.append_nil]
    rfl
  · simp only [String.toList_append, List.append_assoc]
    rfl

/-- How an attribute is written that has this name and this value. -/
def writtenAs (e : String × String) : Written where
  gap := [' ']
  name := e.1.toList
  spelling := if e.2.isEmpty then .bare else .quoted '"' e.2.toList

theorem text_writtenAs (e : String × String) : (writtenAs e).text = attributeText e := by
  rw [Written.text, writtenAs, attributeText, valueText]
  split <;> rfl

theorem entry_writtenAs {e : String × String} (h : IsAttributeName e.1) : (writtenAs e).entry = e := by
  obtain ⟨name, value⟩ := e
  have hValue : String.ofList (writtenAs (name, value)).spelling.value = value := by
    rw [writtenAs]
    split
    · exact (String.isEmpty_iff.mp ‹_›).symm
    · exact String.ofList_toList
  rw [Written.entry, hValue, writtenAs, String.ofList_toList, h.folded]

theorem isWell_writtenAs {e : String × String} (hName : IsAttributeName e.1) (hValue : '"' ∉ e.2.toList) :
    (writtenAs e).IsWell where
  gapped := List.cons_ne_nil _ _
  blank c hc := by
    obtain rfl := List.mem_singleton.mp hc
    decide
  named := mt String.toList_eq_nil_iff.mp hName.ne_empty
  plain c hc := by
    have hEquals : c ≠ '=' := by
      rintro rfl
      exact hName.noEquals hc
    simp [isNameChar, hEquals, (hName.plain c hc).1]
  spelled := by
    rw [writtenAs]
    split
    · exact trivial
    · exact ⟨rfl, hValue⟩

theorem flatMap_attributeText (es : List (String × String)) :
    es.flatMap attributeText = (es.map writtenAs).flatMap Written.text := by
  simp only [List.flatMap_map, text_writtenAs]

theorem withoutSlash_eq_self {cs : List Char} (hFirst : ∀ c ∈ cs.head?, Text.isBlank c = false)
    (hLast : ∀ c ∈ cs.getLast?, Text.isBlank c = false) (hSlash : cs.getLast? ≠ some '/') :
    withoutSlash cs = cs := by
  rw [withoutSlash, trim_eq_self hFirst hLast, if_neg (by simp [hSlash])]

/-- The text of a tag ends in its name, in the name of an attribute or in a quotation mark. -/
theorem getLast?_openingText_cases {name : String} {a : Attributes} (hAttributes : AreAttributes a)
    {c : Char} (h : (openingText name a).getLast? = some c) :
    name.toList.getLast? = some c ∨ (∃ e ∈ a.entries, e.1.toList.getLast? = some c) ∨ c = '"' := by
  rw [openingText] at h
  rcases List.eq_nil_or_concat a.entries with hNil | ⟨es, e, hConcat⟩
  · rw [hNil, List.flatMap_nil, List.append_nil] at h
    exact .inl h
  · right
    have hMem : e ∈ a.entries := by rw [hConcat]; simp
    have hNonempty : e.1.toList ≠ [] := by
      intro hNil
      exact (hAttributes.names e hMem).ne_empty (String.toList_eq_nil_iff.mp hNil)
    rw [hConcat, List.concat_eq_append, List.flatMap_append, List.flatMap_singleton, attributeText,
      valueText] at h
    split at h
    · refine .inl ⟨e, hMem, ?_⟩
      simpa [List.getLast?_append, List.getLast?_cons, List.getLast?_eq_some_getLast hNonempty] using h
    · right
      have hQuote : '"' = c := by simpa [List.getLast?_append, List.getLast?_cons] using h
      exact hQuote.symm

theorem isBlank_of_getLast?_openingText {name : String} {a : Attributes} (hName : IsName name)
    (hAttributes : AreAttributes a) :
    ∀ c ∈ (openingText name a).getLast?, Text.isBlank c = false := by
  intro c hc
  rcases getLast?_openingText_cases hAttributes hc with hLast | ⟨e, he, hLast⟩ | rfl
  · exact (hName.plain c (List.mem_of_getLast? hLast)).1
  · exact ((hAttributes.names e he).plain c (List.mem_of_getLast? hLast)).1
  · decide

/-- The tag that was written is read. -/
theorem read_openingText {name : String} {a : Attributes} (hName : IsElementName name)
    (hAttributes : AreAttributes a) (hValues : ∀ e ∈ a.entries, '"' ∉ e.2.toList)
    (hSlash : (openingText name a).getLast? ≠ some '/') : read (openingText name a) = ⟨name, a⟩ := by
  have hFirst : ∀ c ∈ (openingText name a).head?, Text.isBlank c = false := by
    intro c hc
    cases hCons : name.toList with
    | nil => exact absurd (String.toList_eq_nil_iff.mp hCons) hName.ne_empty
    | cons d ds =>
      rw [openingText, hCons, List.cons_append, List.head?_cons, Option.mem_some_iff] at hc
      exact (hName.plain c (by rw [hCons, hc]; exact List.mem_cons_self)).1
  have hLast := isBlank_of_getLast?_openingText hName.toIsName hAttributes
  have hWell : ∀ w ∈ a.entries.map writtenAs, w.IsWell := by
    rw [List.forall_mem_map]
    exact fun e he => isWell_writtenAs (hAttributes.names e he) (hValues e he)
  have hEntries : (a.entries.map writtenAs).map Written.entry = a.entries := by
    rw [List.map_map]
    exact (List.map_congr_left fun e he => entry_writtenAs (hAttributes.names e he)).trans (List.map_id' _)
  have hText := withoutSlash_eq_self hFirst hLast hSlash
  conv at hText => rhs; rw [openingText, flatMap_attributeText]
  rw [read_of_withoutSlash hText hName.folded (fun c hc => (hName.plain c hc).1) (head?_flatMap_text hWell),
    readAttributes_flatMap .empty hWell, hEntries, OrderedMap.foldl_insert_of_nodup hAttributes.distinct]

def closingText (name : String) : List Char :=
  '/' :: name.toList

theorem foldCase_cons {c : Char} (h : Text.foldChar c = [c]) (cs : List Char) :
    (Text.foldCase (String.ofList (c :: cs))).toList = c :: (Text.foldCase (String.ofList cs)).toList := by
  rw [Text.toList_foldCase, Text.toList_foldCase, String.toList_ofList, String.toList_ofList,
    List.flatMap_cons, h]
  rfl

theorem foldChar_slash : Text.foldChar '/' = ['/'] :=
  Text.foldChar_eq_self_of_notMem (by decide +kernel)

theorem exists_trim_cons {c : Char} (h : Text.isBlank c = false) (cs : List Char) :
    ∃ ds, Text.trim (c :: cs) = c :: ds := by
  have hLast : [c].dropWhile Text.isBlank = [c] := List.dropWhile_cons_of_neg (by simp [h])
  rw [Text.trim, Text.trimStart, Text.trimStart, List.dropWhile_cons_of_neg (by simp [h]), List.reverse_cons,
    List.dropWhile_append, hLast]
  split
  · exact ⟨[], rfl⟩
  · exact ⟨(cs.reverse.dropWhile Text.isBlank).reverse, by simp⟩

theorem exists_withoutSlash_cons {c : Char} (h : Text.isBlank c = false) (cs : List Char) :
    ∃ ds, withoutSlash (c :: cs) = c :: ds := by
  obtain ⟨ds, hTrim⟩ := exists_trim_cons h cs
  rw [withoutSlash, hTrim]
  cases ds with
  | nil => exact ⟨[], rfl⟩
  | cons d ds =>
    split
    · exact ⟨(d :: ds).dropLast, rfl⟩
    · exact ⟨d :: ds, rfl⟩

/-- The mark that the text of a tag begins with is the first of its name. -/
theorem head?_read {c : Char} (hVisible : Text.isBlank c = false) (hFold : Text.foldChar c = [c])
    (cs : List Char) : (read (c :: cs)).name.toList.head? = some c := by
  obtain ⟨ds, hCons⟩ := exists_withoutSlash_cons hVisible cs
  rw [read, hCons]
  simp only
  rw [List.takeWhile_cons_of_pos (by simp [hVisible]), foldCase_cons hFold, List.head?_cons]

theorem ne_empty_of_head? {name : String} {c : Char} (h : name.toList.head? = some c) : name ≠ "" := by
  rintro rfl
  cases h

theorem trim_closingText {name : String} (hName : IsName name) :
    Text.trim (closingText name) = closingText name := by
  refine trim_eq_self ?_ ?_
  · intro c hc
    obtain rfl : '/' = c := by simpa [closingText] using hc
    decide
  · intro c hc
    rcases List.mem_cons.mp (List.mem_of_getLast? hc) with rfl | hMem
    · decide
    · exact (hName.plain c hMem).1

theorem name_read_closingText {name : String} (hName : IsName name)
    (hSlash : name.toList.getLast? ≠ some '/') :
    (read (closingText name)).name.toList = closingText name := by
  have hNonempty : name.toList ≠ [] := fun hNil => hName.ne_empty (String.toList_eq_nil_iff.mp hNil)
  have hLast : (closingText name).getLast? = name.toList.getLast? := by
    rw [closingText, List.getLast?_cons, List.getLast?_eq_some_getLast hNonempty]
    rfl
  have hPlain : ∀ c ∈ closingText name, (!Text.isBlank c) = true := by
    intro c hc
    rcases List.mem_cons.mp hc with rfl | hc
    · decide
    · simp [(hName.plain c hc).1]
  have hAll := (takeWhile_append_of_all _ _ [] hPlain (by simp)).1
  rw [List.append_nil] at hAll
  rw [read, withoutSlash, trim_closingText hName, hLast, if_neg (by simp [hSlash])]
  simp only
  rw [hAll, closingText, foldCase_cons foldChar_slash, String.ofList_toList, hName.folded]

end PageRender.Tag
