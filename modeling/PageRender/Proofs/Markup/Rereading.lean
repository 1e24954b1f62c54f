import PageRender.Proofs.Markup.Places

/-! # Written markup is read back

The markup of a tree is read, at any place, as that tree with its adjacent texts joined. The tags of the
tree lead the reader in and out of its elements; no element is implied, and nothing is found amiss if
void elements are left without closing tags.
-/

namespace PageRender.Markup

open OpenElement Node

theorem bracketFree_openingText {t : String} {a : Attributes} (hName : Tag.IsName t)
    (hAttributes : Tag.AreAttributes a) : Tag.BracketFree (Tag.openingText t a) := by
  have hChar : ∀ c ∈ Tag.openingText t a, c ≠ '<' ∧ c ≠ '>' := by
    intro c hc
    rw [Tag.openingText, List.mem_append, List.mem_flatMap] at hc
    rcases hc with hc | ⟨e, he, hc⟩
    · exact (hName.plain c hc).2
    · rw [Tag.attributeText, List.mem_cons, List.mem_append, Tag.valueText] at hc
      rcases hc with rfl | hc | hc
      · decide
      · exact ((hAttributes.names e he).plain c hc).2
      · split at hc
        · cases hc
        · have hValue := hAttributes.values e he
          simp only [List.mem_cons, List.mem_append, List.not_mem_nil, or_false] at hc
          rcases hc with rfl | rfl | hc | rfl
          · decide
          · decide
          · exact ⟨fun hEq => hValue.1 (hEq ▸ hc), fun hEq => hValue.2 (hEq ▸ hc)⟩
          · decide
  exact ⟨fun hMem => (hChar _ hMem).1 rfl, fun hMem => (hChar _ hMem).2 rfl⟩

theorem bracketFree_closingText {t : String} (hName : Tag.IsName t) :
    Tag.BracketFree (Tag.closingText t) := by
  have hChar : ∀ c ∈ Tag.closingText t, c ≠ '<' ∧ c ≠ '>' := by
    intro c hc
    rcases List.mem_cons.mp hc with rfl | hc
    · decide
    · exact (hName.plain c hc).2
  exact ⟨fun hMem => (hChar _ hMem).1 rfl, fun hMem => (hChar _ hMem).2 rfl⟩

/-- A tag that was written opens its element. -/
theorem addTag_openingText {b : Builder} {t : String} {a : Attributes} (left : Nat)
    (hName : Tag.IsElementName t) (hAttributes : Tag.AreAttributes a)
    (hValues : ∀ e ∈ a.entries, '"' ∉ e.2.toList) (hSlash : (Tag.openingText t a).getLast? ≠ some '/') :
    b.addTag left (Tag.openingText t a) = (b.settle (some t)).openTag ⟨t, a⟩ := by
  have hTag := perform_tag b left (Tag.openingText t a)
  rw [Tag.read_openingText hName hAttributes hValues hSlash, if_neg hName.ne_empty,
    if_neg hName.opening.2, if_neg hName.opening.1] at hTag
  exact hTag

/-- A tag that was written opens its element, and its content is read as markup. -/
theorem read_openingText {b : Builder} {t : String} {a : Attributes} {e : OpenElement} {es : List OpenElement}
    {f : List (Nat × Finding)} (hName : Tag.IsElementName t) (hAttributes : Tag.AreAttributes a)
    (hValues : ∀ e ∈ a.entries, '"' ∉ e.2.toList) (hSlash : (Tag.openingText t a).getLast? ≠ some '/')
    (hOpen : (b.settle (some t)).openTag ⟨t, a⟩ = ⟨e :: es, f⟩) (hPlain : e.tag ∉ Tag.rawTags)
    (more : List Char) : read b false [] ('<' :: (Tag.openingText t a ++ '>' :: more)) =
      read ⟨e :: es, f⟩ false [] more := by
  have hAdd (left : Nat) : b.addTag left (Tag.openingText t a) = ⟨e :: es, f⟩ := by
    rw [addTag_openingText left hName hAttributes hValues hSlash, hOpen]
  rw [read_opening, addRun_nil_reverse, read_tag_plain (bracketFree_openingText hName.toIsName hAttributes) more
    (by rw [hAdd]) hPlain, hAdd]

/-- A closing tag closes the innermost element, whatever its name. -/
theorem read_closingText {b : Builder} {e e' : OpenElement} {es : List OpenElement}
    {f : List (Nat × Finding)} {t : String}
    (hSettle : b.settle (some (Tag.read (Tag.closingText t)).name) = ⟨e :: e' :: es, f⟩)
    (hName : Tag.IsName t) (hPlain : e'.tag ∉ Tag.rawTags) (more : List Char) :
    ∃ f', read b true [] (Tag.closingText t ++ '>' :: more) =
        read ⟨e'.add e.close :: es, f'⟩ false [] more ∧
      (e.tag = t → t.toList.getLast? ≠ some '/' → f' = f) := by
  have hClose : ∃ f', Builder.closeTag ⟨e :: e' :: es, f⟩ (more.length + 1)
      (Tag.read (Tag.closingText t)).name = ⟨e'.add e.close :: es, f'⟩ ∧
      (e.tag = t → t.toList.getLast? ≠ some '/' → f' = f) := by
    simp only [Builder.closeTag]
    split
    · exact ⟨f, rfl, fun _ _ => rfl⟩
    · rename_i hMatching
      refine ⟨_, rfl, ?_⟩
      intro hEq hSlash
      rw [Tag.name_read_closingText hName hSlash, hEq, Tag.closingText] at hMatching
      simp at hMatching
  obtain ⟨f', hClose, hFindings⟩ := hClose
  have hAdd : b.addTag (more.length + 1) (Tag.closingText t) = ⟨e'.add e.close :: es, f'⟩ := by
    rw [Tag.closingText, addTag_slash, ← Tag.closingText, hSettle, hClose]
  have hStack : (b.addTag (more.length + 1) (Tag.closingText t)).stack = e'.add e.close :: es := by
    rw [hAdd]
  refine ⟨f', ?_, hFindings⟩
  rw [read_tag_plain (bracketFree_closingText hName) more hStack hPlain, hAdd]

theorem section?_pending (held : List Char) : ∀ n ∈ pending held, n.section? = none := by
  intro n hn
  rw [pending] at hn
  split at hn
  · cases hn
  · rw [List.mem_singleton.mp hn]
    rfl

/-- What is held goes to the open element, which is opened again if it was closed. -/
theorem addRun_held {p : Place} {closed : Bool} {ks : List (Node Unit)} {f : List (Nat × Finding)}
    {held : List Char} (hHeld : held ≠ [] → (∃ c ∈ held, Text.isBlank c = false) ∧ p.Rests none ∧
      (closed = true → p.Reopens none)) :
    addRun ⟨p.stack closed ks, f⟩ held.reverse =
      ⟨p.stack (closed && held.isEmpty) (ks ++ pending held), f⟩ := by
  by_cases hEmpty : held = []
  · subst hEmpty
    rw [pending_nil, List.append_nil, List.isEmpty_nil, Bool.and_true]
    rfl
  obtain ⟨⟨c, hc, hBlank⟩, hRests, hReopens⟩ := hHeld hEmpty
  have hShown : ¬held.reverse.all Text.isBlank = true := by
    intro hAll
    have hTrue := List.all_eq_true.mp hAll c (List.mem_reverse.mpr hc)
    rw [hBlank] at hTrue
    cases hTrue
  have hSettle : Builder.settle ⟨p.stack closed ks, f⟩ none = ⟨p.stack false ks, f⟩ := by
    cases closed with
    | false => exact hRests ks f
    | true => exact hReopens rfl ks f
  have hClosed : (closed && held.isEmpty) = false := by simp [hEmpty]
  rw [addRun_eq, if_neg hShown, hSettle, hClosed, Place.stack, Place.stack, Builder.addNode, Place.top,
    Place.top, shown_append (section?_pending held), pending_of_ne_nil hEmpty]
  rfl

theorem joinedForest_texts (closeVoid : Bool) (held : List Char) {ns : List (Node Unit)}
    (hTexts : ∀ n ∈ ns, n.tag? = none) (hLawful : ∀ n ∈ ns, n.All Node.Lawful) :
    joinedForest (pending held ++ ns) = pending ((forestChars closeVoid ns).reverse ++ held) := by
  induction ns generalizing held with
  | nil => rw [List.append_nil, joinedForest_pending]; rfl
  | cons n ns ih =>
    rw [List.forall_mem_cons] at hTexts hLawful
    cases n with
    | element => cases hTexts.1
    | text i s =>
      obtain ⟨c, hc, -⟩ := (all_iff.mp hLawful.1).1
      have hNonempty : s ≠ "" := by
        rintro rfl
        cases hc
      rw [joinedForest_pending_text hNonempty, ih _ hTexts.2 hLawful.2, forestChars, chars,
        List.reverse_append, List.append_assoc]

theorem closedAfter_texts {closeVoid : Bool} {ns : List (Node Unit)} (hTexts : ∀ n ∈ ns, n.tag? = none) :
    closedAfter closeVoid false ns = false := by
  induction ns with
  | nil => rfl
  | cons n ns ih =>
    rw [List.forall_mem_cons] at hTexts
    cases n with
    | element => cases hTexts.1
    | text => exact ih hTexts.2

theorem sections_joinedForest (ns : List (Node Unit)) : sections (joinedForest ns) = sections ns := by
  have hCons : ∀ (n : Node Unit) (ms : List (Node Unit)),
      sections (joinCons n ms) = sections (n :: ms) := by
    intro n ms
    cases n with
    | element => rw [joinCons_element]
    | text =>
      match ms with
      | [] => rfl
      | .text _ _ :: _ => rfl
      | .element _ _ _ _ :: _ => rfl
  induction ns with
  | nil => rfl
  | cons n ns ih =>
    have hJoined : n.joined.section? = n.section? := by cases n <;> rfl
    rw [joinedForest, hCons, sections, sections, List.filterMap_cons, List.filterMap_cons, hJoined]
    rw [sections, sections] at ih
    rw [ih]

/-- The stack after the content of a new element, when that element is closed. -/
theorem stack_of_child {p : Place} {t : String} {a : Attributes} {ks ws cs : List (Node Unit)}
    (hShown : ws ++ [.element () t a cs] = shown p.tag (ks ++ [.element () t a cs]))
    (hContent : shown t cs = cs) :
    (p.child t a ws).stack true cs = p.stack false (ks ++ [.element () t a cs]) := by
  simp only [Place.stack, Place.child, Place.top, hContent, ← hShown]
  rfl

section

variable {closeVoid : Bool} {p : Place} {ks cs : List (Node Unit)} {f : List (Nat × Finding)}
  {b : Builder} {i : Unit} {t : String} {a : Attributes} {l : List (String × Attributes)}

/-- A void element is complete with its tag. A closing tag then closes the element around it. -/
theorem read_void (hp : p.Sound closeVoid) (hSettle : b.settle (some t) = ⟨p.stack false ks, f⟩)
    (hVoid : t ∈ Tag.voidTags) (hName : Tag.IsElementName t) (hAttributes : Tag.AreAttributes a)
    (hReads : ElementReadsBack closeVoid t a []) (more : List Char) :
    ∃ f', read b true [] (Tag.openingText t a ++ '>' :: (closingChars closeVoid t ++ more)) =
        read ⟨p.stack ((Node.element () t a []).closesParent closeVoid) (ks ++ [.element () t a []]), f'⟩
          false [] more ∧ (closeVoid = false → f' = f) := by
  have hSection : ∀ n ∈ [Node.element () t a []], n.section? = none := by
    rw [List.forall_mem_singleton]
    exact if_neg (fun hSection => Tag.notMem_voidTags_of_isSection hSection hVoid)
  have hVoid' : Tag.voidTags.contains t = true := by simpa using hVoid
  have hAdd : ∀ left, b.addTag left (Tag.openingText t a) =
      ⟨p.stack false (ks ++ [.element () t a []]), f⟩ := by
    intro left
    rw [addTag_openingText left hName hAttributes hReads.values hReads.slash, hSettle, Builder.openTag,
      if_pos hVoid', Builder.addNode, Place.stack, Place.stack, Place.top, Place.top,
      shown_append hSection]
    rfl
  have hStack : (b.addTag ((closingChars closeVoid t ++ more).length + 1) (Tag.openingText t a)).stack =
      p.top (ks ++ [.element () t a []]) :: p.parent :: p.around := by rw [hAdd]; rfl
  rw [read_tag_plain (bracketFree_openingText hName.toIsName hAttributes) _ hStack hp.plain, hAdd]
  cases closeVoid with
  | false =>
    have hClosing : closingChars false t = [] := if_pos (by simpa using hVoid)
    exact ⟨f, by rw [hClosing, closesParent_false, List.nil_append], fun _ => rfl⟩
  | true =>
    have hClosing : closingChars true t = '<' :: (Tag.closingText t ++ ['>']) := if_neg (by simp)
    have hCloses : (Node.element () t a []).closesParent true = true := by
      rw [closesParent, hVoid']
      rfl
    obtain ⟨hParent, hRests⟩ := hp.outer rfl
    obtain ⟨f', hRead, -⟩ := read_closingText (hRests _ (ks ++ [.element () t a []]) f) hName.toIsName
      hParent more
    refine ⟨f', ?_, fun h => by cases h⟩
    rw [hClosing, hCloses, List.cons_append, List.append_assoc, List.singleton_append, read_opening]
    exact hRead

theorem rawTags_plain (h : t ∈ Tag.rawTags) :
    t ∉ Tag.voidTags ∧ ¬IsSection t ∧ t ≠ "html" := by
  have hAll : ∀ t ∈ Tag.rawTags, t ∉ Tag.voidTags ∧ ¬IsSection t ∧ t ≠ "html" := by decide
  exact hAll t h

theorem closingChars_of_notMem (h : t ∉ Tag.voidTags) :
    closingChars closeVoid t = '<' :: (Tag.closingText t ++ ['>']) :=
  if_neg (by simp [h])

theorem read_closing {ws : List (Node Unit)} (hPlain : p.tag ∉ Tag.rawTags) (hName : Tag.IsName t)
    (hShown : ws ++ [.element () t a cs] = shown p.tag (ks ++ [.element () t a cs]))
    (hContent : shown t cs = cs) (more : List Char) :
    ∃ f', read ⟨(p.child t a ws).stack false cs, f⟩ true [] (Tag.closingText t ++ '>' :: more) =
        read ⟨p.stack false (ks ++ [.element () t a cs]), f'⟩ false [] more ∧
      (t.toList.getLast? ≠ some '/' → f' = f) := by
  obtain ⟨f', hRead, hFindings⟩ :=
    read_closingText (p.rests_child t a ws _ cs f) hName hPlain more
  refine ⟨f', ?_, hFindings rfl⟩
  rw [hRead, ← stack_of_child hShown hContent]
  rfl

theorem exists_shown_of_forestChars {closeVoid : Bool} {ns : List (Node Unit)}
    (hTexts : ∀ n ∈ ns, n.tag? = none) (hLawful : ∀ n ∈ ns, n.All Node.Lawful)
    (h : forestChars closeVoid ns ≠ []) : ∃ c ∈ forestChars closeVoid ns, Text.isBlank c = false := by
  cases ns with
  | nil => exact absurd rfl h
  | cons n ns =>
    cases n with
    | element => cases hTexts _ List.mem_cons_self
    | text i s =>
      obtain ⟨c, hc, hBlank⟩ := (all_iff.mp (hLawful _ List.mem_cons_self)).1
      exact ⟨c, List.mem_append_left _ hc, hBlank⟩

theorem closesParent_raw (h : t ∈ Tag.rawTags) (hTexts : ∀ c ∈ cs, c.tag? = none) :
    (Node.element i t a cs).closesParent closeVoid = false := by
  rw [closesParent, closedAfter_texts hTexts]
  simp [(rawTags_plain h).1]

theorem read_raw (hPlain : p.tag ∉ Tag.rawTags) (hSettle : b.settle (some t) = ⟨p.stack false ks, f⟩)
    (hRaw : t ∈ Tag.rawTags) (hLawful : (Node.element i t a cs).All Node.Lawful)
    (hReads : ElementReadsBack closeVoid t a cs) (more : List Char) :
    ∃ f', read b true [] (Tag.openingText t a ++
          '>' :: (forestChars closeVoid cs ++ (closingChars closeVoid t ++ more))) =
        read ⟨p.stack ((Node.element i t a cs).closesParent closeVoid)
          (ks ++ [.element () t a (joinedForest cs)]), f'⟩ false [] more ∧ (closeVoid = false → f' = f) := by
  obtain ⟨⟨hName, hAttributes, -, -⟩, hLawfulChildren⟩ := all_iff.mp hLawful
  obtain ⟨hTexts, hNoClosing⟩ := hReads.raw hRaw
  obtain ⟨hVoid, hSection, hHtml⟩ := rawTags_plain hRaw
  have hFit : p.tag = "html" → IsSection t → SectionsFit (sections ks ++ (t, a) :: []) :=
    fun _ h => absurd h hSection
  obtain ⟨ws, hOpen, hShown⟩ := Place.openTag_place hVoid hFit
  have hAdd : ∀ left, b.addTag left (Tag.openingText t a) = ⟨(p.child t a ws).stack false [], f⟩ := by
    intro left
    rw [addTag_openingText left hName hAttributes hReads.values hReads.slash, hSettle, hOpen]
  have hRawTag : Builder.rawTag? ⟨(p.child t a ws).stack false [], f⟩ = some t := by
    simpa [Builder.rawTag?, Builder.openTags, Place.stack, Place.top, Place.child] using hRaw
  have hContent : forestChars closeVoid cs ++ (closingChars closeVoid t ++ more) =
      forestChars closeVoid cs ++ '<' :: (Tag.closingText t ++ '>' :: more) := by
    rw [closingChars_of_notMem hVoid, List.cons_append, List.append_assoc, List.singleton_append]
  have hSplit : rawContent ⟨(p.child t a ws).stack false [], f⟩
      (forestChars closeVoid cs ++ '<' :: (Tag.closingText t ++ '>' :: more)) =
        (forestChars closeVoid cs, '<' :: (Tag.closingText t ++ '>' :: more)) := by
    rw [rawContent, hRawTag]
    exact splitRaw_append hRaw hNoClosing ('>' :: more)
  have hRun : addRun ⟨(p.child t a ws).stack false [], f⟩ (forestChars closeVoid cs) =
      ⟨(p.child t a ws).stack false (joinedForest cs), f⟩ := by
    have hReverse : addRun ⟨(p.child t a ws).stack false [], f⟩ (forestChars closeVoid cs).reverse.reverse = _ :=
      addRun_held (fun hNonempty => ⟨by
        simpa using exists_shown_of_forestChars hTexts hLawfulChildren (by simpa using hNonempty),
        p.rests_child t a ws none, fun h => by cases h⟩)
    have hJoined := joinedForest_texts closeVoid [] hTexts hLawfulChildren
    rw [pending_nil, List.nil_append, List.append_nil] at hJoined
    rw [List.reverse_reverse, List.nil_append, ← hJoined] at hReverse
    exact hReverse
  have hCloses : (Node.element i t a cs).closesParent closeVoid = false := closesParent_raw hRaw hTexts
  obtain ⟨f', hRead, hFindings⟩ := read_closing (f := f) hPlain hName.toIsName
    (hShown (joinedForest cs)) (shown_of_ne_html hHtml _) more
  refine ⟨f', ?_, fun h => hFindings (hReads.name h)⟩
  rw [hContent, read_tag b (bracketFree_openingText hName.toIsName hAttributes), hAdd, hSplit, hRun,
    read_opening, hCloses]
  exact hRead

end

/-- What nodes must be, wherever they stand, for their markup to be read back. -/
structure Rereadable (closeVoid : Bool) (ns : List (Node Unit)) : Prop where
  plain : ∀ s, .text () s ∈ ns → '<' ∉ s.toList
  lawful : ∀ n ∈ ns, n.All Node.Lawful
  reads : ∀ n ∈ ns, n.All (ReadsBack closeVoid)

/-- What a place must be for the markup of nodes to be read back there, behind what is held. -/
structure Ready (closeVoid : Bool) (p : Place) (ks : List (Node Unit)) (closed : Bool)
    (held : List Char) (ns : List (Node Unit)) : Prop where
  sound : p.Sound closeVoid
  run : held ≠ [] → (∃ c ∈ held, Text.isBlank c = false) ∧ p.Rests none ∧
    (closed = true → p.Reopens none)
  rests : ∀ n ∈ ns, p.Rests n.tag?
  follows : Follows p.Reopens closeVoid (closed && held.isEmpty) ns
  fit : p.tag = "html" → SectionsFit (sections ks ++ sections ns)

/-- The markup of nodes is read back at every place that is ready for them. -/
def ForestReads (closeVoid : Bool) (ns : List (Node Unit)) : Prop :=
  ∀ p ks closed held f more, Ready closeVoid p ks closed held ns →
    ∃ f', read ⟨p.stack closed ks, f⟩ false held (forestChars closeVoid ns ++ '<' :: more) =
        read ⟨p.stack (closedAfter closeVoid (closed && held.isEmpty) ns)
          (ks ++ joinedForest (pending held ++ ns)), f'⟩ true [] more ∧ (closeVoid = false → f' = f)

section

variable {closeVoid : Bool} {p : Place} {ks cs : List (Node Unit)} {f : List (Nat × Finding)}
  {b : Builder} {i : Unit} {t : String} {a : Attributes} {l : List (String × Attributes)}

theorem shown_joinedForest (h : ElementReadsBack closeVoid t a cs) :
    shown t (joinedForest cs) = joinedForest cs := by
  by_cases hHtml : t = "html"
  · exact shown_of_fit (by rw [sections_joinedForest]; exact h.html hHtml)
  · exact shown_of_ne_html hHtml _

/-- After the content of an element its closing tag adds it to the place. If the content closed the
element, it was added before, and the tag closes the element around it. -/
theorem read_closing_after {ws : List (Node Unit)} (hp : p.Sound closeVoid) (hVoid : t ∉ Tag.voidTags)
    (hName : Tag.IsName t) (hReads : ElementReadsBack closeVoid t a cs)
    (hShown : ws ++ [.element () t a (joinedForest cs)] =
      shown p.tag (ks ++ [.element () t a (joinedForest cs)])) (more : List Char) :
    ∃ f', read ⟨(p.child t a ws).stack (closedAfter closeVoid false cs) (joinedForest cs), f⟩ true []
          (Tag.closingText t ++ '>' :: more) =
        read ⟨p.stack ((Node.element i t a cs).closesParent closeVoid)
          (ks ++ [.element () t a (joinedForest cs)]), f'⟩ false [] more ∧ (closeVoid = false → f' = f) := by
  have hContent : shown t (joinedForest cs) = joinedForest cs := shown_joinedForest hReads
  cases hClosed : closedAfter closeVoid false cs with
  | false =>
    have hCloses : (Node.element i t a cs).closesParent closeVoid = false := by
      simp [closesParent, hClosed, hVoid]
    obtain ⟨f', hRead, hFindings⟩ := read_closing (f := f) hp.plain hName hShown hContent more
    rw [hCloses, hRead]
    exact ⟨f', rfl, fun h => hFindings (hReads.name h)⟩
  | true =>
    have hCloses : (Node.element i t a cs).closesParent closeVoid = true := by
      simp [closesParent, hClosed]
    cases closeVoid with
    | false =>
      rw [closedAfter_false, Bool.false_and] at hClosed
      cases hClosed
    | true =>
      obtain ⟨hParent, hRests⟩ := hp.outer rfl
      obtain ⟨f', hRead, -⟩ := read_closingText
        (hRests _ (ks ++ [.element () t a (joinedForest cs)]) f) hName hParent more
      rw [hCloses, stack_of_child hShown hContent, hRead]
      exact ⟨f', rfl, fun h => by cases h⟩

theorem read_inner (hp : p.Sound closeVoid) (hSettle : b.settle (some t) = ⟨p.stack false ks, f⟩)
    (hVoid : t ∉ Tag.voidTags) (hRaw : t ∉ Tag.rawTags) (hName : Tag.IsElementName t)
    (hAttributes : Tag.AreAttributes a) (hReads : ElementReadsBack closeVoid t a cs)
    (hFit : p.tag = "html" → IsSection t → SectionsFit (sections ks ++ (t, a) :: l))
    (hContentReads : ForestReads closeVoid cs) (more : List Char) :
    ∃ f', read b true [] (Tag.openingText t a ++
          '>' :: (forestChars closeVoid cs ++ (closingChars closeVoid t ++ more))) =
        read ⟨p.stack ((Node.element i t a cs).closesParent closeVoid)
          (ks ++ [.element () t a (joinedForest cs)]), f'⟩ false [] more ∧ (closeVoid = false → f' = f) := by
  obtain ⟨ws, hOpen, hShown⟩ := Place.openTag_place hVoid hFit
  have hAdd : ∀ left, b.addTag left (Tag.openingText t a) = ⟨(p.child t a ws).stack false [], f⟩ := by
    intro left
    rw [addTag_openingText left hName hAttributes hReads.values hReads.slash, hSettle, hOpen]
  have hStack : ∀ left, (b.addTag left (Tag.openingText t a)).stack =
      (p.child t a ws).top [] :: ⟨p.tag, p.attributes, ws⟩ :: p.parent :: p.around := by
    intro left
    rw [hAdd]
    rfl
  have hReady : Ready closeVoid (p.child t a ws) [] false [] cs :=
    { sound := hp.child hRaw a ws
      run := fun h => absurd rfl h
      rests := fun n _ => p.rests_child t a ws n.tag?
      follows := (hReads.last hRaw).mono fun _ h => h.elim
      fit := hReads.html }
  obtain ⟨f', hInside, hFindings⟩ :=
    hContentReads _ _ _ _ f (Tag.closingText t ++ '>' :: more) hReady
  rw [Bool.false_and, pending_nil, List.nil_append, List.nil_append] at hInside
  obtain ⟨f'', hRead, hFindings'⟩ := read_closing_after (i := i) (f := f') hp hVoid hName.toIsName hReads
    (hShown (joinedForest cs)) more
  refine ⟨f'', ?_, fun h => (hFindings' h).trans (hFindings h)⟩
  rw [closingChars_of_notMem hVoid, List.cons_append, List.append_assoc, List.singleton_append,
    read_tag_plain (bracketFree_openingText hName.toIsName hAttributes) _ (hStack _) hRaw, hAdd, hInside,
    hRead]

/-- The markup of an element is read back if that of its content is. -/
theorem read_element (hp : p.Sound closeVoid) (hSettle : b.settle (some t) = ⟨p.stack false ks, f⟩)
    (hLawful : (Node.element i t a cs).All Node.Lawful)
    (hReads : (Node.element i t a cs).All (ReadsBack closeVoid))
    (hFit : p.tag = "html" → IsSection t → SectionsFit (sections ks ++ (t, a) :: l))
    (hContentReads : Rereadable closeVoid cs → ForestReads closeVoid cs) (more : List Char) :
    ∃ f', read b true [] (Tag.openingText t a ++
          '>' :: (forestChars closeVoid cs ++ (closingChars closeVoid t ++ more))) =
        read ⟨p.stack ((Node.element i t a cs).closesParent closeVoid)
          (ks ++ [.element () t a (joinedForest cs)]), f'⟩ false [] more ∧ (closeVoid = false → f' = f) := by
  obtain ⟨⟨hName, hAttributes, hEmpty, hPlain⟩, hLawfulChildren⟩ := all_iff.mp hLawful
  obtain ⟨hElement, hReadsChildren⟩ := all_iff.mp hReads
  by_cases hVoid : t ∈ Tag.voidTags
  · obtain rfl := hEmpty hVoid
    exact read_void hp hSettle hVoid hName hAttributes hElement more
  by_cases hRaw : t ∈ Tag.rawTags
  · exact read_raw hp.plain hSettle hRaw hLawful hElement more
  exact read_inner hp hSettle hVoid hRaw hName hAttributes hElement hFit
    (hContentReads ⟨hPlain hRaw, hLawfulChildren, hReadsChildren⟩) more

end

theorem forestReads_nil (closeVoid : Bool) : ForestReads closeVoid [] := by
  intro p ks closed held f more hReady
  refine ⟨f, ?_, fun _ => rfl⟩
  rw [forestChars, List.nil_append, read_opening, addRun_held hReady.run, List.append_nil,
    joinedForest_pending, closedAfter]

theorem forestReads_text {closeVoid : Bool} {i : Unit} {s : String} {ns : List (Node Unit)}
    (h : Rereadable closeVoid (.text i s :: ns)) (hRest : ForestReads closeVoid ns) :
    ForestReads closeVoid (.text i s :: ns) := by
  intro p ks closed held f more hReady
  obtain ⟨c, hc, hBlank⟩ := (all_iff.mp (h.lawful _ List.mem_cons_self)).1
  have hNonempty : s ≠ "" := by
    rintro rfl
    cases hc
  have hHeld : c ∈ s.toList.reverse ++ held := List.mem_append_left _ (List.mem_reverse.mpr hc)
  have hIsEmpty : (s.toList.reverse ++ held).isEmpty = false :=
    List.isEmpty_eq_false_iff_exists_mem.mpr ⟨c, hHeld⟩
  have hReopens : closed = true → p.Reopens none := by
    intro hClosed
    by_cases hEmpty : held = []
    · exact hReady.follows.1 (by simp [hClosed, hEmpty])
    · exact (hReady.run hEmpty).2.2 hClosed
  have hReadyRest : Ready closeVoid p ks closed (s.toList.reverse ++ held) ns :=
    { sound := hReady.sound
      run := fun _ => ⟨⟨c, hHeld, hBlank⟩, hReady.rests (.text i s) List.mem_cons_self, hReopens⟩
      rests := fun n hn => hReady.rests n (List.mem_cons_of_mem _ hn)
      follows := by
        rw [hIsEmpty, Bool.and_false]
        exact hReady.follows.2
      fit := hReady.fit }
  obtain ⟨f', hRead, hFindings⟩ := hRest p ks closed _ f more hReadyRest
  refine ⟨f', ?_, hFindings⟩
  rw [forestChars, chars, List.append_assoc, read_text _ _ (h.plain s List.mem_cons_self), hRead,
    hIsEmpty, Bool.and_false, joinedForest_pending_text hNonempty, closedAfter, closesParent]

theorem forestReads_element {closeVoid : Bool} {i : Unit} {t : String} {a : Attributes}
    {cs ns : List (Node Unit)} (h : Rereadable closeVoid (.element i t a cs :: ns))
    (hContentReads : Rereadable closeVoid cs → ForestReads closeVoid cs)
    (hRest : ForestReads closeVoid ns) : ForestReads closeVoid (.element i t a cs :: ns) := by
  intro p ks closed held f more hReady
  have hSettle : Builder.settle ⟨p.stack (closed && held.isEmpty) (ks ++ pending held), f⟩ (some t) =
      ⟨p.stack false (ks ++ pending held), f⟩ := by
    cases hClosed : closed && held.isEmpty with
    | false => exact hReady.rests _ List.mem_cons_self _ f
    | true => exact hReady.follows.1 hClosed _ f
  have hSections : sections (ks ++ pending held) = sections ks := by
    rw [sections_append, sections, sections, List.filterMap_eq_nil_iff.mpr (section?_pending held),
      List.append_nil]
  have hFit : p.tag = "html" → IsSection t →
      SectionsFit (sections (ks ++ pending held) ++ (t, a) :: sections ns) := by
    intro hHtml hSection
    have hHere : sections (Node.element i t a cs :: ns) = (t, a) :: sections ns :=
      List.filterMap_cons_some (if_pos hSection)
    rw [hSections, ← hHere]
    exact hReady.fit hHtml
  obtain ⟨f', hElement, hFindings⟩ := read_element hReady.sound hSettle
    (h.lawful _ List.mem_cons_self) (h.reads _ List.mem_cons_self) hFit hContentReads
    (forestChars closeVoid ns ++ '<' :: more)
  have hReadyRest : Ready closeVoid p (ks ++ pending held ++ [.element () t a (joinedForest cs)])
      ((Node.element i t a cs).closesParent closeVoid) [] ns :=
    { sound := hReady.sound
      run := fun hNonempty => absurd rfl hNonempty
      rests := fun n hn => hReady.rests n (List.mem_cons_of_mem _ hn)
      follows := by
        rw [List.isEmpty_nil, Bool.and_true]
        exact hReady.follows.2
      fit := by
        intro hHtml
        rw [sections_append, hSections, List.append_assoc, ← sections_append]
        exact hReady.fit hHtml }
  obtain ⟨f'', hRead, hFindings'⟩ := hRest _ _ _ _ f' more hReadyRest
  refine ⟨f'', ?_, fun h => (hFindings' h).trans (hFindings h)⟩
  rw [pending_nil, List.nil_append, List.isEmpty_nil, Bool.and_true] at hRead
  rw [forestChars, chars, List.append_assoc, List.cons_append, read_opening, addRun_held hReady.run,
    List.append_assoc, List.cons_append, List.append_assoc, hElement, hRead, closedAfter,
    joinedForest_pending_element]
  simp only [List.append_assoc, List.singleton_append]

theorem Rereadable.tail {closeVoid : Bool} {n : Node Unit} {ns : List (Node Unit)}
    (h : Rereadable closeVoid (n :: ns)) : Rereadable closeVoid ns where
  plain s hs := h.plain s (List.mem_cons_of_mem n hs)
  lawful m hm := h.lawful m (List.mem_cons_of_mem n hm)
  reads m hm := h.reads m (List.mem_cons_of_mem n hm)

/-- The markup of nodes that are fit for it is read back. -/
theorem forestReads {closeVoid : Bool} (ns : List (Node Unit)) (h : Rereadable closeVoid ns) :
    ForestReads closeVoid ns := by
  match ns with
  | [] => exact forestReads_nil closeVoid
  | .text i s :: ns => exact forestReads_text h (forestReads ns h.tail)
  | .element i t a cs :: ns => exact forestReads_element h (forestReads cs) (forestReads ns h.tail)

end PageRender.Markup
