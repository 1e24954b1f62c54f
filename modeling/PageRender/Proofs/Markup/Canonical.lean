import PageRender.Proofs.Markup.DocumentShape
import PageRender.Proofs.Markup.Rereading

/-! # Canonical markup

A document whose names, values and texts need no repair is written with one tag for each void element
and two for any other element. Reading it gives that document, and nothing is found amiss.
-/

namespace PageRender

namespace Node

/-- What every node of a canonical document is. -/
def Canonical : Node Unit → Prop
  | text _ s => ∃ c ∈ s.toList, Text.isBlank c = false
  | element _ t a cs =>
    Tag.IsElementName t ∧ t.toList.getLast? ≠ some '/' ∧ Tag.AreAttributes a ∧
      (∀ e ∈ a.entries, e.1.toList.getLast? ≠ some '/' ∧ '"' ∉ e.2.toList) ∧
      (t ∈ Tag.voidTags → cs = []) ∧
      (t ∈ Tag.rawTags → cs = [] ∨ ∃ s, cs = [text () s] ∧ NoClosing t s.toList) ∧
      (t ∉ Tag.rawTags → ∀ s, text () s ∈ cs → '<' ∉ s.toList)

theorem forall_text_iff {cs : List (Node Unit)} {P : String → Prop} :
    (∀ s, text () s ∈ cs → P s) ↔ ∀ c ∈ cs, ∀ s ∈ c.text?, P s := by
  constructor
  · intro h c hc s hs
    cases c with
    | text i s' =>
      cases hs
      exact h _ hc
    | element => cases hs
  · intro h s hs
    exact h _ hs s rfl

instance : DecidablePred Canonical
  | text _ s => inferInstanceAs (Decidable (∃ c ∈ s.toList, Text.isBlank c = false))
  | element i t a cs =>
    have : Decidable (cs = [] ∨ ∃ s, cs = [text () s] ∧ NoClosing t s.toList) :=
      match cs with
      | [] => .isTrue (.inl rfl)
      | [text _ s] => decidable_of_iff (NoClosing t s.toList) (by simp)
      | element _ _ _ _ :: _ => .isFalse (by simp)
      | text _ _ :: _ :: _ => .isFalse (by simp)
    have : Decidable (∀ s, text () s ∈ cs → '<' ∉ s.toList) := decidable_of_iff _ forall_text_iff.symm
    inferInstanceAs (Decidable (Tag.IsElementName t ∧ t.toList.getLast? ≠ some '/' ∧
      Tag.AreAttributes a ∧ (∀ e ∈ a.entries, e.1.toList.getLast? ≠ some '/' ∧ '"' ∉ e.2.toList) ∧
      (t ∈ Tag.voidTags → cs = []) ∧
      (t ∈ Tag.rawTags → cs = [] ∨ ∃ s, cs = [text () s] ∧ NoClosing t s.toList) ∧
      (t ∉ Tag.rawTags → ∀ s, text () s ∈ cs → '<' ∉ s.toList)))

/-- A document with its head and its body. -/
def document (a aHead : Attributes) (hs : List (Node Unit)) (aBody : Attributes)
    (bs : List (Node Unit)) : Node Unit :=
  element () "html" a [element () "head" aHead hs, element () "body" aBody bs]

/-- A document that is written canonically. -/
structure CanonicalDocument (a aHead : Attributes) (hs : List (Node Unit)) (aBody : Attributes)
    (bs : List (Node Unit)) : Prop where
  nodes : (document a aHead hs aBody bs).All Canonical
  separate : (document a aHead hs aBody bs).All Separate
  head : ∀ n ∈ hs, ∃ t ∈ Tag.headTags, n.tag? = some t
  inner : ∀ n ∈ hs ++ bs, n.All fun m => m.tag? ∉ [some "html", some "head", some "body"]

instance : DecidablePred Separate :=
  fun n => inferInstanceAs (Decidable (n.children.IsChain _))

instance : DecidablePred fun n : Node Unit => n.tag? ∉ [some "html", some "head", some "body"] :=
  fun n => decidable_of_iff (n.tag? ≠ some "html" ∧ n.tag? ≠ some "head" ∧ n.tag? ≠ some "body")
    (by simp)

instance (a aHead : Attributes) (hs : List (Node Unit)) (aBody : Attributes) (bs : List (Node Unit)) :
    Decidable (CanonicalDocument a aHead hs aBody bs) :=
  decidable_of_iff ((document a aHead hs aBody bs).All Canonical ∧
      (document a aHead hs aBody bs).All Separate ∧ (∀ n ∈ hs, ∃ t ∈ Tag.headTags, n.tag? = some t) ∧
      ∀ n ∈ hs ++ bs, n.All fun m => m.tag? ∉ [some "html", some "head", some "body"])
    ⟨fun h => ⟨h.1, h.2.1, h.2.2.1, h.2.2.2⟩, fun h => ⟨h.nodes, h.separate, h.head, h.inner⟩⟩

theorem Canonical.lawful {n : Node Unit} (h : n.Canonical) : n.Lawful := by
  cases n with
  | text => exact h
  | element i t a cs =>
    obtain ⟨hName, -, hAttributes, -, hVoid, -, hPlain⟩ := h
    exact ⟨hName, hAttributes, hVoid, hPlain⟩

theorem slash_of_canonical {t : String} {a : Attributes} (hName : t.toList.getLast? ≠ some '/')
    (hAttributes : Tag.AreAttributes a) (hEntries : ∀ e ∈ a.entries, e.1.toList.getLast? ≠ some '/') :
    (Tag.openingText t a).getLast? ≠ some '/' := by
  intro hLast
  rcases Tag.getLast?_openingText_cases hAttributes hLast with hLast | ⟨e, he, hLast⟩ | hQuote
  · exact hName hLast
  · exact hEntries e he hLast
  · cases hQuote

theorem Canonical.readsBack {n : Node Unit} (h : n.Canonical) (hHtml : n.tag? ≠ some "html") :
    n.ReadsBack false := by
  cases n with
  | text => trivial
  | element i t a cs =>
    obtain ⟨hName, hSlash, hAttributes, hEntries, hVoid, hRaw, hPlain⟩ := h
    refine ⟨fun e he => (hEntries e he).2, ?_, fun _ => hSlash, ?_, fun _ => follows_false _ _, ?_⟩
    · exact slash_of_canonical hSlash hAttributes fun e he => (hEntries e he).1
    · intro hRawTag
      rcases hRaw hRawTag with rfl | ⟨s, rfl, hNoClosing⟩
      · refine ⟨fun c hc => absurd hc List.not_mem_nil, ?_⟩
        intro ds hds
        rw [forestChars, List.suffix_nil] at hds
        rw [hds]
        rfl
      · refine ⟨fun c hc => by rw [List.mem_singleton.mp hc]; rfl, ?_⟩
        rw [forestChars, chars, forestChars, List.append_nil]
        exact hNoClosing
    · intro hTag
      exact absurd (congrArg some hTag) hHtml

end Node

namespace Markup

open OpenElement Node

theorem addTag_section {root : OpenElement} {t : String} {a : Attributes} {f : List (Nat × Finding)}
    (hRoot : root.tag = "html") (hSection : IsSection t) (hNew : some t ∉ root.childTags)
    (hHead : t = "body" → some "head" ∈ root.childTags) (left : Nat)
    (hCanonical : (Node.element () t a []).Canonical) :
    Builder.addTag ⟨[root], f⟩ left (Tag.openingText t a) =
      ⟨(Place.ofSection root t a).stack false [], f⟩ := by
  obtain ⟨hName, hSlash, hAttributes, hEntries, -⟩ := hCanonical
  have hSettle : Builder.settle ⟨[root], f⟩ (some t) = ⟨[root], f⟩ := by
    have hDirect : Builder.standsInRoot (some t) = true := by
      rcases hSection with rfl | rfl <;> decide
    rw [Builder.settle_mk_root, Builder.enterSection_mk, hDirect, Bool.or_true, if_pos rfl]
  have hIf : ¬(t = "body" ∧ some "head" ∉ root.childTags) := fun h => h.2 (hHead h.1)
  obtain ⟨hOpened, hWithout⟩ := opened_of_child?_eq_none a (child?_eq_none_iff.mpr hNew)
  rw [if_neg hIf, List.append_nil] at hWithout
  rw [addTag_openingText left hName hAttributes (fun e he => (hEntries e he).2)
    (slash_of_canonical hSlash hAttributes fun e he => (hEntries e he).1), hSettle,
    openTag_eq (Tag.notMem_voidTags_of_isSection hSection), if_pos ⟨hSection, congrArg some hRoot⟩,
    Builder.openSection_mk, hOpened, Place.without_eq_mk, hWithout]
  simp [Place.stack, Place.ofSection, Place.top]

theorem read_section (root : OpenElement) {t : String} {a : Attributes} (f : List (Nat × Finding))
    {ns : List (Node Unit)} (hRoot : root.tag = "html") (hSection : IsSection t)
    (hNew : some t ∉ root.childTags) (hHead : t = "body" → some "head" ∈ root.childTags)
    (hCanonical : (Node.element () t a ns).Canonical) (hRereadable : Rereadable false ns)
    (hRests : ∀ n ∈ ns, (Place.ofSection root t a).Rests n.tag?) (more : List Char) :
    read ⟨[root], f⟩ false []
        ('<' :: (Tag.openingText t a ++ '>' :: (forestChars false ns ++
          '<' :: (Tag.closingText t ++ '>' :: more)))) =
      read ⟨[root.add (.element () t a (joinedForest ns))], f⟩ false [] more := by
  obtain ⟨hName, hSlash, hAttributes, hEntries, -⟩ := hCanonical
  have hHtml : t ≠ "html" := by rcases hSection with rfl | rfl <;> decide
  have hPlain : t ∉ Tag.rawTags := by rcases hSection with rfl | rfl <;> decide
  have hRootPlain : root.tag ∉ Tag.rawTags := by rw [hRoot]; decide
  have hAdd : ∀ left, Builder.addTag ⟨[root], f⟩ left (Tag.openingText t a) =
      ⟨(Place.ofSection root t a).stack false [], f⟩ := fun left =>
    addTag_section hRoot hSection hNew hHead left
      ⟨hName, hSlash, hAttributes, hEntries, fun _ => rfl, fun h => absurd h hPlain, by simp⟩
  have hStack : ∀ left, (Builder.addTag ⟨[root], f⟩ left (Tag.openingText t a)).stack =
      (Place.ofSection root t a).top [] :: [root] := by
    intro left
    rw [hAdd]
    rfl
  have hReady : Ready false (Place.ofSection root t a) [] false [] ns :=
    { sound := ⟨hPlain, fun h => by cases h⟩
      run := fun h => absurd rfl h
      rests := hRests
      follows := follows_false _ _
      fit := fun h => absurd h hHtml }
  obtain ⟨f', hInside, hFindings⟩ := forestReads ns hRereadable _ _ _ _ f
    (Tag.closingText t ++ '>' :: more) hReady
  rw [Bool.false_and, closedAfter_false, Bool.false_and, pending_nil, List.nil_append,
    List.nil_append, hFindings rfl] at hInside
  have hClosing : (Tag.read (Tag.closingText t)).name = "/" ++ t := by
    rw [← String.toList_inj, Tag.name_read_closingText hName.toIsName hSlash, String.toList_append]
    rfl
  have hRest : Builder.settle ⟨(Place.ofSection root t a).stack false (joinedForest ns), f⟩
      (some (Tag.read (Tag.closingText t)).name) =
        ⟨(Place.ofSection root t a).stack false (joinedForest ns), f⟩ := by
    rw [hClosing]
    rcases hSection with rfl | rfl
    · exact Place.rests_ofSection a (.inr (by decide)) _ f
    · exact Place.rests_ofSection a (.inl (by decide)) _ f
  obtain ⟨f'', hRead, hFindings'⟩ := read_closingText hRest hName.toIsName hRootPlain more
  rw [read_opening, addRun_nil_reverse, read_tag_plain
    (bracketFree_openingText hName.toIsName hAttributes) _ (hStack _) hPlain, hAdd, hInside, hRead,
    hFindings' rfl hSlash]
  simp only [Place.ofSection, Place.top, shown_of_ne_html hHtml]
  rfl

theorem read_root {a : Attributes} (hCanonical : (Node.element () "html" a []).Canonical)
    (more : List Char) : read {} false [] ('<' :: (Tag.openingText "html" a ++ '>' :: more)) =
      read ⟨[⟨"html", a, []⟩], []⟩ false [] more := by
  obtain ⟨hName, hSlash, hAttributes, hEntries, -⟩ := hCanonical
  have hPlain : "html" ∉ Tag.rawTags := by decide
  exact read_openingText hName hAttributes (fun e he => (hEntries e he).2)
    (slash_of_canonical hSlash hAttributes fun e he => (hEntries e he).1) rfl hPlain more

theorem read_rootClosing (root : OpenElement) (f : List (Nat × Finding)) (hRoot : root.tag = "html")
    (more : List Char) : read ⟨[root], f⟩ false [] ('<' :: (Tag.closingText "html" ++ '>' :: more)) =
      read ⟨[root], f⟩ false [] more := by
  have hName : (Tag.read (Tag.closingText "html")).name = "/html" := by
    rw [← String.toList_inj, Tag.name_read_closingText Tag.isElementName_html.toIsName (by decide)]
    rfl
  have hAdd : ∀ left, Builder.addTag ⟨[root], f⟩ left (Tag.closingText "html") = ⟨[root], f⟩ := by
    intro left
    have hTag := perform_tag ⟨[root], f⟩ left (Tag.closingText "html")
    rw [hName, if_neg (by decide), if_neg (by decide), if_pos (by decide), Builder.settle_mk_root,
      Builder.enterSection_mk, if_pos (by rw [Bool.or_eq_true]; exact .inr (by decide))] at hTag
    exact hTag
  rw [read_opening, addRun_nil_reverse, read_tag_plain
    (bracketFree_closingText Tag.isElementName_html.toIsName) more (by rw [hAdd])
    (by rw [hRoot]; decide), hAdd]

theorem toList_written_document (a aHead aBody : Attributes) (hs bs : List (Node Unit)) :
    ((document a aHead hs aBody bs).written false).toList =
      '<' :: (Tag.openingText "html" a ++ '>' :: '<' :: (Tag.openingText "head" aHead ++
        '>' :: (forestChars false hs ++ '<' :: (Tag.closingText "head" ++ '>' ::
          '<' :: (Tag.openingText "body" aBody ++ '>' :: (forestChars false bs ++
            '<' :: (Tag.closingText "body" ++ '>' :: '<' :: (Tag.closingText "html" ++ ['>'])))))))) := by
  rw [toList_written, document, chars, closingChars_of_notMem (by decide)]
  simp only [forestChars, chars, closingChars_of_notMem (show "head" ∉ Tag.voidTags by decide),
    closingChars_of_notMem (show "body" ∉ Tag.voidTags by decide), List.append_assoc,
    List.cons_append, List.nil_append, List.append_nil]

/-- The content of a section of a canonical document is read back as it is. -/
theorem rereadable_section {t : String} {a : Attributes} {ns : List (Node Unit)} (hPlain : t ∉ Tag.rawTags)
    (hNodes : (Node.element () t a ns).All Canonical) (hSeparate : (Node.element () t a ns).All Separate)
    (hInner : ∀ n ∈ ns, n.All fun m => m.tag? ∉ [some "html", some "head", some "body"]) :
    Rereadable false ns ∧ joinedForest ns = ns := by
  obtain ⟨⟨-, -, -, -, -, -, hTexts⟩, hBelow⟩ := all_iff.mp hNodes
  obtain ⟨hChain, hSeparateBelow⟩ := all_iff.mp hSeparate
  refine ⟨⟨hTexts hPlain, ?_, ?_⟩, ?_⟩
  · intro n hn m hm
    exact (hBelow n hn m hm).lawful
  · intro n hn m hm
    apply (hBelow n hn m hm).readsBack
    intro hTag
    exact hInner n hn m hm (by rw [hTag]; exact List.mem_cons_self)
  · exact joinedForest_eq_self (fun n hn => joined_eq_self (hSeparateBelow n hn)) hChain

/-- Reading canonical markup gives the document that was written, and finds nothing amiss. -/
theorem parse_written {a aHead aBody : Attributes} {hs bs : List (Node Unit)}
    (h : CanonicalDocument a aHead hs aBody bs) :
    parse ((document a aHead hs aBody bs).written false) = ⟨document a aHead hs aBody bs, []⟩ := by
  have hHeadMem : Node.element () "head" aHead hs ∈ (document a aHead hs aBody bs).children :=
    List.mem_cons_self
  have hBodyMem : Node.element () "body" aBody bs ∈ (document a aHead hs aBody bs).children :=
    List.mem_cons_of_mem _ List.mem_cons_self
  obtain ⟨hRoot, hNodes⟩ := all_iff.mp h.nodes
  obtain ⟨-, hSeparate⟩ := all_iff.mp h.separate
  obtain ⟨hHeadReads, hHeadJoined⟩ := rereadable_section (by decide) (hNodes _ hHeadMem)
    (hSeparate _ hHeadMem) (fun n hn => h.inner n (List.mem_append_left _ hn))
  obtain ⟨hBodyReads, hBodyJoined⟩ := rereadable_section (by decide) (hNodes _ hBodyMem)
    (hSeparate _ hBodyMem) (fun n hn => h.inner n (List.mem_append_right _ hn))
  have hHeadCanonical := (all_iff.mp (hNodes _ hHeadMem)).1
  have hBodyCanonical := (all_iff.mp (hNodes _ hBodyMem)).1
  have hRootCanonical : (Node.element () "html" a []).Canonical := by
    obtain ⟨hName, hSlash, hAttributes, hEntries, -⟩ := hRoot
    exact ⟨hName, hSlash, hAttributes, hEntries, fun _ => rfl, fun _ => .inl rfl, by simp⟩
  have hHeadRests : ∀ n ∈ hs, (Place.ofSection ⟨"html", a, []⟩ "head" aHead).Rests n.tag? := by
    intro n hn
    obtain ⟨t, ht, hTag⟩ := h.head n hn
    have hIsHead : Builder.isHeadTag (some t) = true := by simpa [Builder.isHeadTag] using ht
    rw [hTag]
    exact Place.rests_ofSection _ (.inr (Builder.standsInHead_of_isHeadTag hIsHead))
  have hHeadRead := read_section ⟨"html", a, []⟩ [] rfl (.inl rfl) (by simp [childTags])
    (by simp) hHeadCanonical hHeadReads hHeadRests
  have hBodyRead := read_section ⟨"html", a, [.element () "head" aHead hs]⟩ [] rfl
    (.inr rfl) (by simp [childTags, Node.tag?]) (by simp [childTags, Node.tag?]) hBodyCanonical hBodyReads
    (fun n _ => Place.rests_ofSection _ (.inl (by decide)))
  rw [hHeadJoined] at hHeadRead
  rw [hBodyJoined] at hBodyRead
  have hRead : read {} false [] ((document a aHead hs aBody bs).written false).toList =
      ⟨[⟨"html", a, [.element () "head" aHead hs, .element () "body" aBody bs]⟩], []⟩ := by
    rw [toList_written_document, read_root hRootCanonical, hHeadRead]
    simp only [add, List.nil_append]
    rw [hBodyRead, read_rootClosing _ _ rfl, read_nil]
    rfl
  rw [parse, hRead, finish_sections rfl rfl]
  rfl

theorem parse_written_sample :
    let hs := [Node.element () "script" .empty [.text () "a<b"], .element () "meta" ⟨[("name", "k")]⟩ []]
    let bs := [Node.text () "x", .element () "br" .empty [],
      .element () "p" ⟨[("class", "k"), ("hidden", "")]⟩ [.text () "y", .element () "b" .empty []]]
    CanonicalDocument ⟨[("lang", "en")]⟩ .empty hs .empty bs ∧
      parse ((document ⟨[("lang", "en")]⟩ .empty hs .empty bs).written false) =
        ⟨document ⟨[("lang", "en")]⟩ .empty hs .empty bs, []⟩ := by
  intro hs bs
  have h : CanonicalDocument ⟨[("lang", "en")]⟩ .empty hs .empty bs := by decide +kernel
  exact ⟨h, parse_written h⟩

end Markup

end PageRender
