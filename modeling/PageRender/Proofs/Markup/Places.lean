import PageRender.Proofs.Markup.Scanning

/-! # Places in the stack

Where markup is read, an element is open that takes in nodes, inside another one. The place tells how
the stack looks for each list of nodes taken in, and how it looks when the element has been closed. An
`html` element that holds a body and no head shows the empty head that the body brought along.
-/

namespace PageRender.Markup

open OpenElement Node

/-- The nodes with an empty head in front of the body. -/
def withHead : List (Node Unit) → List (Node Unit)
  | [] => []
  | n :: ns => if n.hasTag "body" then .bare "head" :: n :: ns else n :: withHead ns

/-- The nodes inside an open element that has taken in `ks`. -/
def shown (tag : String) (ks : List (Node Unit)) : List (Node Unit) :=
  if tag = "html" ∧ some "head" ∉ ks.map Node.tag? then withHead ks else ks

@[simp] theorem shown_nil (tag : String) : shown tag [] = [] := by
  rw [shown]
  split <;> rfl

theorem shown_of_ne_html {tag : String} (h : tag ≠ "html") (ks : List (Node Unit)) :
    shown tag ks = ks :=
  if_neg (fun hShown => h hShown.1)

theorem withHead_append {ks ns : List (Node Unit)} (h : some "body" ∉ ks.map Node.tag?) :
    withHead (ks ++ ns) = ks ++ withHead ns := by
  induction ks with
  | nil => rfl
  | cons k ks ih =>
    rw [List.map_cons, List.mem_cons, not_or] at h
    have hTag : ¬k.hasTag "body" = true := fun hTag => h.1 (hasTag_iff.mp hTag).symm
    rw [List.cons_append, withHead, if_neg hTag, ih h.2, List.cons_append]

theorem withHead_eq_self {ks : List (Node Unit)} (h : some "body" ∉ ks.map Node.tag?) :
    withHead ks = ks := by
  have hAppend : withHead (ks ++ []) = ks ++ withHead [] := withHead_append h
  rwa [List.append_nil, withHead, List.append_nil] at hAppend

theorem exists_append_of_mem_tags {ks : List (Node Unit)} {tag : String}
    (h : some tag ∈ ks.map Node.tag?) : ∃ before n after, ks = before ++ n :: after ∧
      some tag ∉ before.map Node.tag? ∧ n.tag? = some tag := by
  induction ks with
  | nil => cases h
  | cons k ks ih =>
    by_cases hTag : k.tag? = some tag
    · exact ⟨[], k, ks, rfl, List.not_mem_nil, hTag⟩
    · rw [List.map_cons, List.mem_cons] at h
      obtain ⟨before, n, after, rfl, hBefore, hn⟩ := ih (h.resolve_left fun hEq => hTag hEq.symm)
      refine ⟨k :: before, n, after, rfl, ?_, hn⟩
      rw [List.map_cons, List.mem_cons, not_or]
      exact ⟨fun hEq => hTag hEq.symm, hBefore⟩

theorem withHead_append_body {before after : List (Node Unit)} {n : Node Unit}
    (h : some "body" ∉ before.map Node.tag?) (hTag : n.tag? = some "body") :
    withHead (before ++ n :: after) = before ++ .bare "head" :: n :: after := by
  rw [withHead_append h, withHead, if_pos (hasTag_iff.mpr hTag)]

theorem section?_eq_none_iff {n : Node Unit} :
    n.section? = none ↔ n.tag? ≠ some "head" ∧ n.tag? ≠ some "body" := by
  cases n with
  | text => simp [Node.section?, Node.tag?]
  | element i t a cs => simp [Node.section?, Node.tag?]

/-- Nodes other than sections are shown behind the others. -/
theorem shown_append {tag : String} {ks ns : List (Node Unit)} (h : ∀ n ∈ ns, n.section? = none) :
    shown tag (ks ++ ns) = shown tag ks ++ ns := by
  have hHead : some "head" ∉ ns.map Node.tag? := by
    intro hMem
    obtain ⟨n, hn, hTag⟩ := List.mem_map.mp hMem
    exact (section?_eq_none_iff.mp (h n hn)).1 hTag
  have hBody : some "body" ∉ ns.map Node.tag? := by
    intro hMem
    obtain ⟨n, hn, hTag⟩ := List.mem_map.mp hMem
    exact (section?_eq_none_iff.mp (h n hn)).2 hTag
  have hIff : some "head" ∉ (ks ++ ns).map Node.tag? ↔ some "head" ∉ ks.map Node.tag? := by
    simp only [List.map_append, List.mem_append, hHead, or_false]
  rw [shown, shown]
  simp only [hIff]
  split
  · by_cases hKs : some "body" ∈ ks.map Node.tag?
    · obtain ⟨before, n, after, rfl, hBefore, hTag⟩ := exists_append_of_mem_tags hKs
      rw [List.append_assoc, List.cons_append, withHead_append_body hBefore hTag,
        withHead_append_body hBefore hTag, List.append_assoc]
      rfl
    · rw [withHead_append hKs, withHead_eq_self hBody, withHead_eq_self hKs]
  · rfl

theorem sections_append (ks ns : List (Node Unit)) : sections (ks ++ ns) = sections ks ++ sections ns :=
  List.filterMap_append

theorem mem_tags_iff {ks : List (Node Unit)} {tag : String} (h : IsSection tag) :
    some tag ∈ ks.map Node.tag? ↔ tag ∈ (sections ks).map Prod.fst := by
  rw [List.mem_map, List.mem_map]
  constructor
  · rintro ⟨n, hn, hTag⟩
    cases n with
    | text => cases hTag
    | element i t a cs =>
      obtain rfl : t = tag := by simpa [Node.tag?] using hTag
      exact ⟨(t, a), List.mem_filterMap.mpr ⟨_, hn, if_pos h⟩, rfl⟩
  · rintro ⟨⟨t, a⟩, hMem, rfl⟩
    obtain ⟨n, hn, hSection⟩ := List.mem_filterMap.mp hMem
    refine ⟨n, hn, ?_⟩
    cases n with
    | text => cases hSection
    | element i t' a' cs =>
      rw [Node.section?] at hSection
      split at hSection
      · cases hSection
        rfl
      · cases hSection

theorem shown_of_fit {tag : String} {ks : List (Node Unit)} (h : SectionsFit (sections ks)) :
    shown tag ks = ks := by
  rw [shown]
  split
  · rename_i hNone
    apply withHead_eq_self
    rw [mem_tags_iff (.inl rfl)] at hNone
    rw [mem_tags_iff (.inr rfl)]
    generalize sections ks = l at h hNone
    cases h <;> simp at hNone ⊢
  · rfl

theorem sectionsFit_append_cases {l l' : List (String × Attributes)} {t : String} {a : Attributes}
    (h : SectionsFit (l ++ (t, a) :: l')) :
    (l = [] ∧ IsSection t) ∨ (∃ b, l = [("head", b)] ∧ t = "body") ∨
      ∃ b, l = [("body", b)] ∧ t = "head" ∧ a = .empty := by
  generalize hWhole : l ++ (t, a) :: l' = whole at h
  cases h with
  | none => simp at hWhole
  | head b =>
    obtain ⟨rfl, hEq⟩ := (List.append_eq_singleton_iff.mp hWhole).resolve_right (by simp)
    exact .inl ⟨rfl, .inl (by simpa using congrArg Prod.fst (List.cons.inj hEq).1)⟩
  | both b b' =>
    match l with
    | [] => exact .inl ⟨rfl, .inl (by simpa using congrArg Prod.fst (List.cons.inj hWhole).1)⟩
    | [e] =>
      obtain ⟨rfl, hEq⟩ := List.cons.inj hWhole
      exact .inr (.inl ⟨b, rfl, by simpa using congrArg Prod.fst (List.cons.inj hEq).1⟩)
    | e :: e' :: l => simp at hWhole
  | bodyFirst b =>
    match l with
    | [] => exact .inl ⟨rfl, .inr (by simpa using congrArg Prod.fst (List.cons.inj hWhole).1)⟩
    | [e] =>
      obtain ⟨rfl, hEq⟩ := List.cons.inj hWhole
      have hHead := (List.cons.inj hEq).1
      exact .inr (.inr ⟨b, rfl, congrArg Prod.fst hHead, congrArg Prod.snd hHead⟩)
    | e :: e' :: l => simp at hWhole

/-- An open element, and the elements around it from the inside out. -/
structure Place where
  tag : String
  attributes : Attributes
  parent : OpenElement
  around : List OpenElement

namespace Place

def top (p : Place) (ks : List (Node Unit)) : OpenElement :=
  ⟨p.tag, p.attributes, shown p.tag ks⟩

/-- The stack when the element has taken in `ks`, and when it is closed then. -/
def stack (p : Place) (closed : Bool) (ks : List (Node Unit)) : List OpenElement :=
  match closed with
  | false => p.top ks :: p.parent :: p.around
  | true => p.parent.add (p.top ks).close :: p.around

/-- The place inside a new element, which leaves `ks` in the element around it. -/
def child (p : Place) (t : String) (a : Attributes) (ks : List (Node Unit)) : Place :=
  ⟨t, a, ⟨p.tag, p.attributes, ks⟩, p.parent :: p.around⟩

/-- Nothing is implied by a tag or a text. -/
def Rests (p : Place) (tag : Option String) : Prop :=
  ∀ ks f, Builder.settle ⟨p.stack false ks, f⟩ tag = ⟨p.stack false ks, f⟩

def Reopens (p : Place) (tag : Option String) : Prop :=
  ∀ ks f, Builder.settle ⟨p.stack true ks, f⟩ tag = ⟨p.stack false ks, f⟩

theorem rests_child (p : Place) (t : String) (a : Attributes) (ks : List (Node Unit))
    (tag : Option String) : (p.child t a ks).Rests tag :=
  fun _ _ => Builder.settle_mk_deep _ _ _ _ _ _

def ofSection (root : OpenElement) (t : String) (a : Attributes) : Place :=
  ⟨t, a, root, []⟩

theorem rests_ofSection {root : OpenElement} {t : String} {tag : Option String} (a : Attributes)
    (h : t ≠ "head" ∨ Builder.standsInHead tag = true) : (ofSection root t a).Rests tag := by
  intro ks f
  have hStays : ¬(t == "head" && root.tag == "html" && !Builder.standsInHead tag) = true := by
    rcases h with hBody | hStands
    · simp [hBody]
    · simp [hStands]
  exact (Builder.settle_mk_section _ root f tag).trans (if_neg hStays)

/-- Tags are read here for what they are. -/
structure Sound (closeVoid : Bool) (p : Place) : Prop where
  plain : p.tag ∉ Tag.rawTags
  outer : closeVoid = true → p.parent.tag ∉ Tag.rawTags ∧ ∀ tag, p.Rests tag

theorem Sound.child {closeVoid : Bool} {p : Place} (h : p.Sound closeVoid) {t : String}
    (hPlain : t ∉ Tag.rawTags) (a : Attributes) (ks : List (Node Unit)) :
    (p.child t a ks).Sound closeVoid :=
  ⟨hPlain, fun _ => ⟨h.plain, p.rests_child t a ks⟩⟩

theorem find?_withHead {before : List (Node Unit)} (n : Node Unit) (after : List (Node Unit))
    (h : some "head" ∉ before.map Node.tag?) :
    (before ++ Node.bare "head" :: n :: after).find? (Node.hasTag "head") = some (.bare "head") ∧
      (before ++ Node.bare "head" :: n :: after).eraseP (Node.hasTag "head") = before ++ n :: after := by
  have hNone : ∀ m ∈ before, ¬m.hasTag "head" = true :=
    fun m hm hTag => h (List.mem_map.mpr ⟨m, hm, hasTag_iff.mp hTag⟩)
  constructor
  · rw [List.find?_append, List.find?_eq_none.mpr hNone]
    rfl
  · rw [List.eraseP_append_right _ hNone]
    rfl

theorem without_eq_mk (e : OpenElement) (t : String) :
    e.without t = ⟨e.tag, e.attributes, (e.without t).children⟩ := by
  rw [without]
  split
  · rfl
  · split <;> rfl

theorem shown_of_mem {tag : String} {ks : List (Node Unit)} (h : some "head" ∈ ks.map Node.tag?) :
    shown tag ks = ks :=
  if_neg (fun hShown => hShown.2 h)

theorem shown_of_notMem {tag : String} {ks : List (Node Unit)} (h : some "body" ∉ ks.map Node.tag?) :
    shown tag ks = ks := by
  rw [shown]
  split
  · exact withHead_eq_self h
  · rfl

section

variable {p : Place} {ks : List (Node Unit)} {t : String} {a : Attributes}

theorem openSection_top {ws : List (Node Unit)} (hOpened : (p.top ks).opened t a = ⟨t, a, []⟩)
    (hWithout : ((p.top ks).without t).children = ws) (f : List (Nat × Finding)) :
    Builder.openSection ⟨p.stack false ks, f⟩ t a = ⟨(p.child t a ws).stack false [], f⟩ := by
  rw [stack, Builder.openSection_mk, hOpened, without_eq_mk, hWithout]
  simp [stack, child, top]

theorem childTags_top (h : shown p.tag ks = ks) : (p.top ks).childTags = ks.map Node.tag? := by
  rw [childTags, top, h]

/-- A section that is not there yet is opened behind what is there, a body behind a head. -/
theorem openSection_new (hShown : shown p.tag ks = ks) (hNew : some t ∉ ks.map Node.tag?)
    (hHead : t = "body" → some "head" ∈ ks.map Node.tag?) (f : List (Nat × Finding)) :
    Builder.openSection ⟨p.stack false ks, f⟩ t a = ⟨(p.child t a ks).stack false [], f⟩ := by
  rw [← childTags_top hShown] at hNew hHead
  obtain ⟨hOpened, hWithout⟩ := opened_of_child?_eq_none a (child?_eq_none_iff.mpr hNew)
  refine openSection_top hOpened ?_ f
  rw [hWithout, if_neg (fun hBoth => hBoth.2 (hHead hBoth.1)), List.append_nil]
  exact hShown

theorem openSection_body (hShown : shown p.tag ks = ks) (hHead : some "head" ∉ ks.map Node.tag?)
    (hBody : some "body" ∉ ks.map Node.tag?) (f : List (Nat × Finding)) :
    Builder.openSection ⟨p.stack false ks, f⟩ "body" a =
      ⟨(p.child "body" a (ks ++ [.bare "head"])).stack false [], f⟩ := by
  rw [← childTags_top hShown] at hHead hBody
  obtain ⟨hOpened, hWithout⟩ := opened_of_child?_eq_none a (child?_eq_none_iff.mpr hBody)
  refine openSection_top hOpened ?_ f
  rw [hWithout, if_pos ⟨rfl, hHead⟩]
  simp only [top, hShown]

/-- The head that came with the body makes way for the one that is read. -/
theorem openSection_head (hTag : p.tag = "html") (hHead : some "head" ∉ ks.map Node.tag?)
    (hBody : some "body" ∈ ks.map Node.tag?) (f : List (Nat × Finding)) :
    Builder.openSection ⟨p.stack false ks, f⟩ "head" .empty =
      ⟨(p.child "head" .empty ks).stack false [], f⟩ := by
  obtain ⟨before, n, after, rfl, hBefore, hn⟩ := exists_append_of_mem_tags hBody
  have hShown : shown p.tag (before ++ n :: after) = before ++ .bare "head" :: n :: after := by
    rw [shown, if_pos ⟨hTag, hHead⟩, withHead_append_body hBefore hn]
  rw [List.map_append, List.mem_append, not_or] at hHead
  obtain ⟨hFind, hErase⟩ := find?_withHead n after hHead.1
  have hChild : (p.top (before ++ n :: after)).child? "head" = some (.bare "head") := by
    rw [child?, top]
    simp only [hShown, hFind]
  refine openSection_top ?_ ?_ f
  · rw [opened, hChild]
    rfl
  · rw [without, hChild, top]
    simp only [hShown, hErase]

/-- A section is opened inside an `html` element as if nothing had been shown that is not there. -/
theorem openSection_place {l : List (String × Attributes)} (hTag : p.tag = "html")
    (hFit : SectionsFit (sections ks ++ (t, a) :: l)) :
    ∃ ws, (∀ f, Builder.openSection ⟨p.stack false ks, f⟩ t a = ⟨(p.child t a ws).stack false [], f⟩) ∧
      ∀ cs, ws ++ [.element () t a cs] = shown p.tag (ks ++ [.element () t a cs]) := by
  have hHead : some "head" ∈ ks.map Node.tag? ↔ _ := mem_tags_iff (.inl rfl)
  have hBody : some "body" ∈ ks.map Node.tag? ↔ _ := mem_tags_iff (.inr rfl)
  have hMem : ∀ cs, some t ∈ (ks ++ [Node.element () t a cs]).map Node.tag? := by
    intro cs
    simp [Node.tag?]
  rcases sectionsFit_append_cases hFit with ⟨hNone, rfl | rfl⟩ | ⟨b, hOne, rfl⟩ | ⟨b, hOne, rfl, rfl⟩
  · rw [hNone] at hHead hBody
    have hNoHead : some "head" ∉ ks.map Node.tag? := by simp [hHead]
    have hShown : shown p.tag ks = ks := shown_of_notMem (by simp [hBody])
    exact ⟨ks, openSection_new hShown hNoHead (by simp), fun cs => (shown_of_mem (hMem cs)).symm⟩
  · rw [hNone] at hHead hBody
    have hNoHead : some "head" ∉ ks.map Node.tag? := by simp [hHead]
    have hNoBody : some "body" ∉ ks.map Node.tag? := by simp [hBody]
    refine ⟨ks ++ [.bare "head"], openSection_body (shown_of_notMem hNoBody) hNoHead hNoBody, ?_⟩
    intro cs
    rw [shown, if_pos ⟨hTag, by simpa [Node.tag?] using hNoHead⟩, withHead_append_body hNoBody rfl,
      List.append_assoc]
    rfl
  · rw [hOne] at hHead hBody
    have hIsHead : some "head" ∈ ks.map Node.tag? := by simp [hHead]
    have hNoBody : some "body" ∉ ks.map Node.tag? := by simp [hBody]
    refine ⟨ks, openSection_new (shown_of_mem hIsHead) hNoBody (fun _ => hIsHead), ?_⟩
    intro cs
    rw [shown_of_mem]
    rw [List.map_append, List.mem_append]
    exact .inl hIsHead
  · rw [hOne] at hHead hBody
    have hNoHead : some "head" ∉ ks.map Node.tag? := by simp [hHead]
    exact ⟨ks, openSection_head hTag hNoHead (hBody.mpr (by simp)),
      fun cs => (shown_of_mem (hMem cs)).symm⟩

end

/-- An element that is not void is opened inside the innermost one. -/
theorem openTag_place {p : Place} {ks : List (Node Unit)} {t : String} {a : Attributes}
    {l : List (String × Attributes)} (hVoid : t ∉ Tag.voidTags)
    (hFit : p.tag = "html" → IsSection t → SectionsFit (sections ks ++ (t, a) :: l)) :
    ∃ ws, (∀ f, Builder.openTag ⟨p.stack false ks, f⟩ ⟨t, a⟩ = ⟨(p.child t a ws).stack false [], f⟩) ∧
      ∀ cs, ws ++ [.element () t a cs] = shown p.tag (ks ++ [.element () t a cs]) := by
  have hOpen : ∀ f, Builder.openTag ⟨p.stack false ks, f⟩ ⟨t, a⟩ =
      if p.tag = "html" ∧ IsSection t then Builder.openSection ⟨p.stack false ks, f⟩ t a
      else ⟨(p.child t a (shown p.tag ks)).stack false [], f⟩ := by
    intro f
    have hIf : IsSection t ∧ (Builder.openTags ⟨p.stack false ks, f⟩).head? = some "html" ↔
        p.tag = "html" ∧ IsSection t := by
      simp [Builder.openTags, stack, top, and_comm]
    rw [openTag_eq hVoid]
    simp only [hIf]
    split
    · rfl
    · simp [Builder.push, stack, child, top]
  by_cases hSection : p.tag = "html" ∧ IsSection t
  · obtain ⟨ws, hStack, hShown⟩ := openSection_place hSection.1 (hFit hSection.1 hSection.2)
    exact ⟨ws, fun f => by rw [hOpen, if_pos hSection, hStack], hShown⟩
  · refine ⟨shown p.tag ks, fun f => by rw [hOpen, if_neg hSection], ?_⟩
    intro cs
    by_cases hTag : p.tag = "html"
    · rw [shown_append]
      rw [List.forall_mem_singleton]
      exact if_neg (fun hName => hSection ⟨hTag, hName⟩)
    · rw [shown_of_ne_html hTag, shown_of_ne_html hTag]

end Place

end PageRender.Markup
