import PageRender.Proofs.Markup.DocumentShape

/-! # The order of the texts

Every run of text that shows anything comes into the head or the body, once. In both they stand in
the order of the source, unless a section is reopened inside an `html` element other than the root:
then it is taken from its place and its texts come after those that stood behind it.
-/

namespace PageRender.Markup

open OpenElement

/-- A list is divided in two, each part in the order of the whole. -/
inductive Splits {α : Type} : List α → List α → List α → Prop
  | nil : Splits [] [] []
  | left {whole l r : List α} (x : α) (h : Splits whole l r) : Splits (x :: whole) (x :: l) r
  | right {whole l r : List α} (x : α) (h : Splits whole l r) : Splits (x :: whole) l (x :: r)

namespace Splits

variable {α : Type}

theorem all_left (xs : List α) : Splits xs xs [] := by
  induction xs with
  | nil => exact .nil
  | cons x xs ih => exact .left x ih

theorem all_right (xs : List α) : Splits xs [] xs := by
  induction xs with
  | nil => exact .nil
  | cons x xs ih => exact .right x ih

theorem append {whole l r whole' l' r' : List α} (h : Splits whole l r) (h' : Splits whole' l' r') :
    Splits (whole ++ whole') (l ++ l') (r ++ r') := by
  induction h with
  | nil => exact h'
  | left x _ ih => exact .left x ih
  | right x _ ih => exact .right x ih

end Splits

/-- The section of the root that is open. -/
def openSection? : List OpenElement → Option String
  | [] => none
  | [_] => none
  | [s, _] => some s.tag
  | _ :: e :: e' :: rest => openSection? (e :: e' :: rest)

/-- The texts of a section of the root, of which a part may be open. -/
def sectionTexts (tag : String) : List OpenElement → List String
  | [] => []
  | [root] => Node.forestTexts (root.children.filter (Node.hasTag tag))
  | e :: e' :: rest => sectionTexts tag (e' :: rest) ++
      if openSection? (e :: e' :: rest) = some tag then Node.forestTexts e.children else []

theorem openSection?_of_tag_eq {e f e' : OpenElement} {rest : List OpenElement} (h : e.tag = f.tag) :
    openSection? (e :: e' :: rest) = openSection? (f :: e' :: rest) := by
  cases rest with
  | nil => rw [openSection?, openSection?, h]
  | cons => rfl

theorem isSection_openSection? {e e' : OpenElement} {rest : List OpenElement}
    (h : Rooted (e :: e' :: rest)) : ∃ t, openSection? (e :: e' :: rest) = some t ∧ IsSection t := by
  induction rest generalizing e e' with
  | nil => exact ⟨e.tag, rfl, section_of_rooted h⟩
  | cons e'' rest ih => exact ih h

theorem sectionTexts_add {e e' : OpenElement} {rest : List OpenElement} (n : Node Unit) (tag : String) :
    sectionTexts tag (e.add n :: e' :: rest) = sectionTexts tag (e :: e' :: rest) ++
      if openSection? (e :: e' :: rest) = some tag then n.texts else [] := by
  rw [sectionTexts, sectionTexts, openSection?_of_tag_eq (e := e.add n) (f := e) rfl, List.append_assoc]
  split
  · rw [add, Node.forestTexts_append, Node.forestTexts_cons, Node.forestTexts_nil, List.append_nil]
  · rfl

theorem sectionTexts_deep (e e' : OpenElement) (rest : List OpenElement) (tag : String) :
    sectionTexts tag (e :: e' :: rest) = sectionTexts tag (e' :: rest) ++
      if openSection? (e :: e' :: rest) = some tag then Node.forestTexts e.children else [] := rfl

theorem sectionTexts_close (e e' : OpenElement) (rest : List OpenElement) (tag : String) :
    sectionTexts tag (e'.add e.close :: rest) = sectionTexts tag (e :: e' :: rest) := by
  cases rest with
  | nil =>
    rw [sectionTexts_deep, sectionTexts, sectionTexts, openSection?, add, List.filter_append,
      Node.forestTexts_append]
    congr 1
    by_cases hTag : e.tag = tag <;> simp [close, Node.hasTag, Node.tag?, hTag]
  | cons e'' rest =>
    rw [sectionTexts_add, sectionTexts_deep e, close, Node.texts_element]
    rfl

theorem openSection?_of_section {e e' : OpenElement} {rest : List OpenElement} {t : String}
    (a : Attributes) : openSection? (e.opened t a :: e.without t :: e' :: rest) =
      openSection? (e :: e' :: rest) := by
  rw [openSection?]
  exact openSection?_of_tag_eq (without_tag e t)

theorem after_eq_nil {e : OpenElement} {t : String} (h : e.child? t = none) : e.after t = [] := by
  rw [after]
  cases hDrop : e.children.dropWhile (!Node.hasTag t ·) with
  | nil => rfl
  | cons n ns =>
    have hMem : n ∈ e.children :=
      (List.dropWhile_sublist (!Node.hasTag t ·)).mem (by rw [hDrop]; exact List.mem_cons_self)
    have hTag := List.head?_dropWhile_not (!Node.hasTag t ·) e.children
    rw [hDrop] at hTag
    exact absurd (by simpa using hTag) (List.find?_eq_none.mp h n hMem)

theorem forestTexts_opened (e : OpenElement) (t : String) (a : Attributes) :
    ∃ before, Node.forestTexts e.children = before ++ (Node.forestTexts (e.opened t a).children ++
        Node.forestTexts (e.after t)) ∧
      Node.forestTexts (e.without t).children = before ++ Node.forestTexts (e.after t) := by
  cases hChild : e.child? t with
  | some n =>
    obtain ⟨before, hChildren, -, hWithout, -⟩ := opened_of_child? a hChild
    refine ⟨Node.forestTexts before, ?_, ?_⟩
    · rw [hChildren, Node.forestTexts_append, Node.forestTexts_cons, close, Node.texts_element]
    · rw [hWithout, Node.forestTexts_append]
  | none =>
    obtain ⟨hOpened, hWithout⟩ := opened_of_child?_eq_none a hChild
    refine ⟨Node.forestTexts e.children, ?_, ?_⟩
    · simp [hOpened, after_eq_nil hChild]
    · rw [hWithout, after_eq_nil hChild, Node.forestTexts_append]
      split <;> simp [Node.bare]

/-- Opening a section inside an element that is not the root takes its texts over those after it. -/
theorem sectionTexts_reopened (e e' : OpenElement) (rest : List OpenElement) (t : String)
    (a : Attributes) (tag : String) :
    ∃ before, sectionTexts tag (e :: e' :: rest) = before ++
        (if openSection? (e :: e' :: rest) = some tag then
          Node.forestTexts (e.opened t a).children ++ Node.forestTexts (e.after t) else []) ∧
      sectionTexts tag (e.opened t a :: e.without t :: e' :: rest) = before ++
        (if openSection? (e :: e' :: rest) = some tag then
          Node.forestTexts (e.after t) ++ Node.forestTexts (e.opened t a).children else []) := by
  obtain ⟨before, hChildren, hWithout⟩ := forestTexts_opened e t a
  rw [sectionTexts_deep, sectionTexts_deep, sectionTexts_deep, openSection?_of_section,
    openSection?_of_tag_eq (without_tag e t), hChildren, hWithout]
  split
  · exact ⟨sectionTexts tag (e' :: rest) ++ before, by simp, by simp⟩
  · exact ⟨sectionTexts tag (e' :: rest), by simp, by simp⟩

theorem filter_eq_nil_of_notMem {ns : List (Node Unit)} {t : String} (h : some t ∉ ns.map Node.tag?) :
    ns.filter (Node.hasTag t) = [] := by
  rw [List.filter_eq_nil_iff]
  intro n hn hTag
  exact h (List.mem_map.mpr ⟨n, hn, hasTag_iff.mp hTag⟩)

/-- Opening a section of the root takes its texts nowhere, since the sections are told apart. -/
theorem sectionTexts_opened {root : OpenElement} (h : Rooted [root]) (t : String) (a : Attributes)
    (tag : String) :
    sectionTexts tag [root.opened t a, root.without t] = sectionTexts tag [root] := by
  rw [sectionTexts_deep, sectionTexts, sectionTexts, openSection?, opened_tag]
  cases hChild : root.child? t with
  | some n =>
    obtain ⟨before, hChildren, -, hWithout, hBefore⟩ := opened_of_child? a hChild
    have hAfter : some t ∉ (root.after t).map Node.tag? := by
      have hDistinct := h.2.1
      rw [childTags, hChildren, List.map_append, List.map_cons, List.nodup_append] at hDistinct
      have hTag : (root.opened t a).close.tag? = some t := by simp [close, Node.tag?]
      rw [hTag] at hDistinct
      exact (List.nodup_cons.mp hDistinct.2.1).1
    rw [hChildren, hWithout]
    by_cases hTag : t = tag
    · subst hTag
      have hOpened : (root.opened t a).close.hasTag t = true := by simp [close, Node.hasTag, Node.tag?]
      rw [if_pos rfl, List.filter_append, List.filter_append, filter_eq_nil_of_notMem hBefore,
        List.filter_cons_of_pos hOpened, filter_eq_nil_of_notMem hAfter]
      simp [close]
    · have hOpened : ¬(root.opened t a).close.hasTag tag = true := by
        simpa [close, Node.hasTag, Node.tag?] using hTag
      rw [if_neg (hTag ∘ Option.some.inj), List.append_nil, List.filter_append, List.filter_append,
        List.filter_cons_of_neg hOpened]
  | none =>
    obtain ⟨hOpened, hWithout⟩ := opened_of_child?_eq_none a hChild
    rw [hOpened, hWithout, List.filter_append, Node.forestTexts_append]
    have hHead : Node.forestTexts ((if t = "body" ∧ some "head" ∉ root.childTags then
        [Node.bare "head"] else []).filter (Node.hasTag tag)) = [] := by
      rw [Node.forestTexts, List.flatMap_eq_nil_iff]
      intro n hn
      have hn := (List.mem_filter.mp hn).1
      split at hn
      · rw [List.mem_singleton.mp hn, Node.bare, Node.texts_element]
        rfl
      · cases hn
    rw [hHead]
    simp

/-- From one stack to another the sections take in texts, each in the order of the source; what they
held stays in front if the moves leave it in order. -/
def Grows (s s' : List OpenElement) (ts : List String) (inOrder : Prop) : Prop :=
  ∃ h d, Splits ts h d ∧
    (sectionTexts "head" s').Perm (sectionTexts "head" s ++ h) ∧
    (sectionTexts "body" s').Perm (sectionTexts "body" s ++ d) ∧
    (inOrder → sectionTexts "head" s' = sectionTexts "head" s ++ h ∧
      sectionTexts "body" s' = sectionTexts "body" s ++ d)

namespace Grows

variable {s s' s'' : List OpenElement} {ts ts' : List String} {p p' : Prop}

theorem of_eq (h : ∀ t, IsSection t → sectionTexts t s' = sectionTexts t s) : Grows s s' [] p := by
  have hHead := h "head" (.inl rfl)
  have hBody := h "body" (.inr rfl)
  refine ⟨[], [], .nil, ?_, ?_, ?_⟩
  · rw [hHead, List.append_nil]
  · rw [hBody, List.append_nil]
  · intro _
    exact ⟨by rw [hHead, List.append_nil], by rw [hBody, List.append_nil]⟩

theorem trans (h : Grows s s' ts p) (h' : Grows s' s'' ts' p') :
    Grows s s'' (ts ++ ts') (p ∧ p') := by
  obtain ⟨head, body, hSplits, hHead, hBody, hEq⟩ := h
  obtain ⟨head', body', hSplits', hHead', hBody', hEq'⟩ := h'
  refine ⟨head ++ head', body ++ body', hSplits.append hSplits', ?_, ?_, ?_⟩
  · rw [← List.append_assoc]
    exact hHead'.trans (hHead.append_right head')
  · rw [← List.append_assoc]
    exact hBody'.trans (hBody.append_right body')
  · rintro ⟨hp, hp'⟩
    obtain ⟨hEqHead, hEqBody⟩ := hEq hp
    obtain ⟨hEqHead', hEqBody'⟩ := hEq' hp'
    rw [hEqHead', hEqHead, hEqBody', hEqBody]
    exact ⟨List.append_assoc _ _ _, List.append_assoc _ _ _⟩

theorem mono (h : Grows s s' ts p) (hImp : p' → p) : Grows s s' ts p' := by
  obtain ⟨head, body, hSplits, hHead, hBody, hEq⟩ := h
  exact ⟨head, body, hSplits, hHead, hBody, hEq ∘ hImp⟩

end Grows

theorem grows_text {e e' : OpenElement} {rest : List OpenElement} (t : String) {p : Prop}
    (h : Rooted (e :: e' :: rest)) :
    Grows (e :: e' :: rest) (e.add (.text () t) :: e' :: rest) [t] p := by
  obtain ⟨u, hOpen, hSection⟩ := isSection_openSection? h
  have hTexts : ∀ tag, sectionTexts tag (e.add (.text () t) :: e' :: rest) =
      sectionTexts tag (e :: e' :: rest) ++ if u = tag then [t] else [] := by
    intro tag
    rw [sectionTexts_add, hOpen, Node.texts_text]
    simp only [Option.some.injEq]
  rcases hSection with rfl | rfl
  · refine ⟨[t], [], .all_left [t], ?_, ?_, ?_⟩
    · rw [hTexts, if_pos rfl]
    · rw [hTexts, if_neg (by decide)]
    · intro _
      rw [hTexts, hTexts, if_pos rfl, if_neg (by decide)]
      exact ⟨rfl, rfl⟩
  · refine ⟨[], [t], .all_right [t], ?_, ?_, ?_⟩
    · rw [hTexts, if_neg (by decide)]
    · rw [hTexts, if_pos rfl]
    · intro _
      rw [hTexts, hTexts, if_pos rfl, if_neg (by decide)]
      exact ⟨rfl, rfl⟩

theorem grows_section_ {e : OpenElement} {rest : List OpenElement} (t : String) (a : Attributes)
    (h : Rooted (e :: rest)) :
    Grows (e :: rest) (e.opened t a :: e.without t :: rest) [] (¬(Effect.ofSection e rest t).Reorders) := by
  cases rest with
  | nil => exact .of_eq fun tag _ => sectionTexts_opened h t a tag
  | cons e' rest =>
    have hPerm : ∀ tag, (sectionTexts tag (e.opened t a :: e.without t :: e' :: rest)).Perm
        (sectionTexts tag (e :: e' :: rest) ++ []) := by
      intro tag
      obtain ⟨before, hBefore, hAfter⟩ := sectionTexts_reopened e e' rest t a tag
      rw [hBefore, hAfter, List.append_nil]
      apply List.Perm.append_left
      split
      · exact List.perm_append_comm
      · exact .nil
    have hEq : ¬(Effect.ofSection e (e' :: rest) t).Reorders → ∀ tag,
        sectionTexts tag (e.opened t a :: e.without t :: e' :: rest) =
          sectionTexts tag (e :: e' :: rest) ++ [] := by
      intro hOrder tag
      obtain ⟨before, hBefore, hAfter⟩ := sectionTexts_reopened e e' rest t a tag
      rw [hBefore, hAfter, List.append_nil]
      split
      · congr 1
        cases hChild : e.child? t with
        | none =>
          rw [(opened_of_child?_eq_none a hChild).1]
          simp
        | some n =>
          obtain ⟨-, -, hClose, -⟩ := opened_of_child? a hChild
          have hEffect : Effect.ofSection e (e' :: rest) t =
              .moved n.texts (Node.forestTexts (e.after t)) := by
            simp only [Effect.ofSection, hChild]
          rw [hEffect, ← hClose, close, Node.texts_element] at hOrder
          exact (Decidable.not_not.mp hOrder).symm
      · rfl
    exact ⟨[], [], .nil, hPerm "head", hPerm "body", fun hOrder => ⟨hEq hOrder "head", hEq hOrder "body"⟩⟩

theorem Move.grows {s s' : List OpenElement} {l : Effect} (h : Rooted s) (hMove : Move s l s') :
    Grows s s' l.texts (¬l.Reorders) := by
  cases hMove with
  | root => exact .of_eq fun _ _ => rfl
  | text => exact grows_text _ h
  | void =>
    refine .of_eq fun tag _ => ?_
    rw [sectionTexts_add]
    simp
  | push =>
    refine .of_eq fun tag _ => ?_
    rw [sectionTexts_deep]
    simp
  | section_ =>
    rw [Effect.texts_ofSection]
    exact grows_section_ _ _ h
  | close => exact .of_eq fun tag _ => sectionTexts_close _ _ _ tag

theorem Moves.grows {s s' : List OpenElement} {ls : List Effect} (h : Rooted s)
    (hMoves : Moves s ls s') : Grows s s' (ls.flatMap Effect.texts) (∀ l ∈ ls, ¬l.Reorders) := by
  induction hMoves with
  | nil => exact .of_eq fun _ _ => rfl
  | cons first _ ih =>
    rw [List.flatMap_cons]
    refine ((first.grows h).trans (ih (first.rooted h))).mono ?_
    intro hOrder
    exact List.forall_mem_cons.mp hOrder

theorem perform_grows {b : Builder} {a : Action} (h : Rooted b.stack) (hFits : a.Fits b) :
    Grows b.stack (perform b a).stack a.texts (¬a.Displaces b) := by
  obtain ⟨ls, hMoves, hTexts, hReorders⟩ := exists_explains h hFits
  rw [← hTexts]
  refine (hMoves.grows h).mono ?_
  intro hOrder l hl hDisplaces
  exact hOrder (hReorders l hl hDisplaces)

/-- No action of a run displaces a text. -/
def InOrder (b : Builder) : List Action → Prop
  | [] => True
  | a :: as => ¬a.Displaces b ∧ InOrder (perform b a) as

theorem perform_rooted {b : Builder} {a : Action} (h : Rooted b.stack) (hFits : a.Fits b) :
    Rooted (perform b a).stack := by
  obtain ⟨ls, hMoves, -⟩ := exists_explains h hFits
  exact hMoves.rooted h

theorem foldl_perform_grows {b : Builder} {as : List Action} (h : Rooted b.stack) (hFits : Fitting b as) :
    Grows b.stack (as.foldl perform b).stack (as.flatMap Action.texts) (InOrder b as) := by
  induction as generalizing b with
  | nil => exact .of_eq fun _ _ => rfl
  | cons a as ih =>
    rw [List.flatMap_cons]
    exact (perform_grows h hFits.1).trans (ih (perform_rooted h hFits.1) hFits.2)

theorem stack_of_displaces {b : Builder} {a : Action} (h : Rooted b.stack) (hDisplaces : a.Displaces b) :
    ∃ e e' rest t attributes, b.stack = e :: e' :: rest ∧
      (perform b a).stack = e.opened t attributes :: e.without t :: e' :: rest ∧
      (Effect.ofSection e (e' :: rest) t).Reorders := by
  cases a with
  | run => cases hDisplaces
  | note => cases hDisplaces
  | tag left text =>
    obtain ⟨e, e', rest, hStack, hTop, hSection, hReorders⟩ := hDisplaces
    refine ⟨e, e', rest, (Tag.read text).name, (Tag.read text).attributes, hStack, ?_, hReorders⟩
    obtain ⟨stack, f⟩ := b
    simp only at hStack h
    subst hStack
    match rest with
    | [] => rcases section_of_rooted h with hTag | hTag <;> simp [hTop] at hTag
    | e'' :: rest =>
      have hSettle := Builder.settle_mk_deep e e' e'' rest f (some (Tag.read text).name)
      have hVoid : (Tag.read text).name ∉ Tag.voidTags := Tag.notMem_voidTags_of_isSection hSection
      have hName := Tag.isElementName_of_isSection hSection
      rw [perform_tag, if_neg hName.ne_empty, if_neg hName.opening.2, if_neg hName.opening.1, hSettle,
        openTag_eq hVoid, if_pos ⟨hSection, congrArg some hTop⟩, Builder.openSection_mk]

/-- Texts are displaced exactly where an action does not leave those of a section in front. -/
theorem not_displaces_iff {b : Builder} {a : Action} (h : Rooted b.stack) (hFits : a.Fits b) :
    ¬a.Displaces b ↔
      ∀ t, IsSection t → sectionTexts t b.stack <+: sectionTexts t (perform b a).stack := by
  constructor
  · intro hOrder
    obtain ⟨head, body, -, -, -, hEq⟩ := perform_grows h hFits
    obtain ⟨hHead, hBody⟩ := hEq hOrder
    rintro t (rfl | rfl)
    · exact ⟨head, hHead.symm⟩
    · exact ⟨body, hBody.symm⟩
  · intro hPrefix hDisplaces
    obtain ⟨e, e', rest, t, attributes, hStack, hPerform, hReorders⟩ := stack_of_displaces h hDisplaces
    rw [hStack] at h
    obtain ⟨u, hOpen, hSection⟩ := isSection_openSection? h
    have hTexts := hPrefix u hSection
    obtain ⟨before, hBefore, hAfter⟩ := sectionTexts_reopened e e' rest t attributes u
    rw [if_pos hOpen] at hBefore hAfter
    rw [hStack, hPerform, hBefore, hAfter] at hTexts
    -- The same texts in another order are not those texts and more.
    have hEq := hTexts.eq_of_length (by simp [Nat.add_comm])
    have hSwap := List.append_cancel_left hEq
    cases hChild : e.child? t with
    | none => simp [Effect.ofSection, hChild, Effect.Reorders] at hReorders
    | some n =>
      obtain ⟨-, -, hClose, -⟩ := opened_of_child? attributes hChild
      have hEffect : Effect.ofSection e (e' :: rest) t =
          .moved n.texts (Node.forestTexts (e.after t)) := by
        simp only [Effect.ofSection, hChild]
      rw [hEffect, ← hClose, close, Node.texts_element] at hReorders
      exact hReorders hSwap

/-- No action displaces a text exactly if each leaves the texts of both sections in front. -/
theorem inOrder_iff {b : Builder} {as : List Action} (h : Rooted b.stack) (hFits : Fitting b as) :
    InOrder b as ↔ ∀ before a after, as = before ++ a :: after → ∀ t, IsSection t →
      sectionTexts t (before.foldl perform b).stack <+:
        sectionTexts t ((before ++ [a]).foldl perform b).stack := by
  induction as generalizing b with
  | nil =>
    refine ⟨fun _ before a after hEq => ?_, fun _ => trivial⟩
    exact absurd hEq.symm (List.append_ne_nil_of_right_ne_nil _ (List.cons_ne_nil a after))
  | cons a as ih =>
    have hFirst := not_displaces_iff h hFits.1
    have hOthers := ih (perform_rooted h hFits.1) hFits.2
    constructor
    · rintro ⟨hOrder, hRest⟩ before a' after hEq
      cases before with
      | nil =>
        cases hEq
        exact hFirst.mp hOrder
      | cons a'' before =>
        rw [List.cons_append, List.cons.injEq] at hEq
        obtain ⟨rfl, hEq⟩ := hEq
        exact hOthers.mp hRest before a' after hEq
    · intro hPrefix
      refine ⟨hFirst.mpr (hPrefix [] a as rfl), hOthers.mpr ?_⟩
      intro before a' after hEq
      exact hPrefix (a :: before) a' after (congrArg (a :: ·) hEq)

/-- The texts of a document in its head or in its body. -/
def textsIn (tag : String) (root : Node Unit) : List String :=
  Node.forestTexts (root.children.filter (Node.hasTag tag))

theorem filter_hasTag {ns : List (Node Unit)} (h : (ns.map Node.tag?).Nodup) (t : String) :
    ns.filter (Node.hasTag t) = (ns.find? (Node.hasTag t)).toList := by
  induction ns with
  | nil => rfl
  | cons n ns ih =>
    rw [List.map_cons, List.nodup_cons] at h
    by_cases hTag : n.hasTag t = true
    · rw [List.filter_cons_of_pos hTag, List.find?_cons_of_pos hTag,
        filter_eq_nil_of_notMem (by rw [← hasTag_iff.mp hTag]; exact h.1)]
      rfl
    · rw [List.filter_cons_of_neg hTag, List.find?_cons_of_neg hTag, ih h.2]

theorem textsIn_completeRoot {root : OpenElement} (h : Rooted [root]) {tag : String}
    (hSection : IsSection tag) :
    textsIn tag (Builder.completeRoot root) = sectionTexts tag [root] := by
  have hTag : ∀ t, (section? root t).tag? = some t := by
    intro t
    rw [section?]
    cases hChild : root.child? t with
    | none => rfl
    | some n => exact hasTag_iff.mp (List.find?_some hChild)
  have hTexts : (section? root tag).texts = sectionTexts tag [root] := by
    rw [sectionTexts, filter_hasTag h.2.1, section?, ← child?]
    cases root.child? tag with
    | none => simp [Node.bare]
    | some n => simp
  rw [completeRoot_eq h.2, textsIn, Node.children, ← hTexts]
  rcases hSection with rfl | rfl <;> simp [Node.hasTag, hTag]

/-- The runs of text of a source that show anything come into the head and the body of the document,
each once; and in the order of the source, if the run displaces none, that is, if every action leaves
the texts of both in front of what it adds. -/
theorem texts_parse (source : String) :
    ∃ head body, Splits ((actionsOf source).flatMap Action.texts) head body ∧
      (textsIn "head" (parse source).root).Perm head ∧ (textsIn "body" (parse source).root).Perm body ∧
      (InOrder {} (actionsOf source) → textsIn "head" (parse source).root = head ∧
        textsIn "body" (parse source).root = body) ∧
      (InOrder {} (actionsOf source) ↔ ∀ before a after, actionsOf source = before ++ a :: after →
        ∀ t, IsSection t → sectionTexts t (before.foldl perform {}).stack <+:
          sectionTexts t ((before ++ [a]).foldl perform {}).stack) := by
  have hFits : Fitting {} (actionsOf source) :=
    fitting_actions {} false [] source.toList (by simp) (by simp)
  have hRun := foldl_perform_grows (b := {}) trivial hFits
  rw [actionsOf, ← read_eq_foldl] at hRun
  obtain ⟨hRooted, -⟩ := read_keep (P := fun _ => True) (fun _ _ _ _ _ _ => trivial) trivial source.toList
  obtain ⟨root, ls, hMoves, hQuiet, -, hParse, hRoot, -⟩ := exists_root source
  obtain ⟨head, body, hSplits, hHead, hBody, hEq⟩ := hRun.trans (hMoves.grows hRooted)
  rw [hQuiet.flatMap_texts, List.append_nil] at hSplits
  refine ⟨head, body, hSplits, ?_, ?_, ?_, inOrder_iff trivial hFits⟩
  · rw [hParse, textsIn_completeRoot hRoot (.inl rfl)]
    exact hHead
  · rw [hParse, textsIn_completeRoot hRoot (.inr rfl)]
    exact hBody
  · intro hOrder
    rw [hParse, textsIn_completeRoot hRoot (.inl rfl), textsIn_completeRoot hRoot (.inr rfl)]
    exact hEq ⟨hOrder, hQuiet.not_reorders⟩

/-- A body that is reopened inside a nested `html` element is put after the text that follows it. -/
theorem texts_out_of_order :
    let source := "<html><body><html><body>A</body>B<body>"
    (actionsOf source).flatMap Action.texts = ["A", "B"] ∧
      textsIn "head" (parse source).root = [] ∧ textsIn "body" (parse source).root = ["B", "A"] ∧
      ¬Splits ["A", "B"] [] ["B", "A"] := by
  refine ⟨by decide +kernel, by decide +kernel, by decide +kernel, ?_⟩
  intro h
  generalize hWhole : ["A", "B"] = whole, hBody : ["B", "A"] = body at h
  cases h with
  | nil => cases hBody
  | right x _ =>
    obtain ⟨rfl, -⟩ := List.cons.inj hWhole
    exact absurd (List.cons.inj hBody).1 (by decide)

end PageRender.Markup
