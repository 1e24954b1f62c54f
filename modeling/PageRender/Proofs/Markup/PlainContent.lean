import Mathlib.Data.Multiset.AddSub
import PageRender.Proofs.Markup.Openings
import PageRender.Proofs.Markup.TextOrder

/-! # Plain content

The elements with plain content in a document come from their opening tags in the source, one to one. While
the source is read, every such element that is open has taken its content. It is closed by what its content
stops at, unless another tag begins there: then it stays open, and takes in nodes like any element.
-/

namespace PageRender.Markup

open OpenElement

/-- An element with plain content as it has been closed. -/
structure Stems (n : Node Unit) (o : Opening) : Prop where
  tag : n.tag? = some o.tag.name
  attributes : n.attributes = o.tag.attributes
  content : o.content <+: n.children
  texts : ∀ s, .text () s ∈ n.children → Node.NoClosing o.tag.name s.toList
  ended : o.Ended → n.children = o.content

/-- An element that has taken its plain content and was not closed behind it. -/
structure Continues (e : OpenElement) (o : Opening) : Prop where
  tag : e.tag = o.tag.name
  attributes : e.attributes = o.tag.attributes
  content : o.content <+: e.children
  texts : ∀ s, .text () s ∈ e.children → Node.NoClosing o.tag.name s.toList
  notEnded : ¬o.Ended

def rawChildren (e : OpenElement) : Multiset (Node Unit) :=
  (e.children.flatMap Node.rawElements : List (Node Unit))

/-- The elements with plain content, open or closed, stem from openings, one to one. -/
inductive Kept : List OpenElement → Multiset Opening → Prop
  | nil : Kept [] 0
  | plain {e : OpenElement} {es : List OpenElement} {inside outside : Multiset Opening}
      (hTag : e.tag ∉ Tag.rawTags) (hInside : Multiset.Rel Stems (rawChildren e) inside)
      (hOutside : Kept es outside) : Kept (e :: es) (inside + outside)
  | raw {e : OpenElement} {es : List OpenElement} {o : Opening} {inside outside : Multiset Opening}
      (hTag : e.tag ∈ Tag.rawTags) (hOpening : Continues e o)
      (hInside : Multiset.Rel Stems (rawChildren e) inside) (hOutside : Kept es outside) :
      Kept (e :: es) (o ::ₘ (inside + outside))

/-- The innermost element has plain content, and has taken nothing else. -/
inductive Fresh (o : Opening) : List OpenElement → Multiset Opening → Prop
  | intro {es : List OpenElement} {os : Multiset Opening} (hTag : o.tag.name ∈ Tag.rawTags)
      (hOutside : Kept es os) : Fresh o (⟨o.tag.name, o.tag.attributes, o.content⟩ :: es) (o ::ₘ os)

theorem rawChildren_add (e : OpenElement) (n : Node Unit) :
    rawChildren (e.add n) = rawChildren e + (n.rawElements : Multiset (Node Unit)) := by
  rw [rawChildren, rawChildren, Multiset.coe_add, add, List.flatMap_append, List.flatMap_singleton]

theorem rawElements_close_plain {e : OpenElement} (h : e.tag ∉ Tag.rawTags) :
    (e.close.rawElements : Multiset (Node Unit)) = rawChildren e :=
  congrArg Multiset.ofList (Node.rawElements_element h)

theorem rawElements_close_raw {e : OpenElement} (h : e.tag ∈ Tag.rawTags) :
    (e.close.rawElements : Multiset (Node Unit)) = e.close ::ₘ rawChildren e :=
  congrArg Multiset.ofList (Node.rawElements_raw h)

theorem notMem_rawTags_of_isSection {t : String} (h : IsSection t) : t ∉ Tag.rawTags := by
  rcases h with rfl | rfl <;> decide

theorem rawChildren_opened (e : OpenElement) {t : String} (a : Attributes) (hSection : IsSection t) :
    rawChildren (e.opened t a) + rawChildren (e.without t) = rawChildren e := by
  cases hChild : e.child? t with
  | some n =>
    obtain ⟨before, hChildren, -, hWithout, -⟩ := opened_of_child? a hChild
    have hPlain : (e.opened t a).tag ∉ Tag.rawTags := by
      rw [opened_tag]
      exact notMem_rawTags_of_isSection hSection
    have hClose := rawElements_close_plain hPlain
    simp only [rawChildren, hChildren, hWithout, List.flatMap_append, List.flatMap_cons, ← Multiset.coe_add]
      at hClose ⊢
    rw [hClose, ← Multiset.add_assoc, ← Multiset.add_assoc]
    exact congrArg (· + _) (Multiset.add_comm _ _)
  | none =>
    obtain ⟨hOpened, hWithout⟩ := opened_of_child?_eq_none a hChild
    rw [rawChildren, rawChildren, rawChildren, hOpened, hWithout, List.flatMap_append]
    split_ifs
    · have hHead : (Node.bare "head").rawElements = [] := Node.rawElements_element (by decide)
      simp [hHead]
    · simp

theorem Continues.add {e : OpenElement} {o : Opening} (h : Continues e o) {n : Node Unit}
    (hNode : ∀ s, n = .text () s → Node.NoClosing e.tag s.toList) : Continues (e.add n) o :=
  { tag := h.tag
    attributes := h.attributes
    content := h.content.trans (List.prefix_append e.children [n])
    texts := fun s hs => by
      rcases List.mem_append.mp hs with hs | hs
      · exact h.texts s hs
      · exact h.tag ▸ hNode s (List.mem_singleton.mp hs).symm
    notEnded := h.notEnded }

theorem Continues.close {e : OpenElement} {o : Opening} (h : Continues e o) : Stems e.close o :=
  { tag := congrArg some h.tag
    attributes := h.attributes
    content := h.content
    texts := h.texts
    ended := fun hEnded => absurd hEnded h.notEnded }

namespace Kept

variable {e e' : OpenElement} {es : List OpenElement} {os : Multiset Opening}

theorem add (h : Kept (e :: es) os) {n : Node Unit} {new : Multiset Opening}
    (hNode : Multiset.Rel Stems (n.rawElements : Multiset (Node Unit)) new)
    (hText : e.tag ∈ Tag.rawTags → ∀ s, n = .text () s → Node.NoClosing e.tag s.toList) :
    Kept (e.add n :: es) (new + os) := by
  cases h with
  | @plain _ _ inside outside hTag hInside hOutside =>
    have hChildren := hInside.add hNode
    rw [← rawChildren_add] at hChildren
    rw [← Multiset.add_assoc, Multiset.add_comm new]
    exact .plain hTag hChildren hOutside
  | @raw _ _ o inside outside hTag hOpening hInside hOutside =>
    have hChildren := hInside.add hNode
    rw [← rawChildren_add] at hChildren
    rw [Multiset.add_cons, ← Multiset.add_assoc, Multiset.add_comm new]
    exact .raw hTag (hOpening.add (hText hTag)) hChildren hOutside

theorem add_plain (h : Kept (e :: es) os) {n : Node Unit} (hNode : n.rawElements = [])
    (hText : e.tag ∈ Tag.rawTags → ∀ s, n = .text () s → Node.NoClosing e.tag s.toList) :
    Kept (e.add n :: es) os := by
  have hNone : Multiset.Rel Stems (n.rawElements : Multiset (Node Unit)) 0 := by
    rw [hNode]
    exact .zero
  have hAdd := h.add hNone hText
  rwa [Multiset.zero_add] at hAdd

theorem add_close (h : Kept (e' :: es) os) {new : Multiset Opening}
    (hClose : Multiset.Rel Stems (e.close.rawElements : Multiset (Node Unit)) new) :
    Kept (e'.add e.close :: es) (new + os) :=
  h.add hClose fun _ s hs => by cases hs

/-- An element and what is inside it, apart from what is open around it. -/
theorem closed (h : Kept (e :: es) os) : ∃ inside outside,
    os = inside + outside ∧ Multiset.Rel Stems (e.close.rawElements : Multiset (Node Unit)) inside ∧
      Kept es outside := by
  cases h with
  | @plain _ _ inside outside hTag hInside hOutside =>
    exact ⟨inside, outside, rfl, by rwa [rawElements_close_plain hTag], hOutside⟩
  | @raw _ _ o inside outside hTag hOpening hInside hOutside =>
    refine ⟨o ::ₘ inside, outside, (Multiset.cons_add o inside outside).symm, ?_, hOutside⟩
    rw [rawElements_close_raw hTag]
    exact .cons hOpening.close hInside

theorem close (h : Kept (e :: e' :: es) os) : Kept (e'.add e.close :: es) os := by
  obtain ⟨inside, outside, rfl, hClose, hOutside⟩ := h.closed
  exact hOutside.add_close hClose

theorem push (h : Kept es os) {t : String} (a : Attributes) (hTag : t ∉ Tag.rawTags) :
    Kept (⟨t, a, []⟩ :: es) os := by
  have hPush := Kept.plain (e := ⟨t, a, []⟩) hTag .zero h
  rwa [Multiset.zero_add] at hPush

/-- A section is taken out of an element along with the elements inside it. -/
theorem openSection (h : Kept (e :: es) os) {t : String} (a : Attributes) (hTag : e.tag ∉ Tag.rawTags)
    (hSection : IsSection t) : Kept (e.opened t a :: e.without t :: es) os := by
  cases h with
  | raw hRaw => exact absurd hRaw hTag
  | @plain _ _ inside outside _ hInside hOutside =>
    rw [← rawChildren_opened e a hSection] at hInside
    obtain ⟨taken, left, hTaken, hLeft, rfl⟩ := Multiset.rel_add_left.mp hInside
    rw [Multiset.add_assoc]
    refine .plain ?_ hTaken (.plain ?_ hLeft hOutside)
    · rw [opened_tag]
      exact notMem_rawTags_of_isSection hSection
    · rwa [without_tag]

end Kept

theorem Fresh.close {o : Opening} {e e' : OpenElement} {es : List OpenElement} {os : Multiset Opening}
    (h : Fresh o (e :: e' :: es) os) : Kept (e'.add e.close :: es) os := by
  cases h with
  | intro hTag hOutside =>
    have hClose : Multiset.Rel Stems ((OpenElement.close ⟨o.tag.name, o.tag.attributes, o.content⟩).rawElements :
        Multiset (Node Unit)) {o} := by
      rw [rawElements_close_raw hTag, rawChildren, o.rawElements_content]
      exact .cons ⟨rfl, rfl, List.prefix_rfl, fun _ => o.noClosing_content, fun _ => rfl⟩ .zero
    exact hOutside.add_close hClose

theorem Fresh.kept {o : Opening} {s : List OpenElement} {os : Multiset Opening} (h : Fresh o s os)
    (hNotEnded : ¬o.Ended) : Kept s os := by
  cases h with
  | @intro es os hTag hOutside =>
    have hInside : Multiset.Rel Stems (rawChildren ⟨o.tag.name, o.tag.attributes, o.content⟩) 0 := by
      rw [rawChildren, o.rawElements_content]
      exact .zero
    have hOpening : Continues ⟨o.tag.name, o.tag.attributes, o.content⟩ o :=
      ⟨rfl, rfl, List.prefix_rfl, fun _ => o.noClosing_content, hNotEnded⟩
    have hKept := Kept.raw hTag hOpening hInside hOutside
    rwa [Multiset.zero_add] at hKept

/-! ## Actions -/

variable {b : Builder} {os : Multiset Opening}

theorem kept_implied? {b' : Builder} {tag : Option String} (h : b.implied? tag = some b')
    (hKept : Kept b.stack os) : Kept b'.stack os := by
  have hTurn := Builder.turn_of_implied? h
  generalize b.stack = stack at hTurn hKept
  generalize b'.stack = stack' at hTurn ⊢
  cases hTurn with
  | root => exact hKept.push .empty (by decide)
  | @opening root hRoot =>
    exact hKept.openSection .empty (by rw [hRoot]; decide) (isSection_impliedSection root tag)
  | closing => exact hKept.close

theorem kept_settle (h : Kept b.stack os) (tag : Option String) : Kept (b.settle tag).stack os := by
  have hSettles := Builder.settles_settle b tag
  generalize b.settle tag = b' at hSettles
  induction hSettles with
  | done => exact h
  | turn hTurn _ ih => exact ih (kept_implied? hTurn h)

theorem kept_addNode (h : Kept b.stack os) {n : Node Unit} (hNode : n.rawElements = [])
    (hText : ∀ t ∈ b.rawTag?, ∀ s, n = .text () s → Node.NoClosing t s.toList) :
    Kept (b.addNode n).stack os := by
  obtain ⟨stack, f⟩ := b
  cases stack with
  | nil => exact h
  | cons e es =>
    refine h.add_plain hNode fun hTag => hText e.tag ?_
    simp [Builder.rawTag?, Builder.openTags, hTag]

theorem kept_pop (h : Kept b.stack os) : Kept b.pop.stack os := by
  obtain ⟨stack, f⟩ := b
  match stack with
  | [] => exact h
  | [_] => exact h
  | _ :: _ :: _ => exact h.close

theorem kept_run (h : Kept b.stack os) {run : List Char} (hRun : ∀ t ∈ b.rawTag?, Node.NoClosing t run) :
    Kept (perform b (.run run)).stack os := by
  rw [perform, addRun_eq]
  split_ifs
  · exact h
  · refine kept_addNode (kept_settle h none) (Node.rawElements_text () _) ?_
    rintro t ht s hs
    rw [Builder.rawTag?_settle] at ht
    obtain rfl : String.ofList run = s := by simpa using hs
    rw [String.toList_ofList]
    exact hRun t ht

theorem noClosing_rawContent (b : Builder) (cs : List Char) :
    ∀ t ∈ b.rawTag?, Node.NoClosing t (rawContent b cs).1 := by
  intro t ht
  rw [Option.mem_def] at ht
  simp only [rawContent, ht]
  exact noClosing_splitRaw t cs

theorem kept_openTag (h : Kept b.stack os) {tag : Tag} (hTag : tag.name ∉ Tag.rawTags) :
    Kept (b.openTag tag).stack os := by
  by_cases hVoid : tag.name ∈ Tag.voidTags
  · rw [Builder.openTag, if_pos (by simpa using hVoid)]
    exact kept_addNode h (Node.rawElements_element hTag) fun _ _ s hs => by cases hs
  rw [openTag_eq hVoid]
  split_ifs with hSection
  · obtain ⟨stack, f⟩ := b
    cases stack with
    | nil => exact h
    | cons e es =>
      have hTop : e.tag = "html" := Option.some.inj hSection.2
      rw [Builder.openSection_mk]
      exact h.openSection tag.attributes (by rw [hTop]; decide) hSection.1
  · exact h.push tag.attributes hTag

theorem kept_tag (h : Kept b.stack os) (left : Nat) {text : List Char} (hTag : (Tag.read text).name ∉ Tag.rawTags) :
    Kept (perform b (.tag left text)).stack os := by
  have hSettle := kept_settle h (some (Tag.read text).name)
  rw [perform_tag]
  split_ifs
  · exact h
  · exact h
  · rw [Builder.stack_closeTag]
    exact kept_pop hSettle
  · exact kept_openTag hSettle hTag

theorem stack_rawTag (b : Builder) (left : Nat) {text : List Char} (hTag : (Tag.read text).name ∈ Tag.rawTags) :
    (perform b (.tag left text)).stack =
      ⟨(Tag.read text).name, (Tag.read text).attributes, []⟩ :: (b.settle (some (Tag.read text).name)).stack := by
  have hAll : ∀ t ∈ Tag.rawTags, t ≠ "" ∧ t.toList.head? ≠ some '!' ∧ t.toList.head? ≠ some '/' ∧
      t ∉ Tag.voidTags ∧ ¬IsSection t := by decide
  obtain ⟨hNonempty, hMark, hSlash, hVoid, hSection⟩ := hAll _ hTag
  rw [perform_tag, if_neg hNonempty, if_neg hMark, if_neg hSlash, openTag_eq hVoid,
    if_neg (fun h => hSection h.1)]
  rfl

theorem fresh_run {tag : Tag} {es : List OpenElement} (hRooted : Rooted b.stack) (hTag : tag.name ∈ Tag.rawTags)
    (hStack : b.stack = ⟨tag.name, tag.attributes, []⟩ :: es) (hOutside : Kept es os) (cs : List Char) :
    rawContent b cs = splitRaw tag.name cs ∧
      Fresh ⟨tag, cs⟩ (perform b (.run (splitRaw tag.name cs).1)).stack (⟨tag, cs⟩ ::ₘ os) := by
  have hRawTag : b.rawTag? = some tag.name := by
    simp [Builder.rawTag?, Builder.openTags, hStack, hTag]
  obtain ⟨hSettle, -⟩ := settle_of_rawTag? hRooted (by rw [hRawTag]; rfl) none
  have hFresh := Fresh.intro (o := ⟨tag, cs⟩) hTag hOutside
  refine ⟨by rw [rawContent, hRawTag], ?_⟩
  have hStack' : (perform b (.run (splitRaw tag.name cs).1)).stack =
      ⟨tag.name, tag.attributes, Opening.content ⟨tag, cs⟩⟩ :: es := by
    rw [perform, addRun_eq, hSettle, Opening.content, Node.ofRun]
    split_ifs
    · exact hStack
    · rw [Builder.addNode, hStack]
      rfl
  rw [hStack']
  exact hFresh

/-- What the content of the innermost element stops at closes the element, if it is a tag. -/
theorem kept_closing {o : Opening} (hRooted : Rooted b.stack) (h : Fresh o b.stack os) (left : Nat)
    (text : List Char) : Kept (perform b (.tag left ('/' :: text))).stack os := by
  obtain ⟨stack, f⟩ := b
  cases h with
  | @intro es os hTag hOutside =>
    obtain ⟨hSettle, -⟩ := settle_of_rawTag? hRooted (by simp [Builder.rawTag?, Builder.openTags, hTag])
      (some (Tag.read ('/' :: text)).name)
    rw [perform, addTag_slash, hSettle, Builder.stack_closeTag]
    cases es with
    | nil => exact absurd hRooted.1 (rawTags_ne hTag).1
    | cons e es => exact (Fresh.intro hTag hOutside).close

/-! ## Reading -/

/-- The opening that a tag is, if it opens an element with plain content. -/
def Action.opening? (source : List Char) : Action → Option Opening
  | .tag left text =>
    if (Tag.read text).name ∈ Tag.rawTags then
      some ⟨Tag.read text, source.drop (source.length + 1 - left)⟩
    else none
  | _ => none

/-- The opening tags of elements with plain content, in the order of the source. -/
def openings (source : String) : List Opening :=
  (actionsOf source).filterMap (Action.opening? source.toList)

/-- What is left to read from the end of the content of an element to the end of what it stops at. -/
inductive AtClosing (o : Opening) : Bool → List Char → List Char → Prop
  | before {cs : List Char} (hRest : o.rest = cs) : AtClosing o false [] cs
  | inside {held cs : List Char} (hRest : o.rest = '<' :: (held.reverse ++ cs)) : AtClosing o true held cs

namespace AtClosing

variable {o : Opening} {inTag : Bool} {held cs : List Char}

theorem opened (h : AtClosing o false held ('<' :: cs)) : held = [] ∧ AtClosing o true [] cs := by
  cases h with
  | before hRest => exact ⟨rfl, .inside hRest⟩

theorem next {c : Char} (h : AtClosing o inTag held (c :: cs)) (hOpen : c ≠ '<') :
    AtClosing o inTag (c :: held) cs := by
  cases h with
  | before hRest =>
    obtain ⟨more, hMore, -⟩ := Opening.exists_rest (by rw [hRest]; exact List.cons_ne_nil c cs)
    rw [hRest] at hMore
    exact absurd (List.cons.inj hMore).1 hOpen
  | inside hRest => exact .inside (by rw [hRest, List.reverse_cons, List.append_assoc]; rfl)

theorem notEnded (h : AtClosing o true held ('<' :: cs)) (hClose : '>' ∉ held) : ¬o.Ended := by
  cases h with
  | inside hRest =>
    have hHeld : ∀ c ∈ held.reverse, (c != '>') = true := by
      intro c hc
      rw [bne_iff_ne]
      rintro rfl
      exact hClose (List.mem_reverse.mp hc)
    rw [Opening.Ended, hRest, List.drop_one, List.tail_cons, List.takeWhile_append_of_pos hHeld, not_not]
    exact List.mem_append_right _ List.mem_cons_self

theorem exists_cons (h : AtClosing o true held ('>' :: cs)) : ∃ text, held.reverse = '/' :: text := by
  cases h with
  | inside hRest =>
    obtain ⟨more, hMore, hStart⟩ := Opening.exists_rest (by rw [hRest]; exact List.cons_ne_nil _ _)
    rw [hRest, List.cons.injEq] at hMore
    rw [← hMore.2] at hStart
    cases hText : held.reverse with
    | nil =>
      rw [hText, List.nil_append, Tag.closingText, startsWith, Bool.and_eq_true] at hStart
      exact absurd hStart.1 (by decide)
    | cons c text =>
      rw [hText, List.cons_append, Tag.closingText, startsWith, Bool.and_eq_true] at hStart
      exact ⟨text, by rw [eq_of_matchesLetter (by decide) hStart.1]⟩

end AtClosing

/-- All elements with plain content are accounted for, save that the innermost one may not be closed yet. -/
def Accounted (s : List OpenElement) (os : Multiset Opening) : Prop :=
  Kept s os ∨ ∃ o, Fresh o s os

theorem opening?_beforeOpening (source : List Char) (inTag : Bool) (held : List Char) (left : Nat) :
    (Action.beforeOpening inTag held left).opening? source = none := by
  cases inTag <;> rfl

theorem opening?_atEnd (source : List Char) (inTag : Bool) (held : List Char) :
    (Action.atEnd inTag held).opening? source = none := by
  cases inTag <;> rfl

theorem filterMap_opening?_cons (source run : List Char) (a : Action) (as : List Action) :
    (a :: .run run :: as).filterMap (Action.opening? source) =
      (a.opening? source).toList ++ as.filterMap (Action.opening? source) := by
  rw [List.filterMap_cons, List.filterMap_cons_none rfl]
  cases a.opening? source <;> rfl

theorem kept_beforeOpening (h : Kept b.stack os) (inTag : Bool) {held : List Char} (hOpen : '<' ∉ held)
    (left : Nat) : Kept (perform b (.beforeOpening inTag held left)).stack os := by
  cases inTag with
  | true => exact h
  | false => exact kept_run h fun t _ => noClosing_of_notMem (by simpa using hOpen) t

theorem accounted_atEnd {inTag : Bool} {held : List Char} (hOpen : '<' ∉ held)
    (h : Kept b.stack os ∨ ∃ o, Fresh o b.stack os ∧ AtClosing o inTag held []) :
    Accounted (perform b (.atEnd inTag held)).stack os := by
  rcases h with hKept | ⟨o, hFresh, hClosing⟩
  · cases inTag with
    | true => exact .inl hKept
    | false => exact .inl (kept_run hKept fun t _ => noClosing_of_notMem (by simpa using hOpen) t)
  · cases hClosing with
    | before => exact .inr ⟨o, hFresh⟩
    | inside => exact .inr ⟨o, hFresh⟩

theorem fits_beforeOpening (b : Builder) (inTag : Bool) {held : List Char} (left : Nat) (h : '<' ∉ held) :
    Action.Fits b (.beforeOpening inTag held left) := by
  cases inTag with
  | true => trivial
  | false => exact fits_run_reverse b h

theorem notMem_rawTags_of_slash {text : List Char} : (Tag.read ('/' :: text)).name ∉ Tag.rawTags := by
  intro hTag
  have hAll : ∀ t ∈ Tag.rawTags, t.toList.head? ≠ some '/' := by decide
  exact hAll _ hTag (Tag.head?_read (by decide) Tag.foldChar_slash text)

theorem opening?_tag {source cs text : List Char} (hSuffix : cs <:+ source)
    (hTag : (Tag.read text).name ∈ Tag.rawTags) :
    (Action.tag (cs.length + 1) text).opening? source = some ⟨Tag.read text, cs⟩ := by
  have hBehind : source.drop (source.length + 1 - (cs.length + 1)) = cs := by
    rw [Nat.add_sub_add_right]
    exact (List.suffix_iff_eq_drop.mp hSuffix).symm
  rw [Action.opening?, if_pos hTag, hBehind]

theorem rawContent_suffix (b : Builder) (cs : List Char) : (rawContent b cs).2 <:+ cs := by
  rw [rawContent]
  split
  · exact ⟨_, splitRaw_fst_append_snd _ cs⟩
  · exact List.suffix_rfl

theorem kept_or_fresh_tag {source cs text : List Char} {b' : Builder} (hRooted : Rooted b.stack)
    (hRooted' : Rooted b'.stack) (hPerform : perform b (.tag (cs.length + 1) text) = b') (hSuffix : cs <:+ source)
    (h : Kept b.stack os ∨ ∃ o more, Fresh o b.stack os ∧ text = '/' :: more) :
    Kept (perform b' (.run (rawContent b' cs).1)).stack
        (os + (((Action.tag (cs.length + 1) text).opening? source).toList : List Opening)) ∨
      ∃ o, Fresh o (perform b' (.run (rawContent b' cs).1)).stack
          (os + (((Action.tag (cs.length + 1) text).opening? source).toList : List Opening)) ∧
        AtClosing o false [] (rawContent b' cs).2 := by
  by_cases hTag : (Tag.read text).name ∈ Tag.rawTags
  · have hKept : Kept b.stack os := by
      rcases h with hKept | ⟨-, more, -, rfl⟩
      · exact hKept
      · exact absurd hTag notMem_rawTags_of_slash
    have hStack := stack_rawTag b (cs.length + 1) hTag
    rw [hPerform] at hStack
    obtain ⟨hContent, hFresh⟩ := fresh_run hRooted' hTag hStack (kept_settle hKept _) cs
    rw [opening?_tag hSuffix hTag, hContent, Multiset.add_comm]
    exact .inr ⟨⟨Tag.read text, cs⟩, hFresh, .before rfl⟩
  · have hKept : Kept b'.stack os := by
      rw [← hPerform]
      rcases h with hKept | ⟨o, more, hFresh, rfl⟩
      · exact kept_tag hKept (cs.length + 1) hTag
      · exact kept_closing hRooted hFresh (cs.length + 1) more
    rw [Action.opening?, if_neg hTag, Option.toList_none, Multiset.coe_nil, Multiset.add_zero]
    exact .inl (kept_run hKept (noClosing_rawContent b' cs))

/-- All that was opened before and is opened by the rest of the source is accounted for at its end. -/
theorem accounted_actions (source : List Char) (b : Builder) (inTag : Bool) (held cs : List Char)
    (hRooted : Rooted b.stack) (hSuffix : cs <:+ source) (hOpen : '<' ∉ held) (hClose : inTag = true → '>' ∉ held)
    (h : Kept b.stack os ∨ ∃ o, Fresh o b.stack os ∧ AtClosing o inTag held cs) :
    Accounted ((actions b inTag held cs).foldl perform b).stack
      (os + ((actions b inTag held cs).filterMap (Action.opening? source) : List Opening)) := by
  -- Between two actions either all open elements are settled, or the innermost one is about to be closed.
  revert os
  fun_induction actions b inTag held cs with
  | case1 b inTag held =>
    intro os h
    rw [List.filterMap_cons_none (opening?_atEnd source inTag held), List.filterMap_nil, Multiset.coe_nil,
      Multiset.add_zero]
    exact accounted_atEnd hOpen h
  | case2 b inTag held c cs hBracket a =>
    rename_i ih
    intro os h
    have hHere : a.opening? source = none := opening?_beforeOpening source inTag held _
    have hFits : a.Fits b := fits_beforeOpening b inTag _ hOpen
    rw [List.foldl_cons, List.filterMap_cons_none hHere]
    refine ih (perform_rooted hRooted hFits) ((List.suffix_cons c cs).trans hSuffix) (by simp) (by simp) ?_
    obtain rfl : c = '<' := by simpa using hBracket
    rcases h with hKept | ⟨o, hFresh, hClosing⟩
    · exact .inl (kept_beforeOpening hKept inTag hOpen _)
    · cases inTag with
      | true => exact .inl (hFresh.kept (hClosing.notEnded (hClose rfl)))
      | false =>
        obtain ⟨rfl, hInside⟩ := hClosing.opened
        exact .inr ⟨o, hFresh, hInside⟩
  | case3 b inTag held c cs hBracket hEnd a raw =>
    rename_i ih
    intro os h
    obtain ⟨rfl, rfl⟩ : c = '>' ∧ inTag = true := by simpa using hEnd
    have hPlain : a.Fits b := ⟨by simpa using hOpen, by simpa using hClose rfl⟩
    have hTag : a = .tag (cs.length + 1) held.reverse := rfl
    have hRaw : raw = rawContent (perform b a) cs := rfl
    -- From here on the text of the tag does not matter.
    clear_value raw a
    have hRooted' : Rooted (perform b a).stack := perform_rooted hRooted hPlain
    have hSuffix' : cs <:+ source := (List.suffix_cons _ cs).trans hSuffix
    have hBefore : Kept b.stack os ∨ ∃ o more, Fresh o b.stack os ∧ held.reverse = '/' :: more := by
      rcases h with hKept | ⟨o, hFresh, hClosing⟩
      · exact .inl hKept
      · obtain ⟨more, hText⟩ := hClosing.exists_cons
        exact .inr ⟨o, more, hFresh, hText⟩
    have hNext := kept_or_fresh_tag hRooted hRooted' (by rw [hTag]) hSuffix' hBefore
    rw [← hTag, ← hRaw] at hNext
    have hRun : Rooted (perform (perform b a) (.run raw.1)).stack := by
      rw [hRaw]
      exact perform_rooted hRooted' (fits_rawContent _ _)
    have hLeft : raw.2 <:+ source := by
      rw [hRaw]
      exact (rawContent_suffix _ cs).trans hSuffix'
    have hAll := ih hRun hLeft (by simp) (by simp) hNext
    rw [List.foldl_cons, List.foldl_cons, filterMap_opening?_cons, ← Multiset.coe_add, ← Multiset.add_assoc]
    exact hAll
  | case4 b inTag held c cs hBracket hEnd ih =>
    intro os h
    have hNotOpen : c ≠ '<' := by simpa using hBracket
    refine ih hRooted ((List.suffix_cons c cs).trans hSuffix) ?_ ?_ ?_
    · simpa using ⟨hNotOpen.symm, hOpen⟩
    · intro hTag
      have hNotClose : c ≠ '>' := by simpa [hTag] using hEnd
      simpa using ⟨hNotClose.symm, hClose hTag⟩
    · rcases h with hKept | ⟨o, hFresh, hClosing⟩
      · exact .inl hKept
      · exact .inr ⟨o, hFresh, hClosing.next hNotOpen⟩

/-! ## The end of the source -/

theorem kept_closeAll {s : List OpenElement} {root : OpenElement} (h : Kept s os)
    (hRoot : Builder.closeAll s = some root) : Kept [root] os := by
  fun_induction Builder.closeAll s with
  | case1 => cases hRoot
  | case2 root' =>
    cases hRoot
    exact h
  | case3 top parent rest ih => exact ih h.close hRoot

theorem Accounted.closeAll {s : List OpenElement} {root : OpenElement} (h : Accounted s os) (hRooted : Rooted s)
    (hRoot : Builder.closeAll s = some root) : Kept [root] os := by
  rcases h with hKept | ⟨o, hFresh⟩
  · exact kept_closeAll hKept hRoot
  · match s with
    | [] => cases hFresh
    | [e] =>
      cases hFresh with
      | intro hTag => exact absurd hRooted.1 (rawTags_ne hTag).1
    | e :: e' :: es =>
      rw [Builder.closeAll] at hRoot
      exact kept_closeAll hFresh.close hRoot

theorem Accounted.ended (h : Accounted b.stack os) : Accounted (ended b).stack os := by
  rw [Markup.ended]
  split_ifs with hEmpty
  · rcases h with hKept | ⟨o, hFresh⟩
    · exact .inl (kept_settle hKept none)
    · rw [List.isEmpty_iff] at hEmpty
      rw [hEmpty] at hFresh
      cases hFresh
  · exact h

theorem rawElements_bare {tag : String} (h : IsSection tag) : (Node.bare tag).rawElements = [] :=
  Node.rawElements_element (notMem_rawTags_of_isSection h)

theorem rawElements_completeRoot {root : OpenElement} (h : Rooted [root]) :
    ((Builder.completeRoot root).rawElements : Multiset (Node Unit)) = rawChildren root := by
  obtain ⟨hHtml, hSections⟩ := h
  have hHead := rawElements_bare (.inl rfl)
  have hBody := rawElements_bare (.inr rfl)
  rw [completeRoot_eq hSections, Node.rawElements_element (by rw [hHtml]; decide), rawChildren]
  obtain ⟨t, a, cs⟩ := root
  rcases areSections_cases hSections with hTags | hTags | hTags | hTags | hTags
  all_goals
    simp only [childTags, List.map_eq_cons_iff, List.map_eq_nil_iff] at hTags
  · subst hTags
    simp [section?, child?, hHead, hBody]
  · obtain ⟨n, ns, rfl, hTag, rfl⟩ := hTags
    simp [section?, child?, Node.hasTag, hTag, hBody]
  · obtain ⟨n, ns, rfl, hTag, rfl⟩ := hTags
    simp [section?, child?, Node.hasTag, hTag, hHead]
  · obtain ⟨n, ns, rfl, hTag, m, ms, rfl, hTag', rfl⟩ := hTags
    simp [section?, child?, Node.hasTag, hTag, hTag']
  · obtain ⟨n, ns, rfl, hTag, m, ms, rfl, hTag', rfl⟩ := hTags
    simpa [section?, child?, Node.hasTag, hTag, hTag'] using List.perm_append_comm

theorem rooted_ended (h : Rooted b.stack) : Rooted (ended b).stack := by
  obtain ⟨ls, hMoves, -⟩ := settle_moves b none
  rw [Markup.ended]
  split_ifs
  · exact hMoves.rooted h
  · exact h

theorem stems_parse (source : String) :
    Multiset.Rel Stems ((parse source).root.rawElements : Multiset (Node Unit)) (openings source : List Opening) := by
  have hRead := accounted_actions source.toList {} false [] source.toList trivial List.suffix_rfl
    (by simp) (by simp) (.inl .nil)
  rw [Multiset.zero_add, ← read_eq_foldl] at hRead
  obtain ⟨hReadRooted, -⟩ := read_keep (P := fun _ => True) (fun _ _ _ _ _ _ => trivial) trivial source.toList
  obtain ⟨root, ls, -, -, hRoot, hParse, hRooted, -⟩ := exists_root source
  have hKept := hRead.ended.closeAll (rooted_ended hReadRooted) hRoot
  rw [hParse, rawElements_completeRoot hRooted]
  generalize hOs : ((openings source : List Opening) : Multiset Opening) = os
  rw [← actionsOf, ← openings, hOs] at hKept
  cases hKept with
  | plain _ hInside hOutside =>
    cases hOutside
    rwa [Multiset.add_zero]
  | raw hTag => exact absurd hRooted.1 (rawTags_ne hTag).1

/-- An element with plain content has the text up to its closing tag as its content exactly if its content
stops at a closing tag, or if there is nothing like one. -/
structure ReadFrom (n : Node Unit) (o : Opening) : Prop where
  stems : Stems n o
  whole : n.children = Node.ofRun (upToClosing o.tag.name o.behind) ↔ o.EndsWell

theorem Stems.readFrom {n : Node Unit} {o : Opening} (h : Stems n o) (hRaw : n.isRaw = true) : ReadFrom n o := by
  have hTag : o.tag.name ∈ Tag.rawTags := by simpa [Node.isRaw, h.tag] using hRaw
  refine ⟨h, fun hWhole => ?_, fun hEnds => ?_⟩
  · by_contra hOther
    have hSeems := Opening.not_noClosing_upToClosing hTag hOther
    have hShown : ¬(upToClosing o.tag.name o.behind).all Text.isBlank = true := by
      intro hBlank
      refine hSeems (noClosing_of_notMem (fun hMem => ?_) _)
      exact absurd (List.all_eq_true.mp hBlank '<' hMem) (by decide)
    have hMem : .text () (String.ofList (upToClosing o.tag.name o.behind)) ∈ n.children := by
      rw [hWhole, Node.ofRun, if_neg hShown]
      exact List.mem_singleton.mpr rfl
    have hText := h.texts _ hMem
    rw [String.toList_ofList] at hText
    exact hSeems hText
  · rw [h.ended (Opening.ended_of_endsWell hTag hEnds), Opening.upToClosing_of_endsWell hEnds]
    rfl

/-- The elements with plain content in a document are, one to one, those that the source opens. Each begins
with the text up to where a closing tag of its name seems to begin, and holds nothing else unless another tag
begins there. -/
theorem rawElements_parse (source : String) :
    Multiset.Rel ReadFrom ((parse source).root.rawElements : Multiset (Node Unit))
      (openings source : List Opening) := by
  refine (stems_parse source).mono fun n hn o _ hStems => hStems.readFrom ?_
  rw [Multiset.mem_coe, Node.rawElements, List.mem_filter] at hn
  exact hn.2

/-- A script ends in front of any name that begins with its own, even inside a string. -/
theorem script_cut_short :
    ¬∀ source : String, Multiset.Rel
      (fun (n : Node Unit) (o : Opening) =>
        ∀ s, .text () s ∈ n.children → s.toList = upToClosing o.tag.name o.behind)
      ((parse source).root.rawElements : Multiset (Node Unit)) (openings source : List Opening) := by
  intro h
  have hRel := h "<script>var t = \"</scripts>\"; f()</script>"
  have hElement : .element () "script" .empty [.text () "var t = \""] ∈
      (parse "<script>var t = \"</scripts>\"; f()</script>").root.rawElements := by decide +kernel
  have hOpenings : ∀ o ∈ openings "<script>var t = \"</scripts>\"; f()</script>",
      upToClosing o.tag.name o.behind = "var t = \"</scripts>\"; f()".toList := by decide +kernel
  obtain ⟨o, ho, hText⟩ := Multiset.exists_mem_of_rel_of_mem hRel hElement
  have hShort := hText "var t = \"" (List.mem_singleton.mpr rfl)
  rw [hOpenings o ho] at hShort
  exact absurd hShort (by decide)

end PageRender.Markup
