import PageRender.Proofs.Markup.Depths
import PageRender.Proofs.Markup.Fragments

/-! # Elements that are closed too early

Wherever legible markup is read, its nodes come to stand at most as deep as they stood before. They are
all as deep only if no closing tag of a void element closed anything that had more to come. So the
condition under which the content of an element is the same after it was written and read back cannot
be weakened.
-/

namespace PageRender

namespace Node

/-- An element with content of its own that is not closed before its last node. -/
def EndsLast : Node Unit → Prop
  | text _ _ => True
  | element _ t _ cs => t ∉ Tag.rawTags → Follows (fun _ => False) true false cs

/-- A node that is read as what it is when its markup is read, though perhaps at another place. -/
def Legible : Node Unit → Prop
  | text _ _ => True
  | element _ t a cs => t ≠ "html" ∧ (∀ e ∈ a.entries, '"' ∉ e.2.toList) ∧
      (Tag.openingText t a).getLast? ≠ some '/' ∧
      (t ∈ Tag.rawTags → (∀ c ∈ cs, c.tag? = none) ∧ NoClosing t (forestChars true cs))

instance : DecidablePred EndsLast
  | text _ _ => inferInstanceAs (Decidable True)
  | element _ _ _ _ => inferInstanceAs (Decidable (_ → _))

instance : DecidablePred Legible
  | text _ _ => inferInstanceAs (Decidable True)
  | element _ _ _ _ => inferInstanceAs (Decidable (_ ∧ _ ∧ _ ∧ (_ → _ ∧ _)))

theorem readsBack_of_legible {n : Node Unit} (h : n.Legible) (hLast : n.EndsLast) : ReadsBack true n := by
  cases n with
  | text => trivial
  | element i t a cs =>
    obtain ⟨hHtml, hValues, hSlash, hRaw⟩ := h
    exact
      { values := hValues
        slash := hSlash
        name := fun h => by cases h
        raw := hRaw
        last := hLast
        html := fun h => absurd h hHtml }

variable {α : Type}

mutual

theorem depths_lt {k k' : Nat} (h : k < k') (n : Node α) : n.depths k < n.depths k' := by
  cases n with
  | text => exact h
  | element i t a cs =>
    have hChildren := forestDepths_le (Nat.add_lt_add_right h 1) cs
    rw [depths, depths]
    omega

theorem forestDepths_le {k k' : Nat} (h : k < k') (ns : List (Node α)) : forestDepths k ns ≤ forestDepths k' ns := by
  cases ns with
  | nil => exact Nat.le_refl _
  | cons n ns =>
    have hFirst := depths_lt h n
    have hRest := forestDepths_le h ns
    rw [forestDepths, forestDepths]
    omega

end

theorem le_depths (k : Nat) (n : Node α) : k ≤ n.depths k := by
  cases n with
  | text => exact Nat.le_refl _
  | element => exact Nat.le_add_right _ _

end Node

namespace Markup

open OpenElement Node

/-- What opens an element again that was closed, given the depth of what is in it. Only the body of the
fragment is ever opened again. -/
def ReopensAt (k : Nat) (tag : Option String) : Prop :=
  k = 1 ∧ OpensBody tag

/-- From one stack another is reached that is no higher than `k` allows, while no more than `gain` is
added to the depths. If all of it is, what had to hold does, and an element that is closed tells so. -/
structure Reaches (k gain : Nat) (s s' : List OpenElement) (closed closed' : Bool) (held : Prop) :
    Prop where
  single : Single s'
  length : s'.length ≤ k + 1
  depths : stackDepths s' ≤ stackDepths s + gain
  tight : stackDepths s' = stackDepths s + gain → s.length + closed.toNat = k + 1 →
    held ∧ s'.length + closed'.toNat = k + 1

theorem Reaches.trans {k gain gain' : Nat} {s s' s'' : List OpenElement} {closed closed' closed'' : Bool}
    {p q : Prop} (h : Reaches k gain s s' closed closed' p)
    (h' : Reaches k gain' s' s'' closed' closed'' q) :
    Reaches k (gain + gain') s s'' closed closed'' (p ∧ q) where
  single := h'.single
  length := h'.length
  depths := by
    have hFirst := h.depths
    have hSecond := h'.depths
    omega
  tight hTight hLength := by
    have hFirst := h.depths
    have hSecond := h'.depths
    obtain ⟨hp, hLength'⟩ := h.tight (by omega) hLength
    obtain ⟨hq, hLength''⟩ := h'.tight (by omega) hLength'
    exact ⟨⟨hp, hq⟩, hLength''⟩

theorem Reaches.imp {k gain : Nat} {s s' : List OpenElement} {closed closed' : Bool} {p q : Prop}
    (h : Reaches k gain s s' closed closed' p) (hImp : p → q) : Reaches k gain s s' closed closed' q where
  single := h.single
  length := h.length
  depths := h.depths
  tight hTight hLength := (h.tight hTight hLength).imp_left hImp

section

variable {k : Nat} {b : Builder} {tag : Option String} {e e' : OpenElement} {rest : List OpenElement}

theorem opensBody_of_inBody {root : OpenElement} {f : List (Nat × Finding)} (hRoot : root.tag = "html")
    (h : inBody (Builder.settle ⟨[root], f⟩ tag).stack = true) : OpensBody tag := by
  have hHtml : (root.tag != "html") = false := by simp [hRoot]
  rw [Builder.settle_mk_root, Builder.enterSection_mk, hHtml, Bool.false_or] at h
  cases hTag : Builder.standsInRoot tag with
  | true =>
    rw [hTag, if_pos rfl] at h
    cases h
  | false =>
    rw [hTag, if_neg Bool.false_ne_true] at h
    cases hHead : Builder.isHeadTag tag with
    | true =>
      rw [hHead, if_pos rfl, Builder.openSection_mk, inBody, opened_tag] at h
      cases h
    | false => exact ⟨hTag, hHead⟩

/-- Where two elements are open for a tag or a text, they are not too many, and if the body is among
them and nothing is lost, an element that was closed has been opened again. -/
theorem entered (hk : 1 ≤ k) (hSingle : Single b.stack) (hLength : b.stack.length ≤ k + 1)
    (hStack : (b.settle tag).stack = e :: e' :: rest) : rest.length + 1 ≤ k ∧
      ∀ closed : Bool, inBody (e :: e' :: rest) = true → rest.length + 1 = k →
        b.stack.length + closed.toNat = k + 1 → closed = true → ReopensAt k tag := by
  have hLe := length_settle_le b tag
  rw [hStack, List.length_cons, List.length_cons] at hLe
  refine ⟨by omega, ?_⟩
  rintro closed hInBody hHere hClosed rfl
  rw [Bool.toNat_true] at hClosed
  obtain rfl : k = 1 := by omega
  refine ⟨rfl, ?_⟩
  obtain ⟨stack, f⟩ := b
  match stack with
  | [] => cases hSingle
  | [root] =>
    rw [← hStack] at hInBody
    exact opensBody_of_inBody hSingle.root_tag hInBody
  | _ :: _ :: _ =>
    simp only [List.length_cons] at hClosed
    omega

theorem reaches_addNode (hk : 1 ≤ k) (hSingle : Single b.stack) (hLength : b.stack.length ≤ k + 1)
    (hTag : Builder.standsInRoot tag = false) (n : Node Unit) (closed : Bool) :
    Reaches k (n.depths k) b.stack ((b.settle tag).addNode n).stack closed false
      (closed = true → ReopensAt k tag) := by
  obtain ⟨hSettled, hDepths⟩ := settle_depths b tag hSingle
  obtain ⟨e, e', rest, hStack⟩ := exists_settle_stack hSingle hTag
  obtain ⟨hHeight, hReopens⟩ := entered hk hSingle hLength hStack
  have hAdd : ((b.settle tag).addNode n).stack = e.add n :: e' :: rest := by
    rw [Builder.addNode, hStack]
  rw [hStack] at hSettled hDepths
  have hPos := le_depths k n
  have hGain : rest.length + 1 < k → n.depths (rest.length + 1) < n.depths k := fun h => depths_lt h n
  have hSame : rest.length + 1 = k → n.depths (rest.length + 1) = n.depths k := fun h => by rw [h]
  have hSum := stackDepths_add e e' rest n
  rw [hAdd]
  refine ⟨single_of_tag_eq (e := e) rfl hSettled, by simpa using hHeight, ?_, ?_⟩
  · rw [hSum, hDepths]
    split <;> omega
  · intro hTight hClosed
    cases hInBody : inBody (e :: e' :: rest) with
    | false =>
      rw [hInBody, if_neg Bool.false_ne_true] at hSum
      omega
    | true =>
      rw [hInBody, if_pos rfl] at hSum
      have hHere : rest.length + 1 = k := by omega
      exact ⟨hReopens closed hInBody hHere hClosed, by simp [hHere]⟩

theorem reaches_addRun (hk : 1 ≤ k) (hSingle : Single b.stack) (hLength : b.stack.length ≤ k + 1)
    {held : List Char} (hHeld : held ≠ [] → ∃ c ∈ held, Text.isBlank c = false) (closed : Bool) :
    Reaches k (forestDepths k (pending held)) b.stack (addRun b held.reverse).stack closed
      (closed && held.isEmpty) (held ≠ [] → closed = true → ReopensAt k none) := by
  by_cases hEmpty : held = []
  · subst hEmpty
    refine ⟨hSingle, hLength, Nat.le_add_right _ _, ?_⟩
    intro _ hClosed
    rw [List.isEmpty_nil, Bool.and_true]
    exact ⟨fun h => absurd rfl h, hClosed⟩
  obtain ⟨c, hc, hBlank⟩ := hHeld hEmpty
  have hShown : ¬held.reverse.all Text.isBlank = true := by
    intro hAll
    have hTrue := List.all_eq_true.mp hAll c (List.mem_reverse.mpr hc)
    rw [hBlank] at hTrue
    cases hTrue
  have hTag : Builder.standsInRoot none = false := rfl
  have hAdd := reaches_addNode hk hSingle hLength hTag (.text () (String.ofList held.reverse)) closed
  have hClosed : (closed && held.isEmpty) = false := by simp [hEmpty]
  rw [addRun_eq, if_neg hShown, hClosed, pending_of_ne_nil hEmpty, forestDepths_singleton]
  exact hAdd.imp fun hReopens _ => hReopens

theorem read_tag_single {text : List Char} (hText : Tag.BracketFree text) (more : List Char)
    (hSingle : Single (b.addTag (more.length + 1) text).stack) :
    read b true [] (text ++ '>' :: more) = read (b.addTag (more.length + 1) text) false [] more := by
  obtain ⟨e, es, hStack⟩ := hSingle.exists_cons
  rw [hStack] at hSingle
  exact read_tag_plain hText more hStack hSingle.plain

/-- A closing tag closes one element, and no more than are open for what follows. -/
theorem read_closing_depths (hSingle : Single b.stack) {t : String} (hName : Tag.IsName t)
    (more : List Char) : ∃ b', read b true [] (Tag.closingText t ++ '>' :: more) = read b' false [] more ∧
      Single b'.stack ∧ stackDepths b'.stack = stackDepths b.stack ∧
      b'.stack.length = max 2 b.stack.length - 1 := by
  obtain ⟨name, hAdd⟩ : ∃ name, b.addTag (more.length + 1) (Tag.closingText t) =
      (b.settle (some name)).closeTag (more.length + 1) name := ⟨_, addTag_slash b _ t.toList⟩
  obtain ⟨hSettled, hDepths⟩ := settle_depths b (some name) hSingle
  obtain ⟨hPop, hPopDepths, hPopLength⟩ := pop_depths hSettled
  have hStack : (b.addTag (more.length + 1) (Tag.closingText t)).stack = (b.settle (some name)).pop.stack := by
    rw [hAdd, Builder.stack_closeTag]
  have hLe := length_settle_le b (some name)
  have hLength : (b.settle (some name)).pop.stack.length = max 2 b.stack.length - 1 := by
    rw [hPopLength]
    by_cases hDeep : 2 < b.stack.length
    · rw [settle_of_two_lt hDeep]
      omega
    · omega
  rw [← hStack] at hPop hPopDepths hLength
  refine ⟨b.addTag (more.length + 1) (Tag.closingText t), ?_, hPop, hPopDepths.trans hDepths, hLength⟩
  exact read_tag_single (bracketFree_closingText hName) more hPop

variable {i : Unit} {t : String} {a : Attributes} {cs : List (Node Unit)}

theorem void_sinks (hk : 1 ≤ k) (hSingle : Single b.stack) (hLength : b.stack.length ≤ k + 1)
    (hVoid : t ∈ Tag.voidTags) (hName : Tag.IsElementName t) (hAttributes : Tag.AreAttributes a)
    (hValues : ∀ e ∈ a.entries, '"' ∉ e.2.toList) (hSlash : (Tag.openingText t a).getLast? ≠ some '/')
    (more : List Char) :
    ∃ b', read b true [] (Tag.openingText t a ++ '>' :: (closingChars true t ++ more)) =
        read b' false [] more ∧
      ∀ closed, Reaches k ((Node.element () t a []).depths k) b.stack b'.stack closed true
        (closed = true → ReopensAt k (some t)) := by
  have hReaches := reaches_addNode hk hSingle hLength (voidTags_ne hVoid).2 (.element () t a [])
  have hAdd : ∀ left, b.addTag left (Tag.openingText t a) =
      (b.settle (some t)).addNode (.element () t a []) := by
    intro left
    rw [addTag_openingText left hName hAttributes hValues hSlash, Builder.openTag,
      if_pos (by simpa using hVoid)]
  have hOpened := (hReaches false).single
  obtain ⟨b', hRead, hSingle', hDepths, hLength'⟩ :=
    read_closing_depths hOpened hName.toIsName more
  refine ⟨b', ?_, ?_⟩
  · rw [← hRead, read_tag_single (bracketFree_openingText hName.toIsName hAttributes) _
      (by rw [hAdd]; exact hOpened), hAdd, closingChars, if_neg (by simp), List.cons_append,
      read_opening, addRun_nil_reverse, List.append_assoc, List.singleton_append]
  · intro closed
    have hHigh := (hReaches closed).length
    refine ⟨hSingle', by omega, by rw [hDepths]; exact (hReaches closed).depths, ?_⟩
    intro hTight hClosed
    rw [hDepths] at hTight
    obtain ⟨hReopens, hHere⟩ := (hReaches closed).tight hTight hClosed
    rw [Bool.toNat_false] at hHere
    exact ⟨hReopens, by rw [Bool.toNat_true]; omega⟩

theorem raw_sinks (hk : 1 ≤ k) (hSingle : Single b.stack) (hLength : b.stack.length ≤ k + 1)
    (hRaw : t ∈ Tag.rawTags) (hLawful : (Node.element i t a cs).All Node.Lawful)
    (hReads : ElementReadsBack true t a cs) (more : List Char) :
    ∃ b', read b true [] (Tag.openingText t a ++
          '>' :: (forestChars true cs ++ (closingChars true t ++ more))) = read b' false [] more ∧
      ∀ closed, Reaches k ((Node.element () t a (joinedForest cs)).depths k) b.stack b'.stack closed
        ((Node.element i t a cs).closesParent true) (closed = true → ReopensAt k (some t)) := by
  have hTag : Builder.standsInRoot (some t) = false := by
    have hAll : ∀ t ∈ Tag.rawTags, Builder.standsInRoot (some t) = false := by decide
    exact hAll t hRaw
  have hReaches := reaches_addNode hk hSingle hLength hTag (.element () t a (joinedForest cs))
  obtain ⟨e, e', rest, hStack⟩ := exists_settle_stack hSingle hTag
  obtain ⟨hSettled, -⟩ := settle_depths b (some t) hSingle
  rw [hStack] at hSettled
  have hSettle : b.settle (some t) =
      ⟨Place.stack ⟨e.tag, e.attributes, e', rest⟩ false e.children, (b.settle (some t)).findings⟩ := by
    rw [Place.stack, Place.top, shown_of_ne_html hSettled.tag_ne, ← hStack]
  obtain ⟨f, hRead, -⟩ := read_raw hSettled.plain hSettle hRaw hLawful hReads more
  rw [closesParent_raw hRaw (hReads.raw hRaw).1] at hRead ⊢
  refine ⟨_, hRead, ?_⟩
  have hAdd : ((b.settle (some t)).addNode (.element () t a (joinedForest cs))).stack =
      Place.stack ⟨e.tag, e.attributes, e', rest⟩ false
        (e.children ++ [.element () t a (joinedForest cs)]) := by
    rw [Builder.addNode, hStack, Place.stack, Place.top, shown_of_ne_html hSettled.tag_ne]
    rfl
  rw [hAdd] at hReaches
  exact hReaches

theorem isSection_of_settled {root : OpenElement} (hSingle : Single b.stack) (hName : Tag.IsElementName t)
    (hStack : (b.settle (some t)).stack = [root]) : IsSection t := by
  cases hTag : Builder.standsInRoot (some t) with
  | false =>
    obtain ⟨e, e', rest, hTwo⟩ := exists_settle_stack hSingle hTag
    rw [hStack] at hTwo
    cases hTwo
  | true =>
    have hCases : t = "head" ∨ t = "body" ∨ t = "/html" := by
      simpa [Builder.standsInRoot] using hTag
    rcases hCases with rfl | rfl | rfl
    · exact .inl rfl
    · exact .inr rfl
    · exact absurd rfl hName.opening.1

/-- An element that is opened is one more that is open, unless a section of the root is opened again. -/
theorem opened_depths (hk : 1 ≤ k) (hSingle : Single b.stack) (hLength : b.stack.length ≤ k + 1)
    (hVoid : t ∉ Tag.voidTags) (hRaw : t ∉ Tag.rawTags) (hHtml : t ≠ "html") (hName : Tag.IsElementName t)
    (a : Attributes) :
    ∃ b', (b.settle (some t)).openTag ⟨t, a⟩ = b' ∧ Single b'.stack ∧ b'.stack.length ≤ k + 2 ∧
      stackDepths b'.stack ≤ stackDepths b.stack + k ∧
      (stackDepths b'.stack = stackDepths b.stack + k → b'.stack.length = k + 2 ∧
        ∀ closed : Bool, b.stack.length + closed.toNat = k + 1 → closed = true → ReopensAt k (some t)) := by
  obtain ⟨hSettled, hDepths⟩ := settle_depths b (some t) hSingle
  rw [← hDepths]
  rcases hBuilder : b.settle (some t) with ⟨stack, f⟩
  rw [hBuilder] at hSettled
  dsimp only
  match stack with
  | [] => cases hSettled
  | [root] =>
    have hSection : IsSection t := isSection_of_settled hSingle hName (congrArg Builder.stack hBuilder)
    have hOpen : Builder.openTag ⟨[root], f⟩ ⟨t, a⟩ = ⟨[root.opened t a, root.without t], f⟩ := by
      rw [openTag_eq hVoid, if_pos ⟨hSection, congrArg some hSettled.root_tag⟩, Builder.openSection_mk]
    refine ⟨_, hOpen, single_section a hSettled hSection, ?_, ?_, ?_⟩
    · simp
    · rw [stackDepths_section root a hSection]
      omega
    · intro hTight
      rw [stackDepths_section root a hSection] at hTight
      omega
  | e :: e' :: rest =>
    obtain ⟨hHeight, hReopens⟩ := entered hk hSingle hLength (congrArg Builder.stack hBuilder)
    have hOpen : Builder.openTag ⟨e :: e' :: rest, f⟩ ⟨t, a⟩ = ⟨⟨t, a, []⟩ :: e :: e' :: rest, f⟩ := by
      rw [openTag_eq hVoid, if_neg (fun h => hSettled.tag_ne (Option.some.inj h.2))]
      rfl
    refine ⟨_, hOpen, .inner hHtml hRaw hSettled, ?_, ?_, ?_⟩
    · simpa using hHeight
    · rw [stackDepths_push]
      split <;> omega
    · intro hTight
      rw [stackDepths_push] at hTight
      cases hInBody : inBody (e :: e' :: rest) with
      | false =>
        rw [hInBody, if_neg Bool.false_ne_true] at hTight
        omega
      | true =>
        rw [hInBody, if_pos rfl] at hTight
        have hHere : rest.length + 1 = k := by omega
        exact ⟨by simp [hHere], fun closed hClosed => hReopens closed hInBody hHere hClosed⟩

end

/-- What nodes must be for each of them to be read as what it is. -/
structure AreLegible (ns : List (Node Unit)) : Prop where
  plain : ∀ s, .text () s ∈ ns → '<' ∉ s.toList
  lawful : ∀ n ∈ ns, n.All Node.Lawful
  legible : ∀ n ∈ ns, n.All Legible

/-- The markup of nodes is read at most as deep as they stand, and as deep only if nothing is closed too
early. -/
def ForestSinks (ns : List (Node Unit)) : Prop :=
  ∀ k b held more, 1 ≤ k → Single b.stack → b.stack.length ≤ k + 1 →
    (held ≠ [] → ∃ c ∈ held, Text.isBlank c = false) →
    ∃ b', read b false held (forestChars true ns ++ '<' :: more) = read b' true [] more ∧
      ∀ closed, Reaches k (forestDepths k (joinedForest (pending held ++ ns))) b.stack b'.stack closed
        (closedAfter true (closed && held.isEmpty) ns)
        ((held ≠ [] → closed = true → ReopensAt k none) ∧
          Follows (ReopensAt k) true (closed && held.isEmpty) ns ∧ ∀ n ∈ ns, n.All EndsLast)

theorem all_endsLast_text (i : Unit) (s : String) : (Node.text i s).All EndsLast :=
  all_iff.mpr ⟨trivial, by simp [Node.children]⟩

section

variable {k : Nat} {b : Builder} {i : Unit} {t : String} {a : Attributes} {cs : List (Node Unit)}

/-- An element with content of its own is closed behind all of it, and if nothing is lost then nothing
in it was closed too early. -/
theorem inner_sinks (hk : 1 ≤ k) (hSingle : Single b.stack) (hLength : b.stack.length ≤ k + 1)
    (hVoid : t ∉ Tag.voidTags) (hRaw : t ∉ Tag.rawTags) (hLawful : (Node.element i t a cs).All Node.Lawful)
    (hLegible : (Node.element i t a cs).All Legible) (hContent : AreLegible cs → ForestSinks cs)
    (more : List Char) :
    ∃ b', read b true [] (Tag.openingText t a ++
          '>' :: (forestChars true cs ++ (closingChars true t ++ more))) = read b' false [] more ∧
      ∀ closed, Reaches k ((Node.element () t a (joinedForest cs)).depths k) b.stack b'.stack closed
        ((Node.element i t a cs).closesParent true)
        ((closed = true → ReopensAt k (some t)) ∧ (Node.element i t a cs).All EndsLast) := by
  obtain ⟨⟨hName, hAttributes, -, hPlain⟩, hLawfulChildren⟩ := all_iff.mp hLawful
  obtain ⟨⟨hHtml, hValues, hSlash, -⟩, hLegibleChildren⟩ := all_iff.mp hLegible
  obtain ⟨opened, hOpen, hOpened, hHigh, hGain, hOpenTight⟩ :=
    opened_depths hk hSingle hLength hVoid hRaw hHtml hName a
  have hAdd : ∀ left, b.addTag left (Tag.openingText t a) = opened := by
    intro left
    rw [addTag_openingText left hName hAttributes hValues hSlash, hOpen]
  obtain ⟨inner, hInside, hReaches⟩ := hContent ⟨hPlain hRaw, hLawfulChildren, hLegibleChildren⟩ (k + 1)
    opened [] (Tag.closingText t ++ '>' :: more) (by omega) hOpened hHigh (fun h => absurd rfl h)
  have hReaches := hReaches false
  rw [pending_nil, List.nil_append, Bool.false_and] at hReaches
  obtain ⟨b', hRead, hSingle', hDepths, hLength'⟩ :=
    read_closing_depths hReaches.single hName.toIsName more
  have hInnerHigh := hReaches.length
  have hInnerGain := hReaches.depths
  refine ⟨b', ?_, ?_⟩
  · rw [closingChars_of_notMem hVoid, List.cons_append, List.append_assoc, List.singleton_append,
      read_tag_single (bracketFree_openingText hName.toIsName hAttributes) _ (by rw [hAdd]; exact hOpened),
      hAdd, hInside, hRead]
  · intro closed
    have hCloses : (Node.element i t a cs).closesParent true = closedAfter true false cs := by
      simp [closesParent, hVoid]
    rw [hCloses, depths]
    refine ⟨hSingle', by omega, by omega, ?_⟩
    intro hTight hClosed
    obtain ⟨hOpenedHigh, hReopens⟩ := hOpenTight (by omega)
    obtain ⟨⟨-, hFollows, hLast⟩, hHere⟩ := hReaches.tight (by omega)
      (by rw [Bool.toNat_false]; omega)
    refine ⟨⟨hReopens closed hClosed, all_iff.mpr ⟨fun _ => hFollows.mono ?_, hLast⟩⟩, ?_⟩
    · -- Only the body of the fragment is opened again, and these elements stand deeper.
      rintro tag ⟨hOne, -⟩
      omega
    · have hLe := Bool.toNat_le (closedAfter true false cs)
      omega

/-- The markup of an element is read at most as deep as the element stands if that of its content is. -/
theorem element_sinks (hk : 1 ≤ k) (hSingle : Single b.stack) (hLength : b.stack.length ≤ k + 1)
    (hLawful : (Node.element i t a cs).All Node.Lawful) (hLegible : (Node.element i t a cs).All Legible)
    (hContent : AreLegible cs → ForestSinks cs) (more : List Char) :
    ∃ b', read b true [] (Tag.openingText t a ++
          '>' :: (forestChars true cs ++ (closingChars true t ++ more))) = read b' false [] more ∧
      ∀ closed, Reaches k ((Node.element () t a (joinedForest cs)).depths k) b.stack b'.stack closed
        ((Node.element i t a cs).closesParent true)
        ((closed = true → ReopensAt k (some t)) ∧ (Node.element i t a cs).All EndsLast) := by
  obtain ⟨hName, hAttributes, hEmpty, -⟩ := (all_iff.mp hLawful).1
  have hSelf : Legible (.element i t a cs) := (all_iff.mp hLegible).1
  obtain ⟨-, hValues, hSlash, hRawContent⟩ := (all_iff.mp hLegible).1
  by_cases hVoid : t ∈ Tag.voidTags
  · obtain rfl := hEmpty hVoid
    obtain ⟨b', hRead, hReaches⟩ :=
      void_sinks hk hSingle hLength hVoid hName hAttributes hValues hSlash more
    have hCloses : (Node.element i t a []).closesParent true = true := by simp [closesParent, hVoid]
    have hLast : (Node.element i t a []).All EndsLast :=
      all_iff.mpr ⟨fun _ => trivial, by simp [Node.children]⟩
    refine ⟨b', hRead, ?_⟩
    intro closed
    rw [hCloses]
    exact (hReaches closed).imp fun hReopens => ⟨hReopens, hLast⟩
  by_cases hRaw : t ∈ Tag.rawTags
  · have hSelfLast : (Node.element i t a cs).EndsLast := fun h => absurd hRaw h
    obtain ⟨b', hRead, hReaches⟩ := raw_sinks hk hSingle hLength hRaw hLawful
      (readsBack_of_legible (n := .element i t a cs) hSelf hSelfLast) more
    have hLast : (Node.element i t a cs).All EndsLast := by
      refine all_iff.mpr ⟨hSelfLast, ?_⟩
      intro c hc
      cases c with
      | text i s => exact all_endsLast_text i s
      | element => cases (hRawContent hRaw).1 _ hc
    refine ⟨b', hRead, ?_⟩
    intro closed
    exact (hReaches closed).imp fun hReopens => ⟨hReopens, hLast⟩
  exact inner_sinks hk hSingle hLength hVoid hRaw hLawful hLegible hContent more

end

theorem forestSinks_nil : ForestSinks [] := by
  intro k b held more hk hSingle hLength hHeld
  refine ⟨addRun b held.reverse, ?_, ?_⟩
  · rw [forestChars, List.nil_append, read_opening]
  · intro closed
    have hRun := reaches_addRun hk hSingle hLength hHeld closed
    rw [List.append_nil, joinedForest_pending, closedAfter]
    exact hRun.imp fun hReopens => ⟨hReopens, trivial, by simp⟩

theorem forestSinks_text {i : Unit} {s : String} {ns : List (Node Unit)}
    (h : AreLegible (.text i s :: ns)) (hRest : ForestSinks ns) : ForestSinks (.text i s :: ns) := by
  intro k b held more hk hSingle hLength hHeld
  obtain ⟨c, hc, hBlank⟩ := (all_iff.mp (h.lawful _ List.mem_cons_self)).1
  have hNonempty : s ≠ "" := by
    rintro rfl
    cases hc
  have hMem : c ∈ s.toList.reverse ++ held := List.mem_append_left _ (List.mem_reverse.mpr hc)
  have hIsEmpty : (s.toList.reverse ++ held).isEmpty = false :=
    List.isEmpty_eq_false_iff_exists_mem.mpr ⟨c, hMem⟩
  obtain ⟨b', hRead, hReaches⟩ := hRest k b (s.toList.reverse ++ held) more hk hSingle hLength
    (fun _ => ⟨c, hMem, hBlank⟩)
  refine ⟨b', ?_, ?_⟩
  · rw [forestChars, chars, List.append_assoc, read_text _ _ (h.plain s List.mem_cons_self), hRead]
  · intro closed
    have hReaches := hReaches closed
    rw [hIsEmpty, Bool.and_false] at hReaches
    rw [joinedForest_pending_text hNonempty, closedAfter, closesParent]
    refine hReaches.imp ?_
    rintro ⟨hReopens, hFollows, hLast⟩
    have hReopens := hReopens (List.ne_nil_of_mem hMem)
    refine ⟨fun _ => hReopens, ⟨?_, hFollows⟩, List.forall_mem_cons.mpr ⟨all_endsLast_text i s, hLast⟩⟩
    intro hBoth
    exact hReopens (Bool.and_eq_true_iff.mp hBoth).1

theorem forestSinks_element {i : Unit} {t : String} {a : Attributes} {cs ns : List (Node Unit)}
    (h : AreLegible (.element i t a cs :: ns)) (hContent : AreLegible cs → ForestSinks cs)
    (hRest : ForestSinks ns) : ForestSinks (.element i t a cs :: ns) := by
  intro k b held more hk hSingle hLength hHeld
  have hRun := reaches_addRun hk hSingle hLength hHeld
  obtain ⟨b', hElement, hReaches⟩ := element_sinks hk (hRun false).single (hRun false).length
    (h.lawful _ List.mem_cons_self) (h.legible _ List.mem_cons_self) hContent
    (forestChars true ns ++ '<' :: more)
  obtain ⟨b'', hRead, hReaches'⟩ := hRest k b' [] more hk (hReaches false).single (hReaches false).length
    (fun h => absurd rfl h)
  refine ⟨b'', ?_, ?_⟩
  · rw [forestChars, chars, List.append_assoc, List.cons_append, read_opening, List.append_assoc,
      List.cons_append, List.append_assoc, hElement, hRead]
  · intro closed
    have hReaches' := hReaches' ((Node.element i t a cs).closesParent true)
    rw [pending_nil, List.nil_append, List.isEmpty_nil, Bool.and_true] at hReaches'
    have hAll := ((hRun closed).trans (hReaches (closed && held.isEmpty))).trans hReaches'
    rw [joinedForest_pending_element, closedAfter, forestDepths_append, forestDepths, ← Nat.add_assoc]
    refine hAll.imp ?_
    rintro ⟨⟨hHeldReopens, hReopens, hHere⟩, -, hFollows, hLast⟩
    exact ⟨hHeldReopens, ⟨hReopens, hFollows⟩, List.forall_mem_cons.mpr ⟨hHere, hLast⟩⟩

theorem AreLegible.tail {n : Node Unit} {ns : List (Node Unit)} (h : AreLegible (n :: ns)) :
    AreLegible ns where
  plain s hs := h.plain s (List.mem_cons_of_mem n hs)
  lawful m hm := h.lawful m (List.mem_cons_of_mem n hm)
  legible m hm := h.legible m (List.mem_cons_of_mem n hm)

theorem forestSinks (ns : List (Node Unit)) (h : AreLegible ns) : ForestSinks ns := by
  match ns with
  | [] => exact forestSinks_nil
  | .text i s :: ns => exact forestSinks_text h (forestSinks ns h.tail)
  | .element i t a cs :: ns => exact forestSinks_element h (forestSinks cs) (forestSinks ns h.tail)

theorem stackDepths_closeAll {s : List OpenElement} {root : OpenElement}
    (h : Builder.closeAll s = some root) : stackDepths s = stackDepths [root] := by
  fun_induction Builder.closeAll s with
  | case1 => cases h
  | case2 e =>
    cases h
    rfl
  | case3 top parent rest ih => rw [← ih h, stackDepths_close]

theorem forestDepths_children_le {n : Node Unit} {ns : List (Node Unit)} (h : n ∈ ns)
    (hTag : n.hasTag "body" = true) : forestDepths 1 n.children ≤ forestDepths 1 (bodyNodes ns) := by
  obtain ⟨before, after, rfl⟩ := List.append_of_mem h
  have hBody : bodyNodes [n] = n.children := by simp [bodyNodes, hTag]
  rw [← List.singleton_append, bodyNodes_append, bodyNodes_append, hBody, forestDepths_append,
    forestDepths_append]
  omega

theorem forestDepths_section_le (root : OpenElement) :
    forestDepths 1 (section? root "body").children ≤ stackDepths [root] := by
  rw [section?, stackDepths]
  cases hChild : root.child? "body" with
  | none => exact Nat.zero_le _
  | some n => exact forestDepths_children_le (List.mem_of_find?_eq_some hChild) (List.find?_some hChild)

theorem parseFragment_eq_section {source : String} {b : Builder} (hSingle : Single b.stack)
    (hRead : read {} false [] ("<body>" ++ source ++ "</body>").toList = b) :
    ∃ root, stackDepths b.stack = stackDepths [root] ∧
      parseFragment source = (section? root "body").children := by
  obtain ⟨root, ls, -, -, hRoot, hParse, hRooted, hLawful⟩ := exists_root ("<body>" ++ source ++ "</body>")
  obtain ⟨e, rest, hStack⟩ := hSingle.exists_cons
  have hEnded : ended b = b := by simp [ended, hStack]
  rw [hRead, hEnded] at hRoot
  have hHead := (section?_spec hLawful (.inl rfl)).1
  have hBody := (section?_spec hLawful (.inr rfl)).1
  refine ⟨root, stackDepths_closeAll hRoot, ?_⟩
  rw [parseFragment, hParse, completeRoot_eq hRooted.2]
  simp [Node.children, hasTag, hHead, hBody]

/-- If legible nodes come back as they were, nothing was closed too early. -/
theorem follows_of_parseFragment {source : String} {ns : List (Node Unit)} (h : AreLegible ns)
    (hSource : source.toList = forestChars true ns) (hSame : parseFragment source = joinedForest ns) :
    Follows OpensBody true false ns ∧ ∀ n ∈ ns, n.All EndsLast := by
  have hSingle : Single (fragmentPlace.stack false []) := .inner (by decide) (by decide) (.root rfl)
  obtain ⟨b, hInside, hReaches⟩ := forestSinks ns h 1 ⟨fragmentPlace.stack false [], []⟩ []
    (Tag.closingText "body" ++ ['>']) (Nat.le_refl 1) hSingle (Nat.le_refl 2) (fun h => absurd rfl h)
  have hReaches := hReaches false
  rw [pending_nil, List.nil_append, Bool.false_and] at hReaches
  obtain ⟨b', hRead, hSingle', hDepths, -⟩ :=
    read_closing_depths hReaches.single Tag.isElementName_body.toIsName []
  have hBuilder : read {} false [] ("<body>" ++ source ++ "</body>").toList = b' := by
    rw [read_fragment hSource, hInside, hRead, read_nil, addRun_nil_reverse]
  obtain ⟨root, hRoot, hSection⟩ := parseFragment_eq_section hSingle' hBuilder
  have hLe := forestDepths_section_le root
  have hGain := hReaches.depths
  have hStart : stackDepths (Builder.stack ⟨fragmentPlace.stack false [], []⟩) = 0 := rfl
  rw [← hSection, hSame] at hLe
  obtain ⟨⟨-, hFollows, hLast⟩, -⟩ := hReaches.tight (by omega) rfl
  exact ⟨hFollows.mono fun _ hReopens => hReopens.2, hLast⟩

theorem AreLegible.reversible {n : Node Unit} (h : AreLegible n.children)
    (hFollows : Follows OpensBody true false n.children) (hLast : ∀ c ∈ n.children, c.All EndsLast) :
    n.Reversible := by
  refine ⟨?_, h.plain, hFollows⟩
  intro c hc m hm
  exact readsBack_of_legible (h.legible c hc m hm) (hLast c hc m hm)

/-- Of an element with legible content, the condition for coming back as it was is exact. -/
theorem parseFragment_innerMarkup_iff {n : Node Unit} (hLawful : n.All Node.Lawful)
    (h : AreLegible n.children) :
    parseFragment n.innerMarkup = joinedForest n.children ↔ n.Reversible := by
  constructor
  · intro hSame
    obtain ⟨hFollows, hLast⟩ := follows_of_parseFragment h (toList_innerMarkup n) hSame
    exact h.reversible hFollows hLast
  · exact parseFragment_innerMarkup hLawful

end Markup

end PageRender
