import PageRender.Proofs.Markup.Fragments

/-! # Tags that may be left out

Up to the first thing in a source that shows, nothing is opened. If that belongs into the body, it opens the
body as the three tags in front of it would, and from there on the stack of open elements is the same.
-/

namespace PageRender

namespace Builder

/-- The open elements behind the tags of an empty head and of a body. -/
def bodyStack : List OpenElement := [⟨"body", .empty, []⟩, ⟨"html", .empty, [.bare "head"]⟩]

/-- What opens the body before anything has been opened, or may stand in it: a text, or a tag that is
neither one of the three nor belongs into the head or closes it. -/
def LeadsToBody (tag : Option String) : Prop :=
  ∀ t ∈ tag, t ∉ ["html", "head", "body", "/html", "/head"] ∧ t ∉ Tag.headTags

instance : DecidablePred LeadsToBody := fun tag =>
  match tag with
  | none => .isTrue (by simp [LeadsToBody])
  | some t => decidable_of_iff (t ∉ ["html", "head", "body", "/html", "/head"] ∧ t ∉ Tag.headTags)
      (by simp [LeadsToBody])

namespace LeadsToBody

variable {tag : Option String}

theorem opensBody (h : LeadsToBody tag) : Node.OpensBody tag := by
  cases tag with
  | none => exact ⟨rfl, rfl⟩
  | some t =>
    obtain ⟨hTags, hHead⟩ := h t rfl
    simp only [List.mem_cons, List.not_mem_nil, or_false, not_or] at hTags
    exact ⟨by simp [standsInRoot, hTags], by simpa [isHeadTag] using hHead⟩

theorem settle_nil (h : LeadsToBody tag) (f : List (Nat × Finding)) :
    settle ⟨[], f⟩ tag = ⟨bodyStack, f⟩ := by
  have hTags : tag ≠ some "html" ∧ tag ≠ some "/head" := by
    constructor <;> rintro rfl <;> exact absurd (h _ rfl).1 (by decide)
  rw [settle_mk_nil, if_neg (by simpa using hTags.1), enterSection_mk, h.opensBody.1, h.opensBody.2,
    if_neg (by simp), if_neg Bool.false_ne_true, if_neg (by simp [OpenElement.child?]),
    if_neg (by simpa using hTags.2)]
  rfl

end LeadsToBody

theorem settle_bodyStack (f : List (Nat × Finding)) (tag : Option String) :
    settle ⟨bodyStack, f⟩ tag = ⟨bodyStack, f⟩ := by
  rw [bodyStack, settle_mk_section, if_neg (by simp)]

end Builder

namespace Markup

open Builder

/-- A tag that a document shows something of: empty ones, comments and declarations leave nothing behind. -/
def IsNamed (name : String) : Prop :=
  name ≠ "" ∧ name.toList.head? ≠ some '!'

instance : DecidablePred IsNamed := fun _ => inferInstanceAs (Decidable (_ ∧ _))

/-- The first thing in a text that shows, if there is any: a run of text that is not blank, or the name of a
tag. The characters since the last angle bracket are held in reverse. -/
def lead? (inTag : Bool) (held : List Char) : List Char → Option (Option String)
  | [] => if inTag || held.all Text.isBlank then none else some none
  | c :: cs =>
    if c == '<' then
      if inTag || held.all Text.isBlank then lead? true [] cs else some none
    else if c == '>' && inTag then
      let name := (Tag.read held.reverse).name
      if IsNamed name then some (some name) else lead? false [] cs
    else lead? inTag (c :: held) cs

theorem addRun_of_blank {held : List Char} (h : held.all Text.isBlank = true) (b : Builder) :
    addRun b held.reverse = b := by
  rw [addRun_eq, List.all_reverse, if_pos h]

theorem addRun_lead {held : List Char} (h : ¬held.all Text.isBlank = true) (f : List (Nat × Finding)) :
    addRun ⟨[], f⟩ held.reverse = addRun ⟨bodyStack, f⟩ held.reverse := by
  have hBody : LeadsToBody none := by decide
  rw [addRun_eq, addRun_eq, List.all_reverse, if_neg h, if_neg h, hBody.settle_nil, settle_bodyStack]

theorem addTag_lead {text : List Char} (hNamed : IsNamed (Tag.read text).name)
    (h : LeadsToBody (some (Tag.read text).name)) (left : Nat) (f : List (Nat × Finding)) :
    Builder.addTag ⟨[], f⟩ left text = Builder.addTag ⟨bodyStack, f⟩ left text := by
  have hPerform := fun b => perform_tag b left text
  simp only [if_neg hNamed.1, if_neg hNamed.2] at hPerform
  have hNil := hPerform ⟨[], f⟩
  have hOpen := hPerform ⟨bodyStack, f⟩
  rw [h.settle_nil] at hNil
  rw [settle_bodyStack] at hOpen
  exact hNil.trans hOpen.symm

/-- A tag without a name changes nothing but the findings, whatever is open. -/
theorem addTag_unnamed {text : List Char} (h : ¬IsNamed (Tag.read text).name) (left : Nat) :
    ∃ g, ∀ b : Builder, b.addTag left text = ⟨b.stack, b.findings ++ g⟩ := by
  by_cases hEmpty : (Tag.read text).name = ""
  · refine ⟨[(left, .emptyTag)], fun b => ?_⟩
    have hPerform := perform_tag b left text
    rw [if_pos hEmpty] at hPerform
    exact hPerform
  · have hMark : (Tag.read text).name.toList.head? = some '!' := by
      by_contra hOther
      exact h ⟨hEmpty, hOther⟩
    refine ⟨[], fun b => ?_⟩
    have hPerform := perform_tag b left text
    rw [if_neg hEmpty, if_pos hMark] at hPerform
    rw [List.append_nil]
    exact hPerform

theorem finish_nil (f f' : List (Nat × Finding)) :
    Builder.finish ⟨[], f⟩ = Builder.finish ⟨bodyStack, f'⟩ := rfl

theorem rawContent_nil (f : List (Nat × Finding)) (cs : List Char) : rawContent ⟨[], f⟩ cs = ([], cs) := rfl

theorem rawContent_bodyStack (f : List (Nat × Finding)) (cs : List Char) :
    rawContent ⟨bodyStack, f⟩ cs = ([], cs) :=
  rawContent_of_notMem rfl (by decide) cs

/-- From nothing open and from the open body the same is read, if what is met first opens the body. -/
theorem finish_read_lead (inTag : Bool) (held cs : List Char) (f : List (Nat × Finding))
    (h : ∀ lead, lead? inTag held cs = some lead → LeadsToBody lead) :
    (read ⟨[], f⟩ inTag held cs).finish = (read ⟨bodyStack, f⟩ inTag held cs).finish := by
  fun_induction lead? inTag held cs generalizing f with
  | case1 inTag held hNothing =>
    cases inTag with
    | true =>
      rw [read, read]
      exact finish_nil _ _
    | false =>
      rw [read_nil, read_nil, addRun_of_blank hNothing, addRun_of_blank hNothing]
      exact finish_nil _ _
  | case2 inTag held hShown =>
    obtain ⟨hOutside, hText⟩ : inTag = false ∧ ¬held.all Text.isBlank = true := by simpa using hShown
    rw [hOutside, read_nil, read_nil, addRun_lead hText]
  | case3 inTag held c cs hOpening hNothing ih =>
    rw [read, if_pos hOpening, read, if_pos hOpening]
    cases inTag with
    | true => exact ih (f ++ [(cs.length + 1, .openInsideTag)]) h
    | false =>
      rw [if_neg Bool.false_ne_true, if_neg Bool.false_ne_true, addRun_of_blank hNothing,
        addRun_of_blank hNothing]
      exact ih f h
  | case4 inTag held c cs hOpening hShown =>
    obtain ⟨hOutside, hText⟩ : inTag = false ∧ ¬held.all Text.isBlank = true := by simpa using hShown
    rw [read, if_pos hOpening, read, if_pos hOpening, hOutside]
    dsimp only
    rw [if_neg Bool.false_ne_true, addRun_lead hText, if_neg Bool.false_ne_true]
  | case5 inTag held c cs hOpening hClosing name hNamed =>
    rw [read, if_neg hOpening, if_pos hClosing, read, if_neg hOpening, if_pos hClosing,
      addTag_lead hNamed (h _ rfl)]
  | case6 inTag held c cs hOpening hClosing name hNamed ih =>
    obtain ⟨g, hTag⟩ := addTag_unnamed hNamed (cs.length + 1)
    rw [read, if_neg hOpening, if_pos hClosing, read, if_neg hOpening, if_pos hClosing, hTag, hTag]
    dsimp only
    rw [rawContent_nil, rawContent_bodyStack]
    exact ih (f ++ g) h
  | case7 inTag held c cs hOpening hClosing ih =>
    rw [read, if_neg hOpening, if_neg hClosing, read, if_neg hOpening, if_neg hClosing]
    exact ih f h

theorem read_bareTag {b : Builder} {t : String} {e : OpenElement} {es : List OpenElement}
    {f : List (Nat × Finding)} (hName : Tag.IsElementName t) (hSlash : t.toList.getLast? ≠ some '/')
    (hOpen : (b.settle (some t)).openTag ⟨t, .empty⟩ = ⟨e :: es, f⟩) (hPlain : e.tag ∉ Tag.rawTags)
    (more : List Char) :
    read b false [] ('<' :: (t.toList ++ '>' :: more)) = read ⟨e :: es, f⟩ false [] more := by
  have hText : Tag.openingText t .empty = t.toList := List.append_nil _
  rw [← hText]
  exact read_openingText hName Tag.areAttributes_empty (fun e he => absurd he List.not_mem_nil) (hText ▸ hSlash)
    hOpen hPlain more

theorem read_bodyTags (source : String) :
    read {} false [] ("<html><head></head><body>" ++ source).toList =
      read ⟨bodyStack, []⟩ false [] source.toList := by
  have hSource : ("<html><head></head><body>" ++ source).toList =
      '<' :: ("html".toList ++ '>' :: '<' :: ("head".toList ++ '>' :: '<' :: (Tag.closingText "head" ++
        '>' :: '<' :: ("body".toList ++ '>' :: source.toList)))) := by
    rw [String.toList_append]
    rfl
  have hClosing : (Tag.read (Tag.closingText "head")).name = "/head" := by
    rw [← String.toList_inj, Tag.name_read_closingText Tag.isElementName_head.toIsName (by decide)]
    rfl
  have hHtml (more : List Char) : read {} false [] ('<' :: ("html".toList ++ '>' :: more)) =
      read ⟨[⟨"html", .empty, []⟩], []⟩ false [] more :=
    read_bareTag Tag.isElementName_html (by decide) rfl (by decide) more
  have hHead (more : List Char) :
      read ⟨[⟨"html", .empty, []⟩], []⟩ false [] ('<' :: ("head".toList ++ '>' :: more)) =
        read ⟨[⟨"head", .empty, []⟩, ⟨"html", .empty, []⟩], []⟩ false [] more :=
    read_bareTag Tag.isElementName_head (by decide) rfl (by decide) more
  have hBody (more : List Char) :
      read ⟨[⟨"html", .empty, [.bare "head"]⟩], []⟩ false [] ('<' :: ("body".toList ++ '>' :: more)) =
        read ⟨bodyStack, []⟩ false [] more :=
    read_bareTag Tag.isElementName_body (by decide) rfl (by decide) more
  obtain ⟨f, hClose, hFindings⟩ := read_closingText (b := ⟨[⟨"head", .empty, []⟩, ⟨"html", .empty, []⟩], []⟩)
    (f := []) (t := "head") (by rw [hClosing]; rfl) Tag.isElementName_head.toIsName (by decide)
    ('<' :: ("body".toList ++ '>' :: source.toList))
  rw [hSource, hHtml, hHead, read_opening, addRun_nil_reverse, hClose, hFindings rfl (by decide)]
  exact hBody source.toList

/-- A document in which the tags of the head and of the body are left out is read as with these tags in front,
if what shows first in it belongs into the body. -/
theorem parse_omitted (source : String)
    (h : ∀ lead, lead? false [] source.toList = some lead → LeadsToBody lead) :
    (parse source).root = (parse ("<html><head></head><body>" ++ source)).root := by
  rw [parse, parse, read_bodyTags]
  exact finish_read_lead false [] source.toList [] h

/-- A closing tag opens the body too, and what comes later is not restricted. -/
theorem parse_omitted_closing :
    let source := "\n<!doctype html> <> <!-- --></p>x<body class=a><head>y</html>z"
    (∀ lead, lead? false [] source.toList = some lead → LeadsToBody lead) ∧
      (parse source).root = (parse ("<html><head></head><body>" ++ source)).root := by
  intro source
  have hLead : lead? false [] source.toList = some (some "/p") := by decide +kernel
  have hBody : ∀ lead, lead? false [] source.toList = some lead → LeadsToBody lead := by
    intro lead h
    rw [hLead, Option.some.injEq] at h
    rw [← h]
    decide
  exact ⟨hBody, parse_omitted source hBody⟩

end Markup

end PageRender
