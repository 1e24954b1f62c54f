import PageRender.Markup.Builder

/-! # Implied elements

Elements that the source leaves out are opened and closed one at a time, until nothing more is
implied by the next tag or text. The builder does all of it in three passes; this is where its turns
come to rest, whatever is open.
-/

namespace PageRender

namespace OpenElement

/-- A section that is opened inside an element, with what was in it before. -/
def opened (e : OpenElement) (tag : String) (attributes : Attributes) : OpenElement :=
  match e.child? tag with
  | some n => ⟨tag, n.attributes, n.children⟩
  | none => ⟨tag, attributes, []⟩

/-- What is left of an element of which a section is open. A body does not come without a head. -/
def without (e : OpenElement) (tag : String) : OpenElement :=
  match e.child? tag with
  | some _ => { e with children := e.children.eraseP (Node.hasTag tag) }
  | none => if tag == "body" && (e.child? "head").isNone then e.add (.bare "head") else e

@[simp] theorem opened_tag (e : OpenElement) (tag : String) (a : Attributes) :
    (e.opened tag a).tag = tag := by
  unfold opened
  split <;> rfl

@[simp] theorem without_tag (e : OpenElement) (tag : String) : (e.without tag).tag = e.tag := by
  unfold without
  split
  · rfl
  · split <;> rfl

theorem child?_add_close {e s : OpenElement} {tag : String} (h : s.tag = tag) :
    ((e.add s.close).child? tag).isSome := by
  rw [child?, List.find?_isSome]
  exact ⟨s.close, by simp [add], by simp [Node.hasTag, close, Node.tag?, h]⟩

end OpenElement

namespace Builder

@[simp] theorem openSection_mk (top : OpenElement) (rest : List OpenElement)
    (f : List (Nat × Finding)) (tag : String) (a : Attributes) :
    openSection ⟨top :: rest, f⟩ tag a = ⟨top.opened tag a :: top.without tag :: rest, f⟩ := by
  simp only [openSection, OpenElement.opened, OpenElement.without]
  cases top.child? tag <;> rfl

@[simp] theorem pop_mk (top parent : OpenElement) (rest : List OpenElement)
    (f : List (Nat × Finding)) :
    pop ⟨top :: parent :: rest, f⟩ = ⟨parent.add top.close :: rest, f⟩ := rfl

theorem stack_closeTag (b : Builder) (left : Nat) (tag : String) :
    (b.closeTag left tag).stack = b.pop.stack := by
  obtain ⟨stack, f⟩ := b
  match stack with
  | [] =>
    simp only [closeTag]
    split <;> rfl
  | [_] =>
    simp only [closeTag]
    split <;> rfl
  | _ :: _ :: _ =>
    simp only [closeTag]
    split <;> rfl

/-- Whether a tag may stand directly inside `html`; no text may. -/
def standsInRoot (tag : Option String) : Bool :=
  tag.any (["head", "body", "/html"].contains ·)

def standsInHead (tag : Option String) : Bool :=
  tag.any fun t => t == "/head" || Tag.headTags.contains t

def isHeadTag (tag : Option String) : Bool :=
  tag.any (Tag.headTags.contains ·)

/-- The section that a tag or a text implies directly inside an element: the head for its own tags
and where there is none yet, else the body. -/
def impliedSection (e : OpenElement) (tag : Option String) : String :=
  if isHeadTag tag || !(e.child? "head").isSome then "head" else "body"

/-- One implied element is opened or closed, if the next tag or text implies any. -/
def implied? (b : Builder) (tag : Option String) : Option Builder :=
  match b.stack with
  | [] => if tag == some "html" then none else some (b.push ⟨"html", .empty, []⟩)
  | [root] =>
    if root.tag == "html" && !standsInRoot tag then
      some (b.openSection (impliedSection root tag) .empty)
    else none
  | [section_, root] =>
    if section_.tag == "head" && root.tag == "html" && !standsInHead tag then some b.pop else none
  | _ => none

theorem implied?_mk_nil (f : List (Nat × Finding)) (tag : Option String) :
    implied? ⟨[], f⟩ tag =
      if tag == some "html" then none else some ⟨[⟨"html", .empty, []⟩], f⟩ := rfl

theorem implied?_mk_root (root : OpenElement) (f : List (Nat × Finding)) (tag : Option String) :
    implied? ⟨[root], f⟩ tag =
      if root.tag == "html" && !standsInRoot tag then
        some (openSection ⟨[root], f⟩ (impliedSection root tag) .empty)
      else none := rfl

theorem implied?_mk_section (s root : OpenElement) (f : List (Nat × Finding))
    (tag : Option String) :
    implied? ⟨[s, root], f⟩ tag =
      if s.tag == "head" && root.tag == "html" && !standsInHead tag then
        some ⟨[root.add s.close], f⟩
      else none := rfl

/-- What one implied element does to the open ones: the root is opened, a section in it, or the head is
closed again. -/
inductive Turn (tag : Option String) : List OpenElement → List OpenElement → Prop
  | root (hTag : tag ≠ some "html") : Turn tag [] [⟨"html", .empty, []⟩]
  | opening {root : OpenElement} (hRoot : root.tag = "html") (hTag : standsInRoot tag = false) :
      Turn tag [root]
        [root.opened (impliedSection root tag) .empty, root.without (impliedSection root tag)]
  | closing {s root : OpenElement} (hSection : s.tag = "head") (hRoot : root.tag = "html")
      (hTag : standsInHead tag = false) : Turn tag [s, root] [root.add s.close]

theorem turn_of_implied? {b b' : Builder} {tag : Option String} (h : b.implied? tag = some b') :
    Turn tag b.stack b'.stack := by
  obtain ⟨stack, f⟩ := b
  match stack with
  | [] =>
    rw [implied?_mk_nil] at h
    split at h
    · cases h
    · rename_i hTag
      cases h
      exact .root (by simpa using hTag)
  | [root] =>
    rw [implied?_mk_root, openSection_mk] at h
    split at h
    · rename_i hRoot
      rw [Bool.and_eq_true, beq_iff_eq, Bool.not_eq_true'] at hRoot
      cases h
      exact .opening hRoot.1 hRoot.2
    · cases h
  | [s, root] =>
    rw [implied?_mk_section] at h
    split at h
    · rename_i hTags
      simp only [Bool.and_eq_true, beq_iff_eq, Bool.not_eq_true'] at hTags
      cases h
      exact .closing hTags.1.1 hTags.1.2 hTags.2
    · cases h
  | _ :: _ :: _ :: _ => cases h

/-- Implied elements are opened and closed in turn until none is implied. -/
inductive Settles (tag : Option String) : Builder → Builder → Prop
  | done {b : Builder} (h : b.implied? tag = none) : Settles tag b b
  | turn {b b' b'' : Builder} (h : b.implied? tag = some b') (rest : Settles tag b' b'') :
    Settles tag b b''

/-- The turns come to rest in one builder only. -/
theorem Settles.unique {tag : Option String} {b b' b'' : Builder} (h' : Settles tag b b')
    (h'' : Settles tag b b'') : b' = b'' := by
  induction h' with
  | done h =>
    cases h'' with
    | done => rfl
    | turn hTurn => rw [h] at hTurn; cases hTurn
  | turn hTurn _ ih =>
    cases h'' with
    | done h => rw [h] at hTurn; cases hTurn
    | turn hTurn' hRest =>
      rw [hTurn] at hTurn'
      cases hTurn'
      exact ih hRest

variable {root s : OpenElement} {f : List (Nat × Finding)} {tag : Option String}

theorem standsInHead_of_isHeadTag (h : isHeadTag tag = true) : standsInHead tag = true := by
  cases tag with
  | none => cases h
  | some t => exact Bool.or_eq_true_iff.mpr (.inr h)

theorem standsInHead_eq_false (h : isHeadTag tag = false) (hTag : tag ≠ some "/head") :
    standsInHead tag = false := by
  cases tag with
  | none => rfl
  | some t =>
    have hSlash : t ≠ "/head" := fun hEq => hTag (congrArg some hEq)
    exact Bool.or_eq_false_iff.mpr ⟨by simpa using hSlash, h⟩

theorem enterSection_mk (root : OpenElement) (f : List (Nat × Finding)) (tag : Option String) :
    enterSection ⟨[root], f⟩ tag =
      if root.tag != "html" || standsInRoot tag then ⟨[root], f⟩
      else if isHeadTag tag then openSection ⟨[root], f⟩ "head" .empty
      else if (root.child? "head").isSome then openSection ⟨[root], f⟩ "body" .empty
      else if tag == some "/head" then openSection ⟨[root], f⟩ "head" .empty
      else (openSection ⟨[root], f⟩ "head" .empty).pop.openSection "body" .empty := by
  have hTags : (openTags ⟨[root], f⟩ != ["html"]) = (root.tag != "html") := by
    simp [openTags, bne]
  simp only [enterSection, hTags, List.any_cons, List.any_nil, Bool.or_false]
  rfl

theorem settles_of_body (h : s.tag = "body") : Settles tag ⟨[s, root], f⟩ ⟨[s, root], f⟩ :=
  .done (by simp [implied?, h])

theorem settles_of_standsInHead (h : standsInHead tag = true) :
    Settles tag ⟨[s, root], f⟩ ⟨[s, root], f⟩ :=
  .done (by simp [implied?, h])

theorem implied?_root (hRoot : root.tag = "html") (hTag : standsInRoot tag = false) :
    implied? ⟨[root], f⟩ tag = some (openSection ⟨[root], f⟩ (impliedSection root tag) .empty) := by
  simp [implied?, hRoot, hTag]

theorem implied?_head (hSection : s.tag = "head") (hRoot : root.tag = "html")
    (hTag : standsInHead tag = false) :
    implied? ⟨[s, root], f⟩ tag = some ⟨[root.add s.close], f⟩ := by
  simp [implied?, hSection, hRoot, hTag]

theorem settles_body (hRoot : root.tag = "html") (hTag : standsInRoot tag = false)
    (hHeadTag : isHeadTag tag = false) (hHead : (root.child? "head").isSome = true) :
    Settles tag ⟨[root], f⟩ (openSection ⟨[root], f⟩ "body" .empty) := by
  have hTurn := implied?_root (f := f) hRoot hTag
  have hSection : impliedSection root tag = "body" := by simp [impliedSection, hHeadTag, hHead]
  rw [hSection] at hTurn
  refine .turn hTurn ?_
  rw [openSection_mk]
  exact settles_of_body (by simp)

theorem settles_leaving_head (hSection : s.tag = "head") (hRoot : root.tag = "html")
    (hTag : standsInRoot tag = false) (hHeadTag : isHeadTag tag = false) (hClosing : tag ≠ some "/head") :
    Settles tag ⟨[s, root], f⟩ (openSection ⟨[root.add s.close], f⟩ "body" .empty) :=
  .turn (implied?_head hSection hRoot (standsInHead_eq_false hHeadTag hClosing))
    (settles_body hRoot hTag hHeadTag (OpenElement.child?_add_close hSection))

/-- Directly inside the root, the turns come to rest in the section that is implied. -/
theorem settles_enterSection (hRoot : root.tag = "html") :
    Settles tag ⟨[root], f⟩ (enterSection ⟨[root], f⟩ tag) := by
  have hHtml : (root.tag != "html") = false := by simp [hRoot]
  rw [enterSection_mk, hHtml, Bool.false_or]
  cases hTag : standsInRoot tag with
  | true => exact .done (by simp [implied?, hTag])
  | false =>
    have hTurn := implied?_root (f := f) hRoot hTag
    rw [if_neg Bool.false_ne_true]
    cases hHeadTag : isHeadTag tag with
    | true =>
      have hSection : impliedSection root tag = "head" := by simp [impliedSection, hHeadTag]
      rw [hSection] at hTurn
      rw [if_pos rfl]
      refine .turn hTurn ?_
      rw [openSection_mk]
      exact settles_of_standsInHead (standsInHead_of_isHeadTag hHeadTag)
    | false =>
      rw [if_neg Bool.false_ne_true]
      cases hHead : (root.child? "head").isSome with
      | true =>
        rw [if_pos rfl]
        exact settles_body hRoot hTag hHeadTag hHead
      | false =>
        have hSection : impliedSection root tag = "head" := by simp [impliedSection, hHead]
        rw [hSection, openSection_mk] at hTurn
        rw [if_neg Bool.false_ne_true, openSection_mk]
        refine .turn hTurn ?_
        by_cases hClosing : tag = some "/head"
        · rw [if_pos (by simpa using hClosing)]
          exact settles_of_standsInHead (by rw [hClosing]; rfl)
        · -- An empty head is closed again before the body is opened.
          rw [if_neg (by simpa using hClosing), pop_mk]
          exact settles_leaving_head (by simp) (by simpa using hRoot) hTag hHeadTag hClosing

theorem settle_mk_deep (e e' e'' : OpenElement) (rest : List OpenElement)
    (f : List (Nat × Finding)) (tag : Option String) :
    settle ⟨e :: e' :: e'' :: rest, f⟩ tag = ⟨e :: e' :: e'' :: rest, f⟩ := by
  simp [settle, openRoot, leaveHead, enterSection, openTags]

theorem settle_mk_root (root : OpenElement) (f : List (Nat × Finding)) (tag : Option String) :
    settle ⟨[root], f⟩ tag = enterSection ⟨[root], f⟩ tag := by
  simp [settle, openRoot, leaveHead, openTags]

theorem settle_mk_section (s root : OpenElement) (f : List (Nat × Finding)) (tag : Option String) :
    settle ⟨[s, root], f⟩ tag =
      if s.tag == "head" && root.tag == "html" && !standsInHead tag then
        enterSection ⟨[root.add s.close], f⟩ tag
      else ⟨[s, root], f⟩ := by
  have hTags : (openTags ⟨[s, root], f⟩ == ["head", "html"]) =
      (s.tag == "head" && root.tag == "html") := by
    simp [openTags]
  have hLeave : leaveHead ⟨[s, root], f⟩ tag =
      if s.tag == "head" && root.tag == "html" && !standsInHead tag then ⟨[root.add s.close], f⟩
      else ⟨[s, root], f⟩ := by
    simp only [leaveHead, hTags]
    rfl
  have hRoot : openRoot ⟨[s, root], f⟩ tag = ⟨[s, root], f⟩ := rfl
  rw [settle, hRoot, hLeave]
  split
  · rfl
  · simp [enterSection, openTags]

theorem settle_mk_nil (f : List (Nat × Finding)) (tag : Option String) :
    settle ⟨[], f⟩ tag =
      if tag == some "html" then ⟨[], f⟩
      else enterSection ⟨[⟨"html", .empty, []⟩], f⟩ tag := by
  by_cases h : tag = some "html"
  · subst h
    rfl
  · have hRoot : openRoot ⟨[], f⟩ tag = ⟨[⟨"html", .empty, []⟩], f⟩ := by simp [openRoot, h, push]
    rw [if_neg (by simpa using h), settle, hRoot]
    rfl

/-- The passes of the builder end where the single turns come to rest. -/
theorem settles_settle (b : Builder) (tag : Option String) : Settles tag b (b.settle tag) := by
  obtain ⟨stack, f⟩ := b
  match stack with
  | [] =>
    rw [settle_mk_nil]
    split
    · rename_i h
      exact .done (by simp [implied?, h])
    · rename_i h
      have hTurn : implied? ⟨[], f⟩ tag = some ⟨[⟨"html", .empty, []⟩], f⟩ := by
        simp [implied?, h, push]
      exact .turn hTurn (settles_enterSection rfl)
  | [root] =>
    rw [settle_mk_root]
    by_cases hRoot : root.tag = "html"
    · exact settles_enterSection hRoot
    · rw [enterSection_mk, if_pos (by simp [hRoot])]
      exact .done (by simp [implied?, hRoot])
  | [s, root] =>
    rw [settle_mk_section]
    split
    · rename_i h
      simp only [Bool.and_eq_true, beq_iff_eq, Bool.not_eq_true'] at h
      exact .turn (implied?_head h.1.1 h.1.2 h.2) (settles_enterSection h.1.2)
    · rename_i h
      exact .done (by simp [implied?, h])
  | e :: e' :: e'' :: rest =>
    rw [settle_mk_deep]
    exact .done rfl

theorem length_le_two_of_implied? {b b' : Builder} (h : b.implied? tag = some b') :
    b.stack.length ≤ 2 ∧ b'.stack.length ≤ 2 := by
  have hTurn := turn_of_implied? h
  generalize b.stack = stack at hTurn ⊢
  generalize b'.stack = stack' at hTurn ⊢
  cases hTurn <;> exact ⟨by simp, by simp⟩

theorem Settles.eq_of_two_lt {b b' : Builder} (h : b.Settles tag b') (hDeep : 2 < b'.stack.length) :
    b' = b := by
  induction h with
  | done => rfl
  | turn hTurn _ ih =>
    have hLe := (length_le_two_of_implied? hTurn).2
    rw [ih hDeep] at hDeep
    omega

end Builder

end PageRender
