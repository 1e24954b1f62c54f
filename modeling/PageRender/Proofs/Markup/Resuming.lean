import PageRender.Proofs.Markup.Scanning

/-! # Where reading can be resumed

What the reader makes of a text depends on the stack of open elements, and not on the findings. Between two
parts of a text the reader stands at a place of its own: what is open, and what is held since the last angle
bracket. Outside plain content the second part is read from there as it is read behind the first.
-/

namespace PageRender

namespace Builder

variable {b b' : Builder}

theorem settle_eq (b : Builder) (tag : Option String) :
    b.settle tag = ⟨(settle ⟨b.stack, []⟩ tag).stack, b.findings⟩ := by
  have hEnter (root : OpenElement) (f : List (Nat × Finding)) :
      enterSection ⟨[root], f⟩ tag = ⟨(enterSection ⟨[root], []⟩ tag).stack, f⟩ := by
    rw [enterSection_mk, enterSection_mk]
    simp only [openSection_mk, pop_mk]
    split_ifs <;> rfl
  obtain ⟨stack, f⟩ := b
  match stack with
  | [] =>
    rw [settle_mk_nil, settle_mk_nil]
    split_ifs
    · rfl
    · exact hEnter _ f
  | [root] =>
    rw [settle_mk_root, settle_mk_root]
    exact hEnter root f
  | [s, root] =>
    rw [settle_mk_section, settle_mk_section]
    split_ifs
    · exact hEnter _ f
    · rfl
  | e :: e' :: e'' :: rest =>
    rw [settle_mk_deep, settle_mk_deep]

theorem stack_settle_congr (h : b.stack = b'.stack) (tag : Option String) :
    (b.settle tag).stack = (b'.settle tag).stack := by
  rw [settle_eq b, settle_eq b', h]

theorem stack_addNode_congr (h : b.stack = b'.stack) (n : Node Unit) :
    (b.addNode n).stack = (b'.addNode n).stack := by
  obtain ⟨stack, f⟩ := b
  obtain ⟨stack', f'⟩ := b'
  obtain rfl : stack = stack' := h
  cases stack <;> rfl

theorem stack_pop_congr (h : b.stack = b'.stack) : b.pop.stack = b'.pop.stack := by
  obtain ⟨stack, f⟩ := b
  obtain ⟨stack', f'⟩ := b'
  obtain rfl : stack = stack' := h
  match stack with
  | [] => rfl
  | [_] => rfl
  | _ :: _ :: _ => rfl

theorem stack_openSection_congr (h : b.stack = b'.stack) (tag : String) (a : Attributes) :
    (b.openSection tag a).stack = (b'.openSection tag a).stack := by
  obtain ⟨stack, f⟩ := b
  obtain ⟨stack', f'⟩ := b'
  obtain rfl : stack = stack' := h
  cases stack with
  | nil => rfl
  | cons top rest => rw [openSection_mk, openSection_mk]

theorem stack_openTag_congr (h : b.stack = b'.stack) (tag : Tag) :
    (b.openTag tag).stack = (b'.openTag tag).stack := by
  have hTags : b.openTags = b'.openTags := congrArg (List.map OpenElement.tag) h
  have hPush : (b.push ⟨tag.name, tag.attributes, []⟩).stack =
      (b'.push ⟨tag.name, tag.attributes, []⟩).stack := congrArg (List.cons _) h
  simp only [openTag, hTags]
  split_ifs
  · exact stack_addNode_congr h _
  · exact stack_openSection_congr h _ _
  · exact hPush

theorem finish_congr (h : b.stack = b'.stack) : b.finish = b'.finish := by
  have hEnded : (Markup.ended b).stack = (Markup.ended b').stack := by
    rw [Markup.ended, Markup.ended, h]
    split_ifs
    · exact stack_settle_congr h none
    · exact h
  have hRoot := congrArg closeAll hEnded
  rw [Markup.ended, Markup.ended] at hRoot
  simp only [finish, hRoot]

theorem rawTag?_congr (h : b.stack = b'.stack) : b.rawTag? = b'.rawTag? := by
  rw [rawTag?, rawTag?, openTags, openTags, h]

theorem rawTag?_eq_none_of_tag {e : OpenElement} {es : List OpenElement} {f : List (Nat × Finding)}
    (h : e.tag = "html" ∨ Markup.IsSection e.tag) : rawTag? ⟨e :: es, f⟩ = none := by
  rcases h with h | h | h <;> simp [rawTag?, openTags, h, Tag.rawTags]

/-- Elements are only implied where markup is read, and none of them has plain content. -/
theorem rawTag?_of_implied? {tag : Option String} (h : b.implied? tag = some b') :
    b.rawTag? = none ∧ b'.rawTag? = none := by
  have hTurn := turn_of_implied? h
  obtain ⟨stack, f⟩ := b
  obtain ⟨stack', f'⟩ := b'
  cases hTurn with
  | root => exact ⟨rfl, rawTag?_eq_none_of_tag (.inl rfl)⟩
  | @opening root hRoot =>
    refine ⟨rawTag?_eq_none_of_tag (.inl hRoot), rawTag?_eq_none_of_tag (.inr ?_)⟩
    rw [OpenElement.opened_tag]
    exact Markup.isSection_impliedSection root tag
  | closing hSection hRoot =>
    exact ⟨rawTag?_eq_none_of_tag (.inr (.inl hSection)), rawTag?_eq_none_of_tag (.inl hRoot)⟩

theorem rawTag?_settle (b : Builder) (tag : Option String) : (b.settle tag).rawTag? = b.rawTag? := by
  have hSettles := settles_settle b tag
  generalize b.settle tag = b' at hSettles
  induction hSettles with
  | done => rfl
  | turn hTurn _ ih =>
    obtain ⟨hBefore, hAfter⟩ := rawTag?_of_implied? hTurn
    rw [ih, hBefore, hAfter]

theorem rawTag?_addNode (b : Builder) (n : Node Unit) : (b.addNode n).rawTag? = b.rawTag? := by
  obtain ⟨stack, f⟩ := b
  cases stack <;> rfl

end Builder

namespace Markup

variable {b b' : Builder}

theorem rawTag?_mem {t : String} (h : b.rawTag? = some t) : t ∈ Tag.rawTags := by
  rw [Builder.rawTag?, Option.filter_eq_some_iff] at h
  simpa using h.2

theorem rawTag?_addRun (b : Builder) (run : List Char) : (addRun b run).rawTag? = b.rawTag? := by
  rw [addRun_eq]
  split_ifs
  · rfl
  · rw [Builder.rawTag?_addNode, Builder.rawTag?_settle]

theorem stack_addRun_congr (h : b.stack = b'.stack) (run : List Char) :
    (addRun b run).stack = (addRun b' run).stack := by
  rw [addRun_eq, addRun_eq]
  split_ifs
  · exact h
  · exact Builder.stack_addNode_congr (Builder.stack_settle_congr h none) _

theorem stack_addTag_congr (h : b.stack = b'.stack) (left left' : Nat) (text : List Char) :
    (b.addTag left text).stack = (b'.addTag left' text).stack := by
  have hTag := perform_tag b left text
  have hTag' := perform_tag b' left' text
  rw [perform] at hTag hTag'
  have hSettle := Builder.stack_settle_congr h (some (Tag.read text).name)
  rw [hTag, hTag']
  split_ifs
  · exact h
  · exact h
  · rw [Builder.stack_closeTag, Builder.stack_closeTag]
    exact Builder.stack_pop_congr hSettle
  · exact Builder.stack_openTag_congr hSettle _

theorem rawContent_congr (h : b.stack = b'.stack) (cs : List Char) : rawContent b cs = rawContent b' cs := by
  rw [rawContent, rawContent, Builder.rawTag?_congr h]

/-- The place between two parts of a text. -/
structure Standing where
  builder : Builder
  inTag : Bool
  held : List Char

/-- Where the reader stands behind a text. -/
def standing (b : Builder) (inTag : Bool) (held : List Char) : List Char → Standing
  | [] => ⟨b, inTag, held⟩
  | c :: cs =>
    if c == '<' then standing (perform b (.beforeOpening inTag held (cs.length + 1))) true [] cs
    else if c == '>' && inTag then
      let b := perform b (.closed held (cs.length + 1))
      let raw := rawContent b cs
      standing (perform b (.run raw.1)) false [] raw.2
    else standing b inTag (c :: held) cs
termination_by cs => cs.length
decreasing_by
  · simp
  · exact Nat.lt_succ_of_le (length_rawContent_le _ _)
  · simp

namespace Standing

def Outside (s : Standing) : Prop :=
  s.inTag = false ∧ s.builder.rawTag? = none

/-- The text ends in plain content, and what follows it is plain content too. -/
def InPlain (s : Standing) : Prop :=
  s.inTag = false ∧ s.builder.rawTag? ≠ none

def resume (s : Standing) (cs : List Char) : Builder :=
  read s.builder s.inTag s.held cs

end Standing

theorem startsWith_append_right {ps cs : List Char} (h : startsWith ps cs = true) (vs : List Char) :
    startsWith ps (cs ++ vs) = true := by
  induction ps generalizing cs with
  | nil => rfl
  | cons p ps ih =>
    cases cs with
    | nil => cases h
    | cons c cs =>
      rw [startsWith, Bool.and_eq_true] at h
      rw [List.cons_append, startsWith, h.1, Bool.true_and]
      exact ih h.2

/-- What holds no angle bracket is found in front of the next one or not at all. -/
theorem startsWith_bracket {ps : List Char} (hLetters : ∀ p ∈ ps, matchesLetter p '<' = false)
    (ds rest : List Char) : startsWith ps (ds ++ '<' :: rest) = startsWith ps ds := by
  cases hStart : startsWith ps ds with
  | false => exact startsWith_append hLetters hStart
  | true => exact startsWith_append_right hStart _

/-- A mark that comes before the small letters is matched by itself only. -/
theorem eq_of_matchesLetter {p c : Char} (hMark : p.toNat < 97) (h : matchesLetter p c = true) : c = p := by
  have hLetters : p ≠ 's' ∧ p ≠ 'i' := by
    constructor <;> rintro rfl <;> exact absurd hMark (by decide)
  by_contra hOther
  have hLower : c.toLower = p := by simpa [matchesLetter, hOther, hLetters] using h
  delta Char.toLower at hLower
  split at hLower
  · rename_i hUpper
    have hFrom : 65 ≤ c.toNat := UInt32.le_iff_toNat_le.mp hUpper.1
    have hTo : c.toNat ≤ 90 := UInt32.le_iff_toNat_le.mp hUpper.2
    have hVal : (c.toNat + 32) % 4294967296 = p.toNat := by simpa using congrArg (·.val.toNat) hLower
    omega
  · exact hOther hLower

theorem splitRaw_closing {t : String} {c : Char} {cs : List Char}
    (h : startsWith ('<' :: Tag.closingText t) (c :: cs) = true) : splitRaw t (c :: cs) = ([], c :: cs) := by
  rw [splitRaw]
  exact if_pos h

theorem splitRaw_cons {t : String} {c : Char} {cs : List Char}
    (h : ¬startsWith ('<' :: Tag.closingText t) (c :: cs) = true) :
    splitRaw t (c :: cs) = (c :: (splitRaw t cs).1, (splitRaw t cs).2) := by
  rw [splitRaw]
  exact if_neg h

theorem splitRaw_fst_append_snd (t : String) (cs : List Char) : (splitRaw t cs).1 ++ (splitRaw t cs).2 = cs := by
  induction cs with
  | nil => rfl
  | cons c cs ih =>
    by_cases h : startsWith ('<' :: Tag.closingText t) (c :: cs) = true
    · rw [splitRaw_closing h, List.nil_append]
    · rw [splitRaw_cons h, List.cons_append, ih]

theorem startsWith_splitRaw {t : String} {cs : List Char} (h : (splitRaw t cs).2 ≠ []) :
    startsWith ('<' :: Tag.closingText t) (splitRaw t cs).2 = true := by
  induction cs with
  | nil => exact absurd rfl h
  | cons c cs ih =>
    by_cases hHere : startsWith ('<' :: Tag.closingText t) (c :: cs) = true
    · rw [splitRaw_closing hHere]
      exact hHere
    · rw [splitRaw_cons hHere] at h ⊢
      exact ih h

theorem exists_splitRaw {t : String} {cs : List Char} (h : (splitRaw t cs).2 ≠ []) :
    ∃ more, (splitRaw t cs).2 = '<' :: more ∧ startsWith (Tag.closingText t) more = true := by
  have hStart := startsWith_splitRaw h
  obtain ⟨c, more, hMore⟩ := List.exists_cons_of_ne_nil h
  rw [hMore, startsWith, Bool.and_eq_true] at hStart
  exact ⟨more, by rw [hMore, eq_of_matchesLetter (by decide) hStart.1], hStart.2⟩

/-- Plain content that has met its closing tag ends there, whatever follows. -/
theorem splitRaw_append_right {t : String} (hRaw : t ∈ Tag.rawTags) {us : List Char}
    (h : (splitRaw t us).2 ≠ []) (vs : List Char) :
    splitRaw t (us ++ vs) = ((splitRaw t us).1, (splitRaw t us).2 ++ vs) := by
  have hLetters := matchesLetter_closingText hRaw
  induction us with
  | nil => exact absurd rfl h
  | cons c cs ih =>
    by_cases hHere : startsWith ('<' :: Tag.closingText t) (c :: cs) = true
    · rw [splitRaw_closing hHere]
      exact splitRaw_closing (startsWith_append_right hHere vs)
    · -- The closing tag comes later in the first part, and an angle bracket with it.
      rw [splitRaw_cons hHere] at h ⊢
      obtain ⟨more, hMore, -⟩ := exists_splitRaw h
      have hText : cs = (splitRaw t cs).1 ++ '<' :: more := by rw [← hMore, splitRaw_fst_append_snd]
      have hSame : startsWith (Tag.closingText t) (cs ++ vs) = startsWith (Tag.closingText t) cs := by
        rw [hText, List.append_assoc, List.cons_append, startsWith_bracket hLetters,
          startsWith_bracket hLetters]
      have hStill : ¬startsWith ('<' :: Tag.closingText t) (c :: (cs ++ vs)) = true := by
        rw [startsWith, hSame]
        exact hHere
      rw [List.cons_append, splitRaw_cons hStill, ih h]

/-- Behind what is not inside plain content, the plain content is the same whatever follows. -/
theorem rawContent_append {cs : List Char} (h : b.rawTag? = none ∨ (rawContent b cs).2 ≠ []) (vs : List Char) :
    rawContent b (cs ++ vs) = ((rawContent b cs).1, (rawContent b cs).2 ++ vs) := by
  cases hTag : b.rawTag? with
  | none => simp only [rawContent, hTag]
  | some t =>
    have hContent : (splitRaw t cs).2 ≠ [] := by
      rcases h with h | h
      · rw [hTag] at h
        cases h
      · simpa only [rawContent, hTag] using h
    simp only [rawContent, hTag]
    exact splitRaw_append_right (rawTag?_mem hTag) hContent vs

section

variable {c : Char} {inTag : Bool} {held cs : List Char}

theorem read_bracket (b : Builder) (hOpen : (c == '<') = true) :
    read b inTag held (c :: cs) = read (perform b (.beforeOpening inTag held (cs.length + 1))) true [] cs := by
  rw [read_eq_foldl, actions_bracket b hOpen, List.foldl_cons, ← read_eq_foldl]

theorem read_tagEnd (b : Builder) (hOpen : ¬(c == '<') = true) (hClose : (c == '>' && inTag) = true) :
    read b inTag held (c :: cs) =
      let b := perform b (.closed held (cs.length + 1))
      read (perform b (.run (rawContent b cs).1)) false [] (rawContent b cs).2 := by
  rw [read_eq_foldl, actions_tagEnd b hOpen hClose, List.foldl_cons, List.foldl_cons, ← read_eq_foldl]

theorem read_held (b : Builder) (hOpen : ¬(c == '<') = true) (hClose : ¬(c == '>' && inTag) = true) :
    read b inTag held (c :: cs) = read b inTag (c :: held) cs := by
  rw [read_eq_foldl, actions_held b hOpen hClose, ← read_eq_foldl]

end

/-- Two actions that differ at most in what they report. -/
inductive Action.Alike : Action → Action → Prop
  | run (text : List Char) : Alike (.run text) (.run text)
  | tag (left left' : Nat) (text : List Char) : Alike (.tag left text) (.tag left' text)
  | note (left left' : Nat) (f f' : Finding) : Alike (.note left f) (.note left' f')

theorem stack_perform_congr (h : b.stack = b'.stack) {a a' : Action} (hAlike : a.Alike a') :
    (perform b a).stack = (perform b' a').stack := by
  cases hAlike with
  | run text => exact stack_addRun_congr h text
  | tag left left' text => exact stack_addTag_congr h left left' text
  | note => exact h

theorem alike_beforeOpening (inTag : Bool) (held : List Char) (left left' : Nat) :
    (Action.beforeOpening inTag held left).Alike (.beforeOpening inTag held left') := by
  cases inTag with
  | true => exact .note _ _ _ _
  | false => exact .run _

theorem read_end (b : Builder) (inTag : Bool) (held : List Char) :
    read b inTag held [] = perform b (.atEnd inTag held) := by
  rw [read]
  cases inTag <;> rfl

theorem stack_read_congr (h : b.stack = b'.stack) (inTag : Bool) (held cs : List Char) :
    (read b inTag held cs).stack = (read b' inTag held cs).stack := by
  revert b'
  fun_induction actions b inTag held cs with
  | case1 b inTag held =>
    intro b' h
    rw [read_end, read_end]
    cases inTag with
    | true => exact h
    | false => exact stack_addRun_congr h _
  | case2 b inTag held c cs hOpen a =>
    rename_i ih
    intro b' h
    rw [read_bracket b hOpen, read_bracket b' hOpen]
    exact ih (stack_perform_congr h (alike_beforeOpening inTag held _ _))
  | case3 b inTag held c cs hOpen hClose a raw =>
    rename_i ih
    intro b' h
    have hTag : (perform b a).stack = (perform b' a).stack := stack_perform_congr h (.tag _ _ _)
    rw [read_tagEnd b hOpen hClose, read_tagEnd b' hOpen hClose]
    dsimp only
    rw [← rawContent_congr hTag]
    exact ih (stack_perform_congr hTag (.run raw.1))
  | case4 b inTag held c cs hOpen hClose ih =>
    intro b' h
    rw [read_held b hOpen hClose, read_held b' hOpen hClose]
    exact ih h

theorem closed_of_standing {cs : List Char}
    (h : ¬(standing (perform b (.run (rawContent b cs).1)) false [] (rawContent b cs).2).InPlain) :
    b.rawTag? = none ∨ (rawContent b cs).2 ≠ [] := by
  by_cases hEnd : (rawContent b cs).2 = []
  · rw [hEnd, standing] at h
    refine .inl (Decidable.not_not.mp fun hRaw => h ⟨rfl, ?_⟩)
    rwa [perform, rawTag?_addRun]
  · exact .inr hEnd

/-- Behind a text that ends outside plain content, reading is resumed where the reader stands. -/
theorem stack_read_append (h : b.stack = b'.stack) (inTag : Bool) (held us vs : List Char)
    (hPlain : ¬(standing b inTag held us).InPlain) :
    (read b' inTag held (us ++ vs)).stack = ((standing b inTag held us).resume vs).stack := by
  revert b'
  fun_induction standing b inTag held us with
  | case1 b inTag held =>
    intro b' h
    exact stack_read_congr h.symm inTag held vs
  | case2 b inTag held c cs hOpen ih =>
    intro b' h
    rw [List.cons_append, read_bracket b' hOpen]
    exact ih hPlain (stack_perform_congr h (alike_beforeOpening inTag held _ _))
  | case3 b inTag held c cs hOpen hClose b₁ raw =>
    rename_i ih
    intro b' h
    have hTag : b₁.stack = (perform b' (.closed held ((cs ++ vs).length + 1))).stack :=
      stack_perform_congr h (.tag _ _ _)
    have hRaw : rawContent b₁ (cs ++ vs) = (raw.1, raw.2 ++ vs) := by
      exact rawContent_append (closed_of_standing hPlain) vs
    rw [List.cons_append, read_tagEnd b' hOpen hClose]
    simp only [← rawContent_congr hTag, hRaw]
    exact ih hPlain (stack_perform_congr hTag (.run raw.1))
  | case4 b inTag held c cs hOpen hClose ih =>
    intro b' h
    rw [List.cons_append, read_held b' hOpen hClose]
    exact ih hPlain h

end Markup

end PageRender
