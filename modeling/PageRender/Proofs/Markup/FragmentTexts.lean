import PageRender.Proofs.Markup.Receiving
import PageRender.Proofs.Markup.Resuming

/-! # The texts of a fragment

A fragment is read between the tags of a body, and these are not kept from what it holds. The texts of
the fragment are those that the body receives while it is read. What the head receives, once the body is
closed, is lost. Where the fragment ends in plain content, the closing tag of the body is added to it.
-/

namespace PageRender.Markup

open OpenElement

variable {b b' : Builder} {a a' : Action} {as as' : List Action}

theorem Action.Alike.texts_eq (h : a.Alike a') : a.texts = a'.texts := by
  cases h <;> rfl

theorem Action.Alike.displaces_iff (h : a.Alike a') (hStack : b.stack = b'.stack) :
    a.Displaces b ↔ a'.Displaces b' := by
  cases h with
  | run => rfl
  | note => rfl
  | tag left left' text =>
    rw [Displaces, hStack]
    rfl

/-- Two runs of actions that bring the same texts into the same sections. -/
structure SameTexts (b : Builder) (as : List Action) (b' : Builder) (as' : List Action) : Prop where
  texts : as.flatMap Action.texts = as'.flatMap Action.texts
  received (tag : String) : received tag b as = received tag b' as'
  inOrder : InOrder b as ↔ InOrder b' as'

theorem SameTexts.cons (hStack : b.stack = b'.stack) (hAlike : a.Alike a')
    (h : SameTexts (perform b a) as (perform b' a') as') : SameTexts b (a :: as) b' (a' :: as') where
  texts := by rw [List.flatMap_cons, List.flatMap_cons, hAlike.texts_eq, h.texts]
  received tag := by
    rw [Markup.received, Markup.received, stack_perform_congr hStack hAlike, hAlike.texts_eq, h.received tag]
  inOrder := and_congr (not_congr (hAlike.displaces_iff hStack)) h.inOrder

/-- An action that neither adds nor displaces a text. -/
def Action.Silent (a : Action) : Prop :=
  a.texts = [] ∧ ∀ b, ¬a.Displaces b

theorem sameTexts_of_silent (b b' : Builder) (h : ∀ a ∈ as, a.Silent) : SameTexts b [] b' as := by
  induction as generalizing b' with
  | nil => exact ⟨rfl, fun _ => rfl, Iff.rfl⟩
  | cons a as ih =>
    obtain ⟨⟨hTexts, hOrder⟩, hSilent⟩ := List.forall_mem_cons.mp h
    obtain ⟨hRest, hReceived, hInOrder⟩ := ih (perform b' a) hSilent
    refine ⟨?_, fun tag => ?_, ?_⟩
    · rw [List.flatMap_cons, hTexts, ← hRest]
      rfl
    · simpa [Markup.received, hTexts] using hReceived tag
    · rw [hInOrder, InOrder, and_iff_right (hOrder b')]

theorem silent_slash (left : Nat) (text : List Char) : (Action.tag left ('/' :: text)).Silent := by
  refine ⟨rfl, ?_⟩
  rintro b ⟨e, e', rest, -, -, hSection, -⟩
  have hHead := Tag.head?_read (by decide) Tag.foldChar_slash text
  rcases hSection with hName | hName <;> rw [hName] at hHead <;> exact absurd hHead (by decide)

theorem silent_run_nil : (Action.run []).Silent :=
  ⟨rfl, fun _ h => h⟩

/-- The closing tag that is read behind a fragment. -/
def bodyEnd : List Char :=
  '<' :: (Tag.closingText "body" ++ ['>'])

theorem rawContent_end (b : Builder) : rawContent b [] = ([], []) := by
  rw [rawContent]
  split <;> rfl

theorem actions_bodyEnd (b : Builder) (inTag : Bool) (held : List Char) :
    actions b inTag held bodyEnd =
      [.beforeOpening inTag held 7, .tag 1 (Tag.closingText "body"), .run [], .run []] := by
  have hPlain : Tag.BracketFree (Tag.closingText "body") := by decide
  rw [bodyEnd, actions_bracket b (by decide), actions_inTag _ _ hPlain, actions_tagEnd _ (by decide) (by decide)]
  simp only [rawContent_end, List.append_nil, Action.closed, List.reverse_reverse]
  rw [actions]
  rfl

/-- Plain content that does not meet its closing tag goes on behind the end of a text. -/
theorem splitRaw_append_open {t : String} (hRaw : t ∈ Tag.rawTags) {us : List Char} (h : (splitRaw t us).2 = [])
    (rest : List Char) : splitRaw t (us ++ '<' :: rest) =
      (us ++ (splitRaw t ('<' :: rest)).1, (splitRaw t ('<' :: rest)).2) := by
  induction us with
  | nil => rfl
  | cons c cs ih =>
    by_cases hHere : startsWith ('<' :: Tag.closingText t) (c :: cs) = true
    · rw [splitRaw_closing hHere] at h
      cases h
    · rw [splitRaw_cons hHere] at h
      have hStill : ¬startsWith ('<' :: Tag.closingText t) (c :: (cs ++ '<' :: rest)) = true := by
        rw [startsWith, startsWith_bracket (matchesLetter_closingText hRaw)]
        exact hHere
      rw [List.cons_append, splitRaw_cons hStill, ih h]
      rfl

theorem splitRaw_bodyEnd {t : String} (hRaw : t ∈ Tag.rawTags) : splitRaw t bodyEnd = (bodyEnd, []) := by
  have hAll : ∀ t ∈ Tag.rawTags, splitRaw t bodyEnd = (bodyEnd, []) := by decide
  exact hAll t hRaw

theorem rawContent_append_bodyEnd {cs : List Char} {t : String} (hTag : b.rawTag? = some t)
    (hEnd : (rawContent b cs).2 = []) :
    (rawContent b cs).1 = cs ∧ rawContent b (cs ++ bodyEnd) = (cs ++ bodyEnd, []) := by
  simp only [rawContent, hTag] at hEnd ⊢
  have hWhole := splitRaw_fst_append_snd t cs
  rw [hEnd, List.append_nil] at hWhole
  have hRaw := rawTag?_mem hTag
  refine ⟨hWhole, ?_⟩
  have hAppend := splitRaw_append_open hRaw hEnd (Tag.closingText "body" ++ ['>'])
  rw [← bodyEnd, splitRaw_bodyEnd hRaw] at hAppend
  exact hAppend

theorem head?_rawContent {cs : List Char} (h : b.rawTag? = none ∨ (rawContent b cs).2 ≠ []) :
    b.rawTag? = none ∨ (rawContent b cs).2.head? = some '<' := by
  cases hTag : b.rawTag? with
  | none => exact .inl rfl
  | some t =>
    rcases h with h | h
    · rw [hTag] at h
      cases h
    · simp only [rawContent, hTag] at h ⊢
      obtain ⟨more, hMore, -⟩ := exists_splitRaw h
      rw [hMore]
      exact .inr rfl

/-- The second run of actions brings the same texts into the same sections as the first one, if the plain
content in which the first one ends had the closing tag of the body behind it. -/
def RunsOn (b : Builder) (as : List Action) (b' : Builder) (as' : List Action) : Prop :=
  ∃ before run, as = before ++ [.run run, .run []] ∧
    SameTexts b (before ++ [.run (run ++ bodyEnd), .run []]) b' as'

theorem RunsOn.cons (hStack : b.stack = b'.stack) (hAlike : a.Alike a')
    (h : RunsOn (perform b a) as (perform b' a') as') : RunsOn b (a :: as) b' (a' :: as') := by
  obtain ⟨before, run, rfl, hSame⟩ := h
  exact ⟨a :: before, run, rfl, .cons hStack hAlike hSame⟩

theorem runsOn_run (h : b.stack = b'.stack) (run : List Char) :
    RunsOn b [.run run, .run []] b' [.run (run ++ bodyEnd), .run []] := by
  have hRun := stack_perform_congr h (.run (run ++ bodyEnd))
  have hNothing : ∀ a ∈ [], Action.Silent a := fun a ha => absurd ha List.not_mem_nil
  exact ⟨[], run, rfl, .cons h (.run _) (.cons hRun (.run []) (sameTexts_of_silent _ _ hNothing))⟩

/-- What the closing tag of the body makes of the actions on a text: nothing new, or more of the plain
content that the text ends in. -/
structure CarriesOn (inPlain : Prop) (b : Builder) (as : List Action) (b' : Builder) (as' : List Action) :
    Prop where
  outside : ¬inPlain → SameTexts b as b' as'
  inside : inPlain → RunsOn b as b' as'

theorem CarriesOn.cons {inPlain : Prop} (hStack : b.stack = b'.stack) (hAlike : a.Alike a')
    (h : CarriesOn inPlain (perform b a) as (perform b' a') as') : CarriesOn inPlain b (a :: as) b' (a' :: as') where
  outside hOutside := .cons hStack hAlike (h.outside hOutside)
  inside hInside := .cons hStack hAlike (h.inside hInside)

theorem sameTexts_atEnd (h : b.stack = b'.stack) (inTag : Bool) (held : List Char) :
    SameTexts b [.atEnd inTag held] b' (actions b' inTag held bodyEnd) := by
  have hAlike : (Action.atEnd inTag held).Alike (.beforeOpening inTag held 7) := by
    cases inTag with
    | true => exact .note _ _ _ _
    | false => exact .run _
  have hSilent : ∀ a ∈ [Action.tag 1 (Tag.closingText "body"), .run [], .run []], a.Silent := by
    simp only [List.forall_mem_cons]
    exact ⟨silent_slash 1 "body".toList, silent_run_nil, silent_run_nil, by simp⟩
  rw [actions_bodyEnd]
  exact .cons h hAlike (sameTexts_of_silent _ _ hSilent)

/-- The closing tag of the body behind a text that is not read from the middle of plain content. -/
theorem carriesOn_bodyEnd (h : b.stack = b'.stack) (inTag : Bool) (held us : List Char)
    (hStart : inTag = false → b.rawTag? = none ∨ us.head? = some '<') :
    CarriesOn (standing b inTag held us).InPlain b (actions b inTag held us)
      b' (actions b' inTag held (us ++ bodyEnd)) := by
  -- Two builders are followed, since what they note counts the characters left, and these differ.
  revert b'
  fun_induction standing b inTag held us with
  | case1 b inTag held =>
    intro b' h
    rw [actions, List.nil_append]
    refine ⟨fun _ => sameTexts_atEnd h inTag held, fun hPlain => ?_⟩
    rcases hStart hPlain.1 with hNone | hHead
    · exact absurd hNone hPlain.2
    · cases hHead
  | case2 b inTag held c cs hOpen ih =>
    intro b' h
    have hAlike := alike_beforeOpening inTag held (cs.length + 1) ((cs ++ bodyEnd).length + 1)
    rw [List.cons_append, actions_bracket b hOpen, actions_bracket b' hOpen]
    exact .cons h hAlike (ih (by simp) (stack_perform_congr h hAlike))
  | case3 b inTag held c cs hOpen hClose b₁ raw =>
    rename_i ih
    intro b' h
    have hAlike : (Action.closed held (cs.length + 1)).Alike (.closed held ((cs ++ bodyEnd).length + 1)) :=
      .tag _ _ _
    have hTag : b₁.stack = (perform b' (.closed held ((cs ++ bodyEnd).length + 1))).stack :=
      stack_perform_congr h hAlike
    have hActions : actions b inTag held (c :: cs) = .closed held (cs.length + 1) :: .run raw.1 ::
        actions (perform b₁ (.run raw.1)) false [] raw.2 := actions_tagEnd b hOpen hClose
    rw [List.cons_append, hActions, actions_tagEnd b' hOpen hClose]
    by_cases hFree : b₁.rawTag? = none ∨ raw.2 ≠ []
    · have hNext : rawContent b₁ (cs ++ bodyEnd) = (raw.1, raw.2 ++ bodyEnd) := rawContent_append hFree bodyEnd
      have hStart : (perform b₁ (.run raw.1)).rawTag? = none ∨ raw.2.head? = some '<' := by
        rw [perform, rawTag?_addRun]
        exact head?_rawContent hFree
      simp only [← rawContent_congr hTag, hNext]
      exact .cons h hAlike (.cons hTag (.run _) (ih (fun _ => hStart) (stack_perform_congr hTag (.run _))))
    · -- The content goes on to the end of the text, and so over the closing tag of the body.
      rw [not_or, Decidable.not_not] at hFree
      obtain ⟨t, hRaw⟩ := Option.ne_none_iff_exists'.mp hFree.1
      obtain ⟨hWhole, hNext⟩ := rawContent_append_bodyEnd hRaw hFree.2
      have hContent : raw.1 = cs := hWhole
      have hPlain : (standing (perform b₁ (.run raw.1)) false [] raw.2).InPlain := by
        rw [hFree.2, standing]
        refine ⟨rfl, ?_⟩
        rw [perform, rawTag?_addRun]
        exact hFree.1
      refine ⟨fun hOutside => absurd hPlain hOutside, fun _ => ?_⟩
      simp only [← rawContent_congr hTag, hNext]
      rw [hFree.2, hContent, actions, actions]
      exact .cons h hAlike (runsOn_run hTag cs)
  | case4 b inTag held c cs hOpen hClose ih =>
    intro b' h
    have hNotBracket : (c :: cs).head? ≠ some '<' := by
      simpa using hOpen
    rw [List.cons_append, actions_held b hOpen hClose, actions_held b' hOpen hClose]
    exact ih (fun hOutside => .inl ((hStart hOutside).resolve_right hNotBracket)) h

theorem SameTexts.holds {tag : String} {texts : List String} (h : SameTexts {} as {} as')
    (hHolds : Holds tag as' texts) : Holds tag as texts := by
  rw [Holds, h.received tag, h.inOrder]
  exact hHolds

theorem forestTexts_parseFragment (m : String) :
    Node.forestTexts (parseFragment m) = textsIn "body" (parse ("<body>" ++ m ++ "</body>")).root := by
  obtain ⟨a, head, body, hRoot, hHead, hBody⟩ := (isDocument_parse ("<body>" ++ m ++ "</body>")).shape
  have hNotHead : head.hasTag "body" = false := by simp [Node.hasTag, hHead]
  have hIsBody : body.hasTag "body" = true := hasTag_iff.mpr hBody
  rw [parseFragment, textsIn, hRoot]
  simp only [Node.children, List.find?_cons, List.filter_cons, hNotHead, hIsBody]
  cases body with
  | text => cases hBody
  | element => simp [Node.children]

/-- What the reader does with a fragment, behind the opening tag of a body. -/
def fragmentActions (m : String) : List Action :=
  actionsOf ("<body>" ++ m)

/-- Whether a fragment ends in the plain content of an element that is not closed. -/
def EndsInPlain (m : String) : Prop :=
  (standing {} false [] ("<body>" ++ m).toList).InPlain

theorem actionsOf_append_bodyEnd (m : String) :
    actionsOf ("<body>" ++ m ++ "</body>") = actions {} false [] (("<body>" ++ m).toList ++ bodyEnd) := by
  rw [actionsOf, String.toList_append]
  rfl

theorem splits_fragmentActions (m : String) : Splits ((fragmentActions m).flatMap Action.texts)
    (received "head" {} (fragmentActions m)) (received "body" {} (fragmentActions m)) :=
  splits_received (b := {}) trivial (fitting_actionsOf _)

/-- What comes of the texts of a fragment, as they are read behind the opening tag of a body. Each is
received by the body or, if the fragment closes that, by the head. The fragment consists of those that the
body received, and in plain content that is not closed it shows the closing tag of the body too. -/
theorem texts_parseFragment (m : String) :
    Splits ((fragmentActions m).flatMap Action.texts)
        (received "head" {} (fragmentActions m)) (received "body" {} (fragmentActions m)) ∧
      (¬EndsInPlain m → Holds "body" (fragmentActions m) (Node.forestTexts (parseFragment m)) ∧
        ((Node.forestTexts (parseFragment m)).Perm ((fragmentActions m).flatMap Action.texts) ↔
          received "head" {} (fragmentActions m) = []) ∧
        (received "head" {} (fragmentActions m) = [] → InOrder {} (fragmentActions m) →
          Node.forestTexts (parseFragment m) = (fragmentActions m).flatMap Action.texts)) ∧
      (EndsInPlain m → ∃ before run, fragmentActions m = before ++ [.run run, .run []] ∧
        Holds "body" (before ++ [.run (run ++ "</body>".toList), .run []]) (Node.forestTexts (parseFragment m))) := by
  have hSplits := splits_fragmentActions m
  have hCarriesOn := carriesOn_bodyEnd (b := {}) rfl false [] ("<body>" ++ m).toList fun _ => .inl rfl
  have hHolds := holds_parse ("<body>" ++ m ++ "</body>") (.inr rfl)
  rw [← forestTexts_parseFragment, actionsOf_append_bodyEnd] at hHolds
  refine ⟨hSplits, fun hEnds => ?_, fun hEnds => ?_⟩
  · have hBody : Holds "body" (fragmentActions m) (Node.forestTexts (parseFragment m)) :=
      (hCarriesOn.outside hEnds).holds hHolds
    have hWhole (hNone : received "head" {} (fragmentActions m) = []) :
        (fragmentActions m).flatMap Action.texts = received "body" {} (fragmentActions m) := by
      rw [hNone] at hSplits
      exact hSplits.eq_of_left_eq_nil
    refine ⟨hBody, ⟨fun hAll => ?_, fun hNone => ?_⟩, fun hNone hOrder => ?_⟩
    · have hLength := (hAll.symm.trans hBody.1).length_eq
      rw [hSplits.length] at hLength
      exact List.length_eq_zero_iff.mp (by omega)
    · rw [hWhole hNone]
      exact hBody.1
    · rw [hWhole hNone]
      exact hBody.2 hOrder
  · obtain ⟨before, run, hActions, hSame⟩ := hCarriesOn.inside hEnds
    exact ⟨before, run, hActions, hSame.holds hHolds⟩

/-- A fragment can close the body that it is read in, or keep it from being closed. -/
theorem fragment_not_kept_apart :
    ((fragmentActions "<script>x").flatMap Action.texts = ["x"] ∧
      Node.forestTexts (parseFragment "<script>x") = ["x</body>"]) ∧
    ((fragmentActions "</p><title>t</title>").flatMap Action.texts = ["t"] ∧
      Node.forestTexts (parseFragment "</p><title>t</title>") = []) := by
  refine ⟨⟨?_, ?_⟩, ?_, ?_⟩ <;> decide +kernel

end PageRender.Markup
