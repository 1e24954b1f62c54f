import PageRender.Proofs.Markup.Rooted

/-! # Reading as moves

An action adds the one text that it is handed, if that shows anything, and otherwise moves elements
about. Only a head or a body that is met again inside an `html` element other than the root may
carry texts past others.
-/

namespace PageRender.Markup

open OpenElement

namespace Action

/-- The text that an action adds; a blank run is dropped. -/
def texts : Action → List String
  | .run text => if text.all Text.isBlank then [] else [String.ofList text]
  | _ => []

/-- Whether an action reopens a section, not of the root, whose texts do not commute with those
after it. -/
def Displaces (b : Builder) : Action → Prop
  | .tag _ text => ∃ e e' rest, b.stack = e :: e' :: rest ∧ e.tag = "html" ∧
      IsSection (Tag.read text).name ∧
      (Effect.ofSection e (e' :: rest) (Tag.read text).name).Reorders
  | _ => False

end Action

/-- The moves of an action: what they add, and that they leave the order alone or displace. -/
def Explains (b : Builder) (a : Action) (ls : List Effect) : Prop :=
  Moves b.stack ls (perform b a).stack ∧ ls.flatMap Effect.texts = a.texts ∧
    ∀ l ∈ ls, l.Reorders → a.Displaces b

theorem explains_of_quiet {b : Builder} {a : Action} {ls : List Effect}
    (hMoves : Moves b.stack ls (perform b a).stack) (hQuiet : Quiet ls) (hTexts : a.texts = []) :
    Explains b a ls :=
  ⟨hMoves, by rw [hQuiet.flatMap_texts, hTexts], fun l hl h => absurd h (hQuiet.not_reorders l hl)⟩

theorem rawTags_ne {t : String} (h : t ∈ Tag.rawTags) : t ≠ "html" ∧ t ≠ "head" ∧ t ≠ "body" := by
  rw [Tag.rawTags] at h
  simp only [List.mem_cons, List.not_mem_nil, or_false] at h
  rcases h with rfl | rfl <;> decide

theorem section_of_rooted {s root : OpenElement} (h : Rooted [s, root]) : IsSection s.tag := by
  rcases h.2.2 (some s.tag) (List.mem_append_right _ List.mem_cons_self) with hTag | hTag
  · exact .inl (Option.some.inj hTag)
  · exact .inr (Option.some.inj hTag)

/-- Inside an element with plain content nothing is implied. -/
theorem settle_of_rawTag? {b : Builder} (hRooted : Rooted b.stack) (h : b.rawTag?.isSome)
    (tag : Option String) : b.settle tag = b ∧ ∃ e rest, b.stack = e :: rest ∧ e.tag ∈ Tag.rawTags := by
  obtain ⟨stack, f⟩ := b
  match stack with
  | [] => cases h
  | [root] =>
    have hRaw : root.tag ∈ Tag.rawTags := by simpa [Builder.rawTag?, Builder.openTags] using h
    exact absurd hRooted.1 (rawTags_ne hRaw).1
  | [s, root] =>
    have hRaw : s.tag ∈ Tag.rawTags := by simpa [Builder.rawTag?, Builder.openTags] using h
    rcases section_of_rooted hRooted with hSection | hSection
    · exact absurd hSection (rawTags_ne hRaw).2.1
    · exact absurd hSection (rawTags_ne hRaw).2.2
  | e :: e' :: e'' :: rest =>
    have hRaw : e.tag ∈ Tag.rawTags := by simpa [Builder.rawTag?, Builder.openTags] using h
    exact ⟨Builder.settle_mk_deep e e' e'' rest f tag, e, e' :: e'' :: rest, rfl, hRaw⟩

theorem addRun_eq (b : Builder) (text : List Char) :
    addRun b text = if text.all Text.isBlank then b
      else (b.settle none).addNode (.text () (String.ofList text)) := by
  cases text with
  | nil => rfl
  | cons c cs => rfl

theorem run_moves {b : Builder} {text : List Char} (hRooted : Rooted b.stack)
    (hFits : Action.Fits b (.run text)) : ∃ ls, Explains b (.run text) ls := by
  by_cases hBlank : text.all Text.isBlank = true
  · refine ⟨[], explains_of_quiet ?_ (by simp [Quiet]) (if_pos hBlank)⟩
    rw [perform, addRun_eq, if_pos hBlank]
    exact .nil
  obtain ⟨ls, hMoves, hQuiet, hRest⟩ := settle_moves b none
  obtain ⟨e, e', rest, hStack⟩ :=
    two_le_of_implied?_eq_none (hMoves.rooted hRooted) hRest (by simp) rfl
  have hShown : ∃ c ∈ (String.ofList text).toList, Text.isBlank c = false := by
    simpa using hBlank
  have hPlain : '<' ∉ (String.ofList text).toList ∨ e.tag ∈ Tag.rawTags := by
    rcases hFits with hFits | hRaw
    · exact .inl (by simpa using hFits)
    · obtain ⟨hSame, f, rest', hTop, hTag⟩ := settle_of_rawTag? hRooted hRaw none
      rw [hSame, hTop, List.cons.injEq] at hStack
      exact .inr (hStack.1 ▸ hTag)
  have hMove : Move (b.settle none).stack (.text (String.ofList text)) (perform b (.run text)).stack := by
    rw [perform, addRun_eq, if_neg hBlank, Builder.addNode, hStack]
    exact .text hShown hPlain
  refine ⟨ls ++ [.text (String.ofList text)], hMoves.append (.single hMove), ?_, ?_⟩
  · rw [List.flatMap_append, hQuiet.flatMap_texts, Action.texts, if_neg hBlank]
    rfl
  · intro l hl hReorders
    rcases List.mem_append.mp hl with hl | hl
    · exact absurd hReorders (hQuiet.not_reorders l hl)
    · rw [List.mem_singleton.mp hl] at hReorders
      cases hReorders

theorem pop_moves (b : Builder) : ∃ ls, Moves b.stack ls b.pop.stack ∧ Quiet ls := by
  obtain ⟨stack, f⟩ := b
  match stack with
  | [] => exact ⟨[], .nil, by simp [Quiet]⟩
  | [_] => exact ⟨[], .nil, by simp [Quiet]⟩
  | _ :: _ :: _ => exact ⟨[.none], .single .close, by simp [Quiet]⟩

theorem closingTag_moves (b : Builder) (left : Nat) (name : String) :
    ∃ ls, Moves b.stack ls ((b.settle (some name)).closeTag left name).stack ∧ Quiet ls := by
  obtain ⟨ls, hMoves, hQuiet, -⟩ := settle_moves b (some name)
  obtain ⟨ls', hMoves', hQuiet'⟩ := pop_moves (b.settle (some name))
  refine ⟨ls ++ ls', hMoves.append ?_, hQuiet.append hQuiet'⟩
  rw [Builder.stack_closeTag]
  exact hMoves'

theorem voidTags_ne {t : String} (h : t ∈ Tag.voidTags) :
    t ≠ "html" ∧ Builder.standsInRoot (some t) = false := by
  have hAll : ∀ t ∈ Tag.voidTags, t ≠ "html" ∧ Builder.standsInRoot (some t) = false := by decide
  exact hAll t h

/-- An element that is not void is opened in its own place, or as a section if the innermost element is
an `html` element. -/
theorem openTag_eq {b : Builder} {tag : Tag} (hVoid : tag.name ∉ Tag.voidTags) :
    b.openTag tag = if IsSection tag.name ∧ b.openTags.head? = some "html" then
        b.openSection tag.name tag.attributes
      else b.push ⟨tag.name, tag.attributes, []⟩ := by
  have hIf : (["head", "body"].contains tag.name && b.openTags.head? == some "html") = true ↔
      IsSection tag.name ∧ b.openTags.head? = some "html" := by
    simp [IsSection]
  rw [Builder.openTag, if_neg (by simpa using hVoid)]
  simp only [hIf]

theorem push_move {b : Builder} {tag : Tag} (hRooted : Rooted b.stack)
    (hRest : b.implied? (some tag.name) = none) (hVoid : tag.name ∉ Tag.voidTags)
    (hSection : ¬(IsSection tag.name ∧ b.openTags.head? = some "html"))
    (hName : Tag.IsElementName tag.name) (hAttributes : Tag.AreAttributes tag.attributes) :
    Move b.stack .none (b.push ⟨tag.name, tag.attributes, []⟩).stack := by
  obtain ⟨stack, f⟩ := b
  rcases stack with - | ⟨root, - | ⟨e', rest⟩⟩
  · have hHtml : tag.name = "html" := by simpa [Builder.implied?_mk_nil] using hRest
    rw [Builder.push, hHtml]
    exact .root hAttributes
  · -- Directly inside the root nothing but a section comes to rest.
    exfalso
    have hDirect : Builder.standsInRoot (some tag.name) = true := by
      simpa [Builder.implied?_mk_root, hRooted.1] using hRest
    have hCases : tag.name = "head" ∨ tag.name = "body" ∨ tag.name = "/html" := by
      simpa [Builder.standsInRoot] using hDirect
    rcases hCases with hCase | hCase | hCase
    · exact hSection ⟨.inl hCase, congrArg some hRooted.1⟩
    · exact hSection ⟨.inr hCase, congrArg some hRooted.1⟩
    · exact hName.opening.1 (by rw [hCase]; rfl)
  · refine .push hVoid ?_ hName hAttributes
    rintro ⟨hCase, hTop⟩
    exact hSection ⟨hCase, congrArg some hTop⟩

theorem openTag_move {b : Builder} {tag : Tag} (hRooted : Rooted b.stack)
    (hRest : b.implied? (some tag.name) = none) (hName : Tag.IsElementName tag.name)
    (hAttributes : Tag.AreAttributes tag.attributes) :
    ∃ l, Move b.stack l (b.openTag tag).stack ∧
      (l = .none ∨ ∃ e rest, b.stack = e :: rest ∧ e.tag = "html" ∧ IsSection tag.name ∧
        l = .ofSection e rest tag.name) := by
  by_cases hVoid : tag.name ∈ Tag.voidTags
  · obtain ⟨hHtml, hDirect⟩ := voidTags_ne hVoid
    obtain ⟨e, e', rest, hStack⟩ := two_le_of_implied?_eq_none hRooted hRest
      (fun hEq => hHtml (Option.some.inj hEq)) hDirect
    refine ⟨.none, ?_, .inl rfl⟩
    rw [Builder.openTag, if_pos (by simpa using hVoid), Builder.addNode, hStack]
    exact .void hVoid hName hAttributes
  rw [openTag_eq hVoid]
  by_cases hSection : IsSection tag.name ∧ b.openTags.head? = some "html"
  · rw [if_pos hSection]
    obtain ⟨hIsSection, hHead⟩ := hSection
    obtain ⟨stack, f⟩ := b
    cases stack with
    | nil => cases hHead
    | cons e rest =>
      have hTop : e.tag = "html" := Option.some.inj hHead
      refine ⟨_, ?_, .inr ⟨e, rest, rfl, hTop, hIsSection, rfl⟩⟩
      rw [Builder.openSection_mk]
      exact .section_ hTop hIsSection hAttributes
  · rw [if_neg hSection]
    exact ⟨.none, push_move hRooted hRest hVoid hSection hName hAttributes, .inl rfl⟩

theorem openingTag_moves {b : Builder} (left : Nat) {text : List Char} (hRooted : Rooted b.stack)
    (hName : Tag.IsElementName (Tag.read text).name)
    (hAttributes : Tag.AreAttributes (Tag.read text).attributes) :
    ∃ ls, Moves b.stack ls ((b.settle (some (Tag.read text).name)).openTag (Tag.read text)).stack ∧
      ls.flatMap Effect.texts = [] ∧
      ∀ l ∈ ls, l.Reorders → (Action.tag left text).Displaces b := by
  obtain ⟨ls, hMoves, hQuiet, hRest⟩ := settle_moves b (some (Tag.read text).name)
  have hRooted' := hMoves.rooted hRooted
  obtain ⟨l, hMove, hEffect⟩ := openTag_move hRooted' hRest hName hAttributes
  refine ⟨ls ++ [l], hMoves.append (.single hMove), ?_, ?_⟩
  · rw [List.flatMap_append, hQuiet.flatMap_texts, List.nil_append, List.flatMap_singleton]
    rcases hEffect with rfl | ⟨e, rest, -, -, -, rfl⟩
    · rfl
    · exact Effect.texts_ofSection e rest _
  · intro l' hl' hReorders
    rcases List.mem_append.mp hl' with hl' | hl'
    · exact absurd hReorders (hQuiet.not_reorders l' hl')
    rw [List.mem_singleton.mp hl'] at hReorders
    rcases hEffect with rfl | ⟨e, rest, hStack, hTop, hSection, rfl⟩
    · cases hReorders
    match rest with
    | [] => cases hReorders
    | [root] =>
      rw [hStack] at hRooted'
      rcases section_of_rooted hRooted' with hTag | hTag <;> simp [hTop] at hTag
    | e' :: e'' :: rest =>
      -- So deep nothing was implied, and the element is reopened where the action began.
      have hSame := (Builder.settles_settle b _).eq_of_two_lt (by rw [hStack]; simp)
      rw [hSame] at hStack
      exact ⟨e, e', e'' :: rest, hStack, hTop, hSection, hReorders⟩

theorem perform_tag (b : Builder) (left : Nat) (text : List Char) :
    perform b (.tag left text) =
      if (Tag.read text).name = "" then b.report left .emptyTag
      else if (Tag.read text).name.toList.head? = some '!' then b
      else if (Tag.read text).name.toList.head? = some '/' then
        (b.settle (some (Tag.read text).name)).closeTag left (Tag.read text).name
      else (b.settle (some (Tag.read text).name)).openTag (Tag.read text) := by
  have hEmpty : (Tag.read text).name = "" ↔ (Tag.read text).name.toList = [] := by
    rw [← String.toList_inj]
    rfl
  rw [perform, Builder.addTag]
  simp only [hEmpty]
  cases hName : (Tag.read text).name.toList with
  | nil => rfl
  | cons c cs =>
    rw [if_neg (List.cons_ne_nil c cs), List.head?_cons]
    by_cases hComment : c = '!'
    · rw [hComment, if_pos rfl]
      rfl
    by_cases hClosing : c = '/'
    · rw [hClosing, if_neg (by simp), if_pos rfl]
      rfl
    rw [if_neg (by simpa using hComment), if_neg (by simpa using hClosing)]
    split
    · rename_i h
      cases h
    · rename_i h
      exact absurd (List.cons.inj h).1 hComment
    · rename_i h
      exact absurd (List.cons.inj h).1 hClosing
    · rfl

/-- Every action on a rooted stack is a sequence of moves. -/
theorem exists_explains {b : Builder} {a : Action} (hRooted : Rooted b.stack) (hFits : a.Fits b) :
    ∃ ls, Explains b a ls := by
  cases a with
  | run text => exact run_moves hRooted hFits
  | note left finding => exact ⟨[], explains_of_quiet .nil (by simp [Quiet]) rfl⟩
  | tag left text =>
    have hPerform := perform_tag b left text
    by_cases hEmpty : (Tag.read text).name = ""
    · rw [if_pos hEmpty] at hPerform
      refine ⟨[], explains_of_quiet ?_ (by simp [Quiet]) rfl⟩
      rw [hPerform]
      exact .nil
    rw [if_neg hEmpty] at hPerform
    by_cases hComment : (Tag.read text).name.toList.head? = some '!'
    · rw [if_pos hComment] at hPerform
      refine ⟨[], explains_of_quiet ?_ (by simp [Quiet]) rfl⟩
      rw [hPerform]
      exact .nil
    rw [if_neg hComment] at hPerform
    by_cases hClosing : (Tag.read text).name.toList.head? = some '/'
    · rw [if_pos hClosing] at hPerform
      obtain ⟨ls, hMoves, hQuiet⟩ := closingTag_moves b left (Tag.read text).name
      refine ⟨ls, explains_of_quiet ?_ hQuiet rfl⟩
      rw [hPerform]
      exact hMoves
    rw [if_neg hClosing] at hPerform
    obtain ⟨ls, hMoves, hTexts, hReorders⟩ := openingTag_moves left hRooted
      (Tag.isElementName_read hFits hEmpty ⟨hClosing, hComment⟩) (Tag.areAttributes_read hFits)
    refine ⟨ls, ?_, hTexts, hReorders⟩
    rw [hPerform]
    exact hMoves

/-- What holds at first and is kept by every move holds when a text has been read. -/
theorem read_keep {P : List OpenElement → Prop} (step : ∀ s l s', Rooted s → P s → Move s l s' → P s')
    (h : P []) (cs : List Char) :
    Rooted (read {} false [] cs).stack ∧ P (read {} false [] cs).stack := by
  apply read_of_step (P := fun b => Rooted b.stack ∧ P b.stack)
  · rintro b a ⟨hRooted, hP⟩ hFits
    obtain ⟨ls, hMoves, -⟩ := exists_explains hRooted hFits
    exact hMoves.keep (P := fun s => Rooted s ∧ P s)
      (fun s l s' h hMove => ⟨hMove.rooted h.1, step s l s' h.1 h.2 hMove⟩) ⟨hRooted, hP⟩
  · exact ⟨trivial, h⟩

theorem closeAll_moves (s : List OpenElement) (h : s ≠ []) :
    ∃ root ls, Moves s ls [root] ∧ Quiet ls ∧ Builder.closeAll s = some root := by
  fun_induction Builder.closeAll s with
  | case1 => exact absurd rfl h
  | case2 root => exact ⟨root, [], .nil, by simp [Quiet], rfl⟩
  | case3 top parent rest ih =>
    obtain ⟨root, ls, hMoves, hQuiet, hRoot⟩ := ih (List.cons_ne_nil _ _)
    refine ⟨root, .none :: ls, .cons .close hMoves, ?_, hRoot⟩
    intro l hl
    rcases List.mem_cons.mp hl with rfl | hl
    · rfl
    · exact hQuiet l hl

/-- At the end of a text that opened nothing, the body is opened. -/
def ended (b : Builder) : Builder :=
  if b.stack.isEmpty then b.settle none else b

theorem finish_moves {b : Builder} (hRooted : Rooted b.stack) :
    ∃ root ls, Moves b.stack ls [root] ∧ Quiet ls ∧
      Builder.closeAll (ended b).stack = some root ∧ b.finish = Builder.completeRoot root := by
  obtain ⟨ls, hMoves, hQuiet, hNonempty⟩ : ∃ ls, Moves b.stack ls (ended b).stack ∧ Quiet ls ∧
      (ended b).stack ≠ [] := by
    rw [ended]
    cases hEmpty : b.stack.isEmpty with
    | true =>
      obtain ⟨ls, hMoves, hQuiet, hRest⟩ := settle_moves b none
      obtain ⟨e, e', rest, hStack⟩ :=
        two_le_of_implied?_eq_none (hMoves.rooted hRooted) hRest (by simp) rfl
      rw [if_pos rfl]
      exact ⟨ls, hMoves, hQuiet, by rw [hStack]; exact List.cons_ne_nil _ _⟩
    | false =>
      rw [if_neg Bool.false_ne_true]
      exact ⟨[], .nil, by simp [Quiet], by simpa using hEmpty⟩
  obtain ⟨root, ls', hMoves', hQuiet', hRoot⟩ := closeAll_moves (ended b).stack hNonempty
  refine ⟨root, ls ++ ls', hMoves.append hMoves', hQuiet.append hQuiet', hRoot, ?_⟩
  rw [ended] at hRoot
  simp only [Builder.finish, hRoot]

end PageRender.Markup
