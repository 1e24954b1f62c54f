import PageRender.Proofs.Markup.TextOrder

/-! # The section that receives a text

A run of text that shows anything comes into the section of the root that is open once it has been added.
So the texts of the head and of the body can be told from the actions of the reader alone.
-/

namespace PageRender.Markup

open OpenElement

/-- The texts of a run of actions that come into a section, in the order of the source. -/
def received (tag : String) (b : Builder) : List Action → List String
  | [] => []
  | a :: as =>
    (if openSection? (perform b a).stack = some tag then a.texts else []) ++ received tag (perform b a) as

variable {b : Builder} {a : Action} {as : List Action} {tag : String}

theorem Splits.length {α : Type} {whole l r : List α} (h : Splits whole l r) :
    whole.length = l.length + r.length := by
  induction h with
  | nil => rfl
  | left x _ ih =>
    rw [List.length_cons, List.length_cons, ih]
    omega
  | right x _ ih =>
    rw [List.length_cons, List.length_cons, ih]
    omega

theorem Splits.eq_of_left_eq_nil {α : Type} {whole r : List α} (h : Splits whole [] r) : whole = r := by
  generalize hLeft : ([] : List α) = l at h
  induction h with
  | nil => rfl
  | left => cases hLeft
  | right x _ ih => rw [ih hLeft]

/-- An action that adds a text adds it to the innermost element. -/
theorem stack_of_texts (hRooted : Rooted b.stack) (h : a.texts ≠ []) :
    ∃ t e e' rest, a.texts = [t] ∧ (b.settle none).stack = e :: e' :: rest ∧
      (perform b a).stack = e.add (.text () t) :: e' :: rest := by
  cases a with
  | tag => exact absurd rfl h
  | note => exact absurd rfl h
  | run text =>
    have hShown : ¬text.all Text.isBlank = true := fun hBlank => h (if_pos hBlank)
    obtain ⟨ls, hMoves, -, hRest⟩ := settle_moves b none
    obtain ⟨e, e', rest, hStack⟩ :=
      two_le_of_implied?_eq_none (hMoves.rooted hRooted) hRest (by simp) rfl
    refine ⟨String.ofList text, e, e', rest, if_neg hShown, hStack, ?_⟩
    rw [perform, addRun_eq, if_neg hShown, Builder.addNode, hStack]

theorem sectionTexts_of_quiet {s s' : List OpenElement} {ls : List Effect} (hRooted : Rooted s)
    (hMoves : Moves s ls s') (hQuiet : Quiet ls) (hSection : IsSection tag) :
    sectionTexts tag s' = sectionTexts tag s := by
  obtain ⟨head, body, hSplits, -, -, hEq⟩ := hMoves.grows hRooted
  obtain ⟨hHead, hBody⟩ := hEq hQuiet.not_reorders
  rw [hQuiet.flatMap_texts] at hSplits
  cases hSplits
  rw [List.append_nil] at hHead hBody
  rcases hSection with rfl | rfl
  · exact hHead
  · exact hBody

theorem sectionTexts_perform (hRooted : Rooted b.stack) (hFits : a.Fits b) (hSection : IsSection tag) :
    (sectionTexts tag (perform b a).stack).Perm (sectionTexts tag b.stack ++
        if openSection? (perform b a).stack = some tag then a.texts else []) ∧
      (¬a.Displaces b → sectionTexts tag (perform b a).stack = sectionTexts tag b.stack ++
        if openSection? (perform b a).stack = some tag then a.texts else []) := by
  by_cases hTexts : a.texts = []
  · obtain ⟨head, body, hSplits, hHead, hBody, hEq⟩ := perform_grows hRooted hFits
    rw [hTexts] at hSplits ⊢
    cases hSplits
    rw [ite_self]
    rcases hSection with rfl | rfl
    · exact ⟨hHead, fun hOrder => (hEq hOrder).1⟩
    · exact ⟨hBody, fun hOrder => (hEq hOrder).2⟩
  · obtain ⟨t, e, e', rest, hText, hSettled, hStack⟩ := stack_of_texts hRooted hTexts
    obtain ⟨ls, hMoves, hQuiet, -⟩ := settle_moves b none
    have hBefore := sectionTexts_of_quiet hRooted hMoves hQuiet hSection
    have hAdded : sectionTexts tag (perform b a).stack = sectionTexts tag b.stack ++
        if openSection? (perform b a).stack = some tag then a.texts else [] := by
      rw [hStack, sectionTexts_add, ← hBefore, hSettled, hText, Node.texts_text,
        openSection?_of_tag_eq (e := e.add _) (f := e) rfl]
    exact ⟨.of_eq hAdded, fun _ => hAdded⟩

theorem sectionTexts_foldl (hRooted : Rooted b.stack) (hFits : Fitting b as) (hSection : IsSection tag) :
    (sectionTexts tag (as.foldl perform b).stack).Perm (sectionTexts tag b.stack ++ received tag b as) ∧
      (InOrder b as → sectionTexts tag (as.foldl perform b).stack =
        sectionTexts tag b.stack ++ received tag b as) := by
  induction as generalizing b with
  | nil =>
    rw [received, List.append_nil]
    exact ⟨.rfl, fun _ => rfl⟩
  | cons a as ih =>
    obtain ⟨hPerm, hEq⟩ := sectionTexts_perform hRooted hFits.1 hSection
    obtain ⟨hPerms, hEqs⟩ := ih (perform_rooted hRooted hFits.1) hFits.2
    rw [List.foldl_cons, received, ← List.append_assoc]
    refine ⟨hPerms.trans (hPerm.append_right _), fun hOrder => ?_⟩
    rw [hEqs hOrder.2, hEq hOrder.1]

/-- Every text that shows anything is received by the head or by the body. -/
theorem splits_received (hRooted : Rooted b.stack) (hFits : Fitting b as) :
    Splits (as.flatMap Action.texts) (received "head" b as) (received "body" b as) := by
  induction as generalizing b with
  | nil => exact .nil
  | cons a as ih =>
    have hRooted' := perform_rooted hRooted hFits.1
    refine Splits.append ?_ (ih hRooted' hFits.2)
    by_cases hTexts : a.texts = []
    · rw [hTexts, ite_self, ite_self]
      exact .nil
    · obtain ⟨t, e, e', rest, -, -, hStack⟩ := stack_of_texts hRooted hTexts
      rw [hStack] at hRooted' ⊢
      obtain ⟨u, hOpen, rfl | rfl⟩ := isSection_openSection? hRooted'
      · rw [hOpen, if_pos rfl, if_neg (by decide)]
        exact .all_left _
      · rw [hOpen, if_pos rfl, if_neg (by decide)]
        exact .all_right _

theorem fitting_actionsOf (source : String) : Fitting {} (actionsOf source) :=
  fitting_actions {} false [] source.toList (by simp) (by simp)

/-- The texts that a section holds when the actions are done: those it has received, in another order only
if the reader displaced some. -/
def Holds (tag : String) (as : List Action) (texts : List String) : Prop :=
  texts.Perm (received tag {} as) ∧ (InOrder {} as → texts = received tag {} as)

theorem holds_parse (source : String) (hSection : IsSection tag) :
    Holds tag (actionsOf source) (textsIn tag (parse source).root) := by
  obtain ⟨hRooted, -⟩ := read_keep (P := fun _ => True) (fun _ _ _ _ _ _ => trivial) trivial source.toList
  obtain ⟨root, ls, hMoves, hQuiet, -, hParse, hRoot, -⟩ := exists_root source
  have hTexts : textsIn tag (parse source).root =
      sectionTexts tag ((actionsOf source).foldl perform {}).stack := by
    rw [hParse, textsIn_completeRoot hRoot hSection, sectionTexts_of_quiet hRooted hMoves hQuiet hSection,
      read_eq_foldl]
    rfl
  rw [hTexts]
  exact sectionTexts_foldl (b := {}) trivial (fitting_actionsOf source) hSection

end PageRender.Markup
