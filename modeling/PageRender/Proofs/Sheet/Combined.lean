import PageRender.Proofs.Sheet.Unfinished
import PageRender.Proofs.Sheet.Written
import PageRender.Markup.Reader
import PageRender.Style.Cascade

/-! # Sheets that are read as one text

The rules of several sheets in one text are those of the sheets, each read on its own, as long as a sheet
that stands before another one ends between rules. The default sheet ends so.
-/

namespace PageRender.Stylesheet

open Sheet

/-- A sheet that ends between rules. -/
def IsFinished (sheet : String) : Prop :=
  unfinished sheet.toList = []

instance : DecidablePred IsFinished := fun sheet =>
  inferInstanceAs (Decidable (unfinished sheet.toList = []))

theorem toList_joined (a b : String) : (a ++ "\n" ++ b).toList = a.toList ++ '\n' :: b.toList := by
  simp

/-- No sheet takes a rule from the sheets before it. -/
theorem prefix_joined (a b : String) : (parse a).1 <+: (parse (a ++ "\n" ++ b)).1 := by
  show (read _).rules <+: (read _).rules
  rw [toList_joined, rules_read_append]
  exact List.prefix_append _ _

/-- A sheet ends between rules exactly if it can stand before every other sheet. -/
theorem isFinished_iff (sheet : String) : IsFinished sheet ↔
    ∀ next, (parse (sheet ++ "\n" ++ next)).1 = (parse sheet).1 ++ (parse next).1 := by
  constructor
  · intro h next
    show (read _).rules = _
    rw [toList_joined]
    exact rules_of_unfinished_eq_nil h next.toList
  · intro hAll
    refine Classical.byContradiction fun hUnfinished => ?_
    obtain ⟨b, hDamaged⟩ := exists_damaged hUnfinished
    refine hDamaged ?_
    have hSame : (read (sheet ++ "\n" ++ String.ofList b).toList).rules =
      (read sheet.toList).rules ++ (read (String.ofList b).toList).rules := hAll (String.ofList b)
    rwa [toList_joined, String.toList_ofList] at hSame

theorem IsFinished.joined {a b : String} (ha : IsFinished a) (hb : IsFinished b) :
    IsFinished (a ++ "\n" ++ b) := by
  rw [isFinished_iff] at ha hb ⊢
  intro next
  have hAssoc : a ++ "\n" ++ b ++ "\n" ++ next = a ++ "\n" ++ (b ++ "\n" ++ next) := by
    simp only [String.append_assoc]
  rw [hAssoc, ha, hb, ha, List.append_assoc]

/-! ## The default sheet -/

theorem rules_text_append {b : SheetBlock} (h : b.IsPlain) (cs : List Char) :
    (read (b.text.toList ++ cs)).rules = b.rules ++ (read cs).rules := by
  have hText : skipBlank (b.text.toList ++ cs) = b.text.toList ++ cs := by
    rw [b.toList_text, List.append_assoc]
    exact skipBlank_of_stands (stands_rowsChars h.1) _
  have hNonempty : b.text.toList ++ cs ≠ [] := by
    rw [b.toList_text]
    simp
  have hRead := b.outcome_text h cs
  have hPast : pastRule? (b.text.toList ++ cs) = some ('\n' :: cs) := by rw [pastRule?, hRead]
  have hFirst : firstRules (b.text.toList ++ cs) = b.rules := by rw [firstRules, hRead]
  rw [rules_read (by rwa [hText]), hText, hFirst, hPast, Option.elim_some, read_newline]

theorem rules_text {b : SheetBlock} (h : b.IsPlain) : (parse b.text).1 = b.rules := by
  have hNothing : (read []).rules = [] := rules_of_blank skipBlank_nil
  have hRules := rules_text_append h []
  rwa [hNothing, List.append_nil, List.append_nil] at hRules

theorem isFinished_text {b : SheetBlock} (h : b.IsPlain) : IsFinished b.text := by
  rw [isFinished_iff]
  intro next
  have hRules := rules_text_append h ('\n' :: next.toList)
  rw [read_newline] at hRules
  rw [rules_text h]
  show (read _).rules = _
  rw [toList_joined]
  exact hRules

theorem blocks_spec {bs : List SheetBlock} (h : ∀ b ∈ bs, b.IsPlain) :
    IsFinished ("\n".intercalate (bs.map SheetBlock.text)) ∧
      (parse ("\n".intercalate (bs.map SheetBlock.text))).1 = bs.flatMap SheetBlock.rules := by
  induction bs with
  | nil => exact ⟨by decide +kernel, rules_of_blank skipBlank_nil⟩
  | cons b bs ih =>
    obtain ⟨hBlock, hOthers⟩ := List.forall_mem_cons.mp h
    obtain ⟨hFinished, hRules⟩ := ih hOthers
    cases bs with
    | nil => exact ⟨isFinished_text hBlock, by simpa using rules_text hBlock⟩
    | cons b' bs =>
      rw [List.map_cons, List.map_cons, String.intercalate_cons_cons]
      refine ⟨(isFinished_text hBlock).joined hFinished, ?_⟩
      rw [(isFinished_iff _).mp (isFinished_text hBlock), rules_text hBlock, List.flatMap_cons]
      exact congrArg (b.rules ++ ·) hRules

theorem isFinished_defaultSheet : IsFinished defaultSheet :=
  (blocks_spec SheetBlock.isPlain_of_mem_defaultBlocks).1

/-- The default sheet is read as the blocks it is written from. -/
theorem rules_defaultSheet : (parse defaultSheet).1 = defaultBlocks.flatMap SheetBlock.rules :=
  (blocks_spec SheetBlock.isPlain_of_mem_defaultBlocks).2

/-! ## The sheets of a page -/

theorem combinedSheet_eq (root : PageTree) (author user : String) :
    Style.combinedSheet root author user =
      defaultSheet ++ "\n" ++ (Style.embeddedSheet root ++ "\n" ++ (author ++ "\n" ++ user)) := by
  simp [Style.combinedSheet, String.append_assoc]

/-- The default sheet ends between rules, so what follows it is read as if it stood alone. -/
theorem rules_behind_defaults (root : PageTree) (author user : String) :
    (parse (Style.combinedSheet root author user)).1 =
      defaultBlocks.flatMap SheetBlock.rules ++
        (parse (Style.embeddedSheet root ++ "\n" ++ (author ++ "\n" ++ user))).1 := by
  rw [combinedSheet_eq, (isFinished_iff _).mp isFinished_defaultSheet, rules_defaultSheet]

/-- The rules that a page is styled by begin with those of the default sheet and of the page. They are
those of all sheets, each read on its own, if the sheets of the page and of the author end between rules.
A sheet that does not end so damages some sheet behind it. -/
theorem rules_combinedSheet (root : PageTree) (author user : String) :
    (parse defaultSheet).1 ++ (parse (Style.embeddedSheet root)).1 <+:
      (parse (Style.combinedSheet root author user)).1 ∧
    (IsFinished (Style.embeddedSheet root) → IsFinished author →
      (parse (Style.combinedSheet root author user)).1 =
        (parse defaultSheet).1 ++ (parse (Style.embeddedSheet root)).1 ++ (parse author).1 ++
          (parse user).1) ∧
    ∀ sheet, IsFinished sheet ↔
      ∀ next, (parse (sheet ++ "\n" ++ next)).1 = (parse sheet).1 ++ (parse next).1 := by
  have hDefault := (isFinished_iff _).mp isFinished_defaultSheet
  rw [combinedSheet_eq, hDefault]
  refine ⟨?_, fun hEmbedded hAuthor => ?_, isFinished_iff⟩
  · exact (List.prefix_append_right_inj _).mpr (prefix_joined _ _)
  · rw [isFinished_iff] at hEmbedded hAuthor
    rw [hEmbedded, hAuthor]
    simp only [List.append_assoc]

/-- A page with a `style` element. -/
def styledPage (css : String) : PageTree :=
  (Markup.parse ("<style>" ++ css ++ "</style><p>x")).root.numbered

theorem rules_combinedSheet_styledPage :
    IsFinished (Style.embeddedSheet (styledPage "p \x7b color: blue \x7d")) ∧
    IsFinished "? \x7b /* \x7b */ \x7d b \x7b\x7d" ∧
    (parse (Style.combinedSheet (styledPage "p \x7b color: blue \x7d") "? \x7b /* \x7b */ \x7d b \x7b\x7d"
        "p \x7b color: red \x7d")).1 =
      (parse defaultSheet).1 ++ (parse (Style.embeddedSheet (styledPage "p \x7b color: blue \x7d"))).1 ++
        (parse "? \x7b /* \x7b */ \x7d b \x7b\x7d").1 ++ (parse "p \x7b color: red \x7d").1 := by
  have hEmbedded : IsFinished (Style.embeddedSheet (styledPage "p \x7b color: blue \x7d")) := by
    decide +kernel
  have hAuthor : IsFinished "? \x7b /* \x7b */ \x7d b \x7b\x7d" := by decide +kernel
  exact ⟨hEmbedded, hAuthor, (rules_combinedSheet _ _ "p \x7b color: red \x7d").2.1 hEmbedded hAuthor⟩

/-- A comment that a page leaves open hides the rules of the user. -/
theorem user_rule_lost :
    (parse (Style.combinedSheet (styledPage "/*") "" "p \x7b color: red \x7d")).1 ≠
      (parse defaultSheet).1 ++ (parse (Style.embeddedSheet (styledPage "/*"))).1 ++ (parse "").1 ++
        (parse "p \x7b color: red \x7d").1 := by
  have hDefault := (isFinished_iff _).mp isFinished_defaultSheet
  have hHidden : (parse (Style.embeddedSheet (styledPage "/*") ++ "\n" ++
      ("" ++ "\n" ++ "p \x7b color: red \x7d"))).1.length = 0 := by
    decide +kernel
  have hUser : (parse "p \x7b color: red \x7d").1.length = 1 := by decide +kernel
  intro hSame
  rw [combinedSheet_eq, hDefault] at hSame
  have hLength := congrArg List.length hSame
  simp only [List.length_append, hHidden, hUser] at hLength
  omega

end PageRender.Stylesheet
