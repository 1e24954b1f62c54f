import PageRender.Proofs.Sheet.Endings
import PageRender.Proofs.Style.Selecting
import PageRender.Proofs.Text.Classes

/-! # Sheets that are printed are read back

A sheet is printed with each rule on one line and blanks between the rules. As long as words, names and values are
such as a sheet can hold, it is read as it was printed, and nothing is stepped over.
-/

namespace PageRender

open Sheet

namespace Sheet

/-- A word that is read as it stands. -/
structure IsPlainWord (w : String) : Prop where
  nonempty : w ≠ ""
  chars : ∀ c ∈ w.toList, isWordChar c = true
  folded : Text.foldCase w = w

instance : DecidablePred IsPlainWord := fun w =>
  decidable_of_iff (w ≠ "" ∧ w.toList.all isWordChar = true ∧ Text.foldCase w = w) <| by
    rw [List.all_eq_true]
    exact ⟨fun h => ⟨h.1, h.2.1, h.2.2⟩, fun h => ⟨h.nonempty, h.chars, h.folded⟩⟩

theorem not_isWordChar_of_isBlank {c : Char} (h : Text.isBlank c = true) : isWordChar c = false := by
  have hMarks : ['#', '-', '.', '%', '_'].contains c = false := by
    rw [List.contains_eq_mem, decide_eq_false_iff_not]
    intro hc
    have hVisible : ∀ d ∈ ['#', '-', '.', '%', '_'], Text.isBlank d = false := by decide
    rw [hVisible c hc] at h
    cases h
  rw [isWordChar, Text.not_isLetter_of_isBlank h, Text.not_isNumeric_of_isBlank h, hMarks]
  rfl

theorem IsPlainWord.isWord {w : String} (h : IsPlainWord w) : isWord w = true := by
  rw [Sheet.isWord, Bool.and_eq_true, List.all_eq_true]
  refine ⟨?_, h.chars⟩
  cases hText : w.toList with
  | nil => exact absurd (String.toList_eq_nil_iff.mp hText) h.nonempty
  | cons c cs =>
    have hChar := h.chars c (hText ▸ List.mem_cons_self)
    have hVisible : Text.isBlank c = false := by
      refine Bool.eq_false_iff.mpr fun hBlank => ?_
      rw [not_isWordChar_of_isBlank hBlank] at hChar
      cases hChar
    have hSlash : c ≠ '/' := by
      rintro rfl
      exact absurd hChar (by decide)
    simp [stands, hVisible, hSlash]

/-! ## Blocks -/

def entryChars (p : String × String) : List Char :=
  p.1.toList ++ ':' :: ' ' :: (p.2.toList ++ [';', ' '])

theorem declarations_entries {ps : List (String × String)}
    (h : ∀ p ∈ ps, IsPlainWord p.1 ∧ IsPlainValue p.2) (taken : Block) (more : List Char) :
    declarations taken (skipBlank (ps.flatMap entryChars ++ '\x7d' :: more)) =
      { taken with
        declarations := ps.foldl (fun d p => d.insert p.1 p.2) taken.declarations
        rest := '\x7d' :: more } := by
  induction ps generalizing taken with
  | nil =>
    rw [List.flatMap_nil, List.nil_append, skipBlank_mark (by decide), declarations_brace]
    rfl
  | cons p ps ih =>
    obtain ⟨⟨hName, hText⟩, hOthers⟩ := List.forall_mem_cons.mp h
    have hStands : stands p.1.toList = true := (Bool.and_eq_true_iff.mp hName.isWord).1
    have hRead := declaration_append hName.isWord hText (' ' :: (ps.flatMap entryChars ++ '\x7d' :: more))
    obtain ⟨c, cs, hChars, hFirst, -⟩ := exists_of_isWord hName.isWord
    have hBrace : ¬(c == '\x7d') = true := by
      rw [beq_iff_eq]
      rintro rfl
      exact absurd hFirst (by decide)
    have hSemicolon : ∀ cs, pastMark (skipBlank (';' :: ' ' :: cs)) = skipBlank cs := by
      intro cs
      rw [skipBlank_mark (by decide), pastMark, skipBlank_of_isBlank (by decide)]
    simp only [List.flatMap_cons, entryChars, List.cons_append, List.append_assoc, List.nil_append]
    rw [skipBlank_of_stands hStands]
    rw [hName.folded, hChars, List.cons_append] at hRead
    rw [hChars, List.cons_append, declarations_ok hBrace hRead, hSemicolon, List.foldl_cons]
    exact ih hOthers _

end Sheet

namespace SheetBlock

def line (b : SheetBlock) : String :=
  ", ".intercalate (b.selectors.map (" ".intercalate ·)) ++ " \x7b " ++
    String.join (b.declarations.map fun d => d.1 ++ ": " ++ d.2 ++ "; ") ++ "\x7d"

/-- Selectors of plain words, and plain declarations of distinct names. -/
structure IsPrintable (b : SheetBlock) : Prop where
  selectors : b.selectors ≠ []
  rows : ∀ row ∈ b.selectors, row ≠ [] ∧ ∀ w ∈ row, IsPlainWord w
  entries : ∀ p ∈ b.declarations, IsPlainWord p.1 ∧ IsPlainValue p.2
  distinct : (b.declarations.map Prod.fst).Nodup

instance : DecidablePred IsPrintable := fun b =>
  decidable_of_iff (b.selectors ≠ [] ∧ (∀ row ∈ b.selectors, row ≠ [] ∧ ∀ w ∈ row, IsPlainWord w) ∧
      (∀ p ∈ b.declarations, IsPlainWord p.1 ∧ IsPlainValue p.2) ∧ (b.declarations.map Prod.fst).Nodup)
    ⟨fun h => ⟨h.1, h.2.1, h.2.2.1, h.2.2.2⟩, fun h => ⟨h.selectors, h.rows, h.entries, h.distinct⟩⟩

theorem toList_line (b : SheetBlock) : b.line.toList =
    rowsChars b.selectors ++ ' ' :: '\x7b' :: ' ' :: (b.declarations.flatMap entryChars ++ ['\x7d']) := by
  have hEntries : entryChars = fun d => d.1.toList ++ ':' :: ' ' :: (d.2.toList ++ [';', ' ']) := rfl
  simp [line, rowsChars, List.flatMap_map, Function.comp_def, hEntries]

/-- The rules of a block: each selector with all the declarations. -/
def plainRules (b : SheetBlock) : List Rule :=
  b.selectors.map fun row => ⟨selectorOf row, ⟨b.declarations⟩⟩

namespace IsPrintable

variable {b : SheetBlock}

theorem areRows (h : b.IsPrintable) : AreRows b.selectors := by
  refine ⟨h.selectors, fun row hRow => ⟨(h.rows row hRow).1, ?_⟩⟩
  exact fun w hw => ((h.rows row hRow).2 w hw).isWord

theorem rule_line (h : b.IsPrintable) (more : List Char) :
    rule (b.line.toList ++ more) = ⟨[], .ok (b.plainRules, more)⟩ := by
  have hHeading : heading (b.line.toList ++ more) =
      .ok (b.selectors.map selectorOf, ' ' :: (b.declarations.flatMap entryChars ++ '\x7d' :: more)) := by
    rw [heading, toList_line]
    simp only [List.append_assoc, List.cons_append, List.nil_append]
    rw [selectors_append h.areRows]
    simp [andThen, expect]
  have hBlock : block (' ' :: (b.declarations.flatMap entryChars ++ '\x7d' :: more)) =
      ⟨⟨b.declarations⟩, [], '\x7d' :: more⟩ := by
    rw [block, skipBlank_of_isBlank (by decide), declarations_entries h.entries,
      OrderedMap.foldl_insert_of_nodup h.distinct]
  rw [rule_eq, hHeading]
  dsimp only
  rw [hBlock]
  simp [closed, andThen, expect, plainRules, Function.comp_def]

theorem skipBlank_line (h : b.IsPrintable) (more : List Char) :
    skipBlank (b.line.toList ++ more) = b.line.toList ++ more := by
  rw [b.toList_line, List.append_assoc]
  exact skipBlank_of_stands (stands_rowsChars h.areRows) _

theorem readRules_line (h : b.IsPrintable) (s : Stylesheet) (more : List Char) :
    Stylesheet.readRules s (skipBlank (b.line.toList ++ more)) =
      Stylesheet.readRules ⟨s.rules ++ b.plainRules, s.findings⟩ (skipBlank more) := by
  have hRule := h.rule_line more
  obtain ⟨c, cs, hText⟩ := List.exists_cons_of_ne_nil (l := b.line.toList ++ more) (by simp [toList_line])
  rw [h.skipBlank_line]
  rw [hText] at hRule ⊢
  rw [Stylesheet.readRules_ok (congrArg RuleReading.outcome hRule), hRule, List.append_nil]

theorem view_plainRules (h : b.IsPrintable) :
    (b.plainRules.map fun r => (r.selector.words, r.selector.priority, r.declarations.entries)) =
      b.selectors.map fun row => (row, row.length, b.declarations) := by
  rw [plainRules, List.map_map]
  refine List.map_congr_left fun row hRow => ?_
  obtain ⟨hNonempty, hWords⟩ := h.rows row hRow
  have hRow : (selectorOf row).words = row := by
    rw [Selector.words_selectorOf hNonempty]
    rw [List.map_congr_left fun w hw => (hWords w hw).folded, List.map_id']
  rw [Function.comp_apply, Selector.priority_eq, hRow]

end IsPrintable

end SheetBlock

namespace Stylesheet

open SheetBlock

theorem skipBlank_gap {gap : List Char} (h : ∀ c ∈ gap, Text.isBlank c = true) (more : List Char) :
    skipBlank (gap ++ more) = skipBlank more := by
  induction gap with
  | nil => rfl
  | cons c cs ih =>
    obtain ⟨hBlank, hOthers⟩ := List.forall_mem_cons.mp h
    rw [List.cons_append, skipBlank_of_isBlank hBlank, ih hOthers]

theorem readRules_lines {gap : String} (hGap : ∀ c ∈ gap.toList, Text.isBlank c = true) {bs : List SheetBlock}
    (h : ∀ b ∈ bs, b.IsPrintable) (s : Stylesheet) :
    readRules s (skipBlank (gap.intercalate (bs.map line)).toList) =
      ⟨s.rules ++ bs.flatMap plainRules, s.findings⟩ := by
  induction bs generalizing s with
  | nil =>
    have hNothing : (gap.intercalate ([].map line)).toList = [] := by simp
    rw [hNothing, skipBlank_nil, readRules_nil, List.flatMap_nil, List.append_nil]
  | cons b bs ih =>
    obtain ⟨hBlock, hOthers⟩ := List.forall_mem_cons.mp h
    obtain ⟨more, hText, hMore⟩ : ∃ more, (gap.intercalate ((b :: bs).map line)).toList = b.line.toList ++ more ∧
        skipBlank more = skipBlank (gap.intercalate (bs.map line)).toList := by
      cases bs with
      | nil => exact ⟨[], by simp, by simp⟩
      | cons b' bs =>
        refine ⟨gap.toList ++ (gap.intercalate ((b' :: bs).map line)).toList, ?_, skipBlank_gap hGap _⟩
        rw [List.map_cons, List.map_cons, String.intercalate_cons_cons]
        simp only [String.toList_append, List.append_assoc]
    rw [hText, hBlock.readRules_line, hMore, ih hOthers, List.flatMap_cons, List.append_assoc]

/-- The rules of a sheet that is printed, with blanks between them, are read with nothing stepped over: for each
selector one rule, with the tags of the selector, their number as its priority, and the declarations in order. -/
theorem parse_lines (gap : String) (blocks : List SheetBlock) (hGap : ∀ c ∈ gap.toList, Text.isBlank c = true)
    (h : ∀ b ∈ blocks, b.IsPrintable) :
    ((parse (gap.intercalate (blocks.map line))).1.map fun r =>
        (r.selector.words, r.selector.priority, r.declarations.entries)) =
      (blocks.flatMap fun b => b.selectors.map fun row => (row, row.length, b.declarations)) ∧
    (parse (gap.intercalate (blocks.map line))).2 = [] := by
  have hRead := readRules_lines hGap h {}
  rw [← read] at hRead
  rw [parse, hRead]
  refine ⟨?_, rfl⟩
  rw [List.nil_append, List.map_flatMap]
  exact List.flatMap_congr fun b hb => (h b hb).view_plainRules

/-- Values that hold braces, colons and a comment, a row of tags, and a block that declares nothing. -/
def printedSheet : List SheetBlock := [
  ⟨[["ul", "#main", "li"], ["p.note"]], [("color", "a: \x7b b /* c */"), ("--x", "/ 2"), ("50%", "\"")]⟩,
  ⟨[["é-1"]], []⟩,
  ⟨[["p.note"]], [("color", "é")]⟩]

theorem parse_lines_printedSheet :
    (∀ c ∈ "\n  ".toList, Text.isBlank c = true) ∧ (∀ b ∈ printedSheet, b.IsPrintable) ∧
    ((parse ("\n  ".intercalate (printedSheet.map line))).1.map fun r =>
        (r.selector.words, r.selector.priority, r.declarations.entries)) =
      [(["ul", "#main", "li"], 3, [("color", "a: \x7b b /* c */"), ("--x", "/ 2"), ("50%", "\"")]),
        (["p.note"], 1, [("color", "a: \x7b b /* c */"), ("--x", "/ 2"), ("50%", "\"")]),
        (["é-1"], 1, []), (["p.note"], 1, [("color", "é")])] ∧
    (parse ("\n  ".intercalate (printedSheet.map line))).2 = [] := by
  have hGap : ∀ c ∈ "\n  ".toList, Text.isBlank c = true := List.all_eq_true.mp (by decide)
  have hBlocks : ∀ b ∈ printedSheet, b.IsPrintable := by decide +kernel
  exact ⟨hGap, hBlocks, parse_lines "\n  " printedSheet hGap hBlocks⟩

end Stylesheet

end PageRender
