import PageRender.Proofs.Sheet.Seams
import PageRender.Sheet.Default

/-! # Blocks that are written are read back

The text of a block is read as the rules of its selectors.
-/

namespace PageRender

open Sheet

namespace Sheet

/-- Neither a blank nor the beginning of a comment comes first. -/
def stands : List Char → Bool
  | [] => false
  | c :: _ => !Text.isBlank c && c != '/'

def isWord (s : String) : Bool :=
  stands s.toList && s.toList.all isWordChar

def isValue (s : String) : Bool :=
  stands s.toList && s.toList.all (!endsValue ·) && Text.trim s.toList == s.toList

theorem skipBlank_of_stands {cs : List Char} (h : stands cs = true) (more : List Char) :
    skipBlank (cs ++ more) = cs ++ more := by
  cases cs with
  | nil => cases h
  | cons c cs =>
    simp only [stands, Bool.and_eq_true, Bool.not_eq_true', bne_iff_ne] at h
    rw [List.cons_append, skipBlank, if_neg (by simp [h.1]), if_neg (by simp [h.2])]

theorem skipBlank_mark {c : Char} (h : stands [c] = true) (cs : List Char) : skipBlank (c :: cs) = c :: cs :=
  skipBlank_of_stands h cs

theorem exists_of_isWord {w : String} (h : isWord w = true) :
    ∃ c cs, w.toList = c :: cs ∧ isWordChar c = true ∧ ∀ d ∈ cs, isWordChar d = true := by
  obtain ⟨hStands, hChars⟩ := Bool.and_eq_true_iff.mp h
  have hAll : ∀ d ∈ w.toList, isWordChar d = true := List.all_eq_true.mp hChars
  cases hText : w.toList with
  | nil =>
    rw [hText] at hStands
    cases hStands
  | cons c cs =>
    rw [hText] at hAll
    exact ⟨c, cs, rfl, List.forall_mem_cons.mp hAll⟩

theorem word_append {w : String} (h : isWord w = true) {c : Char} (hEnd : isWordChar c = false)
    (more : List Char) : word (w.toList ++ c :: more) = .ok (Text.foldCase w, c :: more) := by
  have hWord : w = String.ofList w.toList := String.ofList_toList.symm
  obtain ⟨d, ds, hText, hFirst, hOthers⟩ := exists_of_isWord h
  rw [hText] at hWord
  rw [hText, List.cons_append, word, if_pos hFirst, List.takeWhile_append_of_pos hOthers,
    List.dropWhile_append_of_pos hOthers, List.takeWhile_cons_of_neg (by simp [hEnd]),
    List.dropWhile_cons_of_neg (by simp [hEnd]), List.append_nil, ← hWord]

/-- A value that is read as it stands before a semicolon. -/
structure IsPlainValue (v : String) : Prop where
  nonempty : v ≠ ""
  inside : ∀ c ∈ v.toList, endsValue c = false
  trimmed : Text.trimmed v = v
  noComment : ¬ ['/', '*'] <+: v.toList

instance : DecidablePred IsPlainValue := fun v =>
  decidable_of_iff (v ≠ "" ∧ (v.toList.all fun c => !endsValue c) = true ∧ Text.trimmed v = v ∧
      ¬['/', '*'] <+: v.toList) <| by
    rw [List.all_eq_true]
    constructor
    · rintro ⟨hNonempty, hInside, hTrimmed, hComment⟩
      exact ⟨hNonempty, fun c hc => by simpa using hInside c hc, hTrimmed, hComment⟩
    · intro h
      exact ⟨h.nonempty, fun c hc => by simpa using h.inside c hc, h.trimmed, h.noComment⟩

theorem length_trim_le (cs : List Char) : (Text.trim cs).length ≤ (Text.trimStart cs).length := by
  have hLength : (Text.trimStart cs).reverse.length = (Text.trimStart cs).length := List.length_reverse
  rw [Text.trim, List.length_reverse, Text.trimStart, ← hLength]
  exact length_dropWhile_le _ _

namespace IsPlainValue

variable {v : String}

theorem trim_eq (h : IsPlainValue v) : Text.trim v.toList = v.toList := by
  have hTrimmed := congrArg String.toList h.trimmed
  rwa [Text.trimmed, String.toList_ofList] at hTrimmed

theorem exists_cons (h : IsPlainValue v) : ∃ c cs, v.toList = c :: cs ∧ Text.isBlank c = false := by
  cases hText : v.toList with
  | nil => exact absurd (String.toList_eq_nil_iff.mp hText) h.nonempty
  | cons c cs =>
    refine ⟨c, cs, rfl, Bool.eq_false_iff.mpr fun hBlank => ?_⟩
    have hShorter := length_trim_le v.toList
    have hDrop := length_dropWhile_le Text.isBlank cs
    rw [h.trim_eq, hText, Text.trimStart, List.dropWhile_cons_of_pos hBlank, List.length_cons] at hShorter
    omega

theorem of_isValue (h : isValue v = true) : IsPlainValue v := by
  simp only [isValue, Bool.and_eq_true, beq_iff_eq] at h
  obtain ⟨⟨hStands, hChars⟩, hTrim⟩ := h
  refine ⟨?_, ?_, ?_, ?_⟩
  · rintro rfl
    cases hStands
  · intro c hc
    simpa using List.all_eq_true.mp hChars c hc
  · rw [Text.trimmed, hTrim, String.ofList_toList]
  · rintro ⟨rest, hText⟩
    rw [← hText] at hStands
    cases hStands

/-- No blank and no comment stands in front of the value. -/
theorem skipBlank_append (h : IsPlainValue v) (more : List Char) :
    skipBlank (v.toList ++ ';' :: more) = v.toList ++ ';' :: more := by
  obtain ⟨c, cs, hText, hVisible⟩ := h.exists_cons
  have hComment : ¬(c == '/' && (cs ++ ';' :: more).head? == some '*') = true := by
    intro hBegins
    rw [Bool.and_eq_true, beq_iff_eq, beq_iff_eq] at hBegins
    obtain ⟨rfl, hStar⟩ := hBegins
    cases cs with
    | nil => simp at hStar
    | cons d cs =>
      obtain rfl : d = '*' := by simpa using hStar
      exact h.noComment ⟨cs, by rw [hText]; rfl⟩
  rw [hText, List.cons_append, skipBlank, if_neg (by simp [hVisible]), if_neg hComment]

theorem value_append (h : IsPlainValue v) (more : List Char) :
    value (v.toList ++ ';' :: more) = .ok (v, ';' :: more) := by
  have hAll : ∀ c ∈ v.toList, (!endsValue c) = true := fun c hc => by rw [h.inside c hc]; rfl
  obtain ⟨c, cs, hText, -⟩ := h.exists_cons
  have hNonempty : v.toList.isEmpty = false := by rw [hText]; rfl
  unfold value
  rw [List.takeWhile_append_of_pos hAll, List.takeWhile_cons_of_neg (by decide), List.append_nil,
    List.dropWhile_append_of_pos hAll, List.dropWhile_cons_of_neg (by decide), h.trim_eq]
  dsimp only
  rw [hNonempty, String.ofList_toList]
  rfl

end IsPlainValue

/-- The characters of a declaration on a line of its own. -/
def declarationChars (p : String × String) : List Char :=
  ' ' :: ' ' :: (p.1.toList ++ ':' :: ' ' :: (p.2.toList ++ [';', '\n']))

theorem declaration_append {name text : String} (hName : isWord name = true) (hText : IsPlainValue text)
    (more : List Char) : declaration (name.toList ++ ':' :: ' ' :: (text.toList ++ ';' :: more)) =
      .ok ((Text.foldCase name, text), ';' :: more) := by
  rw [declaration_eq, word_append hName (by decide)]
  simp only [andThen, skipBlank_mark (show stands [':'] = true by decide), expect, beq_self_eq_true, if_true]
  rw [skipBlank_of_isBlank (by decide), hText.skipBlank_append, hText.value_append]

theorem declared_append {ps : List (String × String)}
    (h : ∀ p ∈ ps, isWord p.1 = true ∧ isValue p.2 = true) (d : Declarations) (more : List Char) :
    declared d (skipBlank (ps.flatMap declarationChars ++ '\x7d' :: more)) =
      .ok (ps.foldl (fun d p => d.insert (Text.foldCase p.1) p.2) d, '\x7d' :: more) := by
  induction ps generalizing d with
  | nil =>
    rw [List.flatMap_nil, List.nil_append, skipBlank_mark (by decide), declared, declarations_brace]
    rfl
  | cons p ps ih =>
    obtain ⟨⟨hName, hText⟩, hOthers⟩ := List.forall_mem_cons.mp h
    have hStands : stands p.1.toList = true := (Bool.and_eq_true_iff.mp hName).1
    have hRead := declaration_append hName (.of_isValue hText)
      ('\n' :: (ps.flatMap declarationChars ++ '\x7d' :: more))
    simp only [List.flatMap_cons, declarationChars, List.cons_append, List.append_assoc, List.nil_append]
    rw [skipBlank_of_isBlank (by decide), skipBlank_of_isBlank (by decide), skipBlank_of_stands hStands]
    obtain ⟨c, cs, hChars, hFirst, -⟩ := exists_of_isWord hName
    have hBrace : ¬(c == '\x7d') = true := by
      rw [beq_iff_eq]
      rintro rfl
      exact absurd hFirst (by decide)
    have hSemicolon : ∀ cs, pastMark (skipBlank (';' :: '\n' :: cs)) = skipBlank cs := by
      intro cs
      rw [skipBlank_mark (by decide), pastMark, skipBlank_of_isBlank (by decide)]
    rw [hChars, List.cons_append] at hRead ⊢
    rw [declared_cons hBrace, hRead, recovering, resumed, hSemicolon, List.foldl_cons]
    exact ih hOthers _

section

variable {m : Char} {after more : List Char}

/-- A row of tags ends at a brace or a comma, which blanks may stand before. -/
structure EndsRow (m : Char) (after more : List Char) : Prop where
  blank : skipBlank after = m :: more
  mark : (m == '\x7b' || m == ',') = true
  edge : ∀ c ∈ after.head?, isWordChar c = false

theorem EndsRow.exists_tail (h : EndsRow m after more) (ws : List String) :
    ∃ c cs, ws.flatMap (fun w => ' ' :: w.toList) ++ after = c :: cs ∧ isWordChar c = false := by
  cases ws with
  | nil =>
    cases after with
    | nil =>
      have hBlank := h.blank
      rw [skipBlank_nil] at hBlank
      cases hBlank
    | cons c cs => exact ⟨c, cs, rfl, h.edge c rfl⟩
  | cons w ws => exact ⟨' ', _, rfl, by decide⟩

theorem selectorWords_append {ws : List String} (h : ∀ w ∈ ws, isWord w = true) (s : Selector)
    (hEnds : EndsRow m after more) :
    selectorWords s (skipBlank (ws.flatMap (fun w => ' ' :: w.toList) ++ after)) =
      .ok (ws.foldl (fun s w => s.within (Text.foldCase w)) s, m :: more) := by
  induction ws generalizing s with
  | nil =>
    rw [List.flatMap_nil, List.nil_append, hEnds.blank, selectorWords_mark hEnds.mark]
    rfl
  | cons w ws ih =>
    obtain ⟨hWord, hOthers⟩ := List.forall_mem_cons.mp h
    obtain ⟨t, ts, hTail, hEdge⟩ := hEnds.exists_tail ws
    obtain ⟨c, cs, hChars, hFirst, -⟩ := exists_of_isWord hWord
    have hMark : ¬(c == '\x7b' || c == ',') = true := by
      rw [Bool.or_eq_true, beq_iff_eq, beq_iff_eq]
      rintro (rfl | rfl)
      · exact absurd hFirst (by decide)
      · exact absurd hFirst (by decide)
    have hStands : stands w.toList = true := (Bool.and_eq_true_iff.mp hWord).1
    have hRead := word_append hWord hEdge ts
    have hNext := ih hOthers (s.within (Text.foldCase w))
    rw [hTail] at hNext
    rw [List.flatMap_cons, List.append_assoc, List.cons_append, skipBlank_of_isBlank (by decide), hTail,
      skipBlank_of_stands hStands]
    rw [hChars, List.cons_append] at hRead ⊢
    rw [selectorWords_cons hMark, hRead]
    exact hNext

/-- The selector of a row of tags. -/
def selectorOf : List String → Selector
  | [] => .tag ""
  | w :: ws => ws.foldl (fun s v => s.within (Text.foldCase v)) (.tag (Text.foldCase w))

theorem toList_row (w : String) (ws : List String) :
    (" ".intercalate (w :: ws)).toList = w.toList ++ ws.flatMap fun v => ' ' :: v.toList := by
  induction ws generalizing w with
  | nil => simp
  | cons v ws ih => simp [ih]

theorem selector_append {row : List String} (hRow : row ≠ []) (h : ∀ w ∈ row, isWord w = true)
    (hEnds : EndsRow m after more) :
    selector ((" ".intercalate row).toList ++ after) = .ok (selectorOf row, m :: more) := by
  cases row with
  | nil => exact absurd rfl hRow
  | cons w ws =>
    obtain ⟨hWord, hOthers⟩ := List.forall_mem_cons.mp h
    obtain ⟨t, ts, hTail, hEdge⟩ := hEnds.exists_tail ws
    have hNext := selectorWords_append hOthers (.tag (Text.foldCase w)) hEnds
    rw [hTail] at hNext
    rw [toList_row, List.append_assoc, hTail, selector_eq, word_append hWord hEdge]
    exact hNext

/-- The characters of rows of tags. -/
def rowsChars (rows : List (List String)) : List Char :=
  (", ".intercalate (rows.map (" ".intercalate ·))).toList

theorem rowsChars_cons_cons (row row' : List String) (rows : List (List String)) :
    rowsChars (row :: row' :: rows) =
      (" ".intercalate row).toList ++ ',' :: ' ' :: rowsChars (row' :: rows) := by
  simp [rowsChars]

/-- Rows of words, each of at least one. -/
def AreRows (rows : List (List String)) : Prop :=
  rows ≠ [] ∧ ∀ row ∈ rows, row ≠ [] ∧ ∀ w ∈ row, isWord w = true

instance : DecidablePred AreRows := fun _ => inferInstanceAs (Decidable (_ ∧ _))

theorem stands_rowsChars {rows : List (List String)} (h : AreRows rows) : stands (rowsChars rows) = true := by
  obtain ⟨hRows, hWords⟩ := h
  have hRow : ∀ row ∈ rows, ∀ cs, stands ((" ".intercalate row).toList ++ cs) = true := by
    intro row hMem cs
    obtain ⟨hNonempty, hRow⟩ := hWords row hMem
    cases row with
    | nil => exact absurd rfl hNonempty
    | cons w ws =>
      have hWord := hRow w (.head ws)
      have hStands : stands w.toList = true := (Bool.and_eq_true_iff.mp hWord).1
      obtain ⟨c, ds, hChars, -⟩ := exists_of_isWord hWord
      rw [hChars] at hStands
      rw [toList_row, hChars]
      exact hStands
  match rows with
  | [] => exact absurd rfl hRows
  | [row] => simpa [rowsChars] using hRow row (.head _) []
  | row :: row' :: rows =>
    rw [rowsChars_cons_cons]
    exact hRow row (.head _) _

theorem selectors_append {rows : List (List String)} (h : AreRows rows) (taken : List Selector)
    (cs : List Char) : selectors taken (rowsChars rows ++ ' ' :: '\x7b' :: cs) =
      .ok (taken ++ rows.map selectorOf, '\x7b' :: cs) := by
  have hBrace : EndsRow '\x7b' (' ' :: '\x7b' :: cs) cs := by
    refine ⟨?_, rfl, by simp; decide⟩
    rw [skipBlank_of_isBlank (by decide), skipBlank_mark (by decide)]
  induction rows generalizing taken with
  | nil => exact absurd rfl h.1
  | cons row rows ih =>
    obtain ⟨⟨hRow, hWords⟩, hOthers⟩ := List.forall_mem_cons.mp h.2
    cases rows with
    | nil =>
      rw [rowsChars, List.map_singleton, String.intercalate_singleton, selectors_eq,
        selector_append hRow hWords hBrace]
      rfl
    | cons row' rows =>
      have hRest : AreRows (row' :: rows) := ⟨List.cons_ne_nil _ _, hOthers⟩
      have hComma : EndsRow ',' (',' :: ' ' :: (rowsChars (row' :: rows) ++ ' ' :: '\x7b' :: cs))
          (' ' :: (rowsChars (row' :: rows) ++ ' ' :: '\x7b' :: cs)) :=
        ⟨skipBlank_mark (by decide) _, rfl, by simp; decide⟩
      rw [rowsChars_cons_cons, List.append_assoc, List.cons_append, List.cons_append, selectors_eq,
        selector_append hRow hWords hComma]
      rw [andThen, moreSelectors, behindMark_self, skipBlank_of_isBlank (by decide),
        skipBlank_of_stands (stands_rowsChars hRest), ih hRest, List.append_assoc]
      rfl

end

end Sheet

namespace SheetBlock

/-- The rules that a block stands for. -/
def rules (b : SheetBlock) : List Rule :=
  b.selectors.map fun row =>
    ⟨selectorOf row, b.declarations.foldl (fun d p => d.insert (Text.foldCase p.1) p.2) .empty⟩

/-- Selectors of words, and declarations that fit on their lines. -/
def IsPlain (b : SheetBlock) : Prop :=
  AreRows b.selectors ∧ ∀ p ∈ b.declarations, isWord p.1 = true ∧ isValue p.2 = true

instance : DecidablePred IsPlain := fun _ => inferInstanceAs (Decidable (_ ∧ _))

theorem toList_text (b : SheetBlock) : b.text.toList =
    rowsChars b.selectors ++ ' ' :: '\x7b' :: '\n' ::
      (b.declarations.flatMap declarationChars ++ ['\x7d', '\n']) := by
  simp [text, rowsChars, List.flatMap_map, Function.comp_def]
  rfl

theorem outcome_text {b : SheetBlock} (h : b.IsPlain) (more : List Char) :
    (rule (b.text.toList ++ more)).outcome = .ok (b.rules, '\n' :: more) := by
  rw [outcome_eq, opened, toList_text]
  simp only [List.append_assoc, List.cons_append, List.nil_append]
  rw [selectors_append h.1]
  simp only [andThen, expect, beq_self_eq_true, if_true]
  rw [skipBlank_of_isBlank (by decide), declared_append h.2]
  simp [closed, andThen, expect, rules]

theorem isPlain_of_mem_defaultBlocks : ∀ b ∈ defaultBlocks, b.IsPlain := by
  decide +kernel

end SheetBlock

end PageRender
