import Mathlib.Data.List.TakeWhile
import PageRender.Proofs.Sheet.Written

/-! # Rows of tags

A selector is written as a row of words, and a list of selectors as rows with commas between them. Blanks and
comments may stand between the words, and a row ends at a brace or a comma, or with the text. What is read as
selectors is exactly what is written so.
-/

namespace PageRender.Sheet

/-- A text begins with a word, and no longer one; the text behind it. -/
structure BeginsWith (w : String) (cs after : List Char) : Prop where
  text : cs = w.toList ++ after
  nonempty : w.toList ≠ []
  chars : ∀ c ∈ w.toList, isWordChar c = true
  edge : ∀ c ∈ after.head?, isWordChar c = false

theorem takeWhile_of_head? {p : Char → Bool} {cs : List Char} (h : ∀ c ∈ cs.head?, p c = false) :
    cs.takeWhile p = [] ∧ cs.dropWhile p = cs := by
  cases cs with
  | nil => exact ⟨rfl, rfl⟩
  | cons c cs =>
    have hFirst : ¬ p c = true := by simpa using h c rfl
    exact ⟨List.takeWhile_cons_of_neg hFirst, List.dropWhile_cons_of_neg hFirst⟩

theorem forall_head?_cons {p : Char → Bool} {c : Char} (h : p c = false) (cs : List Char) :
    ∀ d ∈ (c :: cs).head?, p d = false := by
  rintro _ ⟨⟩
  exact h

theorem head?_dropWhile {p : Char → Bool} (cs : List Char) : ∀ c ∈ (cs.dropWhile p).head?, p c = false := by
  intro c hc
  have hNot := List.head?_dropWhile_not p cs
  rw [Option.mem_def.mp hc] at hNot
  exact hNot

theorem word_eq_ok_iff {cs after : List Char} {name : String} :
    word cs = .ok (name, after) ↔ ∃ w, BeginsWith w cs after ∧ name = Text.foldCase w := by
  constructor
  · intro h
    unfold word at h
    split at h
    · cases h
    · rename_i c rest
      split at h
      · rename_i hFirst
        cases h
        refine ⟨String.ofList (c :: rest.takeWhile isWordChar), ⟨?_, ?_, ?_, head?_dropWhile rest⟩, rfl⟩
        · rw [String.toList_ofList, List.cons_append, List.takeWhile_append_dropWhile]
        · rw [String.toList_ofList]
          exact List.cons_ne_nil _ _
        · rw [String.toList_ofList, List.forall_mem_cons]
          exact ⟨hFirst, fun d hd => List.mem_takeWhile_imp hd⟩
      · cases h
  · rintro ⟨w, ⟨rfl, hNonempty, hChars, hEdge⟩, rfl⟩
    have hWord : w = String.ofList w.toList := String.ofList_toList.symm
    obtain ⟨c, cs, hText⟩ := List.exists_cons_of_ne_nil hNonempty
    rw [hText, List.forall_mem_cons] at hChars
    obtain ⟨hTake, hDrop⟩ := takeWhile_of_head? hEdge
    rw [hText] at hWord ⊢
    rw [List.cons_append, word, if_pos hChars.1, List.takeWhile_append_of_pos hChars.2,
      List.dropWhile_append_of_pos hChars.2, hTake, hDrop, List.append_nil, ← hWord]

/-- A text begins with a row of words; the text from the mark at which the row ends. -/
inductive Row : List String → List Char → List Char → Prop
  | done {cs : List Char} (hEnd : ∀ c ∈ cs.head?, c = '\x7b' ∨ c = ',') : Row [] cs cs
  | word {w : String} {ws : List String} {cs after rest : List Char} (hWord : BeginsWith w cs after)
    (hMore : Row ws (skipBlank after) rest) : Row (w :: ws) cs rest

theorem BeginsWith.exists_cons {w : String} {cs after : List Char} (h : BeginsWith w cs after) :
    ∃ c rest, cs = c :: rest ∧ isWordChar c = true := by
  obtain ⟨c, rest, hText⟩ := List.exists_cons_of_ne_nil h.nonempty
  refine ⟨c, rest ++ after, ?_, h.chars c (hText ▸ List.mem_cons_self)⟩
  rw [h.text, hText, List.cons_append]

theorem not_isMark_of_isWordChar {c : Char} (h : isWordChar c = true) : ¬(c == '\x7b' || c == ',') = true := by
  rw [Bool.or_eq_true, beq_iff_eq, beq_iff_eq]
  rintro (rfl | rfl)
  · exact absurd h (by decide)
  · exact absurd h (by decide)

theorem selectorWords_eq_ok_iff {s t : Selector} {cs rest : List Char} :
    selectorWords s cs = .ok (t, rest) ↔
      ∃ ws, Row ws cs rest ∧ t = ws.foldl (fun s w => s.within (Text.foldCase w)) s := by
  constructor
  · intro h
    fun_induction selectorWords s cs with
    | case1 s =>
      cases h
      exact ⟨[], .done (by simp), rfl⟩
    | case2 s c cs hMark =>
      cases h
      exact ⟨[], .done (by simpa using hMark), rfl⟩
    | case3 s c cs _ name after hRead ih =>
      obtain ⟨w, hWord, rfl⟩ := word_eq_ok_iff.mp hRead
      obtain ⟨ws, hRow, rfl⟩ := ih h
      exact ⟨w :: ws, .word hWord hRow, rfl⟩
    | case4 => cases h
  · rintro ⟨ws, hRow, rfl⟩
    induction hRow generalizing s with
    | @done cs hEnd =>
      cases cs with
      | nil => rw [selectorWords, List.foldl_nil]
      | cons c cs =>
        rw [selectorWords_mark (by simpa using hEnd c rfl)]
        rfl
    | @word w ws cs after rest hWord _ ih =>
      obtain ⟨c, ds, rfl, hFirst⟩ := hWord.exists_cons
      rw [selectorWords_cons (not_isMark_of_isWordChar hFirst), word_eq_ok_iff.mpr ⟨w, hWord, rfl⟩]
      exact ih

theorem selector_eq_ok_iff {s : Selector} {cs rest : List Char} :
    selector cs = .ok (s, rest) ↔ ∃ w ws, Row (w :: ws) cs rest ∧ s = selectorOf (w :: ws) := by
  rw [selector_eq]
  constructor
  · intro h
    cases hRead : word cs with
    | error f =>
      rw [hRead] at h
      cases h
    | ok p =>
      obtain ⟨name, after⟩ := p
      obtain ⟨w, hWord, rfl⟩ := word_eq_ok_iff.mp hRead
      rw [hRead] at h
      obtain ⟨ws, hRow, rfl⟩ := selectorWords_eq_ok_iff.mp h
      exact ⟨w, ws, .word hWord hRow, rfl⟩
  · rintro ⟨w, ws, ⟨⟩ | ⟨hWord, hRow⟩, rfl⟩
    rw [word_eq_ok_iff.mpr ⟨w, hWord, rfl⟩]
    exact selectorWords_eq_ok_iff.mpr ⟨ws, hRow, rfl⟩

theorem Row.selector_eq {ws : List String} {cs rest : List Char} (hRow : Row ws cs rest) (h : ws ≠ []) :
    selector cs = .ok (selectorOf ws, rest) := by
  cases ws with
  | nil => exact absurd rfl h
  | cons w ws => exact selector_eq_ok_iff.mpr ⟨w, ws, hRow, rfl⟩

/-- A text begins with rows of words, with commas between them; the text behind them. -/
inductive Rows : List (List String) → List Char → List Char → Prop
  | last {w : String} {ws : List String} {cs rest : List Char} (hRow : Row (w :: ws) cs rest)
    (hEnd : ∀ next, rest ≠ ',' :: next) : Rows [w :: ws] cs rest
  | more {w : String} {ws : List String} {rows : List (List String)} {cs next rest : List Char}
    (hRow : Row (w :: ws) cs (',' :: next)) (hMore : Rows rows (skipBlank next) rest) :
    Rows ((w :: ws) :: rows) cs rest

theorem selectors_eq_ok_iff {taken ss : List Selector} {cs rest : List Char} :
    selectors taken cs = .ok (ss, rest) ↔ ∃ rows, Rows rows cs rest ∧ ss = taken ++ rows.map selectorOf := by
  constructor
  · intro h
    fun_induction selectors taken cs with
    | case1 taken cs s next hRead ih =>
      obtain ⟨w, ws, hRow, rfl⟩ := selector_eq_ok_iff.mp hRead
      obtain ⟨rows, hRows, rfl⟩ := ih h
      exact ⟨(w :: ws) :: rows, .more hRow hRows, by rw [List.map_cons, List.append_assoc]; rfl⟩
    | case2 taken cs s rest hEnd hRead =>
      obtain ⟨w, ws, hRow, rfl⟩ := selector_eq_ok_iff.mp hRead
      cases h
      exact ⟨[w :: ws], .last hRow hEnd, rfl⟩
    | case3 => cases h
  · rintro ⟨rows, hRows, rfl⟩
    induction hRows generalizing taken with
    | last hRow hEnd =>
      rw [selectors_eq, selector_eq_ok_iff.mpr ⟨_, _, hRow, rfl⟩, andThen, moreSelectors, behindMark_of_ne hEnd]
      rfl
    | more hRow _ ih =>
      rw [selectors_eq, selector_eq_ok_iff.mpr ⟨_, _, hRow, rfl⟩, andThen, moreSelectors, behindMark_self, ih,
        List.append_assoc]
      rfl

end PageRender.Sheet
