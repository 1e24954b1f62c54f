import Mathlib.Data.List.Basic
import PageRender.Proofs.Sheet.Positions
import PageRender.Proofs.Sheet.Pieces

/-! # Rules that are skipped

Where no selectors stand before a block, they are not read past the brace that opens the block, and the text is
read again from behind the next closing brace. That is the brace which closes the block as long as no block stands
inside it; what stands behind an inner block is read as rules.
-/

namespace PageRender

namespace Sheet

variable {α β : Type}

/-- A text before a block, without braces and comments. -/
structure IsHeading (cs : List Char) : Prop where
  braces : ∀ c ∈ cs, c ≠ '\x7b' ∧ c ≠ '\x7d'
  plain : ¬ ['/', '*'] <:+: cs

theorem IsHeading.of_suffix {cs ds : List Char} (h : IsHeading cs) (hSuffix : ds <:+ cs) : IsHeading ds :=
  ⟨fun c hc => h.braces c (hSuffix.subset hc), plain_of_suffix h.plain hSuffix⟩

/-! ## Selectors before a brace -/

theorem blankEnds_of_plain {cs : List Char} (h : ¬ ['/', '*'] <:+: cs) : blankEnds cs = true := by
  fun_induction blankEnds cs with
  | case1 => rfl
  | case2 c cs _ ih => exact ih (plain_of_suffix h (List.suffix_cons c cs))
  | case3 c cs _ hComment =>
    obtain ⟨ds, rfl, rfl⟩ := exists_of_beginsComment hComment
    exact absurd (List.prefix_append ['/', '*'] ds).isInfix h
  | case4 => rfl

theorem skipBlank_append_brace {cs : List Char} (h : ¬ ['/', '*'] <:+: cs) (more : List Char) :
    skipBlank (cs ++ '\x7b' :: more) = skipBlank cs ++ '\x7b' :: more := by
  rw [skipBlank_append_of_head? (by simp) (blankEnds_of_plain h), skipBlank_mark (by decide)]
  split
  · next hNil => rw [hNil, List.nil_append]
  · rfl

theorem head?_append_brace {p : Char → Prop} {cs : List Char} (more : List Char)
    (h : ∀ c ∈ (cs ++ '\x7b' :: more).head?, p c) : ∀ c ∈ cs.head?, p c := by
  cases cs with
  | nil =>
    intro c hc
    cases hc
  | cons d ds => exact h

/-- A word before a brace stands before it in the text alone. -/
theorem BeginsWith.before_brace {w : String} {cs more after : List Char}
    (h : BeginsWith w (cs ++ '\x7b' :: more) after) :
    ∃ rest, after = rest ++ '\x7b' :: more ∧ rest <:+ cs ∧ BeginsWith w cs rest := by
  obtain ⟨hText, hNonempty, hChars, hEdge⟩ := h
  obtain ⟨rest, hWord, hAfter⟩ | ⟨part, hWord, hBrace⟩ := List.append_eq_append_iff.mp hText
  · cases rest with
    | nil =>
      rw [List.append_nil] at hWord
      exact ⟨[], hAfter.symm, List.nil_suffix, by rw [← hWord, List.append_nil], hNonempty, hChars, by simp⟩
    | cons c rest =>
      have hBrace : c = '\x7b' := (List.cons.inj hAfter).1.symm
      have hChar := hChars c (by rw [hWord]; simp)
      rw [hBrace] at hChar
      exact absurd hChar (by decide)
  · subst hWord hBrace
    exact ⟨part, rfl, List.suffix_append _ _, rfl, hNonempty, hChars, head?_append_brace more hEdge⟩

theorem Row.before_brace {ws : List String} {cs more rest : List Char} (h : IsHeading cs)
    (hRow : Row ws (cs ++ '\x7b' :: more) rest) :
    ∃ x, rest = x ++ '\x7b' :: more ∧ x <:+ cs ∧ Row ws cs x := by
  generalize hText : cs ++ '\x7b' :: more = text at hRow
  induction hRow generalizing cs with
  | done hEnd =>
    subst hText
    exact ⟨cs, rfl, List.suffix_refl cs, .done (head?_append_brace more hEnd)⟩
  | word hWord hMore ih =>
    subst hText
    obtain ⟨after, rfl, hSuffix, hBefore⟩ := hWord.before_brace
    have hAfter := h.of_suffix hSuffix
    obtain ⟨x, hRest, hEnds, hRow⟩ := ih (hAfter.of_suffix (skipBlank_suffix after))
      (skipBlank_append_brace hAfter.plain more).symm
    exact ⟨x, hRest, hEnds.trans ((skipBlank_suffix after).trans hSuffix), .word hBefore hRow⟩

theorem Row.isMark {ws : List String} {cs rest : List Char} (h : Row ws cs rest) :
    ∀ c ∈ rest.head?, c = '\x7b' ∨ c = ',' := by
  induction h with
  | done hEnd => exact hEnd
  | word _ _ ih => exact ih

/-- Rows that are read before a brace are all that stands there. -/
theorem Rows.before_brace {rows : List (List String)} {cs more rest : List Char} (h : IsHeading cs)
    (hRows : Rows rows (cs ++ '\x7b' :: more) rest) : rest = '\x7b' :: more ∧ Rows rows cs [] := by
  generalize hText : cs ++ '\x7b' :: more = text at hRows
  induction hRows generalizing cs with
  | last hRow hEnd =>
    subst hText
    obtain ⟨x, rfl, hSuffix, hBefore⟩ := hRow.before_brace h
    cases x with
    | nil => exact ⟨rfl, .last hBefore (by simp)⟩
    | cons c x =>
      rcases hBefore.isMark c rfl with rfl | rfl
      · exact absurd rfl (h.braces _ (hSuffix.subset List.mem_cons_self)).1
      · exact absurd rfl (hEnd _)
  | more hRow hMore ih =>
    subst hText
    obtain ⟨x, hComma, hSuffix, hBefore⟩ := hRow.before_brace h
    cases x with
    | nil => exact absurd (List.cons.inj hComma).1 (by decide)
    | cons c x =>
      obtain ⟨rfl, rfl⟩ := List.cons.inj hComma
      have hNext := h.of_suffix ((List.suffix_cons ',' x).trans hSuffix)
      obtain ⟨hRest, hRows⟩ := ih (hNext.of_suffix (skipBlank_suffix x))
        (skipBlank_append_brace hNext.plain more).symm
      exact ⟨hRest, .more hBefore hRows⟩

/-- A reader that does not get past the brace behind a heading. -/
def StopsBefore (more : List Char) (R : List Char → Reading α) (cs : List Char) : Prop :=
  ∃ x, x <:+ cs ∧ restOf (R (cs ++ '\x7b' :: more)) = x ++ '\x7b' :: more

section

variable {more : List Char}

theorem stopsBefore_ok (v : α) (cs : List Char) : StopsBefore more (fun cs => .ok (v, cs)) cs :=
  ⟨cs, List.suffix_refl cs, rfl⟩

theorem StopsBefore.of_eq {R S : List Char → Reading α} {cs ds : List Char}
    (h : R (cs ++ '\x7b' :: more) = S (ds ++ '\x7b' :: more)) (hSuffix : ds <:+ cs)
    (hS : StopsBefore more S ds) : StopsBefore more R cs := by
  obtain ⟨x, hx, hRest⟩ := hS
  exact ⟨x, hx.trans hSuffix, h ▸ hRest⟩

theorem StopsBefore.andThen {R : List Char → Reading α} {f : α → List Char → Reading β} {cs : List Char}
    (hR : StopsBefore more R cs)
    (hf : ∀ v x, x <:+ cs → R (cs ++ '\x7b' :: more) = .ok (v, x ++ '\x7b' :: more) →
      StopsBefore more (f v) x) : StopsBefore more (fun cs => andThen (R cs) f) cs := by
  obtain ⟨x, hx, hRest⟩ := hR
  cases hRead : R (cs ++ '\x7b' :: more) with
  | error e =>
    rw [hRead] at hRest
    exact ⟨x, hx, by dsimp only; rw [hRead]; exact hRest⟩
  | ok p =>
    obtain ⟨v, rest⟩ := p
    rw [hRead] at hRest
    replace hRest : rest = x ++ '\x7b' :: more := hRest
    subst hRest
    obtain ⟨y, hy, hEnd⟩ := hf v x hx hRead
    exact ⟨y, hy.trans hx, by dsimp only; rw [hRead]; exact hEnd⟩

theorem StopsBefore.afterBlank {R : List Char → Reading α} {cs : List Char} (h : ¬ ['/', '*'] <:+: cs)
    (hR : StopsBefore more R (skipBlank cs)) : StopsBefore more (fun cs => R (skipBlank cs)) cs :=
  .of_eq (by rw [skipBlank_append_brace h]) (skipBlank_suffix cs) hR

theorem stopsBefore_word (cs : List Char) : StopsBefore more word cs := by
  have hEdge : ∀ c ∈ ('\x7b' :: more).head?, isWordChar c = false := forall_head?_cons (by decide) more
  unfold StopsBefore
  cases cs with
  | nil =>
    obtain ⟨f, hRead, hRest⟩ := word_eq_error (takeWhile_of_head? hEdge).1
    exact ⟨[], List.suffix_refl [], by rw [List.nil_append, hRead, restOf, hRest]⟩
  | cons c cs =>
    rw [List.cons_append, word]
    split
    · refine ⟨cs.dropWhile isWordChar, (List.dropWhile_suffix _).trans (List.suffix_cons c cs), ?_⟩
      rw [restOf, dropWhile_append_of_head? hEdge]
    · exact ⟨c :: cs, List.suffix_refl _, rfl⟩

theorem stopsBefore_selectorWords {cs : List Char} (h : IsHeading cs) (s : Selector) :
    StopsBefore more (selectorWords s) cs := by
  induction hLength : cs.length using Nat.strongRecOn generalizing s cs with
  | ind n ih =>
    subst hLength
    obtain ⟨c, rest, hText⟩ := List.exists_cons_of_ne_nil (List.append_ne_nil_of_right_ne_nil cs
      (List.cons_ne_nil '\x7b' more))
    by_cases hMark : (c == '\x7b' || c == ',') = true
    · refine .of_eq ?_ (List.suffix_refl cs) (stopsBefore_ok s cs)
      rw [hText, selectorWords_mark hMark]
    · refine .of_eq (by rw [hText, selectorWords_cons hMark]) (List.suffix_refl cs)
        ((stopsBefore_word cs).andThen fun name x hx hRead => ?_)
      -- The text is shorter by the word, as what stands from the brace on is the same.
      have hShorter := length_word_lt hRead
      have hBlank := length_skipBlank_le x
      rw [List.length_append, List.length_append] at hShorter
      exact .afterBlank (h.of_suffix hx).plain
        (ih _ (by omega) ((h.of_suffix hx).of_suffix (skipBlank_suffix x)) (s.within name) rfl)

theorem stopsBefore_selector {cs : List Char} (h : IsHeading cs) : StopsBefore more selector cs := by
  rw [funext selector_eq]
  refine (stopsBefore_word cs).andThen fun name x hx _ => .afterBlank (h.of_suffix hx).plain ?_
  exact stopsBefore_selectorWords ((h.of_suffix hx).of_suffix (skipBlank_suffix x)) _

theorem stopsBefore_selectors {cs : List Char} (h : IsHeading cs) (taken : List Selector) :
    StopsBefore more (selectors taken) cs := by
  induction hLength : cs.length using Nat.strongRecOn generalizing taken cs with
  | ind n ih =>
    subst hLength
    rw [funext (selectors_eq taken)]
    refine (stopsBefore_selector h).andThen fun s x hx hRead => ?_
    by_cases hComma : ∃ next, x = ',' :: next
    · obtain ⟨next, rfl⟩ := hComma
      have hShorter := length_selector_lt hRead
      have hBlank := length_skipBlank_le next
      have hNext := h.of_suffix ((List.suffix_cons ',' next).trans hx)
      rw [List.length_append, List.length_append, List.length_cons] at hShorter
      refine .of_eq (S := fun next => selectors (taken ++ [s]) (skipBlank next))
        (behindMark_self (next ++ '\x7b' :: more)) (List.suffix_cons ',' next) ?_
      exact .afterBlank hNext.plain (ih _ (by omega) (hNext.of_suffix (skipBlank_suffix next)) _ rfl)
    · refine .of_eq (S := fun x => .ok (taken ++ [s], x)) (behindMark_of_ne ?_) (List.suffix_refl x)
        (stopsBefore_ok _ x)
      intro next hText
      cases x with
      | nil => exact absurd (List.cons.inj hText).1 (by decide)
      | cons c x => exact hComma ⟨x, by rw [(List.cons.inj hText).1]⟩

/-- Where no selectors stand before a brace, the brace is not read past. -/
theorem exists_heading_eq_error {cs : List Char} (h : IsHeading cs) (hNone : ∀ rows, ¬ Rows rows cs []) :
    ∃ f x, heading (cs ++ '\x7b' :: more) = .error f ∧ x <:+ cs ∧ f.rest = x ++ '\x7b' :: more := by
  obtain ⟨x, hx, hRest⟩ := stopsBefore_selectors h []
  rw [heading]
  cases hRead : selectors [] (cs ++ '\x7b' :: more) with
  | ok p =>
    obtain ⟨rows, hRows, -⟩ := selectors_eq_ok_iff.mp hRead
    exact absurd (hRows.before_brace h).2 (hNone rows)
  | error f =>
    rw [hRead] at hRest
    exact ⟨f, x, rfl, hx, hRest⟩

end

/-- A text that is a list of selectors. -/
def IsSelectorList (cs : List Char) : Prop :=
  ∃ rows, Rows rows (skipBlank cs) []

theorem isSelectorList_iff {cs : List Char} :
    IsSelectorList cs ↔ (selectors [] (skipBlank cs)).toOption.any (·.2.isEmpty) = true := by
  constructor
  · rintro ⟨rows, hRows⟩
    rw [selectors_eq_ok_iff.mpr ⟨rows, hRows, rfl⟩]
    rfl
  · intro h
    cases hRead : selectors [] (skipBlank cs) with
    | error f =>
      rw [hRead] at h
      cases h
    | ok p =>
      obtain ⟨ss, rest⟩ := p
      rw [hRead] at h
      obtain ⟨rows, hRows, -⟩ := selectors_eq_ok_iff.mp hRead
      replace h : rest.isEmpty = true := h
      rw [List.isEmpty_iff.mp h] at hRows
      exact ⟨rows, hRows⟩

instance (cs : List Char) : Decidable (IsSelectorList cs) :=
  decidable_of_iff _ isSelectorList_iff.symm

/-- The text behind the next closing brace. -/
def behindBrace (cs : List Char) : List Char :=
  (cs.dropWhile (· != '\x7d')).drop 1

theorem behindBrace_append {cs : List Char} (h : '\x7d' ∉ cs) (more : List Char) :
    behindBrace (cs ++ more) = behindBrace more := by
  have hInside : ∀ c ∈ cs, (c != '\x7d') = true := fun c hc => bne_iff_ne.mpr (ne_of_mem_of_not_mem hc h)
  rw [behindBrace, List.dropWhile_append_of_pos hInside, behindBrace]

theorem behindBrace_cons (more : List Char) : behindBrace ('\x7d' :: more) = more := by
  rw [behindBrace, List.dropWhile_cons_of_neg (by decide), List.drop_one, List.tail_cons]

/-- Whether a text closes as many braces as are open before it, and all that it opens itself. -/
def isBalanced : Nat → List Char → Bool
  | depth, [] => depth == 0
  | depth, c :: cs =>
    if c == '\x7b' then isBalanced (depth + 1) cs
    else if c == '\x7d' then depth != 0 && isBalanced (depth - 1) cs
    else isBalanced depth cs

end Sheet

namespace Stylesheet

open Sheet

theorem rules_of_heading_error {cs : List Char} (h : skipBlank cs ≠ []) {f : Failure}
    (hHeading : heading (skipBlank cs) = .error f) : (read cs).rules = (read (behindBrace f.rest)).rules := by
  have hRule : (rule (skipBlank cs)).outcome = .error f := by rw [rule_eq, hHeading]
  rw [rules_read h, firstRules, pastRule?, hRule, behindBrace]
  dsimp only
  cases f.rest.dropWhile (· != '\x7d') with
  | nil => rw [List.drop_nil, rules_of_blank skipBlank_nil]; rfl
  | cons c after => rfl

/-- A block without selectors before it is skipped up to the next closing brace. -/
theorem rules_of_not_isSelectorList {cs : List Char} (h : IsHeading cs) (hNone : ¬ IsSelectorList cs)
    (more : List Char) : (read (cs ++ '\x7b' :: more)).rules = (read (behindBrace more)).rules := by
  have hBlank := skipBlank_append_brace h.plain more
  obtain ⟨f, x, hHeading, hx, hRest⟩ :=
    exists_heading_eq_error (h.of_suffix (skipBlank_suffix cs)) (not_exists.mp hNone)
  have hInside : '\x7d' ∉ x ++ ['\x7b'] := by
    rw [List.mem_append, List.mem_singleton]
    rintro (hc | hc)
    · exact (h.braces _ ((hx.trans (skipBlank_suffix cs)).subset hc)).2 rfl
    · exact absurd hc (by decide)
  rw [rules_of_heading_error (by rw [hBlank]; simp) (by rw [hBlank, hHeading]), hRest, List.append_cons,
    behindBrace_append hInside]

/-- Where no list of selectors stands before a block, the rules are those of the text behind the next closing brace.
If no brace closes inside the block, that is the text behind the block. -/
theorem rules_broken_heading (sel body rest : String) (hHeading : IsHeading sel.toList)
    (hNone : ¬ IsSelectorList sel.toList) :
    (parse (sel ++ "\x7b" ++ body ++ "\x7d" ++ rest)).1 =
        (parse (String.ofList (behindBrace (body ++ "\x7d" ++ rest).toList))).1 ∧
      ('\x7d' ∉ body.toList → (parse (sel ++ "\x7b" ++ body ++ "\x7d" ++ rest)).1 = (parse rest).1) := by
  have hOpen : ("\x7b" : String).toList = ['\x7b'] := by decide
  have hClose : ("\x7d" : String).toList = ['\x7d'] := by decide
  have hRules : (parse (sel ++ "\x7b" ++ body ++ "\x7d" ++ rest)).1 =
      (read (behindBrace (body.toList ++ '\x7d' :: rest.toList))).rules := by
    rw [← rules_of_not_isSelectorList hHeading hNone, parse]
    simp only [String.toList_append, hOpen, hClose, List.append_assoc, List.cons_append, List.nil_append]
  constructor
  · rw [hRules, parse, String.toList_ofList]
    simp only [String.toList_append, hClose, List.append_assoc, List.cons_append, List.nil_append]
  · intro hBody
    rw [hRules, behindBrace_append hBody, behindBrace_cons, parse]

/-- A block behind a comma too many is skipped. -/
theorem rules_comma_too_many :
    let text := "p, , q" ++ "\x7b" ++ "color: red" ++ "\x7d" ++ "i \x7b\x7d"
    (parse text).1 = (parse (String.ofList (behindBrace ("color: red" ++ "\x7d" ++ "i \x7b\x7d").toList))).1 ∧
      (parse text).1 = (parse "i \x7b\x7d").1 ∧ (parse text).1.map (·.selector.words) = [["i"]] := by
  have hRules := rules_broken_heading "p, , q" "color: red" "i \x7b\x7d" ⟨by decide, by decide +kernel⟩
    (by decide +kernel)
  exact ⟨hRules.1, hRules.2 (by decide), by decide +kernel⟩

/-- A block that holds blocks, on the other hand, is skipped only up to the end of the first of them. -/
theorem rules_inside_broken_rule :
    IsHeading "@media print ".toList ∧ ¬ IsSelectorList "@media print ".toList ∧
      isBalanced 0 " p \x7b color: red \x7d b \x7b color: blue \x7d ".toList = true ∧
      ¬ ['/', '*'] <:+: " p \x7b color: red \x7d b \x7b color: blue \x7d ".toList ∧
      (parse ("@media print " ++ "\x7b" ++ " p \x7b color: red \x7d b \x7b color: blue \x7d " ++ "\x7d" ++ "")).1 ≠
        (parse "").1 := by
  refine ⟨⟨by decide, by decide +kernel⟩, by decide +kernel, by decide, by decide +kernel, fun hSame => ?_⟩
  have hApplied := congrArg (·.map (·.selector.words)) hSame
  revert hApplied
  decide +kernel

end Stylesheet

end PageRender
