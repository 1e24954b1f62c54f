import Mathlib.Data.List.Basic
import Mathlib.Data.List.TakeWhile
import PageRender.Proofs.Sheet.Positions

/-! # Texts that end with a closing brace

No word, value or blank reaches over a closing brace, and every recovery stops at one. So a text that ends
with a closing brace, and in which no comment begins, is read to its end and no further: what is read behind
it is read as if it stood alone, and what was found before it stays found, in the same places.
-/

namespace PageRender

/-- The finding as it is reported with so many characters before the text. -/
def Diagnostic.behind (n : Nat) (d : Diagnostic) : Diagnostic :=
  ⟨d.source, n + d.position, d.finding⟩

namespace Sheet

variable {α β : Type}

/-- A text that ends with a closing brace, and in which no comment begins. -/
structure EndsRule (cs : List Char) : Prop where
  brace : cs.getLast? = some '\x7d'
  plain : ¬ ['/', '*'] <:+: cs

namespace EndsRule

variable {c : Char} {cs ds : List Char}

theorem ne_nil (h : EndsRule cs) : cs ≠ [] := by
  rintro rfl
  cases h.brace

theorem of_suffix (h : EndsRule cs) (hSuffix : ds <:+ cs) (hNonempty : ds ≠ []) : EndsRule ds := by
  obtain ⟨before, rfl⟩ := hSuffix
  refine ⟨?_, fun hComment => h.plain (hComment.trans (List.suffix_append before ds).isInfix)⟩
  have hLast := h.brace
  rwa [List.getLast?_append_of_ne_nil _ hNonempty] at hLast

theorem tail_ne_nil (h : EndsRule (c :: cs)) (hBrace : c ≠ '\x7d') : cs ≠ [] := by
  rintro rfl
  exact hBrace (Option.some.inj h.brace)

theorem tail (h : EndsRule (c :: cs)) (hBrace : c ≠ '\x7d') : EndsRule cs :=
  h.of_suffix (List.suffix_cons c cs) (h.tail_ne_nil hBrace)

theorem eq_nil_or (h : EndsRule cs) (hSuffix : ds <:+ cs) : ds = [] ∨ EndsRule ds :=
  (eq_or_ne ds []).imp_right (h.of_suffix hSuffix)

theorem dropWhile_ne_nil (h : EndsRule cs) {p : Char → Bool} (hp : p '\x7d' = false) : cs.dropWhile p ≠ [] := by
  intro hNil
  have hAll := List.dropWhile_eq_nil_iff.mp hNil _ (List.mem_of_getLast? h.brace)
  rw [hp] at hAll
  cases hAll

end EndsRule

/-! ## Readers -/

/-- A reader that leaves something of a text, and reads it in the same way whatever stands behind it. -/
structure Stays (R : List Char → Reading α) (cs : List Char) : Prop where
  rest : restOf (R cs) ≠ []
  append : ∀ b, R (cs ++ b) = followedBy b (R cs)

/-- A reader that does not get past the end of a rule. -/
def Halts (R : List Char → Reading α) : Prop :=
  ∀ cs, EndsRule cs → Stays R cs

theorem Stays.andThen {R : List Char → Reading α} {f : α → List Char → Reading β} {cs : List Char}
    (hR : Stays R cs) (hf : ∀ v rest, R cs = .ok (v, rest) → Stays (f v) rest) :
    Stays (fun cs => andThen (R cs) f) cs := by
  obtain ⟨hRest, hAppend⟩ := hR
  cases hRead : R cs with
  | error e =>
    rw [hRead] at hRest
    refine ⟨by rwa [hRead], fun b => ?_⟩
    rw [hAppend, hRead]
    rfl
  | ok p =>
    obtain ⟨hNext, hNextAppend⟩ := hf p.1 p.2 hRead
    refine ⟨by rwa [hRead], fun b => ?_⟩
    rw [hAppend, hRead]
    exact hNextAppend b

theorem Stays.congr {R S : List Char → Reading α} {c : Char} {cs : List Char}
    (h : ∀ ds, R (c :: ds) = S (c :: ds)) (hS : Stays S (c :: cs)) : Stays R (c :: cs) :=
  ⟨h cs ▸ hS.rest, fun b => (h (cs ++ b)).trans ((hS.append b).trans (congrArg _ (h cs).symm))⟩

theorem stays_ok (v : α) {cs : List Char} (h : cs ≠ []) : Stays (fun cs => .ok (v, cs)) cs :=
  ⟨h, fun _ => rfl⟩

theorem EndsRule.restOf {R : List Char → Reading α} {cs : List Char} (h : EndsRule cs) (hConsumes : Consumes R)
    (hStays : Stays R cs) : EndsRule (restOf (R cs)) :=
  h.of_suffix (hConsumes cs) hStays.rest

theorem Halts.andThen {R : List Char → Reading α} {f : α → List Char → Reading β} (hR : Halts R)
    (hConsumes : Consumes R) (hf : ∀ v, Halts (f v)) : Halts fun cs => andThen (R cs) f := by
  intro cs hEnds
  refine (hR cs hEnds).andThen fun v rest hRead => hf v rest ?_
  have hRest := hEnds.restOf hConsumes (hR cs hEnds)
  rwa [hRead] at hRest

theorem halts_ok (v : α) : Halts fun cs => .ok (v, cs) :=
  fun _ hEnds => stays_ok v hEnds.ne_nil

theorem halts_skipBlank : Halts (skipping skipBlank) := by
  intro cs hEnds
  have hBoth : skipBlank cs ≠ [] ∧ ∀ b, skipBlank (cs ++ b) = skipBlank cs ++ b := by
    fun_induction skipBlank cs with
    | case1 => exact absurd rfl hEnds.ne_nil
    | case2 c cs hBlank ih =>
      have hBrace : c ≠ '\x7d' := by
        rintro rfl
        exact absurd hBlank (by decide)
      obtain ⟨hRest, hAppend⟩ := ih (hEnds.tail hBrace)
      exact ⟨hRest, fun b => (skipBlank_of_isBlank hBlank _).trans (hAppend b)⟩
    | case3 c cs hBlank hComment =>
      obtain ⟨ds, rfl, rfl⟩ := exists_of_beginsComment hComment
      exact absurd (List.prefix_append ['/', '*'] ds).isInfix hEnds.plain
    | case4 c cs hBlank hComment =>
      refine ⟨List.cons_ne_nil c cs, fun b => ?_⟩
      have hNot : ¬(c == '/' && (cs ++ b).head? == some '*') = true := by
        cases cs with
        | nil =>
          have hBrace : c = '\x7d' := Option.some.inj hEnds.brace
          rw [hBrace]
          simp
        | cons d ds => exact hComment
      rw [List.cons_append, skipBlank, if_neg hBlank, if_neg hNot]
  exact ⟨hBoth.1, fun b => congrArg (fun rest => Except.ok ((), rest)) (hBoth.2 b)⟩

theorem Halts.afterBlank {R : List Char → Reading α} (h : Halts R) : Halts fun cs => R (skipBlank cs) :=
  halts_skipBlank.andThen carries_skipBlank.consumes fun _ => h

theorem EndsRule.skipBlank {cs : List Char} (h : EndsRule cs) : EndsRule (skipBlank cs) :=
  h.restOf carries_skipBlank.consumes (halts_skipBlank cs h)

theorem skipBlank_append_of_endsRule {cs : List Char} (h : EndsRule cs) (b : List Char) :
    Sheet.skipBlank (cs ++ b) = Sheet.skipBlank cs ++ b := by
  have hAppend := (halts_skipBlank cs h).append b
  simpa [skipping, followedBy] using hAppend

theorem halts_word : Halts word := by
  intro cs hEnds
  cases cs with
  | nil => exact absurd rfl hEnds.ne_nil
  | cons c cs =>
    cases hWord : isWordChar c with
    | false =>
      constructor
      · simp [word, hWord, failAt, restOf]
      · intro b
        simp [word, hWord, failAt, followedBy]
        omega
    | true =>
      have hRest : cs.dropWhile isWordChar ≠ [] := by
        have hDrop := hEnds.dropWhile_ne_nil (p := isWordChar) (by decide)
        rwa [List.dropWhile_cons_of_pos hWord] at hDrop
      constructor
      · simpa only [word, hWord, if_true, restOf] using hRest
      · intro b
        simp only [List.cons_append, word, hWord, if_true, followedBy, takeWhile_append_of_ne_nil hRest,
          dropWhile_append_of_ne_nil hRest]

theorem expect_append (mark : Char) {cs : List Char} (h : cs ≠ []) (b : List Char) :
    expect mark (cs ++ b) = followedBy b (expect mark cs) := by
  cases cs with
  | nil => exact absurd rfl h
  | cons c cs =>
    rw [List.cons_append, expect, expect]
    split
    · rfl
    · simp [failAt, followedBy]
      omega

theorem halts_expect {mark : Char} (hMark : mark ≠ '\x7d') : Halts (expect mark) := by
  intro cs hEnds
  refine ⟨?_, expect_append mark hEnds.ne_nil⟩
  cases cs with
  | nil => exact absurd rfl hEnds.ne_nil
  | cons c cs =>
    rw [expect]
    split
    · rename_i hSame
      rw [beq_iff_eq] at hSame
      exact hEnds.tail_ne_nil (hSame ▸ hMark)
    · exact List.cons_ne_nil c cs

theorem halts_value : Halts value := by
  intro cs hEnds
  have hRest : cs.dropWhile (!endsValue ·) ≠ [] := hEnds.dropWhile_ne_nil (by decide)
  constructor
  · unfold value
    dsimp only
    split <;> exact hRest
  · intro b
    simp only [value, takeWhile_append_of_ne_nil hRest, dropWhile_append_of_ne_nil hRest]
    split <;> simp [followedBy]

theorem halts_declaration : Halts declaration := by
  rw [funext declaration_eq]
  refine halts_word.andThen consumes_word fun name => ?_
  refine ((halts_expect (by decide)).andThen (consumes_expect ':') fun _ => ?_).afterBlank
  exact (halts_value.andThen consumes_value fun text => halts_ok (name, text)).afterBlank

theorem stays_after_skipBlank {R : List Char → Reading α} {cs : List Char} (hEnds : EndsRule cs)
    (h : Stays R (skipBlank cs)) : Stays (fun cs => R (skipBlank cs)) cs :=
  ⟨h.rest, fun b => by rw [skipBlank_append_of_endsRule hEnds, h.append]⟩

theorem stays_behindMark {mark : Char} (hMark : mark ≠ '\x7d') {v : α} {R : List Char → Reading α} {cs : List Char}
    (hEnds : EndsRule cs) (h : ∀ rest, cs = mark :: rest → Stays R (skipBlank rest)) :
    Stays (behindMark mark v R) cs := by
  cases cs with
  | nil => exact absurd rfl hEnds.ne_nil
  | cons c rest =>
    by_cases hSame : c = mark
    · subst hSame
      have hNext := stays_after_skipBlank (hEnds.tail hMark) (h rest rfl)
      refine ⟨?_, fun b => ?_⟩
      · rw [behindMark_self]
        exact hNext.rest
      · rw [List.cons_append, behindMark_self, behindMark_self]
        exact hNext.append b
    · have hOther : ∀ ds, behindMark mark v R (c :: ds) = .ok (v, c :: ds) := fun ds =>
        behindMark_of_ne fun next hEq => hSame (List.cons.inj hEq).1
      exact .congr hOther (stays_ok v (List.cons_ne_nil c rest))

theorem halts_selectorWords (s : Selector) : Halts (selectorWords s) := by
  intro cs hEnds
  induction hLength : cs.length using Nat.strongRecOn generalizing s cs with
  | ind n ih =>
    subst hLength
    cases cs with
    | nil => exact absurd rfl hEnds.ne_nil
    | cons c cs =>
      by_cases hMark : (c == '\x7b' || c == ',') = true
      · exact .congr (fun _ => selectorWords_mark hMark) (stays_ok s (List.cons_ne_nil c cs))
      · have hWord := halts_word _ hEnds
        have hWords : Stays (fun ds => andThen (word ds) fun name after =>
            selectorWords (s.within name) (skipBlank after)) (c :: cs) := by
          refine hWord.andThen fun name after hRead => ?_
          have hAfter := hEnds.restOf consumes_word hWord
          rw [hRead] at hAfter
          have hShorter := length_word_lt hRead
          have hBlank := length_skipBlank_le after
          exact stays_after_skipBlank hAfter (ih _ (by omega) (s.within name) _ hAfter.skipBlank rfl)
        exact .congr (fun _ => selectorWords_cons hMark) hWords

theorem halts_selector : Halts selector := by
  rw [funext selector_eq]
  exact halts_word.andThen consumes_word fun name => (halts_selectorWords (.tag name)).afterBlank

theorem halts_selectors (taken : List Selector) : Halts (selectors taken) := by
  intro cs hEnds
  induction hLength : cs.length using Nat.strongRecOn generalizing taken cs with
  | ind n ih =>
    subst hLength
    have hFirst := halts_selector _ hEnds
    rw [funext (selectors_eq taken)]
    refine hFirst.andThen fun s rest hRead => ?_
    have hRest := hEnds.restOf carries_selector.consumes hFirst
    rw [hRead] at hRest
    refine stays_behindMark (by decide) hRest fun next hNext => ?_
    subst hNext
    have hShorter := length_selector_lt hRead
    have hBlank := length_skipBlank_le next
    rw [List.length_cons] at hShorter
    exact ih _ (by omega) _ _ (hRest.tail (by decide)).skipBlank rfl

/-! ## Blocks and rules -/

/-- Findings of a text that has so many more characters behind. -/
def shifted (n : Nat) (findings : List (Nat × Finding)) : List (Nat × Finding) :=
  findings.map fun (left, finding) => (left + n, finding)

theorem shifted_append (n : Nat) (es ds : List (Nat × Finding)) :
    shifted n (es ++ ds) = shifted n es ++ shifted n ds :=
  List.map_append

/-- The block as it is read with more text behind. -/
def Block.followedBy (more : List Char) (b : Block) : Block :=
  ⟨b.declarations, shifted more.length b.findings, b.rest ++ more⟩

theorem EndsRule.pastMark {cs : List Char} (h : EndsRule cs) :
    EndsRule (pastMark cs) ∧ ∀ b, Sheet.pastMark (cs ++ b) = Sheet.pastMark cs ++ b := by
  cases cs with
  | nil => exact absurd rfl h.ne_nil
  | cons c cs =>
    by_cases hMark : c = ';'
    · subst hMark
      have hTail := h.tail (by decide)
      exact ⟨hTail.skipBlank, skipBlank_append_of_endsRule hTail⟩
    · have hSame : ∀ ds, Sheet.pastMark (c :: ds) = c :: ds := fun ds => by simp [Sheet.pastMark, hMark]
      exact ⟨by rwa [hSame], fun b => by rw [List.cons_append, hSame, hSame, List.cons_append]⟩

/-- What follows a failed declaration is found within the text. -/
theorem EndsRule.stops {cs : List Char} (h : EndsRule cs) : ∃ d next,
    cs.dropWhile (!endsValue ·) = d :: next ∧ EndsRule (d :: next) ∧
      ∀ b, (cs ++ b).dropWhile (!endsValue ·) = d :: (next ++ b) := by
  have hStops : cs.dropWhile (!endsValue ·) ≠ [] := h.dropWhile_ne_nil (by decide)
  obtain ⟨d, next, hDrop⟩ := List.exists_cons_of_ne_nil hStops
  refine ⟨d, next, hDrop, h.of_suffix (hDrop ▸ List.dropWhile_suffix _) (List.cons_ne_nil d next), fun b => ?_⟩
  rw [dropWhile_append_of_ne_nil hStops, hDrop, List.cons_append]

/-- Something is left of the text behind the block, and the block is read in the same way whatever stands
behind the text. -/
def BlockStays (taken : Block) (cs : List Char) : Prop :=
  (declarations taken cs).rest ≠ [] ∧
    ∀ b, declarations { taken with findings := shifted b.length taken.findings } (cs ++ b) =
      (declarations taken cs).followedBy b

section

variable {taken : Block} {c : Char} {cs : List Char} (hEnds : EndsRule (c :: cs))

include hEnds

theorem blockStays_ok (hBrace : ¬(c == '\x7d') = true) {name text : String} {after : List Char}
    (hRead : declaration (c :: cs) = .ok ((name, text), after))
    (hNext : EndsRule (pastMark (skipBlank after)) →
      BlockStays { taken with declarations := taken.declarations.insert name text }
        (pastMark (skipBlank after))) : BlockStays taken (c :: cs) := by
  obtain ⟨-, hAppend⟩ := halts_declaration _ hEnds
  have hRest := hEnds.restOf carries_declaration.consumes (halts_declaration _ hEnds)
  rw [hRead] at hAppend hRest
  replace hRest : EndsRule after := hRest
  have hReadAppend : ∀ b, declaration (c :: (cs ++ b)) = .ok ((name, text), after ++ b) := hAppend
  obtain ⟨hPastEnds, hPast⟩ := hRest.skipBlank.pastMark
  obtain ⟨hLeft, hFollowed⟩ := hNext hPastEnds
  rw [BlockStays, declarations_ok hBrace hRead]
  refine ⟨hLeft, fun b => ?_⟩
  rw [List.cons_append, declarations_ok hBrace (hReadAppend b), skipBlank_append_of_endsRule hRest,
    hPast, ← hFollowed]

theorem blockStays_error (hBrace : ¬(c == '\x7d') = true) {f : Failure}
    (hRead : declaration (c :: cs) = .error f)
    (hNext : ∀ next, f.rest.dropWhile (!endsValue ·) = ';' :: next → EndsRule (skipBlank next) →
      BlockStays { taken with findings := taken.findings ++ [(f.left, f.finding)] } (skipBlank next)) :
    BlockStays taken (c :: cs) := by
  obtain ⟨-, hAppend⟩ := halts_declaration _ hEnds
  have hRest := hEnds.restOf carries_declaration.consumes (halts_declaration _ hEnds)
  rw [hRead] at hAppend hRest
  replace hRest : EndsRule f.rest := hRest
  have hReadAppend : ∀ b, declaration (c :: (cs ++ b)) =
      .error ⟨f.left + b.length, f.finding, f.rest ++ b⟩ := hAppend
  have hTaken : ∀ b : List Char, shifted b.length (taken.findings ++ [(f.left, f.finding)]) =
      shifted b.length taken.findings ++ [(f.left + b.length, f.finding)] := fun b =>
    shifted_append _ _ _
  obtain ⟨d, next, hDrop, hEndsNext, hDropAppend⟩ := hRest.stops
  rw [BlockStays]
  by_cases hMark : d = ';'
  · subst hMark
    replace hEndsNext := hEndsNext.tail (by decide)
    obtain ⟨hLeft, hFollowed⟩ := hNext next hDrop hEndsNext.skipBlank
    rw [declarations_semicolon hBrace hRead hDrop]
    refine ⟨hLeft, fun b => ?_⟩
    rw [List.cons_append, declarations_semicolon hBrace (hReadAppend b) (hDropAppend b),
      skipBlank_append_of_endsRule hEndsNext, ← hFollowed, hTaken]
  · have hOther : ∀ ds es : List Char, d :: ds ≠ ';' :: es :=
      fun ds es hEq => hMark (List.cons.inj hEq).1
    rw [declarations_stop hBrace hRead (by simpa only [hDrop] using hOther next), hDrop]
    refine ⟨List.cons_ne_nil d next, fun b => ?_⟩
    rw [List.cons_append, declarations_stop hBrace (hReadAppend b)
      (by simpa only [hDropAppend] using hOther (next ++ b)), hDropAppend, Block.followedBy,
      hTaken, List.cons_append]

end

/-- A block does not get past the end of a rule. -/
theorem declarations_append (taken : Block) {cs : List Char} (hEnds : EndsRule cs) :
    BlockStays taken cs := by
  induction hLength : cs.length using Nat.strongRecOn generalizing taken cs with
  | ind n ih =>
    subst hLength
    cases cs with
    | nil => exact absurd rfl hEnds.ne_nil
    | cons c cs =>
      by_cases hBrace : (c == '\x7d') = true
      · rw [beq_iff_eq] at hBrace
        subst hBrace
        rw [BlockStays, declarations_brace]
        refine ⟨List.cons_ne_nil _ _, fun b => ?_⟩
        rw [List.cons_append, declarations_brace]
        rfl
      · cases hRead : declaration (c :: cs) with
        | ok p =>
          obtain ⟨⟨name, text⟩, after⟩ := p
          refine blockStays_ok hEnds hBrace hRead fun hNext => ih _ ?_ _ hNext rfl
          have hShorter := length_declaration_lt hRead
          have hBlank := length_skipBlank_le after
          have hMark := (pastMark_suffix (skipBlank after)).length_le
          omega
        | error f =>
          refine blockStays_error hEnds hBrace hRead fun next hDrop hNext => ih _ ?_ _ hNext rfl
          have hShorter := length_declaration_failure hRead
          have hDropLength := length_dropWhile_le (!endsValue ·) f.rest
          have hBlank := length_skipBlank_le next
          rw [hDrop, List.length_cons] at hDropLength
          omega

theorem block_append {cs : List Char} (hEnds : EndsRule cs) :
    (block cs).rest ≠ [] ∧ ∀ b, block (cs ++ b) = (block cs).followedBy b := by
  obtain ⟨hRest, hAppend⟩ := declarations_append {} hEnds.skipBlank
  refine ⟨hRest, fun b => ?_⟩
  rw [block, skipBlank_append_of_endsRule hEnds]
  exact hAppend b

theorem rest_ne_nil_of_expect {mark : Char} {cs : List Char} {f : Failure} (h : cs ≠ [])
    (hRead : expect mark cs = .error f) : f.rest ≠ [] := by
  cases cs with
  | nil => exact absurd rfl h
  | cons c cs =>
    unfold expect at hRead
    dsimp only at hRead
    split at hRead
    · cases hRead
    · cases hRead
      exact h

theorem halts_heading : Halts heading := by
  refine (halts_selectors []).andThen (consumes_selectors []) fun ss => ?_
  exact (halts_expect (by decide)).andThen (consumes_expect '\x7b') fun _ => halts_ok ss

/-- Unlike the readers before it, this one may read to the very end of its text: it is the brace that it is after. -/
theorem closed_append (ss : List Selector) (d : Declarations) {cs : List Char} (h : cs ≠ []) :
    (∀ f, closed ss d cs = .error f → f.rest ≠ []) ∧
      ∀ b, closed ss d (cs ++ b) = followedBy b (closed ss d cs) := by
  have hAppend := expect_append '\x7d' h
  unfold closed
  cases hRead : expect '\x7d' cs with
  | error f =>
    refine ⟨?_, fun b => by rw [hAppend, hRead]; rfl⟩
    rintro _ ⟨⟩
    exact rest_ne_nil_of_expect h hRead
  | ok p =>
    refine ⟨?_, fun b => by rw [hAppend, hRead]; rfl⟩
    rintro _ ⟨⟩

/-- A rule that is not read to its end is given up before the end of a text that ends a rule. -/
theorem rule_append {cs : List Char} (hEnds : EndsRule cs) :
    (∀ f, (rule cs).outcome = .error f → f.rest ≠ []) ∧
      ∀ b, rule (cs ++ b) = ⟨shifted b.length (rule cs).findings, followedBy b (rule cs).outcome⟩ := by
  have hHeading := halts_heading cs hEnds
  have hInside := hEnds.restOf consumes_heading hHeading
  have hAppend := hHeading.append
  simp only [rule_eq]
  cases hRead : heading cs with
  | error f =>
    rw [hRead] at hInside
    refine ⟨?_, fun b => by rw [hAppend, hRead]; rfl⟩
    rintro _ ⟨⟩
    exact hInside.ne_nil
  | ok p =>
    obtain ⟨ss, inside⟩ := p
    rw [hRead] at hInside
    replace hInside : EndsRule inside := hInside
    obtain ⟨hBlock, hBlockAppend⟩ := block_append hInside
    obtain ⟨hLeft, hClosed⟩ := closed_append ss (block inside).declarations hBlock
    refine ⟨hLeft, fun b => ?_⟩
    have hReadAppend : heading (cs ++ b) = .ok (ss, inside ++ b) := by
      rw [hAppend, hRead]
      rfl
    rw [hReadAppend]
    dsimp only
    rw [hBlockAppend]
    exact congrArg _ (hClosed b)

end Sheet

namespace Stylesheet

open Sheet

/-- The stylesheet as it is found in a text that has so many more characters behind. -/
def shifted (n : Nat) (s : Stylesheet) : Stylesheet :=
  ⟨s.rules, Sheet.shifted n s.findings⟩

/-- Reading comes to the end of a rule, and goes on there as at the start of a sheet. -/
theorem readRules_append (s : Stylesheet) {cs : List Char} (hEnds : cs = [] ∨ EndsRule cs) (b : List Char) :
    readRules (s.shifted b.length) (skipBlank (cs ++ b)) =
      readRules ((readRules s (skipBlank cs)).shifted b.length) (skipBlank b) := by
  induction hLength : cs.length using Nat.strongRecOn generalizing s cs with
  | ind n ih =>
    subst hLength
    rcases hEnds with rfl | hEnds
    · rw [skipBlank_nil, readRules_nil, List.nil_append]
    have hShorter := length_skipBlank_le cs
    have hBlank := hEnds.skipBlank
    rw [skipBlank_append_of_endsRule hEnds]
    obtain ⟨c, rest, hCons⟩ := List.exists_cons_of_ne_nil hBlank.ne_nil
    rw [hCons] at hShorter hBlank ⊢
    obtain ⟨hRest, hRule⟩ := rule_append hBlank
    have hRuleAppend : rule (c :: (rest ++ b)) =
        ⟨Sheet.shifted b.length (rule (c :: rest)).findings, followedBy b (rule (c :: rest)).outcome⟩ := hRule b
    have hSuffix := carries_outcome.consumes (c :: rest)
    cases hRead : (rule (c :: rest)).outcome with
    | ok p =>
      obtain ⟨rs, after⟩ := p
      rw [hRead] at hRuleAppend hSuffix
      replace hSuffix : after <:+ c :: rest := hSuffix
      have hAppend : (rule (c :: (rest ++ b))).outcome = .ok (rs, after ++ b) := by
        rw [hRuleAppend]
        rfl
      have hAfter := length_rule_lt hRead
      rw [List.cons_append, readRules_ok hAppend, readRules_ok hRead,
        ← ih _ (by omega) _ (hBlank.eq_nil_or hSuffix) rfl, hRuleAppend, shifted, shifted, Sheet.shifted_append]
    | error f =>
      rw [hRead] at hRuleAppend hSuffix
      have hAppend : (rule (c :: (rest ++ b))).outcome =
          .error ⟨f.left + b.length, f.finding, f.rest ++ b⟩ := by
        rw [hRuleAppend]
        rfl
      have hStops : f.rest.dropWhile (· != '\x7d') ≠ [] :=
        (hBlank.of_suffix hSuffix (hRest f hRead)).dropWhile_ne_nil (by decide)
      obtain ⟨d, after, hDrop⟩ := List.exists_cons_of_ne_nil hStops
      have hDropAppend : (f.rest ++ b).dropWhile (· != '\x7d') = d :: (after ++ b) := by
        rw [dropWhile_append_of_ne_nil hStops, hDrop, List.cons_append]
      have hAfter : after <:+ c :: rest :=
        (List.suffix_cons d after).trans (hDrop ▸ (List.dropWhile_suffix _).trans hSuffix)
      have hLonger := length_rule_failure hRead
      have hDropLength := length_dropWhile_le (· != '\x7d') f.rest
      rw [hDrop, List.length_cons] at hDropLength
      rw [List.cons_append, readRules_skip hAppend hDropAppend, readRules_skip hRead hDrop,
        ← ih _ (by omega) _ (hBlank.eq_nil_or hAfter) rfl, hRuleAppend, shifted, shifted, Sheet.shifted_append,
        Sheet.shifted_append]
      rfl

theorem read_append {cs : List Char} (hEnds : EndsRule cs) (b : List Char) : read (cs ++ b) =
    ⟨(read cs).rules ++ (read b).rules, Sheet.shifted b.length (read cs).findings ++ (read b).findings⟩ := by
  have hRead := readRules_append {} (.inr hEnds) b
  rw [readRules_eq _ (skipBlank b)] at hRead
  exact hRead

theorem diagnosticsOf_append (length : Nat) (es ds : List (Nat × Finding)) :
    diagnosticsOf length (es ++ ds) = diagnosticsOf length es ++ diagnosticsOf length ds :=
  List.map_append

theorem diagnosticsOf_shifted (length n : Nat) (findings : List (Nat × Finding)) :
    diagnosticsOf (length + n) (Sheet.shifted n findings) = diagnosticsOf length findings := by
  simp [diagnosticsOf, Sheet.shifted, Nat.add_sub_add_right]

theorem diagnosticsOf_add {length : Nat} {findings : List (Nat × Finding)} (h : ∀ e ∈ findings, e.1 ≤ length)
    (n : Nat) : diagnosticsOf (n + length) findings = (diagnosticsOf length findings).map (·.behind n) := by
  rw [diagnosticsOf, diagnosticsOf, List.map_map]
  refine List.map_congr_left fun e he => ?_
  have hLeft := h e he
  simp only [Function.comp_apply, Diagnostic.behind, Diagnostic.mk.injEq, true_and, and_true]
  omega

/-- A sheet that ends with a closing brace, and in which no comment begins, does not disturb what is written
behind it: the rules of both are read one after the other, and all is reported where it stands. -/
theorem parse_append {a b : String} (hEnd : a.toList.getLast? = some '\x7d') (hPlain : ¬ ['/', '*'] <:+: a.toList) :
    parse (a ++ b) =
      ((parse a).1 ++ (parse b).1, (parse a).2 ++ (parse b).2.map (·.behind a.length)) := by
  have hRead := read_append ⟨hEnd, hPlain⟩ b.toList
  have hBehind := diagnosticsOf_add (left_le_of_mem_read b.toList) a.length
  have hLength : (a ++ b).length = a.length + b.toList.length := by
    rw [String.length_append, String.length_toList]
  simp only [parse, String.toList_append, hRead, hLength]
  rw [diagnosticsOf_append, ← String.length_toList, diagnosticsOf_shifted, String.length_toList, hBehind,
    String.length_toList]

/-- Rules that are given up inside a selector, and a declaration that is given up inside a block. -/
def brokenSheet : String :=
  "p \x7b color: red \x7d h1 ? \x7b x \x7d p, \x7b a: 1 \x7d b \x7b a: 1; b \x7d"

theorem parse_append_brokenSheet :
    brokenSheet.toList.getLast? = some '\x7d' ∧ ¬ ['/', '*'] <:+: brokenSheet.toList ∧
      parse (brokenSheet ++ "b \x7b margin: 0; : \x7d ?") =
        ((parse brokenSheet).1 ++ (parse "b \x7b margin: 0; : \x7d ?").1,
          (parse brokenSheet).2 ++ (parse "b \x7b margin: 0; : \x7d ?").2.map (·.behind brokenSheet.length)) := by
  have hEnd : brokenSheet.toList.getLast? = some '\x7d' := by decide +kernel
  have hPlain : ¬ ['/', '*'] <:+: brokenSheet.toList := by decide +kernel
  exact ⟨hEnd, hPlain, parse_append hEnd hPlain⟩

end Stylesheet

end PageRender
