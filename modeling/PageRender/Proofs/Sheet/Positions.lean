import PageRender.Proofs.Sheet.Unfinished

/-! # Where findings are made

What a reader of stylesheets steps over is reported with the text that is left at that point, which is never
more than the reader was given. So a finding of a sheet lies within the sheet.
-/

namespace PageRender

namespace Sheet

variable {α β : Type}

/-- A reader that fails within its text. -/
def Placed (R : List Char → Reading α) : Prop :=
  ∀ cs f, R cs = .error f → f.left ≤ cs.length

theorem Placed.andThen {R : List Char → Reading α} {f : α → List Char → Reading β} (hR : Placed R)
    (hConsumes : Consumes R) (hf : ∀ v, Placed (f v)) : Placed fun cs => andThen (R cs) f := by
  intro cs e hRead
  dsimp only at hRead
  cases hFirst : R cs with
  | error e' =>
    rw [hFirst] at hRead
    cases hRead
    exact hR cs e hFirst
  | ok p =>
    obtain ⟨v, rest⟩ := p
    have hRest := (hConsumes cs).length_le
    rw [hFirst] at hRead hRest
    exact Nat.le_trans (hf v rest e hRead) hRest

theorem Placed.afterBlank {R : List Char → Reading α} (h : Placed R) : Placed fun cs => R (skipBlank cs) :=
  fun cs f hRead => Nat.le_trans (h _ f hRead) (length_skipBlank_le cs)

theorem placed_ok (v : α) : Placed fun cs => .ok (v, cs) := by
  intro cs f hRead
  cases hRead

theorem placed_word : Placed word := by
  intro cs f hRead
  unfold word at hRead
  split at hRead
  · cases hRead
    exact Nat.le_refl _
  · split at hRead
    · cases hRead
    · cases hRead
      exact Nat.le_refl _

theorem placed_expect (mark : Char) : Placed (expect mark) := by
  intro cs f hRead
  unfold expect at hRead
  split at hRead
  · cases hRead
    exact Nat.le_refl _
  · split at hRead
    · cases hRead
    · cases hRead
      exact Nat.le_refl _

theorem placed_value : Placed value := by
  intro cs f hRead
  unfold value at hRead
  dsimp only at hRead
  split at hRead
  · cases hRead
    exact Nat.le_refl _
  · cases hRead

theorem placed_declaration : Placed declaration := by
  rw [funext declaration_eq]
  refine placed_word.andThen consumes_word fun name => ?_
  refine ((placed_expect ':').andThen (consumes_expect ':') fun _ => ?_).afterBlank
  exact (placed_value.andThen consumes_value fun text => placed_ok (name, text)).afterBlank

theorem placed_selectorWords (s : Selector) : Placed (selectorWords s) := by
  intro cs
  fun_induction selectorWords s cs with
  | case1 | case2 =>
    intro f hRead
    cases hRead
  | case3 s c rest _ name after hWord ih =>
    intro f hRead
    have hShorter := length_word_lt hWord
    have hBlank := length_skipBlank_le after
    have hLeft := ih f hRead
    omega
  | case4 s c rest _ e hWord =>
    intro f hRead
    cases hRead
    exact placed_word _ _ hWord

theorem placed_selector : Placed selector := by
  rw [funext selector_eq]
  exact placed_word.andThen consumes_word fun name => (placed_selectorWords (.tag name)).afterBlank

theorem placed_selectors (taken : List Selector) : Placed (selectors taken) := by
  intro cs
  fun_induction selectors taken cs with
  | case1 taken cs s rest hFirst ih =>
    intro f hRead
    have hShorter := length_selector_lt hFirst
    have hBlank := length_skipBlank_le rest
    have hLeft := ih f hRead
    rw [List.length_cons] at hShorter
    omega
  | case2 =>
    intro f hRead
    cases hRead
  | case3 taken cs e hFirst =>
    intro f hRead
    cases hRead
    exact placed_selector _ _ hFirst

theorem left_le_of_mem_declarations {taken : Block} {cs : List Char} {bound : Nat} (hLength : cs.length ≤ bound)
    (hTaken : ∀ e ∈ taken.findings, e.1 ≤ bound) : ∀ e ∈ (declarations taken cs).findings, e.1 ≤ bound := by
  have hMore : ∀ {taken : Block} {cs : List Char} {f : Failure}, cs.length ≤ bound →
      (∀ e ∈ taken.findings, e.1 ≤ bound) → declaration cs = .error f →
      ∀ e ∈ taken.findings ++ [(f.left, f.finding)], e.1 ≤ bound := by
    intro taken cs f hLength hTaken hRead
    rw [List.forall_mem_append, List.forall_mem_singleton]
    exact ⟨hTaken, Nat.le_trans (placed_declaration cs f hRead) hLength⟩
  fun_induction declarations taken cs with
  | case1 | case2 => exact hTaken
  | case3 taken c rest _ name text after hRead _ next hNext ih =>
    have hShorter := length_declaration_lt hRead
    have hBlank := length_skipBlank_le after
    have hBlank' := length_skipBlank_le next
    rw [hNext, List.length_cons] at hBlank
    exact ih (by omega) hTaken
  | case4 taken c rest _ name text after hRead _ _ ih =>
    have hShorter := length_declaration_lt hRead
    have hBlank := length_skipBlank_le after
    exact ih (by omega) hTaken
  | case5 taken c rest _ f hRead _ next hNext ih =>
    have hShorter := length_declaration_failure hRead
    have hDrop := length_dropWhile_le (!endsValue ·) f.rest
    have hBlank := length_skipBlank_le next
    rw [hNext, List.length_cons] at hDrop
    exact ih (by omega) (hMore hLength hTaken hRead)
  | case6 taken c rest _ f hRead => exact hMore hLength hTaken hRead

/-- The selectors of a rule, with the brace that opens its declarations. -/
def heading (cs : List Char) : Reading (List Selector) :=
  andThen (selectors [] cs) fun ss rest => andThen (expect '\x7b' rest) fun _ inside => .ok (ss, inside)

/-- A rule is its heading, a block of declarations and the brace that closes the block. -/
theorem rule_eq (cs : List Char) :
    rule cs =
      match heading cs with
      | .error f => ⟨[], .error f⟩
      | .ok (ss, inside) =>
        ⟨(block inside).findings, closed ss (block inside).declarations (block inside).rest⟩ := by
  unfold rule heading
  cases selectors [] cs with
  | error f => rfl
  | ok p =>
    dsimp only [andThen]
    cases expect '\x7b' p.2 with
    | error f => rfl
    | ok q =>
      dsimp only [closed, andThen]
      cases expect '\x7d' (block q.2).rest <;> rfl

theorem consumes_heading : Consumes heading :=
  (consumes_selectors []).andThen fun _ => (consumes_expect '\x7b').andThen fun _ => consumes_ok _

theorem placed_heading : Placed heading := by
  refine (placed_selectors []).andThen (consumes_selectors []) fun ss => ?_
  exact (placed_expect '\x7b').andThen (consumes_expect '\x7b') fun _ => placed_ok ss

theorem placed_closed (ss : List Selector) (d : Declarations) : Placed (closed ss d) :=
  (placed_expect '\x7d').andThen (consumes_expect '\x7d') fun _ => placed_ok _

/-- All that is found in a rule, the failure that it may end with included, is found within the text. -/
theorem left_le_of_mem_rule (cs : List Char) :
    (∀ e ∈ (rule cs).findings, e.1 ≤ cs.length) ∧ ∀ f, (rule cs).outcome = .error f → f.left ≤ cs.length := by
  rw [rule_eq]
  have hInside := (consumes_heading cs).length_le
  cases hHeading : heading cs with
  | error f =>
    refine ⟨fun e he => absurd he List.not_mem_nil, fun f' hRead => ?_⟩
    cases hRead
    exact placed_heading cs f hHeading
  | ok p =>
    obtain ⟨ss, inside⟩ := p
    rw [hHeading] at hInside
    replace hInside : inside.length ≤ cs.length := hInside
    have hBlank := length_skipBlank_le inside
    have hBlock := length_block_le inside
    refine ⟨left_le_of_mem_declarations (by omega) fun e he => absurd he List.not_mem_nil, fun f hRead => ?_⟩
    have hLeft := placed_closed ss _ _ f hRead
    omega

end Sheet

namespace Stylesheet

open Sheet

theorem left_le_of_mem_readRules {s : Stylesheet} {cs : List Char} {bound : Nat} (hLength : cs.length ≤ bound)
    (hBefore : ∀ e ∈ s.findings, e.1 ≤ bound) : ∀ e ∈ (readRules s cs).findings, e.1 ≤ bound := by
  have hRule : ∀ {s : Stylesheet} {cs : List Char}, cs.length ≤ bound → (∀ e ∈ s.findings, e.1 ≤ bound) →
      ∀ e ∈ s.findings ++ (rule cs).findings, e.1 ≤ bound := by
    intro s cs hLength hBefore
    rw [List.forall_mem_append]
    exact ⟨hBefore, fun e he => Nat.le_trans ((left_le_of_mem_rule cs).1 e he) hLength⟩
  have hFailed : ∀ {s : Stylesheet} {cs : List Char} {f : Failure}, cs.length ≤ bound →
      (∀ e ∈ s.findings, e.1 ≤ bound) → (rule cs).outcome = .error f →
      ∀ e ∈ s.findings ++ (rule cs).findings ++ [(f.left, f.finding)], e.1 ≤ bound := by
    intro s cs f hLength hBefore hRead
    rw [List.forall_mem_append, List.forall_mem_singleton]
    exact ⟨hRule hLength hBefore, Nat.le_trans ((left_le_of_mem_rule cs).2 f hRead) hLength⟩
  fun_induction readRules s cs with
  | case1 => exact hBefore
  | case2 s c rest r rules after hRead ih =>
    have hShorter := length_rule_lt hRead
    have hBlank := length_skipBlank_le after
    exact ih (by omega) (hRule hLength hBefore)
  | case3 s c rest r f hRead => exact hFailed hLength hBefore hRead
  | case4 s c rest r f hRead next d after hSkip ih =>
    have hShorter := length_rule_failure hRead
    have hDrop := length_dropWhile_le (· != '\x7d') f.rest
    have hBlank := length_skipBlank_le after
    rw [hSkip, List.length_cons] at hDrop
    exact ih (by omega) (hFailed hLength hBefore hRead)

theorem left_le_of_mem_read (cs : List Char) : ∀ e ∈ (read cs).findings, e.1 ≤ cs.length :=
  left_le_of_mem_readRules (length_skipBlank_le cs) fun _ he => absurd he List.not_mem_nil

end Stylesheet

end PageRender
