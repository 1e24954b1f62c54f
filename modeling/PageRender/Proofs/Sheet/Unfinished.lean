import PageRender.Proofs.Sheet.Seams

/-! # What a text of rules leaves unfinished

A text is read rule by rule. A comment, a rule or the skipping of a malformed rule that does not end
within the text is read on with the lines behind it, all before it as if no lines followed.
-/

namespace PageRender.Stylesheet

open Sheet

/-! ## The rules of a text -/

/-- The rules that the first rule of a text stands for. -/
def firstRules (cs : List Char) : List Rule :=
  match (rule cs).outcome with
  | .ok (rules, _) => rules
  | .error _ => []

/-- The text behind the first rule, which is read or skipped; `none` if it does not end. -/
def pastRule? (cs : List Char) : Option (List Char) :=
  match (rule cs).outcome with
  | .ok (_, after) => some after
  | .error f =>
    match f.rest.dropWhile (· != '\x7d') with
    | [] => none
    | _ :: after => some after

theorem length_pastRule?_lt {cs after : List Char} (h : pastRule? cs = some after) :
    after.length < cs.length := by
  unfold pastRule? at h
  split at h
  · next hRead =>
    cases h
    exact length_rule_lt hRead
  · next f hRead =>
    have hRest := length_rule_failure hRead
    have hDrop := length_dropWhile_le (· != '\x7d') f.rest
    split at h
    · cases h
    · next hEnd =>
      cases h
      rw [hEnd, List.length_cons] at hDrop
      omega

section

variable {s : Stylesheet} {c : Char} {cs : List Char}

theorem readRules_nil : readRules s [] = s := by
  rw [readRules]

theorem readRules_ok {rs : List Rule} {after : List Char} (h : (rule (c :: cs)).outcome = .ok (rs, after)) :
    readRules s (c :: cs) =
      readRules ⟨s.rules ++ rs, s.findings ++ (rule (c :: cs)).findings⟩ (skipBlank after) := by
  rw [readRules]
  split <;> simp_all

theorem readRules_skip {f : Failure} {after : List Char} (h : (rule (c :: cs)).outcome = .error f)
    {d : Char} (hSkip : f.rest.dropWhile (· != '\x7d') = d :: after) :
    readRules s (c :: cs) =
      readRules ⟨s.rules, s.findings ++ (rule (c :: cs)).findings ++ [(f.left, f.finding)]⟩
        (skipBlank after) := by
  rw [readRules]
  split
  · simp_all
  · next hRead =>
    rw [h] at hRead
    cases hRead
    dsimp only
    split <;> simp_all

theorem readRules_end {f : Failure} (h : (rule (c :: cs)).outcome = .error f)
    (hSkip : f.rest.dropWhile (· != '\x7d') = []) :
    readRules s (c :: cs) =
      ⟨s.rules, s.findings ++ (rule (c :: cs)).findings ++ [(f.left, f.finding)]⟩ := by
  rw [readRules]
  split
  · simp_all
  · next hRead =>
    rw [h] at hRead
    cases hRead
    dsimp only
    split <;> simp_all

/-- What has been read before a rule stays as it is. -/
theorem readRules_eq (s : Stylesheet) (cs : List Char) : readRules s cs =
    ⟨s.rules ++ (readRules {} cs).rules, s.findings ++ (readRules {} cs).findings⟩ := by
  induction hLength : cs.length using Nat.strongRecOn generalizing s cs with
  | ind n ih =>
    subst hLength
    cases cs with
    | nil => simp [readRules_nil]
    | cons c cs =>
      cases hRead : (rule (c :: cs)).outcome with
      | ok p =>
        obtain ⟨rs, after⟩ := p
        have hShorter := length_rule_lt hRead
        have hBlank := length_skipBlank_le after
        have hNext := fun s => ih _ (by omega) s (skipBlank after) rfl
        rw [readRules_ok hRead, readRules_ok hRead, hNext, hNext ⟨({} : Stylesheet).rules ++ rs, _⟩]
        simp
      | error f =>
        cases hSkip : f.rest.dropWhile (· != '\x7d') with
        | nil =>
          rw [readRules_end hRead hSkip, readRules_end hRead hSkip]
          simp
        | cons d after =>
          have hShorter := length_rule_failure hRead
          have hDrop := length_dropWhile_le (· != '\x7d') f.rest
          have hBlank := length_skipBlank_le after
          rw [hSkip, List.length_cons] at hDrop
          have hNext := fun s => ih _ (by omega) s (skipBlank after) rfl
          rw [readRules_skip hRead hSkip, readRules_skip hRead hSkip, hNext, hNext ⟨({} : Stylesheet).rules,
            ({} : Stylesheet).findings ++ (rule (c :: cs)).findings ++ [(f.left, f.finding)]⟩]
          simp

theorem rules_readRules (s : Stylesheet) (cs : List Char) :
    (readRules s cs).rules = s.rules ++ (readRules {} cs).rules := by
  rw [readRules_eq]

end

theorem read_newline (cs : List Char) : read ('\n' :: cs) = read cs := by
  rw [read, skipBlank_of_isBlank (by decide), ← read]

theorem rules_of_blank {cs : List Char} (h : skipBlank cs = []) : (read cs).rules = [] := by
  rw [read, h, readRules_nil]

theorem rules_read {cs : List Char} (h : skipBlank cs ≠ []) :
    (read cs).rules = firstRules (skipBlank cs) ++
      (pastRule? (skipBlank cs)).elim [] fun after => (read after).rules := by
  rw [read]
  obtain ⟨c, rest, hBlank⟩ := List.exists_cons_of_ne_nil h
  rw [hBlank]
  unfold firstRules pastRule?
  cases hRead : (rule (c :: rest)).outcome with
  | ok p =>
    rw [readRules_ok hRead, rules_readRules]
    rfl
  | error f =>
    dsimp only
    cases hSkip : f.rest.dropWhile (· != '\x7d') with
    | nil =>
      rw [readRules_end hRead hSkip]
      rfl
    | cons d after =>
      rw [readRules_skip hRead hSkip, rules_readRules]
      rfl

/-! ## What a text leaves unfinished -/

/-- The end of a text that is read on with what follows: from a comment or a rule that does not end. -/
def unfinished (cs : List Char) : List Char :=
  if blankEnds cs then
    match _h : skipBlank cs with
    | [] => []
    | c :: rest =>
      match _h' : pastRule? (c :: rest) with
      | none => c :: rest
      | some after => unfinished after
  else cs
termination_by cs.length
decreasing_by
  have hBlank := length_skipBlank_le cs
  have hRule := length_pastRule?_lt _h'
  rw [_h] at hBlank
  omega

theorem skipBlank_skipBlank (cs : List Char) : skipBlank (skipBlank cs) = skipBlank cs := by
  fun_induction skipBlank cs with
  | case1 => exact skipBlank_nil
  | case2 c cs _ ih => exact ih
  | case3 c cs _ _ ih => exact ih
  | case4 c cs hBlank hComment => rw [skipBlank, if_neg hBlank, if_neg hComment]

theorem pastRule?_append {cs after : List Char} (h : pastRule? cs = some after) (b : List Char) :
    pastRule? (cs ++ '\n' :: b) = some (after ++ '\n' :: b) ∧
      firstRules (cs ++ '\n' :: b) = firstRules cs := by
  unfold pastRule? at h
  unfold pastRule? firstRules
  cases hRead : (rule cs).outcome with
  | ok p =>
    rw [hRead] at h
    cases h
    rw [outcome_append hRead]
    exact ⟨rfl, rfl⟩
  | error f =>
    rw [hRead] at h
    dsimp only at h
    cases hSkip : f.rest.dropWhile (· != '\x7d') with
    | nil =>
      rw [hSkip] at h
      cases h
    | cons d rest =>
      rw [hSkip] at h
      cases h
      have hNonempty : f.rest ≠ [] := by
        intro hNil
        rw [hNil] at hSkip
        cases hSkip
      have hWithin := (carries_outcome.crosses cs).within b (by rw [hRead]; exact hNonempty)
      rw [hRead] at hWithin
      rw [hWithin]
      simp only [followedBy]
      rw [dropWhile_append_of_ne_nil (by rw [hSkip]; exact List.cons_ne_nil _ _), hSkip]
      exact ⟨rfl, trivial⟩

theorem firstRules_of_pastRule?_eq_none {cs : List Char} (h : pastRule? cs = none) : firstRules cs = [] := by
  unfold pastRule? at h
  unfold firstRules
  split at h
  · cases h
  · rfl

/-- What a text leaves unfinished is read on with the next lines, all before it as without them. -/
theorem rules_read_append (cs b : List Char) :
    (read (cs ++ '\n' :: b)).rules = (read cs).rules ++ (read (unfinished cs ++ '\n' :: b)).rules := by
  fun_induction unfinished cs with
  | case1 cs hEnds hNil =>
    have hGoesOn : skipBlank (cs ++ '\n' :: b) = skipBlank b := by rw [skipBlank_append hEnds, if_pos hNil]
    rw [rules_of_blank hNil, List.nil_append, List.nil_append, read_newline, read, hGoesOn, ← read]
  | case2 cs hEnds c rest hBlank hPast =>
    have hNonempty : skipBlank cs ≠ [] := by
      rw [hBlank]
      exact List.cons_ne_nil _ _
    have hAgain : skipBlank (skipBlank cs ++ '\n' :: b) = skipBlank (cs ++ '\n' :: b) := by
      rw [skipBlank_append_of_ne_nil hNonempty,
        skipBlank_append_of_ne_nil (by rwa [skipBlank_skipBlank]), skipBlank_skipBlank]
    rw [rules_read hNonempty, hBlank, hPast, firstRules_of_pastRule?_eq_none hPast, Option.elim_none,
      List.nil_append, List.nil_append, ← hBlank, read, read, hAgain]
  | case3 cs hEnds c rest hBlank after hPast ih =>
    have hNonempty : skipBlank cs ≠ [] := by
      rw [hBlank]
      exact List.cons_ne_nil _ _
    have hGoesOn := skipBlank_append_of_ne_nil hNonempty b
    obtain ⟨hPast', hFirst⟩ := pastRule?_append hPast b
    rw [rules_read (by rw [hGoesOn]; simp), rules_read hNonempty, hGoesOn, hBlank, hPast', hFirst, hPast,
      Option.elim_some, Option.elim_some, ih, List.append_assoc]
  | case4 cs hEnds =>
    have hNil := (skipBlank_of_open (by simpa using hEnds) b).1
    rw [rules_of_blank hNil, List.nil_append]

theorem rules_of_unfinished_eq_nil {cs : List Char} (h : unfinished cs = []) (b : List Char) :
    (read (cs ++ '\n' :: b)).rules = (read cs).rules ++ (read b).rules := by
  rw [rules_read_append, h, List.nil_append, read_newline]

/-! ## What follows a text that is not finished -/

/-- The word that the first selector of a text begins with. -/
def firstWord (cs : List Char) : String :=
  Text.foldCase (String.ofList (cs.takeWhile isWordChar))

theorem firstWord_append (cs b : List Char) : firstWord (cs ++ '\n' :: b) = firstWord cs := by
  rw [firstWord, List.takeWhile_append, List.takeWhile_cons_of_neg (by decide), List.append_nil]
  split
  · next hLength =>
    have hAll : cs.takeWhile isWordChar = cs := (List.takeWhile_prefix _).eq_of_length hLength
    rw [firstWord, hAll]
  · rfl

theorem word_eq_firstWord {cs rest : List Char} {w : String} (h : word cs = .ok (w, rest)) :
    w = firstWord cs := by
  unfold word at h
  split at h
  · cases h
  · next c cs =>
    split at h
    · next hWord =>
      cases h
      rw [firstWord, List.takeWhile_cons_of_pos hWord]
    · cases h

theorem head?_words_within (s : Selector) (name : String) :
    (s.within name).words.head? = s.words.head? := by
  have hSome : s.words.head?.isSome = true := by
    induction s with
    | tag name => rfl
    | within ancestor name ih => rw [Selector.words, List.head?_append, Option.isSome_or, ih, Bool.true_or]
  rw [Selector.words, List.head?_append, Option.or_of_isSome hSome]

theorem head?_words_selectorWords {s t : Selector} {cs rest : List Char}
    (h : selectorWords s cs = .ok (t, rest)) : t.words.head? = s.words.head? := by
  fun_induction selectorWords s cs with
  | case1 =>
    cases h
    rfl
  | case2 =>
    cases h
    rfl
  | case3 s c cs _ name after _ ih => rw [ih h, head?_words_within]
  | case4 => cases h

theorem head?_words_selector {s : Selector} {cs rest : List Char} (h : selector cs = .ok (s, rest)) :
    s.words.head? = some (firstWord cs) := by
  unfold selector at h
  split at h
  · cases h
  · next name after hWord => rw [head?_words_selectorWords h, ← word_eq_firstWord hWord]; rfl

theorem prefix_selectors {taken ss : List Selector} {cs rest : List Char}
    (h : selectors taken cs = .ok (ss, rest)) : ∃ s others, ss = taken ++ s :: others ∧
      s.words.head? = some (firstWord cs) := by
  fun_induction selectors taken cs with
  | case1 taken cs s after hRead ih =>
    obtain ⟨t, others, hSelectors, -⟩ := ih h
    exact ⟨s, t :: others, by simp [hSelectors], head?_words_selector hRead⟩
  | case2 taken cs s after _ hRead =>
    cases h
    exact ⟨s, [], rfl, head?_words_selector hRead⟩
  | case3 => cases h

theorem head_outcome {cs after : List Char} {rs : List Rule} (h : (rule cs).outcome = .ok (rs, after)) :
    ∃ r others, rs = r :: others ∧ r.selector.words.head? = some (firstWord cs) := by
  unfold rule at h
  split at h
  · cases h
  · next ss rest hSelectors =>
    obtain ⟨s, others, hEq, hWord⟩ := prefix_selectors hSelectors
    split at h
    · cases h
    · dsimp only at h
      split at h
      · cases h
      · cases h
        rw [hEq]
        exact ⟨_, _, rfl, hWord⟩

theorem unfinished_cases (cs : List Char) :
    unfinished cs = [] ∨ blankEnds (unfinished cs) = false ∨
      skipBlank (unfinished cs) = unfinished cs ∧ pastRule? (unfinished cs) = none := by
  fun_induction unfinished cs with
  | case1 => exact .inl rfl
  | case2 cs _ c rest hBlank hPast =>
    refine .inr (.inr ⟨?_, hPast⟩)
    rw [← hBlank, skipBlank_skipBlank]
  | case3 cs _ c rest _ after _ ih => exact ih
  | case4 cs hEnds => exact .inr (.inl (by simpa using hEnds))

theorem dropWhile_of_pastRule?_eq_none {cs : List Char} (h : pastRule? cs = none) {f : Failure} {c : Char}
    (hBrace : c ≠ '\x7d') (hRead : (rule (cs ++ '\n' :: [c, '\x7b', '\x7d'])).outcome = .error f) :
    f.rest.dropWhile (· != '\x7d') = [] ∨ f.rest.dropWhile (· != '\x7d') = ['\x7d'] := by
  obtain ⟨hWithin, hBeyond⟩ := carries_outcome.crosses cs
  unfold pastRule? at h
  split at h
  · cases h
  · next g hFailure =>
    have hOpen : g.rest.dropWhile (· != '\x7d') = [] := by
      split at h
      · assumption
      · cases h
    -- Without the line behind it, the rule fails at the end of the text or is skipped up to there.
    by_cases hNil : g.rest = []
    · have hSuffix := hBeyond [c, '\x7b', '\x7d'] (by rw [hFailure]; exact hNil)
      rw [hRead] at hSuffix
      simp only [restOf, List.suffix_cons_iff, List.suffix_nil] at hSuffix
      rcases hSuffix with hRest | hRest | hRest | hRest | hRest <;> simp [hRest, hBrace]
    · have hSame := hWithin [c, '\x7b', '\x7d'] (by rw [hFailure]; exact hNil)
      rw [hFailure, hRead] at hSame
      cases hSame
      right
      rw [List.dropWhile_append, hOpen]
      simp [hBrace]

theorem head_of_pastRule?_eq_none {cs : List Char} (hBlank : skipBlank cs = cs) (hNonempty : cs ≠ [])
    (h : pastRule? cs = none) {c : Char} (hBrace : c ≠ '\x7d') :
    ∀ r ∈ (read (cs ++ '\n' :: [c, '\x7b', '\x7d'])).rules.head?,
      r.selector.words.head? = some (firstWord cs) := by
  have hStays : skipBlank (cs ++ '\n' :: [c, '\x7b', '\x7d']) = cs ++ '\n' :: [c, '\x7b', '\x7d'] := by
    rw [skipBlank_append_of_ne_nil (by rwa [hBlank]), hBlank]
  intro r hHead
  rw [rules_read (by rw [hStays]; simp), hStays] at hHead
  cases hRead : (rule (cs ++ '\n' :: [c, '\x7b', '\x7d'])).outcome with
  | ok p =>
    -- The line behind it ends the rule, whose first selector has begun before the line.
    obtain ⟨r', others, hRules, hWord⟩ := head_outcome hRead
    have hFirst : firstRules (cs ++ '\n' :: [c, '\x7b', '\x7d']) = r' :: others := by
      rw [firstRules, hRead, ← hRules]
    rw [hFirst] at hHead
    cases hHead
    rw [hWord, firstWord_append]
  | error f =>
    -- The line behind it is skipped with the rule, except perhaps for a closing brace.
    have hFirst : firstRules (cs ++ '\n' :: [c, '\x7b', '\x7d']) = [] := by rw [firstRules, hRead]
    have hEnd := dropWhile_of_pastRule?_eq_none h hBrace hRead
    rw [hFirst, List.nil_append, pastRule?, hRead] at hHead
    rcases hEnd with hEnd | hEnd
    · simp [hEnd] at hHead
    · simp [hEnd, rules_of_blank, skipBlank] at hHead

/-- A text that is not finished damages a rule behind it. -/
theorem exists_damaged {cs : List Char} (h : unfinished cs ≠ []) :
    ∃ b, (read (cs ++ '\n' :: b)).rules ≠ (read cs).rules ++ (read b).rules := by
  have hHeads : (read ['p', '\x7b', '\x7d']).rules.head?.bind (·.selector.words.head?) = some "p" ∧
      (read ['q', '\x7b', '\x7d']).rules.head?.bind (·.selector.words.head?) = some "q" := by
    decide +kernel
  refine Classical.not_forall.mp fun hAll => ?_
  have hSame : ∀ b, (read (unfinished cs ++ '\n' :: b)).rules = (read b).rules := fun b =>
    List.append_cancel_left ((rules_read_append cs b).symm.trans (hAll b))
  rcases unfinished_cases cs with hNil | hOpen | ⟨hBlank, hPast⟩
  · exact h hNil
  · have hHidden : skipBlank (unfinished cs ++ '\n' :: ['p', '\x7b', '\x7d']) = [] := by
      rw [(skipBlank_of_open hOpen _).2]
      decide +kernel
    have hEmpty := hSame ['p', '\x7b', '\x7d']
    rw [rules_of_blank hHidden] at hEmpty
    rw [← hEmpty] at hHeads
    cases hHeads.1
  · -- The rules of `p` and of `q` would both begin with the word that the unfinished rule begins with.
    have hFirst : ∀ c, c ≠ '\x7d' → ∀ w,
        (read [c, '\x7b', '\x7d']).rules.head?.bind (·.selector.words.head?) = some w →
          w = firstWord (unfinished cs) := by
      intro c hBrace w hWord
      obtain ⟨r, hHead, hWord⟩ := Option.bind_eq_some_iff.mp hWord
      rw [← hSame] at hHead
      have hUnfinished := head_of_pastRule?_eq_none hBlank h hPast hBrace r hHead
      exact Option.some.inj (hWord.symm.trans hUnfinished)
    have hEq := (hFirst 'p' (by decide) "p" hHeads.1).trans (hFirst 'q' (by decide) "q" hHeads.2).symm
    exact absurd hEq (by decide)

end PageRender.Stylesheet
