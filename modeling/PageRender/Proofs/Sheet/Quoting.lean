import PageRender.Proofs.Sheet.Places

/-! # Texts that break off inside a value

Where a text breaks off inside a value, whatever stands behind it before the next mark is the end of that value,
and the rule that the value belongs to is read with it.
-/

namespace PageRender

namespace Sheet

variable {α β : Type} {x : List Char}

namespace Standing

variable {P S : Standing} {Q : α → Standing} {R : List Char → Reading α} {p : Place}

theorem recovering_eq_some (h : P.recovering R Q S x = some p) : P x = some p ∨
    P x = none ∧ ((∃ v rest, R x = .ok (v, rest) ∧ Q v rest = some p) ∨
      ∃ e, R x = .error e ∧ S e.rest = some p) := by
  unfold recovering at h
  cases hHere : P x with
  | some q =>
    rw [hHere] at h
    exact .inl h
  | none =>
    rw [hHere] at h
    cases hRead : R x with
    | ok q =>
      rw [hRead] at h
      exact .inr ⟨rfl, .inl ⟨q.1, q.2, rfl, h⟩⟩
    | error e =>
      rw [hRead] at h
      exact .inr ⟨rfl, .inr ⟨e, rfl, h⟩⟩

theorem andThen_eq_some (h : P.andThen R Q x = some p) : P x = some p ∨
    P x = none ∧ ∃ v rest, R x = .ok (v, rest) ∧ Q v rest = some p := by
  rcases recovering_eq_some h with hHere | ⟨hNone, hRead | ⟨e, -, hPlace⟩⟩
  · exact .inl hHere
  · exact .inr ⟨hNone, hRead⟩
  · cases hPlace

theorem afterBlank_eq_value (h : P.afterBlank x = some .value) :
    skipBlank x ≠ [] ∧ P (skipBlank x) = some .value := by
  unfold afterBlank at h
  split at h
  · cases hEnds : blankEnds x <;> rw [hEnds] at h <;> cases h
  · next hMore => exact ⟨hMore, h⟩

theorem behindMark_eq_value {mark : Char} (h : P.behindMark mark x = some .value) :
    ∃ next, x = mark :: next ∧ skipBlank next ≠ [] ∧ P (skipBlank next) = some .value := by
  unfold behindMark at h
  split at h
  · cases h
  · next c next =>
    split at h
    · next hMark => exact ⟨next, by rw [beq_iff_eq.mp hMark], afterBlank_eq_value h⟩
    · cases h

/-- Behind a declaration reading goes on in a text, behind the semicolon if there is one. -/
theorem pastMark_eq_value (h : P.pastMark x = some .value) (hNonempty : x ≠ []) :
    ∃ y, P y = some .value ∧ y.length ≤ x.length ∧ ∀ t, BeginsBlank t → Sheet.pastMark (x ++ t) = y ++ t := by
  obtain ⟨c, cs, rfl⟩ := List.exists_cons_of_ne_nil hNonempty
  by_cases hMark : c = ';'
  · subst hMark
    obtain ⟨hMore, hPlace⟩ := afterBlank_eq_value h
    have hShorter := length_skipBlank_le cs
    exact ⟨skipBlank cs, hPlace, by rw [List.length_cons]; omega, fun t hBlank =>
      hBlank.skipBlank_append_of_ne_nil hMore⟩
  · refine ⟨c :: cs, ?_, Nat.le_refl _, fun t _ => by simp [Sheet.pastMark, hMark]⟩
    simpa [pastMark, hMark] using h

theorem skipping_eq_value {p : Char → Bool} {place : Place} (hPlace : place ≠ .value)
    (h : P.skipping p place x = some .value) : x.dropWhile p ≠ [] ∧ P (x.dropWhile p) = some .value := by
  unfold skipping at h
  split at h
  · exact absurd (Option.some.inj h) hPlace
  · next hMore => exact ⟨hMore, h⟩

theorem below_eq_some {bound : Nat} (h : Standing.below bound (fun ds _ => P ds) x = some p) : P x = some p := by
  unfold below at h
  split at h
  · exact h
  · cases h

end Standing

/-! ## Where no value stands -/

theorem inSelectorWords_ne_value (x : List Char) : inSelectorWords x ≠ some .value := by
  induction hLength : x.length using Nat.strongRecOn generalizing x with
  | ind n ih =>
    subst hLength
    intro h
    cases x with
    | nil =>
      rw [inSelectorWords] at h
      cases h
    | cons c cs =>
      rw [inSelectorWords] at h
      split at h
      · cases h
      · obtain hNone | ⟨-, name, after, hRead, hPlace⟩ := Standing.andThen_eq_some h
        · cases hNone
        · have hShorter := length_word_lt hRead
          have hBlank := length_skipBlank_le after
          exact ih _ (by omega) _ rfl (Standing.below_eq_some (Standing.afterBlank_eq_value hPlace).2)

theorem inSelector_ne_value (x : List Char) : inSelector x ≠ some .value := by
  intro h
  obtain hNone | ⟨-, name, after, -, hPlace⟩ := Standing.andThen_eq_some h
  · cases hNone
  · exact inSelectorWords_ne_value _ (Standing.afterBlank_eq_value hPlace).2

theorem inSelectors_ne_value (x : List Char) : inSelectors x ≠ some .value := by
  induction hLength : x.length using Nat.strongRecOn generalizing x with
  | ind n ih =>
    subst hLength
    intro h
    rw [inSelectors] at h
    obtain hFirst | ⟨-, s, rest, hRead, hPlace⟩ := Standing.andThen_eq_some h
    · exact inSelector_ne_value x hFirst
    · obtain ⟨next, rfl, hMore, hPlace⟩ := Standing.behindMark_eq_value hPlace
      have hShorter := length_selector_lt hRead
      have hBlank := length_skipBlank_le next
      rw [List.length_cons] at hShorter
      exact ih _ (by omega) _ rfl (Standing.below_eq_some hPlace)

/-! ## Values -/

theorem BeginsBlank.append {body : List Char} (h : BeginsBlank body) (more : List Char) :
    BeginsBlank (body ++ more) := by
  obtain ⟨c, cs, rfl, hFirst⟩ := h
  exact ⟨c, cs ++ more, rfl, hFirst⟩

/-- A text that begins with something that is not blank. -/
def BeginsVisible (cs : List Char) : Prop :=
  ∃ c rest, cs = c :: rest ∧ Text.isBlank c = false

theorem beginsVisible_skipBlank (h : skipBlank x ≠ []) : BeginsVisible (skipBlank x) := by
  obtain ⟨c, rest, hText⟩ := List.exists_cons_of_ne_nil h
  refine ⟨c, rest, hText, ?_⟩
  by_contra hBlank
  have hAgain := Stylesheet.skipBlank_skipBlank x
  have hShorter := length_skipBlank_le rest
  rw [hText, skipBlank_of_isBlank (by simpa using hBlank)] at hAgain
  rw [hAgain, List.length_cons] at hShorter
  omega

theorem BeginsVisible.append {cs : List Char} (h : BeginsVisible cs) (more : List Char) :
    BeginsVisible (cs ++ more) := by
  obtain ⟨c, rest, rfl, hVisible⟩ := h
  exact ⟨c, rest ++ more, rfl, hVisible⟩

theorem BeginsVisible.trim_ne_nil {cs : List Char} (h : BeginsVisible cs) : Text.trim cs ≠ [] := by
  obtain ⟨c, rest, rfl, hVisible⟩ := h
  intro hNil
  rw [Text.trim, Text.trimStart, Text.trimStart, List.dropWhile_cons_of_neg (by simp [hVisible]),
    List.reverse_eq_nil_iff, List.dropWhile_eq_nil_iff] at hNil
  have hBlank := hNil c (by simp)
  rw [hVisible] at hBlank
  cases hBlank

/-- A reader that stands in a value which has begun: what follows before a closing brace is the end of the value. -/
def Quotes (start : List Char) (R : List Char → Reading α) (F : String → α) (x : List Char) : Prop :=
  ∀ body more, BeginsBlank body → (∀ c ∈ body, endsValue c = false) →
    R (x ++ (body ++ '\x7d' :: more)) = .ok (F (String.ofList (Text.trim (start ++ body))), '\x7d' :: more)

theorem Quotes.through {start y : List Char} {R : List Char → Reading α} {R' : List Char → Reading β}
    {F : String → α} {F' : String → β} {k : Reading α → Reading β} (h : Quotes start R F x)
    (hR : ∀ t, BeginsBlank t → R' (y ++ t) = k (R (x ++ t)))
    (hk : ∀ v more, k (.ok (F v, '\x7d' :: more)) = .ok (F' v, '\x7d' :: more)) : Quotes start R' F' y := by
  intro body more hBlank hInside
  rw [hR _ (hBlank.append _), h body more hBlank hInside, hk]

theorem quotes_value (hVisible : BeginsVisible x) (h : inValue x = some .value) : Quotes x value id x := by
  intro body more hBlank hInside
  have hStart : ∀ c ∈ x, endsValue c = false := by
    unfold inValue Standing.skipping at h
    split at h
    · next hNil => simpa using List.dropWhile_eq_nil_iff.mp hNil
    · cases h
  have hAll : ∀ c ∈ x ++ body, (!endsValue c) = true := by
    intro c hc
    rw [List.mem_append] at hc
    rw [Bool.not_eq_true']
    exact hc.elim (hStart c) (hInside c)
  unfold value
  rw [← List.append_assoc, List.takeWhile_append_of_pos hAll, List.dropWhile_append_of_pos hAll,
    List.takeWhile_cons_of_neg (by decide), List.dropWhile_cons_of_neg (by decide), List.append_nil]
  dsimp only
  rw [if_neg (by rw [List.isEmpty_iff]; exact (hVisible.append body).trim_ne_nil), id]

theorem exists_quotes_declaration (h : inDeclaration x = some .value) :
    ∃ start name, BeginsVisible start ∧ Quotes start declaration (fun v => (name, v)) x := by
  obtain hNone | ⟨-, name, afterName, hWord, hPlace⟩ := Standing.andThen_eq_some h
  · cases hNone
  obtain ⟨hMore, hPlace⟩ := Standing.afterBlank_eq_value hPlace
  obtain hNone | ⟨-, _, afterColon, hColon, hPlace⟩ := Standing.andThen_eq_some hPlace
  · cases hNone
  obtain ⟨hMore', hPlace⟩ := Standing.afterBlank_eq_value hPlace
  obtain hValue | ⟨-, _, _, -, hNone⟩ := Standing.andThen_eq_some hPlace
  · refine ⟨_, name, beginsVisible_skipBlank hMore', (quotes_value (beginsVisible_skipBlank hMore') hValue).through
      (k := fun r => andThen r fun text rest => .ok ((name, text), rest)) (fun t hBlank => ?_) fun _ _ => rfl⟩
    rw [declaration_eq, (tracks_word x).eq_ok rfl hWord hBlank, andThen, hBlank.skipBlank_append_of_ne_nil hMore,
      (tracks_expect (by decide) _).eq_ok rfl hColon hBlank, andThen, hBlank.skipBlank_append_of_ne_nil hMore']
  · cases hNone

theorem resumed_brace (d : Declarations) (p : String × String) (more : List Char) :
    resumed d p ('\x7d' :: more) = .ok (d.insert p.1 p.2, '\x7d' :: more) := by
  have hEnd : ∀ c ∈ ('\x7d' :: more).head?, c = '\x7d' := by
    rintro _ ⟨⟩
    rfl
  rw [resumed_of_stop d p fun c hc => by rw [hEnd c hc]; rfl, recovered_of_end _ hEnd]

theorem exists_quotes_declared {d : Declarations} (h : inDeclarations x = some .value) :
    ∃ start, ∃ d' : Declarations, ∃ name, BeginsVisible start ∧
      Quotes start (declared d) (fun v => d'.insert name v) x := by
  induction hLength : x.length using Nat.strongRecOn generalizing d x with
  | ind n ih =>
    subst hLength
    cases x with
    | nil =>
      rw [inDeclarations] at h
      cases h
    | cons c cs =>
      rw [inDeclarations] at h
      split at h
      · cases h
      · next hBrace =>
        have hRun : ∀ t, declared d (c :: cs ++ t) = recovering (declaration (c :: cs ++ t)) (resumed d) fun rest =>
            recovered d (rest.dropWhile (!endsValue ·)) := fun t => declared_cons hBrace
        -- The value is that of this declaration, or of one behind it, which was read or stepped over.
        obtain hHere | ⟨hNone, ⟨p, after, hRead, hPlace⟩ | ⟨f, hRead, hPlace⟩⟩ := Standing.recovering_eq_some h
        · obtain ⟨start, name, hVisible, hQuotes⟩ := exists_quotes_declaration hHere
          refine ⟨start, d, name, hVisible, hQuotes.through (k := fun r => recovering r (resumed d) fun rest =>
            recovered d (rest.dropWhile (!endsValue ·))) (fun t _ => hRun t) fun v more => ?_⟩
          exact resumed_brace d (name, v) more
        · obtain ⟨hMore, hPlace⟩ := Standing.afterBlank_eq_value hPlace
          obtain ⟨y, hPlace, hLength, hNext⟩ := Standing.pastMark_eq_value hPlace hMore
          have hShorter := length_declaration_lt hRead
          have hBlank := length_skipBlank_le after
          obtain ⟨start, d', name, hVisible, hQuotes⟩ :=
            ih _ (by omega) (Standing.below_eq_some hPlace) (d := d.insert p.1 p.2) rfl
          refine ⟨start, d', name, hVisible, hQuotes.through (k := id) (fun t hBlank => ?_) fun _ _ => rfl⟩
          rw [hRun, (tracks_declaration (c :: cs)).eq_ok hNone hRead hBlank, recovering, resumed,
            hBlank.skipBlank_append_of_ne_nil hMore, hNext t hBlank, id]
        · obtain ⟨hMore, hPlace⟩ := Standing.skipping_eq_value (by decide) hPlace
          obtain ⟨next, hMark, hMore', hPlace⟩ := Standing.behindMark_eq_value hPlace
          have hShorter := length_declaration_failure hRead
          have hDrop := length_dropWhile_le (!endsValue ·) f.rest
          have hBlank := length_skipBlank_le next
          rw [hMark, List.length_cons] at hDrop
          obtain ⟨start, d', name, hVisible, hQuotes⟩ :=
            ih _ (by omega) (Standing.below_eq_some hPlace) (d := d) rfl
          refine ⟨start, d', name, hVisible, hQuotes.through (k := id) (fun t hBlank => ?_) fun _ _ => rfl⟩
          obtain ⟨f', hFailed, hRest⟩ := (tracks_declaration (c :: cs)).eq_error hNone hRead hBlank
          rw [hRun, hFailed, recovering, hRest, dropWhile_append_of_ne_nil hMore, hMark, recovered,
            List.cons_append, behindMark_self, hBlank.skipBlank_append_of_ne_nil hMore', id]

theorem exists_quotes_opened (h : inOpened x = some .value) :
    ∃ start ss, ∃ d : Declarations, ∃ name, BeginsVisible start ∧ ss ≠ [] ∧
      Quotes start opened (fun v => (ss, d.insert name v)) x := by
  obtain hSelectors | ⟨hNone, ss, rest, hRead, hPlace⟩ := Standing.andThen_eq_some h
  · exact absurd hSelectors (inSelectors_ne_value x)
  obtain hNowhere | ⟨-, _, inside, hBrace, hPlace⟩ := Standing.andThen_eq_some hPlace
  · cases hNowhere
  obtain ⟨hMore, hPlace⟩ := Standing.afterBlank_eq_value hPlace
  obtain hBlock | ⟨-, _, _, -, hNowhere⟩ := Standing.andThen_eq_some hPlace
  · obtain ⟨start, d, name, hVisible, hQuotes⟩ := exists_quotes_declared (d := .empty) hBlock
    obtain ⟨s, others, rfl, -⟩ := Stylesheet.prefix_selectors hRead
    refine ⟨start, _, d, name, hVisible, by simp, hQuotes.through
      (k := fun r => andThen r fun d rest => .ok (([] ++ s :: others, d), rest)) (fun t hBlank => ?_) fun _ _ => rfl⟩
    rw [opened, (tracks_selectors [] x).eq_ok hNone hRead hBlank, andThen,
      (tracks_expect (by decide) _).eq_ok rfl hBrace hBlank, andThen, hBlank.skipBlank_append_of_ne_nil hMore]
  · cases hNowhere

end Sheet

namespace Stylesheet

open Sheet

theorem inOpened_of_inRuled {x : List Char} (h : inRuled x = some .value) : inOpened x = some .value := by
  obtain hRule | ⟨-, ⟨_, _, -, hNowhere⟩ | ⟨f, -, hPlace⟩⟩ := Standing.recovering_eq_some h
  · obtain hOpened | ⟨-, _, _, -, hPlace⟩ := Standing.andThen_eq_some hRule
    · exact hOpened
    · obtain hNowhere | ⟨-, _, _, -, hNowhere⟩ := Standing.andThen_eq_some hPlace
      · cases hNowhere
      · cases hNowhere
  · cases hNowhere
  · cases (Standing.skipping_eq_value (by decide) hPlace).2

/-- Behind a text that breaks off inside a value everything before a closing brace is taken into the value. -/
theorem exists_rules_of_value {cs : List Char} (h : placeAfter cs = .value) :
    ∃ before ss start, ∃ d : Declarations, ∃ name, ss ≠ [] ∧ BeginsVisible start ∧
      ∀ body more, BeginsBlank body → (∀ c ∈ body, endsValue c = false) →
        (read (cs ++ (body ++ '\x7d' :: more))).rules =
          before ++ ss.map (⟨·, d.insert name (String.ofList (Text.trim (start ++ body)))⟩) ++ (read more).rules := by
  fun_induction placeAfter cs with
  | case1 cs p hPlace =>
    -- The value stands in the first rule.
    subst h
    obtain ⟨hMore, hPlace⟩ := Standing.afterBlank_eq_value hPlace
    obtain ⟨start, ss, d, name, hVisible, hNonempty, hQuotes⟩ := exists_quotes_opened (inOpened_of_inRuled hPlace)
    refine ⟨[], ss, start, d, name, hNonempty, hVisible, fun body more hBlank hInside => ?_⟩
    rw [rules_read_eq_rulesFrom, (hBlank.append _).skipBlank_append_of_ne_nil hMore, ruled, outcome_eq,
      hQuotes body more hBlank hInside]
    rfl
  | case2 cs hPlace after hPast ih =>
    obtain ⟨before, ss, start, d, name, hNonempty, hVisible, hRules⟩ := ih h
    refine ⟨firstRules (skipBlank cs) ++ before, ss, start, d, name, hNonempty, hVisible,
      fun body more hBlank hInside => ?_⟩
    rw [rules_read_append_of_within hPlace (hBlank.append _)]
    rcases ruled_cases (skipBlank cs) with ⟨after', hPast', hRuled⟩ | ⟨hPast', -⟩
    · rw [hPast] at hPast'
      cases hPast'
      rw [hRuled, followedBy, rulesFrom, hRules body more hBlank hInside]
      simp only [List.append_assoc]
    · rw [hPast] at hPast'
      cases hPast'
  | case3 => cases h

end Stylesheet

end PageRender
