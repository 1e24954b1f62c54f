import PageRender.Proofs.Sheet.Standing

/-! # Where a stylesheet breaks off

What a reader of stylesheets is doing at the end of a text, for each of the readers that a stylesheet is read with.
Two texts between which that makes no difference give the same rules behind it.
-/

namespace PageRender

namespace Sheet

variable {x : List Char}

namespace Standing

/-- Where a reader stands that goes on in texts shorter than a bound. -/
def below (bound : Nat) (P : (ds : List Char) → ds.length < bound → Option Place) : Standing := fun ds =>
  if h : ds.length < bound then P ds h else none

end Standing

theorem Tracks.below {α : Type} {P : Standing} {R : List Char → Reading α} {bound : Nat} (h : Tracks P R x)
    (hShorter : x.length < bound) : Tracks (.below bound fun ds _ => P ds) R x :=
  h.of_eq (dif_pos hShorter) (fun _ _ => rfl) rfl

/-! ## Selectors -/

def inSelectorWords (cs : List Char) : Option Place :=
  match cs with
  | [] => none
  | c :: rest =>
    if c == '\x7b' || c == ',' then none
    else Standing.nowhere.andThen word
      (fun _ => (Standing.below (rest.length + 1) fun ds _h => inSelectorWords ds).afterBlank) (c :: rest)
termination_by cs.length
decreasing_by exact _h

theorem tracks_selectorWords (s : Selector) (hNonempty : x ≠ []) : Tracks inSelectorWords (selectorWords s) x := by
  induction hLength : x.length using Nat.strongRecOn generalizing s x with
  | ind n ih =>
    subst hLength
    obtain ⟨c, cs, rfl⟩ := List.exists_cons_of_ne_nil hNonempty
    by_cases hMark : (c == '\x7b' || c == ',') = true
    · exact (tracks_ok s (c :: cs)).cons (by rw [inSelectorWords, if_pos hMark]; rfl) fun _ =>
        selectorWords_mark hMark
    · have hWords : Tracks (Standing.nowhere.andThen word fun _ =>
          (Standing.below (cs.length + 1) fun ds _ => inSelectorWords ds).afterBlank)
          (fun ds => andThen (word ds) fun name after => selectorWords (s.within name) (skipBlank after))
          (c :: cs) := by
        refine (tracks_word (c :: cs)).andThen fun name after hRead => ?_
        have hShorter := length_word_lt hRead
        have hBlank := length_skipBlank_le after
        rw [List.length_cons] at hShorter
        exact .afterBlank fun hMore => (ih _ (by rw [List.length_cons]; omega) (s.within name) hMore rfl).below
          (by omega)
      exact hWords.cons (by rw [inSelectorWords, if_neg hMark]) fun _ => selectorWords_cons hMark

def inSelector : Standing :=
  Standing.nowhere.andThen word fun _ => Standing.afterBlank inSelectorWords

theorem tracks_selector (x : List Char) : Tracks inSelector selector x := by
  rw [funext selector_eq]
  exact (tracks_word x).andThen fun name after _ => .afterBlank (tracks_selectorWords (.tag name))

def inSelectors (cs : List Char) : Option Place :=
  inSelector.andThen selector
    (fun _ => (Standing.below cs.length fun ds _h => inSelectors ds).behindMark ',') cs
termination_by cs.length
decreasing_by exact _h

theorem tracks_selectors (taken : List Selector) (x : List Char) : Tracks inSelectors (selectors taken) x := by
  induction hLength : x.length using Nat.strongRecOn generalizing taken x with
  | ind n ih =>
    subst hLength
    have hSelectors : Tracks (inSelector.andThen selector fun _ =>
        (Standing.below x.length fun ds _ => inSelectors ds).behindMark ',')
        (fun ds => andThen (selector ds) fun s rest => moreSelectors (taken ++ [s]) rest) x := by
      refine (tracks_selector x).andThen fun s rest hRead => .behindMark (by decide) ?_
      rintro next rfl
      have hShorter := length_selector_lt hRead
      have hBlank := length_skipBlank_le next
      rw [List.length_cons] at hShorter
      exact .afterBlank fun _ => (ih _ (by omega) (taken ++ [s]) (skipBlank next) rfl).below (by omega)
    rw [funext (selectors_eq taken)]
    exact hSelectors.of_eq (by rw [inSelectors]) (fun _ _ => rfl) rfl

/-! ## Declarations -/

def inDeclaration : Standing :=
  Standing.nowhere.andThen word fun _ => Standing.afterBlank <|
    Standing.nowhere.andThen (expect ':') fun _ => Standing.afterBlank <|
      inValue.andThen value fun _ => .nowhere

theorem tracks_declaration (x : List Char) : Tracks inDeclaration declaration x := by
  rw [funext declaration_eq]
  refine (tracks_word x).andThen fun name afterName _ => .afterBlank (R := fun ds =>
    andThen (expect ':' ds) fun _ afterColon =>
      andThen (value (skipBlank afterColon)) fun text rest => .ok ((name, text), rest)) fun _ => ?_
  refine (tracks_expect (by decide) _).andThen fun _ afterColon _ => .afterBlank (R := fun ds =>
    andThen (value ds) fun text rest => .ok ((name, text), rest)) fun _ => ?_
  exact (tracks_value _).andThen fun text rest _ => tracks_ok (name, text) rest

/-- Where a reader stands in a declaration or in the rest of its block. -/
def inDeclarationOr (P : Standing) : Standing :=
  inDeclaration.recovering declaration (fun _ => P.pastMark.afterBlank)
    ((P.behindMark ';').skipping (!endsValue ·) .brokenDeclaration)

def inDeclarations (cs : List Char) : Option Place :=
  match cs with
  | [] => none
  | c :: rest =>
    if c == '\x7d' then none
    else inDeclarationOr (.below (rest.length + 1) fun ds _h => inDeclarations ds) (c :: rest)
termination_by cs.length
decreasing_by exact _h

theorem tracks_declared (d : Declarations) (hNonempty : x ≠ []) : Tracks inDeclarations (declared d) x := by
  induction hLength : x.length using Nat.strongRecOn generalizing d x with
  | ind n ih =>
    subst hLength
    obtain ⟨c, cs, rfl⟩ := List.exists_cons_of_ne_nil hNonempty
    by_cases hBrace : (c == '\x7d') = true
    · have hEnds : ∀ ds, declared d (c :: ds) = .ok (d, c :: ds) := fun ds => by
        rw [beq_iff_eq.mp hBrace, declared, declarations_brace]
      exact (tracks_ok d (c :: cs)).cons (by rw [inDeclarations, if_pos hBrace]; rfl) hEnds
    · rw [List.length_cons] at ih
      -- Where the block goes on in a shorter text, the place there is the place in the block.
      have hMore : ∀ d {y : List Char}, y ≠ [] → y.length < cs.length + 1 →
          Tracks (.below (cs.length + 1) fun ds _ => inDeclarations ds) (declared d) y :=
        fun d y hMore hShorter => (ih y.length hShorter d hMore rfl).below hShorter
      have hBlock : Tracks (inDeclarationOr (.below (cs.length + 1) fun ds _ => inDeclarations ds))
          (fun ds => recovering (declaration ds) (resumed d) fun rest => recovered d (rest.dropWhile (!endsValue ·)))
          (c :: cs) := by
        refine (tracks_declaration (c :: cs)).recovering (fun p after hRead => ?_) fun f hRead => ?_
        · have hShorter := length_declaration_lt hRead
          have hBlank := length_skipBlank_le after
          rw [List.length_cons] at hShorter
          refine .afterBlank (R := fun ds => declared (d.insert p.1 p.2) (pastMark ds)) fun hRest => ?_
          refine .pastMark hRest (fun next hNext => .afterBlank fun hNextMore => hMore _ hNextMore ?_)
            fun _ => hMore _ hRest (by omega)
          have hBlank' := length_skipBlank_le next
          rw [hNext, List.length_cons] at hBlank
          omega
        · have hShorter := length_declaration_failure hRead
          have hDrop := length_dropWhile_le (!endsValue ·) f.rest
          rw [List.length_cons] at hShorter
          refine .skipping (fun _ _ hAgrees => hAgrees) fun _ => .behindMark (by decide) fun next hNext => ?_
          have hBlank := length_skipBlank_le next
          rw [hNext, List.length_cons] at hDrop
          exact .afterBlank fun hNextMore => hMore d hNextMore (by omega)
      exact hBlock.cons (by rw [inDeclarations, if_neg hBrace]) fun _ => declared_cons hBrace

/-! ## Rules -/

def inOpened : Standing :=
  Standing.andThen inSelectors (selectors []) fun _ =>
    Standing.nowhere.andThen (expect '\x7b') fun _ => Standing.afterBlank <|
      Standing.andThen inDeclarations (declared .empty) fun _ => .nowhere

theorem tracks_opened (x : List Char) : Tracks inOpened opened x := by
  refine (tracks_selectors [] x).andThen fun ss rest _ => ?_
  refine (tracks_expect (by decide) rest).andThen fun _ inside _ => .afterBlank (R := fun ds =>
    andThen (declared .empty ds) fun d rest => .ok ((ss, d), rest)) fun hMore => ?_
  exact (tracks_declared .empty hMore).andThen fun d rest _ => tracks_ok (ss, d) rest

def inRule : Standing :=
  inOpened.andThen opened fun _ => Standing.nowhere.andThen (expect '\x7d') fun _ => .nowhere

theorem tracks_outcome (x : List Char) : Tracks inRule (fun cs => (rule cs).outcome) x := by
  rw [funext outcome_eq]
  refine (tracks_opened x).andThen fun p rest _ => ?_
  exact (tracks_expect (by decide) rest).andThen fun _ after _ => tracks_ok _ after

end Sheet

namespace Stylesheet

open Sheet

/-- The text behind a rule that is stepped over up to a brace. -/
def steppedOver : List Char → Reading (List Rule)
  | [] => failAt [] (.expectedMark '\x7d' none)
  | _ :: after => .ok ([], after)

/-- The rules that the first rule of a text stands for, none if it is stepped over. -/
def ruled (cs : List Char) : Reading (List Rule) :=
  recovering (rule cs).outcome (fun rs after => .ok (rs, after)) fun rest =>
    steppedOver (rest.dropWhile (· != '\x7d'))

theorem ruled_cases (cs : List Char) :
    (∃ after, pastRule? cs = some after ∧ ruled cs = .ok (firstRules cs, after)) ∨
      pastRule? cs = none ∧ firstRules cs = [] ∧ ∃ e, ruled cs = .error e := by
  unfold pastRule? ruled firstRules
  cases (rule cs).outcome with
  | ok p => exact .inl ⟨p.2, rfl, rfl⟩
  | error f =>
    dsimp only [recovering]
    cases f.rest.dropWhile (· != '\x7d') with
    | nil => exact .inr ⟨rfl, rfl, _, rfl⟩
    | cons c after => exact .inl ⟨after, rfl, rfl⟩

/-- The rules of a text whose first rule has been read or stepped over. -/
def rulesFrom (x : Reading (List Rule)) : List Rule :=
  match x with
  | .ok (rs, after) => rs ++ (read after).rules
  | .error _ => []

theorem rules_read_eq_rulesFrom (cs : List Char) : (read cs).rules = rulesFrom (ruled (skipBlank cs)) := by
  rcases ruled_cases (skipBlank cs) with ⟨after, hPast, hRuled⟩ | ⟨hPast, hFirst, e, hRuled⟩
  · have hShorter := length_pastRule?_lt hPast
    rw [rules_read (List.ne_nil_of_length_pos (by omega)), hPast, hRuled]
    rfl
  · rw [hRuled]
    by_cases hNil : skipBlank cs = []
    · rw [rules_of_blank hNil]
      rfl
    · rw [rules_read hNil, hPast, hFirst]
      rfl

theorem rulesFrom_congr {x y : Reading (List Rule)} (h : gist x = gist y) : rulesFrom x = rulesFrom y := by
  cases x with
  | ok p => rw [eq_ok_of_gist h.symm]
  | error e =>
    obtain ⟨e', rfl, -⟩ := exists_eq_error_of_gist h.symm
    rfl

def inRuled : Standing :=
  inRule.recovering (fun cs => (rule cs).outcome) (fun _ => .nowhere)
    (Standing.nowhere.skipping (· != '\x7d') .brokenRule)

theorem tracks_ruled (x : List Char) : Tracks inRuled ruled x := by
  refine (tracks_outcome x).recovering (fun rs after _ => tracks_ok rs after) fun f _ => ?_
  refine .skipping (R := steppedOver) (fun _ _ hAgrees => hAgrees) fun hMore => .nowhere fun t _ => ?_
  obtain ⟨c, after, hBrace⟩ := List.exists_cons_of_ne_nil hMore
  rw [hBrace]
  rfl

/-- What a reader of stylesheets is doing at the end of a text. -/
def placeAfter (cs : List Char) : Place :=
  match inRuled.afterBlank cs with
  | some p => p
  | none =>
    match _h : pastRule? (skipBlank cs) with
    | some after => placeAfter after
    | none => .brokenRule -- a rule that does not end stands somewhere
termination_by cs.length
decreasing_by
  have hShorter := length_pastRule?_lt _h
  have hBlank := length_skipBlank_le cs
  omega

theorem tracks_first (cs : List Char) : Tracks inRuled.afterBlank (fun ds => ruled (skipBlank ds)) cs :=
  .afterBlank fun _ => tracks_ruled _

theorem rules_read_append_of_within {cs t : List Char} (hPlace : inRuled.afterBlank cs = none)
    (hBlank : BeginsBlank t) : (read (cs ++ t)).rules = rulesFrom (followedBy t (ruled (skipBlank cs))) := by
  rw [rules_read_eq_rulesFrom, rulesFrom_congr ((tracks_first cs).within hPlace t hBlank)]

/-- Texts between which a place makes no difference give the same rules there. -/
theorem rules_read_append_congr {cs t u : List Char} (hBlank : BeginsBlank t) (hBlank' : BeginsBlank u)
    (hAgrees : (placeAfter cs).Agrees t u) : (read (cs ++ t)).rules = (read (cs ++ u)).rules := by
  fun_induction placeAfter cs with
  | case1 cs p hPlace =>
    rw [rules_read_eq_rulesFrom, rules_read_eq_rulesFrom]
    exact rulesFrom_congr ((tracks_first cs).beyond p hPlace t u hBlank hBlank' hAgrees)
  | case2 cs hPlace after hPast ih =>
    rw [rules_read_append_of_within hPlace hBlank, rules_read_append_of_within hPlace hBlank']
    rcases ruled_cases (skipBlank cs) with ⟨after', hPast', hRuled⟩ | ⟨hPast', -⟩
    · rw [hPast] at hPast'
      cases hPast'
      rw [hRuled, followedBy, followedBy, rulesFrom, rulesFrom, ih hAgrees]
    · rw [hPast] at hPast'
      cases hPast'
  | case3 cs hPlace hPast =>
    rw [rules_read_append_of_within hPlace hBlank, rules_read_append_of_within hPlace hBlank']
    rcases ruled_cases (skipBlank cs) with ⟨after', hPast', -⟩ | ⟨-, -, e, hRuled⟩
    · rw [hPast] at hPast'
      cases hPast'
    · rw [hRuled]
      rfl

end Stylesheet

end PageRender
