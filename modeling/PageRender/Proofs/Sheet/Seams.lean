import PageRender.Sheet.Stylesheet

/-! # Reading across the end of a text

What a reader of stylesheets does with a text when more lines follow. A reader that leaves something of
the text is not affected by what follows. One that gets to the end of the text goes on into what follows.
-/

namespace PageRender.Sheet

variable {α β : Type}

/-- The text behind a part, or at which the part could not be read. -/
def restOf : Reading α → List Char
  | .ok (_, rest) => rest
  | .error f => f.rest

/-- A reading of the same part with more text behind. -/
def followedBy (more : List Char) : Reading α → Reading α
  | .ok (v, rest) => .ok (v, rest ++ more)
  | .error f => .error ⟨f.left + more.length, f.finding, f.rest ++ more⟩

def andThen (x : Reading α) (f : α → List Char → Reading β) : Reading β :=
  match x with
  | .ok (v, rest) => f v rest
  | .error e => .error e

def Consumes (R : List Char → Reading α) : Prop :=
  ∀ cs, restOf (R cs) <:+ cs

/-- A reader at a text that more lines may follow. -/
structure Crosses (R : List Char → Reading α) (cs : List Char) : Prop where
  within : ∀ b, restOf (R cs) ≠ [] → R (cs ++ '\n' :: b) = followedBy ('\n' :: b) (R cs)
  beyond : ∀ b, restOf (R cs) = [] → restOf (R (cs ++ '\n' :: b)) <:+ '\n' :: b

theorem Consumes.after {R : List Char → Reading α} {g : List Char → List Char} (h : Consumes R)
    (hg : ∀ cs, g cs <:+ cs) : Consumes fun cs => R (g cs) :=
  fun cs => (h _).trans (hg cs)

theorem Consumes.nil {R : List Char → Reading α} (h : Consumes R) : restOf (R []) = [] :=
  List.eq_nil_of_suffix_nil (h [])

theorem Crosses.of_nil {R : List Char → Reading α} (h : Consumes R) : Crosses R [] :=
  ⟨fun _ hRest => absurd h.nil hRest, fun b _ => h ('\n' :: b)⟩

/-- What is made of a part crosses the end of a text with the part. -/
theorem Crosses.continued {R : List Char → Reading α} {k : Reading α → Reading β} {cs : List Char}
    (hR : Crosses R cs) (hSuffix : ∀ x, restOf (k x) <:+ restOf x)
    (hWithin : ∀ b, restOf (k (R cs)) ≠ [] →
      k (followedBy ('\n' :: b) (R cs)) = followedBy ('\n' :: b) (k (R cs)))
    (hBeyond : ∀ b, restOf (R cs) ≠ [] → restOf (k (R cs)) = [] →
      restOf (k (followedBy ('\n' :: b) (R cs))) <:+ '\n' :: b) :
    Crosses (fun cs => k (R cs)) cs := by
  constructor
  · intro b hRest
    have hNonempty : restOf (R cs) ≠ [] := by
      intro hNil
      exact hRest (List.eq_nil_of_suffix_nil (hNil ▸ hSuffix (R cs)))
    rw [hR.within b hNonempty, hWithin b hRest]
  · intro b hRest
    by_cases hNil : restOf (R cs) = []
    · exact (hSuffix _).trans (hR.beyond b hNil)
    · rw [hR.within b hNil]
      exact hBeyond b hNil hRest

theorem restOf_andThen_suffix {f : α → List Char → Reading β} (hf : ∀ v, Consumes (f v)) (x : Reading α) :
    restOf (andThen x f) <:+ restOf x := by
  cases x with
  | error e => exact List.suffix_refl _
  | ok p => exact hf p.1 p.2

theorem Consumes.andThen {R : List Char → Reading α} {f : α → List Char → Reading β} (hR : Consumes R)
    (hf : ∀ v, Consumes (f v)) : Consumes fun cs => andThen (R cs) f :=
  fun cs => (restOf_andThen_suffix hf (R cs)).trans (hR cs)

theorem Crosses.andThen {R : List Char → Reading α} {f : α → List Char → Reading β} {cs : List Char}
    (hR : Crosses R cs) (hConsumes : ∀ v, Consumes (f v))
    (hf : ∀ v rest, R cs = .ok (v, rest) → Crosses (f v) rest) :
    Crosses (fun cs => andThen (R cs) f) cs := by
  refine hR.continued (k := fun x => Sheet.andThen x f) (restOf_andThen_suffix hConsumes) ?_ ?_
  · intro b hRest
    cases hRead : R cs with
    | error e => rfl
    | ok p =>
      rw [hRead] at hRest
      exact (hf p.1 p.2 hRead).within b hRest
  · intro b hNonempty hRest
    cases hRead : R cs with
    | error e =>
      rw [hRead] at hNonempty hRest
      exact absurd hRest hNonempty
    | ok p =>
      rw [hRead] at hRest
      exact (hf p.1 p.2 hRead).beyond b hRest

/-- Goes on behind a part, or where it could not be read. -/
def recovering (x : Reading α) (f : α → List Char → Reading β) (g : List Char → Reading β) : Reading β :=
  match x with
  | .ok (v, rest) => f v rest
  | .error e => g e.rest

theorem restOf_recovering_suffix {f : α → List Char → Reading β} {g : List Char → Reading β}
    (hf : ∀ v, Consumes (f v)) (hg : Consumes g) (x : Reading α) : restOf (recovering x f g) <:+ restOf x := by
  cases x with
  | error e => exact hg e.rest
  | ok p => exact hf p.1 p.2

theorem Crosses.recovering {R : List Char → Reading α} {f : α → List Char → Reading β}
    {g : List Char → Reading β} {cs : List Char} (hR : Crosses R cs) (hfConsumes : ∀ v, Consumes (f v))
    (hgConsumes : Consumes g) (hf : ∀ v rest, R cs = .ok (v, rest) → Crosses (f v) rest)
    (hg : ∀ e, R cs = .error e → Crosses g e.rest) : Crosses (fun cs => recovering (R cs) f g) cs := by
  refine hR.continued (k := fun x => Sheet.recovering x f g) (restOf_recovering_suffix hfConsumes hgConsumes)
    ?_ ?_
  · intro b hRest
    cases hRead : R cs with
    | error e =>
      rw [hRead] at hRest
      exact (hg e hRead).within b hRest
    | ok p =>
      rw [hRead] at hRest
      exact (hf p.1 p.2 hRead).within b hRest
  · intro b _ hRest
    cases hRead : R cs with
    | error e =>
      rw [hRead] at hRest
      exact (hg e hRead).beyond b hRest
    | ok p =>
      rw [hRead] at hRest
      exact (hf p.1 p.2 hRead).beyond b hRest

theorem consumes_ok (v : α) : Consumes fun cs => .ok (v, cs) :=
  fun _ => List.suffix_refl _

theorem crosses_ok (v : α) (cs : List Char) : Crosses (fun cs => .ok (v, cs)) cs := by
  refine ⟨fun b _ => rfl, fun b hRest => ?_⟩
  have hNil : cs = [] := hRest
  subst hNil
  exact List.suffix_refl _

theorem Crosses.of_eq {R S : List Char → Reading α} {cs ds : List Char} (hS : Crosses S ds)
    (h : ∀ b, R (cs ++ b) = S (ds ++ b)) : Crosses R cs := by
  have hSame : R cs = S ds := by simpa using h []
  constructor
  · intro b hRest
    rw [hSame] at hRest ⊢
    rw [h]
    exact hS.within b hRest
  · intro b hRest
    rw [hSame] at hRest
    rw [h]
    exact hS.beyond b hRest

theorem Crosses.cons {R S : List Char → Reading α} {c : Char} {cs : List Char}
    (h : ∀ ds, R (c :: ds) = S ds) (hS : Crosses S cs) : Crosses R (c :: cs) :=
  hS.of_eq fun b => h (cs ++ b)

theorem Crosses.congr {R S : List Char → Reading α} {c : Char} {cs : List Char}
    (h : ∀ ds, R (c :: ds) = S (c :: ds)) (hS : Crosses S (c :: cs)) : Crosses R (c :: cs) :=
  hS.of_eq fun b => h (cs ++ b)

/-- A reader that crosses the end of every text. -/
structure Carries (R : List Char → Reading α) : Prop where
  consumes : Consumes R
  crosses : ∀ cs, Crosses R cs

theorem Carries.andThen {R : List Char → Reading α} {f : α → List Char → Reading β} (hR : Carries R)
    (hf : ∀ v, Carries (f v)) : Carries fun cs => andThen (R cs) f where
  consumes := hR.consumes.andThen fun v => (hf v).consumes
  crosses cs := (hR.crosses cs).andThen (fun v => (hf v).consumes) fun v rest _ => (hf v).crosses rest

theorem carries_ok (v : α) : Carries fun cs => .ok (v, cs) :=
  ⟨consumes_ok v, crosses_ok v⟩

/-- A reader that takes something off the front of a text. -/
def skipping (g : List Char → List Char) (cs : List Char) : Reading Unit :=
  .ok ((), g cs)

theorem Crosses.after {R : List Char → Reading α} {g : List Char → List Char} {cs : List Char}
    (h : Crosses R (g cs)) (hg : Carries (skipping g)) (hConsumes : Consumes R) :
    Crosses (fun cs => R (g cs)) cs := by
  refine (hg.crosses cs).andThen (f := fun _ => R) (fun _ => hConsumes) ?_
  rintro _ _ ⟨⟩
  exact h

/-! ## Blanks -/

theorem afterComment_suffix (cs : List Char) : afterComment cs <:+ cs := by
  fun_induction afterComment cs with
  | case1 cs => exact (List.suffix_cons _ _).trans (List.suffix_cons _ _)
  | case2 c cs _ ih => exact ih.trans (List.suffix_cons _ _)
  | case3 => exact List.suffix_refl []

theorem skipBlank_suffix (cs : List Char) : skipBlank cs <:+ cs := by
  fun_induction skipBlank cs with
  | case1 => exact List.suffix_refl []
  | case2 c cs _ ih => exact ih.trans (List.suffix_cons _ _)
  | case3 c cs _ _ ih =>
    exact ih.trans ((afterComment_suffix _).trans ((List.drop_suffix 1 cs).trans (List.suffix_cons _ _)))
  | case4 => exact List.suffix_refl _

/-- Whether a comment that has begun ends. -/
def commentEnds : List Char → Bool
  | '*' :: '/' :: _ => true
  | _ :: cs => commentEnds cs
  | [] => false

theorem afterComment_append {cs : List Char} (h : commentEnds cs = true) (b : List Char) :
    afterComment (cs ++ b) = afterComment cs ++ b := by
  fun_induction commentEnds cs with
  | case1 cs => rfl
  | case2 c cs hNot ih =>
    rw [List.cons_append, afterComment, afterComment, ih h]
    · exact hNot
    · intro rest hc hcs
      cases cs with
      | nil => cases h
      | cons d ds =>
        rw [List.cons_append, List.cons.injEq] at hcs
        exact hNot ds hc (by rw [hcs.1])
  | case3 => cases h

theorem afterComment_of_open {cs : List Char} (h : commentEnds cs = false) (b : List Char) :
    afterComment cs = [] ∧ afterComment (cs ++ '\n' :: b) = afterComment b := by
  fun_induction commentEnds cs with
  | case1 => cases h
  | case2 c cs hNot ih =>
    obtain ⟨hNil, hGoesOn⟩ := ih h
    constructor
    · rw [afterComment]
      · exact hNil
      · exact hNot
    · rw [List.cons_append, afterComment]
      · exact hGoesOn
      · intro rest hc hcs
        cases cs with
        | nil => cases hcs
        | cons d ds =>
          rw [List.cons_append, List.cons.injEq] at hcs
          exact hNot ds hc (by rw [hcs.1])
  | case3 =>
    refine ⟨rfl, ?_⟩
    rw [List.nil_append, afterComment]
    simp

/-- Whether no comment before the first thing to read is left open. -/
def blankEnds (cs : List Char) : Bool :=
  match cs with
  | [] => true
  | c :: cs =>
    if Text.isBlank c then blankEnds cs
    else if c == '/' && cs.head? == some '*' then
      commentEnds (cs.drop 1) && blankEnds (afterComment (cs.drop 1))
    else true
termination_by cs.length
decreasing_by
  · simp
  · have := length_afterComment_le (cs.drop 1)
    simp only [List.length_drop, List.length_cons] at *
    omega

theorem skipBlank_nil : skipBlank [] = [] := by
  rw [skipBlank]

theorem skipBlank_of_isBlank {c : Char} (h : Text.isBlank c = true) (cs : List Char) :
    skipBlank (c :: cs) = skipBlank cs := by
  rw [skipBlank, if_pos h]

theorem skipBlank_comment (cs : List Char) : skipBlank ('/' :: '*' :: cs) = skipBlank (afterComment cs) := by
  rw [skipBlank, if_neg (by decide), if_pos (by simp), List.drop_one, List.tail_cons]

theorem exists_of_beginsComment {c : Char} {cs : List Char} (h : (c == '/' && cs.head? == some '*') = true) :
    ∃ ds, c = '/' ∧ cs = '*' :: ds := by
  cases cs with
  | nil => simp at h
  | cons d ds => exact ⟨ds, by simpa using h⟩

/-- Blanks that end go on into a text behind them, which does not complete the beginning of a comment. -/
theorem skipBlank_append_of_head? {cs t : List Char} (hHead : t.head? ≠ some '*') (h : blankEnds cs = true) :
    skipBlank (cs ++ t) = if skipBlank cs = [] then skipBlank t else skipBlank cs ++ t := by
  fun_induction blankEnds cs with
  | case1 => rw [List.nil_append, skipBlank_nil, if_pos rfl]
  | case2 c cs hBlank ih =>
    rw [List.cons_append, skipBlank_of_isBlank hBlank, skipBlank_of_isBlank hBlank]
    exact ih h
  | case3 c cs hBlank hComment ih =>
    obtain ⟨ds, rfl, rfl⟩ := exists_of_beginsComment hComment
    rw [List.drop_one, List.tail_cons] at h ih
    rw [Bool.and_eq_true] at h
    rw [List.cons_append, List.cons_append, skipBlank_comment, skipBlank_comment, afterComment_append h.1]
    exact ih h.2
  | case4 c cs hBlank hComment =>
    have hNot : ¬(c == '/' && (cs ++ t).head? == some '*') = true := by
      cases cs with
      | nil => simp [hHead]
      | cons d ds => exact hComment
    rw [List.cons_append, skipBlank, skipBlank, if_neg hBlank, if_neg hBlank, if_neg hNot,
      if_neg hComment, if_neg (List.cons_ne_nil _ _), List.cons_append]

theorem skipBlank_append {cs : List Char} (h : blankEnds cs = true) (b : List Char) :
    skipBlank (cs ++ '\n' :: b) = if skipBlank cs = [] then skipBlank b else skipBlank cs ++ '\n' :: b := by
  rw [skipBlank_append_of_head? (by simp) h, skipBlank_of_isBlank (by decide)]

theorem skipBlank_of_open {cs : List Char} (h : blankEnds cs = false) (b : List Char) :
    skipBlank cs = [] ∧ skipBlank (cs ++ '\n' :: b) = skipBlank (afterComment b) := by
  fun_induction blankEnds cs with
  | case1 => cases h
  | case2 c cs hBlank ih =>
    rw [List.cons_append, skipBlank_of_isBlank hBlank, skipBlank_of_isBlank hBlank]
    exact ih h
  | case3 c cs hBlank hComment ih =>
    obtain ⟨ds, rfl, rfl⟩ := exists_of_beginsComment hComment
    rw [List.drop_one, List.tail_cons] at h ih
    rw [List.cons_append, List.cons_append, skipBlank_comment, skipBlank_comment]
    cases hEnds : commentEnds ds with
    | true =>
      rw [afterComment_append hEnds]
      exact ih (by simpa [hEnds] using h)
    | false =>
      obtain ⟨hNil, hGoesOn⟩ := afterComment_of_open hEnds b
      rw [hNil, hGoesOn, skipBlank]
      exact ⟨rfl, rfl⟩
  | case4 => cases h

theorem skipBlank_append_of_ne_nil {cs : List Char} (h : skipBlank cs ≠ []) (b : List Char) :
    skipBlank (cs ++ '\n' :: b) = skipBlank cs ++ '\n' :: b := by
  cases hEnds : blankEnds cs with
  | true => rw [skipBlank_append hEnds, if_neg h]
  | false => exact absurd (skipBlank_of_open hEnds b).1 h

theorem skipBlank_append_suffix {cs : List Char} (h : skipBlank cs = []) (b : List Char) :
    skipBlank (cs ++ '\n' :: b) <:+ '\n' :: b := by
  have hLine := List.suffix_cons '\n' b
  cases hEnds : blankEnds cs with
  | true =>
    rw [skipBlank_append hEnds, if_pos h]
    exact (skipBlank_suffix b).trans hLine
  | false =>
    rw [(skipBlank_of_open hEnds b).2]
    exact ((skipBlank_suffix _).trans (afterComment_suffix b)).trans hLine

theorem carries_skipBlank : Carries (skipping skipBlank) where
  consumes := skipBlank_suffix
  crosses cs := by
    refine ⟨fun b hRest => ?_, fun b hRest => skipBlank_append_suffix hRest b⟩
    rw [skipping, skipBlank_append_of_ne_nil hRest]
    rfl

theorem Carries.afterBlank {R : List Char → Reading α} (h : Carries R) :
    Carries fun cs => R (skipBlank cs) :=
  carries_skipBlank.andThen fun _ => h

/-- Goes on behind a mark and the blanks after it, if the mark comes next. -/
def behindMark (mark : Char) (v : α) (R : List Char → Reading α) : List Char → Reading α
  | [] => .ok (v, [])
  | c :: rest => if c == mark then R (skipBlank rest) else .ok (v, c :: rest)

section

variable {mark : Char} {v : α} {R : List Char → Reading α}

theorem behindMark_self (rest : List Char) : behindMark mark v R (mark :: rest) = R (skipBlank rest) := by
  rw [behindMark, if_pos (beq_self_eq_true mark)]

theorem behindMark_of_ne {cs : List Char} (h : ∀ rest, cs ≠ mark :: rest) :
    behindMark mark v R cs = .ok (v, cs) := by
  cases cs with
  | nil => rfl
  | cons c rest =>
    rw [behindMark, if_neg]
    rw [beq_iff_eq]
    rintro rfl
    exact h rest rfl

theorem consumes_behindMark (hR : Consumes R) : Consumes (behindMark mark v R) := by
  intro cs
  unfold behindMark
  split
  · exact List.suffix_refl []
  · split
    · exact (hR _).trans ((skipBlank_suffix _).trans (List.suffix_cons _ _))
    · exact List.suffix_refl _

theorem crosses_behindMark {cs : List Char} (hR : Consumes R)
    (h : ∀ rest, cs = mark :: rest → Crosses R (skipBlank rest)) : Crosses (behindMark mark v R) cs := by
  cases cs with
  | nil => exact .of_nil (consumes_behindMark hR)
  | cons c rest =>
    by_cases hMark : c = mark
    · subst hMark
      have hBlank : Crosses (fun rest => R (skipBlank rest)) rest := (h rest rfl).after carries_skipBlank hR
      exact .cons behindMark_self hBlank
    · refine .congr (fun ds => behindMark_of_ne fun rest hEq => ?_) (crosses_ok v (c :: rest))
      exact hMark (List.cons.inj hEq).1

end

/-! ## Words, marks and values -/

theorem consumes_word : Consumes word := by
  intro cs
  unfold word
  split
  · exact List.suffix_refl []
  · split
    · exact (List.dropWhile_suffix _).trans (List.suffix_cons _ _)
    · exact List.suffix_refl _

theorem consumes_expect (mark : Char) : Consumes (expect mark) := by
  intro cs
  unfold expect
  split
  · exact List.suffix_refl []
  · split
    · exact List.suffix_cons _ _
    · exact List.suffix_refl _

theorem consumes_value : Consumes value := by
  intro cs
  unfold value
  dsimp only
  split
  · exact List.dropWhile_suffix _
  · exact List.dropWhile_suffix _

theorem dropWhile_append_of_ne_nil {p : Char → Bool} {cs : List Char} (h : cs.dropWhile p ≠ [])
    (b : List Char) : (cs ++ b).dropWhile p = cs.dropWhile p ++ b := by
  rw [List.dropWhile_append, if_neg (by simpa using h)]

theorem takeWhile_append_of_ne_nil {p : Char → Bool} {cs : List Char} (h : cs.dropWhile p ≠ [])
    (b : List Char) : (cs ++ b).takeWhile p = cs.takeWhile p := by
  rw [List.takeWhile_append, if_neg]
  intro hLength
  have hSplit := congrArg List.length (List.takeWhile_append_dropWhile (p := p) (l := cs))
  rw [List.length_append, hLength] at hSplit
  exact h (List.eq_nil_of_length_eq_zero (by omega))

theorem dropWhile_append_suffix {p : Char → Bool} {cs : List Char} (h : cs.dropWhile p = [])
    (b : List Char) : (cs ++ b).dropWhile p <:+ b := by
  rw [List.dropWhile_append, if_pos (by simpa using h)]
  exact List.dropWhile_suffix p

theorem carries_dropWhile (p : Char → Bool) : Carries (skipping (List.dropWhile p)) where
  consumes _ := List.dropWhile_suffix p
  crosses cs := by
    refine ⟨fun b hRest => ?_, fun b hRest => dropWhile_append_suffix hRest _⟩
    rw [skipping, dropWhile_append_of_ne_nil hRest]
    rfl

theorem crosses_word (cs : List Char) : Crosses word cs := by
  cases cs with
  | nil => exact .of_nil consumes_word
  | cons c cs =>
    cases hWord : isWordChar c with
    | false =>
      constructor
      · intro b _
        simp [word, hWord, failAt, followedBy]
        omega
      · intro b hRest
        simp [word, hWord, failAt, restOf] at hRest
    | true =>
      constructor
      · intro b hRest
        simp only [word, hWord, if_true, restOf] at hRest
        simp only [List.cons_append, word, hWord, if_true, followedBy, takeWhile_append_of_ne_nil hRest,
          dropWhile_append_of_ne_nil hRest]
      · intro b hRest
        simp only [word, hWord, if_true, restOf] at hRest
        simp only [List.cons_append, word, hWord, if_true, restOf]
        exact dropWhile_append_suffix hRest _

theorem crosses_expect (mark : Char) (cs : List Char) : Crosses (expect mark) cs := by
  cases cs with
  | nil => exact .of_nil (consumes_expect mark)
  | cons c cs =>
    cases hMark : c == mark with
    | false =>
      constructor
      · intro b _
        simp [expect, hMark, failAt, followedBy]
        omega
      · intro b hRest
        simp [expect, hMark, failAt, restOf] at hRest
    | true =>
      constructor
      · intro b _
        simp [expect, hMark, followedBy]
      · intro b hRest
        simp only [expect, hMark, if_true, restOf] at hRest
        simp [expect, hMark, restOf, hRest]

theorem crosses_value (cs : List Char) : Crosses value cs := by
  have hRestOf : ∀ ds, restOf (value ds) = ds.dropWhile (!endsValue ·) := by
    intro ds
    unfold value
    dsimp only
    split <;> rfl
  constructor
  · intro b hRest
    rw [hRestOf] at hRest
    simp only [value, takeWhile_append_of_ne_nil hRest, dropWhile_append_of_ne_nil hRest]
    split <;> simp [followedBy]
  · intro b hRest
    rw [hRestOf] at hRest ⊢
    exact dropWhile_append_suffix hRest _

theorem carries_word : Carries word :=
  ⟨consumes_word, crosses_word⟩

theorem carries_expect (mark : Char) : Carries (expect mark) :=
  ⟨consumes_expect mark, crosses_expect mark⟩

theorem carries_value : Carries value :=
  ⟨consumes_value, crosses_value⟩

/-! ## Declarations and blocks -/

theorem declaration_eq (cs : List Char) :
    declaration cs = andThen (word cs) fun name afterName =>
      andThen (expect ':' (skipBlank afterName)) fun _ afterColon =>
        andThen (value (skipBlank afterColon)) fun text rest => .ok ((name, text), rest) := by
  unfold declaration andThen
  repeat' split
  all_goals simp_all

theorem carries_declaration : Carries declaration := by
  rw [funext declaration_eq]
  refine carries_word.andThen fun name => ((carries_expect ':').andThen fun _ => ?_).afterBlank
  exact (carries_value.andThen fun text => carries_ok (name, text)).afterBlank

/-- The text behind a semicolon and the blanks after it, if there is a semicolon. -/
def pastMark : List Char → List Char
  | ';' :: next => skipBlank next
  | next => next

theorem pastMark_suffix (cs : List Char) : pastMark cs <:+ cs := by
  unfold pastMark
  split
  · exact (skipBlank_suffix _).trans (List.suffix_cons _ _)
  · exact List.suffix_refl _

theorem carries_pastMark : Carries (skipping pastMark) where
  consumes := pastMark_suffix
  crosses cs := by
    cases cs with
    | nil => exact .of_nil pastMark_suffix
    | cons c cs =>
      by_cases hMark : c = ';'
      · subst hMark
        exact .cons (fun _ => rfl) (carries_skipBlank.crosses cs)
      · refine .congr (fun ds => ?_) (crosses_ok () (c :: cs))
        simp [skipping, pastMark, hMark]

section

variable {taken : Block} {c : Char} {cs : List Char}

theorem declarations_nil : declarations taken [] = { taken with rest := [] } := by
  rw [declarations]

theorem declarations_brace : declarations taken ('\x7d' :: cs) = { taken with rest := '\x7d' :: cs } := by
  rw [declarations, if_pos (by simp)]

theorem declarations_ok {name text : String} {after : List Char} (hBrace : ¬(c == '\x7d') = true)
    (hRead : declaration (c :: cs) = .ok ((name, text), after)) :
    declarations taken (c :: cs) =
      declarations { taken with declarations := taken.declarations.insert name text }
        (pastMark (skipBlank after)) := by
  rw [declarations, if_neg hBrace]
  split
  · next hRead' =>
    rw [hRead] at hRead'
    cases hRead'
    unfold pastMark
    dsimp only
    split <;> simp_all
  · next hRead' =>
    rw [hRead] at hRead'
    cases hRead'

theorem declarations_semicolon {f : Failure} {next : List Char} (hBrace : ¬(c == '\x7d') = true)
    (hRead : declaration (c :: cs) = .error f) (hNext : f.rest.dropWhile (!endsValue ·) = ';' :: next) :
    declarations taken (c :: cs) =
      declarations { taken with findings := taken.findings ++ [(f.left, f.finding)] } (skipBlank next) := by
  rw [declarations, if_neg hBrace]
  split
  · next hRead' =>
    rw [hRead] at hRead'
    cases hRead'
  · next hRead' =>
    rw [hRead] at hRead'
    cases hRead'
    dsimp only
    split <;> simp_all

theorem declarations_stop {f : Failure} (hBrace : ¬(c == '\x7d') = true)
    (hRead : declaration (c :: cs) = .error f)
    (hNext : ∀ next, f.rest.dropWhile (!endsValue ·) ≠ ';' :: next) :
    declarations taken (c :: cs) =
      { taken with
        findings := taken.findings ++ [(f.left, f.finding)]
        rest := f.rest.dropWhile (!endsValue ·) } := by
  rw [declarations, if_neg hBrace]
  split
  · next hRead' =>
    rw [hRead] at hRead'
    cases hRead'
  · next hRead' =>
    rw [hRead] at hRead'
    cases hRead'
    dsimp only
    split <;> simp_all

end

theorem declarations_suffix (taken : Block) (cs : List Char) : (declarations taken cs).rest <:+ cs := by
  fun_induction declarations taken cs with
  | case1 => exact List.suffix_refl []
  | case2 => exact List.suffix_refl _
  | case3 taken c rest _ name text after hRead _ next hNext ih =>
    have hAfter := carries_declaration.consumes (c :: rest)
    have hBlank := skipBlank_suffix after
    rw [hRead] at hAfter
    rw [hNext] at hBlank
    exact ih.trans ((skipBlank_suffix next).trans ((List.suffix_cons _ _).trans (hBlank.trans hAfter)))
  | case4 taken c rest _ name text after hRead _ _ ih =>
    have hAfter := carries_declaration.consumes (c :: rest)
    rw [hRead] at hAfter
    exact ih.trans ((skipBlank_suffix after).trans hAfter)
  | case5 taken c rest _ f hRead _ next hNext ih =>
    have hAfter := carries_declaration.consumes (c :: rest)
    have hDrop := List.dropWhile_suffix (l := f.rest) (!endsValue ·)
    rw [hRead] at hAfter
    rw [hNext] at hDrop
    exact ih.trans ((skipBlank_suffix next).trans ((List.suffix_cons _ _).trans (hDrop.trans hAfter)))
  | case6 taken c rest _ f hRead =>
    have hAfter := carries_declaration.consumes (c :: rest)
    rw [hRead] at hAfter
    exact (List.dropWhile_suffix _).trans hAfter

/-- The findings before a declaration do not change what the block declares. -/
theorem declarations_congr (taken : Block) (cs : List Char) :
    ∀ taken' : Block, taken'.declarations = taken.declarations →
      (declarations taken' cs).declarations = (declarations taken cs).declarations ∧
        (declarations taken' cs).rest = (declarations taken cs).rest := by
  fun_induction declarations taken cs with
  | case1 taken =>
    intro taken' h
    rw [declarations_nil]
    exact ⟨h, rfl⟩
  | case2 taken c rest hBrace =>
    intro taken' h
    rw [beq_iff_eq] at hBrace
    rw [hBrace, declarations_brace]
    exact ⟨h, rfl⟩
  | case3 taken c rest hBrace name text after hRead _ next hNext ih =>
    intro taken' h
    rw [declarations_ok hBrace hRead, hNext]
    exact ih _ (by rw [h])
  | case4 taken c rest hBrace name text after hRead _ hNext ih =>
    intro taken' h
    have hMark : pastMark (skipBlank after) = skipBlank after := by
      unfold pastMark
      split
      · next next hEq => exact (hNext next hEq).elim
      · rfl
    rw [declarations_ok hBrace hRead, hMark]
    exact ih _ (by rw [h])
  | case5 taken c rest hBrace f hRead _ next hNext ih =>
    intro taken' h
    rw [declarations_semicolon hBrace hRead hNext]
    exact ih _ h
  | case6 taken c rest hBrace f hRead _ hNext =>
    intro taken' h
    rw [declarations_stop hBrace hRead hNext]
    exact ⟨h, rfl⟩

/-- The block that begins with some declarations, as a part that is read. -/
def declared (d : Declarations) (cs : List Char) : Reading Declarations :=
  .ok ((declarations { declarations := d } cs).declarations, (declarations { declarations := d } cs).rest)

theorem declared_declarations (taken : Block) (cs : List Char) :
    .ok ((declarations taken cs).declarations, (declarations taken cs).rest) =
      declared taken.declarations cs := by
  obtain ⟨hDeclarations, hRest⟩ := declarations_congr taken cs { declarations := taken.declarations } rfl
  rw [declared, hDeclarations, hRest]

/-- The block behind a declaration that could not be read, from the mark that ends it. -/
def recovered (d : Declarations) : List Char → Reading Declarations :=
  behindMark ';' d (declared d)

/-- The block behind a declaration that has been read. -/
def resumed (d : Declarations) (p : String × String) (after : List Char) : Reading Declarations :=
  declared (d.insert p.1 p.2) (pastMark (skipBlank after))

theorem declared_cons {d : Declarations} {c : Char} {cs : List Char} (hBrace : ¬(c == '\x7d') = true) :
    declared d (c :: cs) = recovering (declaration (c :: cs)) (resumed d) fun rest =>
      recovered d (rest.dropWhile (!endsValue ·)) := by
  rw [declared]
  cases hRead : declaration (c :: cs) with
  | ok p =>
    obtain ⟨⟨name, text⟩, after⟩ := p
    rw [declarations_ok hBrace hRead]
    rfl
  | error f =>
    rw [recovering, recovered]
    by_cases hMark : ∃ next, f.rest.dropWhile (!endsValue ·) = ';' :: next
    · obtain ⟨next, hNext⟩ := hMark
      rw [declarations_semicolon hBrace hRead hNext, hNext, behindMark_self]
      exact declared_declarations _ _
    · have hNext := not_exists.mp hMark
      rw [declarations_stop hBrace hRead hNext, behindMark_of_ne hNext]

theorem consumes_declared (d : Declarations) : Consumes (declared d) :=
  declarations_suffix _

theorem consumes_recovered (d : Declarations) : Consumes (recovered d) :=
  consumes_behindMark (consumes_declared d)

theorem consumes_resumed (d : Declarations) (p : String × String) : Consumes (resumed d p) :=
  ((consumes_declared _).after pastMark_suffix).after skipBlank_suffix

theorem crosses_declared (d : Declarations) (cs : List Char) : Crosses (declared d) cs := by
  induction hLength : cs.length using Nat.strongRecOn generalizing d cs with
  | ind n ih =>
    subst hLength
    cases cs with
    | nil => exact .of_nil (consumes_declared d)
    | cons c cs =>
      by_cases hBrace : (c == '\x7d') = true
      · refine .congr (fun ds => ?_) (crosses_ok d (c :: cs))
        rw [beq_iff_eq] at hBrace
        rw [hBrace, declared, declarations_brace]
      · have hAfter : ∀ p after, declaration (c :: cs) = .ok (p, after) → Crosses (resumed d p) after := by
          intro p after hRead
          have hShorter := length_declaration_lt hRead
          have hBlank := length_skipBlank_le after
          have hMark := (pastMark_suffix (skipBlank after)).length_le
          have hNext := ih _ (by omega) (d.insert p.1 p.2) (pastMark (skipBlank after)) rfl
          have hPast : Crosses (fun rest => declared (d.insert p.1 p.2) (pastMark rest)) (skipBlank after) :=
            hNext.after carries_pastMark (consumes_declared _)
          exact hPast.after carries_skipBlank ((consumes_declared _).after pastMark_suffix)
        have hFailed : ∀ f, declaration (c :: cs) = .error f →
            Crosses (fun rest => recovered d (rest.dropWhile (!endsValue ·))) f.rest := by
          intro f hRead
          have hShorter := length_declaration_failure hRead
          have hDrop := length_dropWhile_le (!endsValue ·) f.rest
          have hRecovered : Crosses (recovered d) (f.rest.dropWhile (!endsValue ·)) := by
            refine crosses_behindMark (consumes_declared d) fun next hNext => ?_
            have hBlank := length_skipBlank_le next
            rw [hNext, List.length_cons] at hDrop
            exact ih _ (by omega) d _ rfl
          exact hRecovered.after (carries_dropWhile _) (consumes_recovered d)
        have hConsumes : Consumes fun rest => recovered d (rest.dropWhile (!endsValue ·)) :=
          (consumes_recovered d).after fun _ => List.dropWhile_suffix _
        have hRead := (carries_declaration.crosses (c :: cs)).recovering (consumes_resumed d) hConsumes
          hAfter hFailed
        exact .congr (fun ds => declared_cons hBrace) hRead

/-! ## Selectors and rules -/

theorem selectorWords_cons {s : Selector} {c : Char} {cs : List Char}
    (hMark : ¬(c == '\x7b' || c == ',') = true) :
    selectorWords s (c :: cs) = andThen (word (c :: cs)) fun name after =>
      selectorWords (s.within name) (skipBlank after) := by
  rw [selectorWords, if_neg hMark]
  split <;> simp_all [andThen]

theorem selectorWords_mark {s : Selector} {c : Char} {cs : List Char}
    (hMark : (c == '\x7b' || c == ',') = true) : selectorWords s (c :: cs) = .ok (s, c :: cs) := by
  rw [selectorWords, if_pos hMark]

theorem consumes_selectorWords (s : Selector) : Consumes (selectorWords s) := by
  intro cs
  fun_induction selectorWords s cs with
  | case1 => exact List.suffix_refl []
  | case2 => exact List.suffix_refl _
  | case3 s c rest _ name after hRead ih =>
    have hAfter := consumes_word (c :: rest)
    rw [hRead] at hAfter
    exact ih.trans ((skipBlank_suffix after).trans hAfter)
  | case4 s c rest _ f hRead =>
    have hAfter := consumes_word (c :: rest)
    rw [hRead] at hAfter
    exact hAfter

theorem crosses_selectorWords (s : Selector) (cs : List Char) : Crosses (selectorWords s) cs := by
  induction hLength : cs.length using Nat.strongRecOn generalizing s cs with
  | ind n ih =>
    subst hLength
    cases cs with
    | nil => exact .of_nil (consumes_selectorWords s)
    | cons c cs =>
      by_cases hMark : (c == '\x7b' || c == ',') = true
      · exact .congr (fun _ => selectorWords_mark hMark) (crosses_ok s (c :: cs))
      · have hConsumes : ∀ name, Consumes fun after => selectorWords (s.within name) (skipBlank after) :=
          fun name => (consumes_selectorWords _).after skipBlank_suffix
        have hWords : Crosses (fun ds => andThen (word ds) fun name after =>
            selectorWords (s.within name) (skipBlank after)) (c :: cs) := by
          refine (crosses_word (c :: cs)).andThen hConsumes fun name after hRead => ?_
          have hShorter := length_word_lt hRead
          have hBlank := length_skipBlank_le after
          have hNext := ih _ (by omega) (s.within name) (skipBlank after) rfl
          exact hNext.after carries_skipBlank (consumes_selectorWords _)
        exact .congr (fun _ => selectorWords_cons hMark) hWords

theorem selector_eq (cs : List Char) :
    selector cs = andThen (word cs) fun name rest => selectorWords (.tag name) (skipBlank rest) := by
  unfold selector andThen
  split <;> simp_all

theorem carries_selector : Carries selector := by
  rw [funext selector_eq]
  exact carries_word.andThen fun name =>
    Carries.afterBlank ⟨consumes_selectorWords (.tag name), crosses_selectorWords (.tag name)⟩

/-- The selectors behind some others, from the comma between them. -/
def moreSelectors (taken : List Selector) : List Char → Reading (List Selector) :=
  behindMark ',' taken (selectors taken)

theorem selectors_eq (taken : List Selector) (cs : List Char) :
    selectors taken cs = andThen (selector cs) fun s rest => moreSelectors (taken ++ [s]) rest := by
  rw [selectors]
  split
  · next hRead =>
    rw [hRead, andThen, moreSelectors, behindMark_self]
  · next hMark hRead =>
    rw [hRead, andThen, moreSelectors, behindMark_of_ne hMark]
  · next hRead =>
    rw [hRead, andThen]

theorem consumes_selectors (taken : List Selector) : Consumes (selectors taken) := by
  intro cs
  fun_induction selectors taken cs with
  | case1 taken cs s rest hRead ih =>
    have hAfter := carries_selector.consumes cs
    rw [hRead] at hAfter
    exact ih.trans ((skipBlank_suffix rest).trans ((List.suffix_cons _ _).trans hAfter))
  | case2 taken cs s rest _ hRead =>
    have hAfter := carries_selector.consumes cs
    rw [hRead] at hAfter
    exact hAfter
  | case3 taken cs f hRead =>
    have hAfter := carries_selector.consumes cs
    rw [hRead] at hAfter
    exact hAfter

theorem consumes_moreSelectors (taken : List Selector) : Consumes (moreSelectors taken) :=
  consumes_behindMark (consumes_selectors taken)

theorem crosses_selectors (taken : List Selector) (cs : List Char) : Crosses (selectors taken) cs := by
  induction hLength : cs.length using Nat.strongRecOn generalizing taken cs with
  | ind n ih =>
    subst hLength
    rw [funext (selectors_eq taken)]
    refine (carries_selector.crosses cs).andThen (fun s => consumes_moreSelectors _) fun s rest hRead => ?_
    refine crosses_behindMark (consumes_selectors _) fun next hNext => ?_
    have hShorter := length_selector_lt hRead
    have hBlank := length_skipBlank_le next
    rw [hNext, List.length_cons] at hShorter
    exact ih _ (by omega) _ _ rfl

/-- The end of a rule, its selectors and declarations having been read. -/
def closed (ss : List Selector) (d : Declarations) (cs : List Char) : Reading (List Rule) :=
  andThen (expect '\x7d' cs) fun _ after => .ok (ss.map (⟨·, d⟩), after)

/-- The selectors and declarations of a rule, up to the brace that closes it. -/
def opened (cs : List Char) : Reading (List Selector × Declarations) :=
  andThen (selectors [] cs) fun ss rest =>
    andThen (expect '\x7b' rest) fun _ inside =>
      andThen (declared .empty (skipBlank inside)) fun d rest => .ok ((ss, d), rest)

theorem outcome_eq (cs : List Char) :
    (rule cs).outcome = andThen (opened cs) fun p rest => closed p.1 p.2 rest := by
  unfold rule opened
  cases selectors [] cs with
  | error f => rfl
  | ok p =>
    dsimp only [andThen]
    cases expect '\x7b' p.2 with
    | error f => rfl
    | ok q =>
      dsimp only [closed, andThen, declared]
      cases hClose : expect '\x7d' (block q.2).rest <;> simp_all [block]

theorem carries_declared (d : Declarations) : Carries (declared d) :=
  ⟨consumes_declared d, crosses_declared d⟩

theorem carries_closed (ss : List Selector) (d : Declarations) : Carries (closed ss d) :=
  (carries_expect '\x7d').andThen fun _ => carries_ok _

theorem carries_opened : Carries opened := by
  refine Carries.andThen ⟨consumes_selectors [], crosses_selectors []⟩ fun ss => ?_
  refine (carries_expect '\x7b').andThen fun _ => ?_
  exact ((carries_declared .empty).andThen fun d => carries_ok (ss, d)).afterBlank

theorem carries_outcome : Carries fun cs => (rule cs).outcome := by
  rw [funext outcome_eq]
  exact carries_opened.andThen fun p => carries_closed p.1 p.2

theorem outcome_append {cs after : List Char} {rs : List Rule} (h : (rule cs).outcome = .ok (rs, after))
    (b : List Char) : (rule (cs ++ '\n' :: b)).outcome = .ok (rs, after ++ '\n' :: b) := by
  rw [outcome_eq] at h ⊢
  cases hOpened : opened cs with
  | error f =>
    rw [hOpened] at h
    cases h
  | ok p =>
    obtain ⟨⟨ss, d⟩, rest⟩ := p
    rw [hOpened] at h
    cases rest with
    | nil => cases h
    | cons c rest =>
      have hWithin := (carries_opened.crosses cs).within b (by rw [hOpened]; exact List.cons_ne_nil _ _)
      rw [hWithin, hOpened]
      simp only [andThen, closed, expect, followedBy, List.cons_append] at h ⊢
      split at h
      · next hClose =>
        cases hMark : c == '\x7d' with
        | true =>
          rw [hMark, if_pos rfl] at hClose
          cases hClose
          cases h
          simp
        | false => simp [hMark, failAt] at hClose
      · cases h

end PageRender.Sheet
