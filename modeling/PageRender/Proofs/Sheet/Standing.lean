import PageRender.Proofs.Sheet.Pieces
import PageRender.Proofs.Sheet.Positions

/-! # Where a text breaks off

A reader that gets to the end of a text stands at a place there: between two parts, inside a value, or inside
something that is stepped over. What is read of a text behind that end depends on the place. Readers are put
together of smaller ones, and the place at which they stand in the same way.
-/

namespace PageRender.Sheet

variable {α β : Type}

/-- What a reader of stylesheets is doing where a text ends. -/
inductive Place
  | blank
  | comment
  | value
  | brokenDeclaration
  | brokenRule
  deriving DecidableEq

namespace Place

/-- It makes no difference at a place by which of two texts reading goes on. -/
def Agrees (t u : List Char) : Place → Prop
  | blank => skipBlank t = skipBlank u
  | comment | value => False
  | brokenDeclaration => t.dropWhile (!endsValue ·) = u.dropWhile (!endsValue ·)
  | brokenRule => t.dropWhile (· != '\x7d') = u.dropWhile (· != '\x7d')

end Place

/-- Where a reader stands at the end of a text, if it gets there. -/
abbrev Standing := List Char → Option Place

namespace Standing

/-- For a reader that stops at the end of a text. -/
def nowhere : Standing := fun _ => none

def afterBlank (P : Standing) : Standing := fun cs =>
  if skipBlank cs = [] then some (if blankEnds cs then .blank else .comment) else P (skipBlank cs)

def recovering (P : Standing) (R : List Char → Reading α) (Q : α → Standing) (S : Standing) : Standing :=
  fun cs =>
    match P cs with
    | some p => some p
    | none =>
      match R cs with
      | .ok (v, rest) => Q v rest
      | .error e => S e.rest

def andThen (P : Standing) (R : List Char → Reading α) (Q : α → Standing) : Standing :=
  P.recovering R Q nowhere

def skipping (P : Standing) (p : Char → Bool) (place : Place) : Standing := fun cs =>
  if cs.dropWhile p = [] then some place else P (cs.dropWhile p)

def behindMark (P : Standing) (mark : Char) : Standing
  | [] => none
  | c :: rest => if c == mark then P.afterBlank rest else none

def pastMark (P : Standing) : Standing
  | ';' :: next => P.afterBlank next
  | next => P next

end Standing

/-- A text that begins as white space does: with a space or, before a comment, with a slash. -/
def BeginsBlank (t : List Char) : Prop :=
  ∃ c cs, t = c :: cs ∧ (c = ' ' ∨ c = '/')

/-- What has been read and the text behind it, whatever there is to report. -/
def gist : Reading α → Option α × List Char
  | .ok (v, rest) => (some v, rest)
  | .error e => (none, e.rest)

theorem gist_followedBy (t : List Char) (x : Reading α) :
    gist (followedBy t x) = ((gist x).1, (gist x).2 ++ t) := by
  cases x <;> rfl

theorem eq_ok_of_gist {x : Reading α} {v : α} {rest : List Char} (h : gist x = (some v, rest)) :
    x = .ok (v, rest) := by
  cases x with
  | error e => cases h
  | ok p =>
    cases h
    rfl

theorem exists_eq_error_of_gist {x : Reading α} {rest : List Char} (h : gist x = (none, rest)) :
    ∃ e, x = .error e ∧ e.rest = rest := by
  cases x with
  | error e =>
    cases h
    exact ⟨e, rfl, rfl⟩
  | ok p => cases h

theorem gist_recovering_congr {x y : Reading α} {f : α → List Char → Reading β} {g : List Char → Reading β}
    (h : gist x = gist y) : gist (recovering x f g) = gist (recovering y f g) := by
  cases x with
  | ok p => rw [eq_ok_of_gist h.symm]
  | error e =>
    obtain ⟨e', rfl, hRest⟩ := exists_eq_error_of_gist h.symm
    rw [recovering, recovering, hRest]

/-- A reader which stands at the given place where a text ends, if it gets there, and otherwise reads the same in
front of anything that begins as white space does. -/
structure Tracks (P : Standing) (R : List Char → Reading α) (x : List Char) : Prop where
  within : P x = none → ∀ t, BeginsBlank t → gist (R (x ++ t)) = gist (followedBy t (R x))
  beyond : ∀ p, P x = some p → ∀ t u, BeginsBlank t → BeginsBlank u → p.Agrees t u →
    gist (R (x ++ t)) = gist (R (x ++ u))

section

variable {P S : Standing} {Q : α → Standing} {R : List Char → Reading α} {x : List Char}

theorem Tracks.eq_ok (hR : Tracks P R x) (hNone : P x = none) {v : α} {rest : List Char}
    (hRead : R x = .ok (v, rest)) {t : List Char} (hBlank : BeginsBlank t) : R (x ++ t) = .ok (v, rest ++ t) :=
  eq_ok_of_gist (by rw [hR.within hNone t hBlank, hRead]; rfl)

theorem Tracks.eq_error (hR : Tracks P R x) (hNone : P x = none) {e : Failure} (hRead : R x = .error e)
    {t : List Char} (hBlank : BeginsBlank t) : ∃ e', R (x ++ t) = .error e' ∧ e'.rest = e.rest ++ t :=
  exists_eq_error_of_gist (by rw [hR.within hNone t hBlank, hRead]; rfl)

theorem Tracks.of_eq {P' : Standing} {R' : List Char → Reading α} {y : List Char} (hR : Tracks P R x)
    (hPlace : P' y = P x) (h : ∀ t, BeginsBlank t → gist (R' (y ++ t)) = gist (R (x ++ t)))
    (hHere : gist (R' y) = gist (R x)) : Tracks P' R' y := by
  constructor
  · intro hNone t hBlank
    rw [h t hBlank, hR.within (hPlace ▸ hNone) t hBlank, gist_followedBy, gist_followedBy, hHere]
  · intro p hStands t u hBlank hBlank' hAgrees
    rw [h t hBlank, h u hBlank', hR.beyond p (hPlace ▸ hStands) t u hBlank hBlank' hAgrees]

theorem Tracks.cons {P' : Standing} {R' : List Char → Reading α} {c : Char} {cs : List Char}
    (hR : Tracks P R (c :: cs)) (hPlace : P' (c :: cs) = P (c :: cs)) (h : ∀ ds, R' (c :: ds) = R (c :: ds)) :
    Tracks P' R' (c :: cs) :=
  hR.of_eq hPlace (fun t _ => congrArg gist (h (cs ++ t))) (congrArg gist (h cs))

theorem Tracks.stands {p : Place} (hPlace : P x = some p)
    (h : ∀ t u, BeginsBlank t → BeginsBlank u → p.Agrees t u → gist (R (x ++ t)) = gist (R (x ++ u))) :
    Tracks P R x := by
  constructor
  · intro hNone
    rw [hPlace] at hNone
    cases hNone
  · intro q hStands
    rw [hPlace] at hStands
    cases hStands
    exact h

theorem Tracks.nowhere (h : ∀ t, BeginsBlank t → gist (R (x ++ t)) = gist (followedBy t (R x))) :
    Tracks .nowhere R x :=
  ⟨fun _ => h, fun _ hPlace => nomatch hPlace⟩

theorem tracks_ok (v : α) (x : List Char) : Tracks .nowhere (fun cs => .ok (v, cs)) x :=
  .nowhere fun _ _ => rfl

theorem tracks_failAt (finding : Finding) (x : List Char) :
    Tracks .nowhere (fun cs => (failAt cs finding : Reading α)) x :=
  .nowhere fun _ _ => rfl

theorem Tracks.recovering {f : α → List Char → Reading β} {g : List Char → Reading β} (hP : Tracks P R x)
    (hQ : ∀ v rest, R x = .ok (v, rest) → Tracks (Q v) (f v) rest)
    (hS : ∀ e, R x = .error e → Tracks S g e.rest) :
    Tracks (P.recovering R Q S) (fun cs => Sheet.recovering (R cs) f g) x := by
  cases hStands : P x with
  | some p =>
    refine .stands (p := p) (by rw [Standing.recovering, hStands]) fun t u hBlank hBlank' hAgrees => ?_
    exact gist_recovering_congr (hP.beyond p hStands t u hBlank hBlank' hAgrees)
  | none =>
    cases hRead : R x with
    | ok q =>
      refine (hQ q.1 q.2 hRead).of_eq (by rw [Standing.recovering, hStands, hRead]) (fun t hBlank => ?_)
        (by rw [hRead]; rfl)
      rw [hP.eq_ok hStands hRead hBlank]
      rfl
    | error e =>
      refine (hS e hRead).of_eq (by rw [Standing.recovering, hStands, hRead]) (fun t hBlank => ?_)
        (by rw [hRead]; rfl)
      obtain ⟨e', hFailed, hRest⟩ := hP.eq_error hStands hRead hBlank
      rw [hFailed, Sheet.recovering, hRest]

theorem Tracks.andThen {f : α → List Char → Reading β} (hP : Tracks P R x)
    (hQ : ∀ v rest, R x = .ok (v, rest) → Tracks (Q v) (f v) rest) :
    Tracks (P.andThen R Q) (fun cs => Sheet.andThen (R cs) f) x := by
  have hSame : ∀ r : Reading α, gist (Sheet.andThen r f) = gist (Sheet.recovering r f (failAt · .emptyValue)) := by
    rintro (e | p) <;> rfl
  exact (hP.recovering hQ fun e _ => tracks_failAt .emptyValue e.rest).of_eq rfl (fun t _ => hSame _) (hSame _)

/-! ## Blanks and marks -/

theorem BeginsBlank.skipBlank_append {t : List Char} (hBlank : BeginsBlank t) {x : List Char}
    (hEnds : blankEnds x = true) :
    skipBlank (x ++ t) = if skipBlank x = [] then skipBlank t else skipBlank x ++ t := by
  refine skipBlank_append_of_head? ?_ hEnds
  obtain ⟨c, cs, rfl, rfl | rfl⟩ := hBlank
  · simp
  · simp

theorem BeginsBlank.skipBlank_append_of_ne_nil {t : List Char} (hBlank : BeginsBlank t) {x : List Char}
    (hMore : skipBlank x ≠ []) : skipBlank (x ++ t) = skipBlank x ++ t := by
  cases hEnds : blankEnds x with
  | true => rw [hBlank.skipBlank_append hEnds, if_neg hMore]
  | false => exact absurd (skipBlank_of_open hEnds []).1 hMore

theorem Tracks.afterBlank (h : skipBlank x ≠ [] → Tracks P R (skipBlank x)) :
    Tracks P.afterBlank (fun cs => R (skipBlank cs)) x := by
  by_cases hNil : skipBlank x = []
  · cases hEnds : blankEnds x with
    | false =>
      refine .stands (p := .comment) (by rw [Standing.afterBlank, if_pos hNil, hEnds]; rfl) ?_
      rintro t u - - ⟨⟩
    | true =>
      refine .stands (p := .blank) (by rw [Standing.afterBlank, if_pos hNil, hEnds]; rfl) ?_
      intro t u hBlank hBlank' (hAgrees : skipBlank t = skipBlank u)
      rw [hBlank.skipBlank_append hEnds, hBlank'.skipBlank_append hEnds, if_pos hNil, if_pos hNil, hAgrees]
  · exact (h hNil).of_eq (if_neg hNil) (fun t hBlank => by rw [hBlank.skipBlank_append_of_ne_nil hNil]) rfl

theorem Tracks.skipping {p : Char → Bool} {place : Place}
    (hPlace : ∀ t u, place.Agrees t u → t.dropWhile p = u.dropWhile p)
    (h : x.dropWhile p ≠ [] → Tracks P R (x.dropWhile p)) :
    Tracks (P.skipping p place) (fun cs => R (cs.dropWhile p)) x := by
  by_cases hNil : x.dropWhile p = []
  · refine .stands (p := place) (if_pos hNil) fun t u _ _ hAgrees => ?_
    rw [List.dropWhile_append, List.dropWhile_append, hNil, List.isEmpty_nil, if_pos rfl, if_pos rfl,
      hPlace t u hAgrees]
  · refine (h hNil).of_eq (if_neg hNil) (fun t _ => ?_) rfl
    rw [dropWhile_append_of_ne_nil hNil]

theorem BeginsBlank.ne_mark {t : List Char} (hBlank : BeginsBlank t) {mark : Char}
    (hMark : mark ≠ ' ' ∧ mark ≠ '/') : ∀ rest, t ≠ mark :: rest := by
  rintro rest rfl
  obtain ⟨c, cs, hText, hFirst⟩ := hBlank
  obtain ⟨rfl, rfl⟩ := List.cons.inj hText
  exact hFirst.elim hMark.1 hMark.2

theorem Tracks.behindMark {mark : Char} {v : α} (hMark : mark ≠ ' ' ∧ mark ≠ '/')
    (h : ∀ rest, x = mark :: rest → Tracks P.afterBlank (fun cs => R (skipBlank cs)) rest) :
    Tracks (P.behindMark mark) (Sheet.behindMark mark v R) x := by
  cases x with
  | nil =>
    refine (tracks_ok v []).of_eq rfl (fun t hBlank => ?_) rfl
    rw [List.nil_append, behindMark_of_ne (hBlank.ne_mark hMark)]
  | cons c rest =>
    by_cases hFirst : (c == mark) = true
    · refine (h rest (by rw [beq_iff_eq.mp hFirst])).of_eq (if_pos hFirst) (fun t _ => ?_) ?_
      · rw [List.cons_append, Sheet.behindMark, if_pos hFirst]
      · rw [Sheet.behindMark, if_pos hFirst]
    · exact (tracks_ok v (c :: rest)).cons (if_neg hFirst) fun ds => if_neg hFirst

theorem Tracks.pastMark (hNonempty : x ≠ []) (h : ∀ next, x = ';' :: next →
      Tracks P.afterBlank (fun cs => R (skipBlank cs)) next)
    (hHere : (∀ next, x ≠ ';' :: next) → Tracks P R x) :
    Tracks P.pastMark (fun cs => R (Sheet.pastMark cs)) x := by
  obtain ⟨c, rest, rfl⟩ := List.exists_cons_of_ne_nil hNonempty
  by_cases hFirst : c = ';'
  · subst hFirst
    exact (h rest rfl).of_eq rfl (fun t _ => rfl) rfl
  · have hPast : ∀ cs, Sheet.pastMark (c :: cs) = c :: cs := fun cs => by simp [Sheet.pastMark, hFirst]
    exact (hHere fun next hText => hFirst (List.cons.inj hText).1).cons (by simp [Standing.pastMark, hFirst])
      fun ds => by rw [hPast]

/-! ## Words, marks and values -/

theorem tracks_word (x : List Char) : Tracks .nowhere word x := by
  refine .nowhere fun t hBlank => ?_
  have hEdge : ∀ c ∈ t.head?, isWordChar c = false := by
    obtain ⟨c, cs, rfl, rfl | rfl⟩ := hBlank
    · exact forall_head?_cons (by decide) cs
    · exact forall_head?_cons (by decide) cs
  cases x with
  | nil =>
    obtain ⟨f, hRead, hRest⟩ := word_eq_error (takeWhile_of_head? hEdge).1
    rw [List.nil_append, hRead, gist, hRest]
    rfl
  | cons d x =>
    rw [List.cons_append, word, word]
    split
    · rw [takeWhile_append_of_head? hEdge, dropWhile_append_of_head? hEdge]
      rfl
    · rfl

theorem tracks_expect {mark : Char} (hMark : mark ≠ ' ' ∧ mark ≠ '/') (x : List Char) :
    Tracks .nowhere (expect mark) x := by
  refine .nowhere fun t hBlank => ?_
  cases x with
  | nil =>
    obtain ⟨f, hRead, hRest⟩ := expect_eq_error (hBlank.ne_mark hMark)
    rw [List.nil_append, hRead, gist, hRest]
    rfl
  | cons d x =>
    rw [List.cons_append, expect, expect]
    split <;> rfl

def inValue : Standing :=
  Standing.nowhere.skipping (!endsValue ·) .value

theorem tracks_value (x : List Char) : Tracks inValue value x := by
  by_cases hNil : x.dropWhile (!endsValue ·) = []
  · refine .stands (p := .value) (if_pos hNil) ?_
    rintro t u - - ⟨⟩
  · have hStays : Tracks .nowhere value x := .nowhere fun t _ => by
      unfold value
      rw [takeWhile_append_of_ne_nil hNil, dropWhile_append_of_ne_nil hNil]
      dsimp only
      split <;> rfl
    exact hStays.of_eq (if_neg hNil) (fun _ _ => rfl) rfl

end

end PageRender.Sheet
