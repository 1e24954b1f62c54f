import PageRender.Proofs.Markup.Resuming

/-! # Comments

A comment is a tag that leaves nothing behind, and like every tag it ends at the first angle bracket. What
stands behind that bracket is read as markup, up to the end of the comment and on.
-/

namespace PageRender

namespace Markup

variable {b b' : Builder}

/-- What is left of a text behind its first angle bracket. An opening one begins a tag and is left too. -/
def pastBracket : List Char → List Char
  | [] => []
  | c :: cs => if c == '>' then cs else if c == '<' then c :: cs else pastBracket cs

def comment (text : String) : String :=
  "<!--" ++ text ++ "-->"

/-- What is left of a comment when it has ended. -/
def leftOver (text : String) : String :=
  String.ofList (pastBracket (text.toList ++ ['-', '-', '>']))

/-- A place between two parts of a source that is neither inside a tag nor inside plain content, and that
stands behind a tag, in front of one or at an end of the source. -/
structure IsGap (u v : String) : Prop where
  outside : (standing {} false [] u.toList).Outside
  beside : (standing {} false [] u.toList).held = [] ∨ v.toList = [] ∨ v.toList.head? = some '<'

instance (s : Standing) : Decidable s.Outside :=
  inferInstanceAs (Decidable (_ ∧ _))

instance (u v : String) : Decidable (IsGap u v) :=
  decidable_of_iff ((standing {} false [] u.toList).Outside ∧
      ((standing {} false [] u.toList).held = [] ∨ v.toList = [] ∨ v.toList.head? = some '<'))
    ⟨fun h => ⟨h.1, h.2⟩, fun h => ⟨h.outside, h.beside⟩⟩

theorem pastBracket_of_notMem {cs ds : List Char} (hOpen : '<' ∉ cs) (hClose : '>' ∉ cs) :
    pastBracket (cs ++ ds) = pastBracket ds := by
  induction cs with
  | nil => rfl
  | cons c cs ih =>
    rw [List.mem_cons, not_or] at hOpen hClose
    rw [List.cons_append, pastBracket, if_neg (by simpa using fun h => hClose.1 h.symm),
      if_neg (by simpa using fun h => hOpen.1 h.symm), ih hOpen.2 hClose.2]

/-- Inside a comment the text is stepped over up to an angle bracket. -/
theorem stack_read_mark (h : b.stack = b'.stack) (hPlain : b.rawTag? = none) (before : List Char)
    {cs : List Char} (hEnd : '>' ∈ cs) (vs : List Char) :
    (read b true (before ++ ['!']) (cs ++ vs)).stack = (read b' false [] (pastBracket cs ++ vs)).stack := by
  induction cs generalizing before with
  | nil => exact absurd hEnd List.not_mem_nil
  | cons c cs ih =>
    rw [List.cons_append]
    by_cases hOpen : c = '<'
    · subst hOpen
      have hNoted : (perform b (.beforeOpening true (before ++ ['!']) ((cs ++ vs).length + 1))).stack =
          (addRun b' ([] : List Char).reverse).stack := h
      rw [read_bracket b (by decide), pastBracket, if_neg (by decide), if_pos (by decide), List.cons_append,
        read_opening]
      exact stack_read_congr hNoted true [] _
    by_cases hClose : c = '>'
    · subst hClose
      have hTag (left : Nat) : perform b (.closed (before ++ ['!']) left) = b := by
        rw [Action.closed, List.reverse_append, perform]
        exact addTag_mark b left before.reverse
      have hRaw : rawContent b (cs ++ vs) = ([], cs ++ vs) := by rw [rawContent, hPlain]
      rw [read_tagEnd b (by decide) (by decide), pastBracket, if_pos (by decide)]
      simp only [hTag, hRaw]
      exact stack_read_congr h false [] _
    · rw [read_held b (by simpa using hOpen) (by simpa using hClose), pastBracket,
        if_neg (by simpa using hClose), if_neg (by simpa using hOpen)]
      exact ih (c :: before) (List.mem_of_ne_of_mem (Ne.symm hClose) hEnd)

theorem stack_resume_mark {s : Standing} (h : s.Outside) {cs : List Char} (hEnd : '>' ∈ cs) (vs : List Char) :
    (s.resume ('<' :: '!' :: cs ++ vs)).stack =
      (read (addRun s.builder s.held.reverse) false [] (pastBracket cs ++ vs)).stack := by
  have hPlain : (addRun s.builder s.held.reverse).rawTag? = none := by rw [rawTag?_addRun, h.2]
  rw [Standing.resume, h.1, List.cons_append, List.cons_append, read_opening, read_held _ (by decide) (by decide)]
  exact stack_read_mark rfl hPlain [] hEnd vs

/-- Beside a bracket nothing is held back, or the bracket ends what is held. -/
theorem resume_beside {s : Standing} (h : s.Outside) {vs : List Char}
    (hBeside : s.held = [] ∨ vs = [] ∨ vs.head? = some '<') :
    s.resume vs = read (addRun s.builder s.held.reverse) false [] vs := by
  rw [Standing.resume, h.1]
  rcases hBeside with hHeld | hEnd | hNext
  · rw [hHeld, addRun_nil_reverse]
  · rw [hEnd, read_nil, read_nil, addRun_nil_reverse]
  · obtain ⟨more, rfl⟩ : ∃ more, vs = '<' :: more := ⟨vs.tail, List.eq_cons_of_mem_head? hNext⟩
    rw [read_opening, read_opening, addRun_nil_reverse]

theorem leftOver_of_notMem {text : String} (hOpen : '<' ∉ text.toList) (hClose : '>' ∉ text.toList) :
    leftOver text = "" := by
  rw [leftOver, pastBracket_of_notMem hOpen hClose]
  rfl

theorem parse_root_congr {u v w : String} (h : (standing {} false [] u.toList).Outside)
    (hStack : ((standing {} false [] u.toList).resume v.toList).stack =
      ((standing {} false [] u.toList).resume w.toList).stack) :
    (parse (u ++ v)).root = (parse (u ++ w)).root := by
  have hAppend (x : String) : (read {} false [] (u ++ x).toList).stack =
      ((standing {} false [] u.toList).resume x.toList).stack := by
    rw [String.toList_append]
    exact stack_read_append rfl false [] u.toList x.toList fun hPlain => hPlain.2 h.2
  exact Builder.finish_congr (by rw [hAppend, hAppend, hStack])

/-- A comment in a gap of a source is read as an empty one with what is left of the comment behind it. If
there is no angle bracket in it, it leaves no trace in the document. -/
theorem parse_comment (u text v : String) (h : IsGap u v) :
    (parse (u ++ comment text ++ v)).root = (parse (u ++ "<!>" ++ leftOver text ++ v)).root ∧
      ('<' ∉ text.toList → '>' ∉ text.toList → (parse (u ++ comment text ++ v)).root = (parse (u ++ v)).root) := by
  obtain ⟨hOutside, hBeside⟩ := h
  have hComment : (comment text ++ v).toList =
      '<' :: '!' :: ('-' :: '-' :: (text.toList ++ ['-', '-', '>'])) ++ v.toList := by
    simp [comment]
  have hEmpty : ("<!>" ++ leftOver text ++ v).toList = '<' :: '!' :: ['>'] ++ ((leftOver text ++ v).toList) := by
    simp
  have hEnd : '>' ∈ '-' :: '-' :: (text.toList ++ ['-', '-', '>']) := by simp
  have hRead := stack_resume_mark hOutside hEnd v.toList
  have hPast : pastBracket ('-' :: '-' :: (text.toList ++ ['-', '-', '>'])) = (leftOver text).toList := by
    rw [leftOver, String.toList_ofList]
    rfl
  rw [← hComment, hPast, ← String.toList_append] at hRead
  refine ⟨?_, fun hOpen hClose => ?_⟩
  · have hAssoc : u ++ "<!>" ++ leftOver text ++ v = u ++ ("<!>" ++ leftOver text ++ v) := by
      simp only [String.append_assoc]
    rw [String.append_assoc, hAssoc]
    refine parse_root_congr hOutside ?_
    have hNothing : pastBracket ['>'] = [] := rfl
    rw [hRead, hEmpty, stack_resume_mark hOutside (List.mem_singleton.mpr rfl), hNothing, List.nil_append]
  · rw [String.append_assoc]
    refine parse_root_congr hOutside ?_
    rw [hRead, leftOver_of_notMem hOpen hClose, String.empty_append, resume_beside hOutside hBeside]

/-- What looks like a comment inside plain content is none, and does not keep one from standing behind it. -/
theorem parse_comment_behind_script :
    let u := "<script>'<!--'</script><p class='a'>"
    let text := " & -- 'b' /"
    let v := "x</p>"
    IsGap u v ∧ (parse (u ++ comment text ++ v)).root = (parse (u ++ "<!>" ++ leftOver text ++ v)).root ∧
      ('<' ∉ text.toList ∧ '>' ∉ text.toList) ∧ (parse (u ++ comment text ++ v)).root = (parse (u ++ v)).root := by
  intro u text v
  have hGap : IsGap u v := by decide +kernel
  have hText : '<' ∉ text.toList ∧ '>' ∉ text.toList := by decide
  obtain ⟨hLeftOver, hInvisible⟩ := parse_comment u text v hGap
  exact ⟨hGap, hLeftOver, hText, hInvisible hText.1 hText.2⟩

/-- The text behind a closing bracket in a comment is shown. -/
theorem comment_shown_behind_bracket :
    ¬∀ u text v : String, IsGap u v → ¬['-', '-', '>'] <:+: text.toList →
      (parse (u ++ comment text ++ v)).root = (parse (u ++ v)).root := by
  intro h
  have hGap : IsGap "" "<p>x</p>" := by decide +kernel
  have hSame := h "" " a > b " "<p>x</p>" hGap (by decide)
  revert hSame
  decide +kernel

end Markup

end PageRender
