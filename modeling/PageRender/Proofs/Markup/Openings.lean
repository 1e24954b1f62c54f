import PageRender.Proofs.Markup.Resuming

/-! # Openings of plain content

Behind the opening tag of an element with plain content stands its content. It is taken up to where a closing
tag of that name seems to begin. That may turn out to be another tag, or no tag at all.
-/

namespace PageRender

namespace Node

variable {α : Type}

def isRaw (n : Node α) : Bool :=
  n.tag?.any (Tag.rawTags.contains ·)

def rawElements (n : Node α) : List (Node α) :=
  n.descendants.filter isRaw

theorem rawElements_eq (n : Node α) :
    n.rawElements = (if n.isRaw then [n] else []) ++ n.children.flatMap rawElements := by
  rw [rawElements, descendants_eq_cons, List.filter_cons, List.filter_flatMap]
  split_ifs <;> rfl

theorem rawElements_text (i : α) (s : String) : (text i s).rawElements = [] :=
  rawElements_eq _

theorem rawElements_element {i : α} {t : String} {a : Attributes} {cs : List (Node α)} (h : t ∉ Tag.rawTags) :
    (element i t a cs).rawElements = cs.flatMap rawElements := by
  rw [rawElements_eq, if_neg (by simpa [isRaw, tag?] using h)]
  rfl

theorem rawElements_raw {i : α} {t : String} {a : Attributes} {cs : List (Node α)} (h : t ∈ Tag.rawTags) :
    (element i t a cs).rawElements = element i t a cs :: cs.flatMap rawElements := by
  rw [rawElements_eq, if_pos (by simpa [isRaw, tag?] using h)]
  rfl

/-- The nodes that a run of text adds. -/
def ofRun (run : List Char) : List (Node Unit) :=
  if run.all Text.isBlank then [] else [text () (String.ofList run)]

theorem rawElements_ofRun (run : List Char) : (ofRun run).flatMap rawElements = [] := by
  rw [ofRun]
  split_ifs
  · rfl
  · rw [List.flatMap_singleton, rawElements_text]

end Node

namespace Markup

/-- An opening tag of an element with plain content, and the source behind it. -/
structure Opening where
  tag : Tag
  behind : List Char

/-- Whether a text begins with a closing tag: the name, perhaps blanks, and the closing bracket. -/
def closes (name : String) (cs : List Char) : Bool :=
  startsWith ('<' :: Tag.closingText name) cs &&
    ((cs.drop (name.toList.length + 2)).dropWhile Text.isBlank).head? == some '>'

/-- The text up to the first closing tag, or all of it if there is none. -/
def upToClosing (name : String) : List Char → List Char
  | [] => []
  | c :: cs => if closes name (c :: cs) then [] else c :: upToClosing name cs

namespace Opening

def content (o : Opening) : List (Node Unit) :=
  Node.ofRun (splitRaw o.tag.name o.behind).1

/-- What stands behind the content: nothing, or what seems to be a closing tag and the source behind it. -/
def rest (o : Opening) : List Char :=
  (splitRaw o.tag.name o.behind).2

/-- No other tag begins where the content is to be closed. -/
def Ended (o : Opening) : Prop :=
  '<' ∉ (o.rest.drop 1).takeWhile (· != '>')

def EndsWell (o : Opening) : Prop :=
  o.rest = [] ∨ closes o.tag.name o.rest = true

instance : DecidablePred Ended := fun _ => inferInstanceAs (Decidable (_ ∉ _))

instance : DecidablePred EndsWell := fun _ => inferInstanceAs (Decidable (_ ∨ _))

theorem rawElements_content (o : Opening) : o.content.flatMap Node.rawElements = [] :=
  Node.rawElements_ofRun _

end Opening

theorem upToClosing_closing {name : String} {c : Char} {cs : List Char} (h : closes name (c :: cs) = true) :
    upToClosing name (c :: cs) = [] := by
  rw [upToClosing, if_pos h]

theorem upToClosing_cons {name : String} {c : Char} {cs : List Char} (h : ¬closes name (c :: cs) = true) :
    upToClosing name (c :: cs) = c :: upToClosing name cs := by
  rw [upToClosing, if_neg h]

theorem startsWith_of_closes {name : String} {cs : List Char} (h : closes name cs = true) :
    startsWith ('<' :: Tag.closingText name) cs = true :=
  (Bool.and_eq_true_iff.mp h).1

/-- The text up to a closing tag goes on where the content is taken to end, if that is no closing tag. -/
theorem upToClosing_eq (name : String) (cs : List Char) :
    upToClosing name cs = (splitRaw name cs).1 ++ upToClosing name (splitRaw name cs).2 := by
  induction cs with
  | nil => rfl
  | cons c cs ih =>
    by_cases h : startsWith ('<' :: Tag.closingText name) (c :: cs) = true
    · rw [splitRaw_closing h, List.nil_append]
    · rw [splitRaw_cons h, upToClosing_cons (fun hCloses => h (startsWith_of_closes hCloses)), List.cons_append,
        ih]

theorem noClosing_splitRaw (name : String) (cs : List Char) : Node.NoClosing name (splitRaw name cs).1 := by
  induction cs with
  | nil =>
    intro ds hds
    rw [splitRaw] at hds
    rw [List.suffix_nil.mp hds]
    rfl
  | cons c cs ih =>
    by_cases h : startsWith ('<' :: Tag.closingText name) (c :: cs) = true
    · rw [splitRaw_closing h]
      intro ds hds
      rw [List.suffix_nil.mp hds]
      rfl
    · rw [splitRaw_cons h]
      intro ds hds
      rcases List.suffix_cons_iff.mp hds with rfl | hds
      · refine Bool.eq_false_iff.mpr fun hHere => h ?_
        have hText := startsWith_append_right hHere (splitRaw name cs).2
        rwa [List.cons_append, splitRaw_fst_append_snd] at hText
      · exact ih ds hds

theorem noClosing_of_notMem {cs : List Char} (h : '<' ∉ cs) (name : String) : Node.NoClosing name cs := by
  intro ds hds
  cases ds with
  | nil => rfl
  | cons d ds =>
    have hOther : matchesLetter '<' d = false := by
      refine Bool.eq_false_iff.mpr fun hBracket => h ?_
      rw [← eq_of_matchesLetter (by decide) hBracket]
      exact hds.mem List.mem_cons_self
    rw [startsWith, hOther, Bool.false_and]

theorem exists_append_of_startsWith {ps cs : List Char} (hLetters : ∀ p ∈ ps, matchesLetter p '<' = false)
    (h : startsWith ps cs = true) :
    ∃ ds more, cs = ds ++ more ∧ ds.length = ps.length ∧ '<' ∉ ds ∧ startsWith ps ds = true := by
  induction ps generalizing cs with
  | nil => exact ⟨[], cs, rfl, rfl, List.not_mem_nil, rfl⟩
  | cons p ps ih =>
    cases cs with
    | nil => cases h
    | cons c cs =>
      rw [startsWith, Bool.and_eq_true] at h
      obtain ⟨hHere, hOthers⟩ := List.forall_mem_cons.mp hLetters
      obtain ⟨ds, more, rfl, hLength, hNone, hStart⟩ := ih hOthers h.2
      have hOther : '<' ≠ c := by
        rintro rfl
        rw [hHere] at h
        cases h.1
      refine ⟨c :: ds, more, rfl, by simp [hLength], ?_, ?_⟩
      · rw [List.mem_cons, not_or]
        exact ⟨hOther, hNone⟩
      · rw [startsWith, h.1, hStart]
        rfl

theorem mem_of_mem_takeWhile_bracket {cs ds : List Char} {c : Char}
    (h : c ∈ (cs ++ '>' :: ds).takeWhile (· != '>')) : c ∈ cs := by
  induction cs with
  | nil => simp at h
  | cons d cs ih =>
    rw [List.cons_append, List.takeWhile_cons] at h
    split_ifs at h
    · rcases List.mem_cons.mp h with rfl | h
      · exact List.mem_cons_self
      · exact List.mem_cons_of_mem d (ih h)
    · exact absurd h List.not_mem_nil

theorem upToClosing_append {name : String} {ds : List Char} (h : '<' ∉ ds) (cs : List Char) :
    upToClosing name (ds ++ cs) = ds ++ upToClosing name cs := by
  induction ds with
  | nil => rfl
  | cons d ds ih =>
    rw [List.mem_cons, not_or] at h
    have hOther : ¬closes name (d :: (ds ++ cs)) = true := by
      intro hCloses
      have hStart := startsWith_of_closes hCloses
      rw [startsWith, Bool.and_eq_true] at hStart
      exact h.1 (eq_of_matchesLetter (by decide) hStart.1).symm
    rw [List.cons_append, upToClosing_cons hOther, ih h.2, List.cons_append]

namespace Opening

variable {o : Opening}

theorem noClosing_content (o : Opening) {s : String} (h : .text () s ∈ o.content) :
    Node.NoClosing o.tag.name s.toList := by
  rw [content, Node.ofRun] at h
  split_ifs at h
  · exact absurd h List.not_mem_nil
  · obtain rfl : s = String.ofList (splitRaw o.tag.name o.behind).1 := by simpa using h
    rw [String.toList_ofList]
    exact noClosing_splitRaw _ _

theorem exists_rest (h : o.rest ≠ []) :
    ∃ more, o.rest = '<' :: more ∧ startsWith (Tag.closingText o.tag.name) more = true :=
  exists_splitRaw h

theorem upToClosing_of_endsWell (h : o.EndsWell) :
    upToClosing o.tag.name o.behind = (splitRaw o.tag.name o.behind).1 := by
  have hRest : upToClosing o.tag.name o.rest = [] := by
    rcases h with h | h
    · rw [h, upToClosing]
    · cases hText : o.rest with
      | nil => rfl
      | cons c cs => exact upToClosing_closing (hText ▸ h)
  rw [upToClosing_eq, ← rest, hRest, List.append_nil]

/-- What only seems to be a closing tag belongs to the text up to one. -/
theorem not_noClosing_upToClosing (hRaw : o.tag.name ∈ Tag.rawTags) (h : ¬o.EndsWell) :
    ¬Node.NoClosing o.tag.name (upToClosing o.tag.name o.behind) := by
  rw [EndsWell, not_or] at h
  obtain ⟨more, hMore, hName⟩ := exists_rest h.1
  have hLetters := matchesLetter_closingText hRaw
  obtain ⟨ds, behind, rfl, -, hNone, hStart⟩ := exists_append_of_startsWith hLetters hName
  have hRest : upToClosing o.tag.name o.rest = '<' :: (ds ++ upToClosing o.tag.name behind) := by
    have hNot := h.2
    rw [hMore] at hNot ⊢
    rw [upToClosing_cons hNot, upToClosing_append hNone]
  have hSuffix : '<' :: (ds ++ upToClosing o.tag.name behind) <:+ upToClosing o.tag.name o.behind := by
    have hText := upToClosing_eq o.tag.name o.behind
    rw [← rest, hRest] at hText
    rw [hText]
    exact List.suffix_append _ _
  intro hNoClosing
  have hFalse := hNoClosing _ hSuffix
  have hTrue := startsWith_append_right hStart (upToClosing o.tag.name behind)
  rw [startsWith, Bool.and_eq_false_iff] at hFalse
  rcases hFalse with hFalse | hFalse
  · exact absurd hFalse (by decide)
  · rw [Tag.closingText] at hTrue
    rw [hTrue] at hFalse
    cases hFalse

theorem ended_of_endsWell (hRaw : o.tag.name ∈ Tag.rawTags) (h : o.EndsWell) : o.Ended := by
  rcases h with h | h
  · rw [Ended, h]
    exact List.not_mem_nil
  · obtain ⟨hStart, hBracket⟩ := Bool.and_eq_true_iff.mp h
    have hNonempty : o.rest ≠ [] := by
      intro hNil
      rw [hNil] at hStart
      cases hStart
    obtain ⟨more, hMore, hName⟩ := exists_rest hNonempty
    have hLetters := matchesLetter_closingText hRaw
    obtain ⟨ds, behind, rfl, hLength, hNone, -⟩ := exists_append_of_startsWith hLetters hName
    have hDrop : o.rest.drop (o.tag.name.toList.length + 2) = behind := by
      rw [hMore, List.drop_succ_cons]
      exact List.drop_left' (by rw [hLength]; rfl)
    rw [hDrop, beq_iff_eq] at hBracket
    obtain ⟨after, hAfter⟩ : ∃ after, behind.dropWhile Text.isBlank = '>' :: after :=
      ⟨_, List.eq_cons_of_mem_head? hBracket⟩
    have hBehind : behind = behind.takeWhile Text.isBlank ++ '>' :: after := by
      rw [← hAfter, List.takeWhile_append_dropWhile]
    rw [Ended, hMore, List.drop_one, List.tail_cons, hBehind, ← List.append_assoc]
    intro hMem
    rcases List.mem_append.mp (mem_of_mem_takeWhile_bracket hMem) with hMem | hMem
    · exact hNone hMem
    · exact absurd (List.all_eq_true.mp List.all_takeWhile _ hMem) (by decide)

end Opening

end Markup

end PageRender
