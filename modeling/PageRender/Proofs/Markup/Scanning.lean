import PageRender.Proofs.Markup.Reading
import PageRender.Proofs.Markup.Writing

/-! # Scanning written markup

A run of text, a tag and a run of plain content are each taken whole, wherever they stand.
-/

namespace PageRender.Markup

variable (b : Builder) (held : List Char)

theorem addRun_nil : addRun b [] = b := rfl

theorem addRun_nil_reverse : addRun b ([] : List Char).reverse = b := rfl

theorem read_nil : read b false held [] = addRun b held.reverse := by
  rw [read]
  rfl

theorem read_opening (rest : List Char) :
    read b false held ('<' :: rest) = read (addRun b held.reverse) true [] rest := by
  rw [read, if_pos (by decide)]
  rfl

theorem read_text {text : List Char} (h : '<' ∉ text) (rest : List Char) :
    read b false held (text ++ rest) = read b false (text.reverse ++ held) rest := by
  induction text generalizing held with
  | nil => rfl
  | cons c cs ih =>
    rw [List.mem_cons, not_or] at h
    have hOpening : ¬(c == '<') = true := by simpa using fun hEq => h.1 hEq.symm
    rw [List.cons_append, read, if_neg hOpening, if_neg (by simp), ih (c :: held) h.2, List.reverse_cons,
      List.append_assoc, List.singleton_append]

theorem actions_inTag {text : List Char} (h : Tag.BracketFree text) (rest : List Char) :
    actions b true held (text ++ rest) = actions b true (text.reverse ++ held) rest := by
  induction text generalizing held with
  | nil => rfl
  | cons c cs ih =>
    obtain ⟨hOpen, hClose⟩ := h
    rw [List.mem_cons, not_or] at hOpen hClose
    rw [List.cons_append, actions_held b (by simpa using fun hEq => hOpen.1 hEq.symm)
        (by simpa using fun hEq => hClose.1 hEq.symm), ih (c :: held) ⟨hOpen.2, hClose.2⟩,
      List.reverse_cons, List.append_assoc, List.singleton_append]

theorem read_inTag {text : List Char} (h : Tag.BracketFree text) (rest : List Char) :
    read b true held (text ++ rest) = read b true (text.reverse ++ held) rest := by
  rw [read_eq_foldl, actions_inTag b held h, ← read_eq_foldl]

/-- The builder after a tag and the plain content behind it, and the rest of the text. -/
theorem read_tag {text : List Char} (h : Tag.BracketFree text) (rest : List Char) :
    read b true [] (text ++ '>' :: rest) =
      read (addRun (b.addTag (rest.length + 1) text)
          (rawContent (b.addTag (rest.length + 1) text) rest).1) false []
        (rawContent (b.addTag (rest.length + 1) text) rest).2 := by
  rw [read_inTag b [] h, read, if_neg (by decide), if_pos (by decide), List.append_nil,
    List.reverse_reverse]

/-- A tag whose text begins with a slash is a closing tag. -/
theorem addTag_slash (b : Builder) (left : Nat) (text : List Char) :
    b.addTag left ('/' :: text) =
      (b.settle (some (Tag.read ('/' :: text)).name)).closeTag left (Tag.read ('/' :: text)).name := by
  have hHead : (Tag.read ('/' :: text)).name.toList.head? = some '/' :=
    Tag.head?_read (by decide) Tag.foldChar_slash text
  have hTag := perform_tag b left ('/' :: text)
  rw [if_neg (Tag.ne_empty_of_head? hHead), if_neg (by rw [hHead]; decide), if_pos hHead] at hTag
  exact hTag

/-- A comment or a declaration. -/
theorem addTag_mark (b : Builder) (left : Nat) (text : List Char) : b.addTag left ('!' :: text) = b := by
  have hHead : (Tag.read ('!' :: text)).name.toList.head? = some '!' :=
    Tag.head?_read (by decide) (Text.foldChar_eq_self_of_notMem (by decide +kernel)) text
  have hTag := perform_tag b left ('!' :: text)
  rw [if_neg (Tag.ne_empty_of_head? hHead), if_pos hHead] at hTag
  exact hTag

theorem rawContent_of_notMem {b : Builder} {e : OpenElement} {es : List OpenElement}
    (hStack : b.stack = e :: es) (hTag : e.tag ∉ Tag.rawTags) (cs : List Char) :
    rawContent b cs = ([], cs) := by
  have hRaw : b.rawTag? = none := by simp [Builder.rawTag?, Builder.openTags, hStack, hTag]
  rw [rawContent, hRaw]

theorem read_tag_plain {b : Builder} {text : List Char} {e : OpenElement} {es : List OpenElement}
    (h : Tag.BracketFree text) (rest : List Char)
    (hStack : (b.addTag (rest.length + 1) text).stack = e :: es) (hTag : e.tag ∉ Tag.rawTags) :
    read b true [] (text ++ '>' :: rest) = read (b.addTag (rest.length + 1) text) false [] rest := by
  rw [read_tag b h, rawContent_of_notMem hStack hTag]
  simp only [addRun_nil]

theorem matchesLetter_bracket {p : Char} (h : p ∈ ['/', 's', 'c', 'r', 'i', 'p', 't', 'y', 'l', 'e']) :
    matchesLetter p '<' = false := by
  revert p
  decide

theorem mem_letters_of_mem_rawTags {t : String} (h : t ∈ Tag.rawTags) :
    ∀ p ∈ '/' :: t.toList, p ∈ ['/', 's', 'c', 'r', 'i', 'p', 't', 'y', 'l', 'e'] := by
  have hAll : ∀ t ∈ Tag.rawTags, ∀ p ∈ '/' :: t.toList,
      p ∈ ['/', 's', 'c', 'r', 'i', 'p', 't', 'y', 'l', 'e'] := by decide
  exact hAll t h

theorem matchesLetter_closingText {t : String} (h : t ∈ Tag.rawTags) :
    ∀ p ∈ Tag.closingText t, matchesLetter p '<' = false := by
  intro p hp
  exact matchesLetter_bracket (mem_letters_of_mem_rawTags h p hp)

theorem startsWith_append {ps ds rest : List Char} (hLetters : ∀ p ∈ ps, matchesLetter p '<' = false)
    (h : startsWith ps ds = false) : startsWith ps (ds ++ '<' :: rest) = false := by
  induction ps generalizing ds with
  | nil => cases h
  | cons p ps ih =>
    rw [List.forall_mem_cons] at hLetters
    cases ds with
    | nil => rw [List.nil_append, startsWith, hLetters.1, Bool.false_and]
    | cons d ds =>
      rw [startsWith, Bool.and_eq_false_iff] at h
      rw [List.cons_append, startsWith, Bool.and_eq_false_iff]
      exact h.imp_right (ih hLetters.2)

theorem startsWith_self (ps rest : List Char) : startsWith ps (ps ++ rest) = true := by
  induction ps with
  | nil => rfl
  | cons p ps ih => simp [startsWith, matchesLetter, ih]

/-- Plain content without a closing tag is taken up to the closing tag behind it. -/
theorem splitRaw_append {t : String} {cs : List Char} (hRaw : t ∈ Tag.rawTags)
    (h : Node.NoClosing t cs) (rest : List Char) :
    splitRaw t (cs ++ '<' :: (Tag.closingText t ++ rest)) = (cs, '<' :: (Tag.closingText t ++ rest)) := by
  have hLetters := matchesLetter_closingText hRaw
  induction cs with
  | nil =>
    rw [List.nil_append, splitRaw, if_pos]
    exact startsWith_self ('<' :: '/' :: t.toList) rest
  | cons c cs ih =>
    have hTail : Node.NoClosing t cs := fun ds hds => h ds (hds.trans (List.suffix_cons c cs))
    have hHere := h (c :: cs) List.suffix_rfl
    have hNone : startsWith ('<' :: '/' :: t.toList) (c :: (cs ++ '<' :: (Tag.closingText t ++ rest))) =
        false := by
      rw [startsWith, Bool.and_eq_false_iff] at hHere ⊢
      exact hHere.imp_right (startsWith_append hLetters)
    rw [List.cons_append, splitRaw, if_neg (by rw [hNone]; exact Bool.false_ne_true), ih hTail]

end PageRender.Markup
