import PageRender.Proofs.Markup.Names

/-! # Attributes in all their spellings

An attribute stands behind blanks, as a name alone or with a value, and the value plain or between two
like quotation marks. Every spelling is read back: the attributes of a tag come in the order in which
their names first stand in it, each with the value that it was given last. The slash that may end a tag
is taken off before, so a plain value at the end loses the one it ends in.
-/

namespace PageRender.Tag

theorem takeWhile_append_of_all (p : Char → Bool) (cs ds : List Char) (h : ∀ c ∈ cs, p c = true)
    (hNext : ∀ c ∈ ds.head?, p c = false) :
    (cs ++ ds).takeWhile p = cs ∧ (cs ++ ds).dropWhile p = ds := by
  have hStop : ds.takeWhile p = [] ∧ ds.dropWhile p = ds := by
    cases ds with
    | nil => exact ⟨rfl, rfl⟩
    | cons d ds =>
      have hFalse : ¬p d = true := by simpa using hNext d (by simp)
      exact ⟨List.takeWhile_cons_of_neg hFalse, List.dropWhile_cons_of_neg hFalse⟩
  rw [List.takeWhile_append_of_pos h, List.dropWhile_append_of_pos h, hStop.1, hStop.2, List.append_nil]
  exact ⟨rfl, rfl⟩

def isMark (c : Char) : Bool :=
  c == '\'' || c == '"'

/-- How the value of an attribute is written. -/
inductive Spelling where
  | bare
  | plain (value : List Char)
  | quoted (mark : Char) (value : List Char)
deriving DecidableEq

namespace Spelling

def value : Spelling → List Char
  | bare => []
  | plain v => v
  | quoted _ v => v

def text : Spelling → List Char
  | bare => []
  | plain v => '=' :: v
  | quoted mark v => '=' :: mark :: (v ++ [mark])

def IsWell : Spelling → Prop
  | bare => True
  | plain v => (∀ c ∈ v, Text.isBlank c = false) ∧ v.head?.any isMark = false
  | quoted mark v => isMark mark = true ∧ mark ∉ v

instance : (s : Spelling) → Decidable s.IsWell
  | bare => inferInstanceAs (Decidable True)
  | plain _ => inferInstanceAs (Decidable (_ ∧ _))
  | quoted _ _ => inferInstanceAs (Decidable (_ ∧ _))

/-- What is left at the end of a tag, once the slash that may end the tag is taken off. -/
def withoutSlash : Spelling → Spelling
  | plain v => plain (if v.getLast? = some '/' then v.dropLast else v)
  | s => s

/-- Whether the value has a slash that is not closed off by a quotation mark. -/
def EndsInSlash : Spelling → Prop
  | plain v => v.getLast? = some '/'
  | _ => False

theorem withoutSlash_eq_self {s : Spelling} (h : ¬s.EndsInSlash) : s.withoutSlash = s := by
  cases s with
  | plain v => exact congrArg plain (if_neg h)
  | bare => rfl
  | quoted mark v => rfl

theorem IsWell.withoutSlash {s : Spelling} (h : s.IsWell) : s.withoutSlash.IsWell := by
  cases s with
  | bare => exact h
  | quoted mark v => exact h
  | plain v =>
    rw [Spelling.withoutSlash]
    split
    · refine ⟨fun c hc => h.1 c ((List.dropLast_sublist v).mem hc), ?_⟩
      rw [List.head?_dropLast]
      split
      · exact h.2
      · rfl
    · exact h

end Spelling

/-- An attribute as it stands in a tag, with the blanks before it. -/
structure Written where
  gap : List Char
  name : List Char
  spelling : Spelling
deriving DecidableEq

namespace Written

def text (a : Written) : List Char :=
  a.gap ++ (a.name ++ a.spelling.text)

/-- The name under which the attribute is found, and its value. -/
def entry (a : Written) : String × String :=
  (Text.foldCase (String.ofList a.name), String.ofList a.spelling.value)

structure IsWell (a : Written) : Prop where
  gapped : a.gap ≠ []
  blank : ∀ c ∈ a.gap, Text.isBlank c = true
  named : a.name ≠ []
  plain : ∀ c ∈ a.name, isNameChar c = true
  spelled : a.spelling.IsWell

instance (a : Written) : Decidable a.IsWell :=
  decidable_of_iff (a.gap ≠ [] ∧ (∀ c ∈ a.gap, Text.isBlank c = true) ∧ a.name ≠ [] ∧
      (∀ c ∈ a.name, isNameChar c = true) ∧ a.spelling.IsWell)
    ⟨fun ⟨hGapped, hBlank, hNamed, hPlain, hSpelled⟩ => ⟨hGapped, hBlank, hNamed, hPlain, hSpelled⟩,
      fun h => ⟨h.gapped, h.blank, h.named, h.plain, h.spelled⟩⟩

def withoutSlash (a : Written) : Written :=
  { a with spelling := a.spelling.withoutSlash }

theorem IsWell.withoutSlash {a : Written} (h : a.IsWell) : a.withoutSlash.IsWell :=
  { h with spelled := h.spelled.withoutSlash }

theorem IsWell.head?_text {a : Written} (h : a.IsWell) (more : List Char) :
    ∀ c ∈ (a.text ++ more).head?, Text.isBlank c = true := by
  obtain ⟨d, gap, hGap⟩ := List.exists_cons_of_ne_nil h.gapped
  intro c hc
  obtain rfl : d = c := by simpa [text, hGap] using hc
  exact h.blank d (by rw [hGap]; exact List.mem_cons_self)

end Written

theorem head?_flatMap_text {as : List Written} (h : ∀ a ∈ as, a.IsWell) :
    ∀ c ∈ (as.flatMap Written.text).head?, Text.isBlank c = true := by
  cases as with
  | nil =>
    intro c hc
    cases hc
  | cons a as => exact (h a List.mem_cons_self).head?_text _

section

variable {found : Attributes} {cs rest after : List Char} {c : Char}

theorem readAttributes_blank (h : cs.dropWhile Text.isBlank = []) : readAttributes found cs = found := by
  rw [readAttributes]
  split
  · rfl
  · rename_i hDrop
    rw [h] at hDrop
    cases hDrop

theorem readAttributes_bare (h : cs.dropWhile Text.isBlank = c :: rest) (hEquals : (c == '=') = false)
    (hDrop : rest.dropWhile isNameChar = after) (hAfter : after.head? ≠ some '=') :
    readAttributes found cs = readAttributes (found.insert
      (Text.foldCase (String.ofList (c :: rest.takeWhile isNameChar))) "") after := by
  rw [readAttributes]
  split
  · rename_i hNil
    rw [h] at hNil
    cases hNil
  · rename_i hCons
    rw [h] at hCons
    cases hCons
    rw [if_neg (by simp [hEquals])]
    split
    · rename_i hValue
      rw [hDrop] at hValue
      subst hValue
      exact absurd rfl hAfter
    · rw [hDrop]

theorem readAttributes_valued (h : cs.dropWhile Text.isBlank = c :: rest) (hEquals : (c == '=') = false)
    (hDrop : rest.dropWhile isNameChar = '=' :: after) :
    readAttributes found cs = readAttributes (found.insert
      (Text.foldCase (String.ofList (c :: rest.takeWhile isNameChar)))
      (String.ofList (readValue after).1)) (readValue after).2 := by
  rw [readAttributes]
  split
  · rename_i hNil
    rw [h] at hNil
    cases hNil
  · rename_i hCons
    rw [h] at hCons
    cases hCons
    rw [if_neg (by simp [hEquals])]
    split
    · rename_i hValue
      rw [hDrop] at hValue
      cases hValue
      rfl
    · rename_i hNone
      exact absurd hDrop (hNone after)

end

theorem readValue_plain {value more : List Char} (h : (Spelling.plain value).IsWell)
    (hMore : ∀ c ∈ more.head?, Text.isBlank c = true) : readValue (value ++ more) = (value, more) := by
  obtain ⟨hTake, hDrop⟩ := takeWhile_append_of_all (!Text.isBlank ·) value more
    (by
      intro c hc
      simp [h.1 c hc])
    (by
      intro c hc
      simp [hMore c hc])
  cases hText : value ++ more with
  | nil =>
    rw [List.append_eq_nil_iff] at hText
    rw [hText.1, hText.2]
    rfl
  | cons c cs =>
    have hMark : isMark c = false := by
      cases value with
      | nil =>
        -- The value is empty, so the next thing that stands here is a blank.
        have hBlank := hMore c (by rw [← List.nil_append more, hText]; rfl)
        cases hQuote : isMark c with
        | false => rfl
        | true =>
          rw [isMark, Bool.or_eq_true, beq_iff_eq, beq_iff_eq] at hQuote
          rcases hQuote with rfl | rfl <;> cases hBlank
      | cons d value =>
        obtain rfl : d = c := (List.cons.inj hText).1
        exact h.2
    rw [readValue, if_neg (by rw [← isMark, hMark]; exact Bool.false_ne_true), ← hText, hTake, hDrop]

theorem readValue_quoted {mark : Char} {value more : List Char} (h : (Spelling.quoted mark value).IsWell) :
    readValue (mark :: (value ++ mark :: more)) = (value, more) := by
  obtain ⟨hTake, hDrop⟩ := takeWhile_append_of_all (· != mark) value (mark :: more)
    (by
      intro c hc
      rw [bne_iff_ne]
      rintro rfl
      exact h.2 hc)
    (by simp)
  have hMark : (mark == '\'' || mark == '"') = true := h.1
  rw [readValue, if_pos hMark, hTake, hDrop]
  rfl

/-- One attribute is read up to where it ends. -/
theorem readAttributes_text (found : Attributes) {a : Written} {more : List Char} (h : a.IsWell)
    (hMore : ∀ c ∈ more.head?, Text.isBlank c = true) :
    readAttributes found (a.text ++ more) = readAttributes (found.insert a.entry.1 a.entry.2) more := by
  obtain ⟨gap, name, spelling⟩ := a
  obtain ⟨c, cs, rfl⟩ : ∃ c cs, name = c :: cs := List.exists_cons_of_ne_nil h.named
  obtain ⟨hFirst, hChars⟩ := List.forall_mem_cons.mp h.plain
  simp only [isNameChar, Bool.and_eq_true, bne_iff_ne, Bool.not_eq_true'] at hFirst
  have hEquals : (c == '=') = false := beq_eq_false_iff_ne.mpr hFirst.1
  have hDrop : (Written.text ⟨gap, c :: cs, spelling⟩ ++ more).dropWhile Text.isBlank =
      c :: (cs ++ (spelling.text ++ more)) := by
    rw [Written.text, List.append_assoc, List.append_assoc]
    exact (takeWhile_append_of_all _ gap _ h.blank (by simpa using hFirst.2)).2
  have hNext : ∀ d ∈ (spelling.text ++ more).head?, isNameChar d = false := by
    intro d hd
    cases spelling with
    | bare => simp [isNameChar, hMore d hd]
    | plain v =>
      obtain rfl : '=' = d := by simpa [Spelling.text] using hd
      rfl
    | quoted mark v =>
      obtain rfl : '=' = d := by simpa [Spelling.text] using hd
      rfl
  obtain ⟨hTake, hRest⟩ := takeWhile_append_of_all _ cs _ hChars hNext
  cases spelling with
  | bare =>
    have hOther : more.head? ≠ some '=' := fun hHead => absurd (hMore '=' hHead) (by decide)
    rw [readAttributes_bare hDrop hEquals hRest hOther, hTake]
    rfl
  | plain v =>
    have hText : (Spelling.plain v).text ++ more = '=' :: (v ++ more) := rfl
    rw [hText] at hDrop hRest hTake
    rw [readAttributes_valued hDrop hEquals hRest, hTake, readValue_plain h.spelled hMore]
    rfl
  | quoted mark v =>
    have hText : (Spelling.quoted mark v).text ++ more = '=' :: mark :: (v ++ mark :: more) := by
      simp [Spelling.text]
    rw [hText] at hDrop hRest hTake
    rw [readAttributes_valued hDrop hEquals hRest, hTake, readValue_quoted h.spelled]
    rfl

theorem readAttributes_flatMap (found : Attributes) {as : List Written} (h : ∀ a ∈ as, a.IsWell) :
    readAttributes found (as.flatMap Written.text) =
      (as.map Written.entry).foldl (fun m e => m.insert e.1 e.2) found := by
  induction as generalizing found with
  | nil => exact readAttributes_blank rfl
  | cons a as ih =>
    obtain ⟨ha, hAs⟩ := List.forall_mem_cons.mp h
    rw [List.flatMap_cons, readAttributes_text found ha (head?_flatMap_text hAs), ih _ hAs]
    rfl

theorem trim_eq_self {cs : List Char} (hFirst : ∀ c ∈ cs.head?, Text.isBlank c = false)
    (hLast : ∀ c ∈ cs.getLast?, Text.isBlank c = false) : Text.trim cs = cs := by
  have hStart : ∀ ds : List Char, (∀ c ∈ ds.head?, Text.isBlank c = false) → Text.trimStart ds = ds := by
    intro ds hds
    cases ds with
    | nil => rfl
    | cons d ds => exact List.dropWhile_cons_of_neg (by simp [hds d rfl])
  rw [Text.trim, hStart cs hFirst, hStart cs.reverse (by rw [List.head?_reverse]; exact hLast),
    List.reverse_reverse]

/-- A tag whose text goes on behind its name with a blank. -/
theorem read_of_withoutSlash {cs rest : List Char} {name : String} (h : withoutSlash cs = name.toList ++ rest)
    (hFolded : Text.foldCase name = name) (hName : ∀ c ∈ name.toList, Text.isBlank c = false)
    (hRest : ∀ c ∈ rest.head?, Text.isBlank c = true) : read cs = ⟨name, readAttributes .empty rest⟩ := by
  obtain ⟨hTake, hDrop⟩ := takeWhile_append_of_all (!Text.isBlank ·) name.toList rest
    (by
      intro c hc
      simp [hName c hc])
    (by
      intro c hc
      simp [hRest c hc])
  rw [read, h]
  simp only [hTake, hDrop, String.ofList_toList, hFolded]

/-- A name that a tag can have: nothing in it ends the name, the tag or stands for a closing tag. -/
structure IsTagWord (name : String) : Prop where
  ne_empty : name ≠ ""
  folded : Text.foldCase name = name
  plain : ∀ c ∈ name.toList, Text.isBlank c = false ∧ c ≠ '/'

instance (name : String) : Decidable (IsTagWord name) :=
  decidable_of_iff (name ≠ "" ∧ Text.foldCase name = name ∧
      ∀ c ∈ name.toList, Text.isBlank c = false ∧ c ≠ '/')
    ⟨fun h => ⟨h.1, h.2.1, h.2.2⟩, fun h => ⟨h.ne_empty, h.folded, h.plain⟩⟩

/-- The text of a tag with the given attributes. -/
def tagText (name : String) (as : List Written) : List Char :=
  name.toList ++ as.flatMap Written.text

/-- The attributes that a tag is read to have: the slash at its end belongs to none. -/
def withoutLastSlash : List Written → List Written
  | [] => []
  | [a] => [a.withoutSlash]
  | a :: b :: as => a :: withoutLastSlash (b :: as)

theorem withoutLastSlash_concat (as : List Written) (a : Written) :
    withoutLastSlash (as ++ [a]) = as ++ [a.withoutSlash] := by
  fun_induction withoutLastSlash as with
  | case1 => rfl
  | case2 b => rfl
  | case3 b c as ih => exact congrArg (b :: ·) ih

theorem forall_mem_withoutLastSlash {P : Written → Prop} {as : List Written} (h : ∀ a ∈ as, P a)
    (hWithout : ∀ a, P a → P a.withoutSlash) : ∀ a ∈ withoutLastSlash as, P a := by
  rcases List.eq_nil_or_concat as with rfl | ⟨before, a, rfl⟩
  · exact h
  · rw [List.concat_eq_append, List.forall_mem_append, List.forall_mem_singleton] at h
    rw [List.concat_eq_append, withoutLastSlash_concat, List.forall_mem_append, List.forall_mem_singleton]
    exact ⟨h.1, hWithout a h.2⟩

theorem map_key_withoutLastSlash (as : List Written) :
    (withoutLastSlash as).map (fun a => a.entry.1) = as.map fun a => a.entry.1 := by
  rcases List.eq_nil_or_concat as with rfl | ⟨before, a, rfl⟩
  · rfl
  · rw [List.concat_eq_append, withoutLastSlash_concat, List.map_append, List.map_append]
    rfl

theorem withoutLastSlash_eq_self {as : List Written} (h : ∀ a ∈ as.getLast?, ¬a.spelling.EndsInSlash) :
    withoutLastSlash as = as := by
  rcases List.eq_nil_or_concat as with rfl | ⟨before, a, rfl⟩
  · rfl
  · have hKept : a.spelling.withoutSlash = a.spelling := Spelling.withoutSlash_eq_self (h a (by simp))
    rw [List.concat_eq_append, withoutLastSlash_concat, Written.withoutSlash, hKept]

namespace Written

/-- The text of an attribute ends visibly, and in a slash just if this is a plain value's. -/
theorem IsWell.getLast?_text {a : Written} (h : a.IsWell) (hPlain : '/' ∉ a.name) :
    ∃ c, a.text.getLast? = some c ∧ Text.isBlank c = false ∧ (c = '/' ↔ a.spelling.EndsInSlash) := by
  obtain ⟨gap, name, spelling⟩ := a
  cases spelling with
  | bare =>
    obtain ⟨before, c, rfl⟩ : ∃ before c, name = before ++ [c] := by
      obtain hNil | ⟨before, c, hConcat⟩ := List.eq_nil_or_concat name
      · exact absurd hNil h.named
      · exact ⟨before, c, by rw [hConcat, List.concat_eq_append]⟩
    have hChar := h.plain c (by simp)
    simp only [isNameChar, Bool.and_eq_true, Bool.not_eq_true'] at hChar
    refine ⟨c, by simp [text, Spelling.text], hChar.2, ?_, False.elim⟩
    rintro rfl
    exact hPlain (by simp)
  | quoted mark v =>
    have hMark : mark = '\'' ∨ mark = '"' := by simpa [isMark] using h.spelled.1
    refine ⟨mark, by simp [text, Spelling.text, List.getLast?_cons], ?_, ?_, False.elim⟩
    · rcases hMark with rfl | rfl <;> decide
    · rintro rfl
      rcases hMark with hMark | hMark <;> cases hMark
  | plain v =>
    rcases List.eq_nil_or_concat v with rfl | ⟨before, c, rfl⟩
    · exact ⟨'=', by simp [text, Spelling.text], by decide, by simp [Spelling.EndsInSlash]⟩
    · refine ⟨c, by simp [text, Spelling.text, List.getLast?_cons], h.spelled.1 c (by simp), ?_⟩
      simp [Spelling.EndsInSlash]

theorem text_withoutSlash {a : Written} (h : a.spelling.EndsInSlash) : a.withoutSlash.text = a.text.dropLast := by
  obtain ⟨gap, name, spelling⟩ := a
  cases spelling with
  | bare => cases h
  | quoted mark v => cases h
  | plain v =>
    have hLast : v.getLast? = some '/' := h
    have hNonempty : v ≠ [] := by
      rintro rfl
      cases hLast
    simp [withoutSlash, text, Spelling.withoutSlash, Spelling.text, hLast, List.dropLast_append_of_ne_nil,
      List.dropLast_cons_of_ne_nil hNonempty]

end Written

theorem withoutSlash_tagText {name : String} {as : List Written} (hName : IsTagWord name)
    (hWell : ∀ a ∈ as, a.IsWell) (hPlain : ∀ a ∈ as, '/' ∉ a.name) :
    withoutSlash (tagText name as) = tagText name (withoutLastSlash as) := by
  have hFirst : ∀ c ∈ (tagText name as).head?, Text.isBlank c = false := by
    obtain ⟨d, ds, hCons⟩ := List.exists_cons_of_ne_nil (mt String.toList_eq_nil_iff.mp hName.ne_empty)
    intro c hc
    obtain rfl : d = c := by simpa [tagText, hCons] using hc
    exact (hName.plain d (by rw [hCons]; exact List.mem_cons_self)).1
  rcases List.eq_nil_or_concat as with rfl | ⟨before, a, rfl⟩
  · rw [tagText, List.flatMap_nil, List.append_nil] at hFirst ⊢
    have hLast : ∀ c ∈ name.toList.getLast?, Text.isBlank c = false ∧ c ≠ '/' :=
      fun c hc => hName.plain c (List.mem_of_getLast? hc)
    rw [withoutSlash, trim_eq_self hFirst fun c hc => (hLast c hc).1]
    refine (if_neg ?_).trans (List.append_nil _).symm
    intro hSlash
    rw [Bool.and_eq_true, beq_iff_eq] at hSlash
    exact (hLast '/' hSlash.2).2 rfl
  · rw [List.concat_eq_append] at hWell hPlain hFirst ⊢
    have hMem : a ∈ before ++ [a] := by simp
    obtain ⟨c, hLast, hVisible, hSlash⟩ := (hWell a hMem).getLast?_text (hPlain a hMem)
    have hText : tagText name (before ++ [a]) = tagText name before ++ a.text := by simp [tagText]
    have hEnd : (tagText name (before ++ [a])).getLast? = some c := by
      rw [hText, List.getLast?_append, hLast]
      rfl
    have hTrim : Text.trim (tagText name (before ++ [a])) = tagText name (before ++ [a]) :=
      trim_eq_self hFirst (by simpa [hEnd] using hVisible)
    rw [withoutLastSlash_concat, withoutSlash, hTrim, hEnd]
    by_cases hEnds : a.spelling.EndsInSlash
    · obtain rfl := hSlash.mpr hEnds
      have hNonempty : a.text ≠ [] := by
        intro hNil
        rw [hNil] at hLast
        cases hLast
      -- A tag that is nothing but a slash keeps it.
      have hLong : 1 < (tagText name (before ++ [a])).length := by
        have hName := List.length_pos_iff.mpr (mt String.toList_eq_nil_iff.mp hName.ne_empty)
        have hText := List.length_pos_iff.mpr hNonempty
        simp only [tagText, List.flatMap_append, List.flatMap_singleton, List.length_append]
        omega
      rw [if_pos (by simpa using hLong), hText, List.dropLast_append_of_ne_nil hNonempty,
        ← Written.text_withoutSlash hEnds]
      simp [tagText]
    · rw [if_neg (by simpa using fun _ => mt hSlash.mp hEnds), Written.withoutSlash,
        Spelling.withoutSlash_eq_self hEnds]

theorem read_tagText {name : String} {as : List Written} (hName : IsTagWord name)
    (hWell : ∀ a ∈ as, a.IsWell) (hPlain : ∀ a ∈ as, '/' ∉ a.name) :
    read (tagText name as) = ⟨name, .ofList ((withoutLastSlash as).map Written.entry)⟩ := by
  have hLeft := forall_mem_withoutLastSlash hWell fun _ h => h.withoutSlash
  rw [read_of_withoutSlash (withoutSlash_tagText hName hWell hPlain) hName.folded
    (fun c hc => (hName.plain c hc).1) (head?_flatMap_text hLeft), readAttributes_flatMap .empty hLeft]
  rfl

/-- The name of a tag is read, and every attribute at the place of its first spelling and with the value
of its last one. Only a slash at the very end of the tag is lost to a plain value that ends in it. -/
theorem attributes_tagText {name : String} {as : List Written} (hName : IsTagWord name)
    (hWell : ∀ a ∈ as, a.IsWell) (hPlain : ∀ a ∈ as, '/' ∉ a.name) :
    (read (tagText name as)).name = name ∧
      (read (tagText name as)).attributes.keys = (as.map fun a => a.entry.1).eraseDups ∧
      (∀ key, (read (tagText name as)).attributes.get? key =
        ((withoutLastSlash as).map Written.entry).reverse.lookup key) ∧
      ((∀ a ∈ as.getLast?, ¬a.spelling.EndsInSlash) → withoutLastSlash as = as) := by
  rw [read_tagText hName hWell hPlain]
  refine ⟨rfl, ?_, OrderedMap.get?_ofList _, withoutLastSlash_eq_self⟩
  rw [← map_key_withoutLastSlash as, ← Function.comp_def, ← List.map_map]
  exact OrderedMap.keys_ofList _

/-- A tag with every spelling in it, one of its attributes three times. -/
def mixedAttributes : List Written := [
  ⟨[' '], "ID".toList, .plain "a=b/".toList⟩,
  ⟨['\t', ' '], "checked".toList, .bare⟩,
  ⟨['\n'], "Id".toList, .quoted '\'' "\"x y\"".toList⟩,
  ⟨[' '], "href".toList, .quoted '"' "/docs/".toList⟩,
  ⟨[' '], "id".toList, .plain "last/".toList⟩]

theorem attributes_tagText_mixedAttributes :
    tagText "a" mixedAttributes = "a ID=a=b/\t checked\nId='\"x y\"' href=\"/docs/\" id=last/".toList ∧
      (read (tagText "a" mixedAttributes)).attributes.keys = ["id", "checked", "href"] ∧
      (read (tagText "a" mixedAttributes)).attributes.get? "id" = some "last" ∧
      (read (tagText "a" mixedAttributes)).attributes.get? "href" = some "/docs/" := by
  have hName : IsTagWord "a" := by decide +kernel
  have hWell : ∀ a ∈ mixedAttributes, a.IsWell := by decide +kernel
  have hPlain : ∀ a ∈ mixedAttributes, '/' ∉ a.name := by decide +kernel
  obtain ⟨-, hKeys, hValues, -⟩ := attributes_tagText hName hWell hPlain
  exact ⟨by decide +kernel, hKeys.trans (by decide +kernel), (hValues "id").trans (by decide +kernel),
    (hValues "href").trans (by decide +kernel)⟩

/-- A plain value is not read back if a slash at its end comes last in the tag. -/
theorem not_forall_attributes_as_written :
    ¬∀ (name : String) (as : List Written), IsTagWord name → (∀ a ∈ as, a.IsWell) →
      (∀ a ∈ as, '/' ∉ a.name ∧ a.spelling ≠ .plain []) →
      ∀ key, (read (tagText name as)).attributes.get? key = (as.map Written.entry).reverse.lookup key := by
  intro h
  have hName : IsTagWord "a" := by decide +kernel
  have hWell : ∀ a ∈ [⟨[' '], "href".toList, .plain "/docs/".toList⟩], Written.IsWell a := by decide +kernel
  have hPlain : ∀ a ∈ [(⟨[' '], "href".toList, .plain "/docs/".toList⟩ : Written)], '/' ∉ a.name ∧
      a.spelling ≠ .plain [] := by decide +kernel
  have hLost := h _ _ hName hWell hPlain "href"
  rw [read_tagText hName hWell fun a ha => (hPlain a ha).1] at hLost
  exact absurd hLost (by decide +kernel)

end PageRender.Tag
