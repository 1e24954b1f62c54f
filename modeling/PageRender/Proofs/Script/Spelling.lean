import Mathlib.Data.List.Basic
import PageRender.Proofs.Script.Numerals
import PageRender.Proofs.Text.Classes

/-! # How tokens are written

A token is written in the characters that it is read from, a string in either quote, a number in digits. Blanks
and comments separate tokens, and what separates two begins with a blank. Tokens that are written so are read
as they are.
-/

namespace PageRender

namespace Script

open Text Numeral

/-! ## Tokens -/

/-- A word that may stand for a value. -/
structure Name where
  first : Char
  others : List Char
  begins : beginsName first = true
  goesOn : ∀ c ∈ others, isNameChar c = true
  isFree : Keyword.ofText? (String.ofList (first :: others)) = none

/-- A row of digits with at most one point, which stands between two of them. -/
structure DigitRow where
  whole : List Char
  fraction : List Char
  nonempty : whole ≠ []
  whole_digits : ∀ c ∈ whole, c.isDigit = true
  fraction_digits : ∀ c ∈ fraction, c.isDigit = true

namespace DigitRow

def text (n : DigitRow) : List Char :=
  match n.fraction with
  | [] => n.whole
  | c :: cs => n.whole ++ '.' :: c :: cs

theorem isNumber (n : DigitRow) : IsNumber Char.isDigit n.text := by
  refine ⟨n.whole, n.fraction, n.nonempty, n.whole_digits, n.fraction_digits, ?_⟩
  unfold text
  split
  · next hNone => exact .inl ⟨rfl, hNone⟩
  · next hSome => exact .inr (by rw [hSome])

theorem isSome_value (n : DigitRow) : (readDouble? (String.ofList n.text)).isSome = true := by
  apply isSome_readDouble?
  rw [String.toList_ofList]
  exact n.isNumber.of_forall fun c _ hDigit => isDecimal_of_ascii hDigit

def value (n : DigitRow) : Float :=
  (readDouble? (String.ofList n.text)).get n.isSome_value

end DigitRow

/-- A sign that a string stands between. -/
inductive Quote where
  | single
  | double

def Quote.char : Quote → Char
  | single => '\''
  | double => '"'

inductive Lexeme where
  | keyword (word : Keyword)
  | name (name : Name)
  | number (digits : DigitRow)
  | string (quote : Quote) (content : List Char)
  | mark (mark : Mark)

/-- A character of a string, with a backslash before the quote and before a backslash. -/
def escaped (quote c : Char) : List Char :=
  if c == quote || c == '\\' then ['\\', c] else [c]

namespace Lexeme

def token : Lexeme → Token
  | keyword w => .keyword w
  | name n => .identifier (String.ofList (n.first :: n.others))
  | number n => .number n.value
  | string _ content => .string (String.ofList content)
  | mark m => .mark m

def text : Lexeme → List Char
  | keyword w => w.text.toList
  | name n => n.first :: n.others
  | number n => n.text
  | string quote content => quote.char :: (content.flatMap (escaped quote.char) ++ [quote.char])
  | mark m => m.text.toList

end Lexeme

/-! ## Separators -/

inductive Blank where
  | space (c : Char) (isBlank : Text.isBlank c = true)
  | comment (text : List Char) (endsLine : '\n' ∉ text)

def Blank.text : Blank → List Char
  | space c _ => [c]
  | comment text _ => '/' :: '/' :: (text ++ ['\n'])

/-- What stands between two tokens: a blank, and any blanks and comments behind it. -/
structure Separator where
  first : Char
  isBlank : Text.isBlank first = true
  others : List Blank

def Separator.text (s : Separator) : List Char :=
  s.first :: s.others.flatMap Blank.text

/-- A text of tokens, each with what separates it from the next; behind the last stands nothing. -/
def spelled : List (Lexeme × Separator) → List Char
  | [] => []
  | [(l, _)] => l.text
  | (l, s) :: next :: rest => l.text ++ (s.text ++ spelled (next :: rest))

/-! ## Reading what is written -/

/-- Nothing, or a blank, which no token reaches over. -/
def EndsToken (cs : List Char) : Prop :=
  ∀ c ∈ cs.head?, Text.isBlank c = true

theorem endsToken_nil : EndsToken [] := by
  rintro c ⟨⟩

theorem Separator.endsToken (s : Separator) (cs : List Char) : EndsToken (s.text ++ cs) := by
  rintro c ⟨⟩
  exact s.isBlank

theorem EndsToken.head {c : Char} {cs : List Char} (h : EndsToken (c :: cs)) : Text.isBlank c = true :=
  h c rfl

theorem EndsToken.span {p : Char → Bool} (hp : ∀ c, Text.isBlank c = true → p c = false) {cs ds : List Char}
    (hcs : ∀ c ∈ cs, p c = true) (h : EndsToken ds) :
    (cs ++ ds).takeWhile p = cs ∧ (cs ++ ds).dropWhile p = ds := by
  rw [List.takeWhile_append_of_pos hcs, List.dropWhile_append_of_pos hcs]
  cases ds with
  | nil => exact ⟨List.append_nil cs, rfl⟩
  | cons d ds =>
    have hStop := hp d h.head
    rw [List.takeWhile_cons_of_neg (by simp [hStop]), List.dropWhile_cons_of_neg (by simp [hStop])]
    exact ⟨List.append_nil cs, rfl⟩

/-- A text that is read as one token where it is followed by a blank or by nothing. -/
structure Reads (t : Token) (c : Char) (cs : List Char) : Prop where
  notBlank : Text.isBlank c = false
  noComment : c = '/' → cs = []
  read : ∀ ds, EndsToken ds → readToken c (cs ++ ds) = .ok (some t, ds)

theorem reads_word {c : Char} {cs : List Char} (hBegins : beginsName c = true)
    (hGoesOn : ∀ d ∈ cs, isNameChar d = true) : Reads (wordToken (String.ofList (c :: cs))) c cs where
  notBlank := by
    rw [Bool.eq_false_iff]
    intro hBlank
    have hName := not_isNameChar_of_isBlank hBlank
    rw [isNameChar, hBegins] at hName
    cases hName
  noComment := by
    rintro rfl
    exact absurd hBegins (by decide)
  read ds hEnds := by
    obtain ⟨hTake, hDrop⟩ := hEnds.span (p := isNameChar) (fun _ => not_isNameChar_of_isBlank) hGoesOn
    have hDigit : isDigit c = false := by
      rw [Bool.eq_false_iff]
      intro hDigit
      rw [not_beginsName_of_isDigit hDigit] at hBegins
      cases hBegins
    have hQuotes : (c == '"' || c == '\'') = false := by
      rw [Bool.or_eq_false_iff, beq_eq_false_iff_ne, beq_eq_false_iff_ne]
      constructor
      all_goals
        rintro rfl
        exact absurd hBegins (by decide)
    simp only [readToken, hQuotes, hDigit, hBegins, hTake, hDrop, if_true, Bool.false_eq_true, if_false]

theorem readString_escaped {quote : Char} (hBackslash : quote ≠ '\\') (hPlain : unescape quote = quote)
    (content ds : List Char) :
    readString quote (content.flatMap (escaped quote) ++ quote :: ds) = (content, ds) := by
  induction content with
  | nil =>
    cases ds with
    | nil => simp [readString]
    | cons d ds => simp [readString]
  | cons c content ih =>
    rw [List.flatMap_cons, List.append_assoc]
    generalize hRest : content.flatMap (escaped quote) ++ quote :: ds = rest at ih
    by_cases hEscaped : (c == quote || c == '\\') = true
    · have hSelf : unescape c = c := by
        rw [Bool.or_eq_true, beq_iff_eq, beq_iff_eq] at hEscaped
        obtain rfl | rfl := hEscaped
        · exact hPlain
        · decide
      simp [escaped, hEscaped, readString, ih, hSelf, hBackslash.symm]
    · have hNonempty : rest ≠ [] := by
        rw [← hRest]
        simp
      obtain ⟨d, rest, rfl⟩ := List.exists_cons_of_ne_nil hNonempty
      rw [Bool.or_eq_true, beq_iff_eq, beq_iff_eq, not_or] at hEscaped
      simp [escaped, readString, ih, hEscaped]

theorem reads_string (quote : Quote) (content : List Char) :
    Reads (.string (String.ofList content)) quote.char (content.flatMap (escaped quote.char) ++ [quote.char]) where
  notBlank := by cases quote <;> decide
  noComment := by cases quote <;> exact fun h => absurd h (by decide)
  read ds _ := by
    have hQuote : (quote.char == '"' || quote.char == '\'') = true := by cases quote <;> decide
    have hBackslash : quote.char ≠ '\\' := by cases quote <;> decide
    have hPlain : unescape quote.char = quote.char := by cases quote <;> decide
    simp only [readToken, hQuote, if_true, List.append_assoc, List.singleton_append,
      readString_escaped hBackslash hPlain]

theorem readNumber_digits_append {digits : List Char} (h : ∀ c ∈ digits, isDigit c = true) (seenPoint : Bool)
    (ds : List Char) : readNumber seenPoint (digits ++ ds) =
      (digits ++ (readNumber seenPoint ds).1, (readNumber seenPoint ds).2) := by
  induction digits with
  | nil => rfl
  | cons c digits ih =>
    obtain ⟨hDigit, hRest⟩ := List.forall_mem_cons.mp h
    rw [List.cons_append, readNumber, if_pos hDigit, ih hRest]
    rfl

theorem EndsToken.readNumber {ds : List Char} (h : EndsToken ds) (seenPoint : Bool) :
    readNumber seenPoint ds = ([], ds) := by
  cases ds with
  | nil => rfl
  | cons d ds =>
    have hDigit := not_isDigit_of_isBlank h.head
    have hPoint := ne_of_isBlank h.head (d := '.') (by decide)
    simp [Script.readNumber, hDigit, hPoint]

theorem readNumber_fraction {fraction : List Char} (hNonempty : fraction ≠ [])
    (hDigits : ∀ c ∈ fraction, isDigit c = true) {ds : List Char} (hEnds : EndsToken ds) :
    readNumber false ('.' :: (fraction ++ ds)) = ('.' :: fraction, ds) := by
  have hMore : readNumber true (fraction ++ ds) = (fraction, ds) := by
    rw [readNumber_digits_append hDigits, hEnds.readNumber, List.append_nil]
  have hHead : (fraction ++ ds).head?.any isDigit = true := by
    obtain ⟨d, rest, rfl⟩ := List.exists_cons_of_ne_nil hNonempty
    exact hDigits d List.mem_cons_self
  have hPoint : isDigit '.' = false := by decide
  rw [readNumber, if_neg (by simp [hPoint]), if_pos (by simpa using hHead), hMore]

/-- The number is read to the end of its digits. -/
theorem DigitRow.readNumber_text (n : DigitRow) : ∃ c cs, n.text = c :: cs ∧ isDigit c = true ∧
    ∀ ds, EndsToken ds → readNumber false (cs ++ ds) = (cs, ds) := by
  obtain ⟨c, whole, hWhole⟩ := List.exists_cons_of_ne_nil n.nonempty
  have hDigits := fun d hd => isDigit_of_ascii (n.whole_digits d hd)
  have hFraction := fun d hd => isDigit_of_ascii (n.fraction_digits d hd)
  rw [hWhole, List.forall_mem_cons] at hDigits
  cases hSome : n.fraction with
  | nil =>
    refine ⟨c, whole, by rw [text, hSome, hWhole], hDigits.1, fun ds hEnds => ?_⟩
    rw [readNumber_digits_append hDigits.2, hEnds.readNumber, List.append_nil]
  | cons d fraction =>
    rw [hSome] at hFraction
    refine ⟨c, whole ++ '.' :: d :: fraction, by rw [text, hSome, hWhole]; rfl, hDigits.1, fun ds hEnds => ?_⟩
    rw [List.append_assoc, readNumber_digits_append hDigits.2, List.cons_append,
      readNumber_fraction (List.cons_ne_nil d fraction) hFraction hEnds]

theorem reads_number (n : DigitRow) : ∃ c cs, n.text = c :: cs ∧ Reads (.number n.value) c cs := by
  obtain ⟨c, cs, hText, hDigit, hRead⟩ := n.readNumber_text
  refine ⟨c, cs, hText, ?_, ?_, fun ds hEnds => ?_⟩
  · rw [Bool.eq_false_iff]
    intro hBlank
    rw [not_isDigit_of_isBlank hBlank] at hDigit
    cases hDigit
  · rintro rfl
    exact absurd hDigit (by decide)
  · have hQuotes : (c == '"' || c == '\'') = false := by
      rw [Bool.or_eq_false_iff, beq_eq_false_iff_ne, beq_eq_false_iff_ne]
      constructor
      all_goals
        rintro rfl
        exact absurd hDigit (by decide)
    have hValue : readDouble? (String.ofList (c :: cs)) = some n.value := by
      rw [← hText, DigitRow.value, Option.some_get]
    simp only [readToken, hQuotes, hDigit, hRead ds hEnds, hValue, if_true, Bool.false_eq_true, if_false]

theorem mem_marks (m : Mark) : m ∈ Mark.long ++ Mark.short := by
  cases m <;> decide

theorem read?_mark (m : Mark) {ds : List Char} (hEnds : EndsToken ds) :
    Mark.read? (m.text.toList ++ ds) = some (m, ds) := by
  have hLong : ∀ m ∈ Mark.long, m.text.toList.length = 2 ∧
      Mark.long.find? (·.text.toList == m.text.toList) = some m ∧
      m.text.toList.getLast?.any Text.isBlank = false := by
    decide +kernel
  have hShort : ∀ m ∈ Mark.short, m.text.toList.length = 1 ∧
      Mark.short.find? (·.text.toList == m.text.toList) = some m := by
    decide +kernel
  rcases List.mem_append.mp (mem_marks m) with hMem | hMem
  · obtain ⟨hLength, hFind, -⟩ := hLong m hMem
    obtain ⟨a, b, hText⟩ := List.length_eq_two.mp hLength
    rw [hText] at hFind ⊢
    simp [Mark.read?, hFind]
  · obtain ⟨hLength, hFind⟩ := hShort m hMem
    obtain ⟨a, hText⟩ := List.length_eq_one_iff.mp hLength
    rw [hText] at hFind ⊢
    cases ds with
    | nil => simp [Mark.read?, hFind]
    | cons d ds =>
      have hNone : Mark.long.find? (·.text.toList == [a, d]) = none := by
        rw [List.find?_eq_none]
        intro k hk hSame
        rw [beq_iff_eq] at hSame
        obtain ⟨-, -, hBlank⟩ := hLong k hk
        rw [hSame] at hBlank
        exact Bool.false_ne_true (hBlank.symm.trans hEnds.head)
      simp [Mark.read?, hNone, hFind]

theorem reads_mark (m : Mark) : ∃ c cs, m.text.toList = c :: cs ∧ Reads (.mark m) c cs := by
  have hAll : ∀ m ∈ Mark.long ++ Mark.short, m.text.toList ≠ [] ∧
      (m.text.toList.head? = some '/' → m.text.toList.tail = []) ∧
      m.text.toList.head?.any Text.isBlank = false ∧ m.text.toList.head?.any (fun c => c == '"' || c == '\'') = false ∧
      m.text.toList.head?.any isDigit = false ∧ m.text.toList.head?.any beginsName = false := by
    decide +kernel
  obtain ⟨hNonempty, hRest⟩ := hAll m (mem_marks m)
  obtain ⟨c, cs, hText⟩ := List.exists_cons_of_ne_nil hNonempty
  simp only [hText, List.head?_cons, List.tail_cons, Option.any_some] at hRest
  obtain ⟨hComment, hBlank, hQuotes, hDigit, hBegins⟩ := hRest
  refine ⟨c, cs, hText, hBlank, fun hSlash => hComment (congrArg some hSlash), fun ds hEnds => ?_⟩
  have hRead := read?_mark m hEnds
  rw [hText, List.cons_append] at hRead
  simp only [readToken, hQuotes, hDigit, hBegins, hRead, Bool.false_eq_true, if_false]

theorem reads_keyword (w : Keyword) : ∃ c cs, w.text.toList = c :: cs ∧ Reads (.keyword w) c cs := by
  have hAll : ∀ w ∈ Keyword.all, Keyword.ofText? w.text = some w ∧ w.text.toList ≠ [] ∧
      w.text.toList.head?.all beginsName = true ∧ w.text.toList.all isNameChar = true := by
    decide +kernel
  have hMem : w ∈ Keyword.all := by cases w <;> decide
  obtain ⟨hOf, hNonempty, hBegins, hGoesOn⟩ := hAll w hMem
  obtain ⟨c, cs, hText⟩ := List.exists_cons_of_ne_nil hNonempty
  rw [hText] at hBegins hGoesOn
  have hWord := reads_word hBegins fun d hd => List.all_eq_true.mp hGoesOn d (List.mem_cons_of_mem c hd)
  rw [← hText, String.ofList_toList, wordToken, hOf] at hWord
  exact ⟨c, cs, hText, hWord⟩

theorem reads_name (n : Name) : Reads (.identifier (String.ofList (n.first :: n.others))) n.first n.others := by
  have hWord := reads_word n.begins n.goesOn
  rwa [wordToken, n.isFree] at hWord

theorem Lexeme.reads (l : Lexeme) : ∃ c cs, l.text = c :: cs ∧ Reads l.token c cs := by
  cases l with
  | keyword w => exact reads_keyword w
  | name n => exact ⟨_, _, rfl, reads_name n⟩
  | number n => exact reads_number n
  | string quote content => exact ⟨_, _, rfl, reads_string quote content⟩
  | mark m => exact reads_mark m

/-! ## Texts of tokens -/

theorem skipBlank_of_isBlank {c : Char} (h : Text.isBlank c = true) (cs : List Char) :
    skipBlank (c :: cs) = skipBlank cs := by
  rw [skipBlank, if_pos h]

theorem afterLine_append {text : List Char} (h : '\n' ∉ text) (cs : List Char) :
    afterLine (text ++ '\n' :: cs) = cs := by
  induction text with
  | nil => rfl
  | cons c text ih =>
    rw [List.mem_cons, not_or] at h
    rw [List.cons_append, afterLine, if_neg (by simpa using Ne.symm h.1), ih h.2]

theorem Blank.skipBlank_text (b : Blank) (cs : List Char) : skipBlank (b.text ++ cs) = skipBlank cs := by
  cases b with
  | space c h => exact skipBlank_of_isBlank h cs
  | comment text h =>
    rw [Blank.text, List.cons_append, skipBlank, if_neg (by decide), if_pos (by simp), List.cons_append,
      afterLine, if_neg (by decide), List.append_assoc, List.singleton_append, afterLine_append h]

theorem Separator.skipBlank_text (s : Separator) (cs : List Char) : skipBlank (s.text ++ cs) = skipBlank cs := by
  rw [Separator.text, List.cons_append, skipBlank_of_isBlank s.isBlank]
  induction s.others with
  | nil => rfl
  | cons b others ih => rw [List.flatMap_cons, List.append_assoc, b.skipBlank_text, ih]

theorem tokens_of_skipBlank_eq_nil {cs : List Char} (h : skipBlank cs = []) : tokens cs = .ok [] := by
  rw [tokens]
  split
  · rfl
  · next hCons =>
    rw [h] at hCons
    cases hCons

theorem tokens_of_readToken {cs after rest : List Char} {c : Char} {t : Option Token}
    (hBlank : skipBlank cs = c :: after) (hToken : readToken c after = .ok (t, rest)) :
    tokens cs = (tokens rest).map (t.toList ++ ·) := by
  rw [tokens]
  split
  · next hNil =>
    rw [hBlank] at hNil
    cases hNil
  · next hCons =>
    rw [hBlank] at hCons
    cases hCons
    split
    · next hError =>
      rw [hToken] at hError
      cases hError
    · next hOk =>
      rw [hToken] at hOk
      cases hOk
      rfl

theorem Lexeme.tokens_text (l : Lexeme) {cs ds : List Char} (hSpelled : skipBlank cs = skipBlank (l.text ++ ds))
    (hEnds : EndsToken ds) : tokens cs = (tokens ds).map (l.token :: ·) := by
  obtain ⟨c, after, hText, hReads⟩ := l.reads
  have hComment : ¬(c == '/' && (after ++ ds).head? == some '/') = true := by
    rw [Bool.and_eq_true, beq_iff_eq, beq_iff_eq]
    rintro ⟨hSlash, hHead⟩
    rw [hReads.noComment hSlash, List.nil_append] at hHead
    exact absurd (hEnds '/' hHead) (by decide)
  have hFirst : skipBlank cs = c :: (after ++ ds) := by
    rw [hSpelled, hText, List.cons_append, skipBlank, if_neg (by simp [hReads.notBlank]), if_neg hComment]
  exact tokens_of_readToken hFirst (hReads.read ds hEnds)

theorem tokens_spelled (ls : List (Lexeme × Separator)) {cs : List Char}
    (hSpelled : skipBlank cs = skipBlank (spelled ls)) : tokens cs = .ok (ls.map (·.1.token)) := by
  fun_induction spelled ls generalizing cs with
  | case1 =>
    rw [tokens_of_skipBlank_eq_nil (by rw [hSpelled, skipBlank])]
    rfl
  | case2 l s =>
    have hText : skipBlank cs = skipBlank (l.text ++ []) := by rw [hSpelled, List.append_nil]
    rw [l.tokens_text hText endsToken_nil, tokens_of_skipBlank_eq_nil (by rw [skipBlank])]
    rfl
  | case3 l s next rest ih =>
    rw [l.tokens_text hSpelled (s.endsToken _), ih (s.skipBlank_text _)]
    rfl

/-- Tokens are read as they are written, whatever blanks and comments separate them. -/
theorem tokenize_spelled (ls : List (Lexeme × Separator)) :
    tokenize (String.ofList (spelled ls)) = .ok (ls.map (·.1.token)) := by
  rw [tokenize, String.toList_ofList]
  exact tokens_spelled ls rfl

example : spelled [
      (.name ⟨'x', [], by decide, List.forall_mem_nil _, by decide⟩, ⟨'\n', by decide, [.comment [' ', '1'] (by decide)]⟩),
      (.mark .assign, ⟨' ', by decide, []⟩),
      (.string .single ['i', '\'', 's', '\\'], ⟨' ', by decide, []⟩),
      (.mark .divide, ⟨'\t', by decide, [.space ' ' (by decide)]⟩),
      (.number ⟨['1'], ['0', '5'], by decide, by simp, by simp⟩, ⟨' ', by decide, []⟩)] =
    "x\n// 1\n= 'i\\'s\\\\' /\t 1.05".toList := by
  decide +kernel

end Script

end PageRender
