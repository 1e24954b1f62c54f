import Mathlib.Data.List.TakeDrop
import Mathlib.Data.List.TakeWhile
import PageRender.Script.Lexer

/-! # Digits without a value

Numbers of scripts are written in digits around at most one point. Superscript and enclosed digits have no
decimal value, and a number with such a digit cannot be read. Nothing else stops the reading of tokens.
-/

namespace PageRender

namespace Text

theorem exists_zero_of_decimalValue? {c : Char} {v : Nat} (h : decimalValue? c = some v) :
    ∃ z ∈ decimalZeros, v < 10 ∧ c.toNat = z + v := by
  obtain ⟨z, hFound, hValue⟩ := Option.map_eq_some_iff.mp h
  have hRange := List.find?_some hFound
  simp only [Bool.and_eq_true, decide_eq_true_eq] at hRange
  exact ⟨z, List.mem_of_find?_eq_some hFound, by omega, by omega⟩

theorem not_isBlank_of_decimalValue? {c : Char} {v : Nat} (h : decimalValue? c = some v) :
    isBlank c = false := by
  have hAll : ∀ z ∈ decimalZeros, ∀ i < 10, inBoundaries blankBoundaries (z + i) = false := by
    decide +kernel
  obtain ⟨z, hZero, hLt, hChar⟩ := exists_zero_of_decimalValue? h
  rw [isBlank, hChar]
  exact hAll z hZero v hLt

end Text

namespace Numeral

open Text

/-- Every digit with a decimal value stands for a European digit. -/
theorem isDigit_plainChar {c : Char} (h : isDecimal c = true) : (plainChar c).isDigit = true := by
  obtain ⟨v, hValue⟩ := Option.isSome_iff_exists.mp h
  obtain ⟨z, hZero, hLt, hChar⟩ := exists_zero_of_decimalValue? hValue
  rw [plainChar]
  split
  · have hFirst : ∀ z ∈ decimalZeros, z = 48 ∨ 127 ≤ z := by decide
    have hAscii : 48 ≤ c.toNat ∧ c.toNat ≤ 57 := by
      have := hFirst z hZero
      omega
    simpa [Char.isDigit, UInt32.le_iff_toNat_le] using hAscii
  · rw [not_isBlank_of_decimalValue? hValue, hValue]
    have hDigits : ∀ v < 10, (Nat.digitChar v).isDigit = true := by decide
    exact hDigits v hLt

theorem not_isEdgeSpace_of_isDigit {c : Char} (h : c.isDigit = true) : isEdgeSpace c = false := by
  have hRange : 48 ≤ c.toNat ∧ c.toNat ≤ 57 := by
    simpa [Char.isDigit, UInt32.le_iff_toNat_le] using h
  have hSpace : c ≠ ' ' := by
    rintro rfl
    exact absurd hRange.1 (by decide)
  simp only [isEdgeSpace, hSpace, Bool.or_eq_false_iff, Bool.and_eq_false_iff, decide_eq_false_iff_not,
    beq_eq_false_iff_ne, ne_eq, not_false_eq_true, true_and]
  omega

theorem plain_of_forall {s : String} (h : ∀ c ∈ s.toList.map plainChar, isEdgeSpace c = false) :
    plain s = s.toList.map plainChar := by
  have hStays : ∀ cs : List Char, (∀ c ∈ cs, isEdgeSpace c = false) → cs.dropWhile isEdgeSpace = cs := by
    intro cs hcs
    cases cs with
    | nil => rfl
    | cons c cs => exact List.dropWhile_cons_of_neg (by simp [hcs c])
  rw [plain, hStays _ h, hStays _ (by simpa using h), List.reverse_reverse]

theorem ungrouped?_of_forall {previous : Char} {cs : List Char} (hPrevious : previous ≠ '_')
    (h : ∀ c ∈ cs, c ≠ '_') : ungrouped? previous cs = some cs := by
  induction cs generalizing previous with
  | nil => simp [ungrouped?, hPrevious]
  | cons c cs ih =>
    obtain ⟨hFirst, hRest⟩ := List.forall_mem_cons.mp h
    simp [ungrouped?, hPrevious, hFirst, ih hFirst hRest]

/-- The characters of a number: digits, and digits behind a point unless there is none. -/
def IsNumber (p : Char → Bool) (cs : List Char) : Prop :=
  ∃ whole part, whole ≠ [] ∧ (∀ c ∈ whole, p c = true) ∧ (∀ c ∈ part, p c = true) ∧
    (cs = whole ∧ part = [] ∨ cs = whole ++ '.' :: part)

theorem isSome_unsigned? {cs : List Char} (h : IsNumber Char.isDigit cs) (negative : Bool) :
    (unsigned? negative cs).isSome = true := by
  obtain ⟨whole, part, hWhole, hDigits, hPart, hAll⟩ := h
  have hSpan : ∀ digits : List Char, (∀ c ∈ digits, c.isDigit = true) →
      digits.span Char.isDigit = (digits, []) := by
    intro digits h
    rw [List.span_eq_takeWhile_dropWhile, List.takeWhile_eq_self_iff.mpr h, List.dropWhile_eq_nil_iff.mpr h]
  rw [unsigned?]
  split
  · rfl
  split
  · rfl
  obtain ⟨rfl, rfl⟩ | rfl := hAll
  · rw [hSpan _ hDigits]
    simp [hWhole, exponent?]
  · have hPoint : (whole ++ '.' :: part).span Char.isDigit = (whole, '.' :: part) := by
      rw [List.span_eq_takeWhile_dropWhile, List.takeWhile_append_of_pos hDigits,
        List.dropWhile_append_of_pos hDigits]
      simp [Char.isDigit]
    simp only [hPoint, hSpan _ hPart]
    simp [hWhole, exponent?]

theorem isNumber_map_plainChar {cs : List Char} (h : IsNumber isDecimal cs) :
    IsNumber Char.isDigit (cs.map plainChar) := by
  obtain ⟨whole, part, hWhole, hDigits, hPart, hAll⟩ := h
  have hPlain : ∀ digits : List Char, (∀ c ∈ digits, isDecimal c = true) →
      ∀ c ∈ digits.map plainChar, c.isDigit = true := by
    intro digits h c hc
    obtain ⟨d, hd, rfl⟩ := List.mem_map.mp hc
    exact isDigit_plainChar (h d hd)
  refine ⟨whole.map plainChar, part.map plainChar, by simpa using hWhole, hPlain _ hDigits, hPlain _ hPart, ?_⟩
  obtain ⟨rfl, rfl⟩ | rfl := hAll
  · exact .inl ⟨rfl, rfl⟩
  · exact .inr (by simp [plainChar])

theorem IsNumber.mem {p : Char → Bool} {cs : List Char} (h : IsNumber p cs) {c : Char} (hc : c ∈ cs) :
    p c = true ∨ c = '.' := by
  obtain ⟨whole, part, -, hDigits, hPart, ⟨rfl, -⟩ | rfl⟩ := h
  · exact .inl (hDigits c hc)
  · obtain hIn | rfl | hIn : c ∈ whole ∨ c = '.' ∨ c ∈ part := by simpa using hc
    · exact .inl (hDigits c hIn)
    · exact .inr rfl
    · exact .inl (hPart c hIn)

theorem IsNumber.of_forall {p q : Char → Bool} {cs : List Char} (h : IsNumber p cs)
    (hq : ∀ c ∈ cs, p c = true → q c = true) : IsNumber q cs := by
  obtain ⟨whole, part, hWhole, hDigits, hPart, hAll⟩ := h
  refine ⟨whole, part, hWhole, fun c hc => hq c ?_ (hDigits c hc), fun c hc => hq c ?_ (hPart c hc), hAll⟩
  all_goals
    obtain ⟨rfl, rfl⟩ | rfl := hAll
    all_goals simp_all

/-- A number whose digits all have a decimal value can be read. -/
theorem isSome_readDouble? {s : String} (h : IsNumber isDecimal s.toList) : (readDouble? s).isSome = true := by
  have hNumber := isNumber_map_plainChar h
  have hPlain : plain s = s.toList.map plainChar := by
    refine plain_of_forall fun c hc => ?_
    obtain hDigit | rfl := hNumber.mem hc
    · exact not_isEdgeSpace_of_isDigit hDigit
    · rfl
  have hUngrouped : ungrouped? ' ' (plain s) = some (s.toList.map plainChar) := by
    rw [hPlain]
    refine ungrouped?_of_forall (by decide) fun c hc => ?_
    rintro rfl
    obtain hDigit | hPoint := hNumber.mem hc
    · exact absurd hDigit (by decide)
    · exact absurd hPoint (by decide)
  have hSign : sign (s.toList.map plainChar) = (false, s.toList.map plainChar) := by
    obtain ⟨whole, part, hWhole, hDigits, -, hAll⟩ := hNumber
    obtain ⟨c, cs, rfl⟩ := List.exists_cons_of_ne_nil hWhole
    obtain ⟨rest, hRest⟩ : ∃ rest, s.toList.map plainChar = c :: rest := by
      obtain ⟨h, -⟩ | h := hAll
      · exact ⟨_, h⟩
      · exact ⟨_, h⟩
    have hDigit := hDigits c (by simp)
    rw [hRest, sign.eq_3]
    · rintro cs h
      cases h
      exact absurd hDigit (by decide)
    · rintro cs h
      cases h
      exact absurd hDigit (by decide)
  rw [readDouble?, Option.isSome_map, read?, hUngrouped]
  dsimp only [Option.bind_eq_bind, Option.bind_some]
  rw [hSign]
  exact isSome_unsigned? hNumber false

end Numeral

namespace Script

open Text Numeral

theorem readNumber_append (seenPoint : Bool) (cs : List Char) :
    (readNumber seenPoint cs).1 ++ (readNumber seenPoint cs).2 = cs := by
  fun_induction readNumber seenPoint cs <;> simp_all

/-- The digits of a number, and those behind its point if that was not seen before. -/
theorem readNumber_digits (seenPoint : Bool) (cs : List Char) :
    ∃ whole part, (∀ c ∈ whole, isDigit c = true) ∧ (∀ c ∈ part, isDigit c = true) ∧
      ((readNumber seenPoint cs).1 = whole ∧ part = [] ∨
        seenPoint = false ∧ (readNumber seenPoint cs).1 = whole ++ '.' :: part) := by
  fun_induction readNumber seenPoint cs with
  | case1 => exact ⟨[], [], by simp, by simp, .inl ⟨rfl, rfl⟩⟩
  | case2 seenPoint c cs hDigit digits rest hRest ih =>
    obtain ⟨whole, part, hWhole, hPart, hAll⟩ := ih
    rw [hRest] at hAll
    refine ⟨c :: whole, part, by simpa [hDigit] using hWhole, hPart, ?_⟩
    obtain ⟨rfl, rfl⟩ | ⟨hSeen, rfl⟩ := hAll
    · exact .inl ⟨rfl, rfl⟩
    · exact .inr ⟨hSeen, rfl⟩
  | case3 seenPoint c cs _ hPoint digits rest hRest ih =>
    obtain ⟨whole, part, hWhole, -, hAll⟩ := ih
    rw [hRest] at hAll
    simp only [Bool.and_eq_true, beq_iff_eq, Bool.not_eq_true'] at hPoint
    obtain ⟨rfl, -⟩ | ⟨hSeen, -⟩ := hAll
    · exact ⟨[], _, by simp, hWhole, .inr ⟨hPoint.1.2, by simp [hPoint.1.1]⟩⟩
    · cases hSeen
  | case4 => exact ⟨[], [], by simp, by simp, .inl ⟨rfl, rfl⟩⟩

theorem isNumber_readNumber {c : Char} (hDigit : isDigit c = true) (cs : List Char) :
    IsNumber isDigit (c :: (readNumber false cs).1) := by
  obtain ⟨whole, part, hWhole, hPart, hAll⟩ := readNumber_digits false cs
  refine ⟨c :: whole, part, by simp, by simpa [hDigit] using hWhole, hPart, ?_⟩
  obtain ⟨rfl, rfl⟩ | ⟨-, hAll⟩ := hAll
  · exact .inl ⟨rfl, rfl⟩
  · exact .inr (by rw [hAll, List.cons_append])

/-- A number with a digit that has no decimal value stands in the text. -/
structure HasUnreadableNumber (cs number : List Char) : Prop where
  within : number <:+: cs
  isNumber : IsNumber isDigit number
  undecimal : ∃ c ∈ number, isDigit c = true ∧ isDecimal c = false

theorem HasUnreadableNumber.of_suffix {cs ds number : List Char} (h : HasUnreadableNumber ds number)
    (hSuffix : ds <:+ cs) : HasUnreadableNumber cs number :=
  ⟨h.within.trans hSuffix.isInfix, h.isNumber, h.undecimal⟩

theorem afterLine_suffix (cs : List Char) : afterLine cs <:+ cs := by
  fun_induction afterLine cs with
  | case1 => exact List.suffix_rfl
  | case2 c cs => exact List.suffix_cons c cs
  | case3 c cs _ ih => exact ih.trans (List.suffix_cons c cs)

theorem skipBlank_suffix (cs : List Char) : skipBlank cs <:+ cs := by
  fun_induction skipBlank cs with
  | case1 => exact List.suffix_rfl
  | case2 c cs _ ih => exact ih.trans (List.suffix_cons c cs)
  | case3 c cs _ _ ih => exact (ih.trans (afterLine_suffix cs)).trans (List.suffix_cons c cs)
  | case4 => exact List.suffix_rfl

theorem readString_suffix (quote : Char) (cs : List Char) : (readString quote cs).2 <:+ cs := by
  fun_induction readString quote cs with
  | case1 => exact List.suffix_rfl
  | case2 => exact List.nil_suffix
  | case3 => exact List.nil_suffix
  | case4 c d cs => exact List.suffix_cons c (d :: cs)
  | case5 c d cs _ _ content rest hRest ih =>
    rw [hRest] at ih
    exact ih.trans ((List.suffix_cons d cs).trans (List.suffix_cons c (d :: cs)))
  | case6 c d cs _ _ content rest hRest ih =>
    rw [hRest] at ih
    exact ih.trans (List.suffix_cons c (d :: cs))

theorem read?_suffix {c : Char} {cs rest : List Char} {m : Mark}
    (h : Mark.read? (c :: cs) = some (m, rest)) : rest <:+ cs := by
  have hShort : ∀ {ds : List Char}, (Mark.short.find? (·.text.toList == [c])).map (·, ds) = some (m, rest) →
      rest <:+ ds := by
    intro ds h
    obtain ⟨_, -, hMark⟩ := Option.map_eq_some_iff.mp h
    cases hMark
    exact List.suffix_rfl
  cases cs with
  | nil => exact hShort h
  | cons d cs =>
    rw [Mark.read?] at h
    split at h
    · cases h
      exact List.suffix_cons d rest
    · exact hShort h

/-- What comes of the first token: the text behind it, or a number that cannot be read. -/
theorem readToken_cases (c : Char) (cs : List Char) :
    (∃ t rest, readToken c cs = .ok (t, rest) ∧ rest <:+ cs) ∨
      ∃ number, readToken c cs = .error (.malformedNumber (String.ofList number)) ∧
        HasUnreadableNumber (c :: cs) number := by
  rw [readToken]
  split
  · exact .inl ⟨_, _, rfl, readString_suffix c cs⟩
  split
  · rename_i hDigit
    have hAppend := readNumber_append false cs
    have hNumber := isNumber_readNumber hDigit cs
    generalize readNumber false cs = read at hAppend hNumber
    obtain ⟨digits, rest⟩ := read
    dsimp only at hAppend hNumber ⊢
    split
    · exact .inl ⟨_, _, rfl, digits, hAppend⟩
    · rename_i hUnread
      refine .inr ⟨_, rfl, ⟨[], rest, by simp [← hAppend]⟩, hNumber, ?_⟩
      by_contra hDecimal
      push Not at hDecimal
      have hRead := hNumber.of_forall fun d hd h => by simpa using hDecimal d hd h
      have hSome := isSome_readDouble? (s := String.ofList (c :: digits)) (by simpa using hRead)
      rw [hUnread] at hSome
      cases hSome
  split
  · exact .inl ⟨_, _, rfl, List.dropWhile_suffix isNameChar⟩
  split
  · rename_i hMark
    exact .inl ⟨_, _, rfl, read?_suffix hMark⟩
  · exact .inl ⟨_, _, rfl, List.suffix_rfl⟩

/-- Only a number that cannot be read stops the reading of tokens. -/
theorem exists_of_tokens_eq_error {cs : List Char} {f : Fault} (h : tokens cs = .error f) :
    ∃ number, f = .malformedNumber (String.ofList number) ∧ HasUnreadableNumber cs number := by
  fun_induction tokens cs with
  | case1 => cases h
  | case2 cs c after hAfter e hToken =>
    cases h
    have hSuffix : c :: after <:+ cs := hAfter ▸ skipBlank_suffix cs
    obtain ⟨t, rest, hRead, -⟩ | ⟨number, hRead, hNumber⟩ := readToken_cases c after
    · rw [hToken] at hRead
      cases hRead
    · rw [hToken] at hRead
      cases hRead
      exact ⟨number, rfl, hNumber.of_suffix hSuffix⟩
  | case3 cs c after hAfter t rest hToken ih =>
    have hSuffix : c :: after <:+ cs := hAfter ▸ skipBlank_suffix cs
    obtain ⟨t', rest', hRead, hRest⟩ | ⟨number, hRead, -⟩ := readToken_cases c after
    · rw [hToken] at hRead
      cases hRead
      cases hTokens : tokens rest with
      | ok ts =>
        rw [hTokens] at h
        cases h
      | error e =>
        rw [hTokens] at h
        cases h
        obtain ⟨number, hFault, hNumber⟩ := ih hTokens
        exact ⟨number, hFault, hNumber.of_suffix ((hRest.trans (List.suffix_cons c after)).trans hSuffix)⟩
    · rw [hToken] at hRead
      cases hRead

theorem tokens_eq_error {cs after : List Char} {c : Char} {f : Fault} (hBlank : skipBlank cs = c :: after)
    (hToken : readToken c after = .error f) : tokens cs = .error f := by
  rw [tokens]
  split
  · rename_i hNil
    rw [hBlank] at hNil
    cases hNil
  · rename_i d rest hCons
    rw [hBlank] at hCons
    cases hCons
    split
    · rename_i e hError
      rw [hToken] at hError
      cases hError
      rfl
    · rename_i hOk
      rw [hToken] at hOk
      cases hOk

end Script

end PageRender
