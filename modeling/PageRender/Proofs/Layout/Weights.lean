import PageRender.Layout.Font
import PageRender.Proofs.Script.Numerals
import PageRender.Proofs.Text.Classes

/-! # Weights that cannot be read

A font weight that consists of digits is read as an integer. That fails if one of the digits has no decimal
value, as superscript and enclosed digits have none, or if there are too many digits. It is the one thing in a
style that has to be read to choose a font: all other values that make no sense count as a default.
-/

namespace PageRender

namespace Numeral

theorem plainChar_eq_self {c : Char} (hDigit : Text.isDigit c = true) (hDecimal : Text.isDecimal c = false) :
    plainChar c = c := by
  have hValue : Text.decimalValue? c = none := by simpa [Text.isDecimal] using hDecimal
  have hBlank : Text.isBlank c = false := by
    refine Bool.eq_false_iff.mpr fun hBlank => ?_
    rw [Text.not_isDigit_of_isBlank hBlank] at hDigit
    cases hDigit
  rw [plainChar, hBlank, hValue]
  exact ite_self c

/-- What stands for a digit is a digit, a European one if that has a decimal value. -/
theorem plainChar_of_digit {c : Char} (h : Text.isDigit c = true) :
    Text.isDigit (plainChar c) = true ∧ (plainChar c).isDigit = Text.isDecimal c := by
  cases hDecimal : Text.isDecimal c with
  | true => exact ⟨Text.isDigit_of_ascii (isDigit_plainChar hDecimal), isDigit_plainChar hDecimal⟩
  | false =>
    rw [plainChar_eq_self h hDecimal]
    refine ⟨h, Bool.eq_false_iff.mpr fun hAscii => ?_⟩
    rw [Text.isDecimal_of_ascii hAscii] at hDecimal
    cases hDecimal

theorem plainChars_of_digits {cs : List Char} (h : ∀ c ∈ cs, Text.isDigit c = true) :
    (∀ c ∈ cs.map plainChar, Text.isDigit c = true) ∧
      ((∀ c ∈ cs.map plainChar, c.isDigit = true) ↔ ∀ c ∈ cs, Text.isDecimal c = true) := by
  rw [List.forall_mem_map, List.forall_mem_map]
  exact ⟨fun c hc => (plainChar_of_digit (h c hc)).1,
    forall₂_congr fun c hc => by rw [(plainChar_of_digit (h c hc)).2]⟩

theorem isBlank_of_isEdgeSpace {c : Char} (h : isEdgeSpace c = true) : Text.isBlank c = true := by
  rw [isEdgeSpace, Bool.or_eq_true, beq_iff_eq, Bool.and_eq_true, decide_eq_true_eq, decide_eq_true_eq] at h
  rcases h with rfl | ⟨hFirst, hLast⟩
  · decide
  · rw [Text.isBlank, Text.blankBoundaries, Text.inBoundaries, Text.inBoundaries, if_neg (by omega), if_pos (by omega)]
    rfl

theorem plain_of_digits {s : String} (h : ∀ c ∈ s.toList, Text.isDigit c = true) :
    plain s = s.toList.map plainChar := by
  refine plain_of_forall fun c hMem => Bool.eq_false_iff.mpr fun hSpace => ?_
  have hDigit := (plainChars_of_digits h).1 c hMem
  rw [Text.not_isDigit_of_isBlank (isBlank_of_isEdgeSpace hSpace)] at hDigit
  cases hDigit

theorem sign_of_digits {cs : List Char} (h : ∀ c ∈ cs, Text.isDigit c = true) : sign cs = (false, cs) := by
  cases cs with
  | nil => rfl
  | cons c cs =>
    have hFirst := h c List.mem_cons_self
    rw [sign.eq_3]
    all_goals
      rintro rest hSign
      cases hSign
      exact absurd hFirst (by decide)

/-- Among digits there are no marks to group them. -/
theorem isRow_iff {cs : List Char} (h : ∀ c ∈ cs, Text.isDigit c = true) :
    (∀ c ∈ cs, (c.isDigit || c == '_') = true) ↔ ∀ c ∈ cs, c.isDigit = true := by
  refine forall₂_congr fun c hc => ?_
  have hMark : c ≠ '_' := by
    rintro rfl
    exact absurd (h '_' hc) (by decide)
  rw [beq_false_of_ne hMark, Bool.or_false]

theorem exists_digitRow? {cs : List Char} (h : ∀ c ∈ cs, c.isDigit = true) (afterDigit : Bool)
    (hSome : cs = [] → afterDigit = true) :
    ∃ digits, digitRow? 10 afterDigit cs = some digits ∧ digits.length = cs.length := by
  induction cs generalizing afterDigit with
  | nil =>
    rw [hSome rfl]
    exact ⟨[], rfl, rfl⟩
  | cons c cs ih =>
    obtain ⟨hFirst, hRest⟩ := List.forall_mem_cons.mp h
    obtain ⟨digits, hDigits, hLength⟩ := ih hRest true fun _ => rfl
    have hMark : ¬ (c == '_' && afterDigit) = true := by
      rw [Bool.and_eq_true, beq_iff_eq]
      rintro ⟨rfl, -⟩
      exact absurd hFirst (by decide)
    have hBelow : digitBelow? 10 c = some (c.toNat - '0'.toNat) := by
      have hRange := Text.toNat_of_ascii hFirst
      have hZero : '0'.toNat = 48 := rfl
      rw [digitBelow?, if_pos hFirst, Option.filter_some, if_pos (by simp; omega)]
    rw [digitRow?, if_neg hMark, hBelow, Option.bind_some, hDigits]
    exact ⟨_, rfl, congrArg Nat.succ hLength⟩

end Numeral

/-- Digits are an integer if each has a decimal value and they are not too many. -/
theorem exists_readInteger_iff {s : String} (h : isDigits s = true) :
    (∃ v, readInteger s = .ok v) ↔
      (∀ c ∈ s.toList, Text.isDecimal c = true) ∧ s.length ≤ Numeral.maxIntegerDigits := by
  rw [isDigits, Bool.and_eq_true, Bool.not_eq_true', List.all_eq_true] at h
  obtain ⟨hNonempty, hDigits⟩ := h
  obtain ⟨hMapped, hDecimal⟩ := Numeral.plainChars_of_digits hDigits
  have hSize : (s.toList.map Numeral.plainChar).length = s.length := by
    rw [List.length_map, String.length_toList]
  have hSome : s.toList.map Numeral.plainChar = [] → false = true := by
    intro hNil
    rw [List.map_eq_nil_iff, String.toList_eq_nil_iff] at hNil
    rw [hNil] at hNonempty
    cases hNonempty
  rw [readInteger, Numeral.plain_of_digits hDigits, Numeral.sign_of_digits hMapped, ← hDecimal, ← hSize]
  generalize s.toList.map Numeral.plainChar = cs at hMapped hSome
  dsimp only
  rw [List.span_eq_takeWhile_dropWhile]
  by_cases hAscii : ∀ c ∈ cs, c.isDigit = true
  · have hAll := (Numeral.isRow_iff hMapped).mpr hAscii
    obtain ⟨digits, hRow, hLength⟩ := Numeral.exists_digitRow? hAscii false hSome
    rw [List.takeWhile_eq_self_iff.mpr hAll, List.dropWhile_eq_nil_iff.mpr hAll, hRow, and_iff_right hAscii, ← hLength]
    dsimp only
    split
    · rename_i hMany
      refine ⟨?_, fun hFew => absurd hFew (Nat.not_le.mpr hMany)⟩
      rintro ⟨v, hRead⟩
      cases hRead
    · rename_i hFew
      exact ⟨fun _ => Nat.not_lt.mp hFew, fun _ => ⟨_, rfl⟩⟩
  · have hRest : (cs.dropWhile fun c => c.isDigit || c == '_').isEmpty = false := by
      refine Bool.eq_false_iff.mpr fun hEmpty => hAscii ((Numeral.isRow_iff hMapped).mp ?_)
      exact List.dropWhile_eq_nil_iff.mp (List.isEmpty_iff.mp hEmpty)
    refine ⟨?_, fun h => absurd h.1 hAscii⟩
    rintro ⟨v, hRead⟩
    rw [hRest] at hRead
    split at hRead
    · cases hRead
    · split at hRead <;> cases hRead

/-! ## Choosing a font -/

/-- A weight that is no row of digits, or that is an integer with not too many of them. -/
def IsReadableWeight (weight : String) : Prop :=
  isDigits weight = true →
    (∀ c ∈ weight.toList, Text.isDecimal c = true) ∧ weight.length ≤ Numeral.maxIntegerDigits

/-- The fault that stops the reading of a weight, if it cannot be read. -/
structure IsWeightFault (weight : String) (e : Fault) : Prop where
  unreadable : ¬ IsReadableWeight weight
  reading : readInteger weight = .error e

namespace FontChoice

theorem isHeavy_cases (weight : String) :
    (IsReadableWeight weight ∧ ∃ heavy, isHeavy weight = .ok heavy) ∨
      ∃ e, IsWeightFault weight e ∧ isHeavy weight = .error e := by
  rw [isHeavy]
  cases hDigits : isDigits weight with
  | false =>
    have hReadable : IsReadableWeight weight := fun h => absurd (hDigits.symm.trans h) Bool.false_ne_true
    exact .inl ⟨hReadable, _, rfl⟩
  | true =>
    have hReads := exists_readInteger_iff hDigits
    cases hRead : readInteger weight with
    | ok v =>
      have hReadable : IsReadableWeight weight := fun _ => hReads.mp ⟨v, hRead⟩
      exact .inl ⟨hReadable, _, rfl⟩
    | error e =>
      have hUnreadable : ¬ IsReadableWeight weight := fun hReadable => by
        obtain ⟨v, hv⟩ := hReads.mpr (hReadable hDigits)
        rw [hRead] at hv
        cases hv
      exact .inr ⟨e, ⟨hUnreadable, hRead⟩, rfl⟩

/-- Of all that a font is chosen by, only the weight can fail to be read. -/
theorem ofStyle_cases {α : Type} [Scalar α] (style : StyleMap) :
    (IsReadableWeight (style.getD "font-weight" "normal") ∧ ∃ c : FontChoice α, ofStyle style = .ok c) ∨
      ∃ e, IsWeightFault (style.getD "font-weight" "normal") e ∧
        (ofStyle style : Except Fault (FontChoice α)) = .error e := by
  generalize hWeight : style.getD "font-weight" "normal" = weight
  rw [ofStyle, hWeight]
  dsimp only
  split
  · rename_i hBold
    have hReadable : IsReadableWeight weight := by
      rw [Bool.or_eq_true, beq_iff_eq, beq_iff_eq] at hBold
      rcases hBold with rfl | rfl <;> exact fun hDigits => absurd hDigits (by decide)
    exact .inl ⟨hReadable, _, rfl⟩
  · obtain ⟨hReadable, heavy, hHeavy⟩ | ⟨e, hFault, hHeavy⟩ := isHeavy_cases weight
    · rw [hHeavy]
      exact .inl ⟨hReadable, _, rfl⟩
    · rw [hHeavy]
      exact .inr ⟨e, hFault, rfl⟩

end FontChoice

end PageRender
