import PageRender.Paint.Color
import PageRender.Proofs.Outcome
import PageRender.Proofs.Script.Numerals
import Mathlib.Data.List.Basic
import Mathlib.Data.List.TakeWhile

/-! # The colors of texts

Which texts mean a color, and which color. Beside the names, the hexadecimal digits and the numbers between
parentheses there are texts that are read although they should not be: the reader of two hexadecimal digits also
takes one digit with a sign or a blank. No number is too great, except for an opacity.
-/

namespace PageRender

namespace Numeral

theorem le_toNat_of_digitBelow? {base : Nat} {c : Char} {v : Nat} (h : digitBelow? base c = some v) :
    48 ≤ c.toNat := by
  have hFrom {low : Char} (h : c.val ≥ low.val) : low.toNat ≤ c.toNat := UInt32.le_iff_toNat_le.mp h
  obtain ⟨hValue, -⟩ := Option.filter_eq_some_iff.mp h
  split at hValue
  · rename_i hDigit
    exact hFrom (of_decide_eq_true (Bool.and_eq_true_iff.mp hDigit).1)
  split at hValue
  · rename_i hLower
    exact le_trans (by decide) (hFrom (of_decide_eq_true (Bool.and_eq_true_iff.mp hLower).1))
  split at hValue
  · rename_i hUpper
    exact le_trans (by decide) (hFrom (of_decide_eq_true hUpper).1)
  · cases hValue

theorem not_isEdgeSpace_of_digitBelow? {base : Nat} {c : Char} {v : Nat} (h : digitBelow? base c = some v) :
    isEdgeSpace c = false := by
  have hLow := le_toNat_of_digitBelow? h
  have hSpace : c ≠ ' ' := by
    rintro rfl
    exact absurd hLow (by decide)
  simp only [isEdgeSpace, hSpace, Bool.or_eq_false_iff, Bool.and_eq_false_iff, decide_eq_false_iff_not,
    beq_eq_false_iff_ne, ne_eq, not_false_eq_true, true_and]
  omega

theorem sign_of_digit {base : Nat} {c : Char} {v : Nat} (h : digitBelow? base c = some v) (cs : List Char) :
    sign (c :: cs) = (false, c :: cs) := by
  have hLow := le_toNat_of_digitBelow? h
  apply sign.eq_3
  · rintro ds hEq
    cases hEq
    exact absurd hLow (by decide)
  · rintro ds hEq
    cases hEq
    exact absurd hLow (by decide)

end Numeral

namespace Color

open Numeral

/-- The digits of all scripts count, but only the Latin letters. -/
def hexDigit? (c : Char) : Option Nat :=
  digitBelow? 16 (plainChar c)

/-! ## The grammar -/

inductive IsDigits : Char → Char → Int → Prop
  | intro {a b : Char} {v w : Nat} (ha : hexDigit? a = some v) (hb : hexDigit? b = some w) :
      IsDigits a b (16 * v + w : Nat)

/-- One digit also counts as a pair if the other character is blank or a sign before it. -/
inductive IsPair : Char → Char → Int → Prop
  | digits {a b : Char} {v : Int} (h : IsDigits a b v) : IsPair a b v
  | blankBefore {a b : Char} {w : Nat} (ha : isEdgeSpace (plainChar a) = true) (hb : hexDigit? b = some w) :
      IsPair a b w
  | blankAfter {a b : Char} {v : Nat} (ha : hexDigit? a = some v) (hb : isEdgeSpace (plainChar b) = true) :
      IsPair a b v
  | plus {b : Char} {w : Nat} (hb : hexDigit? b = some w) : IsPair '+' b w
  | minus {b : Char} {w : Nat} (hb : hexDigit? b = some w) : IsPair '-' b (-w)

section

variable (pair : Char → Char → Int → Prop)

inductive Pairs : List Char → List Int → Prop
  | nil : Pairs [] []
  | cons {a b : Char} {v : Int} {cs : List Char} {vs : List Int} (h : pair a b v) (hs : Pairs cs vs) :
      Pairs (a :: b :: cs) (v :: vs)

inductive ReadsHex : List Char → Color → Prop
  | three {r g b : Char} {v w z : Nat} (hRed : hexDigit? r = some v) (hGreen : hexDigit? g = some w)
      (hBlue : hexDigit? b = some z) : ReadsHex [r, g, b] ⟨17 * v, 17 * w, 17 * z, 255⟩
  | six {cs : List Char} {r g b : Int} (h : Pairs pair cs [r, g, b]) : ReadsHex cs ⟨r, g, b, 255⟩
  | eight {cs : List Char} {r g b a : Int} (h : Pairs pair cs [r, g, b, a]) : ReadsHex cs ⟨r, g, b, a⟩

end

/-- A text `name(part,...,part)`. The parts are taken without the blanks around them. -/
structure IsCall (name : String) (parts : List String) (t : String) : Prop where
  name_plain : '(' ∉ name.toList
  eq : ∃ inside, t.toList = name.toList ++ '(' :: (inside ++ [')']) ∧
    ((String.ofList inside).splitOn ",").map Text.trimmed = parts

/-- The colors of texts, given which characters are read as a pair of hexadecimal digits. -/
inductive Reads (pair : Char → Char → Int → Prop) : String → Color → Prop
  | name {t : String} {c : Color} (h : (t, c) ∈ named) : Reads pair t c
  | hex {t : String} {digits : List Char} {c : Color} (ht : t.toList = '#' :: digits) (h : ReadsHex pair digits c) :
      Reads pair t c
  | rgb {t r g b : String} {v w z : Int} (h : IsCall "rgb" [r, g, b] t) (hRed : readInteger? 10 r = some v)
      (hGreen : readInteger? 10 g = some w) (hBlue : readInteger? 10 b = some z) : Reads pair t ⟨v, w, z, 255⟩
  | rgba {t r g b a : String} {v w z o : Int} {x : Float} (h : IsCall "rgba" [r, g, b, a] t)
      (hRed : readInteger? 10 r = some v) (hGreen : readInteger? 10 g = some w) (hBlue : readInteger? 10 b = some z)
      (hOpacity : readDouble? a = some x) (hCut : truncated? (x * 255) = some o) : Reads pair t ⟨v, w, z, o⟩

/-- The opacity is a number, but 255 times as much is not finite. -/
inductive Overflows : String → Prop
  | rgba {t r g b a : String} {v w z : Int} {x : Float} {negative : Bool} (h : IsCall "rgba" [r, g, b, a] t)
      (hRed : readInteger? 10 r = some v) (hGreen : readInteger? 10 g = some w) (hBlue : readInteger? 10 b = some z)
      (hOpacity : readDouble? a = some x) (hInfinite : DoubleParts.ofFloat (x * 255) = .infinite negative) :
      Overflows t

/-! ## Hexadecimal digits -/

theorem lt_of_hexDigit? {c : Char} {v : Nat} (h : hexDigit? c = some v) : v < 16 := by
  rw [hexDigit?, digitBelow?, Option.filter_eq_some_iff] at h
  simpa using h.2

/-- The value of a numeral without blanks around it. -/
def hexValue? (cs : List Char) : Option Int :=
  (digitRow? 16 false (afterBaseMark 16 (sign cs).2)).map (ofDigits 16 (sign cs).1)

theorem hexPair?_eq (a b : Char) : hexPair? a b = hexValue? (plain (String.ofList [a, b])) := by
  rw [hexPair?, readInteger?, integerDigits?, hexValue?]
  generalize plain (String.ofList [a, b]) = cs
  dsimp only
  cases digitRow? 16 false (afterBaseMark 16 (sign cs).2) <;> rfl

theorem digitRow?_singleton (c : Char) :
    digitRow? 16 false (afterBaseMark 16 [c]) = (digitBelow? 16 c).map fun v => [v] := by
  have hMark : afterBaseMark 16 [c] = [c] := by
    rw [afterBaseMark.eq_def]
    split
    · rename_i hEqual
      cases hEqual
    · rfl
  rw [hMark, digitRow?, Bool.and_false, if_neg Bool.false_ne_true]
  cases digitBelow? 16 c <;> rfl

theorem digitRow?_pair (c d : Char) :
    digitRow? 16 false (afterBaseMark 16 [c, d]) =
      (digitBelow? 16 c).bind fun v => (digitBelow? 16 d).map fun w => [v, w] := by
  by_cases hMark : c = '0' ∧ (d = 'x' ∨ d = 'X')
  · rcases hMark with ⟨rfl, rfl | rfl⟩ <;> rfl
  · have hPlain : afterBaseMark 16 [c, d] = [c, d] := by
      rw [afterBaseMark.eq_def]
      split
      · rename_i hEqual
        cases hEqual
        rw [if_neg]
        simpa using hMark
      · rfl
    rw [hPlain, digitRow?, Bool.and_false, if_neg Bool.false_ne_true]
    by_cases hGap : d = '_'
    · subst hGap
      rfl
    · -- The first digit could be followed by an underscore, but a row does not end with one.
      cases digitBelow? 16 c with
      | none => rfl
      | some v =>
        rw [Option.bind_some, Option.bind_some, digitRow?, beq_eq_false_iff_ne.mpr hGap, Bool.false_and,
          if_neg Bool.false_ne_true]
        cases digitBelow? 16 d <;> rfl

theorem hexValue?_singleton_iff {c : Char} {v : Int} :
    hexValue? [c] = some v ↔ ∃ d : Nat, digitBelow? 16 c = some d ∧ v = d := by
  cases hDigit : digitBelow? 16 c with
  | some d =>
    rw [hexValue?, sign_of_digit hDigit, digitRow?_singleton, hDigit]
    simp [ofDigits, eq_comm]
  | none =>
    have hNone : hexValue? [c] = none := by
      rw [hexValue?]
      by_cases hSign : c = '-' ∨ c = '+'
      · rcases hSign with rfl | rfl
        · rfl
        · rfl
      · rw [not_or] at hSign
        rw [sign.eq_3 _ (by simp [hSign.1]) (by simp [hSign.2]), digitRow?_singleton, hDigit]
        rfl
    simp [hNone]

theorem hexValue?_pair_iff {c d : Char} {v : Int} :
    hexValue? [c, d] = some v ↔
      (∃ x y : Nat, digitBelow? 16 c = some x ∧ digitBelow? 16 d = some y ∧ v = (16 * x + y : Nat)) ∨
      (c = '+' ∧ ∃ y : Nat, digitBelow? 16 d = some y ∧ v = y) ∨
      (c = '-' ∧ ∃ y : Nat, digitBelow? 16 d = some y ∧ v = -y) := by
  have hMinusDigit : digitBelow? 16 '-' = none := rfl
  have hPlusDigit : digitBelow? 16 '+' = none := rfl
  -- After a sign only the second character is read; a sign is no digit itself.
  by_cases hMinus : c = '-'
  · subst hMinus
    rw [hexValue?, sign, digitRow?_singleton, Option.map_map, Option.map_eq_some_iff]
    simp [ofDigits, hMinusDigit, eq_comm]
  by_cases hPlus : c = '+'
  · subst hPlus
    rw [hexValue?, sign, digitRow?_singleton, Option.map_map, Option.map_eq_some_iff]
    simp [ofDigits, hPlusDigit, eq_comm]
  · rw [hexValue?, sign.eq_3 _ (by simp [hMinus]) (by simp [hPlus]), digitRow?_pair]
    cases digitBelow? 16 c <;> cases digitBelow? 16 d <;> simp [ofDigits, hMinus, hPlus, eq_comm]

theorem plain_pair (a b : Char) : plain (String.ofList [a, b]) =
    if isEdgeSpace (plainChar a) then if isEdgeSpace (plainChar b) then [] else [plainChar b]
    else if isEdgeSpace (plainChar b) then [plainChar a] else [plainChar a, plainChar b] := by
  cases ha : isEdgeSpace (plainChar a) <;> cases hb : isEdgeSpace (plainChar b) <;>
    simp [plain, ha, hb]

theorem plainChar_eq_iff {c d : Char} (hLow : d.toNat < 48) (hSpace : d ≠ ' ') :
    plainChar c = d ↔ c = d := by
  rw [plainChar]
  split
  · rfl
  rename_i hHigh
  have hNot : c ≠ d := by
    rintro rfl
    omega
  split
  · simp [hNot, hSpace.symm]
  · cases hValue : Text.decimalValue? c with
    | none => rfl
    | some v =>
      obtain ⟨-, -, hLt, -⟩ := Text.exists_zero_of_decimalValue? hValue
      have hDigits : ∀ v < 10, 48 ≤ (Nat.digitChar v).toNat := by decide
      have hDigit : Nat.digitChar v ≠ d := by
        rintro rfl
        exact absurd (hDigits v hLt) (by omega)
      simp [hNot, hDigit]

theorem hexPair?_eq_some_iff {a b : Char} {v : Int} : hexPair? a b = some v ↔ IsPair a b v := by
  rw [hexPair?_eq, plain_pair]
  constructor
  · intro h
    split at h
    · rename_i ha
      split at h
      · cases h
      · obtain ⟨w, hb, rfl⟩ := hexValue?_singleton_iff.mp h
        exact .blankBefore ha hb
    · split at h
      · rename_i hb
        obtain ⟨w, ha, rfl⟩ := hexValue?_singleton_iff.mp h
        exact .blankAfter ha hb
      · obtain ⟨x, y, ha, hb, rfl⟩ | ⟨ha, y, hb, rfl⟩ | ⟨ha, y, hb, rfl⟩ := hexValue?_pair_iff.mp h
        · exact .digits (.intro ha hb)
        · rw [plainChar_eq_iff (by decide) (by decide)] at ha
          subst ha
          exact .plus hb
        · rw [plainChar_eq_iff (by decide) (by decide)] at ha
          subst ha
          exact .minus hb
  · intro h
    have hDigit {c : Char} {w : Nat} (hc : hexDigit? c = some w) : isEdgeSpace (plainChar c) = false :=
      not_isEdgeSpace_of_digitBelow? hc
    cases h with
    | digits h =>
      obtain ⟨ha, hb⟩ := h
      rw [hDigit ha, hDigit hb]
      exact hexValue?_pair_iff.mpr (.inl ⟨_, _, ha, hb, rfl⟩)
    | blankBefore ha hb =>
      rw [ha, hDigit hb]
      exact hexValue?_singleton_iff.mpr ⟨_, hb, rfl⟩
    | blankAfter ha hb =>
      rw [hDigit ha, hb]
      exact hexValue?_singleton_iff.mpr ⟨_, ha, rfl⟩
    | plus hb =>
      rw [hDigit hb]
      exact hexValue?_pair_iff.mpr (.inr (.inl ⟨rfl, _, hb, rfl⟩))
    | minus hb =>
      rw [hDigit hb]
      exact hexValue?_pair_iff.mpr (.inr (.inr ⟨rfl, _, hb, rfl⟩))

theorem hexPair?_doubled_iff {d : Char} {v : Int} :
    hexPair? d d = some v ↔ ∃ w : Nat, hexDigit? d = some w ∧ v = 17 * w := by
  rw [hexPair?_eq_some_iff]
  constructor
  · intro h
    -- A character that is doubled cannot be a digit in one place and something else in the other.
    cases h with
    | digits h =>
      obtain ⟨ha, hb⟩ := h
      obtain rfl := Option.some.inj (ha.symm.trans hb)
      exact ⟨_, ha, by omega⟩
    | blankBefore ha hb =>
      rw [not_isEdgeSpace_of_digitBelow? hb] at ha
      cases ha
    | blankAfter ha hb =>
      rw [not_isEdgeSpace_of_digitBelow? ha] at hb
      cases hb
    | plus hb => cases hb
    | minus hb => cases hb
  · rintro ⟨w, hw, rfl⟩
    have hPair := IsPair.digits (.intro hw hw)
    rwa [show ((16 * w + w : Nat) : Int) = 17 * w by omega] at hPair

theorem components_eq_some_iff {r g b a : Option Int} {c : Color} :
    (do return (⟨← r, ← g, ← b, ← a⟩ : Color)) = some c ↔
      r = some c.red ∧ g = some c.green ∧ b = some c.blue ∧ a = some c.alpha := by
  obtain ⟨_, _, _, _⟩ := c
  cases r <;> cases g <;> cases b <;> cases a <;> simp

theorem ofHex?_three (r g b : Char) : ofHex? [r, g, b] =
    do return ⟨← hexPair? r r, ← hexPair? g g, ← hexPair? b b, ← hexPair? 'f' 'f'⟩ := rfl

theorem ofHex?_six (r r' g g' b b' : Char) : ofHex? [r, r', g, g', b, b'] =
    do return ⟨← hexPair? r r', ← hexPair? g g', ← hexPair? b b', ← hexPair? 'f' 'f'⟩ := rfl

theorem ofHex?_eight (r r' g g' b b' a a' : Char) : ofHex? [r, r', g, g', b, b', a, a'] =
    do return ⟨← hexPair? r r', ← hexPair? g g', ← hexPair? b b', ← hexPair? a a'⟩ := rfl

theorem shape_of_ofHex? {digits : List Char} {c : Color} (h : ofHex? digits = some c) :
    (∃ r g b, digits = [r, g, b]) ∨ (∃ r r' g g' b b', digits = [r, r', g, g', b, b']) ∨
      ∃ r r' g g' b b' a a', digits = [r, r', g, g', b, b', a, a'] := by
  rw [ofHex?] at h
  by_cases hThree : digits.length = 3
  · exact .inl (List.length_eq_three.mp hThree)
  by_cases hSix : digits.length = 6
  · refine .inr (.inl ?_)
    clear h hThree
    match digits, hSix with
    | [r, r', g, g', b, b'], _ => exact ⟨r, r', g, g', b, b', rfl⟩
  rw [beq_eq_false_iff_ne.mpr hThree, if_neg Bool.false_ne_true] at h
  rw [beq_eq_false_iff_ne.mpr hSix, if_neg Bool.false_ne_true] at h
  split at h
  · exact .inr (.inr ⟨_, _, _, _, _, _, _, _, rfl⟩)
  · cases h

theorem hexPair?_opaque : hexPair? 'f' 'f' = some 255 :=
  hexPair?_doubled_iff.mpr ⟨15, rfl, rfl⟩

theorem ofHex?_eq_some_iff {digits : List Char} {c : Color} :
    ofHex? digits = some c ↔ ReadsHex IsPair digits c := by
  constructor
  · intro h
    obtain ⟨r, g, b, rfl⟩ | ⟨r, r', g, g', b, b', rfl⟩ | ⟨r, r', g, g', b, b', a, a', rfl⟩ := shape_of_ofHex? h
    · rw [ofHex?_three, hexPair?_opaque, components_eq_some_iff] at h
      obtain ⟨hRed, hGreen, hBlue, hAlpha⟩ := h
      obtain ⟨v, hv, hRed⟩ := hexPair?_doubled_iff.mp hRed
      obtain ⟨w, hw, hGreen⟩ := hexPair?_doubled_iff.mp hGreen
      obtain ⟨z, hz, hBlue⟩ := hexPair?_doubled_iff.mp hBlue
      obtain ⟨_, _, _, _⟩ := c
      cases hRed
      cases hGreen
      cases hBlue
      cases hAlpha
      exact .three hv hw hz
    · rw [ofHex?_six, hexPair?_opaque, components_eq_some_iff] at h
      obtain ⟨hRed, hGreen, hBlue, hAlpha⟩ := h
      obtain ⟨_, _, _, _⟩ := c
      cases hAlpha
      rw [hexPair?_eq_some_iff] at hRed hGreen hBlue
      exact .six (.cons hRed (.cons hGreen (.cons hBlue .nil)))
    · rw [ofHex?_eight, components_eq_some_iff] at h
      obtain ⟨hRed, hGreen, hBlue, hAlpha⟩ := h
      rw [hexPair?_eq_some_iff] at hRed hGreen hBlue hAlpha
      exact .eight (.cons hRed (.cons hGreen (.cons hBlue (.cons hAlpha .nil))))
  · intro h
    cases h with
    | three hRed hGreen hBlue =>
      rw [ofHex?_three, hexPair?_opaque, components_eq_some_iff]
      exact ⟨hexPair?_doubled_iff.mpr ⟨_, hRed, rfl⟩, hexPair?_doubled_iff.mpr ⟨_, hGreen, rfl⟩,
        hexPair?_doubled_iff.mpr ⟨_, hBlue, rfl⟩, rfl⟩
    | six h =>
      obtain _ | ⟨hRed, _ | ⟨hGreen, _ | ⟨hBlue, _ | _⟩⟩⟩ := h
      rw [← hexPair?_eq_some_iff] at hRed hGreen hBlue
      rw [ofHex?_six, hexPair?_opaque, components_eq_some_iff]
      exact ⟨hRed, hGreen, hBlue, rfl⟩
    | eight h =>
      obtain _ | ⟨hRed, _ | ⟨hGreen, _ | ⟨hBlue, _ | ⟨hAlpha, _ | _⟩⟩⟩⟩ := h
      rw [← hexPair?_eq_some_iff] at hRed hGreen hBlue hAlpha
      rw [ofHex?_eight, components_eq_some_iff]
      exact ⟨hRed, hGreen, hBlue, hAlpha⟩

/-! ## Components between parentheses -/

theorem isCall_iff {name : String} {parts : List String} {t : String} :
    IsCall name parts t ↔ String.ofList (t.toList.takeWhile (· != '(')) = name ∧
      ∃ inside, t.toList.dropWhile (· != '(') = '(' :: inside ∧ inside.getLast? = some ')' ∧
        ((String.ofList inside.dropLast).splitOn ",").map Text.trimmed = parts := by
  constructor
  · rintro ⟨hPlain, inside, hText, hParts⟩
    have hName : ∀ c ∈ name.toList, (c != '(') = true := by
      intro c hc
      rw [bne_iff_ne]
      rintro rfl
      exact hPlain hc
    rw [hText, List.takeWhile_append_of_pos hName, List.dropWhile_append_of_pos hName]
    refine ⟨by simp, inside ++ [')'], by simp, by simp, by simpa using hParts⟩
  · rintro ⟨rfl, inside, hText, hLast, hParts⟩
    obtain ⟨inside, rfl⟩ := List.getLast?_eq_some_iff.mp hLast
    refine ⟨?_, inside, ?_, by simpa using hParts⟩
    · rw [String.toList_ofList]
      intro hMem
      simpa using List.mem_takeWhile_imp hMem
    · rw [String.toList_ofList, ← hText, List.takeWhile_append_dropWhile]

theorem opacity_eq_ok_iff {a : String} {o : Int} :
    opacity a = .ok (some o) ↔ ∃ x, readDouble? a = some x ∧ truncated? (x * 255) = some o := by
  rw [opacity]
  cases readDouble? a with
  | none => simp
  | some x =>
    simp only [Option.some.injEq, exists_eq_left']
    cases hParts : DoubleParts.ofFloat (x * 255) <;> simp [truncated?, hParts]

theorem opacity_eq_error_iff {a : String} {f : Fault} :
    opacity a = .error f ↔ f = .infiniteInteger ∧
      ∃ x negative, readDouble? a = some x ∧ DoubleParts.ofFloat (x * 255) = .infinite negative := by
  rw [opacity]
  cases readDouble? a with
  | none => simp
  | some x =>
    cases hParts : DoubleParts.ofFloat (x * 255) <;> simp [hParts, eq_comm]

/-- What `ofComponents?` makes of the name and the parts. -/
def ofParts (name : String) (parts : List String) : Except Fault (Option Color) :=
  match name, parts with
  | "rgb", [r, g, b] => .ok do return ⟨← readInteger? 10 r, ← readInteger? 10 g, ← readInteger? 10 b, 255⟩
  | "rgba", [r, g, b, a] =>
    match readInteger? 10 r, readInteger? 10 g, readInteger? 10 b with
    | some r, some g, some b => (opacity a).map (·.map (⟨r, g, b, ·⟩))
    | _, _, _ => .ok none
  | _, _ => .ok none

theorem ofComponents?_of_isCall {name : String} {parts : List String} {t : String} (h : IsCall name parts t) :
    ofComponents? t = ofParts name parts := by
  obtain ⟨rfl, inside, hInside, hLast, rfl⟩ := isCall_iff.mp h
  rw [ofComponents?, hInside]
  simp only [hLast, bne_self_eq_false, Bool.false_eq_true, if_false]
  rfl

theorem ofComponents?_of_not_isCall {t : String} (h : ∀ name parts, ¬ IsCall name parts t) :
    ofComponents? t = .ok none := by
  rw [ofComponents?]
  split
  · rename_i c inside hInside
    have hOpening : c = '(' := by
      have hHead := List.head?_dropWhile_not (· != '(') t.toList
      rw [hInside] at hHead
      simpa using hHead
    subst hOpening
    by_cases hLast : inside.getLast? = some ')'
    · exact absurd (isCall_iff.mpr ⟨rfl, inside, hInside, hLast, rfl⟩) (h _ _)
    · rw [if_pos (bne_iff_ne.mpr hLast)]
  · rfl

theorem ofParts_rgba {r g b a : String} {v w z : Int} (hRed : readInteger? 10 r = some v)
    (hGreen : readInteger? 10 g = some w) (hBlue : readInteger? 10 b = some z) :
    ofParts "rgba" [r, g, b, a] = (opacity a).map (·.map (⟨v, w, z, ·⟩)) := by
  rw [ofParts, hRed, hGreen, hBlue]

section

variable {name t : String} {parts : List String} (hCall : IsCall name parts t)

include hCall

theorem reads_of_ofParts {c : Color} (h : ofParts name parts = .ok (some c)) : Reads IsPair t c := by
  rw [ofParts.eq_def] at h
  split at h
  · rename_i r g b
    obtain ⟨v, hRed, h⟩ := Option.bind_eq_some_iff.mp (Except.ok.inj h)
    obtain ⟨w, hGreen, h⟩ := Option.bind_eq_some_iff.mp h
    obtain ⟨z, hBlue, h⟩ := Option.bind_eq_some_iff.mp h
    cases h
    exact .rgb hCall hRed hGreen hBlue
  · rename_i r g b a
    split at h
    · rename_i hRed hGreen hBlue
      obtain ⟨o, hOpacity, h⟩ := Outcome.map_eq_ok_iff.mp h
      obtain ⟨o, rfl, rfl⟩ := Option.map_eq_some_iff.mp h
      obtain ⟨x, hRead, hCut⟩ := opacity_eq_ok_iff.mp hOpacity
      exact .rgba hCall hRed hGreen hBlue hRead hCut
    · cases h
  · cases h

theorem overflows_of_ofParts {f : Fault} (h : ofParts name parts = .error f) :
    f = .infiniteInteger ∧ Overflows t := by
  rw [ofParts.eq_def] at h
  split at h
  · cases h
  · rename_i r g b a
    split at h
    · rename_i hRed hGreen hBlue
      have hOpacity : opacity a = .error f := by
        cases hOpacity : opacity a with
        | error e =>
          rw [hOpacity] at h
          cases h
          rfl
        | ok o =>
          rw [hOpacity] at h
          cases h
      obtain ⟨rfl, x, negative, hRead, hInfinite⟩ := opacity_eq_error_iff.mp hOpacity
      exact ⟨rfl, .rgba hCall hRed hGreen hBlue hRead hInfinite⟩
    · cases h
  · cases h

end

/-! ## Colors -/

/-- A text as it is looked at: in lower case, without the blanks around it. -/
def cleaned (s : String) : String :=
  Text.trimmed (Text.lowerCase s)

/-- The color of a text without capital letters and blanks around it. -/
def colorOf? (t : String) : Except Fault (Option Color) :=
  match named.lookup t with
  | some c => .ok (some c)
  | none => if t.toList.head? = some '#' then .ok (ofHex? t.toList.tail) else ofComponents? t

theorem colorOf?_of_lookup {t : String} {c : Color} (h : named.lookup t = some c) : colorOf? t = .ok (some c) := by
  rw [colorOf?, h]

theorem colorOf?_of_unnamed {t : String} (h : named.lookup t = none) :
    colorOf? t = if t.toList.head? = some '#' then .ok (ofHex? t.toList.tail) else ofComponents? t := by
  rw [colorOf?, h]

theorem parse_eq (s : String) :
    parse (some s) = (colorOf? (cleaned s)).map (·.getD black) := by
  rw [parse, ← cleaned]
  generalize cleaned s = t
  split
  · rename_i c hLookup
    rw [colorOf?_of_lookup hLookup]
    rfl
  · rename_i hLookup
    rw [colorOf?_of_unnamed hLookup]
    split
    · rename_i digits hDigits
      rw [hDigits, if_pos List.head?_cons]
      rfl
    · rename_i hOther
      rw [if_neg]
      intro hHead
      obtain ⟨digits, hDigits⟩ := List.head?_eq_some_iff.mp hHead
      exact hOther digits hDigits

theorem lookup_named_eq_some_iff {t : String} {c : Color} : named.lookup t = some c ↔ (t, c) ∈ named := by
  constructor
  · intro h
    obtain ⟨front, back, hNamed, -⟩ := List.lookup_eq_some_iff.mp h
    rw [hNamed]
    exact List.mem_append_right front List.mem_cons_self
  · have hAll : ∀ p ∈ named, named.lookup p.1 = some p.2 := by decide
    exact hAll (t, c)

theorem lookup_named_eq_none {t : String} (h : '#' ∈ t.toList ∨ '(' ∈ t.toList) : named.lookup t = none := by
  have hAll : ∀ p ∈ named, '#' ∉ p.1.toList ∧ '(' ∉ p.1.toList := by decide
  cases hLookup : named.lookup t with
  | none => rfl
  | some c =>
    obtain ⟨hSign, hOpening⟩ := hAll (t, c) (lookup_named_eq_some_iff.mp hLookup)
    rcases h with h | h
    · exact absurd h hSign
    · exact absurd h hOpening

theorem colorOf?_of_isCall {name t : String} {parts : List String} (h : IsCall name parts t)
    (hName : name.toList.head? ≠ some '#') : colorOf? t = ofParts name parts := by
  obtain ⟨-, inside, ht, -⟩ := id h
  have hHead : t.toList.head? ≠ some '#' := by
    rw [ht, List.head?_append]
    cases hFirst : name.toList.head? with
    | none => simp
    | some c => rwa [hFirst] at hName
  rw [colorOf?_of_unnamed (lookup_named_eq_none (.inr (by simp [ht]))), if_neg hHead, ofComponents?_of_isCall h]

theorem colorOf?_eq_ok_iff {t : String} {c : Color} : colorOf? t = .ok (some c) ↔ Reads IsPair t c := by
  constructor
  · intro h
    rw [colorOf?] at h
    split at h
    · rename_i c' hLookup
      cases h
      exact .name (lookup_named_eq_some_iff.mp hLookup)
    split at h
    · rename_i hHead
      obtain ⟨digits, ht⟩ := List.head?_eq_some_iff.mp hHead
      rw [ht] at h
      exact .hex ht (ofHex?_eq_some_iff.mp (Except.ok.inj h))
    · by_cases hCall : ∃ name parts, IsCall name parts t
      · obtain ⟨name, parts, hCall⟩ := hCall
        rw [ofComponents?_of_isCall hCall] at h
        exact reads_of_ofParts hCall h
      · rw [ofComponents?_of_not_isCall (by simpa using hCall)] at h
        cases h
  · intro h
    cases h with
    | name h => exact colorOf?_of_lookup (lookup_named_eq_some_iff.mpr h)
    | hex ht h =>
      rw [colorOf?_of_unnamed (lookup_named_eq_none (by simp [ht])), ht, if_pos List.head?_cons]
      exact congrArg Except.ok (ofHex?_eq_some_iff.mpr h)
    | rgb h hRed hGreen hBlue =>
      rw [colorOf?_of_isCall h (by decide), ofParts, hRed, hGreen, hBlue]
      rfl
    | rgba h hRed hGreen hBlue hOpacity hCut =>
      rw [colorOf?_of_isCall h (by decide), ofParts_rgba hRed hGreen hBlue,
        opacity_eq_ok_iff.mpr ⟨_, hOpacity, hCut⟩]
      rfl

theorem colorOf?_eq_error_iff {t : String} {f : Fault} :
    colorOf? t = .error f ↔ f = .infiniteInteger ∧ Overflows t := by
  constructor
  · intro h
    rw [colorOf?] at h
    split at h
    · cases h
    split at h
    · cases h
    · by_cases hCall : ∃ name parts, IsCall name parts t
      · obtain ⟨name, parts, hCall⟩ := hCall
        rw [ofComponents?_of_isCall hCall] at h
        exact overflows_of_ofParts hCall h
      · rw [ofComponents?_of_not_isCall (by simpa using hCall)] at h
        cases h
  · rintro ⟨rfl, h, hRed, hGreen, hBlue, hOpacity, hInfinite⟩
    rw [colorOf?_of_isCall h (by decide), ofParts_rgba hRed hGreen hBlue,
      opacity_eq_error_iff.mpr ⟨rfl, _, _, hOpacity, hInfinite⟩]
    rfl

/-! ## Which texts -/

structure InRange (c : Color) : Prop where
  red : 0 ≤ c.red ∧ c.red ≤ 255
  green : 0 ≤ c.green ∧ c.green ≤ 255
  blue : 0 ≤ c.blue ∧ c.blue ≤ 255
  alpha : 0 ≤ c.alpha ∧ c.alpha ≤ 255

theorem inRange_iff {c : Color} : c.InRange ↔ (0 ≤ c.red ∧ c.red ≤ 255) ∧ (0 ≤ c.green ∧ c.green ≤ 255) ∧
    (0 ≤ c.blue ∧ c.blue ≤ 255) ∧ (0 ≤ c.alpha ∧ c.alpha ≤ 255) := by
  constructor
  · rintro ⟨hRed, hGreen, hBlue, hAlpha⟩
    exact ⟨hRed, hGreen, hBlue, hAlpha⟩
  · rintro ⟨hRed, hGreen, hBlue, hAlpha⟩
    exact ⟨hRed, hGreen, hBlue, hAlpha⟩

instance (c : Color) : Decidable c.InRange :=
  decidable_of_iff _ inRange_iff.symm

theorem inRange_of_mem_named {t : String} {c : Color} (h : (t, c) ∈ named) : c.InRange := by
  have hAll : ∀ p ∈ named, p.2.InRange := by decide
  exact hAll (t, c) h

/-- A character that stands beside a single digit. -/
def IsFiller (c : Char) : Prop :=
  isEdgeSpace (plainChar c) = true ∨ c = '+' ∨ c = '-'

theorem not_isFiller_of_hexDigit? {c : Char} {v : Nat} (h : hexDigit? c = some v) : ¬ IsFiller c := by
  rintro (hSpace | rfl | rfl)
  · rw [not_isEdgeSpace_of_digitBelow? h] at hSpace
    cases hSpace
  · cases h
  · cases h

theorem pairs_isDigits_iff {cs : List Char} {vs : List Int} :
    Pairs IsDigits cs vs ↔ Pairs IsPair cs vs ∧ ∀ c ∈ cs, ¬ IsFiller c := by
  constructor
  · intro h
    induction h with
    | nil => exact ⟨.nil, by simp⟩
    | cons h hs ih =>
      obtain ⟨ha, hb⟩ := id h
      exact ⟨.cons (.digits h) ih.1, List.forall_mem_cons.mpr ⟨not_isFiller_of_hexDigit? ha,
        List.forall_mem_cons.mpr ⟨not_isFiller_of_hexDigit? hb, ih.2⟩⟩⟩
  · rintro ⟨h, hNone⟩
    induction h with
    | nil => exact .nil
    | cons h hs ih =>
      obtain ⟨ha, hb, hRest⟩ : _ ∧ _ ∧ _ := by simpa using hNone
      refine .cons ?_ (ih hRest)
      cases h with
      | digits h => exact h
      | blankBefore hBlank _ => exact absurd (.inl hBlank) ha
      | blankAfter _ hBlank => exact absurd (.inl hBlank) hb
      | plus _ => exact absurd (.inr (.inl rfl)) ha
      | minus _ => exact absurd (.inr (.inr rfl)) ha

theorem Pairs.range {cs : List Char} {vs : List Int} (h : Pairs IsPair cs vs) (hMinus : '-' ∉ cs) :
    ∀ v ∈ vs, 0 ≤ v ∧ v ≤ 255 := by
  induction h with
  | nil => simp
  | cons h hs ih =>
    obtain ⟨ha, hb, hRest⟩ : _ ∧ _ ∧ _ := by simpa using hMinus
    refine List.forall_mem_cons.mpr ⟨?_, ih hRest⟩
    cases h with
    | digits h =>
      obtain ⟨ha, hb⟩ := h
      have := lt_of_hexDigit? ha
      have := lt_of_hexDigit? hb
      omega
    | blankBefore _ h =>
      have := lt_of_hexDigit? h
      omega
    | blankAfter h _ =>
      have := lt_of_hexDigit? h
      omega
    | plus h =>
      have := lt_of_hexDigit? h
      omega
    | minus _ => exact absurd rfl ha

theorem readsHex_isDigits_iff {digits : List Char} {c : Color} :
    ReadsHex IsDigits digits c ↔ ReadsHex IsPair digits c ∧ ∀ d ∈ digits, ¬ IsFiller d := by
  constructor
  · intro h
    cases h with
    | three hRed hGreen hBlue =>
      exact ⟨.three hRed hGreen hBlue, by simp [not_isFiller_of_hexDigit? hRed, not_isFiller_of_hexDigit? hGreen,
        not_isFiller_of_hexDigit? hBlue]⟩
    | six h => exact ⟨.six (pairs_isDigits_iff.mp h).1, (pairs_isDigits_iff.mp h).2⟩
    | eight h => exact ⟨.eight (pairs_isDigits_iff.mp h).1, (pairs_isDigits_iff.mp h).2⟩
  · rintro ⟨h, hNone⟩
    cases h with
    | three hRed hGreen hBlue => exact .three hRed hGreen hBlue
    | six h => exact .six (pairs_isDigits_iff.mpr ⟨h, hNone⟩)
    | eight h => exact .eight (pairs_isDigits_iff.mpr ⟨h, hNone⟩)

theorem ReadsHex.inRange {digits : List Char} {c : Color} (h : ReadsHex IsPair digits c) (hMinus : '-' ∉ digits) :
    c.InRange := by
  cases h with
  | three hRed hGreen hBlue =>
    have := lt_of_hexDigit? hRed
    have := lt_of_hexDigit? hGreen
    have := lt_of_hexDigit? hBlue
    constructor <;> dsimp only <;> omega
  | six h =>
    obtain ⟨hRed, hGreen, hBlue, -⟩ : _ ∧ _ ∧ _ ∧ _ := by simpa only [List.forall_mem_cons] using h.range hMinus
    exact ⟨hRed, hGreen, hBlue, by simp⟩
  | eight h =>
    obtain ⟨hRed, hGreen, hBlue, hAlpha, -⟩ : _ ∧ _ ∧ _ ∧ _ ∧ _ := by
      simpa only [List.forall_mem_cons] using h.range hMinus
    exact ⟨hRed, hGreen, hBlue, hAlpha⟩

/-- A name or digits mean a color with all components in range. The numbers between parentheses are taken as they
are, a sign or a blank passes for a hexadecimal digit beside another one, and the opacity must not be too great.
Every other text is black. -/
theorem parse_outcomes (s : String) :
    (∃ c, Reads IsDigits (cleaned s) c ∧ parse (some s) = .ok c ∧
      (c.InRange ∨ ∃ name parts, IsCall name parts (cleaned s))) ∨
    (∃ digits c, (cleaned s).toList = '#' :: digits ∧ (∃ d ∈ digits, IsFiller d) ∧ ReadsHex IsPair digits c ∧
      parse (some s) = .ok c ∧ (c.InRange ∨ '-' ∈ digits)) ∨
    (Overflows (cleaned s) ∧ parse (some s) = .error .infiniteInteger) ∨
    ((∀ c, ¬ Reads IsPair (cleaned s) c) ∧ ¬ Overflows (cleaned s) ∧ parse (some s) = .ok black) := by
  rw [parse_eq]
  generalize cleaned s = t
  cases hColor : colorOf? t with
  | error f =>
    obtain ⟨rfl, hOverflows⟩ := colorOf?_eq_error_iff.mp hColor
    exact .inr (.inr (.inl ⟨hOverflows, rfl⟩))
  | ok found =>
    cases found with
    | none =>
      refine .inr (.inr (.inr ⟨?_, ?_, rfl⟩))
      · intro c hReads
        rw [colorOf?_eq_ok_iff.mpr hReads] at hColor
        cases hColor
      · intro hOverflows
        rw [colorOf?_eq_error_iff.mpr ⟨rfl, hOverflows⟩] at hColor
        cases hColor
    | some c =>
      cases colorOf?_eq_ok_iff.mp hColor with
      | name h => exact .inl ⟨c, .name h, rfl, .inl (inRange_of_mem_named h)⟩
      | @hex digits _ ht h =>
        by_cases hFiller : ∃ d ∈ digits, IsFiller d
        · refine .inr (.inl ⟨digits, c, ht, hFiller, h, rfl, ?_⟩)
          by_cases hMinus : '-' ∈ digits
          · exact .inr hMinus
          · exact .inl (h.inRange hMinus)
        · have hNone : ∀ d ∈ digits, ¬ IsFiller d := by simpa using hFiller
          have hMinus : '-' ∉ digits := fun hMem => hNone _ hMem (.inr (.inr rfl))
          exact .inl ⟨c, .hex ht (readsHex_isDigits_iff.mpr ⟨h, hNone⟩), rfl, .inl (h.inRange hMinus)⟩
      | rgb h hRed hGreen hBlue => exact .inl ⟨_, .rgb h hRed hGreen hBlue, rfl, .inr ⟨_, _, h⟩⟩
      | rgba h hRed hGreen hBlue hOpacity hCut =>
        exact .inl ⟨_, .rgba h hRed hGreen hBlue hOpacity hCut, rfl, .inr ⟨_, _, h⟩⟩

/-- Six characters are read as three single digits, each with a sign. -/
theorem parse_out_of_range : ∃ c, parse (some "#-1-1-1") = .ok c ∧ ¬ c.InRange ∧ c ≠ black := by
  have hSigns : parse (some "#-1-1-1") = .ok ⟨-1, -1, -1, 255⟩ := by decide +kernel
  exact ⟨_, hSigns, by decide, by decide⟩

end Color

end PageRender
