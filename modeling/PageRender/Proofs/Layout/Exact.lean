import Mathlib.Algebra.Order.BigOperators.Group.List
import Mathlib.Algebra.Order.Ring.Rat
import Mathlib.Tactic.Linarith
import PageRender.Proofs.Outcome
import PageRender.Layout.Flow

/-! # Layout in exact arithmetic

Fractions are lengths like any others, so a page can be laid out in them without rounding. Nothing here
hangs on how those numerals are read that stand for no number.
-/

namespace PageRender

/-- How numerals are read as fractions. Those of infinite or undefined value are read in any way. -/
class NumeralReading where
  toRat : Numeral → ℚ
  toRat_finite : ∀ negative digits exponent, toRat (.finite negative digits exponent) =
    (if negative then -1 else 1) * digits * 10 ^ exponent

variable [NumeralReading]

instance : Scalar ℚ where
  ofNat n := n
  ofNumeral := NumeralReading.toRat
  less a b := a < b
  equal a b := a == b

namespace Scalar

theorem less_rat {a b : ℚ} : less a b = true ↔ a < b :=
  decide_eq_true_iff

theorem atMost_rat {a b : ℚ} : atMost a b = true ↔ a ≤ b := by
  rw [atMost, Bool.or_eq_true, less_rat, le_iff_lt_or_eq]
  exact or_congr Iff.rfl beq_iff_eq

theorem max_rat (a b : ℚ) : Scalar.max a b = Max.max a b := by
  rw [Scalar.max, max_def_lt]
  exact if_congr less_rat rfl rfl

theorem sum_rat (lengths : List ℚ) : sum lengths = lengths.sum := by
  rw [sum, List.sum_eq_foldl]
  rfl

theorem le_greatest {a b : ℚ} {others : List ℚ} (h : b ∈ a :: others) : b ≤ greatest a others := by
  rw [greatest]
  induction others generalizing a b with
  | nil => exact le_of_eq (List.mem_singleton.mp h)
  | cons c others ih =>
    rw [List.foldl_cons, max_rat]
    rw [List.mem_cons, List.mem_cons] at h
    rcases h with rfl | rfl | hRest
    · exact le_trans (le_max_left b c) (ih List.mem_cons_self)
    · exact le_trans (le_max_right a b) (ih List.mem_cons_self)
    · exact ih (List.mem_cons_of_mem _ hRest)

end Scalar

theorem lineFactor_rat : (lineFactor : ℚ) = 5 / 4 :=
  rfl

/-! ## Rectangles -/

theorem Rect.contains_rat {r : Rect ℚ} {x y : ℚ} :
    r.contains x y = true ↔ (r.left ≤ x ∧ x < r.right) ∧ r.top ≤ y ∧ y < r.bottom := by
  rw [contains, Bool.and_eq_true, Bool.and_eq_true, Bool.and_eq_true, Scalar.atMost_rat, Scalar.less_rat,
    Scalar.atMost_rat, Scalar.less_rat, and_assoc]

namespace Extent

def right (e : Extent ℚ) : ℚ := e.x + e.width

def bottom (e : Extent ℚ) : ℚ := e.y + e.height

theorem contains_rat {e : Extent ℚ} {x y : ℚ} :
    e.rect.contains x y = true ↔ (e.x ≤ x ∧ x < e.right) ∧ e.y ≤ y ∧ y < e.bottom :=
  Rect.contains_rat

end Extent

/-! ## Fonts -/

/-- What can be expected of the measures of a font: none is negative, and a line is not higher than
what is above and below its base line. -/
structure Font.IsSound (font : Font ℚ) : Prop where
  measure : ∀ text width, font.measure text = .ok width → 0 ≤ width
  ascent : 0 ≤ font.ascent
  descent : 0 ≤ font.descent
  lineSpace : font.lineSpace ≤ font.ascent + font.descent

/-- What can be expected of a font up and down from its base line. -/
structure Font.IsLevel (font : Font ℚ) : Prop where
  ascent : 0 ≤ font.ascent
  descent : 0 ≤ font.descent
  lineSpace : font.lineSpace ≤ font.ascent + font.descent

omit [NumeralReading] in
theorem Font.IsSound.isLevel {font : Font ℚ} (h : font.IsSound) : font.IsLevel :=
  ⟨h.ascent, h.descent, h.lineSpace⟩

instance (font : Font ℚ) : Decidable font.IsLevel :=
  decidable_of_iff (0 ≤ font.ascent ∧ 0 ≤ font.descent ∧ font.lineSpace ≤ font.ascent + font.descent)
    ⟨fun ⟨ha, hd, hl⟩ => ⟨ha, hd, hl⟩, fun h => ⟨h.ascent, h.descent, h.lineSpace⟩⟩

def FontSource.IsSound (fonts : FontSource ℚ) : Prop :=
  ∀ choice font, fonts choice = .ok font → font.IsSound

/-- An item with a sound font that takes up no negative room. -/
structure MeasuredItem.IsSound (m : MeasuredItem ℚ) : Prop where
  font : m.font.IsSound
  width : 0 ≤ m.width
  space : 0 ≤ m.space

/-- Where the measures of an item come from. -/
theorem measured_of_measureItem {fonts : FontSource ℚ} {node : PageTree} {kind : ItemKind} {m : MeasuredItem ℚ}
    (h : measureItem fonts node kind = .ok m) :
    (∃ choice, fonts choice = .ok m.font) ∧ m.font.measure " " = .ok m.space ∧
      (m.width = controlWidth ∨ ∃ text, m.font.measure text = .ok m.width) := by
  obtain ⟨font, hFont, h⟩ := Outcome.bind_eq_ok_iff.mp h
  obtain ⟨choice, -, hMade⟩ := Outcome.bind_eq_ok_iff.mp hFont
  cases kind with
  | word w =>
    obtain ⟨width, hWidth, h⟩ := Outcome.bind_eq_ok_iff.mp h
    obtain ⟨space, hSpace, h⟩ := Outcome.bind_eq_ok_iff.mp h
    cases h
    exact ⟨⟨choice, hMade⟩, hSpace, .inr ⟨w, hWidth⟩⟩
  | control =>
    obtain ⟨width, hWidth, h⟩ := Outcome.bind_eq_ok_iff.mp h
    obtain ⟨space, hSpace, h⟩ := Outcome.bind_eq_ok_iff.mp h
    cases h
    cases hWidth
    exact ⟨⟨choice, hMade⟩, hSpace, .inl rfl⟩

theorem isSound_measureItem {fonts : FontSource ℚ} (hFonts : fonts.IsSound) {node : PageTree}
    {kind : ItemKind} {m : MeasuredItem ℚ} (h : measureItem fonts node kind = .ok m) : m.IsSound := by
  obtain ⟨⟨choice, hMade⟩, hSpace, hWidth⟩ := measured_of_measureItem h
  have hSound : m.font.IsSound := hFonts choice m.font hMade
  refine ⟨hSound, ?_, hSound.measure " " m.space hSpace⟩
  rcases hWidth with hWidth | ⟨text, hWidth⟩
  · rw [hWidth]
    exact Nat.cast_nonneg 200
  · exact hSound.measure text m.width hWidth

end PageRender
