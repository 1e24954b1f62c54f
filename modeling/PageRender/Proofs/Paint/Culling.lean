import PageRender.Paint.Raster
import PageRender.Proofs.Layout.Hitting

/-! # Commands outside the viewport

A command is not carried out if its rectangle ends above the viewport or begins below it. A filled rectangle has
nothing to show there then. A border has: it is drawn half outside its rectangle, and may reach into a viewport
that the rectangle does not touch.
-/

namespace PageRender

/-! ## What is drawn where -/

/-- Between two numbers, whichever is the greater one, or no further than `d` away from that. -/
def Alongside (d a b x : ℚ) : Prop :=
  min a b - d ≤ x ∧ x ≤ max a b + d

instance (d a b x : ℚ) : Decidable (Alongside d a b x) :=
  inferInstanceAs (Decidable (_ ∧ _))

namespace Rect

def Covers (r : Rect ℚ) (x y : ℚ) : Prop :=
  Alongside 0 r.left r.right x ∧ Alongside 0 r.top r.bottom y

/-- No further than `d` away from a side. Where two sides meet, the corner outside is square. -/
def NearSide (r : Rect ℚ) (d x y : ℚ) : Prop :=
  (|x - r.left| ≤ d ∨ |x - r.right| ≤ d) ∧ Alongside d r.top r.bottom y ∨
    (|y - r.top| ≤ d ∨ |y - r.bottom| ≤ d) ∧ Alongside d r.left r.right x

instance (r : Rect ℚ) (x y : ℚ) : Decidable (r.Covers x y) :=
  inferInstanceAs (Decidable (_ ∧ _))

instance (r : Rect ℚ) (d x y : ℚ) : Decidable (r.NearSide d x y) :=
  inferInstanceAs (Decidable (_ ∨ _))

end Rect

/-- Whether a point of the canvas is painted. The letters of a text are left out of account. -/
def CanvasCall.Paints : CanvasCall ℚ → ℚ → ℚ → Prop
  | .clear _, _, _ => True
  | .rect r ⟨_, none, _⟩, x, y => r.Covers x y
  | .rect r ⟨_, some thickness, _⟩, x, y => r.NearSide (thickness / 2) x y
  | .string .., _, _ => False

instance : (call : CanvasCall ℚ) → (x y : ℚ) → Decidable (call.Paints x y)
  | .clear _, _, _ => .isTrue trivial
  | .rect r ⟨_, none, _⟩, x, y => inferInstanceAs (Decidable (r.Covers x y))
  | .rect r ⟨_, some _, _⟩, x, y => inferInstanceAs (Decidable (r.NearSide _ x y))
  | .string .., _, _ => .isFalse id

/-- The calls that paint a point, in their order: the last one is seen. -/
def callsAt (x y : ℚ) (calls : List (CanvasCall ℚ)) : List (CanvasCall ℚ) :=
  calls.filter fun call => call.Paints x y

namespace Command

def isShape {α : Type} : Command α → Bool
  | text .. => false
  | fill .. | border .. | cursor .. => true

/-- The upper or the lower side of a border is no further than half its thickness from a row of the viewport. -/
def StrokesInto (scroll height : ℚ) : Command ℚ → Prop
  | border r _ thickness => ∃ y, (0 ≤ y ∧ y ≤ height) ∧
      (|y - (r.top - scroll)| ≤ thickness / 2 ∨ |y - (r.bottom - scroll)| ≤ thickness / 2)
  | text .. | fill .. | cursor .. => False

end Command

/-- What a canvas is told if all commands are carried out. -/
def drawEach {α : Type} [Scalar α] (scroll : α) : List (Command α) → Except Fault (List (CanvasCall α))
  | [] => .ok []
  | c :: cs => do
    let first ← c.draw scroll
    return first ++ (← drawEach scroll cs)

section

variable [NumeralReading] {scroll height : ℚ}

/-! ## One command -/

namespace Command

theorem isOutside_rat {c : Command ℚ} : c.isOutside scroll height = true ↔
    scroll + height < c.rect.top ∨ c.rect.bottom < scroll := by
  rw [isOutside, Bool.or_eq_true, Scalar.less_rat, Scalar.less_rat]

end Command

section

variable {r : Rect ℚ} (hHeight : 0 ≤ r.height) (hOutside : scroll + height < r.top ∨ r.bottom < scroll)

include hHeight hOutside

theorem Rect.not_covers_of_outside {x y : ℚ} (hTop : 0 ≤ y) (hBottom : y ≤ height) :
    ¬ (r.scrolled scroll).Covers x y := by
  have hOrder : r.top - scroll ≤ r.bottom - scroll := by
    rw [Rect.height] at hHeight
    linarith
  rintro ⟨-, hAbove, hBelow⟩
  rw [Rect.scrolled, min_eq_left hOrder] at hAbove
  rw [Rect.scrolled, max_eq_right hOrder] at hBelow
  rcases hOutside with hLow | hHigh
  · linarith
  · linarith

/-- Outside the rectangle, a row is near a side only if it is near the upper or the lower one. -/
theorem Rect.exists_nearSide_iff {d y : ℚ} (hTop : 0 ≤ y) (hBottom : y ≤ height) :
    (∃ x, (r.scrolled scroll).NearSide d x y) ↔
      |y - (r.top - scroll)| ≤ d ∨ |y - (r.bottom - scroll)| ≤ d := by
  have hOrder : r.top - scroll ≤ r.bottom - scroll := by
    rw [Rect.height] at hHeight
    linarith
  constructor
  · rintro ⟨x, ⟨-, hAbove, hBelow⟩ | ⟨hNear, -⟩⟩
    · rw [Rect.scrolled, min_eq_left hOrder] at hAbove
      rw [Rect.scrolled, max_eq_right hOrder] at hBelow
      rcases hOutside with hLow | hHigh
      · apply Or.inl
        rw [abs_le]
        constructor <;> linarith
      · apply Or.inr
        rw [abs_le]
        constructor <;> linarith
    · exact hNear
  · intro hNear
    have hDistance : 0 ≤ d := by
      rcases hNear with hNear | hNear
      · exact le_trans (abs_nonneg _) hNear
      · exact le_trans (abs_nonneg _) hNear
    refine ⟨r.left, .inr ⟨hNear, ?_, ?_⟩⟩
    · exact le_trans (sub_le_self _ hDistance) (min_le_left _ _)
    · exact le_trans (le_max_left _ _) (le_add_of_nonneg_right hDistance)

end

/-- Of the commands outside the viewport, only a border that is thick enough paints a point in it. -/
theorem Command.paints_iff_of_isOutside {c : Command ℚ} (hShape : c.isShape = true) (hHeight : 0 ≤ c.rect.height)
    (hOutside : c.isOutside scroll height = true) {calls : List (CanvasCall ℚ)} (hDraw : c.draw scroll = .ok calls) :
    (∃ x y, (0 ≤ y ∧ y ≤ height) ∧ ∃ call ∈ calls, call.Paints x y) ↔ c.StrokesInto scroll height := by
  rw [isOutside_rat] at hOutside
  cases c with
  | text => cases hShape
  | fill r color =>
    constructor
    · rintro ⟨x, y, ⟨hTop, hBottom⟩, call, hCall, hPaints⟩
      rw [draw] at hDraw
      split at hDraw
      · cases hDraw
        cases hCall
      · obtain ⟨parsed, -, hDraw⟩ := Outcome.bind_eq_ok_iff.mp hDraw
        cases hDraw
        obtain rfl := List.mem_singleton.mp hCall
        exact Rect.not_covers_of_outside hHeight hOutside hTop hBottom hPaints
    · rintro ⟨⟩
  | border r color thickness =>
    obtain ⟨parsed, -, hDraw⟩ := Outcome.bind_eq_ok_iff.mp hDraw
    cases hDraw
    constructor
    · rintro ⟨x, y, ⟨hTop, hBottom⟩, call, hCall, hPaints⟩
      obtain rfl := List.mem_singleton.mp hCall
      exact ⟨y, ⟨hTop, hBottom⟩, (Rect.exists_nearSide_iff hHeight hOutside hTop hBottom).mp ⟨x, hPaints⟩⟩
    · rintro ⟨y, ⟨hTop, hBottom⟩, hNear⟩
      obtain ⟨x, hPaints⟩ := (Rect.exists_nearSide_iff hHeight hOutside hTop hBottom).mpr hNear
      exact ⟨x, y, ⟨hTop, hBottom⟩, _, List.mem_singleton_self _, hPaints⟩
  | cursor r color =>
    obtain ⟨parsed, -, hDraw⟩ := Outcome.bind_eq_ok_iff.mp hDraw
    cases hDraw
    constructor
    · rintro ⟨x, y, ⟨hTop, hBottom⟩, call, hCall, hPaints⟩
      obtain rfl := List.mem_singleton.mp hCall
      exact Rect.not_covers_of_outside hHeight hOutside hTop hBottom hPaints
    · rintro ⟨⟩

end

/-! ## A display list -/

section

variable {α : Type} [Scalar α]

/-- The calls of the commands that are skipped. -/
def IsSkipped (scroll height : α) (display : List (Command α)) (call : CanvasCall α) : Prop :=
  ∃ c ∈ display, c.isOutside scroll height = true ∧ ∃ calls, c.draw scroll = .ok calls ∧ call ∈ calls

/-- Skipping leaves out calls of skipped commands, and so changes a selection of the calls only if it selects one
of these. -/
theorem drawAll_of_drawEach {scroll : α} (height : α) {display : List (Command α)} {all : List (CanvasCall α)}
    (h : drawEach scroll display = .ok all) :
    ∃ shown, drawAll scroll height display = .ok shown ∧ shown.Sublist all ∧ ∀ p : CanvasCall α → Bool,
      shown.filter p = all.filter p ↔ ∀ call, IsSkipped scroll height display call → p call = false := by
  induction display generalizing all with
  | nil =>
    cases h
    refine ⟨[], rfl, .slnil, fun p => ?_⟩
    simp [IsSkipped]
  | cons c cs ih =>
    obtain ⟨first, hFirst, h⟩ := Outcome.bind_eq_ok_iff.mp h
    obtain ⟨rest, hRest, h⟩ := Outcome.bind_eq_ok_iff.mp h
    cases h
    obtain ⟨shown, hShown, hSublist, hSame⟩ := ih hRest
    rw [drawAll]
    cases hOutside : c.isOutside scroll height with
    | true =>
      refine ⟨shown, hShown, hSublist.trans (List.sublist_append_right first rest), fun p => ?_⟩
      -- The calls that are left out cannot be made up for by the others.
      have hLength : (shown.filter p).length ≤ (rest.filter p).length := (hSublist.filter p).length_le
      rw [List.filter_append]
      constructor
      · intro hEqual
        have hNone : first.filter p = [] := by
          have hCount := congrArg List.length hEqual
          rw [List.length_append] at hCount
          apply List.eq_nil_of_length_eq_zero
          omega
        rw [hNone, List.nil_append, hSame] at hEqual
        rintro call ⟨d, hd, hOut, calls, hDraw, hCall⟩
        rcases List.mem_cons.mp hd with rfl | hd
        · rw [hFirst] at hDraw
          cases hDraw
          simpa using List.filter_eq_nil_iff.mp hNone call hCall
        · exact hEqual call ⟨d, hd, hOut, calls, hDraw, hCall⟩
      · intro hNone
        have hFirstNone : first.filter p = [] := by
          rw [List.filter_eq_nil_iff]
          intro call hCall
          rw [hNone call ⟨c, List.mem_cons_self, hOutside, first, hFirst, hCall⟩]
          exact Bool.false_ne_true
        rw [hFirstNone, List.nil_append, hSame]
        rintro call ⟨d, hd, hSkipped⟩
        exact hNone call ⟨d, List.mem_cons_of_mem c hd, hSkipped⟩
    | false =>
      refine ⟨first ++ shown, ?_, List.Sublist.append (List.Sublist.refl first) hSublist, fun p => ?_⟩
      · rw [hFirst, hShown]
        rfl
      · rw [List.filter_append, List.filter_append, List.append_right_inj, hSame]
        constructor
        · rintro hNone call ⟨d, hd, hOut, hSkipped⟩
          rcases List.mem_cons.mp hd with rfl | hd
          · rw [hOutside] at hOut
            cases hOut
          · exact hNone call ⟨d, hd, hOut, hSkipped⟩
        · rintro hNone call ⟨d, hd, hSkipped⟩
          exact hNone call ⟨d, List.mem_cons_of_mem c hd, hSkipped⟩

end

section

variable [NumeralReading] {display : List (Command ℚ)} {scroll height : ℚ}

theorem exists_draw_of_drawEach {all : List (CanvasCall ℚ)} (h : drawEach scroll display = .ok all) :
    ∀ c ∈ display, ∃ calls, c.draw scroll = .ok calls := by
  induction display generalizing all with
  | nil => exact fun _ hNone => absurd hNone List.not_mem_nil
  | cons c cs ih =>
    obtain ⟨first, hFirst, h⟩ := Outcome.bind_eq_ok_iff.mp h
    obtain ⟨rest, hRest, -⟩ := Outcome.bind_eq_ok_iff.mp h
    exact List.forall_mem_cons.mpr ⟨⟨first, hFirst⟩, ih hRest⟩

/-- In exact arithmetic a filled rectangle or a cursor that is skipped would have painted nothing in the viewport,
and a border just then if its stroke does not get there. With all commands carried out, every point of the viewport
would be painted by the same calls in the same order, unless a skipped border has a stroke that does. -/
theorem callsAt_raster (hShapes : ∀ c ∈ display, c.isShape = true ∧ 0 ≤ c.rect.height) :
    (∀ c ∈ display, c.isOutside scroll height = true → ∀ calls, c.draw scroll = .ok calls →
      ((∃ x y, (0 ≤ y ∧ y ≤ height) ∧ ∃ call ∈ calls, call.Paints x y) ↔ c.StrokesInto scroll height)) ∧
    ∀ all, drawEach scroll display = .ok all → ∃ shown, raster display height scroll = .ok (.clear .white :: shown) ∧
      ((∀ x y, 0 ≤ y ∧ y ≤ height → callsAt x y shown = callsAt x y all) ↔
        ∀ c ∈ display, c.isOutside scroll height = true → ¬ c.StrokesInto scroll height) := by
  have hSkipped : ∀ c ∈ display, c.isOutside scroll height = true → ∀ calls, c.draw scroll = .ok calls →
      ((∃ x y, (0 ≤ y ∧ y ≤ height) ∧ ∃ call ∈ calls, call.Paints x y) ↔ c.StrokesInto scroll height) :=
    fun c hc hOutside _ hDraw => Command.paints_iff_of_isOutside (hShapes c hc).1 (hShapes c hc).2 hOutside hDraw
  refine ⟨hSkipped, fun all hAll => ?_⟩
  obtain ⟨shown, hShown, -, hSame⟩ := drawAll_of_drawEach height hAll
  refine ⟨shown, by rw [raster, hShown]; rfl, ?_⟩
  constructor
  · intro hPicture c hc hOutside hStrokes
    obtain ⟨calls, hDraw⟩ := exists_draw_of_drawEach hAll c hc
    obtain ⟨x, y, hRow, call, hCall, hPaints⟩ := (hSkipped c hc hOutside calls hDraw).mpr hStrokes
    have hNot := (hSame _).mp (hPicture x y hRow) call ⟨c, hc, hOutside, calls, hDraw, hCall⟩
    rw [decide_eq_false_iff_not] at hNot
    exact hNot hPaints
  · intro hNone x y hRow
    rw [callsAt, callsAt, hSame]
    rintro call ⟨c, hc, hOutside, calls, hDraw, hCall⟩
    rw [decide_eq_false_iff_not]
    intro hPaints
    exact hNone c hc hOutside ((hSkipped c hc hOutside calls hDraw).mp ⟨x, y, hRow, call, hCall, hPaints⟩)

end

/-- A box in the viewport with a border, and two boxes and a cursor outside it. -/
def scrolledBoxes : List (Command ℚ) := [
  .fill ⟨10, 10, 50, 90⟩ "red",
  .border ⟨10, 120, 50, 140⟩ "black" 4,
  .border ⟨10, 60, 50, 98⟩ "black" 3,
  .cursor ⟨12, 155, 13, 165⟩ "black"]

theorem callsAt_raster_scrolledBoxes :
    (∀ c ∈ scrolledBoxes, c.isShape = true ∧ 0 ≤ c.rect.height) ∧
    ∃ all shown, drawEach (100 : ℚ) scrolledBoxes = .ok all ∧ all.length = 4 ∧
      raster scrolledBoxes 50 100 = .ok (.clear .white :: shown) ∧ shown.length = 1 ∧
      ∀ x y, 0 ≤ y ∧ y ≤ 50 → callsAt x y shown = callsAt x y all := by
  have hShapes : ∀ c ∈ scrolledBoxes, c.isShape = true ∧ 0 ≤ c.rect.height := by decide +kernel
  have hFar : ∀ c ∈ scrolledBoxes, c.isOutside (100 : ℚ) 50 = true → ¬ c.StrokesInto 100 50 := by
    intro c hc hOutside hStrokes
    simp only [scrolledBoxes, List.mem_cons, List.not_mem_nil, or_false] at hc
    rcases hc with rfl | rfl | rfl | rfl
    · exact hStrokes
    · exact absurd hOutside (by decide +kernel)
    · obtain ⟨y, ⟨hTop, -⟩, hNear⟩ := hStrokes
      rw [abs_le, abs_le] at hNear
      rcases hNear with ⟨-, hUpper⟩ | ⟨-, hLower⟩ <;> linarith
    · exact hStrokes
  have hFour : (drawEach (100 : ℚ) scrolledBoxes).map List.length = .ok 4 := by decide +kernel
  have hTwo : (raster scrolledBoxes (50 : ℚ) 100).map List.length = .ok 2 := by decide +kernel
  obtain ⟨all, hAll, hFour⟩ := Outcome.map_eq_ok_iff.mp hFour
  obtain ⟨calls, hCalls, hTwo⟩ := Outcome.map_eq_ok_iff.mp hTwo
  obtain ⟨shown, hRaster, hSame⟩ := (callsAt_raster hShapes).2 all hAll
  obtain rfl := Except.ok.inj (hCalls.symm.trans hRaster)
  exact ⟨hShapes, all, shown, hAll, hFour, hRaster, Nat.succ.inj hTwo, hSame.mpr hFar⟩

/-- A thick border whose rectangle ends above the viewport. -/
def borderAbove : Command ℚ :=
  .border ⟨10, -30, 110, -1⟩ "black" 10

/-- The lower half of the stroke would be seen below the upper edge of the viewport. -/
theorem border_skipped_in_viewport :
    borderAbove.isShape = true ∧ 0 ≤ borderAbove.rect.height ∧ raster [borderAbove] 100 0 = .ok [.clear .white] ∧
      ∃ call, borderAbove.draw 0 = .ok [call] ∧ call.Paints 50 2 := by
  have hOutside : borderAbove.isOutside (0 : ℚ) 100 = true := by decide +kernel
  refine ⟨rfl, by decide +kernel, ?_, _, rfl, by decide +kernel⟩
  rw [raster, drawAll, hOutside]
  rfl

end PageRender
