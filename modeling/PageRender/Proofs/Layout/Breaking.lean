import Mathlib.Data.List.Induction
import PageRender.Proofs.Layout.Content
import PageRender.Proofs.Layout.Hitting

/-! # Where lines are broken

While a line is filled, a cursor says where the next item would start, and an item that would end beyond the
content goes to a new line. The items are put in place later, each behind the one before it. Both agree: every
item stands where the cursor was, nothing but the first item of a line ends beyond the content, and no line is
opened without need.
-/

namespace PageRender

variable {α : Type} [Scalar α]

/-! ## Filling -/

namespace LineFilling

/-- The lines as an item finds them: with a new one if it does not fit on the last. -/
def room (f : LineFilling α) (available : α) (item : MeasuredItem α) : LineFilling α :=
  if !f.current.isEmpty && Scalar.less available (f.cursor + item.width) then f.newLine else f

theorem place_eq (f : LineFilling α) (available : α) (item : MeasuredItem α) :
    f.place available item = ⟨(f.room available item).complete, (f.room available item).current ++ [item],
      (f.room available item).cursor + (item.width + item.space)⟩ :=
  rfl

theorem room_cases (f : LineFilling α) (available : α) (item : MeasuredItem α) :
    f.room available item = f ∧ (f.current ≠ [] → Scalar.less available (f.cursor + item.width) = false) ∨
      f.room available item = f.newLine ∧ f.current ≠ [] ∧ Scalar.less available (f.cursor + item.width) = true := by
  rw [room]
  split
  · rename_i hFull
    simp only [Bool.and_eq_true, Bool.not_eq_true', List.isEmpty_eq_false_iff] at hFull
    exact .inr ⟨rfl, hFull⟩
  · rename_i hFits
    simp only [Bool.and_eq_true, Bool.not_eq_true', List.isEmpty_eq_false_iff, not_and, Bool.not_eq_true] at hFits
    exact .inl ⟨rfl, hFits⟩

/-- Lines that go on from others: more may stand on the last of these, and further lines behind it. -/
def GoesOn (f g : LineFilling α) : Prop :=
  ∃ more rest, g.lines = f.complete ++ (f.current ++ more) :: rest

omit [Scalar α] in
theorem goesOn_refl (f : LineFilling α) : f.GoesOn f :=
  ⟨[], [], by rw [List.append_nil, lines]⟩

theorem goesOn_of_newLine {f g : LineFilling α} (h : f.newLine.GoesOn g) : f.GoesOn g := by
  obtain ⟨more, rest, hLines⟩ := h
  exact ⟨[], more :: rest, by rw [hLines, newLine, List.append_assoc, List.append_nil]; rfl⟩

theorem goesOn_of_room {f g : LineFilling α} {available : α} {item : MeasuredItem α}
    (h : (f.room available item).GoesOn g) : f.GoesOn g := by
  obtain ⟨hRoom, -⟩ | ⟨hRoom, -⟩ := f.room_cases available item
  · rwa [hRoom] at h
  · rw [hRoom] at h
    exact goesOn_of_newLine h

/-- An item stays where it is put. -/
theorem lines_of_place {f g : LineFilling α} {available : α} {item : MeasuredItem α}
    (h : (f.place available item).GoesOn g) : ∃ more rest, g.lines = (f.room available item).complete ++
      ((f.room available item).current ++ item :: more) :: rest := by
  obtain ⟨more, rest, hLines⟩ := h
  refine ⟨more, rest, ?_⟩
  rw [hLines, place_eq, List.append_assoc]
  rfl

end LineFilling

theorem fillLines_append {fonts : FontSource α} {available : α} (f : LineFilling α) (ps qs : List Piece) :
    fillLines fonts available f (ps ++ qs) =
      fillLines fonts available f ps >>= fun g => fillLines fonts available g qs := by
  induction ps generalizing f with
  | nil => rfl
  | cons p ps ih =>
    cases p with
    | lineBreak => exact ih f.newLine
    | item node kind =>
      cases hMeasure : measureItem fonts node kind with
      | error e => simp [fillLines, hMeasure, bind, Except.bind]
      | ok m =>
        have hNext := ih (f.place available m)
        simpa [fillLines, hMeasure, bind, Except.bind] using hNext

theorem goesOn_fillLines {fonts : FontSource α} {available : α} {ps : List Piece} {f g : LineFilling α}
    (h : fillLines fonts available f ps = .ok g) : f.GoesOn g := by
  induction ps generalizing f with
  | nil =>
    cases h
    exact LineFilling.goesOn_refl _
  | cons p ps ih =>
    cases p with
    | lineBreak => exact LineFilling.goesOn_of_newLine (ih h)
    | item node kind =>
      obtain ⟨m, -, hRest⟩ := Outcome.bind_eq_ok_iff.mp h
      obtain ⟨more, rest, hLines⟩ := LineFilling.lines_of_place (ih hRest)
      exact LineFilling.goesOn_of_room ⟨m :: more, rest, hLines⟩

/-- Of the pieces before one, of it and of those behind it. -/
theorem fillLines_split {fonts : FontSource α} {available : α} {before after : List Piece} {p : Piece}
    {f g : LineFilling α} (h : fillLines fonts available f (before ++ p :: after) = .ok g) :
    ∃ e, fillLines fonts available f before = .ok e ∧ fillLines fonts available e (p :: after) = .ok g := by
  rw [fillLines_append] at h
  exact Outcome.bind_eq_ok_iff.mp h

/-! ## What the lines hold -/

def Piece.content? : Piece → Option (PageTree × ItemKind)
  | .item node kind => some (node, kind)
  | .lineBreak => none

theorem content_measureItem {fonts : FontSource α} {node : PageTree} {kind : ItemKind} {m : MeasuredItem α}
    (h : measureItem fonts node kind = .ok m) : m.node = node ∧ m.kind = kind := by
  obtain ⟨font, -, h⟩ := Outcome.bind_eq_ok_iff.mp h
  cases kind
  all_goals
    obtain ⟨width, -, h⟩ := Outcome.bind_eq_ok_iff.mp h
    obtain ⟨space, -, h⟩ := Outcome.bind_eq_ok_iff.mp h
    cases h
    exact ⟨rfl, rfl⟩

theorem content_fillLines {fonts : FontSource α} {available : α} {ps : List Piece} {f g : LineFilling α}
    (h : fillLines fonts available f ps = .ok g) :
    g.items.map (fun m => (m.node, m.kind)) =
      f.items.map (fun m => (m.node, m.kind)) ++ ps.filterMap Piece.content? := by
  induction ps generalizing f with
  | nil =>
    cases h
    exact (List.append_nil _).symm
  | cons p ps ih =>
    cases p with
    | lineBreak =>
      rw [ih h, LineFilling.items_newLine]
      rfl
    | item node kind =>
      obtain ⟨m, hMeasure, hRest⟩ := Outcome.bind_eq_ok_iff.mp h
      obtain ⟨rfl, rfl⟩ := content_measureItem hMeasure
      rw [ih hRest, LineFilling.items_place, List.map_append, List.append_assoc]
      rfl

/-! ## Places -/

/-- How far the cursor moves on behind an item. -/
def MeasuredItem.advance (m : MeasuredItem α) : α :=
  m.width + m.space

theorem items_placeLine (x y width : α) (ms : List (MeasuredItem α)) :
    ∃ baseline, (placeLine x y width ms).items = placeItems x baseline ms := by
  cases ms with
  | nil => exact ⟨y, rfl⟩
  | cons m ms => exact ⟨_, rfl⟩

theorem content_placeItems (x baseline : α) (ms : List (MeasuredItem α)) :
    (placeItems x baseline ms).map (fun i => (i.node, i.kind)) = ms.map fun m => (m.node, m.kind) := by
  induction ms generalizing x with
  | nil => rfl
  | cons m ms ih => rw [placeItems, List.map_cons, List.map_cons, ih]

theorem content_placeLines (x y width : α) (lss : List (List (MeasuredItem α))) :
    ((placeLines x y width lss).flatMap (·.items)).map (fun i => (i.node, i.kind)) =
      lss.flatten.map fun m => (m.node, m.kind) := by
  induction lss generalizing y with
  | nil => rfl
  | cons ms lss ih =>
    obtain ⟨baseline, hItems⟩ := items_placeLine x y width ms
    rw [placeLines, List.flatMap_cons, List.map_append, hItems, content_placeItems, ih, List.flatten_cons,
      List.map_append]

theorem length_placeLines (x y width : α) (lss : List (List (MeasuredItem α))) :
    (placeLines x y width lss).length = lss.length := by
  induction lss generalizing y with
  | nil => rfl
  | cons ms lss ih => rw [placeLines, List.length_cons, List.length_cons, ih]

theorem exists_getElem?_placeLines (x y width : α) (before : List (List (MeasuredItem α)))
    (ms : List (MeasuredItem α)) (after : List (List (MeasuredItem α))) :
    ∃ line baseline, (placeLines x y width (before ++ ms :: after))[before.length]? = some line ∧
      line.items = placeItems x baseline ms := by
  induction before generalizing y with
  | nil =>
    obtain ⟨baseline, hItems⟩ := items_placeLine x y width ms
    exact ⟨_, baseline, rfl, hItems⟩
  | cons ls before ih => exact ih _

theorem length_placeItems (x baseline : α) (ms : List (MeasuredItem α)) :
    (placeItems x baseline ms).length = ms.length := by
  induction ms generalizing x with
  | nil => rfl
  | cons m ms ih => rw [placeItems, List.length_cons, List.length_cons, ih]

section

variable [NumeralReading]

/-- Where the cursor is behind some items that stand on a line. -/
def endOf (ms : List (MeasuredItem ℚ)) : ℚ :=
  (ms.map MeasuredItem.advance).sum

theorem endOf_concat (ms : List (MeasuredItem ℚ)) (m : MeasuredItem ℚ) :
    endOf (ms ++ [m]) = endOf ms + (m.width + m.space) := by
  rw [endOf, List.map_append, List.sum_append, List.map_singleton, List.sum_singleton]
  rfl

/-- The item is put behind those before it, which is where the cursor was. -/
theorem placeItems_append (x baseline : ℚ) (before after : List (MeasuredItem ℚ)) :
    placeItems x baseline (before ++ after) =
      placeItems x baseline before ++ placeItems (x + endOf before) baseline after := by
  induction before generalizing x with
  | nil => simp [endOf, placeItems]
  | cons m before ih =>
    have hNext : x + m.width + m.space + endOf before = x + endOf (m :: before) := by
      rw [endOf, endOf, List.map_cons, List.sum_cons, MeasuredItem.advance]
      simp only [add_assoc]
    rw [List.cons_append, placeItems, placeItems, ih, hNext, List.cons_append]

/-- All items but the first end within the content. -/
def Fits (available : ℚ) (ms : List (MeasuredItem ℚ)) : Prop :=
  ∀ before m after, ms = before ++ m :: after → before ≠ [] → endOf before + m.width ≤ available

theorem fits_nil (available : ℚ) : Fits available [] := by
  intro before m after h
  simp at h

theorem Fits.concat {available : ℚ} {ms : List (MeasuredItem ℚ)} {m : MeasuredItem ℚ} (h : Fits available ms)
    (hm : ms ≠ [] → endOf ms + m.width ≤ available) : Fits available (ms ++ [m]) := by
  intro before k after hSplit hNonempty
  obtain rfl | ⟨others, last, rfl⟩ := List.eq_nil_or_concat after
  · obtain ⟨rfl, hLast⟩ := List.append_inj' hSplit rfl
    cases hLast
    exact hm hNonempty
  · rw [List.concat_eq_append, ← List.cons_append, ← List.append_assoc] at hSplit
    obtain ⟨rfl, -⟩ := List.append_inj' hSplit rfl
    exact h before k others rfl hNonempty

/-- The cursor stands behind the items of the last line, and all lines fit. -/
structure LineFilling.IsExact (available : ℚ) (f : LineFilling ℚ) : Prop where
  cursor : f.cursor = endOf f.current
  fits : ∀ ms ∈ f.lines, Fits available ms

namespace LineFilling

variable {available : ℚ} {f : LineFilling ℚ}

theorem isExact_start (available : ℚ) : (start : LineFilling ℚ).IsExact available := by
  refine ⟨rfl, fun ms hms => ?_⟩
  rw [List.mem_singleton.mp hms]
  exact fits_nil available

theorem IsExact.newLine (h : f.IsExact available) : f.newLine.IsExact available := by
  refine ⟨rfl, fun ms hms => ?_⟩
  obtain hOld | hNew : ms ∈ f.lines ∨ ms ∈ [[]] := List.mem_append.mp hms
  · exact h.fits ms hOld
  · rw [List.mem_singleton.mp hNew]
    exact fits_nil available

theorem IsExact.room (h : f.IsExact available) (m : MeasuredItem ℚ) : (f.room available m).IsExact available := by
  obtain ⟨hRoom, -⟩ | ⟨hRoom, -⟩ := f.room_cases available m
  · rwa [hRoom]
  · rw [hRoom]
    exact h.newLine

theorem room_fits (m : MeasuredItem ℚ) (hNonempty : (f.room available m).current ≠ []) :
    (f.room available m).cursor + m.width ≤ available := by
  obtain ⟨hRoom, hFits⟩ | ⟨hRoom, -⟩ := f.room_cases available m
  · rw [hRoom] at hNonempty ⊢
    have hLess := hFits hNonempty
    rw [← Bool.not_eq_true, Scalar.less_rat] at hLess
    exact not_lt.mp hLess
  · rw [hRoom] at hNonempty
    exact absurd rfl hNonempty

theorem IsExact.place (h : f.IsExact available) (m : MeasuredItem ℚ) : (f.place available m).IsExact available := by
  have hRoom := h.room m
  rw [place_eq]
  refine ⟨by rw [hRoom.cursor, endOf_concat], fun ms hms => ?_⟩
  obtain hOld | hLast := List.mem_append.mp hms
  · exact hRoom.fits ms (List.mem_append_left _ hOld)
  · rw [List.mem_singleton.mp hLast]
    refine (hRoom.fits _ (List.mem_append_right _ (List.mem_singleton_self _))).concat fun hNonempty => ?_
    rw [← hRoom.cursor]
    exact room_fits m hNonempty

end LineFilling

theorem isExact_fillLines {fonts : FontSource ℚ} {available : ℚ} {ps : List Piece} {f g : LineFilling ℚ}
    (hf : f.IsExact available) (h : fillLines fonts available f ps = .ok g) : g.IsExact available := by
  induction ps generalizing f with
  | nil =>
    cases h
    exact hf
  | cons p ps ih =>
    cases p with
    | lineBreak => exact ih hf.newLine h
    | item node kind =>
      obtain ⟨m, -, hRest⟩ := Outcome.bind_eq_ok_iff.mp h
      exact ih (hf.place m) hRest

/-! ## Openings -/

/-- A line break opens this line. -/
def OpenedByBreak (fonts : FontSource ℚ) (available : ℚ) (pieces : List Piece) (k : Nat) : Prop :=
  ∃ before after f, pieces = before ++ .lineBreak :: after ∧ fillLines fonts available .start before = .ok f ∧
    k = f.complete.length + 1

/-- This line is opened for an item that would end beyond the content where the cursor of the line before it
is, which is not empty. -/
def OpenedByItem (fonts : FontSource ℚ) (available : ℚ) (pieces : List Piece) (k : Nat) : Prop :=
  ∃ before node kind after f m, pieces = before ++ .item node kind :: after ∧
    fillLines fonts available .start before = .ok f ∧ measureItem fonts node kind = .ok m ∧
    f.current ≠ [] ∧ available < f.cursor + m.width ∧ k = f.complete.length + 1

section

variable {fonts : FontSource ℚ} {available : ℚ} {ps qs : List Piece} {k : Nat}

theorem OpenedByBreak.append (h : OpenedByBreak fonts available ps k) (qs : List Piece) :
    OpenedByBreak fonts available (ps ++ qs) k := by
  obtain ⟨before, after, f, rfl, hFill, hLine⟩ := h
  exact ⟨before, after ++ qs, f, by simp, hFill, hLine⟩

theorem OpenedByItem.append (h : OpenedByItem fonts available ps k) (qs : List Piece) :
    OpenedByItem fonts available (ps ++ qs) k := by
  obtain ⟨before, node, kind, after, f, m, rfl, hFill, hMeasure, hFull⟩ := h
  exact ⟨before, node, kind, after ++ qs, f, m, by simp, hFill, hMeasure, hFull⟩

theorem opened_of_fillLines {g : LineFilling ℚ} (h : fillLines fonts available .start ps = .ok g) {k : Nat}
    (hLine : k < g.lines.length) :
    k = 0 ∨ OpenedByBreak fonts available ps k ∨ OpenedByItem fonts available ps k := by
  induction ps using List.reverseRecOn generalizing g k with
  | nil =>
    cases h
    exact .inl (Nat.lt_one_iff.mp hLine)
  | append_singleton ps p ih =>
    obtain ⟨f, hBefore, hLast⟩ := fillLines_split h
    have hEarlier : k < f.lines.length →
        k = 0 ∨ OpenedByBreak fonts available (ps ++ [p]) k ∨ OpenedByItem fonts available (ps ++ [p]) k :=
      fun hLess => (ih hBefore hLess).imp_right (Or.imp (·.append [p]) (·.append [p]))
    by_cases hLess : k < f.lines.length
    · exact hEarlier hLess
    have hLength : f.lines.length = f.complete.length + 1 := by simp [LineFilling.lines]
    cases p with
    | lineBreak =>
      cases hLast
      have hNew : k = f.complete.length + 1 := by
        simp only [LineFilling.lines, LineFilling.newLine, List.length_append, List.length_singleton] at hLine
        omega
      exact .inr (.inl ⟨ps, [], f, rfl, hBefore, hNew⟩)
    | item node kind =>
      obtain ⟨m, hMeasure, hPlaced⟩ := Outcome.bind_eq_ok_iff.mp hLast
      cases hPlaced
      rw [LineFilling.place_eq, LineFilling.lines, List.length_append, List.length_singleton] at hLine
      obtain ⟨hRoom, -⟩ | ⟨hRoom, hNonempty, hFull⟩ := f.room_cases available m
      · simp only [hRoom] at hLine
        omega
      · have hNew : k = f.complete.length + 1 := by
          simp only [hRoom, LineFilling.newLine, List.length_append, List.length_singleton] at hLine
          omega
        exact .inr (.inr ⟨ps, node, kind, [], f, m, rfl, hBefore, hMeasure, hNonempty,
          Scalar.less_rat.mp hFull, hNew⟩)

end

/-! ## Lines of a block -/

/-- A font can be made for every choice, and every text can be measured with it. -/
def FontSource.NeverFails (fonts : FontSource ℚ) : Prop :=
  ∀ choice, ∃ font, fonts choice = .ok font ∧ ∀ text, ∃ width, font.measure text = .ok width

/-- The style of an item does not say which font it wants. -/
def HasNoChoice (pieces : List Piece) (e : Fault) : Prop :=
  ∃ node kind, .item node kind ∈ pieces ∧
    (FontChoice.ofStyle node.info.style : Except Fault (FontChoice ℚ)) = .error e

theorem measureItem_cases {fonts : FontSource ℚ} (hFonts : fonts.NeverFails) (node : PageTree) (kind : ItemKind) :
    (∃ m, measureItem fonts node kind = .ok m) ∨ ∃ e, measureItem fonts node kind = .error e ∧
      (FontChoice.ofStyle node.info.style : Except Fault (FontChoice ℚ)) = .error e := by
  cases hChoice : (FontChoice.ofStyle node.info.style : Except Fault (FontChoice ℚ)) with
  | error e =>
    refine .inr ⟨e, ?_, rfl⟩
    rw [measureItem, FontSource.forStyle, hChoice]
    rfl
  | ok choice =>
    obtain ⟨font, hFont, hMeasure⟩ := hFonts choice
    obtain ⟨space, hSpace⟩ := hMeasure " "
    have hMade : fonts.forStyle node.info.style = .ok font := by
      rw [FontSource.forStyle, Outcome.ok_bind hChoice, hFont]
    left
    rw [measureItem, Outcome.ok_bind hMade]
    cases kind with
    | word w =>
      obtain ⟨width, hWidth⟩ := hMeasure w
      exact ⟨_, Outcome.bind_eq_ok_iff.mpr ⟨width, hWidth, Outcome.bind_eq_ok_iff.mpr ⟨space, hSpace, rfl⟩⟩⟩
    | control =>
      exact ⟨_, Outcome.bind_eq_ok_iff.mpr ⟨controlWidth, rfl, Outcome.bind_eq_ok_iff.mpr ⟨space, hSpace, rfl⟩⟩⟩

theorem fillLines_cases {fonts : FontSource ℚ} (hFonts : fonts.NeverFails) (available : ℚ) (f : LineFilling ℚ)
    (ps : List Piece) : (∃ g, fillLines fonts available f ps = .ok g) ∨
      ∃ e, fillLines fonts available f ps = .error e ∧ HasNoChoice ps e := by
  induction ps generalizing f with
  | nil => exact .inl ⟨f, rfl⟩
  | cons p ps ih =>
    have hBehind : ∀ {g e}, fillLines fonts available g ps = .error e ∧ HasNoChoice ps e →
        fillLines fonts available g ps = .error e ∧ HasNoChoice (p :: ps) e := by
      rintro g e ⟨hError, node, kind, hMem, hChoice⟩
      exact ⟨hError, node, kind, List.mem_cons_of_mem p hMem, hChoice⟩
    cases p with
    | lineBreak => exact (ih f.newLine).imp_right fun ⟨e, h⟩ => ⟨e, hBehind h⟩
    | item node kind =>
      obtain ⟨m, hMeasure⟩ | ⟨e, hMeasure, hChoice⟩ := measureItem_cases hFonts node kind
      · rw [fillLines, Outcome.ok_bind hMeasure]
        exact (ih (f.place available m)).imp_right fun ⟨e, h⟩ => ⟨e, hBehind h⟩
      · refine .inr ⟨e, ?_, node, kind, List.mem_cons_self, hChoice⟩
        rw [fillLines, hMeasure]
        rfl

/-- The lines that come of some pieces. -/
structure AreFilled (fonts : FontSource ℚ) (o : BlockOpening ℚ) (pieces : List Piece) (lines : List (Line ℚ)) :
    Prop where
  order : (lines.flatMap (·.items)).map (fun i => (i.node, i.kind)) = pieces.filterMap Piece.content?
  /-- Every item stands where the cursor was when there was room for it. -/
  placed : ∀ before node kind after, pieces = before ++ .item node kind :: after →
    ∃ f m line i, fillLines fonts o.contentWidth .start before = .ok f ∧ measureItem fonts node kind = .ok m ∧
      lines[(f.room o.contentWidth m).complete.length]? = some line ∧
      line.items[(f.room o.contentWidth m).current.length]? = some i ∧
      i.node = node ∧ i.kind = kind ∧ i.extent.width = m.width ∧
      i.extent.x = o.contentX + (f.room o.contentWidth m).cursor
  fits : ∀ line ∈ lines, ∀ i ∈ line.items.tail, i.extent.x + i.extent.width ≤ o.contentX + o.contentWidth
  opened : ∀ k < lines.length, k = 0 ∨ OpenedByBreak fonts o.contentWidth pieces k ∨
    OpenedByItem fonts o.contentWidth pieces k
  empty : ∀ k line, lines[k]? = some line → line.items = [] →
    k = 0 ∨ OpenedByBreak fonts o.contentWidth pieces k

theorem endOf_cons (m : MeasuredItem ℚ) (ms : List (MeasuredItem ℚ)) :
    endOf (m :: ms) = m.width + m.space + endOf ms :=
  List.sum_cons

theorem mem_placeItems {x baseline : ℚ} {ms : List (MeasuredItem ℚ)} {i : Item ℚ}
    (h : i ∈ placeItems x baseline ms) : ∃ before m after, ms = before ++ m :: after ∧
      i.extent.x = x + endOf before ∧ i.extent.width = m.width := by
  induction ms generalizing x with
  | nil => cases h
  | cons m ms ih =>
    obtain rfl | hMem := List.mem_cons.mp h
    · exact ⟨[], m, ms, rfl, (add_zero x).symm, rfl⟩
    · obtain ⟨before, k, after, rfl, hx, hWidth⟩ := ih hMem
      refine ⟨m :: before, k, after, rfl, ?_, hWidth⟩
      rw [hx, endOf_cons]
      simp only [add_assoc]

theorem fits_placeItems {x baseline width : ℚ} {ms : List (MeasuredItem ℚ)} (h : Fits width ms) :
    ∀ i ∈ (placeItems x baseline ms).tail, i.extent.x + i.extent.width ≤ x + width := by
  intro i hi
  cases ms with
  | nil => cases hi
  | cons m ms =>
    obtain ⟨before, k, after, rfl, hx, hWidth⟩ := mem_placeItems hi
    have hFits := h (m :: before) k after rfl (List.cons_ne_nil m before)
    rw [endOf_cons] at hFits
    linarith

theorem fits_placeLines {x y width : ℚ} {lss : List (List (MeasuredItem ℚ))} (h : ∀ ms ∈ lss, Fits width ms) :
    ∀ line ∈ placeLines x y width lss, ∀ i ∈ line.items.tail, i.extent.x + i.extent.width ≤ x + width := by
  induction lss generalizing y with
  | nil =>
    intro line hLine
    cases hLine
  | cons ms lss ih =>
    obtain ⟨hFirst, hOthers⟩ := List.forall_mem_cons.mp h
    obtain ⟨baseline, hItems⟩ := items_placeLine x y width ms
    refine List.forall_mem_cons.mpr ⟨?_, ih hOthers⟩
    rw [hItems]
    exact fits_placeItems hFirst

theorem LineFilling.room_of_less {f : LineFilling ℚ} {available : ℚ} {m : MeasuredItem ℚ}
    (hNonempty : f.current ≠ []) (hFull : available < f.cursor + m.width) :
    f.room available m = f.newLine := by
  obtain ⟨-, hFits⟩ | ⟨hRoom, -⟩ := f.room_cases available m
  · rw [Scalar.less_rat.mpr hFull] at hFits
    cases hFits hNonempty
  · exact hRoom

/-- An item is put on the line that the cursor was on when there was room for it, where the cursor was. -/
theorem placed_of_fillLines {fonts : FontSource ℚ} {o : BlockOpening ℚ} {before after : List Piece}
    {node : PageTree} {kind : ItemKind} {g : LineFilling ℚ}
    (h : fillLines fonts o.contentWidth .start (before ++ .item node kind :: after) = .ok g) :
    ∃ f m line i, fillLines fonts o.contentWidth .start before = .ok f ∧
      measureItem fonts node kind = .ok m ∧
      (placeLines o.contentX o.contentY o.contentWidth g.lines)[(f.room o.contentWidth m).complete.length]? =
        some line ∧
      line.items[(f.room o.contentWidth m).current.length]? = some i ∧
      i.node = node ∧ i.kind = kind ∧ i.extent.width = m.width ∧
      i.extent.x = o.contentX + (f.room o.contentWidth m).cursor := by
  obtain ⟨f, hBefore, hBehind⟩ := fillLines_split h
  obtain ⟨m, hMeasure, hRest⟩ := Outcome.bind_eq_ok_iff.mp hBehind
  obtain ⟨hNode, hKind⟩ := content_measureItem hMeasure
  obtain ⟨more, rest, hLines⟩ := LineFilling.lines_of_place (goesOn_fillLines hRest)
  have hCursor := ((isExact_fillLines (LineFilling.isExact_start _) hBefore).room m).cursor
  obtain ⟨line, baseline, hLine, hItems⟩ := exists_getElem?_placeLines o.contentX o.contentY o.contentWidth
    (f.room o.contentWidth m).complete ((f.room o.contentWidth m).current ++ m :: more) rest
  rw [← hLines] at hLine
  rw [placeItems_append, placeItems] at hItems
  refine ⟨f, m, line, ⟨m.node, m.kind, m.font, ⟨_, baseline - m.font.ascent, m.width, m.font.lineSpace⟩⟩,
    hBefore, hMeasure, hLine, ?_, hNode, hKind, rfl, congrArg (o.contentX + ·) hCursor.symm⟩
  rw [hItems, List.getElem?_append_right (by rw [length_placeItems]), length_placeItems, Nat.sub_self]
  rfl

/-- The item that a line is opened for stands on it. -/
theorem items_ne_nil_of_openedByItem {fonts : FontSource ℚ} {o : BlockOpening ℚ} {pieces : List Piece}
    {g : LineFilling ℚ} (h : fillLines fonts o.contentWidth .start pieces = .ok g) {k : Nat} {line : Line ℚ}
    (hLine : (placeLines o.contentX o.contentY o.contentWidth g.lines)[k]? = some line)
    (hOpened : OpenedByItem fonts o.contentWidth pieces k) : line.items ≠ [] := by
  obtain ⟨before, node, kind, after, f, m, rfl, hBefore, hMeasure, hNonempty, hFull, rfl⟩ := hOpened
  obtain ⟨f', m', line', i, hBefore', hMeasure', hLine', hMem, -⟩ := placed_of_fillLines h
  rw [hBefore] at hBefore'
  rw [hMeasure] at hMeasure'
  cases hBefore'
  cases hMeasure'
  rw [LineFilling.room_of_less hNonempty hFull, LineFilling.newLine, List.length_append,
    List.length_singleton, hLine] at hLine'
  cases hLine'
  intro hEmpty
  rw [hEmpty] at hMem
  cases hMem

theorem areFilled_placeLines {fonts : FontSource ℚ} {o : BlockOpening ℚ} {pieces : List Piece}
    {g : LineFilling ℚ} (h : fillLines fonts o.contentWidth .start pieces = .ok g) :
    AreFilled fonts o pieces (placeLines o.contentX o.contentY o.contentWidth g.lines) := by
  have hOpened : ∀ k < (placeLines o.contentX o.contentY o.contentWidth g.lines).length,
      k = 0 ∨ OpenedByBreak fonts o.contentWidth pieces k ∨ OpenedByItem fonts o.contentWidth pieces k := by
    intro k hLine
    rw [length_placeLines] at hLine
    exact opened_of_fillLines h hLine
  refine ⟨?_, ?_, ?_, hOpened, ?_⟩
  · rw [content_placeLines]
    exact content_fillLines h
  · rintro before node kind after rfl
    exact placed_of_fillLines h
  · exact fits_placeLines (isExact_fillLines (LineFilling.isExact_start _) h).fits
  · intro k line hLine hEmpty
    obtain ⟨hLess, -⟩ := List.getElem?_eq_some_iff.mp hLine
    obtain hFirst | hBreak | hItem := hOpened k hLess
    · exact .inl hFirst
    · exact .inr hBreak
    · exact absurd hEmpty (items_ne_nil_of_openedByItem h hLine hItem)

end

/-! ## Blocks of lines -/

/-- In exact arithmetic the items of a block stand in order where the cursor was; they are put on a new line
where they would end beyond the content, and only there. -/
theorem lines_areFilled [NumeralReading] {fonts : FontSource ℚ} (hFonts : fonts.NeverFails) :
    (∀ o pieces, (∃ frame lines, layoutLines fonts o pieces = .ok (.lines frame lines) ∧
        AreFilled fonts o pieces lines) ∨
      ∃ e, layoutLines fonts o pieces = .error e ∧ HasNoChoice pieces e) ∧
    ∀ left available above (n : PageTree), n.fillsLines = true →
      layoutBlock fonts left available above n = layoutLines fonts (openBlock left available above n) n.pieces := by
  refine ⟨fun o pieces => ?_, fun left available above n h => layoutBlock_of_fillsLines fonts left available above h⟩
  obtain ⟨g, hFill⟩ | ⟨e, hFill, hChoice⟩ := fillLines_cases hFonts o.contentWidth .start pieces
  · exact .inl ⟨_, _, by rw [layoutLines, Outcome.ok_bind hFill]; rfl, areFilled_placeLines hFill⟩
  · refine .inr ⟨e, ?_, hChoice⟩
    rw [layoutLines, hFill]
    rfl

theorem neverFails_evenFonts : evenFonts.NeverFails :=
  fun _ => ⟨_, rfl, fun _ => ⟨_, rfl⟩⟩

/-- A paragraph with two breaks in a row, a control beside a word, and a heavy word that does not fit. -/
def narrowParagraph : PageTree :=
  .element { id := 0 } "p" .empty [
    .text { id := 1 } "one two",
    .element { id := 2 } "br" .empty [],
    .element { id := 3 } "br" .empty [],
    .element { id := 4 } "input" .empty [],
    .text { id := 5 } "a",
    .element { id := 6, style := StyleMap.empty.set "font-weight" "bold" } "b" .empty [
      .text { id := 7, style := StyleMap.empty.set "font-weight" "bold" } "incomprehensibilities"],
    .text { id := 8 } "three"]

def Block.lineSizes : Block ℚ → List Nat
  | .blocks .. => []
  | .lines _ ls => ls.map (·.items.length)

theorem lines_areFilled_narrowParagraph : evenFonts.NeverFails ∧ narrowParagraph.fillsLines = true ∧
    ∃ frame lines, layoutBlock evenFonts 0 230 0 narrowParagraph = .ok (.lines frame lines) ∧
      AreFilled evenFonts (openBlock 0 230 0 narrowParagraph) narrowParagraph.pieces lines ∧
      lines.map (·.items.length) = [2, 0, 2, 1, 1] := by
  have hTest : (layoutLines evenFonts (openBlock 0 230 0 narrowParagraph) narrowParagraph.pieces).toOption.map
      Block.lineSizes = some [2, 0, 2, 1, 1] := by
    decide +kernel
  have hFills : narrowParagraph.fillsLines = true := by decide +kernel
  obtain ⟨hLines, hBlock⟩ := lines_areFilled neverFails_evenFonts
  obtain ⟨frame, lines, hRead, hFilled⟩ | ⟨e, hRead, -⟩ :=
    hLines (openBlock 0 230 0 narrowParagraph) narrowParagraph.pieces
  · rw [hRead] at hTest
    exact ⟨neverFails_evenFonts, hFills, frame, lines, (hBlock 0 230 0 _ hFills).trans hRead, hFilled,
      Option.some.inj hTest⟩
  · rw [hRead] at hTest
    cases hTest

end PageRender
