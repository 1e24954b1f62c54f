import PageRender.Proofs.Frame.Spanning

/-! # What is shown is what would be drawn

A frame whose page has not changed since it was last drawn shows what another drawing would show.
The frame is in one of two states after each operation: something was counted since the last drawing,
or what was drawn is the drawing of the page as it is.
-/

namespace PageRender

open Script

namespace Frame

/-- What is drawn of a page with its styles, unless it cannot be laid out or painted. -/
def drawingOf (f : Frame) (root : PageTree) : Option Drawing :=
  match f.layout root with
  | .error _ => none
  | .ok box =>
    match paintDocument box with
    | .error _ => none
    | .ok display => some (box, display)

/-- The drawing of the page as it is. -/
def drawing (f : Frame) : Option Drawing :=
  f.drawingOf f.styled.1

/-- The frame with a drawing in it, or blank without one, as of its changes so far. -/
def showing (f : Frame) (d : Option Drawing) : Frame :=
  { f with
    document := d.map Prod.fst
    display := (d.map Prod.snd).getD []
    rendered := some f.generation }

def Shows (f : Frame) (d : Option Drawing) : Prop :=
  f.document = d.map Prod.fst ∧ f.display = (d.map Prod.snd).getD []

/-- The frame with other notes about it. -/
def noting (f : Frame) (tracer : Tracer String) (diagnostics : List Diagnostic) (journal : Journal) :
    Frame :=
  { f with tracer, diagnostics, realm := f.realm.onPage fun p => { p with journal } }

section

variable (f : Frame) (tracer : Tracer String) (diagnostics : List Diagnostic) (journal : Journal)

theorem drawingOf_noting (root : PageTree) :
    (f.noting tracer diagnostics journal).drawingOf root = f.drawingOf root :=
  rfl

theorem shelve_noting (root : PageTree) :
    (f.noting tracer diagnostics journal).shelve root =
      (f.shelve root).noting tracer diagnostics journal :=
  rfl

end

end Frame

/-- What is written about a sheet with so many errors. -/
def sheetFindings (n : Nat) : Journal :=
  if n == 0 then [] else [⟨.info, "Recovered from " ++ toString n ++ " CSS error(s)"⟩]

def drawingFindings : Option Drawing → Journal
  | some _ => []
  | none => [⟨.error, "Layout failed, rendering a blank viewport"⟩]

theorem writeSheetFindings_eq (n : Nat) (f : Frame) : writeSheetFindings n f =
    .ok () (f.noting f.tracer f.diagnostics (f.page.journal ++ sheetFindings n)) := by
  rw [writeSheetFindings, sheetFindings]
  split
  · rw [List.append_nil]
    rfl
  · rfl

theorem traced_ok {α : Type} {body : FrameM α} {name category : String} {args : List (String × String)}
    {f g : Frame} {v : α} (h : body (f.record ⟨.start, name, category, args⟩) = .ok v g) :
    traced name category args body f = .ok v (g.record ⟨.stop, name, category, []⟩) := by
  unfold traced withStage
  rw [h]

theorem traced_pure {α : Type} (v : α) (name category : String) (args : List (String × String))
    (f : Frame) : traced name category args (pure v) f =
      .ok v ((f.record ⟨.start, name, category, args⟩).record ⟨.stop, name, category, []⟩) :=
  rfl

theorem restyle_of_loaded {f : Frame} (hLoaded : f.loaded = true) :
    ∃ tracer, restyle f = .ok f.styled.1 (f.noting tracer (f.markupDiagnostics ++ f.styled.2)
      (f.page.journal ++ sheetFindings f.styled.2.length)) := by
  let g := f.record ⟨.start, "style", "style", []⟩
  let diagnostics := f.markupDiagnostics ++ f.styled.2
  have hWrite := writeSheetFindings_eq f.styled.2.length g
  let h := g.noting g.tracer diagnostics (f.page.journal ++ sheetFindings f.styled.2.length)
  refine ⟨(h.record ⟨.stop, "style", "style", []⟩).tracer, ?_⟩
  unfold restyle
  refine traced_ok (g := h) ?_
  rw [get_bind]
  refine (congrFun (if_pos hLoaded) g).trans ?_
  exact bind_ok hWrite _

theorem draw_eq (root : PageTree) (f : Frame) :
    ∃ tracer, draw root f = .ok ((f.shelve root).drawingOf root) { f.shelve root with tracer } := by
  unfold draw Frame.drawingOf
  rw [modify_bind, get_bind]
  generalize f.shelve root = g
  rw [bind_ok (traced_pure (g.layout root) "layout" "layout" [] g)]
  cases g.layout root with
  | error e => exact ⟨_, rfl⟩
  | ok box =>
    dsimp only
    rw [bind_ok (traced_pure (paintDocument box) "paint" "paint" [] _)]
    cases paintDocument box with
    | error e => exact ⟨_, rfl⟩
    | ok display => exact ⟨_, rfl⟩

/-- What a drawing makes of a frame, but for the trace of it. -/
theorem exists_render_eq {f : Frame} (hLoaded : f.loaded = true) :
    let d := (f.shelve f.styled.1).drawingOf f.styled.1
    ∃ tracer, render f = .ok () (((f.shelve f.styled.1).noting tracer (f.markupDiagnostics ++ f.styled.2)
      (f.page.journal ++ (sheetFindings f.styled.2.length ++ drawingFindings d))).showing d) := by
  intro d
  obtain ⟨tracer, hStyle⟩ := restyle_of_loaded hLoaded
  obtain ⟨tracer', hDraw⟩ := draw_eq f.styled.1 (f.noting tracer (f.markupDiagnostics ++ f.styled.2)
    (f.page.journal ++ sheetFindings f.styled.2.length))
  rw [Frame.shelve_noting, Frame.drawingOf_noting] at hDraw
  refine ⟨tracer', ?_⟩
  unfold render
  rw [bind_ok hStyle, bind_ok hDraw, ← List.append_assoc]
  cases hDrawing : (f.shelve f.styled.1).drawingOf f.styled.1 with
  | none =>
    rw [show d = none from hDrawing]
    rfl
  | some both =>
    rw [show d = some both from hDrawing, drawingFindings, List.append_nil]
    rfl

theorem render_of_loaded {f : Frame} (hLoaded : f.loaded = true) :
    ∃ tracer diagnostics journal,
      let g := (f.shelve f.styled.1).noting tracer diagnostics journal
      render f = .ok () (g.showing (g.drawingOf f.styled.1)) := by
  obtain ⟨tracer, hRender⟩ := exists_render_eq hLoaded
  exact ⟨tracer, _, _, hRender⟩

theorem render_of_not_loaded {f : Frame} (hLoaded : ¬ f.loaded = true) :
    render f = .error .noDocument
      ((f.record ⟨.start, "style", "style", []⟩).record ⟨.stop, "style", "style", []⟩) := by
  let g := f.record ⟨.start, "style", "style", []⟩
  have hNot : ¬ g.loaded = true := hLoaded
  refine bind_error ?_ _
  unfold restyle traced withStage
  rw [get_bind, if_neg hNot]
  rfl

/-- Of the page, a drawing changes the journal alone. -/
theorem stateAfter_render (f : Frame) : ∃ journal,
    (stateAfter render f).realm = f.realm.onPage (fun p => { p with journal }) ∧
      (stateAfter render f).focus = f.focus := by
  by_cases hLoaded : f.loaded = true
  · obtain ⟨tracer, diagnostics, journal, hRender⟩ := render_of_loaded hLoaded
    rw [stateAfter_of_ok hRender]
    exact ⟨journal, rfl, rfl⟩
  · rw [stateAfter_of_error (render_of_not_loaded hLoaded)]
    exact ⟨f.page.journal, rfl, rfl⟩

namespace Frame

/-- A frame whose page counts its changes, and which shows the drawing of its page as it is unless
something was counted since. Its fonts are the same whenever they are asked for. -/
structure Tracked (f : Frame) : Prop where
  shelf : f.shelf = none
  observed : f.page.observed = true
  rendered : ∀ n, f.rendered = some n → f.loaded = true ∧ n ≤ f.generation
  shows : f.rendered = some f.generation → f.Shows f.drawing

theorem tracked_opened (pageWidth : Option Float) (fonts : FontSource Float) (userSheet : String)
    (tracer : Tracer String) : (opened pageWidth fonts userSheet tracer).Tracked where
  shelf := rfl
  observed := rfl
  rendered _ h := nomatch h
  shows h := nomatch h

theorem Follows.drawing {f g : Frame} (h : f.Follows g) (hSheet : g.authorSheet = f.authorSheet)
    (hDom : g.dom = f.dom) : g.drawing = f.drawing := by
  have hSettings := h.settings
  simp only [Frame.settings, Prod.mk.injEq] at hSettings
  obtain ⟨hWidth, hFonts, hShelf, hUser⟩ := hSettings
  have hStyled : g.styled = f.styled := by rw [styled, styled, tree, tree, hDom, hSheet, hUser]
  have hLayout : ∀ root, g.layout root = f.layout root := by
    intro root
    rw [layout, layout, pageFonts, pageFonts, hWidth, hFonts, hShelf]
  rw [Frame.drawing, Frame.drawing, drawingOf, drawingOf, hStyled, hLayout]

theorem Tracked.follows {f g : Frame} (hTracked : f.Tracked) (h : f.Follows g) : g.Tracked := by
  have hDrawn := h.drawn
  simp only [drawn, Prod.mk.injEq] at hDrawn
  obtain ⟨hDocument, hDisplay, hRendered⟩ := hDrawn
  have hShelf : g.shelf = f.shelf := congrArg (fun s => s.2.2.1) h.settings
  refine ⟨hShelf.trans hTracked.shelf, h.observed hTracked.observed, ?_, ?_⟩
  · intro n hn
    obtain ⟨hLoaded, hLe⟩ := hTracked.rendered n (hRendered.symm.trans hn)
    exact ⟨h.loaded hLoaded, Nat.le_trans hLe h.generation_le⟩
  · intro hCurrent
    -- The last drawing was not before the last change, so nothing was counted on the way.
    have hLast : f.rendered = some g.generation := hRendered.symm.trans hCurrent
    have hSame : g.generation = f.generation :=
      Nat.le_antisymm (hTracked.rendered _ hLast).2 h.generation_le
    obtain ⟨hSheet, hDom⟩ := h.content hTracked.observed hSame
    obtain ⟨hShown, hPainted⟩ := hTracked.shows (hLast.trans (congrArg some hSame))
    rw [h.drawing hSheet hDom]
    exact ⟨hDocument.trans hShown, hDisplay.trans hPainted⟩

theorem Tracked.noting_showing {f : Frame} (h : f.Tracked) (hLoaded : f.loaded = true)
    (tracer : Tracer String) (diagnostics : List Diagnostic) (journal : Journal) :
    let g := f.noting tracer diagnostics journal
    (g.showing g.drawing).Tracked where
  shelf := h.shelf
  observed := h.observed
  rendered _ hn := ⟨hLoaded, Nat.le_of_eq (Option.some.inj hn).symm⟩
  shows _ := ⟨rfl, rfl⟩

/-- What keeps a frame tracked, and loaded. -/
def KeepsTracked (f g : Frame) : Prop :=
  f.Tracked → g.Tracked ∧ (f.loaded = true → g.loaded = true)

instance : IsPreorder Frame KeepsTracked where
  refl _ h := ⟨h, id⟩
  trans _ _ _ hFirst hRest h :=
    have hNext := hFirst h
    have hLast := hRest hNext.1
    ⟨hLast.1, hLast.2 ∘ hNext.2⟩

theorem Follows.keepsTracked {f g : Frame} (h : f.Follows g) : KeepsTracked f g :=
  fun hTracked => ⟨hTracked.follows h, h.loaded⟩

theorem Tracked.shelve {f : Frame} (h : f.Tracked) (root : PageTree) : f.shelve root = f := by
  rw [Frame.shelve, h.shelf, Option.map_none, ← h.shelf]

theorem render_of_tracked {f : Frame} (h : f.Tracked) (hLoaded : f.loaded = true) :
    ∃ tracer diagnostics journal,
      let g := f.noting tracer diagnostics journal
      render f = .ok () (g.showing g.drawing) := by
  have hRender := render_of_loaded hLoaded
  rw [h.shelve] at hRender
  exact hRender

theorem render_keepsTracked : Leads KeepsTracked render := by
  intro f hTracked
  by_cases hLoaded : f.loaded = true
  · obtain ⟨tracer, diagnostics, journal, hRender⟩ := render_of_tracked hTracked hLoaded
    rw [stateAfter_of_ok hRender]
    exact ⟨hTracked.noting_showing hLoaded tracer diagnostics journal, fun _ => hLoaded⟩
  · rw [stateAfter_of_error (render_of_not_loaded hLoaded)]
    exact ((follows_record _ f).trans (follows_record _ _)).keepsTracked hTracked

theorem spans_keepsTracked : Spans KeepsTracked :=
  .of_follows Follows.keepsTracked render_keepsTracked

theorem tracked_afterAll (pageWidth : Option Float) (fonts : FontSource Float) (userSheet : String)
    (tracer : Tracer String) (ops : List Operation) :
    ((opened pageWidth fonts userSheet tracer).afterAll ops).Tracked :=
  (spans_keepsTracked.afterAll _ ops (tracked_opened pageWidth fonts userSheet tracer)).1

/-- A frame in which a page was opened stays loaded, even if the load failed later on. -/
theorem loaded_after_load {f : Frame} (h : f.Tracked) (html address authorSheet : String) :
    (f.after (.load html address authorSheet)).loaded = true := by
  let g := f.record ⟨.start, "frame_load", "load", []⟩
  obtain ⟨k, hOpen, hFollows, hLoaded⟩ := openPage_ok html address authorSheet g
  have hTracked : k.Tracked := h.follows ((follows_record _ f).trans hFollows)
  change (stateAfter (load html address authorSheet) f).loaded = true
  unfold load
  rw [stateAfter_traced, stateAfter_bind hOpen]
  exact (spans_keepsTracked.loaded k hTracked).2 hLoaded

theorem needsRender_after_render {f : Frame} (h : f.Tracked) (hLoaded : f.loaded = true) :
    (f.after .render).needsRender = false := by
  obtain ⟨tracer, diagnostics, journal, hRender⟩ := render_of_tracked h hLoaded
  rw [after, Operation.perform, stateAfter_of_ok hRender]
  simp [needsRender, showing, generation, page]

/-- After any run, a frame that need not be drawn shows the drawing of its page as it is, and another
drawing would change nothing that is shown. -/
theorem shown_of_needsRender_eq_false (pageWidth : Option Float) (fonts : FontSource Float)
    (userSheet : String) (tracer : Tracer String) (ops : List Operation) :
    let f := (opened pageWidth fonts userSheet tracer).afterAll ops
    f.needsRender = false →
      f.Shows f.drawing ∧ ∃ g, render f = .ok () g ∧ g.document = f.document ∧ g.display = f.display := by
  intro f hClean
  have hTracked : f.Tracked := tracked_afterAll pageWidth fonts userSheet tracer ops
  have hRendered : f.rendered = some f.generation := by simpa [needsRender] using hClean
  obtain ⟨hDocument, hDisplay⟩ := hTracked.shows hRendered
  have hLoaded := (hTracked.rendered _ hRendered).1
  obtain ⟨tracer, diagnostics, journal, hRender⟩ := render_of_tracked hTracked hLoaded
  exact ⟨⟨hDocument, hDisplay⟩, _, hRender, hDocument.symm, hDisplay.symm⟩

theorem shown_after_script :
    let html := "<p id=p>old</p><script>document.getElementById('p').textContent = 'new'</script>"
    let f := (opened (some 800) standardFonts "" {}).afterAll [.load html "about:blank" "", .render]
    f.needsRender = false ∧ f.Shows f.drawing ∧
      ∃ g, render f = .ok () g ∧ g.document = f.document ∧ g.display = f.display := by
  intro html f
  have hStart := tracked_opened (some 800) standardFonts "" {}
  have hLoad : ((opened (some 800) standardFonts "" {}).after (.load html "about:blank" "")).Tracked :=
    (spans_keepsTracked.perform _ _ hStart).1
  have hClean : f.needsRender = false := by
    have h := needsRender_after_render hLoad (loaded_after_load hStart html "about:blank" "")
    rwa [← afterAll_nil (after _ _), ← afterAll_cons, ← afterAll_cons] at h
  exact ⟨hClean, shown_of_needsRender_eq_false (some 800) standardFonts "" {} _ hClean⟩

end Frame

end PageRender
