import PageRender.Proofs.Frame.Drawing

/-! # Operations that draw what they changed

The user of a frame sees the outcome of an operation only when the frame is drawn again. An operation
that ends in a drawing where one is needed leaves nothing to draw. One way out of a key press has no
drawing at its end.
-/

namespace PageRender

open Script

section

variable {α β : Type}

/-- When the action comes to its end, nothing is left to draw. -/
def Redraws (x : FrameM α) : Prop :=
  ∀ f v g, x f = .ok v g → g.needsRender = false

namespace Redraws

theorem bind (x : FrameM α) {k : α → FrameM β} (h : ∀ v, Redraws (k v)) : Redraws (x >>= k) := by
  intro f w g hDone
  obtain ⟨v, f', _, hRest⟩ := exists_of_bind_eq_ok hDone
  exact h v f' w g hRest

theorem andReturn {x : FrameM α} (h : Redraws x) (k : α → β) : Redraws (do return k (← x)) := by
  intro f w g hDone
  obtain ⟨v, f', hFirst, hRest⟩ := exists_of_bind_eq_ok hDone
  cases hRest
  exact h f v g hFirst

theorem discard {x : FrameM α} (h : Redraws x) : Redraws (discard x) := by
  intro f _ g hDone
  obtain ⟨v, hFirst⟩ := exists_of_discard_eq_ok hDone
  exact h f v g hFirst

theorem traced {x : FrameM α} (h : Redraws x) (name category : String)
    (args : List (String × String)) : Redraws (traced name category args x) := by
  intro f v g hDone
  unfold PageRender.traced withStage at hDone
  cases hResult : x (f.record ⟨.start, name, category, args⟩) with
  | ok w k =>
    have hClean : k.needsRender = false := h _ w k hResult
    rw [hResult] at hDone
    cases hDone
    exact hClean
  | error e k =>
    rw [hResult] at hDone
    cases hDone

end Redraws

end

theorem redraws_render : Redraws render := by
  intro f v g hDone
  by_cases hLoaded : f.loaded = true
  · obtain ⟨tracer, diagnostics, journal, hRender⟩ := render_of_loaded hLoaded
    rw [hRender] at hDone
    cases hDone
    simp [Frame.needsRender, Frame.showing, Frame.generation, Frame.page]
  · rw [render_of_not_loaded hLoaded] at hDone
    cases hDone

theorem redraws_renderIfNeeded : Redraws renderIfNeeded := by
  intro f v g hDone
  change (if f.needsRender = true then render else pure ()) f = .ok v g at hDone
  split at hDone
  · exact redraws_render f v g hDone
  · rename_i hClean
    cases hDone
    exact Bool.not_eq_true _ ▸ hClean

theorem redraws_load (html address authorSheet : String) : Redraws (load html address authorSheet) := by
  refine .traced ?_ _ _ _
  refine .bind _ fun _ => .bind _ fun _ => .bind _ fun _ => .bind _ fun _ => .bind _ fun _ => ?_
  exact redraws_renderIfNeeded

theorem redraws_click (x y : Float) : Redraws (click x y) := by
  refine .bind _ fun _ => .bind _ fun _ => .bind _ fun navigation => ?_
  exact redraws_renderIfNeeded.andReturn fun _ => navigation

theorem redraws_setValue (node : NodeId) (change : Frame → String) :
    Redraws (do modify fun f => f.setValue node (change f); render) :=
  .bind _ fun _ => redraws_render

namespace Frame

theorem needsRender_eq_false_iff {f : Frame} :
    f.needsRender = false ↔ f.rendered = some f.generation := by
  simp [needsRender]

theorem Follows.needsRender_iff {f g : Frame} (h : f.Follows g) (hClean : f.needsRender = false) :
    g.needsRender = true ↔ g.generation ≠ f.generation := by
  have hRendered : g.rendered = f.rendered := congrArg (fun d => d.2.2) h.drawn
  rw [needsRender, hRendered, needsRender_eq_false_iff.mp hClean, bne_iff_ne, ne_eq, ne_eq,
    Option.some_inj, eq_comm]

end Frame

/-- How a key press comes to its end: without a focus nothing is done, a page that prevents the event
keeps its value, and else the frame is drawn with the new one. -/
theorem keypress_ok {text : String} {f g : Frame} (h : keypress text f = .ok () g) :
    (f.focus = none ∧ g = f) ∨
    (∃ node, f.focus = some node ∧ sendEvent "keydown" node f = .ok true g) ∨
    (∃ node k, f.focus = some node ∧ sendEvent "keydown" node f = .ok false k ∧
      g.needsRender = false) := by
  rw [keypress, get_bind] at h
  cases hFocus : f.focus with
  | none =>
    rw [hFocus] at h
    cases h
    exact .inl ⟨rfl, rfl⟩
  | some node =>
    rw [hFocus] at h
    obtain ⟨prevented, k, hSent, hRest⟩ := exists_of_bind_eq_ok h
    cases prevented with
    | true =>
      cases hRest
      exact .inr (.inl ⟨node, rfl, hSent⟩)
    | false =>
      have hClean := redraws_setValue node (fun f => f.valueOf node ++ text) k () g hRest
      exact .inr (.inr ⟨node, k, rfl, hSent, hClean⟩)

theorem needsRender_after_backspace {f g : Frame} (hClean : f.needsRender = false)
    (h : backspace f = .ok () g) : g.needsRender = false := by
  rw [backspace, get_bind] at h
  cases hFocus : f.focus with
  | none =>
    rw [hFocus] at h
    cases h
    exact hClean
  | some node =>
    rw [hFocus] at h
    dsimp only at h
    split at h
    · cases h
      exact hClean
    · exact redraws_setValue node (fun _ => _) f () g h

theorem needsRender_after_runPendingTasks {f g : Frame} {count : Nat} (hClean : f.needsRender = false)
    (h : runPendingTasks f = .ok count g) : g.needsRender = false := by
  rw [runPendingTasks, get_bind] at h
  split at h
  · have hRedraws : Redraws (do
        let count ← inCurrentRealm runPending
        renderIfNeeded
        return count) :=
      .bind _ fun count => redraws_renderIfNeeded.andReturn fun _ => count
    exact hRedraws f count g h
  · cases h
    exact hClean

/-- The operations whose outcome is to be seen at once. -/
def Operation.isShown : Operation → Bool
  | load .. | click .. | keypress _ | backspace | runPendingTasks => true
  | runScript .. | fireTimer _ | render | markChanged | sendEvent .. | submitForm _ => false

theorem Operation.needsRender_eq_false {f g : Frame} {op : Operation} (hShown : op.isShown = true)
    (hOther : ∀ text, op ≠ .keypress text) (hClean : f.needsRender = false)
    (hDone : op.perform f = .ok () g) : g.needsRender = false := by
  cases op with
  | load html address authorSheet => exact redraws_load html address authorSheet f () g hDone
  | click x y => exact (redraws_click x y).discard f () g hDone
  | keypress text => exact absurd rfl (hOther text)
  | backspace => exact needsRender_after_backspace hClean hDone
  | runPendingTasks =>
    obtain ⟨count, hRun⟩ := exists_of_discard_eq_ok hDone
    exact needsRender_after_runPendingTasks hClean hRun
  | runScript | fireTimer | render | markChanged | sendEvent | submitForm => cases hShown

/-- After an operation on a frame that showed its page, the frame shows its page again, with one
exception: a listener that prevents a key press and changes the page is not seen. -/
theorem needsRender_iff_prevented {f g : Frame} {op : Operation} (hShown : op.isShown = true)
    (hClean : f.needsRender = false) (hDone : op.perform f = .ok () g) :
    g.needsRender = true ↔ ∃ text node, op = .keypress text ∧ f.focus = some node ∧
      sendEvent "keydown" node f = .ok true g ∧ g.generation ≠ f.generation := by
  constructor
  · intro hStale
    by_cases hPress : ∃ text, op = .keypress text
    · obtain ⟨text, rfl⟩ := hPress
      obtain ⟨_, rfl⟩ | ⟨node, hFocus, hSent⟩ | ⟨_, _, _, _, hNow⟩ := keypress_ok hDone
      · exact absurd hStale (by simp [hClean])
      · have hFollows : f.Follows g := (leads_sendEvent "keydown" node).of_ok hSent
        exact ⟨text, node, rfl, hFocus, hSent, (hFollows.needsRender_iff hClean).mp hStale⟩
      · exact absurd hStale (by simp [hNow])
    · have hOther : ∀ text, op ≠ .keypress text := fun text h => hPress ⟨text, h⟩
      have hNow := op.needsRender_eq_false hShown hOther hClean hDone
      exact absurd hStale (by simp [hNow])
  · rintro ⟨text, node, rfl, hFocus, hSent, hChanged⟩
    have hFollows : f.Follows g := (leads_sendEvent "keydown" node).of_ok hSent
    exact (hFollows.needsRender_iff hClean).mpr hChanged

/-- A frame that shows a text and a control. The control has the focus, and a key pressed in it runs
some code, in which the text is `p` and the event `e`. -/
def listeningFrame (code : String) : Frame :=
  let html := "<p id=p>old</p><input id=i>"
  let source := "var p = document.getElementById('p'); " ++
    "document.getElementById('i').addEventListener('keydown', function (e) \x7b " ++ code ++ " \x7d)"
  let start := Realm.forPage { dom := .ofTree (Markup.parse html).root }
  let realm := stateAfter (do modify Realm.refreshIds; runScript source "") start
  { fonts := standardFonts
    loaded := true
    realm
    focus := some 5
    rendered := some realm.page.generation }

theorem needsRender_listeningFrame (code : String) : (listeningFrame code).needsRender = false :=
  Frame.needsRender_eq_false_iff.mpr rfl

theorem keypress_listeningFrame :
    let f := listeningFrame "p.textContent = 'new'; e.preventDefault()"
    ∃ g, keypress "x" f = .ok () g ∧ g.needsRender = true ∧ (g.dom.tree 0).textContent = "new" := by
  intro f
  obtain ⟨_, g, hDone, hOutcome⟩ := exists_eq_ok_of_match (x := keypress "x") (s := f)
    (p := fun _ g => g.needsRender && (g.dom.tree 0).textContent == "new") (by decide +kernel)
  simp only [Bool.and_eq_true, beq_iff_eq] at hOutcome
  exact ⟨g, hDone, hOutcome⟩

theorem needsRender_iff_prevented_sample :
    let f := listeningFrame "p.textContent = 'new'; e.preventDefault()"
    let g := f.after (.keypress "x")
    f.needsRender = false ∧ (Operation.keypress "x").perform f = .ok () g ∧
      (g.needsRender = true ↔ ∃ text node, Operation.keypress "x" = .keypress text ∧
        f.focus = some node ∧ sendEvent "keydown" node f = .ok true g ∧ g.generation ≠ f.generation) := by
  intro f g
  obtain ⟨h, hDone, _⟩ := keypress_listeningFrame
  have hClean : f.needsRender = false := needsRender_listeningFrame _
  have hAfter : g = h := stateAfter_of_ok hDone
  rw [hAfter]
  exact ⟨hClean, hDone, needsRender_iff_prevented rfl hClean hDone⟩

/-- The page writes that a key was pressed and prevents what follows. The frame still shows what was
drawn before. -/
theorem stale_after_prevented_key :
    let f := listeningFrame "p.textContent = 'new'; e.preventDefault()"
    let g := f.after (.keypress "x")
    f.needsRender = false ∧ g.needsRender = true ∧ (g.dom.tree 0).textContent = "new" := by
  intro f g
  obtain ⟨h, hDone, hStale, hText⟩ := keypress_listeningFrame
  have hAfter : g = h := stateAfter_of_ok hDone
  rw [hAfter]
  exact ⟨needsRender_listeningFrame _, hStale, hText⟩

end PageRender
