import PageRender.Proofs.Script.Flowing

/-! # The numbers of events

A page numbers the events that it sends, and an event is prevented by the function that has its number. Of an
event that is yet to come nobody has this function: the numbers that a realm holds, and those of the events
that were prevented, are all below the number of the next one. So a new event was never prevented before.
-/

namespace PageRender.Script

/-- The value is not the function that prevents an event with the number or a later one. -/
def Value.IsBelow (number : Nat) : Value → Prop
  | .native _ (.preventDefault dispatch) => dispatch < number
  | _ => True

/-- All that a realm knows of the numbers of events, it knows of events that were sent. -/
structure Realm.IsNumbered (r : Realm) : Prop where
  holds : r.Holds (Value.IsBelow r.page.dispatches)
  prevented : ∀ dispatch ∈ r.page.prevented, dispatch < r.page.dispatches

theorem Value.IsBelow.mono {v : Value} {m n : Nat} (h : v.IsBelow m) (hLe : m ≤ n) : v.IsBelow n := by
  cases v with
  | native id native =>
    cases native with
    | preventDefault dispatch => exact Nat.lt_of_lt_of_le h hLe
    | _ => trivial
  | _ => trivial

theorem flow_isNumbered : Flow (fun r => Value.IsBelow r.page.dispatches) Realm.IsNumbered where
  holds hr := hr.holds
  plain {_ v} hv := by cases v <;> trivial
  ofPage id hn := by
    simp only [Native.ofPage, List.mem_cons, List.not_mem_nil, or_false] at hn
    rcases hn with rfl | rfl | rfl | rfl | rfl <;> trivial
  ofElement id _ hn := by
    simp only [Native.ofElement, List.mem_cons, List.not_mem_nil, or_false] at hn
    rcases hn with rfl | rfl | rfl | rfl <;> trivial
  byId _ _ := trivial
  name name hr hv := ⟨id, hr.holds.setName name hv, hr.prevented⟩
  closure params body name hr := ⟨id, hr.holds.addClosure params body name, hr.prevented⟩
  native n hr := ⟨id, { hr.holds with }, hr.prevented⟩
  newObject hr hProperties := ⟨id, hr.holds.addObject hProperties, hr.prevented⟩
  object i name hr hv := ⟨id, hr.holds.setProperty i name hv, hr.prevented⟩
  external calls hr := ⟨id, { hr.holds with }, hr.prevented⟩
  enter outer hr hScope := ⟨id, hr.holds.enter hScope outer, hr.prevented⟩
  leave caller hr := ⟨id, { hr.holds with }, hr.prevented⟩
  setAttribute _ _ _ hr := ⟨id, hr.holds.onPage { hr.holds.page with }, hr.prevented⟩
  replaceChildren _ hr _ := ⟨id, hr.holds.onPage { hr.holds.page with }, hr.prevented⟩
  shown _ _ _ _ hr := ⟨id, hr.holds.onPage { hr.holds.page with }, hr.prevented⟩
  listener type hr _ hf := ⟨id, hr.holds.onPage (hr.holds.page.addListener _ type hf), hr.prevented⟩
  timer t hr ht := ⟨id, hr.holds.onPage (hr.holds.page.addTimer ht), hr.prevented⟩
  takeTask hr hTasks := by
    have hPage := hr.holds.page
    exact ⟨id, hr.holds.onPage { hPage with
      tasks := fun t ht => hPage.tasks t (hTasks ▸ List.mem_cons_of_mem _ ht) }, hr.prevented⟩
  event {r _ _ _} hr _ := by
    have hLater := hr.holds.imp fun v (hv : v.IsBelow r.page.dispatches) => hv.mono (Nat.le_succ _)
    refine ⟨⟨fun hv => hv.mono (Nat.le_succ _), hLater.onPage { hLater.page with }, ?_⟩, trivial,
      fun _ => Nat.lt_succ_self _⟩
    exact fun dispatch hMem => Nat.lt_succ_of_lt (hr.prevented dispatch hMem)
  prevented hr hNumber := ⟨id, hr.holds.onPage { hr.holds.page with },
    List.forall_mem_cons.mpr ⟨hNumber, hr.prevented⟩⟩

/-- A page that no script has run in knows no numbers. -/
theorem isNumbered_fresh {page : Page} (hListeners : page.listeners = .empty) (hTimers : page.timers = [])
    (hTasks : page.tasks = []) (hPrevented : page.prevented = []) : Realm.IsNumbered { page } where
  holds := .fresh {
    listeners := by rw [hListeners]; exact fun e he => nomatch he
    timers := by rw [hTimers]; exact fun t ht => nomatch ht
    tasks := by rw [hTasks]; exact fun t ht => nomatch ht }
  prevented := by rw [hPrevented]; exact fun _ h => nomatch h

end PageRender.Script
