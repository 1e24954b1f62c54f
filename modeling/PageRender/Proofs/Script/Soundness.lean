import PageRender.Proofs.Script.Flowing
import PageRender.Proofs.Script.References

/-! # Evaluation names elements only

Every value comes from a literal, from what scripts have stored before, or from a function of the page, and
those hand out elements that have an id or that an event is sent to. So what scripts have to do with stays
sound through every evaluation, however it ends and wherever its steps run out, and through all that the
host of a page does with scripts.
-/

namespace PageRender.Script

variable {E : NodeId → Prop}

/-- What keeps to the elements of a set, for the nodes and what scripts have to do with. -/
theorem flow_isSound : Flow (fun _ => Value.IsWithin E) (Realm.IsSound E) where
  holds hr := hr.holds
  plain {_ v} hv := by cases v <;> trivial
  ofPage id hn := by
    simp only [Native.ofPage, List.mem_cons, List.not_mem_nil, or_false] at hn
    rcases hn with rfl | rfl | rfl | rfl | rfl <;> trivial
  ofElement id hNode hn := by
    simp only [Native.ofElement, List.mem_cons, List.not_mem_nil, or_false] at hn
    rcases hn with rfl | rfl | rfl | rfl <;> exact hNode
  byId {_ id node} hr hGet := by
    obtain ⟨before, after, hEntries, -⟩ := List.lookup_eq_some_iff.mp hGet
    exact hr.page.ids (id, node) (by rw [hEntries]; simp)
  name name hr hv := ⟨id, hr.of_holds (hr.holds.setName name hv) rfl⟩
  closure params body name hr := ⟨id, hr.of_holds (hr.holds.addClosure params body name) rfl⟩
  native n hr := ⟨id, { hr with }⟩
  newObject hr hProperties := ⟨id, hr.of_holds (hr.holds.addObject hProperties) rfl⟩
  object i name hr hv := ⟨id, hr.of_holds (hr.holds.setProperty i name hv) rfl⟩
  external calls hr := ⟨id, { hr with }⟩
  enter outer hr hScope := ⟨id, hr.of_holds (hr.holds.enter hScope outer) rfl⟩
  leave caller hr := ⟨id, { hr with }⟩
  setAttribute node name value hr :=
    ⟨id, hr.onPage fun hp => hp.changed (hp.dom.setAttribute node name value)⟩
  replaceChildren nodes hr hNode := ⟨id, hr.onPage fun hp => hp.changed (hp.dom.replaceChildren hNode nodes)⟩
  shown handles alerts console journal hr := ⟨id, hr.onPage fun hp => { hp with }⟩
  listener type hr hNode hf := ⟨id, hr.onPage fun hp => hp.addListener hNode type hf⟩
  timer t hr ht := ⟨id, hr.onPage fun hp => hp.addTimer ht⟩
  takeTask hr hTasks := ⟨id, hr.onPage fun hp =>
    { hp with tasks := fun t ht => hp.tasks t (hTasks ▸ List.mem_cons_of_mem _ ht) }⟩
  event hr hf := ⟨⟨id, hr.onPage fun hp => { hp with }⟩, hr.page.listening hf, fun _ => trivial⟩
  prevented hr _ := ⟨id, hr.onPage fun hp => { hp with }⟩

theorem keepsSound_of_yields {ε α : Type} {K : α → Prop} {x : EStateM ε Realm α}
    (h : ∀ {r}, r.IsSound E → Yields (fun _ => Value.IsWithin E) (Realm.IsSound E) r (fun _ => K) x) :
    KeepsSound E K x where
  ok hr hResult := ⟨((h hr).ok hResult).1.inv, ((h hr).ok hResult).2⟩
  error hr hResult := ((h hr).error hResult).inv

/-! ## Evaluation -/

/-- All that evaluation does with a supply of `n` steps keeps what scripts have to do with sound. -/
structure EvaluationSound (E : NodeId → Prop) (n : Nat) : Prop where
  exec : ∀ s, KeepsSound E (Completion.IsWithin E) (exec n s)
  execAll : ∀ (last : Value) ss, last.IsWithin E →
    KeepsSound E (Completion.IsWithin E) (execAll n last ss)
  loop : ∀ test update body, KeepsSound E (Completion.IsWithin E) (loop n test update body)
  eval : ∀ e, KeepsSound E (Value.IsWithin E) (eval n e)
  evalAll : ∀ es, KeepsSound E (fun vs => ∀ v ∈ vs, v.IsWithin E) (evalAll n es)
  store : ∀ target {v : Value}, v.IsWithin E → KeepsSound E (fun _ => True) (store n target v)
  callValue : ∀ {f : Value} {args : List Value} timerScope, f.IsWithin E →
    (∀ v ∈ args, v.IsWithin E) → KeepsSound E (Value.IsWithin E) (callValue n f args timerScope)
  dispatch : ∀ node type, KeepsSound E (fun _ => True) (dispatch n node type)
  callListeners : ∀ node type {event : Value} {fs : List Value}, event.IsWithin E →
    (∀ f ∈ fs, f.IsWithin E) → KeepsSound E (fun _ => True) (callListeners n node type event fs)

theorem isWithin_of_result {done : Completion} (h : done.programResult.IsWithin E) :
    done.IsWithin E := by
  cases done <;> exact h

theorem evaluationSound (n : Nat) : EvaluationSound E n := by
  have flow := (flow_isSound (E := E)).evaluation n
  have hDone : ∀ {x : ScriptM Completion},
      KeepsSound E (fun done => done.programResult.IsWithin E) x → KeepsSound E (Completion.IsWithin E) x :=
    fun hx => ⟨fun hr hResult => ⟨(hx.ok hr hResult).1, isWithin_of_result (hx.ok hr hResult).2⟩, hx.error⟩
  constructor
  case exec => exact fun s => hDone (keepsSound_of_yields fun hr => flow.exec hr s)
  case execAll => exact fun _ ss hLast => hDone (keepsSound_of_yields fun hr => flow.execAll hr hLast ss)
  case loop => exact fun test update body => hDone (keepsSound_of_yields fun hr => flow.loop hr test update body)
  case eval => exact fun e => keepsSound_of_yields fun hr => flow.eval hr e
  case evalAll => exact fun es => keepsSound_of_yields fun hr => flow.evalAll hr es
  case store => exact fun target _ hv => keepsSound_of_yields fun hr => flow.store hr hv target
  case callValue =>
    exact fun timerScope hf hArgs => keepsSound_of_yields fun hr => flow.callValue hr hf hArgs timerScope
  case dispatch => exact fun node type => keepsSound_of_yields fun hr => flow.dispatch hr node type
  case callListeners =>
    exact fun node type _ _ hEvent hListeners =>
      keepsSound_of_yields fun hr => flow.callListeners hr hEvent hListeners node type

/-! ## Hosts -/

theorem keepsSound_runScript (source name : String) :
    KeepsSound E (Value.IsWithin E) (runScript source name) :=
  keepsSound_of_yields fun hr => flow_isSound.runScript hr source name

theorem keepsSound_dispatchEvent (node : NodeId) (type : String) :
    KeepsSound E (fun _ => True) (dispatchEvent node type) :=
  keepsSound_of_yields fun hr => flow_isSound.dispatchEvent hr node type

theorem keepsSound_runPending : KeepsSound E (fun _ => True) runPending :=
  keepsSound_of_yields fun hr => flow_isSound.runPending hr

/-! ## All elements of the document

Before a host runs a script, the ids are looked up anew, and then any element of the document may be named.
-/

/-- What scripts have to do with names elements of the document, the nodes of which make up trees. -/
def Realm.IsWhole (r : Realm) : Prop :=
  r.IsSound r.page.dom.HasElement

theorem Realm.IsSound.isWhole {r : Realm} (h : r.IsSound E) : r.IsWhole :=
  h.mono (fun _ => h.page.dom.element) fun _ => id

theorem Realm.IsWhole.refreshIds {r : Realm} (h : r.IsWhole) :
    r.refreshIds.IsSound r.page.dom.HasElement :=
  h.onPage fun hp => { hp with ids := fun _ he => Dom.hasElement_of_mem_idMap he }

theorem isSound_newPage {d : Dom} (h : d.IsForest) (generation : Nat) (journal : Journal) :
    Page.IsSound (fun _ => False) { dom := d, generation, journal } where
  dom := ⟨h, False.elim⟩
  ids _ he := by cases he
  listeners _ he := by cases he
  timers _ ht := by cases ht
  tasks _ ht := by cases ht

/-- A realm that no script has run in is as sound as its page. -/
theorem isSound_fresh {page : Page} (hPage : page.IsSound E) : Realm.IsSound E { page } where
  scope := (Realm.Holds.fresh hPage.holds).scope
  snapshot := (Realm.Holds.fresh hPage.holds).snapshot
  object := (Realm.Holds.fresh hPage.holds).object
  page := hPage

theorem isWhole_forPage {page : Page} (hPage : page.IsSound E) : (Realm.forPage page).IsWhole :=
  (flow_isSound.forPage (isSound_fresh hPage)).isWhole

end PageRender.Script
