import PageRender.Proofs.Document.Forest
import PageRender.Proofs.Script.Holding

/-! # The nodes that scripts can name

Scripts come by an element through its id or as the target of an event, and what they hold they put into
variables, objects, functions, listeners and timers. All these values name elements of the document only.
So a script that gives an element new children gives them to no text and to no node that is not there, and
the nodes of the document still make up trees, whether they stand in the document or are cut off from it.
-/

namespace PageRender.Script

/-- The function belongs to no other element than those of a set. -/
def Native.IsWithin (E : NodeId → Prop) : Native → Prop
  | .getAttribute node | .setAttribute node | .addEventListener node | .click node => E node
  | _ => True

/-- The value names no other element than those of a set. -/
def Value.IsWithin (E : NodeId → Prop) : Value → Prop
  | .native _ n => n.IsWithin E
  | .element node => E node
  | _ => True

def Scope.IsWithin (E : NodeId → Prop) (s : Scope) : Prop :=
  ∀ e ∈ s.entries, e.2.IsWithin E

def Completion.IsWithin (E : NodeId → Prop) : Completion → Prop
  | .value v | .returned v => v.IsWithin E

/-- The nodes of a page make up trees, and what its scripts have left there names elements of a set that
are elements of the document. -/
structure Page.IsSound (E : NodeId → Prop) (p : Page) : Prop where
  dom : p.dom.IsForestOver E
  ids : ∀ e ∈ p.idMap.entries, E e.2
  listeners : ∀ e ∈ p.listeners.entries, E e.1.1 ∧ ∀ f ∈ e.2, f.IsWithin E
  timers : ∀ t ∈ p.timers, t.callback.IsWithin E
  tasks : ∀ t ∈ p.tasks, t.callback.IsWithin E

/-- All that scripts have to do with names elements of a set, and these are elements of the document,
the nodes of which make up trees. -/
structure Realm.IsSound (E : NodeId → Prop) (r : Realm) : Prop where
  scope : ∀ i, (r.scope i).IsWithin E
  snapshot : ∀ (i : Nat) (c : Closure), r.closures[i]? = some c → c.snapshot.IsWithin E
  object : ∀ i, (r.object i).IsWithin E
  page : r.page.IsSound E

/-- The action keeps all that scripts have to do with sound, and its value has the property. -/
abbrev KeepsSound (E : NodeId → Prop) {ε α : Type} (K : α → Prop) (x : EStateM ε Realm α) : Prop :=
  Keeps (Realm.IsSound E) K x

variable {E : NodeId → Prop}

/-! ## Larger sets -/

section

variable {E' : NodeId → Prop} (hE : ∀ node, E node → E' node)

include hE

theorem Value.IsWithin.mono {v : Value} (h : v.IsWithin E) : v.IsWithin E' := by
  cases v with
  | element node => exact hE node h
  | native id n => cases n <;> first | exact hE _ h | trivial
  | _ => trivial

theorem Scope.IsWithin.mono {s : Scope} (h : s.IsWithin E) : s.IsWithin E' :=
  fun e he => (h e he).mono hE

theorem Page.IsSound.mono {p : Page} (h : p.IsSound E)
    (hElements : ∀ node, E' node → p.dom.HasElement node) : p.IsSound E' where
  dom := ⟨h.dom.forest, hElements _⟩
  ids e he := hE _ (h.ids e he)
  listeners e he := ⟨hE _ (h.listeners e he).1, fun f hf => ((h.listeners e he).2 f hf).mono hE⟩
  timers t ht := (h.timers t ht).mono hE
  tasks t ht := (h.tasks t ht).mono hE

theorem Realm.IsSound.mono {r : Realm} (h : r.IsSound E)
    (hElements : ∀ node, E' node → r.page.dom.HasElement node) : r.IsSound E' where
  scope i := (h.scope i).mono hE
  snapshot i c hc := (h.snapshot i c hc).mono hE
  object i := (h.object i).mono hE
  page := h.page.mono hE hElements

end

/-! ## Pages -/

namespace Page.IsSound

variable {p : Page} (h : p.IsSound E)

include h

theorem holds : p.Holds (Value.IsWithin E) where
  listeners e he := (h.listeners e he).2
  timers := h.timers
  tasks := h.tasks

theorem changed {d : Dom} (hDom : d.IsForestOver E) : (p.changed d).IsSound E :=
  { h with dom := hDom }

/-- Only an element has listeners. -/
theorem listening {node : NodeId} {type : String} {f : Value} (hf : f ∈ p.listenersOf node type) :
    E node := by
  rw [Page.listenersOf, OrderedMap.getD] at hf
  cases hGet : p.listeners.get? (node, type) with
  | none =>
    rw [hGet] at hf
    cases hf
  | some fs =>
    obtain ⟨before, after, hEntries, -⟩ := List.lookup_eq_some_iff.mp hGet
    exact (h.listeners ((node, type), fs) (by rw [hEntries]; simp)).1

theorem addListener {node : NodeId} (hNode : E node) (type : String) {f : Value} (hf : f.IsWithin E) :
    (p.addListener node type f).IsSound E :=
  { h with
    listeners := by
      intro e he
      refine ⟨?_, (h.holds.addListener node type hf).listeners e he⟩
      rcases OrderedMap.mem_setEntry he with rfl | hMem
      · exact hNode
      · exact (h.listeners e hMem).1 }

theorem addTimer {t : Timer} (ht : t.callback.IsWithin E) : (p.addTimer t).IsSound E :=
  { h with timers := (h.holds.addTimer ht).timers }

theorem fire (timer : Nat) : (p.fire timer).IsSound E := by
  have hTasks := (h.holds.fire timer).tasks
  rw [Page.fire] at hTasks ⊢
  split at hTasks
  · exact { h with tasks := hTasks }
  · exact h

end Page.IsSound

/-! ## Realms -/

namespace Realm.IsSound

variable {r : Realm} (h : r.IsSound E)

include h

theorem holds : r.Holds (Value.IsWithin E) where
  scope := h.scope
  snapshot := h.snapshot
  object := h.object
  page := h.page.holds

/-- What a realm holds beside its page may change, as long as it holds values of the same kind. -/
theorem of_holds {s : Realm} (hHolds : s.Holds (Value.IsWithin E)) (hPage : s.page = r.page) :
    s.IsSound E where
  scope := hHolds.scope
  snapshot := hHolds.snapshot
  object := hHolds.object
  page := hPage ▸ h.page

theorem onPage {f : Page → Page} (hPage : r.page.IsSound E → (f r.page).IsSound E) :
    (r.onPage f).IsSound E :=
  { h with page := hPage h.page }

end Realm.IsSound

end PageRender.Script
