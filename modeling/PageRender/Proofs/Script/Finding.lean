import Mathlib.Order.RelClasses
import PageRender.Proofs.OrderedMap
import PageRender.Proofs.Script.Effects

/-! # Finding elements by id

Scripts find elements in a list of ids that the host makes when it comes into their realm. Nothing that runs
there changes the list. So what is started first finds the elements of the document as it is. The callbacks that
wait are called one after the other on one visit of the host, and find those of the document as it was when that
began, whatever the callbacks before them have done to it.
-/

namespace PageRender

namespace Node

variable {α : Type}

def hasId (n : Node α) (id : String) : Bool :=
  n.attribute? "id" == some id

/-- The first element with an id in document order. -/
def elementById? (n : PageTree) (id : String) : Option NodeId :=
  (n.descendants.find? (·.hasId id)).map (·.info.id)

/-- The list of ids with one more node. The first node with an id keeps it. -/
def addId (m : OrderedMap String (Node α)) (n : Node α) : OrderedMap String (Node α) :=
  match n.attribute? "id" with
  | some id => if m.contains id then m else m.insert id n
  | none => m

theorem get?_addId (m : OrderedMap String (Node α)) (n : Node α) (id : String) :
    (addId m n).get? id = (m.get? id).or (if n.hasId id then some n else none) := by
  rw [addId, hasId]
  cases hId : n.attribute? "id" with
  | none => simp
  | some own =>
    dsimp only
    split
    · rename_i hKnown
      rw [OrderedMap.contains] at hKnown
      by_cases hEq : own = id
      · subst hEq
        obtain ⟨first, hFirst⟩ := Option.isSome_iff_exists.mp hKnown
        simp [hFirst]
      · simp [hEq]
    · rename_i hNew
      rw [OrderedMap.contains, Option.not_isSome_iff_eq_none] at hNew
      rw [OrderedMap.get?_insert]
      by_cases hEq : own = id
      · subst hEq
        simp [hNew]
      · simp [hEq, Ne.symm hEq]

theorem get?_foldl_addId (ns : List (Node α)) (m : OrderedMap String (Node α)) (id : String) :
    (ns.foldl addId m).get? id = (m.get? id).or (ns.find? (·.hasId id)) := by
  induction ns generalizing m with
  | nil => exact (Option.or_none).symm
  | cons n ns ih =>
    rw [List.foldl_cons, ih, get?_addId, Option.or_assoc, List.find?_cons]
    cases n.hasId id <;> rfl

theorem get?_idMap (n : Node α) (id : String) : n.idMap.get? id = n.descendants.find? (·.hasId id) :=
  (get?_foldl_addId n.descendants .empty id).trans (Option.none_or)

end Node

theorem Dom.get?_idMap (d : Dom) (root : NodeId) (id : String) :
    (d.idMap root).get? id = (d.tree root).elementById? id := by
  have hMap := OrderedMap.lookup_map_snd (fun _ n => n.info.id) (d.tree root).idMap.entries id
  exact hMap.trans (congrArg (Option.map _) ((d.tree root).get?_idMap id))

namespace Script

/-- Whatever id a script asks for in the realm, it is given the first element that has the id in the tree. -/
def Realm.Finds (r : Realm) (tree : PageTree) : Prop :=
  ∀ n native id, ∃ s, callValue (n + 1) (.native native .getElementById) [.string id] none r =
    .ok ((tree.elementById? id).elim .null .element) s

theorem Realm.finds_of_idMap {r : Realm} {d : Dom} (h : r.page.idMap = d.idMap 0) : r.Finds (d.tree 0) := by
  intro n native id
  rw [← d.get?_idMap, ← h]
  have hHost : ∃ s, callHost .getElementById [.string id] r =
      .ok (some ((r.page.idMap.get? id).elim .null .element)) s := by
    change ∃ s, (elementById id >>= fun v => pure (some v)) r = _
    rw [elementById, bind_assoc, get_bind]
    cases r.page.idMap.get? id <;> exact ⟨_, rfl⟩
  obtain ⟨s, hHost⟩ := hHost
  refine ⟨s, ?_⟩
  rw [callValue]
  · exact bind_ok hHost _
  · intro node hClick
    cases hClick

/-- The elements that are found are those of one document only. -/
theorem Realm.Finds.elementById?_eq {r : Realm} {tree tree' : PageTree} (h : r.Finds tree) (h' : r.Finds tree')
    (id : String) : tree.elementById? id = tree'.elementById? id := by
  have hInjective : ∀ {v w : Option NodeId}, v.elim Value.null .element = w.elim .null .element → v = w := by
    intro v w hSame
    cases v <;> cases w <;> cases hSame <;> rfl
  obtain ⟨s, hCall⟩ := h 0 0 id
  obtain ⟨s', hCall'⟩ := h' 0 0 id
  rw [hCall] at hCall'
  injection hCall' with hValue
  exact hInjective hValue

theorem PageChange.idMap {p q : Page} (h : PageChange p q) : p.idMap = q.idMap := by
  cases h with
  | handle node =>
    rw [Page.withHandle]
    split <;> rfl
  | setAttribute | replaceChildren | dispatch | prevented | listener | timer | console | alert | journal => rfl

theorem Effects.idMap {own : Bool} {r s : Realm} (h : Effects own r s) : r.page.idMap = s.page.idMap :=
  h.onPage (R := Order.Preimage Page.idMap Eq) PageChange.idMap

end Script

end PageRender
