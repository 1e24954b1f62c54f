import PageRender.Proofs.OrderedMap
import PageRender.Style.StyleMap

/-! # Values in style maps

Whether a name is one of the known ones makes no difference to its value: it is what the name was last set to.
The items of a map are its values, each once, if the other names have been kept apart from the known ones.
-/

namespace PageRender

theorem Property.ofName?_name (p : Property) : ofName? p.name = some p := by
  cases p <;> rfl

theorem Property.name_of_ofName? {s : String} {p : Property} (h : ofName? s = some p) : p.name = s :=
  eq_of_beq (List.find?_some (p := fun q : Property => q.name == s) h)

namespace StyleMap

theorem get?_empty (name : String) : empty.get? name = none := by
  rw [get?]
  split <;> rfl

section

variable {m : StyleMap} {name : String} {value? : Option String}

/-- A change at one known name is a change at this name only. -/
theorem get?_of_known {p : Property} (hName : Property.ofName? name = some p)
    {known : OrderedMap Property String}
    (h : ∀ q, known.get? q = if q == p then value? else m.known.get? q) (other : String) :
    ({ m with known } : StyleMap).get? other = if other = name then value? else m.get? other := by
  rw [get?, get?]
  cases hOther : Property.ofName? other with
  | none =>
    have hApart : other ≠ name := by
      rintro rfl
      cases hName.symm.trans hOther
    exact (if_neg hApart).symm
  | some q =>
    dsimp only
    rw [h]
    by_cases hSame : other = name
    · subst hSame
      obtain rfl : q = p := Option.some.inj (hOther.symm.trans hName)
      rw [if_pos BEq.rfl, if_pos rfl]
    · have hApart : q ≠ p := by
        rintro rfl
        exact hSame ((Property.name_of_ofName? hOther).symm.trans (Property.name_of_ofName? hName))
      rw [if_neg (by simpa using hApart), if_neg hSame]

theorem get?_of_extra (hName : Property.ofName? name = none) {extra : OrderedMap String String}
    (h : ∀ other, extra.get? other = if other == name then value? else m.extra.get? other) (other : String) :
    ({ m with extra } : StyleMap).get? other = if other = name then value? else m.get? other := by
  rw [get?, get?]
  cases hOther : Property.ofName? other with
  | none =>
    dsimp only
    rw [h]
    simp only [beq_iff_eq]
  | some q =>
    have hApart : other ≠ name := by
      rintro rfl
      cases hName.symm.trans hOther
    exact (if_neg hApart).symm

end

theorem get?_set (m : StyleMap) (name value other : String) :
    (m.set name value).get? other = if other = name then some value else m.get? other := by
  rw [set]
  cases hName : Property.ofName? name with
  | none => exact get?_of_extra hName (fun _ => OrderedMap.get?_insert ..) other
  | some p => exact get?_of_known hName (fun _ => OrderedMap.get?_insert ..) other

theorem get?_setAll (m : StyleMap) (pairs : List (String × String)) (name : String) :
    (m.setAll pairs).get? name = (pairs.reverse.lookup name).or (m.get? name) := by
  rw [setAll]
  induction pairs generalizing m with
  | nil => rfl
  | cons e pairs ih =>
    obtain ⟨first, value⟩ := e
    rw [List.foldl_cons, ih, get?_set, List.reverse_cons, List.lookup_append, Option.or_assoc]
    congr 1
    by_cases hName : name = first
    · simp [hName]
    · have hTest : (name == first) = false := beq_eq_false_iff_ne.mpr hName
      rw [if_neg hName, List.lookup_cons, hTest]
      rfl

/-- The names beside the known ones are others, and none of them stands twice. -/
structure IsProper (m : StyleMap) : Prop where
  distinct : m.extra.keys.Nodup
  unknown : ∀ name ∈ m.extra.keys, Property.ofName? name = none

theorem isProper_empty : empty.IsProper where
  distinct := List.nodup_nil
  unknown _ h := absurd h List.not_mem_nil

theorem IsProper.set {m : StyleMap} (h : m.IsProper) (name value : String) : (m.set name value).IsProper := by
  rw [StyleMap.set]
  split
  · exact ⟨h.distinct, h.unknown⟩
  · rename_i hName
    refine ⟨OrderedMap.nodup_setEntry name value h.distinct, fun other hMem => ?_⟩
    obtain ⟨e, hEntry, rfl⟩ := List.mem_map.mp hMem
    obtain rfl | hOld := OrderedMap.mem_setEntry hEntry
    · exact hName
    · exact h.unknown _ (List.mem_map_of_mem hOld)

theorem IsProper.setAll {m : StyleMap} (h : m.IsProper) (pairs : List (String × String)) :
    (m.setAll pairs).IsProper := by
  rw [StyleMap.setAll]
  induction pairs generalizing m with
  | nil => exact h
  | cons e pairs ih => exact ih (h.set e.1 e.2)

theorem mem_items_iff {m : StyleMap} (h : m.IsProper) {name value : String} :
    (name, value) ∈ m.items ↔ m.get? name = some value := by
  have hKnown : (name, value) ∈ (Property.all.filterMap fun p => (m.known.get? p).map (p.name, ·)) ↔
      ∃ p, Property.ofName? name = some p ∧ m.known.get? p = some value := by
    rw [List.mem_filterMap]
    constructor
    · rintro ⟨p, -, hValue⟩
      obtain ⟨v, hFound, hPair⟩ := Option.map_eq_some_iff.mp hValue
      cases hPair
      exact ⟨p, Property.ofName?_name p, hFound⟩
    · rintro ⟨p, hName, hFound⟩
      refine ⟨p, List.mem_of_find?_eq_some hName, ?_⟩
      rw [hFound, ← Property.name_of_ofName? hName]
      rfl
  rw [items, List.mem_append, hKnown, OrderedMap.mem_entries_iff h.distinct, get?]
  cases hName : Property.ofName? name with
  | some p =>
    have hApart : m.extra.get? name ≠ some value := by
      intro hFound
      have hMem := (OrderedMap.mem_entries_iff h.distinct).mpr hFound
      rw [h.unknown name (List.mem_map_of_mem hMem)] at hName
      cases hName
    simp [hApart]
  | none => simp

end StyleMap

end PageRender
