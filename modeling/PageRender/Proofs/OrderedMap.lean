import Mathlib.Data.List.Induction
import PageRender.OrderedMap

/-! # Keys and entries of an ordered map

Setting a key adds nothing but that key and its value, and no key comes to stand twice. The key then has
this value, and all others have theirs.
-/

namespace PageRender.OrderedMap

variable {κ ν : Type} [BEq κ]

theorem ofList_concat (l : List (κ × ν)) (e : κ × ν) : ofList (l ++ [e]) = (ofList l).insert e.1 e.2 := by
  rw [ofList, List.foldl_append]
  rfl

variable [LawfulBEq κ]

theorem mem_setEntry {k : κ} {v : ν} {l : List (κ × ν)} {e : κ × ν} (h : e ∈ setEntry k v l) :
    e = (k, v) ∨ e ∈ l := by
  induction l with
  | nil => exact .inl (List.mem_singleton.mp h)
  | cons e' l ih =>
    obtain ⟨k', v'⟩ := e'
    rw [setEntry] at h
    split at h
    · rename_i hKey
      rcases List.mem_cons.mp h with rfl | hMem
      · exact .inl (by rw [eq_of_beq hKey])
      · exact .inr (List.mem_cons_of_mem _ hMem)
    · rcases List.mem_cons.mp h with rfl | hMem
      · exact .inr List.mem_cons_self
      · exact (ih hMem).imp_right (List.mem_cons_of_mem _)

theorem setEntry_of_notMem {k : κ} (v : ν) {l : List (κ × ν)} (h : k ∉ l.map Prod.fst) :
    setEntry k v l = l ++ [(k, v)] := by
  induction l with
  | nil => rfl
  | cons e l ih =>
    obtain ⟨k', v'⟩ := e
    simp only [List.map_cons, List.mem_cons, not_or] at h
    rw [setEntry, if_neg (by simpa using h.1 ∘ Eq.symm), ih h.2]
    rfl

theorem foldl_insert_append {m : OrderedMap κ ν} {l : List (κ × ν)}
    (h : ((m.entries ++ l).map Prod.fst).Nodup) : l.foldl (fun m e => m.insert e.1 e.2) m = ⟨m.entries ++ l⟩ := by
  induction l generalizing m with
  | nil => rw [List.foldl_nil, List.append_nil]
  | cons e l ih =>
    have hNew : e.1 ∉ m.entries.map Prod.fst := by
      rw [List.map_append, List.nodup_append] at h
      exact fun hMem => h.2.2 e.1 hMem e.1 (by simp) rfl
    have hInsert : m.insert e.1 e.2 = ⟨m.entries ++ [e]⟩ := by rw [insert, setEntry_of_notMem e.2 hNew]
    rw [List.foldl_cons, hInsert, ih (by simpa using h)]
    simp

/-- Distinct keys keep the order in which they are set. -/
theorem foldl_insert_of_nodup {l : List (κ × ν)} (h : (l.map Prod.fst).Nodup) :
    l.foldl (fun m e => m.insert e.1 e.2) empty = ⟨l⟩ :=
  foldl_insert_append (m := empty) h

theorem map_fst_setEntry_of_mem {k : κ} (v : ν) {l : List (κ × ν)} (h : k ∈ l.map Prod.fst) :
    (setEntry k v l).map Prod.fst = l.map Prod.fst := by
  induction l with
  | nil => cases h
  | cons e l ih =>
    obtain ⟨k', v'⟩ := e
    rw [setEntry]
    split
    · rfl
    · rename_i hKey
      rw [List.map_cons, List.mem_cons] at h
      rw [List.map_cons, List.map_cons, ih (h.resolve_left fun hEq => hKey (by simp [hEq]))]

theorem nodup_setEntry (k : κ) (v : ν) {l : List (κ × ν)} (h : (l.map Prod.fst).Nodup) :
    ((setEntry k v l).map Prod.fst).Nodup := by
  by_cases hMem : k ∈ l.map Prod.fst
  · rwa [map_fst_setEntry_of_mem v hMem]
  · rw [setEntry_of_notMem v hMem, List.map_append, List.nodup_append]
    refine ⟨h, by simp, ?_⟩
    intro a ha b hb hab
    rw [List.map_singleton, List.mem_singleton] at hb
    rw [hab, hb] at ha
    exact hMem ha

theorem lookup_setEntry (k j : κ) (v : ν) (l : List (κ × ν)) :
    (setEntry k v l).lookup j = if j == k then some v else l.lookup j := by
  induction l with
  | nil =>
    rw [setEntry, List.lookup_cons]
    cases j == k <;> rfl
  | cons e l ih =>
    obtain ⟨i, w⟩ := e
    rw [setEntry]
    by_cases hKey : i == k
    · obtain rfl := eq_of_beq hKey
      rw [if_pos hKey, List.lookup_cons, List.lookup_cons]
      cases j == i <;> rfl
    · rw [if_neg hKey, List.lookup_cons, List.lookup_cons, ih]
      cases h : j == i with
      | false => rfl
      | true =>
        obtain rfl := eq_of_beq h
        exact (if_neg hKey).symm

theorem get?_insert (m : OrderedMap κ ν) (k j : κ) (v : ν) :
    (m.insert k v).get? j = if j == k then some v else m.get? j :=
  lookup_setEntry k j v m.entries

theorem getD_insert (m : OrderedMap κ ν) (k j : κ) (v default : ν) :
    (m.insert k v).getD j default = if j == k then v else m.getD j default := by
  rw [getD, get?_insert]
  split <;> rfl

theorem mem_entries_iff {m : OrderedMap κ ν} (h : m.keys.Nodup) {k : κ} {v : ν} :
    (k, v) ∈ m.entries ↔ m.get? k = some v := by
  obtain ⟨l⟩ := m
  show (k, v) ∈ l ↔ l.lookup k = some v
  induction l with
  | nil => simp
  | cons e l ih =>
    obtain ⟨j, w⟩ := e
    obtain ⟨hFirst, hRest⟩ := List.nodup_cons.mp h
    rw [List.lookup_cons, List.mem_cons, Prod.mk.injEq]
    by_cases hKey : k = j
    · obtain rfl := hKey
      have hNone : (k, v) ∉ l := fun hMem => hFirst (List.mem_map.mpr ⟨_, hMem, rfl⟩)
      simp only [BEq.rfl, true_and, hNone, or_false, Option.some.injEq]
      exact eq_comm
    · have hTest : (k == j) = false := beq_eq_false_iff_ne.mpr hKey
      rw [hTest]
      simp only [hKey, false_and, false_or]
      exact ih hRest

/-- Where no key stands twice, it makes no difference from which end a key is looked up. -/
theorem lookup_reverse_entries {m : OrderedMap κ ν} (h : m.keys.Nodup) (k : κ) :
    m.entries.reverse.lookup k = m.get? k := by
  have hReversed : (keys ⟨m.entries.reverse⟩).Nodup := by
    rw [keys, List.map_reverse]
    exact List.pairwise_reverse.mpr (h.imp Ne.symm)
  apply Option.ext
  intro v
  rw [← mem_entries_iff h, ← List.mem_reverse]
  exact (mem_entries_iff hReversed).symm

theorem lookup_map_snd {μ : Type} (f : κ → ν → μ) (l : List (κ × ν)) (k : κ) :
    (l.map fun e => (e.1, f e.1 e.2)).lookup k = (l.lookup k).map (f k) := by
  induction l with
  | nil => rfl
  | cons e l ih =>
    rw [List.map_cons, List.lookup_cons, List.lookup_cons, ih]
    cases hKey : k == e.1 with
    | false => rfl
    | true => rw [eq_of_beq hKey]; rfl

theorem mem_keys_iff {m : OrderedMap κ ν} {k : κ} : k ∈ m.keys ↔ (m.get? k).isSome := by
  rw [get?, List.lookup_isSome_iff, keys, List.mem_map]
  simp only [beq_iff_eq, eq_comm (a := k)]

omit [LawfulBEq κ] in
theorem keys_erase (m : OrderedMap κ ν) (k : κ) : (m.erase k).keys = m.keys.filter (!· == k) := by
  rw [keys, keys, erase, List.filter_map]
  rfl

theorem get?_erase (m : OrderedMap κ ν) (k j : κ) :
    (m.erase k).get? j = if j == k then none else m.get? j := by
  obtain ⟨l⟩ := m
  change (l.filter fun e => !(e.1 == k)).lookup j = if j == k then none else l.lookup j
  induction l with
  | nil => simp
  | cons e l ih =>
    obtain ⟨i, w⟩ := e
    rw [List.filter_cons, List.lookup_cons]
    by_cases hGone : i = k
    · subst hGone
      simp only [BEq.rfl, Bool.not_true, Bool.false_eq_true, if_false, ih]
      cases j == i <;> rfl
    · rw [if_pos (by simpa using hGone), List.lookup_cons, ih]
      cases hKey : j == i with
      | false => rfl
      | true =>
        obtain rfl := eq_of_beq hKey
        exact (if_neg (by simpa using hGone)).symm

theorem erase_eq_self {m : OrderedMap κ ν} {k : κ} (h : m.get? k = none) : m.erase k = m := by
  have hAbsent : k ∉ m.keys := by
    rw [mem_keys_iff, h]
    exact Bool.false_ne_true
  have hEntries : (m.entries.filter fun e => !(e.1 == k)) = m.entries := by
    rw [List.filter_eq_self]
    intro e he
    have hApart : e.1 ≠ k := fun hSame => hAbsent (hSame ▸ List.mem_map_of_mem he)
    simpa using hApart
  rw [erase, hEntries]

theorem keys_insert (m : OrderedMap κ ν) (k : κ) (v : ν) :
    (m.insert k v).keys = if k ∈ m.keys then m.keys else m.keys ++ [k] := by
  split
  · exact map_fst_setEntry_of_mem v ‹_›
  · rename_i hNew
    rw [keys, insert, setEntry_of_notMem v hNew, List.map_append]
    rfl

/-- Every key stands where it is first set. -/
theorem keys_ofList (l : List (κ × ν)) : (ofList l).keys = (l.map Prod.fst).eraseDups := by
  induction l using List.reverseRecOn with
  | nil => rfl
  | append_singleton l e ih =>
    rw [ofList_concat, keys_insert, ih, List.map_append, List.eraseDups_append]
    simp only [List.mem_eraseDups]
    split <;> simp [List.removeAll, List.eraseDups_cons, *]

/-- Every key has the value that it is given last. -/
theorem get?_ofList (l : List (κ × ν)) (k : κ) : (ofList l).get? k = l.reverse.lookup k := by
  induction l using List.reverseRecOn with
  | nil => rfl
  | append_singleton l e ih =>
    rw [ofList_concat, get?_insert, ih, List.reverse_concat, List.lookup_cons]
    cases k == e.1 <;> rfl

end PageRender.OrderedMap
