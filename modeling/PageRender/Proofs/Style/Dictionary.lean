import Mathlib.Data.List.Induction
import Mathlib.Data.List.Nodup
import Mathlib.Data.List.Perm.Basic
import Mathlib.Logic.Function.Basic
import PageRender.Proofs.Commuting
import PageRender.Proofs.Style.Maps

/-! # Style maps as dictionaries

A style map keeps the values of the known properties apart from those of other names. For all that is done with it
by name it is still one dictionary: every answer is that of a function from names to values, and a name without a
value is refused and leaves the map alone. What it adds to the function is an order. The known names stand in theirs,
and the others behind them as they were first set since they were last removed.
-/

namespace PageRender

/-- What is done with a map from names to values. Where a name may be missing, a default is given instead. -/
inductive MapOperation where
  | set (name value : String)
  | get (name : String)
  | getOr (name : String) (default : Option String)
  | contains (name : String)
  | delete (name : String)
  | pop (name : String)
  | popOr (name : String) (default : Option String)

inductive MapAnswer where
  | done
  | value (v : Option String)
  | found (b : Bool)
deriving DecidableEq

namespace MapOperation

/-- The name that is without a value afterwards. -/
def removed? : MapOperation → Option String
  | delete name | pop name | popOr name _ => some name
  | _ => none

/-- The name that has to have a value. -/
def demanded? : MapOperation → Option String
  | get name | delete name | pop name => some name
  | _ => none

end MapOperation

/-! ## Both kinds of maps -/

/-- A dictionary is nothing but the values that names have. -/
abbrev Dictionary := String → Option String

def Dictionary.perform : MapOperation → EStateM String Dictionary MapAnswer
  | .set name value, d => .ok .done (Function.update d name (some value))
  | .get name, d =>
    match d name with
    | some value => .ok (.value (some value)) d
    | none => .error name d
  | .getOr name default, d => .ok (.value ((d name).or default)) d
  | .contains name, d => .ok (.found (d name).isSome) d
  | .delete name, d =>
    match d name with
    | some _ => .ok .done (Function.update d name none)
    | none => .error name d
  | .pop name, d =>
    match d name with
    | some value => .ok (.value (some value)) (Function.update d name none)
    | none => .error name d
  | .popOr name default, d =>
    .ok (.value ((d name).or default)) (Function.update d name none)

namespace StyleMap

/-- What a value is kept by, which is also what is reported as missing. -/
inductive Key where
  | known (p : Property)
  | extra (name : String)
deriving DecidableEq

namespace Key

def ofName (name : String) : Key :=
  match Property.ofName? name with
  | some p => .known p
  | none => .extra name

def name : Key → String
  | known p => p.name
  | extra name => name

theorem name_ofName (name : String) : (ofName name).name = name := by
  rw [ofName]
  cases hName : Property.ofName? name with
  | none => rfl
  | some p => exact Property.name_of_ofName? hName

end Key

abbrev MapM := EStateM Key StyleMap

def fetch (name : String) : MapM String := do
  match (← get).get? name with
  | some value => return value
  | none => throw (.ofName name)

def remove (name : String) : MapM Unit := do
  match (← get).erase? name with
  | some m => modify fun _ => m
  | none => throw (.ofName name)

/-- All that is done with a style map is put together from its own few operations. -/
def perform : MapOperation → MapM MapAnswer
  | .set name value => do
    modify (·.set name value)
    return .done
  | .get name => return .value (some (← fetch name))
  | .getOr name default => return .value (((← get).get? name).or default)
  | .contains name => return .found ((← get).contains name)
  | .delete name => do
    remove name
    return .done
  | .pop name => do
    let value ← fetch name
    remove name
    return .value (some value)
  | .popOr name default => do
    if (← get).contains name then
      let value ← fetch name
      remove name
      return .value (some value)
    else return .value default

end StyleMap

namespace MapOperation

def onStyle (op : MapOperation) (m : StyleMap) : StyleMap :=
  stateAfter (StyleMap.perform op) m

def onDictionary (op : MapOperation) (d : Dictionary) : Dictionary :=
  stateAfter (Dictionary.perform op) d

end MapOperation

/-- The style map after operations on an empty one, each whether it succeeds or is refused. -/
def StyleMap.afterAll (ops : List MapOperation) : StyleMap :=
  ops.foldl (fun m op => op.onStyle m) empty

def Dictionary.afterAll (ops : List MapOperation) : Dictionary :=
  ops.foldl (fun d op => op.onDictionary d) fun _ => none

/-! ## Values -/

namespace StyleMap

/-- The map without a name, which need not have a value. -/
def without (m : StyleMap) (name : String) : StyleMap :=
  match Property.ofName? name with
  | some p => { m with known := m.known.erase p }
  | none => { m with extra := m.extra.erase name }

theorem erase?_of_some {m : StyleMap} {name value : String} (h : m.get? name = some value) :
    m.erase? name = some (m.without name) := by
  rw [erase?, contains, h, without]
  cases Property.ofName? name <;> rfl

theorem erase?_of_none {m : StyleMap} {name : String} (h : m.get? name = none) : m.erase? name = none := by
  rw [erase?, contains, h]
  rfl

theorem get?_without (m : StyleMap) (name other : String) :
    (m.without name).get? other = if other = name then none else m.get? other := by
  rw [without]
  cases hName : Property.ofName? name with
  | none => exact get?_of_extra hName (fun _ => OrderedMap.get?_erase ..) other
  | some p => exact get?_of_known hName (fun _ => OrderedMap.get?_erase ..) other

theorem without_of_none {m : StyleMap} {name : String} (h : m.get? name = none) : m.without name = m := by
  rw [get?] at h
  rw [without]
  cases hName : Property.ofName? name with
  | none =>
    rw [hName] at h
    dsimp only at h ⊢
    rw [OrderedMap.erase_eq_self h]
  | some p =>
    rw [hName] at h
    dsimp only at h ⊢
    rw [OrderedMap.erase_eq_self h]

theorem fetch_of_some {m : StyleMap} {name value : String} (h : m.get? name = some value) :
    fetch name m = .ok value m := by
  rw [fetch, get_bind, h]
  rfl

theorem fetch_of_none {m : StyleMap} {name : String} (h : m.get? name = none) :
    fetch name m = .error (.ofName name) m := by
  rw [fetch, get_bind, h]
  rfl

theorem remove_of_some {m : StyleMap} {name value : String} (h : m.get? name = some value) :
    remove name m = .ok () (m.without name) := by
  rw [remove, get_bind, erase?_of_some h]
  rfl

theorem remove_of_none {m : StyleMap} {name : String} (h : m.get? name = none) :
    remove name m = .error (.ofName name) m := by
  rw [remove, get_bind, erase?_of_none h]
  rfl

end StyleMap

section

open StyleMap

variable {op : MapOperation} {m : StyleMap}

/-- An operation that needs a value which is not there is refused, and nothing comes of it. -/
theorem perform_of_missing {name : String} (hName : op.demanded? = some name) (h : m.get? name = none) :
    perform op m = .error (.ofName name) m ∧
      Dictionary.perform op m.get? = .error name m.get? := by
  cases op with
  | get own =>
    obtain rfl := Option.some.inj hName
    refine ⟨bind_error (fetch_of_none h) _, ?_⟩
    rw [Dictionary.perform, h]
  | delete own =>
    obtain rfl := Option.some.inj hName
    refine ⟨bind_error (remove_of_none h) _, ?_⟩
    rw [Dictionary.perform, h]
  | pop own =>
    obtain rfl := Option.some.inj hName
    refine ⟨bind_error (fetch_of_none h) _, ?_⟩
    rw [Dictionary.perform, h]
  | _ => cases hName

/-- What an operation makes of a style map if it is not refused. -/
def MapOperation.applied (m : StyleMap) : MapOperation → StyleMap
  | set name value => m.set name value
  | delete name | pop name | popOr name _ => m.without name
  | get _ | getOr .. | contains _ => m

theorem get?_set_eq (m : StyleMap) (name value : String) :
    (m.set name value).get? = Function.update m.get? name (some value) := by
  funext other
  rw [get?_set, Function.update_apply]

theorem get?_without_eq (m : StyleMap) (name : String) :
    (m.without name).get? = Function.update m.get? name none := by
  funext other
  rw [get?_without, Function.update_apply]

theorem perform_of_present (h : ∀ name, op.demanded? = some name → m.get? name ≠ none) :
    ∃ answer, perform op m = .ok answer (op.applied m) ∧
      Dictionary.perform op m.get? = .ok answer (op.applied m).get? := by
  have hValue : ∀ name, op.demanded? = some name → ∃ value, m.get? name = some value :=
    fun name hName => Option.ne_none_iff_exists'.mp (h name hName)
  cases op with
  | set name value => exact ⟨.done, rfl, by rw [MapOperation.applied, get?_set_eq]; rfl⟩
  | get name =>
    obtain ⟨value, hFound⟩ := hValue name rfl
    refine ⟨.value (some value), bind_ok (fetch_of_some hFound) _, ?_⟩
    rw [Dictionary.perform, hFound]
    rfl
  | getOr name default => exact ⟨_, rfl, rfl⟩
  | contains name => exact ⟨_, rfl, rfl⟩
  | delete name =>
    obtain ⟨value, hFound⟩ := hValue name rfl
    refine ⟨.done, bind_ok (remove_of_some hFound) _, ?_⟩
    rw [Dictionary.perform, hFound, MapOperation.applied, get?_without_eq]
  | pop name =>
    obtain ⟨value, hFound⟩ := hValue name rfl
    refine ⟨.value (some value), ?_, ?_⟩
    · exact (bind_ok (fetch_of_some hFound) _).trans (bind_ok (remove_of_some hFound) _)
    · rw [Dictionary.perform, hFound, MapOperation.applied, get?_without_eq]
  | popOr name default =>
    cases hFound : m.get? name with
    | none =>
      refine ⟨.value default, ?_, ?_⟩
      · rw [perform, get_bind, contains, hFound, MapOperation.applied, without_of_none hFound]
        rfl
      · rw [Dictionary.perform, hFound, MapOperation.applied, get?_without_eq]
        rfl
    | some value =>
      refine ⟨.value (some value), ?_, ?_⟩
      · rw [perform, get_bind, contains, hFound, MapOperation.applied]
        exact (bind_ok (fetch_of_some hFound) _).trans (bind_ok (remove_of_some hFound) _)
      · rw [Dictionary.perform, hFound, MapOperation.applied, get?_without_eq]
        rfl

theorem refused_iff {k : Key} :
    outcome (perform op) m = .error k ↔
      ∃ name, op.demanded? = some name ∧ m.get? name = none ∧ k = .ofName name := by
  constructor
  · intro hRefused
    by_cases hMissing : ∃ name, op.demanded? = some name ∧ m.get? name = none
    · obtain ⟨name, hName, hNone⟩ := hMissing
      rw [outcome_of_error (perform_of_missing hName hNone).1, Except.error.injEq] at hRefused
      exact ⟨name, hName, hNone, hRefused.symm⟩
    · obtain ⟨answer, hStyle, -⟩ := perform_of_present fun name hName hNone => hMissing ⟨name, hName, hNone⟩
      rw [outcome_of_ok hStyle] at hRefused
      cases hRefused
  · rintro ⟨name, hName, hNone, rfl⟩
    exact outcome_of_error (perform_of_missing hName hNone).1

/-- One dictionary is as good as the other: both give the same answer, or are refused for the same reason, and the
values are the same afterwards. -/
theorem perform_alike (op : MapOperation) (m : StyleMap) :
    (outcome (perform op) m).mapError Key.name = outcome (Dictionary.perform op) m.get? ∧
      (op.onStyle m).get? = op.onDictionary m.get? := by
  by_cases hMissing : ∃ name, op.demanded? = some name ∧ m.get? name = none
  · obtain ⟨name, hName, hNone⟩ := hMissing
    obtain ⟨hStyle, hPlain⟩ := perform_of_missing hName hNone
    rw [outcome_of_error hStyle, outcome_of_error hPlain, MapOperation.onStyle, MapOperation.onDictionary,
      stateAfter_of_error hStyle, stateAfter_of_error hPlain]
    exact ⟨congrArg Except.error (Key.name_ofName name), rfl⟩
  · obtain ⟨answer, hStyle, hPlain⟩ := perform_of_present fun name hName hNone => hMissing ⟨name, hName, hNone⟩
    rw [outcome_of_ok hStyle, outcome_of_ok hPlain, MapOperation.onStyle, MapOperation.onDictionary,
      stateAfter_of_ok hStyle, stateAfter_of_ok hPlain]
    exact ⟨rfl, rfl⟩

/-- A refused operation would have removed nothing, so that all operations leave what they make of a map. -/
theorem onStyle_eq (op : MapOperation) (m : StyleMap) : op.onStyle m = op.applied m := by
  by_cases hMissing : ∃ name, op.demanded? = some name ∧ m.get? name = none
  · obtain ⟨name, hName, hNone⟩ := hMissing
    rw [MapOperation.onStyle, stateAfter_of_error (perform_of_missing hName hNone).1]
    cases op with
    | get => rfl
    | delete own | pop own =>
      obtain rfl := Option.some.inj hName
      exact (without_of_none hNone).symm
    | _ => cases hName
  · obtain ⟨answer, hStyle, -⟩ := perform_of_present fun name hName hNone => hMissing ⟨name, hName, hNone⟩
    rw [MapOperation.onStyle, stateAfter_of_ok hStyle]

theorem get?_afterAll (ops : List MapOperation) : (StyleMap.afterAll ops).get? = Dictionary.afterAll ops := by
  induction ops using List.reverseRecOn with
  | nil => exact funext get?_empty
  | append_singleton ops op ih =>
    rw [StyleMap.afterAll, Dictionary.afterAll, List.foldl_append, List.foldl_append]
    exact (perform_alike op _).2.trans (congrArg op.onDictionary ih)

end

/-! ## Names -/

theorem Property.mem_all (p : Property) : p ∈ all :=
  List.mem_of_find?_eq_some (ofName?_name p)

theorem Property.nodup_all : all.Nodup := by
  decide

theorem Property.name_injective : Function.Injective name := by
  intro p q h
  have hSame := congrArg ofName? h
  rwa [ofName?_name, ofName?_name, Option.some.injEq] at hSame

theorem Property.ofName?_eq_none_iff {s : String} : ofName? s = none ↔ ∀ p : Property, p.name ≠ s := by
  constructor
  · rintro h p rfl
    cases h.symm.trans (ofName?_name p)
  · intro h
    cases hName : ofName? s with
    | none => rfl
    | some p => exact absurd (name_of_ofName? hName) (h p)

namespace StyleMap

/-- No name stands twice, and those beside the known ones are others. -/
structure IsSplit (m : StyleMap) : Prop extends m.IsProper where
  knownDistinct : m.known.keys.Nodup

theorem isSplit_empty : empty.IsSplit where
  toIsProper := isProper_empty
  knownDistinct := List.nodup_nil

theorem IsSplit.set {m : StyleMap} (h : m.IsSplit) (name value : String) : (m.set name value).IsSplit where
  toIsProper := h.toIsProper.set name value
  knownDistinct := by
    rw [StyleMap.set]
    split
    · exact OrderedMap.nodup_setEntry _ value h.knownDistinct
    · exact h.knownDistinct

theorem IsSplit.without {m : StyleMap} (h : m.IsSplit) (name : String) : (m.without name).IsSplit := by
  rw [StyleMap.without]
  split
  · refine ⟨⟨h.distinct, h.unknown⟩, ?_⟩
    rw [OrderedMap.keys_erase]
    exact h.knownDistinct.filter _
  · refine ⟨⟨?_, fun other hMem => ?_⟩, h.knownDistinct⟩
    · rw [OrderedMap.keys_erase]
      exact h.distinct.filter _
    · rw [OrderedMap.keys_erase] at hMem
      exact h.unknown other (List.mem_of_mem_filter hMem)

theorem IsSplit.applied {m : StyleMap} (h : m.IsSplit) (op : MapOperation) : (op.applied m).IsSplit := by
  cases op with
  | set name value => exact h.set name value
  | delete name | pop name | popOr name => exact h.without name
  | get | getOr | contains => exact h

/-- The names in the order in which a style map yields them. -/
def names (m : StyleMap) : List String :=
  m.items.map Prod.fst

theorem names_eq (m : StyleMap) :
    m.names = ((Property.all.map Property.name).filter fun name => (m.get? name).isSome) ++ m.extra.keys := by
  have hKnown : ∀ ps : List Property,
      (ps.filterMap fun p => (m.known.get? p).map (p.name, ·)).map Prod.fst =
        (ps.map Property.name).filter fun name => (m.get? name).isSome := by
    intro ps
    induction ps with
    | nil => rfl
    | cons p ps ih =>
      have hValue : m.get? p.name = m.known.get? p := by rw [get?, Property.ofName?_name]
      rw [List.map_cons, List.filter_cons, List.filterMap_cons, hValue, ← ih]
      cases m.known.get? p <;> rfl
  rw [names, items, List.map_append, hKnown]
  rfl

theorem IsSplit.mem_names_iff {m : StyleMap} (h : m.IsSplit) {name : String} :
    name ∈ m.names ↔ m.get? name ≠ none := by
  rw [names, List.mem_map, Option.ne_none_iff_exists']
  constructor
  · rintro ⟨⟨name, value⟩, hItem, rfl⟩
    exact ⟨value, (mem_items_iff h.toIsProper).mp hItem⟩
  · rintro ⟨value, hFound⟩
    exact ⟨(name, value), (mem_items_iff h.toIsProper).mpr hFound, rfl⟩

theorem IsSplit.nodup_names {m : StyleMap} (h : m.IsSplit) : m.names.Nodup := by
  rw [names_eq, List.nodup_append]
  refine ⟨(Property.nodup_all.map Property.name_injective).filter _, h.distinct, ?_⟩
  rintro name hKnown other hOther rfl
  obtain ⟨p, -, rfl⟩ := List.mem_map.mp (List.mem_of_mem_filter hKnown)
  cases (h.unknown _ hOther).symm.trans (Property.ofName?_name p)

theorem IsSplit.size_eq {m : StyleMap} (h : m.IsSplit) : m.size = m.names.length := by
  have hKnown : m.known.keys.Perm (Property.all.filter fun p => (m.known.get? p).isSome) := by
    rw [List.perm_ext_iff_of_nodup h.knownDistinct (Property.nodup_all.filter _)]
    intro p
    rw [OrderedMap.mem_keys_iff, List.mem_filter]
    exact (and_iff_right p.mem_all).symm
  have hFilter : (Property.all.map Property.name).filter (fun name => (m.get? name).isSome) =
      (Property.all.filter fun p => (m.known.get? p).isSome).map Property.name := by
    rw [List.filter_map]
    congr 2
    funext p
    rw [Function.comp_apply, get?, Property.ofName?_name]
  rw [names_eq, hFilter, List.length_append, List.length_map, ← hKnown.length_eq, size, OrderedMap.keys,
    OrderedMap.keys, List.length_map, List.length_map]
  rfl

end StyleMap

/-! ## The order of the other names -/

section

variable {name : String} {op : MapOperation} {ops : List MapOperation}

/-- The name was removed since it was last set, if it ever was. -/
def IsGone (name : String) (ops : List MapOperation) : Prop :=
  ∀ before value after, ops = before ++ .set name value :: after → ∃ op ∈ after, op.removed? = some name

/-- The name was set when so many operations were done, was not there before, and was not removed since. -/
def SetAfter (name : String) (ops : List MapOperation) (time : Nat) : Prop :=
  ∃ before value after, ops = before ++ .set name value :: after ∧ before.length = time ∧ IsGone name before ∧
    ∀ op ∈ after, op.removed? ≠ some name

/-- Both names are there, the first one for longer. -/
def IsOlder (ops : List MapOperation) (name other : String) : Prop :=
  ∃ time time', SetAfter name ops time ∧ SetAfter other ops time' ∧ time < time'

theorem isGone_concat (h : op.removed? = some name ∨ IsGone name ops ∧ ∀ value, op ≠ .set name value) :
    IsGone name (ops ++ [op]) := by
  intro before value after hSplit
  obtain rfl | ⟨earlier, last, rfl⟩ := after.eq_nil_or_concat
  · obtain ⟨rfl, hLast⟩ := List.append_inj' hSplit rfl
    obtain hRemoved | ⟨-, hNot⟩ := h
    · rw [List.singleton_inj.mp hLast] at hRemoved
      cases hRemoved
    · exact absurd (List.singleton_inj.mp hLast) (hNot value)
  · rw [List.concat_eq_append, ← List.cons_append, ← List.append_assoc] at hSplit
    obtain ⟨hOps, hLast⟩ := List.append_inj' hSplit rfl
    obtain rfl := List.singleton_inj.mp hLast
    obtain hRemoved | ⟨hGone, -⟩ := h
    · exact ⟨op, by simp, hRemoved⟩
    · obtain ⟨remover, hMem, hRemoved⟩ := hGone before value earlier hOps
      exact ⟨remover, by simp [hMem], hRemoved⟩

theorem SetAfter.concat {time : Nat} (h : SetAfter name ops time) (hOp : op.removed? ≠ some name) :
    SetAfter name (ops ++ [op]) time := by
  obtain ⟨before, value, after, rfl, hTime, hGone, hKept⟩ := h
  refine ⟨before, value, after ++ [op], by simp, hTime, hGone, ?_⟩
  intro later hMem
  obtain hMem | hMem := List.mem_append.mp hMem
  · exact hKept later hMem
  · rwa [List.mem_singleton.mp hMem]

theorem IsOlder.concat {other : String} (h : IsOlder ops name other) (hName : op.removed? ≠ some name)
    (hOther : op.removed? ≠ some other) : IsOlder (ops ++ [op]) name other := by
  obtain ⟨time, time', hFirst, hSecond, hLt⟩ := h
  exact ⟨time, time', hFirst.concat hName, hSecond.concat hOther, hLt⟩

theorem SetAfter.lt_length {time : Nat} (h : SetAfter name ops time) : time < ops.length := by
  obtain ⟨before, value, after, rfl, rfl, -, -⟩ := h
  simp

theorem setAfter_concat (h : IsGone name ops) (value : String) :
    SetAfter name (ops ++ [.set name value]) ops.length :=
  ⟨ops, value, [], rfl, rfl, h, by simp⟩

end

namespace StyleMap

/-- What the operations so far say about the names of a map that they were done with. -/
structure Remembers (ops : List MapOperation) (m : StyleMap) : Prop extends m.IsSplit where
  gone : ∀ name, m.get? name = none → IsGone name ops
  since : ∀ name, m.get? name ≠ none → ∃ time, SetAfter name ops time
  ordered : m.extra.keys.Pairwise (IsOlder ops)

theorem remembers_empty : Remembers [] empty where
  toIsSplit := isSplit_empty
  gone _ _ before value after h := by simp at h
  since name h := absurd (get?_empty name) h
  ordered := .nil

namespace Remembers

variable {ops : List MapOperation} {m : StyleMap} (h : Remembers ops m)

include h

theorem get?_ne_none {name : String} (hMem : name ∈ m.extra.keys) : m.get? name ≠ none := by
  have hFound := OrderedMap.mem_keys_iff.mp hMem
  rw [get?, h.unknown name hMem]
  exact Option.isSome_iff_ne_none.mp hFound

/-- An operation leaves the names in their order that it neither sets nor removes. -/
theorem keeping {op : MapOperation} (hSets : ∀ name value, op ≠ .set name value) (hRemoved : op.removed? = none) :
    Remembers (ops ++ [op]) m := by
  have hKept : ∀ name, op.removed? ≠ some name := fun name => hRemoved ▸ Option.some_ne_none name |>.symm
  refine ⟨h.toIsSplit, fun name hNone => ?_, fun name hFound => ?_, ?_⟩
  · exact isGone_concat (.inr ⟨h.gone name hNone, hSets name⟩)
  · obtain ⟨time, hTime⟩ := h.since name hFound
    exact ⟨time, hTime.concat (hKept name)⟩
  · exact h.ordered.imp fun hOlder => hOlder.concat (hKept _) (hKept _)

theorem removing {op : MapOperation} {name : String} (hRemoved : op.removed? = some name) :
    Remembers (ops ++ [op]) (m.without name) := by
  have hSets : ∀ other value, op ≠ .set other value := by
    rintro other value rfl
    cases hRemoved
  have hKept : ∀ {other}, other ≠ name → op.removed? ≠ some other := by
    intro other hApart hSame
    exact hApart (Option.some.inj (hSame.symm.trans hRemoved))
  refine ⟨h.toIsSplit.without name, fun other hNone => ?_, fun other hFound => ?_, ?_⟩
  · rw [get?_without] at hNone
    split at hNone
    · rename_i hSame
      exact isGone_concat (.inl (hSame ▸ hRemoved))
    · exact isGone_concat (.inr ⟨h.gone other hNone, hSets other⟩)
  · rw [get?_without] at hFound
    split at hFound
    · exact absurd rfl hFound
    · rename_i hApart
      obtain ⟨time, hTime⟩ := h.since other hFound
      exact ⟨time, hTime.concat (hKept hApart)⟩
  · rw [without]
    cases hName : Property.ofName? name with
    | some p =>
      refine h.ordered.imp_of_mem fun {first second} hFirst hSecond hOlder => ?_
      have hApart : ∀ other ∈ m.extra.keys, other ≠ name := by
        rintro other hMem rfl
        cases (h.unknown other hMem).symm.trans hName
      exact hOlder.concat (hKept (hApart first hFirst)) (hKept (hApart second hSecond))
    | none =>
      dsimp only
      rw [OrderedMap.keys_erase]
      refine (h.ordered.filter _).imp_of_mem fun {first second} hFirst hSecond hOlder => ?_
      have hApart : ∀ other ∈ m.extra.keys.filter (!· == name), other ≠ name := fun other hMem => by
        simpa using (List.mem_filter.mp hMem).2
      exact hOlder.concat (hKept (hApart first hFirst)) (hKept (hApart second hSecond))

theorem setting (name value : String) : Remembers (ops ++ [.set name value]) (m.set name value) := by
  have hKept : ∀ other, (MapOperation.set name value).removed? ≠ some other := fun other => nofun
  have hOlder : m.extra.keys.Pairwise (IsOlder (ops ++ [.set name value])) :=
    h.ordered.imp fun hOlder => hOlder.concat (hKept _) (hKept _)
  refine ⟨h.toIsSplit.set name value, fun other hNone => ?_, fun other hFound => ?_, ?_⟩
  · rw [get?_set] at hNone
    split at hNone
    · cases hNone
    · rename_i hApart
      refine isGone_concat (.inr ⟨h.gone other hNone, ?_⟩)
      rintro v ⟨⟩
      exact hApart rfl
  · by_cases hBefore : m.get? other = none
    · rw [get?_set, hBefore] at hFound
      split at hFound
      · rename_i hSame
        subst hSame
        exact ⟨_, setAfter_concat (h.gone other hBefore) value⟩
      · exact absurd rfl hFound
    · obtain ⟨time, hTime⟩ := h.since other hBefore
      exact ⟨time, hTime.concat (hKept other)⟩
  · rw [StyleMap.set]
    cases hName : Property.ofName? name with
    | some p => exact hOlder
    | none =>
      dsimp only
      rw [OrderedMap.keys_insert]
      split
      · exact hOlder
      · -- A name that is new is younger than all that are there.
        rename_i hNew
        have hNone : m.get? name = none := by
          rw [get?, hName]
          rwa [OrderedMap.mem_keys_iff, Option.not_isSome_iff_eq_none] at hNew
        refine List.pairwise_append.mpr ⟨hOlder, List.pairwise_singleton _ _, fun first hFirst second hSecond => ?_⟩
        obtain rfl := List.mem_singleton.mp hSecond
        obtain ⟨time, hTime⟩ := h.since first (h.get?_ne_none hFirst)
        exact ⟨time, ops.length, hTime.concat (hKept first), setAfter_concat (h.gone second hNone) value,
          hTime.lt_length⟩

theorem applied (op : MapOperation) : Remembers (ops ++ [op]) (op.applied m) := by
  cases op with
  | set name value => exact h.setting name value
  | delete name | pop name | popOr name => exact h.removing rfl
  | get | getOr | contains => exact h.keeping nofun rfl

end Remembers

theorem remembers_afterAll (ops : List MapOperation) : Remembers ops (afterAll ops) := by
  induction ops using List.reverseRecOn with
  | nil => exact remembers_empty
  | append_singleton ops op ih =>
    rw [afterAll, List.foldl_append, List.foldl_cons, List.foldl_nil, onStyle_eq]
    exact ih.applied op

/-- Whatever was done with a style map from the empty one on: what is done next it answers as the dictionary does
of which the same was asked, and it is refused for a name that has to have a value and has none, and only then,
without a trace. The known names are never among the others. The size is the number of names that have a value. Each
of these is yielded once, the known ones in their order, and behind them the others as they were first set since they
were last removed. -/
theorem refines_dictionary (ops : List MapOperation) :
    let m := afterAll ops
    let d := Dictionary.afterAll ops
    (∀ op, (outcome (perform op) m).mapError Key.name = outcome (Dictionary.perform op) d) ∧
    (∀ op k, outcome (perform op) m = .error k ↔
      ∃ name, op.demanded? = some name ∧ d name = none ∧ k = .ofName name) ∧
    (∀ op k, outcome (perform op) m = .error k → op.onStyle m = m) ∧
    (∀ name ∈ m.extra.keys, ∀ p : Property, p.name ≠ name) ∧
    m.size = m.names.length ∧ m.names.Nodup ∧ (∀ name, name ∈ m.names ↔ d name ≠ none) ∧
    (∀ name value, (name, value) ∈ m.items ↔ d name = some value) ∧
    m.names = ((Property.all.map Property.name).filter fun name => (d name).isSome) ++ m.extra.keys ∧
    m.extra.keys.Pairwise (IsOlder ops) := by
  intro m d
  have hSame : m.get? = d := get?_afterAll ops
  have h : Remembers ops m := remembers_afterAll ops
  have hAlike : ∀ op, (outcome (perform op) m).mapError Key.name = outcome (Dictionary.perform op) d := fun op =>
    hSame ▸ (perform_alike op m).1
  have hOrder : m.names = ((Property.all.map Property.name).filter fun name => (d name).isSome) ++ m.extra.keys :=
    hSame ▸ m.names_eq
  refine ⟨hAlike, fun op k => ?_, fun op k hRefused => ?_, fun name hMem => ?_, h.size_eq, h.nodup_names,
    fun name => hSame ▸ h.mem_names_iff, fun name value => hSame ▸ mem_items_iff h.toIsProper, hOrder, h.ordered⟩
  · rw [← hSame]
    exact refused_iff
  · obtain ⟨name, hName, hNone, -⟩ := refused_iff.mp hRefused
    rw [MapOperation.onStyle, stateAfter_of_error (perform_of_missing hName hNone).1]
  · exact Property.ofName?_eq_none_iff.mp (h.unknown name hMem)

-- A name that is set again keeps its place, and one that is removed in between comes last.
example :
    (afterAll [.set "top" "1px", .set "left" "2px", .set "right" "3px", .set "color" "red", .set "left" "4px",
      .delete "top", .set "top" "5px"]).names = ["color", "left", "right", "top"] := by
  decide

end StyleMap

end PageRender
