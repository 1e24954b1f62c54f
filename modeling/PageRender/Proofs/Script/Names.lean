import PageRender.Proofs.OrderedMap
import PageRender.Proofs.Script.Bodies

/-! # Names in calls

A name that a function does not bind itself is looked up among the globals, whoever calls the function.
Only while the callback of a timer runs, the scope in which the timer was set comes first: not for the
callback alone, but for every function that it calls, directly or not.
-/

namespace PageRender.OrderedMap

variable {κ ν : Type} [BEq κ] [LawfulBEq κ]

theorem mem_keys_of_get?_eq_some {m : OrderedMap κ ν} {k : κ} {v : ν} (h : m.get? k = some v) :
    k ∈ m.keys := by
  obtain ⟨l, r, hEntries, -⟩ := List.lookup_eq_some_iff.mp h
  rw [keys, hEntries]
  simp

theorem keys_insert_subset (m : OrderedMap κ ν) (k : κ) (v : ν) : (m.insert k v).keys ⊆ k :: m.keys := by
  intro a ha
  obtain ⟨e, he, rfl⟩ := List.mem_map.mp ha
  rcases mem_setEntry he with rfl | hMem
  · exact List.mem_cons_self
  · exact List.mem_cons_of_mem _ (List.mem_map_of_mem hMem)

end PageRender.OrderedMap

namespace PageRender.Script

/-- The names that a function binds: its parameters, what it remembers, and what its body sets. -/
def Closure.bound (c : Closure) : List String :=
  c.params ++ (c.snapshot.keys ++ Stmt.allSets c.body)

theorem Closure.keys_scope_subset (c : Closure) (args : List Value) :
    (c.scope args).keys ⊆ c.params ++ c.snapshot.keys := by
  have hFold : ∀ (l : List (String × Nat)) (m : Scope),
      (l.foldl (fun s e => s.insert e.1 ((args[e.2]?).getD .undefined)) m).keys ⊆
        l.map Prod.fst ++ m.keys := by
    intro l
    induction l with
    | nil => exact fun m => List.Subset.refl _
    | cons e l ih =>
      intro m a ha
      have hMem := ih _ ha
      rw [List.map_cons, List.cons_append]
      rcases List.mem_append.mp hMem with hParam | hKey
      · exact List.mem_cons_of_mem _ (List.mem_append_left _ hParam)
      · rcases List.mem_cons.mp (OrderedMap.keys_insert_subset _ _ _ hKey) with rfl | hOld
        · exact List.mem_cons_self
        · exact List.mem_cons_of_mem _ (List.mem_append_right _ hOld)
  have hParams : (c.params.zipIdx).map Prod.fst = c.params := by
    rw [List.zipIdx_map_fst]
  simpa only [Closure.scope, hParams] using hFold c.params.zipIdx c.snapshot

/-- The value of a name beyond the scope of a call: in the scope that the callback of a timer adds, if
one runs, and then among the globals. -/
def Realm.beyond? (r : Realm) (outer : Option Nat) (name : String) : Option Value :=
  (outer.bind fun o => (r.scope o).get? name).or (r.globals.get? name)

def readBeyond (outer : Option Nat) (name : String) : ScriptM Value := do
  match (← get).beyond? outer name with
  | some v => return v
  | none => raise (.unknownName name)

/-- Reads a name in the body of a function. One that the function does not bind is read beyond the
scope of the call. -/
def Closure.read (c : Closure) (outer : Option Nat) (name : String) : ScriptM Value :=
  if name ∈ c.bound then readName name else readBeyond outer name

/-- The surroundings of a body: what it calls is called with the same scope of a timer. -/
def Closure.surroundings (c : Closure) (outer : Option Nat) : Surroundings where
  read := c.read outer
  call n f args := callValue n f args outer

/-- A realm in which the body of a function is at work. -/
structure Within (names : List String) (scope : Nat) (outer : Option Nat) (r : Realm) : Prop where
  current : r.current = scope
  outer : r.outer = outer
  exists_scope : scope < r.scopes.size
  keys : (r.scope scope).keys ⊆ names

namespace Within

variable {names : List String} {scope : Nat} {outer : Option Nat} {r s : Realm}

theorem effects (h : Within names scope outer r) (hEffects : Effects false r s) :
    Within names scope outer s := by
  have hKeeps := hEffects.keepsScopes
  have hScope : s.scopes[scope]? = r.scopes[scope]? := hKeeps.scope scope h.exists_scope (by simp)
  refine ⟨hKeeps.current.trans h.current, hKeeps.outer.trans h.outer,
    Nat.lt_of_lt_of_le h.exists_scope hKeeps.scopes_size_le, ?_⟩
  rw [Realm.scope, hScope]
  exact h.keys

theorem setName (h : Within names scope outer r) {name : String} (hName : name ∈ names) (v : Value) :
    Within names scope outer (r.setName name v) := by
  have hScope : (r.setName name v).scope scope = (r.scope scope).insert name v := by
    rw [Realm.scope, Realm.scope, Realm.setName, Array.getElem?_modify, if_pos h.current,
      Array.getElem?_eq_getElem h.exists_scope]
    rfl
  refine ⟨h.current, h.outer, by simpa [Realm.setName] using h.exists_scope, ?_⟩
  rw [hScope]
  exact List.Subset.trans (OrderedMap.keys_insert_subset _ _ _) (List.cons_subset.mpr ⟨hName, h.keys⟩)

/-- What a body does not bind is not found in its scope. -/
theorem lookup? (h : Within names scope outer r) {name : String} (hName : name ∉ names) :
    r.lookup? name = r.beyond? outer name := by
  have hNone : (r.scope r.current).get? name = none := by
    rw [h.current]
    cases hFound : (r.scope scope).get? name with
    | none => rfl
    | some v => exact absurd (h.keys (OrderedMap.mem_keys_of_get?_eq_some hFound)) hName
  rw [Realm.lookup?, hNone, Option.none_or, h.outer]
  rfl

end Within

theorem within_enter (c : Closure) (args : List Value) (outer : Option Nat) (r : Realm) :
    Within c.bound r.scopes.size outer (r.enter (c.scope args) outer) := by
  have hScope : (r.enter (c.scope args) outer).scope r.scopes.size = c.scope args := by
    simp [Realm.scope, Realm.enter]
  refine ⟨rfl, rfl, by simp [Realm.enter], ?_⟩
  rw [hScope, Closure.bound, ← List.append_assoc]
  exact List.Subset.trans (c.keys_scope_subset args) (List.subset_append_left _ _)

theorem callValue_of_outer {outer : Option Nat} {r : Realm} (h : r.outer = outer) (n : Nat) (f : Value)
    (args : List Value) : callValue n f args none r = callValue n f args outer r := by
  cases n with
  | zero => rw [callValue, callValue]
  | succ n =>
    rw [callValue.eq_def, callValue.eq_def]
    cases f with
    | function id =>
      have hOr : (none : Option Nat).or r.outer = outer.or r.outer := by
        rw [h, Option.none_or, Option.or_self]
      dsimp only
      rw [get_bind, get_bind, hOr]
    | _ => rfl

theorem Closure.fits_surroundings (c : Closure) (scope : Nat) (outer : Option Nat) :
    (c.surroundings outer).Fits (Within c.bound scope outer) c.bound where
  effects _ _ h hEffects := h.effects hEffects
  setName _ _ v h hName := h.setName hName v
  read name r h := by
    change readName name r = c.read outer name r
    rw [Closure.read]
    split
    · rfl
    · rename_i hName
      exact congrArg (fun found : Option Value =>
        (match found with | some v => pure v | none => raise (.unknownName name) : ScriptM Value) r)
        (h.lookup? hName)
  call n f args r h := callValue_of_outer h.outer n f args

/-- A body that is evaluated in the scope of its call reads the names that its function does not bind
beyond that scope. -/
theorem inScope_surroundings (c : Closure) (args : List Value) (outer : Option Nat) (n : Nat) :
    inScope (c.scope args) outer (execAll n .undefined c.body) =
      inScope (c.scope args) outer ((c.surroundings outer).execAll n .undefined c.body) := by
  funext r
  have hSets : Stmt.allSets c.body ⊆ c.bound :=
    List.Subset.trans (List.subset_append_right _ _) (List.subset_append_right _ _)
  have hAlike := ((c.fits_surroundings r.scopes.size outer).alike n).execAll .undefined c.body hSets
  rw [inScope_apply, inScope_apply, (hAlike _ (within_enter c args outer r)).1]

/-- In a call, a name that the function does not bind is looked up in the scope of the timer whose
callback runs, if one runs, and then among the globals as they are by then; it is an error if neither
binds it. The functions that are called in turn are called with the same scope of a timer. -/
theorem names_beyond_call {r : Realm} {id : Nat} {c : Closure} (hClosure : r.closures[id]? = some c)
    (hDepth : r.depth < maxDepth) (n : Nat) (args : List Value) (timerScope : Option Nat) :
    let outer := timerScope.or r.outer
    callValue (n + 1) (.function id) args timerScope r =
      (do return (← inScope (c.scope args) outer
        ((c.surroundings outer).execAll n .undefined c.body)).result : ScriptM Value) r ∧
    ∀ name ∉ c.bound, ∀ s : Realm, c.read outer name s =
      match (outer.bind fun o => (s.scope o).get? name).or (s.globals.get? name) with
      | some v => .ok v s
      | none => .error (.error (.unknownName name)) s := by
  intro outer
  refine ⟨?_, ?_⟩
  · rw [← inScope_surroundings, callValue.eq_def]
    dsimp only
    rw [get_bind, hClosure]
    dsimp only
    rw [if_neg (Nat.not_le.mpr hDepth)]
  · intro name hName s
    rw [Closure.read, if_neg hName, readBeyond, get_bind, Realm.beyond?]
    cases (outer.bind fun o => (s.scope o).get? name).or (s.globals.get? name) <;> rfl

theorem names_beyond_call_sample :
    let c : Closure := ⟨["a"], [.returns (some (.name "x"))], .empty, some "g"⟩
    let r : Realm := { closures := #[c] }
    r.closures[0]? = some c ∧ r.depth < maxDepth ∧ "x" ∉ c.bound ∧
      callValue 9 (.function 0) [] none r =
        (do return (← inScope (c.scope []) none
          ((c.surroundings none).execAll 8 .undefined c.body)).result : ScriptM Value) r ∧
      c.read none "x" r = .error (.error (.unknownName "x")) r := by
  intro c r
  have hName : "x" ∉ c.bound := by decide
  have hClosure : r.closures[0]? = some c := rfl
  obtain ⟨hCall, hRead⟩ := names_beyond_call hClosure (by decide) 8 [] none
  exact ⟨hClosure, by decide, hName, hCall, hRead "x" hName r⟩

/-- A function that is called by the callback of a timer sees the variables of whoever set the timer:
`x` is neither bound by `g` nor a global, and `g` finds it all the same. -/
theorem timer_scope_seen_in_calls :
    let source := "function g() \x7b return x \x7d " ++
      "function h() \x7b var x = 'hidden'; setTimeout(function () \x7b console.log(g()) \x7d) \x7d h()"
    let r := stateAfter (runScript source "") (Realm.forPage {})
    let s := stateAfter runPending (r.onPage (·.fire 0))
    (r.globals.get? "x").isNone ∧
      (r.closures[0]?.any fun c => c.name == some "g" && !c.bound.contains "x") ∧
      s.page.console = ["hidden"] := by
  decide +kernel

end PageRender.Script
