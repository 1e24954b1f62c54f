import PageRender.Proofs.Script.Names

/-! # The own name of a function

A function remembers the scope it was declared in as that was before its own name was set. In a call the name
is found there if it was bound before, with the value it had by then. If it was not, it is found among the
globals, and as long as these hold the function it stands for the function itself, in a call at any depth.
-/

namespace PageRender.Script

/-! ## Realms that come later -/

/-- What a realm comes to: by evaluation, inside of the calls that this makes, and by what its host does to
the page in between. -/
inductive Realm.Later : Realm → Realm → Prop
  | refl {r : Realm} : Later r r
  | evaluation {r s t : Realm} {own : Bool} (before : Later r s) (h : Effects own s t) : Later r t
  | call {r s : Realm} (before : Later r s) (scope : Scope) (outer : Option Nat) :
      Later r (s.enter scope outer)
  | host {r s : Realm} (before : Later r s) (page : Page) : Later r { s with page }

theorem Realm.Later.closure {r s : Realm} (h : r.Later s) :
    r.closures.size ≤ s.closures.size ∧ ∀ i < r.closures.size, s.closures[i]? = r.closures[i]? := by
  induction h with
  | refl => exact ⟨Nat.le_refl _, fun _ _ => rfl⟩
  | evaluation before h ih =>
    obtain ⟨hSize, hSame⟩ := ih
    have hKeeps := h.keepsScopes
    refine ⟨Nat.le_trans hSize hKeeps.closures_size_le, fun i hi => ?_⟩
    rw [hKeeps.closure i (Nat.lt_of_lt_of_le hi hSize), hSame i hi]
  | call before scope outer ih => exact ih
  | host before page ih => exact ih

theorem Realm.scope_setName {r : Realm} (h : r.current < r.scopes.size) (name : String) (v : Value) (i : Nat) :
    (r.setName name v).scope i = if r.current = i then (r.scope i).insert name v else r.scope i := by
  rw [Realm.scope, Realm.scope, Realm.setName, Array.getElem?_modify]
  split
  · rename_i hEq
    subst hEq
    rw [Array.getElem?_eq_getElem h]
    rfl
  · rfl

/-- The globals hold the function under the name, and the scope of a timer holds nothing else under it. -/
structure Realm.Answers (r : Realm) (outer : Option Nat) (name : String) (id : Nat) : Prop where
  globals : r.globals.get? name = some (.function id)
  outer : ∀ o, outer = some o →
    o < r.scopes.size ∧ ∀ v, (r.scope o).get? name = some v → v = .function id

theorem Realm.Answers.exists_scope {r : Realm} {outer : Option Nat} {name : String} {id : Nat}
    (h : r.Answers outer name id) : 0 < r.scopes.size := by
  by_contra hNone
  have hGlobals := h.globals
  rw [Realm.globals, Realm.scope, Array.getElem?_eq_none (Nat.le_of_not_lt hNone)] at hGlobals
  cases hGlobals

/-! ## Bodies that read the own name -/

namespace Closure

/-- What the own name stands for in a call: the value that the function remembers, or the function. -/
def ownValue (c : Closure) (name : String) (id : Nat) : Value :=
  (c.snapshot.get? name).getD (.function id)

/-- Calls the function with surroundings for its body. There are no more than so many calls in each other. -/
def callIn (c : Closure) (w : Surroundings) (n : Nat) (args : List Value) (timerScope : Option Nat) :
    ScriptM Value := do
  let r ← get
  if maxDepth ≤ r.depth then raise .stackExceeded
  else return (← inScope (c.scope args) (timerScope.or r.outer) (w.execAll n .undefined c.body)).result

/-- Surroundings in which a reference to the own name is answered without a look at any scope: in the body,
and in the bodies of the calls that the function makes of itself, down to a number of levels. -/
def recursing (c : Closure) (name : String) (id : Nat) : Nat → Surroundings
  | 0 => {
    read := fun x => if x = name then return c.ownValue name id else readName x
    call := fun n f args => callValue n f args none }
  | levels + 1 => {
    read := fun x => if x = name then return c.ownValue name id else readName x
    call := fun
      | n + 1, .function k, args =>
        if k = id then c.callIn (c.recursing name id levels) n args none
        else callValue (n + 1) (.function k) args none
      | n, f, args => callValue n f args none }

theorem get?_scope_of_notMem {c : Closure} {name : String} (h : name ∉ c.params) (args : List Value) :
    (c.scope args).get? name = c.snapshot.get? name := by
  have hFold : ∀ (l : List (String × Nat)) (s : Scope), name ∉ l.map Prod.fst →
      (l.foldl (fun s e => s.insert e.1 ((args[e.2]?).getD .undefined)) s).get? name = s.get? name := by
    intro l
    induction l with
    | nil => exact fun s _ => rfl
    | cons e l ih =>
      intro s hNone
      rw [List.map_cons, List.mem_cons, not_or] at hNone
      rw [List.foldl_cons, ih _ hNone.2, OrderedMap.get?_insert, if_neg (by simpa using hNone.1)]
  refine hFold c.params.zipIdx c.snapshot ?_
  rwa [List.zipIdx_map_fst]

end Closure

/-- A realm in which a body is at work that does not bind the own name of its function anew: the name has
in the scope of the call what the function remembers of it, and the globals are those of the call. -/
structure AtWork (c : Closure) (name : String) (id scope : Nat) (outer : Option Nat) (r : Realm) : Prop where
  current : r.current = scope
  exists_scope : scope < r.scopes.size
  remembered : (r.scope scope).get? name = c.snapshot.get? name
  closure : r.closures[id]? = some c
  answers : r.Answers outer name id
  inside : 0 < scope ∧ ∀ o, outer = some o → o < scope
  outer : r.outer = outer

namespace AtWork

variable {c : Closure} {name : String} {id scope : Nat} {outer : Option Nat} {r s : Realm}

theorem of_scopes (h : AtWork c name id scope outer r) (hCurrent : s.current = r.current)
    (hOuter : s.outer = r.outer) (hSize : r.scopes.size ≤ s.scopes.size)
    (hScope : (s.scope scope).get? name = (r.scope scope).get? name)
    (hOthers : ∀ i < scope, s.scope i = r.scope i) (hClosure : s.closures[id]? = r.closures[id]?) :
    AtWork c name id scope outer s where
  current := hCurrent.trans h.current
  exists_scope := Nat.lt_of_lt_of_le h.exists_scope hSize
  outer := hOuter.trans h.outer
  remembered := hScope.trans h.remembered
  closure := hClosure.trans h.closure
  answers := by
    constructor
    · rw [Realm.globals, hOthers 0 h.inside.1]
      exact h.answers.globals
    · intro o ho
      obtain ⟨hLt, hOnly⟩ := h.answers.outer o ho
      rw [hOthers o (h.inside.2 o ho)]
      exact ⟨Nat.lt_of_lt_of_le hLt hSize, hOnly⟩
  inside := h.inside

theorem effects (h : AtWork c name id scope outer r) (hEffects : Effects false r s) :
    AtWork c name id scope outer s := by
  have hKeeps := hEffects.keepsScopes
  have hSame : ∀ i < r.scopes.size, s.scope i = r.scope i := by
    intro i hi
    rw [Realm.scope, Realm.scope, hKeeps.scope i hi (by simp)]
  have hClosure : id < r.closures.size := (Array.getElem?_eq_some_iff.mp h.closure).1
  exact h.of_scopes hKeeps.current hKeeps.outer hKeeps.scopes_size_le (by rw [hSame scope h.exists_scope])
    (fun i hi => hSame i (Nat.lt_trans hi h.exists_scope)) (hKeeps.closure id hClosure)

theorem setName (h : AtWork c name id scope outer r) {other : String} (hOther : other ≠ name) (v : Value) :
    AtWork c name id scope outer (r.setName other v) := by
  have hScope : ∀ i, (r.setName other v).scope i =
      if scope = i then (r.scope i).insert other v else r.scope i := by
    intro i
    rw [Realm.scope_setName (h.current ▸ h.exists_scope), h.current]
  refine h.of_scopes rfl rfl (Nat.le_of_eq (by simp [Realm.setName])) ?_ (fun i hi => ?_) rfl
  · rw [hScope, if_pos rfl, OrderedMap.get?_insert, if_neg (by simpa using hOther.symm)]
  · rw [hScope, if_neg (Nat.ne_of_gt hi)]

/-- Where a body is at work, the own name of its function is answered alike by all scopes that may answer. -/
theorem readName (h : AtWork c name id scope outer r) :
    Script.readName name r = .ok (c.ownValue name id) r := by
  have hBeyond : (outer.bind fun o => (r.scope o).get? name).or (r.globals.get? name) =
      some (.function id) := by
    rw [h.answers.globals, Option.or_some]
    congr 1
    cases hFound : outer.bind fun o => (r.scope o).get? name with
    | none => rfl
    | some v =>
      obtain ⟨o, ho, hGet⟩ := Option.bind_eq_some_iff.mp hFound
      exact (h.answers.outer o ho).2 v hGet
  have hLookup : r.lookup? name = some (c.ownValue name id) := by
    rw [Realm.lookup?, h.current, h.outer, h.remembered]
    change (c.snapshot.get? name).or
      ((outer.bind fun o => (r.scope o).get? name).or (r.globals.get? name)) = _
    rw [hBeyond, Option.or_some, Closure.ownValue]
  rw [Script.readName, get_bind, hLookup]
  rfl

end AtWork

theorem atWork_enter {c : Closure} {name : String} {id : Nat} {r : Realm} {outer : Option Nat}
    (hParams : name ∉ c.params) (hClosure : r.closures[id]? = some c) (hAnswers : r.Answers outer name id)
    (args : List Value) :
    AtWork c name id r.scopes.size outer (r.enter (c.scope args) outer) := by
  have hOld : ∀ i < r.scopes.size, (r.enter (c.scope args) outer).scope i = r.scope i := by
    intro i hi
    rw [Realm.scope, Realm.scope, Realm.enter, Array.getElem?_push_lt hi, Array.getElem?_eq_getElem hi]
  have hNew : (r.enter (c.scope args) outer).scope r.scopes.size = c.scope args := by
    simp [Realm.scope, Realm.enter]
  have hSize : (r.enter (c.scope args) outer).scopes.size = r.scopes.size + 1 := by simp [Realm.enter]
  refine ⟨rfl, by omega, ?_, hClosure, ⟨?_, fun o ho => ?_⟩, ⟨hAnswers.exists_scope,
    fun o ho => (hAnswers.outer o ho).1⟩, rfl⟩
  · rw [hNew, Closure.get?_scope_of_notMem hParams]
  · rw [Realm.globals, hOld 0 hAnswers.exists_scope]
    exact hAnswers.globals
  · obtain ⟨hLt, hOnly⟩ := hAnswers.outer o ho
    rw [hOld o hLt]
    exact ⟨by omega, hOnly⟩

/-- A call of the function is its body with surroundings that fit the realms in which it is at work. -/
theorem callValue_eq_callIn {c : Closure} {name : String} {id : Nat} {w : Surroundings}
    (hParams : name ∉ c.params)
    (hFits : ∀ scope outer, w.Fits (AtWork c name id scope outer) (Stmt.allSets c.body)) {r : Realm}
    (hClosure : r.closures[id]? = some c) {timerScope : Option Nat}
    (hAnswers : r.Answers (timerScope.or r.outer) name id) (n : Nat) (args : List Value) :
    callValue (n + 1) (.function id) args timerScope r = c.callIn w n args timerScope r := by
  have hBody : inScope (c.scope args) (timerScope.or r.outer) (execAll n .undefined c.body) r =
      inScope (c.scope args) (timerScope.or r.outer) (w.execAll n .undefined c.body) r := by
    have hAlike := ((hFits r.scopes.size (timerScope.or r.outer)).alike n).execAll .undefined c.body
      (List.Subset.refl _)
    rw [inScope_apply, inScope_apply, (hAlike _ (atWork_enter hParams hClosure hAnswers args)).1]
  rw [callValue.eq_def, Closure.callIn]
  dsimp only
  rw [get_bind, get_bind, hClosure]
  dsimp only
  split
  · rfl
  · simp only [bind, EStateM.bind, hBody]

theorem Closure.call_recursing {c : Closure} {name : String} {id levels n : Nat} {f : Value}
    {args : List Value} {r : Realm}
    (hRecursive : ∀ m, callValue (m + 1) (.function id) args none r =
      c.callIn (c.recursing name id levels) m args none r) :
    callValue n f args none r = (c.recursing name id (levels + 1)).call n f args r := by
  cases n with
  | zero => cases f <;> rfl
  | succ n =>
    cases f with
    | function k =>
      change _ = (if k = id then c.callIn (c.recursing name id levels) n args none
        else callValue (n + 1) (.function k) args none) r
      split
      · rename_i hEq
        rw [hEq, hRecursive n]
      · rfl
    | _ => rfl

theorem AtWork.read_recursing {c : Closure} {name : String} {id scope : Nat} {outer : Option Nat} {r : Realm}
    (h : AtWork c name id scope outer r) (levels : Nat) (x : String) :
    Script.readName x r = (c.recursing name id levels).read x r := by
  have hRead : (c.recursing name id levels).read x =
      if x = name then pure (c.ownValue name id) else Script.readName x := by
    cases levels <;> rfl
  rw [hRead]
  split
  · rename_i hEq
    rw [hEq, h.readName]
    rfl
  · rfl

theorem Closure.fits_recursing {c : Closure} {name : String} (hParams : name ∉ c.params)
    (hBody : name ∉ Stmt.allSets c.body) (id levels scope : Nat) (outer : Option Nat) :
    (c.recursing name id levels).Fits (AtWork c name id scope outer) (Stmt.allSets c.body) := by
  -- One level more: the calls that the body makes of the function are those of the level before.
  induction levels generalizing scope outer with
  | zero =>
    exact ⟨fun _ _ h hEffects => h.effects hEffects,
      fun _ _ v h hOther => h.setName (fun hEq => hBody (hEq ▸ hOther)) v,
      fun x _ h => h.read_recursing 0 x, fun _ _ _ _ _ => rfl⟩
  | succ levels ih =>
    refine ⟨fun _ _ h hEffects => h.effects hEffects,
      fun _ _ v h hOther => h.setName (fun hEq => hBody (hEq ▸ hOther)) v,
      fun x _ h => h.read_recursing (levels + 1) x, fun n f args r h => ?_⟩
    refine Closure.call_recursing fun m => callValue_eq_callIn hParams (fun scope outer => ih scope outer)
      h.closure ?_ m args
    rw [Option.none_or, h.outer]
    exact h.answers

/-- A function that is declared at top level, and whose parameters and body do not bind its name. Whatever
happens after, in a call made while the globals hold the function (and the scope of a timer nothing else) a
reference to the name in the body stands for what the globals held before the declaration. If that was
nothing, it stands for the function itself, and so in the calls that the body makes of it, down to any level,
up to the limit on calls in each other. -/
theorem own_name_in_calls {r : Realm} (hTop : r.current = 0) (hGlobals : 0 < r.scopes.size) {name : String}
    {params : List String} {body : List Stmt} (hParams : name ∉ params) (hBody : name ∉ Stmt.allSets body)
    (n : Nat) :
    let id := r.closures.size
    let c : Closure := ⟨params, body, r.globals, some name⟩
    ∃ s, exec (n + 1) (.function name params body) r = .ok (.value .undefined) s ∧
      s.globals.get? name = some (.function id) ∧
      (c.ownValue name id = match r.globals.get? name with
        | none => .function id
        | some former => former) ∧
      ∀ t, s.Later t → ∀ timerScope, t.Answers (timerScope.or t.outer) name id → ∀ levels m args,
        callValue (m + 1) (.function id) args timerScope t =
          c.callIn (c.recursing name id levels) m args timerScope t := by
  intro id c
  have hSnapshot : r.scope r.current = r.globals := by rw [hTop]; rfl
  refine ⟨((r.addClosure params body (some name)).1).setName name (.function id), ?_, ?_, ?_, ?_⟩
  · rw [exec.eq_def]
    rfl
  · have hDeclaring : (r.addClosure params body (some name)).1.current = 0 := hTop
    rw [Realm.globals, Realm.scope_setName (hDeclaring.symm ▸ hGlobals), if_pos hDeclaring,
      OrderedMap.get?_insert, if_pos (beq_self_eq_true name)]
  · rw [Closure.ownValue]
    cases r.globals.get? name <;> rfl
  · intro t hLater timerScope hAnswers levels m args
    have hDeclared : (((r.addClosure params body (some name)).1).setName name (.function id)).closures =
        r.closures.push c := by
      rw [Realm.setName, Realm.addClosure, hSnapshot]
    have hClosure : t.closures[id]? = some c := by
      rw [hLater.closure.2 id (by rw [hDeclared, Array.size_push]; exact Nat.lt_succ_self _), hDeclared]
      exact Array.getElem?_push_size
    exact callValue_eq_callIn hParams (fun scope outer => c.fits_recursing hParams hBody id levels scope outer)
      hClosure hAnswers m args

theorem own_name_in_calls_sample :
    let r : Realm := {}
    let body : List Stmt := [.returns (some (.name "f"))]
    let c : Closure := ⟨[], body, .empty, some "f"⟩
    r.current = 0 ∧ 0 < r.scopes.size ∧ "f" ∉ ([] : List String) ∧ "f" ∉ Stmt.allSets body ∧
      ∃ s, exec 1 (.function "f" [] body) r = .ok (.value .undefined) s ∧ s.Answers none "f" 0 ∧
        callValue 9 (.function 0) [] none s = c.callIn (c.recursing "f" 0 4) 8 [] none s := by
  intro r body c
  have hBody : "f" ∉ Stmt.allSets body := by decide
  have hParams : "f" ∉ ([] : List String) := by decide
  obtain ⟨s, hDeclared, hHeld, -, hCalls⟩ := own_name_in_calls (r := r) rfl (by decide) hParams hBody 0
  have hAnswers : s.Answers none "f" 0 := ⟨hHeld, fun o ho => nomatch ho⟩
  have hOuter : s.outer = none := by
    have hRun : exec 1 (.function "f" [] body) r = .ok (.value .undefined) s := hDeclared
    rw [exec.eq_def] at hRun
    cases hRun
    rfl
  refine ⟨rfl, by decide, hParams, hBody, s, hDeclared, hAnswers, ?_⟩
  exact hCalls s .refl none (by rw [hOuter]; exact hAnswers) 4 8 []

/-- A function whose name was bound before its declaration does not find itself under the name, although the
globals hold it: it finds what they held before. -/
theorem former_value_found_in_call :
    let r := stateAfter (runScript "var f = 'old'; function f() \x7b return f \x7d console.log(f())" "")
      (Realm.forPage {})
    (match r.globals.get? "f" with | some (.function 0) => true | _ => false) = true ∧
      (r.closures[0]?.any fun c => c.params.isEmpty && !(Stmt.allSets c.body).contains "f") = true ∧
      r.page.console = ["old"] := by
  decide +kernel

end PageRender.Script
