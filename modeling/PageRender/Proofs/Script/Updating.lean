import PageRender.Proofs.Script.Compositions

/-! # Updates of properties

An update reads a property and sets it. It evaluates the object and the key for each of these, so natives
in them are called for both, and what is set need not be what was read. Where the target only reads, this
makes no difference: the update is what it would be if the target were evaluated once.
-/

namespace PageRender.Script

/-- What selects a property of an object: a name, or an expression for one. -/
inductive Key where
  | named (name : String)
  | computed (key : Expr)

namespace Key

def target (object : Expr) : Key → Target
  | named name => .member object name
  | computed key => .index object key

end Key

/-- Evaluates the object and then the key of a target. -/
def locate (n : Nat) (object : Expr) : Key → ScriptM (Value × String)
  | .named name => do return (← eval n object, name)
  | .computed key => do
    let base ← eval n object
    return (base, ← textOf (← eval n key))

/-- Reads a property and sets it, at a place that may be looked for again before it is set. -/
def updateAt (op : UpdateOp) (before : Bool) (place : ScriptM (Value × String))
    (again : Value × String → ScriptM (Value × String)) : ScriptM Value := do
  let p ← place
  let old := (← property p.1 p.2).toNumber
  let q ← again p
  setProperty q.1 q.2 (.number (updated op old))
  return .number (if before then updated op old else old)

/-- An update that evaluates the object and the key of its target once. -/
def updateOnce (n : Nat) (op : UpdateOp) (object : Expr) (key : Key) (before : Bool) : ScriptM Value :=
  updateAt op before (locate n object key) pure

theorem eval_target (n : Nat) (object : Expr) (key : Key) :
    eval (n + 1) (key.target object).toExpr = locate n object key >>= fun p => property p.1 p.2 := by
  cases key with
  | named name =>
    rw [Key.target, Target.toExpr, eval, locate, bind_assoc]
    simp only [pure_bind]
  | computed key =>
    rw [Key.target, Target.toExpr, eval, locate]
    simp only [bind_assoc, pure_bind]

theorem store_target (n : Nat) (object : Expr) (key : Key) (v : Value) :
    store (n + 1) (key.target object) v = locate n object key >>= fun p => setProperty p.1 p.2 v := by
  cases key with
  | named name =>
    rw [Key.target, store, locate, bind_assoc]
    simp only [pure_bind]
  | computed key =>
    rw [Key.target, store, locate]
    simp only [bind_assoc, pure_bind]

theorem eval_update_eq (n : Nat) (op : UpdateOp) (object : Expr) (key : Key) (before : Bool) :
    eval (n + 2) (.update op (key.target object) before) =
      updateAt op before (locate n object key) fun _ => locate n object key := by
  rw [eval, eval_target, updateAt]
  simp only [store_target, bind_assoc]

/-! ## Calls of natives -/

/-- From one realm to another these natives of the environment are called, in this order. -/
def Realm.Calls (r : Realm) (calls : List ExternalCall) (s : Realm) : Prop :=
  s.externalCalls = r.externalCalls ++ calls

theorem Realm.Calls.trans {r s t : Realm} {calls calls' : List ExternalCall} (h : r.Calls calls s)
    (h' : s.Calls calls' t) : r.Calls (calls ++ calls') t := by
  rw [Calls, h', h, List.append_assoc]

theorem Realm.calls_nil_iff {r s : Realm} : r.Calls [] s ↔ s.externalCalls = r.externalCalls := by
  rw [Calls, List.append_nil]

theorem Effects.exists_calls {own : Bool} {r s : Realm} (h : Effects own r s) : ∃ calls, r.Calls calls s := by
  induction h with
  | refl r => exact ⟨[], (List.append_nil _).symm⟩
  | trans _ _ ih ih' =>
    obtain ⟨calls, hCalls⟩ := ih
    obtain ⟨calls', hCalls'⟩ := ih'
    exact ⟨calls ++ calls', hCalls.trans hCalls'⟩
  | external r call => exact ⟨[call], rfl⟩
  | call r scope outer body ih => exact ih
  | name | closure | native | newObject | object | page => exact ⟨[], (List.append_nil _).symm⟩

theorem leads_locate (n : Nat) (object : Expr) (key : Key) : Leads (Effects true) (locate n object key) := by
  have hEval := (evaluationLeads n).eval
  cases key with
  | named name => exact (hEval object).bind fun base => .pure _
  | computed key =>
    exact (hEval object).bind fun base => (hEval key).bind fun v => (leads_effects.textOf v).bind fun name => .pure _

/-- The names under which an element has functions. A function is made anew whenever it is read. -/
def methodNames : List String :=
  ["getAttribute", "setAttribute", "addEventListener", "click"]

/-- Whether a property is a function of an element. -/
def IsMethod (base : Value) (name : String) : Prop :=
  (∃ node, base = .element node) ∧ name ∈ methodNames

theorem leads_stringProperty (t name : String) : Leads Eq (stringProperty t name) := by
  rw [stringProperty]
  split
  · exact .pure _
  split
  · split
    · exact .throw _
    · split <;> exact .pure _
  · exact .pure _

theorem elementProperty_eq_ok {node : NodeId} {name : String} {v : Value} {r s : Realm}
    (h : elementProperty node name r = .ok v s) :
    s = r ∨ name ∈ methodNames ∧ s = { r with natives := r.natives + 1 } := by
  rw [elementProperty, get_bind] at h
  split at h
  all_goals cases h
  all_goals first
    | exact .inl rfl
    | exact .inr ⟨by decide, rfl⟩

theorem property_eq_ok {base v : Value} {name : String} {r s : Realm} (h : property base name r = .ok v s) :
    s = r ∨ IsMethod base name ∧ s = { r with natives := r.natives + 1 } := by
  cases base with
  | undefined | null => cases h
  | string t => exact .inl ((leads_stringProperty t name).of_ok h).symm
  | element node => exact (elementProperty_eq_ok h).imp_right fun ⟨hName, hAfter⟩ => ⟨⟨⟨node, rfl⟩, hName⟩, hAfter⟩
  | object | boolean | number | function | native =>
    cases h
    exact .inl rfl

theorem calls_of_property_eq_ok {base v : Value} {name : String} {r s : Realm}
    (h : property base name r = .ok v s) : r.Calls [] s := by
  rw [Realm.calls_nil_iff]
  rcases property_eq_ok h with rfl | ⟨-, rfl⟩ <;> rfl

theorem leads_setElementProperty (node : NodeId) (name : String) (v : Value) :
    Leads (Realm.Calls · []) (setElementProperty node name v) := by
  refine .get fun r => ?_
  rw [Realm.calls_nil_iff]
  dsimp only
  split <;> rfl

theorem leads_setProperty (base : Value) (name : String) (v : Value) :
    Leads (Realm.Calls · []) (setProperty base name v) := by
  cases base with
  | element node => exact leads_setElementProperty node name v
  | undefined | null | object | boolean | number | string | function | native =>
    exact fun r => Realm.calls_nil_iff.mpr rfl

/-! ## Targets that stay where they are -/

/-- After the property was read, it is found again where it was, and nothing happens on the way. -/
def StaysPut (n : Nat) (object : Expr) (key : Key) (r : Realm) : Prop :=
  ∀ place r₁ old r₂, locate n object key r = .ok place r₁ → property place.1 place.2 r₁ = .ok old r₂ →
    locate n object key r₂ = .ok place r₂

theorem updateAt_of_staysPut {n : Nat} {object : Expr} {key : Key} {r : Realm} (h : StaysPut n object key r)
    (op : UpdateOp) (before : Bool) :
    updateAt op before (locate n object key) (fun _ => locate n object key) r =
      updateOnce n op object key before r := by
  rw [updateOnce, updateAt, updateAt]
  cases hLocated : locate n object key r with
  | error e s => rw [bind_error hLocated, bind_error hLocated]
  | ok place r₁ =>
    rw [bind_ok hLocated, bind_ok hLocated]
    cases hRead : property place.1 place.2 r₁ with
    | error e s => rw [bind_error hRead, bind_error hRead]
    | ok old r₂ =>
      rw [bind_ok hRead, bind_ok hRead, bind_ok (h place r₁ old r₂ hLocated hRead), pure_bind]

/-- An expression that leaves a realm as it is, whatever supply of steps it has. -/
def OnlyReads (r : Realm) (e : Expr) : Prop :=
  ∀ n v s, eval n e r = .ok v s → s = r

theorem eq_of_locate_eq_ok {n : Nat} {object : Expr} {key : Key} {r s : Realm} {place : Value × String}
    (hObject : OnlyReads r object) (hKey : ∀ e, key = .computed e → OnlyReads r e)
    (h : locate n object key r = .ok place s) : s = r := by
  cases key with
  | named name =>
    obtain ⟨base, s', hBase, hRest⟩ := exists_of_bind_eq_ok h
    cases hRest
    exact hObject n base _ hBase
  | computed e =>
    obtain ⟨base, s', hBase, hRest⟩ := exists_of_bind_eq_ok h
    obtain rfl := hObject n base s' hBase
    obtain ⟨v, s'', hValue, hName⟩ := exists_of_bind_eq_ok hRest
    obtain rfl := hKey e rfl n v s'' hValue
    obtain ⟨name, s₃, hText, hPlace⟩ := exists_of_bind_eq_ok hName
    cases hText
    cases hPlace
    rfl

/-- An expression that only reads: names, operators and properties, but no function of an element. -/
inductive Steady (r : Realm) : Expr → Prop
  | literal (l : Literal) : Steady r (.literal l)
  | name (name : String) : Steady r (.name name)
  | unary (op : UnaryOp) {operand : Expr} (h : Steady r operand) : Steady r (.unary op operand)
  | binary (op : BinaryOp) {left right : Expr} (hLeft : Steady r left) (hRight : Steady r right) :
      Steady r (.binary op left right)
  | member {object : Expr} {name : String} (hObject : Steady r object)
      (hValue : ∀ n place s, locate n object (.named name) r = .ok place s → ¬IsMethod place.1 place.2) :
      Steady r (.member object name)
  | index {object key : Expr} (hObject : Steady r object) (hKey : Steady r key)
      (hValue : ∀ n place s, locate n object (.computed key) r = .ok place s → ¬IsMethod place.1 place.2) :
      Steady r (.index object key)

theorem leads_readName (name : String) : Leads Eq (readName name) := by
  refine .get fun r => ?_
  split <;> rfl

theorem leads_binaryValue (op : BinaryOp) (a b : Value) : Leads Eq (binaryValue op a b) := by
  have hText : ∀ (v : Value) (f : String → Value), Leads Eq (do return f (← textOf v)) := fun v f r => rfl
  unfold binaryValue
  cases op with
  | add =>
    dsimp only
    split
    · exact hText _ _
    · exact hText _ _
    · exact .pure _
  | less | greater =>
    dsimp only
    split <;> exact .pure _
  | equal | notEqual | subtract | multiply | divide => exact .pure _

theorem eq_of_property_eq_ok {place : Value × String} {v : Value} {r s : Realm}
    (h : property place.1 place.2 r = .ok v s) (hValue : ¬IsMethod place.1 place.2) : s = r :=
  (property_eq_ok h).resolve_right fun hMethod => hValue hMethod.1

theorem reads_target {r : Realm} {object : Expr} {key : Key} (hObject : OnlyReads r object)
    (hKey : ∀ e, key = .computed e → OnlyReads r e)
    (hValue : ∀ n place s, locate n object key r = .ok place s → ¬IsMethod place.1 place.2) :
    OnlyReads r (key.target object).toExpr := by
  intro n v s h
  cases n with
  | zero => cases h
  | succ n =>
    rw [eval_target] at h
    obtain ⟨place, s', hPlace, hRead⟩ := exists_of_bind_eq_ok h
    obtain rfl := eq_of_locate_eq_ok hObject hKey hPlace
    exact eq_of_property_eq_ok hRead (hValue n place _ hPlace)

theorem Steady.reads {r : Realm} {e : Expr} (h : Steady r e) : OnlyReads r e := by
  induction h with
  | literal l =>
    intro n v s h
    cases n <;> cases h
    rfl
  | name name =>
    intro n v s h
    cases n with
    | zero => cases h
    | succ n =>
      rw [eval] at h
      exact ((leads_readName name).of_ok h).symm
  | unary op _ ih =>
    intro n v s h
    cases n with
    | zero => cases h
    | succ n =>
      rw [eval] at h
      obtain ⟨w, s', hOperand, hRest⟩ := exists_of_bind_eq_ok h
      cases hRest
      exact ih n w _ hOperand
  | binary op _ _ ihLeft ihRight =>
    intro n v s h
    cases n with
    | zero => cases h
    | succ n =>
      rw [eval] at h
      obtain ⟨a, s', hLeft, hRest⟩ := exists_of_bind_eq_ok h
      obtain rfl := ihLeft n a s' hLeft
      obtain ⟨b, s'', hRight, hValue⟩ := exists_of_bind_eq_ok hRest
      obtain rfl := ihRight n b s'' hRight
      exact ((leads_binaryValue op a b).of_ok hValue).symm
  | @member object name _ hValue ih =>
    have hKey : ∀ e, Key.named name = .computed e → OnlyReads r e := by
      intro e he
      cases he
    exact reads_target ih hKey hValue
  | @index object key _ _ hValue ihObject ihKey =>
    have hKey : ∀ e, Key.computed key = .computed e → OnlyReads r e := fun e he => Key.computed.inj he ▸ ihKey
    exact reads_target ihObject hKey hValue

theorem Steady.index_of_base {r : Realm} {object key : Expr} (hObject : Steady r object) (hKey : Steady r key)
    (hBase : ∀ n v s, eval n object r = .ok v s → ∀ node, v ≠ .element node) : Steady r (.index object key) := by
  refine .index hObject hKey ?_
  rintro n place s hPlace ⟨⟨node, hElement⟩, -⟩
  obtain ⟨base, s', hEval, hRest⟩ := exists_of_bind_eq_ok hPlace
  obtain ⟨v, s'', -, hRest⟩ := exists_of_bind_eq_ok hRest
  obtain ⟨name, s₃, -, hRest⟩ := exists_of_bind_eq_ok hRest
  cases hRest
  exact hBase n base s' hEval node hElement

theorem Steady.staysPut {r : Realm} {object : Expr} {key : Key} (h : Steady r (key.target object).toExpr)
    (n : Nat) : StaysPut n object key r := by
  obtain ⟨hObject, hKey, hValue⟩ : OnlyReads r object ∧ (∀ e, key = .computed e → OnlyReads r e) ∧
      ∀ n place s, locate n object key r = .ok place s → ¬IsMethod place.1 place.2 := by
    cases key with
    | named name =>
      cases h with
      | member hObject hValue =>
        refine ⟨hObject.reads, ?_, hValue⟩
        intro e he
        cases he
    | computed key =>
      cases h with
      | index hObject hKey hValue => exact ⟨hObject.reads, fun e he => Key.computed.inj he ▸ hKey.reads, hValue⟩
  intro place r₁ old r₂ hPlace hRead
  obtain rfl := eq_of_locate_eq_ok hObject hKey hPlace
  obtain rfl := eq_of_property_eq_ok hRead (hValue n place _ hPlace)
  exact hPlace

/-- A realm with an object, the name of a property of it, and a native that returns what it is given. -/
def namedRealm : Realm where
  scopes := #[.ofList [("o", .object 0), ("k", .string "a"), ("f", .native 0 (.external "f" ⟨1, false⟩ .firstArgument))]]
  objects := #[.ofList [("ab", .number 1)]]
  natives := 1

end PageRender.Script
