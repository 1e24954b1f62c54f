import PageRender.Proofs.Script.Scopes

/-! # Bodies of functions

A body is evaluated here with its surroundings as parameters: how the names in it are read, and what
becomes of the calls in it. Surroundings that answer as the evaluator does, in all realms that the body
can come to, make no difference.
-/

namespace PageRender.Script

/-! ## Names that are set -/

mutual

/-- The names that an expression sets in the scope it is evaluated in. -/
def Expr.sets : Expr → List String
  | .literal _ | .name _ | .function .. => []
  | .member object _ => object.sets
  | .index object key => object.sets ++ key.sets
  | .call callee args => callee.sets ++ Expr.allSets args
  | .unary _ operand => operand.sets
  | .binary _ left right => left.sets ++ right.sets
  | .update _ target _ => target.sets
  | .assign target value => value.sets ++ target.sets

def Expr.allSets : List Expr → List String
  | [] => []
  | e :: es => e.sets ++ Expr.allSets es

def Expr.optionSets : Option Expr → List String
  | none => []
  | some e => e.sets

def Target.sets : Target → List String
  | .name name => [name]
  | .member object _ => object.sets
  | .index object key => object.sets ++ key.sets

/-- The names that a statement sets in the scope it is carried out in. -/
def Stmt.sets : Stmt → List String
  | .declare _ name init => name :: Expr.optionSets init
  | .function name _ _ => [name]
  | .ifElse test consequent alternate =>
    test.sets ++ (consequent.sets ++ Stmt.optionSets alternate)
  | .forLoop init test update body =>
    Stmt.optionSets init ++ (Expr.optionSets test ++ (Expr.optionSets update ++ body.sets))
  | .whileLoop test body => test.sets ++ body.sets
  | .returns argument => Expr.optionSets argument
  | .block body => Stmt.allSets body
  | .expression e => e.sets

def Stmt.allSets : List Stmt → List String
  | [] => []
  | s :: ss => s.sets ++ Stmt.allSets ss

def Stmt.optionSets : Option Stmt → List String
  | none => []
  | some s => s.sets

end

theorem Target.toExpr_sets_subset (t : Target) : t.toExpr.sets ⊆ t.sets := by
  cases t with
  | name name => exact List.nil_subset _
  | member object name => exact List.Subset.refl _
  | index object key => exact List.Subset.refl _

/-! ## Evaluation with surroundings -/

/-- How the names in a body are read, and what its calls do. -/
structure Surroundings where
  read : String → ScriptM Value
  call : Nat → Value → List Value → ScriptM Value

namespace Surroundings

mutual

def exec (w : Surroundings) : Nat → Stmt → ScriptM Completion
  | 0, _ => throw (.fault .outOfSteps)
  | n + 1, s =>
    match s with
    | .declare _ name init => do
      let v ← match init with
        | some e => w.eval n e
        | none => pure .undefined
      modify (·.setName name v)
      return .value v
    | .function name params body => do
      let (r, f) := (← get).addClosure params body (some name)
      set (r.setName name f)
      return .value .undefined
    | .ifElse test consequent alternate => do
      if (← w.eval n test).isTruthy then w.exec n consequent
      else
        match alternate with
        | some s => w.exec n s
        | none => return .value .undefined
    | .forLoop init test update body => do
      match init with
      | some s => discard (w.exec n s)
      | none => pure ()
      w.loop n test update body
    | .whileLoop test body => w.loop n (some test) none body
    | .returns argument => do
      match argument with
      | some e => return .returned (← w.eval n e)
      | none => return .returned .undefined
    | .block body => w.execAll n .undefined body
    | .expression e => return .value (← w.eval n e)

def execAll (w : Surroundings) : Nat → Value → List Stmt → ScriptM Completion
  | 0, _, _ => throw (.fault .outOfSteps)
  | _ + 1, last, [] => return .value last
  | n + 1, _, s :: ss => do
    match ← w.exec n s with
    | .returned v => return .returned v
    | .value v => w.execAll n v ss

def loop (w : Surroundings) : Nat → Option Expr → Option Expr → Stmt → ScriptM Completion
  | 0, _, _, _ => throw (.fault .outOfSteps)
  | n + 1, test, update, body => do
    let holds ← match test with
      | some e => do pure (← w.eval n e).isTruthy
      | none => pure true
    if holds then
      match ← w.exec n body with
      | .returned v => return .returned v
      | .value _ => do
        match update with
        | some e => discard (w.eval n e)
        | none => pure ()
        w.loop n test update body
    else return .value .undefined

def eval (w : Surroundings) : Nat → Expr → ScriptM Value
  | 0, _ => throw (.fault .outOfSteps)
  | n + 1, e =>
    match e with
    | .literal l => return .ofLiteral l
    | .name name => w.read name
    | .member object name => do property (← w.eval n object) name
    | .index object key => do
      let base ← w.eval n object
      property base (← textOf (← w.eval n key))
    | .call callee args => do
      let f ← w.eval n callee
      let args ← w.evalAll n args
      if f.isCallable then w.call n f args
      else raise (.notCallable (calleeText callee) (← textOf f))
    | .function params body => do
      let (r, f) := (← get).addClosure params body none
      set r
      return f
    | .unary op operand => return unaryValue op (← w.eval n operand)
    | .binary op left right => do
      let a ← w.eval n left
      binaryValue op a (← w.eval n right)
    | .update op target before => do
      let old := (← w.eval n target.toExpr).toNumber
      w.store n target (.number (updated op old))
      return .number (if before then updated op old else old)
    | .assign target value => do
      let v ← w.eval n value
      w.store n target v
      return v

def evalAll (w : Surroundings) : Nat → List Expr → ScriptM (List Value)
  | 0, _ => throw (.fault .outOfSteps)
  | _ + 1, [] => return []
  | n + 1, e :: es => do
    let v ← w.eval n e
    return v :: (← w.evalAll n es)

def store (w : Surroundings) : Nat → Target → Value → ScriptM Unit
  | 0, _, _ => throw (.fault .outOfSteps)
  | n + 1, target, v =>
    match target with
    | .name name => modify (·.setName name v)
    | .member object name => do setProperty (← w.eval n object) name v
    | .index object key => do
      let base ← w.eval n object
      setProperty base (← textOf (← w.eval n key)) v

end

end Surroundings

/-! ## Surroundings that make no difference -/

/-- Two actions do the same in all realms of a kind, and lead to such realms again. -/
def Alike (P : Realm → Prop) {α : Type} (x y : ScriptM α) : Prop :=
  ∀ r, P r → x r = y r ∧ P (stateAfter x r)

namespace Alike

variable {P : Realm → Prop} {α β : Type}

theorem bind {x y : ScriptM α} {f g : α → ScriptM β} (h : Alike P x y)
    (hNext : ∀ v, Alike P (f v) (g v)) : Alike P (x >>= f) (y >>= g) := by
  intro r hr
  obtain ⟨hEq, hAfter⟩ := h r hr
  cases hResult : x r with
  | ok v s =>
    rw [stateAfter_of_ok hResult] at hAfter
    rw [stateAfter, bind_ok hResult, bind_ok (hEq ▸ hResult)]
    exact hNext v s hAfter
  | error e s =>
    rw [stateAfter_of_error hResult] at hAfter
    rw [stateAfter, bind_error hResult, bind_error (hEq ▸ hResult)]
    exact ⟨rfl, hAfter⟩

/-- An action is like itself where it keeps to the realms of the kind. -/
theorem refl {x : ScriptM α} (h : Leads (fun r s => P r → P s) x) : Alike P x x :=
  fun r hr => ⟨rfl, h r hr⟩

theorem pure (v : α) : Alike P (pure v) (pure v) :=
  fun _ hr => ⟨rfl, hr⟩

theorem discard {x y : ScriptM α} (h : Alike P x y) : Alike P (discard x) (discard y) := by
  have hMap : ∀ z : ScriptM α, Functor.discard z = (z >>= fun _ => Pure.pure PUnit.unit) :=
    fun z => map_eq_pure_bind _ z
  rw [hMap, hMap]
  exact h.bind fun _ => .pure _

end Alike

/-- The realms that a body comes to: its surroundings answer there as the evaluator does, and what the
body can do leads to such realms again if it sets only names from `names`. -/
structure Surroundings.Fits (w : Surroundings) (P : Realm → Prop) (names : List String) : Prop where
  effects : ∀ r s, P r → Effects false r s → P s
  setName : ∀ r name v, P r → name ∈ names → P (r.setName name v)
  read : ∀ name r, P r → readName name r = w.read name r
  call : ∀ n f args r, P r → callValue n f args none r = w.call n f args r

/-- With a supply of `n` steps, the surroundings make no difference. -/
structure AlikeUpTo (w : Surroundings) (P : Realm → Prop) (names : List String) (n : Nat) : Prop where
  exec : ∀ s : Stmt, s.sets ⊆ names → Alike P (exec n s) (w.exec n s)
  execAll : ∀ last ss, Stmt.allSets ss ⊆ names → Alike P (execAll n last ss) (w.execAll n last ss)
  loop : ∀ test update (body : Stmt), Expr.optionSets test ⊆ names → Expr.optionSets update ⊆ names →
    body.sets ⊆ names → Alike P (loop n test update body) (w.loop n test update body)
  eval : ∀ e : Expr, e.sets ⊆ names → Alike P (eval n e) (w.eval n e)
  evalAll : ∀ es, Expr.allSets es ⊆ names → Alike P (evalAll n es) (w.evalAll n es)
  store : ∀ (t : Target) v, t.sets ⊆ names → Alike P (store n t v) (w.store n t v)

section

variable {w : Surroundings} {P : Realm → Prop} {names : List String}

namespace Surroundings.Fits

variable {α : Type} (fits : w.Fits P names)

include fits

theorem same {x : ScriptM α} (h : Leads (Effects false) x) : Alike P x x :=
  .refl (h.imp fun r s hEffects hr => fits.effects r s hr hEffects)

theorem alike_setName {name : String} (hName : name ∈ names) (v : Value) :
    Alike P (modify (·.setName name v) : ScriptM PUnit) (modify (·.setName name v)) :=
  fun r hr => ⟨rfl, fits.setName r name v hr hName⟩

theorem alike_read (name : String) : Alike P (readName name) (w.read name) :=
  fun r hr => ⟨fits.read name r hr, fits.effects r _ hr (leads_effects.readName name r)⟩

theorem alike_call (n : Nat) (f : Value) (args : List Value) :
    Alike P (callValue n f args none) (w.call n f args) :=
  fun r hr => ⟨fits.call n f args r hr,
    fits.effects r _ hr ((evaluationLeads n).callValue false f args none r)⟩

end Surroundings.Fits

namespace AlikeUpTo

variable {n : Nat} (h : AlikeUpTo w P names n)

include h

theorem exec_succ (fits : w.Fits P names) (s : Stmt) (hSets : s.sets ⊆ names) :
    Alike P (Script.exec (n + 1) s) (w.exec (n + 1) s) := by
  rw [Script.exec.eq_def, Surroundings.exec.eq_def]
  cases s with
  | declare kind name init =>
    rw [Stmt.sets, List.cons_subset] at hSets
    have hSet : ∀ v, Alike P
        (do modify (·.setName name v); return .value v : ScriptM Completion)
        (do modify (·.setName name v); return .value v) :=
      fun v => (fits.alike_setName hSets.1 v).bind fun _ => .pure _
    cases init with
    | none => exact hSet .undefined
    | some e => exact (h.eval e hSets.2).bind hSet
  | function name params body =>
    rw [Stmt.sets, List.cons_subset] at hSets
    refine fun r hr => ⟨rfl, fits.setName _ name _ ?_ hSets.1⟩
    exact fits.effects r _ hr (.closure r params body (some name))
  | ifElse test consequent alternate =>
    rw [Stmt.sets, List.append_subset, List.append_subset] at hSets
    refine (h.eval test hSets.1).bind fun v => ?_
    split
    · exact h.exec consequent hSets.2.1
    · cases alternate with
      | none => exact .pure _
      | some s => exact h.exec s hSets.2.2
  | forLoop init test update body =>
    rw [Stmt.sets, List.append_subset, List.append_subset, List.append_subset] at hSets
    obtain ⟨hInit, hTest, hUpdate, hBody⟩ := hSets
    cases init with
    | none => exact h.loop test update body hTest hUpdate hBody
    | some s => exact (h.exec s hInit).discard.bind fun _ => h.loop test update body hTest hUpdate hBody
  | whileLoop test body =>
    rw [Stmt.sets, List.append_subset] at hSets
    exact h.loop (some test) none body hSets.1 (List.nil_subset _) hSets.2
  | returns argument =>
    cases argument with
    | none => exact .pure _
    | some e => exact (h.eval e hSets).bind fun v => .pure _
  | block body => exact h.execAll .undefined body hSets
  | expression e => exact (h.eval e hSets).bind fun v => .pure _

theorem execAll_succ (last : Value) (ss : List Stmt) (hSets : Stmt.allSets ss ⊆ names) :
    Alike P (Script.execAll (n + 1) last ss) (w.execAll (n + 1) last ss) := by
  cases ss with
  | nil =>
    rw [Script.execAll, Surroundings.execAll]
    exact .pure _
  | cons s ss =>
    rw [Stmt.allSets, List.append_subset] at hSets
    rw [Script.execAll, Surroundings.execAll]
    refine (h.exec s hSets.1).bind fun done => ?_
    cases done with
    | returned v => exact .pure _
    | value v => exact h.execAll v ss hSets.2

theorem loop_succ (test update : Option Expr) (body : Stmt) (hTest : Expr.optionSets test ⊆ names)
    (hUpdate : Expr.optionSets update ⊆ names) (hBody : body.sets ⊆ names) :
    Alike P (Script.loop (n + 1) test update body) (w.loop (n + 1) test update body) := by
  have hRound : Alike P
      (do
        match ← Script.exec n body with
        | .returned v => return .returned v
        | .value _ => do
          match update with
          | some e => discard (Script.eval n e)
          | none => pure ()
          Script.loop n test update body)
      (do
        match ← w.exec n body with
        | .returned v => return .returned v
        | .value _ => do
          match update with
          | some e => discard (w.eval n e)
          | none => pure ()
          w.loop n test update body) := by
    refine (h.exec body hBody).bind fun done => ?_
    have hAgain := h.loop test update body hTest hUpdate hBody
    cases done with
    | returned v => exact .pure _
    | value v =>
      cases update with
      | none => exact hAgain
      | some e => exact (h.eval e hUpdate).discard.bind fun _ => hAgain
  rw [Script.loop.eq_def, Surroundings.loop.eq_def]
  cases test with
  | none => exact hRound
  | some e =>
    refine (h.eval e hTest).bind fun v => .bind (.pure _) fun holds => ?_
    cases holds with
    | false => exact .pure _
    | true => exact hRound

theorem eval_succ (fits : w.Fits P names) (e : Expr) (hSets : e.sets ⊆ names) :
    Alike P (Script.eval (n + 1) e) (w.eval (n + 1) e) := by
  rw [Script.eval.eq_def, Surroundings.eval.eq_def]
  cases e with
  | literal l => exact .pure _
  | name name => exact fits.alike_read name
  | member object name =>
    exact (h.eval object hSets).bind fun base => fits.same (leads_effects.property base name)
  | index object key =>
    rw [Expr.sets, List.append_subset] at hSets
    exact (h.eval object hSets.1).bind fun base => (h.eval key hSets.2).bind fun k =>
      (fits.same (leads_effects.textOf k)).bind fun s => fits.same (leads_effects.property base s)
  | call callee args =>
    rw [Expr.sets, List.append_subset] at hSets
    refine (h.eval callee hSets.1).bind fun f => (h.evalAll args hSets.2).bind fun vs => ?_
    split
    · exact fits.alike_call n f vs
    · exact (fits.same (leads_effects.textOf f)).bind fun s => fits.same (leads_effects.raise _)
  | function params body =>
    exact fits.same (.get fun r => .closure r params body none)
  | unary op operand => exact (h.eval operand hSets).bind fun v => .pure _
  | binary op left right =>
    rw [Expr.sets, List.append_subset] at hSets
    exact (h.eval left hSets.1).bind fun a => (h.eval right hSets.2).bind fun b =>
      fits.same (leads_effects.binaryValue op a b)
  | update op target before =>
    exact (h.eval target.toExpr (List.Subset.trans target.toExpr_sets_subset hSets)).bind fun v =>
      (h.store target _ hSets).bind fun _ => .pure _
  | assign target value =>
    rw [Expr.sets, List.append_subset] at hSets
    exact (h.eval value hSets.1).bind fun v => (h.store target v hSets.2).bind fun _ => .pure _

theorem evalAll_succ (es : List Expr) (hSets : Expr.allSets es ⊆ names) :
    Alike P (Script.evalAll (n + 1) es) (w.evalAll (n + 1) es) := by
  cases es with
  | nil =>
    rw [Script.evalAll, Surroundings.evalAll]
    exact .pure _
  | cons e es =>
    rw [Expr.allSets, List.append_subset] at hSets
    rw [Script.evalAll, Surroundings.evalAll]
    exact (h.eval e hSets.1).bind fun v => (h.evalAll es hSets.2).bind fun vs => .pure _

theorem store_succ (fits : w.Fits P names) (target : Target) (v : Value)
    (hSets : target.sets ⊆ names) :
    Alike P (Script.store (n + 1) target v) (w.store (n + 1) target v) := by
  rw [Script.store.eq_def, Surroundings.store.eq_def]
  cases target with
  | name name => exact fits.alike_setName (hSets List.mem_cons_self) v
  | member object name =>
    exact (h.eval object hSets).bind fun base => fits.same (leads_effects.setProperty base name v)
  | index object key =>
    rw [Target.sets, List.append_subset] at hSets
    exact (h.eval object hSets.1).bind fun base => (h.eval key hSets.2).bind fun k =>
      (fits.same (leads_effects.textOf k)).bind fun s => fits.same (leads_effects.setProperty base s v)

end AlikeUpTo

theorem Surroundings.Fits.alike (fits : w.Fits P names) (n : Nat) : AlikeUpTo w P names n := by
  induction n with
  | zero =>
    constructor
    all_goals
      intros
      first
        | rw [Script.exec, Surroundings.exec] | rw [Script.execAll, Surroundings.execAll]
        | rw [Script.loop, Surroundings.loop] | rw [Script.eval, Surroundings.eval]
        | rw [Script.evalAll, Surroundings.evalAll] | rw [Script.store, Surroundings.store]
      exact fits.same (.throw _)
  | succ n ih =>
    exact ⟨ih.exec_succ fits, ih.execAll_succ, ih.loop_succ, ih.eval_succ fits, ih.evalAll_succ,
      ih.store_succ fits⟩

end

/-- The surroundings that the evaluator itself provides. -/
def Surroundings.live : Surroundings where
  read := readName
  call n f args := callValue n f args none

/-- With the surroundings of the evaluator, this is the evaluator. -/
theorem execAll_live (n : Nat) (last : Value) (ss : List Stmt) :
    Surroundings.live.execAll n last ss = execAll n last ss := by
  have hFits : Surroundings.live.Fits (fun _ => True) (Stmt.allSets ss) :=
    ⟨fun _ _ _ _ => trivial, fun _ _ _ _ _ => trivial, fun _ _ _ => rfl, fun _ _ _ _ _ => rfl⟩
  funext r
  exact ((hFits.alike n).execAll last ss (List.Subset.refl _) r trivial).1.symm

end PageRender.Script
