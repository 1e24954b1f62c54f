import PageRender.Proofs.Commuting
import PageRender.Proofs.Script.Effects

/-! # What evaluation is made of

Evaluation is made of steps that always come to their end, of errors and of the few faults that a script
can run into, put together one after the other, in calls and in listeners. A property of actions that
holds of these parts and is kept when they are put together holds of the evaluation of every program.

No step sees how often the page was changed before, what stands in the journal, or which tasks wait.
-/

namespace PageRender.Script

/-! ## What no script sees -/

/-- More that happened around a page than it knows of itself: changes and lines of the journal before
it, and tasks that wait behind its own. -/
structure Unseen where
  changes : Nat := 0
  lines : Journal := []
  tasks : List TimerTask := []

def Page.plus (p : Page) (u : Unseen) : Page :=
  { p with
    generation := u.changes + p.generation
    journal := u.lines ++ p.journal
    tasks := p.tasks ++ u.tasks }

def Realm.plus (r : Realm) (u : Unseen) : Realm :=
  r.onPage (·.plus u)

namespace Page

variable (p : Page) (u : Unseen)

theorem plus_changed (d : Dom) : (p.plus u).changed d = (p.changed d).plus u := by
  cases h : p.observed with
  | false => simp [changed, plus, h]
  | true => simp [changed, plus, h, Nat.add_assoc]

theorem plus_write (level : Level) (text : String) :
    (p.plus u).write level text = (p.write level text).plus u := by
  simp [write, plus]

theorem plus_withHandle (node : NodeId) : (p.plus u).withHandle node = (p.withHandle node).plus u := by
  unfold withHandle
  split <;> rename_i h
  · rw [if_pos (show p.handles.contains node = true from h)]
  · rw [if_neg (show ¬ p.handles.contains node = true from h)]
    rfl

end Page

/-! ## Steps and what is made of them -/

/-- The faults that a script can run into. -/
def Fault.IsOfScript (f : Fault) : Prop :=
  f = .outOfSteps ∨ ∃ digits, isDigits digits = true ∧ readInteger digits = .error f

/-- A step of evaluation: it has the effects that evaluation has, and does not depend on what no script
sees. -/
structure IsStep (own : Bool) {α : Type} (a : Realm → α × Realm) : Prop where
  effects : ∀ r, Effects own r (a r).2
  plus : ∀ r u, a (r.plus u) = ((a r).1, (a r).2.plus u)

/-- A property of actions that holds of all that evaluation is made of. It may tell actions that set
names in the current scope from those that do not. -/
structure Compositional (Q : Bool → (α : Type) → ScriptM α → Prop) : Prop where
  step : ∀ {own α} {a : Realm → α × Realm}, IsStep own a → Q own α fun r => .ok (a r).1 (a r).2
  raise : ∀ {own α} (e : ScriptError), Q own α (raise e)
  fault : ∀ {own α} {f : Fault}, Fault.IsOfScript f → Q own α (throw (.fault f))
  bind : ∀ {own α β} {x : ScriptM α} {f : α → ScriptM β},
    Q own α x → (∀ v, Q own β (f v)) → Q own β (x >>= f)
  inScope : ∀ {own α} {body : ScriptM α} (scope outer),
    Q true α body → Q own α (inScope scope outer body)
  logErrors : ∀ {own} {body : ScriptM Unit} (node type),
    Q own Unit body → Q own Unit (logErrors (listenerContext node type) body)

/-- All that evaluation does with a supply of `n` steps has the property. -/
structure EvaluationHas (Q : Bool → (α : Type) → ScriptM α → Prop) (n : Nat) : Prop where
  exec : ∀ s, Q true _ (exec n s)
  execAll : ∀ last ss, Q true _ (execAll n last ss)
  loop : ∀ test update body, Q true _ (loop n test update body)
  eval : ∀ e, Q true _ (eval n e)
  evalAll : ∀ es, Q true _ (evalAll n es)
  store : ∀ target v, Q true _ (store n target v)
  callValue : ∀ own f args timerScope, Q own _ (callValue n f args timerScope)
  dispatch : ∀ own node type, Q own _ (dispatch n node type)
  callListeners : ∀ own node type event fs, Q own _ (callListeners n node type event fs)

section

variable {Q : Bool → (α : Type) → ScriptM α → Prop} {own : Bool} {α β : Type}

namespace Compositional

variable (h : Compositional Q)

include h

theorem pure (v : α) : Q own α (pure v) :=
  h.step (a := fun r => (v, r)) ⟨.refl, fun _ _ => rfl⟩

/-- What an action does may depend on what it sees. -/
theorem get {k : Realm → ScriptM β} (hSame : ∀ r u, k (r.plus u) = k r) (hk : ∀ r, Q own β (k r)) :
    Q own β (get >>= k) := by
  let chosen (r : Realm) : { x : ScriptM β // Q own β x } := ⟨k r, hk r⟩
  have hChosen : Q own _ fun r => .ok (chosen r) r :=
    h.step (a := fun r => (chosen r, r))
      ⟨.refl, fun r u => congrArg (·, r.plus u) (Subtype.ext (hSame r u))⟩
  have hBoth := h.bind (f := fun x => x.1) hChosen fun x => x.2
  exact hBoth

theorem modify {g : Realm → Realm} (hEffects : ∀ r, Effects own r (g r))
    (hPlus : ∀ r u, g (r.plus u) = (g r).plus u) : Q own PUnit (modify g) :=
  h.step (a := fun r => (PUnit.unit, g r))
    ⟨hEffects, fun r u => congrArg (PUnit.unit, ·) (hPlus r u)⟩

theorem onPage {f : Page → Page} (hChange : ∀ p, PageChange p (f p))
    (hPlus : ∀ p u, f (p.plus u) = (f p).plus u) : Q own PUnit (onPage f) :=
  h.modify (fun r => .page r (hChange r.page))
    fun r u => congrArg (fun p => { r with page := p }) (hPlus r.page u)

theorem map {x : ScriptM α} (f : α → β) (hx : Q own α x) : Q own β (f <$> x) := by
  rw [map_eq_pure_bind]
  exact h.bind hx fun v => h.pure (f v)

theorem discard {x : ScriptM α} (hx : Q own α x) : Q own PUnit (discard x) :=
  h.map _ hx

theorem mapM {f : α → ScriptM β} (hf : ∀ v, Q own β (f v)) (vs : List α) :
    Q own (List β) (vs.mapM f) := by
  induction vs with
  | nil => exact h.pure []
  | cons v vs ih =>
    rw [List.mapM_cons]
    exact h.bind (hf v) fun w => h.bind ih fun ws => h.pure (w :: ws)

theorem forIn {f : α → β → ScriptM (ForInStep β)} (hf : ∀ v w, Q own _ (f v w)) (vs : List α) (w : β) :
    Q own β (forIn vs w f) := by
  induction vs generalizing w with
  | nil => exact h.pure w
  | cons v vs ih =>
    rw [List.forIn_cons]
    refine h.bind (hf v w) fun step => ?_
    cases step with
    | done w => exact h.pure w
    | yield w => exact ih w

theorem textOf (v : Value) : Q own _ (textOf v) :=
  h.get (fun r u => by cases v <;> rfl) fun r => h.pure _

theorem readName (name : String) : Q own _ (readName name) := by
  refine h.get (fun _ _ => rfl) fun r => ?_
  split
  · exact h.pure _
  · exact h.raise _

theorem newNative (n : Native) : Q own _ (newNative n) :=
  h.step (a := fun r => ((r.addNative n).2, (r.addNative n).1))
    ⟨fun r => .native r n, fun _ _ => rfl⟩

theorem newObject (properties : Scope) (f : Value → α) :
    Q own α (do
      let (r, v) := (← MonadState.get).addObject properties
      set r
      return f v) :=
  h.step (a := fun r => (f (r.addObject properties).2, (r.addObject properties).1))
    ⟨fun r => .newObject r properties, fun _ _ => rfl⟩

theorem binaryValue (op : BinaryOp) (a b : Value) : Q own _ (binaryValue op a b) := by
  have hText : ∀ v (f : String → Value), Q own _ (do return f (← Script.textOf v)) :=
    fun v f => h.bind (h.textOf v) fun s => h.pure (f s)
  unfold Script.binaryValue
  cases op with
  | add =>
    dsimp only
    split
    · exact hText _ _
    · exact hText _ _
    · exact h.pure _
  | less | greater =>
    dsimp only
    split <;> exact h.pure _
  | equal | notEqual | subtract | multiply | divide => exact h.pure _

theorem stringProperty (s name : String) : Q own _ (stringProperty s name) := by
  rw [Script.stringProperty]
  split
  · exact h.pure _
  split
  · rename_i hDigits
    split
    · rename_i f hFault
      exact h.fault (.inr ⟨name, hDigits, hFault⟩)
    · split <;> exact h.pure _
  · exact h.pure _

theorem elementProperty (node : NodeId) (name : String) : Q own _ (elementProperty node name) := by
  refine h.get (fun _ _ => rfl) fun r => ?_
  dsimp only
  split
  all_goals first
    | exact h.pure _
    | exact h.newNative _

theorem property (base : Value) (name : String) : Q own _ (property base name) := by
  cases base with
  | undefined | null => exact h.bind (h.textOf _) fun s => h.raise _
  | object id => exact h.get (fun _ _ => rfl) fun _ => h.pure _
  | string s => exact h.stringProperty s name
  | element node => exact h.elementProperty node name
  | boolean | number | function | native => exact h.pure _

theorem changeDom (v : Value) (change : Dom → String → Dom)
    (hChange : ∀ p text, PageChange p (p.changed (change p.dom text))) :
    Q own _ (do
      let dom := (← MonadState.get).page.dom
      let text ← Script.textOf v
      Script.onPage (·.changed (change dom text))) := by
  refine h.step (a := fun r => (PUnit.unit, r.onPage (·.changed (change r.page.dom (r.textOf v))))) ?_
  constructor
  · intro r
    exact .page r (hChange r.page _)
  · intro r u
    have hText : (r.plus u).textOf v = r.textOf v := by cases v <;> rfl
    dsimp only
    rw [hText]
    exact congrArg (fun p => (PUnit.unit, { r with page := p })) (r.page.plus_changed u _)

theorem setElementProperty (node : NodeId) (name : String) (v : Value) :
    Q own _ (setElementProperty node name v) := by
  by_cases hContent : name = "textContent"
  · rw [hContent]
    exact h.changeDom v (fun d text => d.replaceChildren node [.text () text])
      fun p text => .replaceChildren node _
  by_cases hMarkup : name = "innerHTML"
  · rw [hMarkup]
    exact h.changeDom v (fun d text => d.replaceChildren node (Markup.parseFragment text))
      fun p text => .replaceChildren node _
  by_cases hAttribute : name = "id" ∨ name = "value"
  · have hBoth : name = "id" ∨ name = "value" → Q own _ (Script.setElementProperty node name v) := by
      rintro (rfl | rfl)
      all_goals exact h.changeDom v (fun d text => d.setAttribute node _ text) fun p text => .setAttribute node _ _
    exact hBoth hAttribute
  · refine h.get (fun _ _ => rfl) fun r => ?_
    dsimp only
    split
    · exact absurd rfl hContent
    · exact absurd rfl hMarkup
    · exact absurd (.inl rfl) hAttribute
    · exact absurd (.inr rfl) hAttribute
    · exact h.raise _

theorem setProperty (base : Value) (name : String) (v : Value) :
    Q own _ (setProperty base name v) := by
  have hRefused : ∀ b : Value, Q own _ (do Script.raise (.notSettable name (← Script.textOf b)) : ScriptM Unit) :=
    fun b => h.bind (h.textOf b) fun s => h.raise _
  cases base with
  | object id => exact h.modify (fun r => .object r id name v) fun _ _ => rfl
  | element node => exact h.setElementProperty node name v
  | undefined | null | boolean | number | string | function | native => exact hRefused _

theorem elementById (id : String) : Q own _ (elementById id) := by
  refine h.get (fun _ _ => rfl) fun r => ?_
  split
  · exact h.bind (h.onPage (fun p => .handle _) fun p u => p.plus_withHandle u _) fun _ => h.pure _
  · exact h.pure _

/-- What is shown to the user is written to the journal as well. -/
theorem message {f : Page → Page} (hChange : ∀ p, PageChange p (f p))
    (hPlus : ∀ p u, f (p.plus u) = (f p).plus u) (level : Level) (text : String) :
    Q own _ (Script.onPage fun p => (f p).write level text) := by
  refine h.modify (fun r => ?_) fun r u => ?_
  · exact .trans (.page r (hChange r.page)) (.page _ (.journal level text))
  · refine congrArg (fun p => { r with page := p }) ?_
    exact (congrArg (·.write level text) (hPlus r.page u)).trans ((f r.page).plus_write u level text)

theorem callHost (n : Native) (args : List Value) : Q own _ (callHost n args) := by
  cases n with
  | external name arity reply =>
    refine h.bind (h.modify (fun r => .external r _) fun _ _ => rfl) fun _ => ?_
    cases reply with
    | firstArgument => exact h.pure _
    | refusal => exact h.raise _
  | getElementById =>
    exact h.bind (h.textOf _) fun s => h.bind (h.elementById s) fun v => h.pure _
  | querySelector =>
    refine h.bind (h.textOf _) fun s => ?_
    split
    · exact h.bind (h.elementById _) fun v => h.pure _
    · exact h.pure _
  | alert =>
    exact h.bind (h.textOf _) fun s =>
      h.bind (h.message (fun p => .alert s) (fun _ _ => rfl) _ _) fun _ => h.pure _
  | setTimeout =>
    exact h.bind (h.modify (fun r => .page r (.timer _)) fun _ _ => rfl) fun _ => h.pure _
  | log =>
    exact h.bind (h.mapM h.textOf _) fun ss =>
      h.bind (h.message (fun p => .console _) (fun _ _ => rfl) _ _) fun _ => h.pure _
  | getAttribute node =>
    exact h.bind (h.textOf _) fun s => h.get (fun _ _ => rfl) fun _ => h.pure _
  | setAttribute node =>
    exact h.bind (h.textOf _) fun name => h.bind (h.textOf _) fun value =>
      h.bind (h.onPage (fun p => .setAttribute node name value) fun p u => p.plus_changed u _) fun _ =>
        h.pure _
  | addEventListener node =>
    unfold Script.callHost
    dsimp only
    split
    · exact h.bind (h.textOf _) fun type =>
        h.bind (h.onPage (fun p => .listener node type _) fun _ _ => rfl) fun _ => h.pure _
    · exact h.pure _
  | preventDefault dispatch =>
    exact h.bind (h.onPage (fun p => .prevented dispatch) fun _ _ => rfl) fun _ => h.pure _
  | click node => exact h.pure _

theorem newEvent (node : NodeId) (type : String) : Q own _ (newEvent node type) := by
  have hNumber : Q own _ (do
      let dispatch := (← MonadState.get).page.dispatches
      Script.onPage fun p => { p with dispatches := dispatch + 1 }.withHandle node
      return dispatch) := by
    refine h.step (a := fun r => (r.page.dispatches, r.onPage fun p =>
      { p with dispatches := r.page.dispatches + 1 }.withHandle node)) ⟨fun r => ?_, fun r u => ?_⟩
    · exact .trans (.page r .dispatch) (.page _ (.handle node))
    · exact congrArg (fun p => (r.page.dispatches, { r with page := p }))
        (Page.plus_withHandle { r.page with dispatches := r.page.dispatches + 1 } u node)
  have hEvent : ∀ dispatch, Q own _ (do
      let prevent ← Script.newNative (.preventDefault dispatch)
      let properties : Scope :=
        .ofList [("type", .string type), ("target", .element node), ("preventDefault", prevent)]
      let (r, event) := (← MonadState.get).addObject properties
      set r
      return (event, dispatch) : ScriptM (Value × Nat)) :=
    fun dispatch => h.bind (h.newNative _) fun prevent => h.newObject _ fun event => (event, dispatch)
  have hBoth := h.bind hNumber hEvent
  exact hBoth

theorem newHost (natives : List Native) : Q own _ (newHost natives) := by
  have hProperty : ∀ n : Native, Q own _ (do return (n.name, ← Script.newNative n)) :=
    fun n => h.bind (h.newNative n) fun v => h.pure (n.name, v)
  exact h.bind (h.mapM hProperty natives) fun properties => h.newObject _ id

theorem setPageNames : Q true _ setPageNames := by
  refine h.bind (h.newHost _) fun window => h.bind (h.newHost _) fun document =>
    h.bind (h.newHost _) fun console => h.bind (h.property window _) fun alert =>
      h.bind (h.property window _) fun setTimeout => ?_
  refine h.bind (h.forIn (fun entry _ => ?_) _ _) fun _ => h.pure ()
  exact h.bind (h.modify (fun r => .name r _ _) fun _ _ => rfl) fun _ => h.pure _

end Compositional

namespace EvaluationHas

variable {n : Nat} (hn : EvaluationHas Q n) (h : Compositional Q)

include hn h

theorem exec_succ (s : Stmt) : Q true _ (Script.exec (n + 1) s) := by
  rw [Script.exec.eq_def]
  cases s with
  | declare kind name init =>
    have hSet : ∀ v, Q true _ (do
        modify (·.setName name v)
        return .value v : ScriptM Completion) :=
      fun v => h.bind (h.modify (fun r => .name r name v) fun _ _ => rfl) fun _ => h.pure _
    cases init with
    | none => exact hSet .undefined
    | some e => exact h.bind (hn.eval e) hSet
  | function name params body =>
    exact h.step (a := fun r =>
        let (s, f) := r.addClosure params body (some name)
        (Completion.value .undefined, s.setName name f))
      ⟨fun r => .trans (.closure r params body (some name)) (.name _ name _), fun _ _ => rfl⟩
  | ifElse test consequent alternate =>
    refine h.bind (hn.eval test) fun v => ?_
    split
    · exact hn.exec consequent
    · cases alternate with
      | none => exact h.pure _
      | some s => exact hn.exec s
  | forLoop init test update body =>
    cases init with
    | none => exact hn.loop test update body
    | some s => exact h.bind (h.discard (hn.exec s)) fun _ => hn.loop test update body
  | whileLoop test body => exact hn.loop (some test) none body
  | returns argument =>
    cases argument with
    | none => exact h.pure _
    | some e => exact h.bind (hn.eval e) fun v => h.pure _
  | block body => exact hn.execAll .undefined body
  | expression e => exact h.bind (hn.eval e) fun v => h.pure _

theorem execAll_succ (last : Value) (ss : List Stmt) : Q true _ (Script.execAll (n + 1) last ss) := by
  cases ss with
  | nil =>
    rw [Script.execAll]
    exact h.pure _
  | cons s ss =>
    rw [Script.execAll]
    refine h.bind (hn.exec s) fun done => ?_
    cases done with
    | returned v => exact h.pure _
    | value v => exact hn.execAll v ss

theorem loop_succ (test update : Option Expr) (body : Stmt) :
    Q true _ (Script.loop (n + 1) test update body) := by
  obtain ⟨behind, hReturned, hValue, hLoop⟩ := exists_loop_eq n test update body
  have hRound : Q true _ (Script.exec n body >>= behind) := by
    refine h.bind (hn.exec body) fun done => ?_
    cases done with
    | returned v => exact hReturned v ▸ h.pure _
    | value v =>
      rw [hValue]
      cases update with
      | none => exact hn.loop test none body
      | some e => exact h.bind (h.discard (hn.eval e)) fun _ => hn.loop test (some e) body
  rw [hLoop]
  cases test with
  | none => exact hRound
  | some e =>
    refine h.bind (hn.eval e) fun v => ?_
    split
    · exact hRound
    · exact h.pure _

theorem eval_succ (e : Expr) : Q true _ (Script.eval (n + 1) e) := by
  rw [Script.eval.eq_def]
  cases e with
  | literal l => exact h.pure _
  | name name => exact h.readName name
  | member object name => exact h.bind (hn.eval object) fun base => h.property base name
  | index object key =>
    exact h.bind (hn.eval object) fun base => h.bind (hn.eval key) fun k =>
      h.bind (h.textOf k) fun s => h.property base s
  | call callee args =>
    refine h.bind (hn.eval callee) fun f => h.bind (hn.evalAll args) fun vs => ?_
    split
    · exact hn.callValue true f vs none
    · exact h.bind (h.textOf f) fun s => h.raise _
  | function params body =>
    exact h.step (a := fun r =>
        let (s, f) := r.addClosure params body none
        (f, s))
      ⟨fun r => .closure r params body none, fun _ _ => rfl⟩
  | unary op operand => exact h.bind (hn.eval operand) fun v => h.pure _
  | binary op left right =>
    exact h.bind (hn.eval left) fun a => h.bind (hn.eval right) fun b => h.binaryValue op a b
  | update op target before =>
    exact h.bind (hn.eval target.toExpr) fun v => h.bind (hn.store target _) fun _ => h.pure _
  | assign target value =>
    exact h.bind (hn.eval value) fun v => h.bind (hn.store target v) fun _ => h.pure _

theorem evalAll_succ (es : List Expr) : Q true _ (Script.evalAll (n + 1) es) := by
  cases es with
  | nil =>
    rw [Script.evalAll]
    exact h.pure _
  | cons e es =>
    rw [Script.evalAll]
    exact h.bind (hn.eval e) fun v => h.bind (hn.evalAll es) fun vs => h.pure _

theorem store_succ (target : Target) (v : Value) : Q true _ (Script.store (n + 1) target v) := by
  rw [Script.store.eq_def]
  cases target with
  | name name => exact h.modify (fun r => .name r name v) fun _ _ => rfl
  | member object name => exact h.bind (hn.eval object) fun base => h.setProperty base name v
  | index object key =>
    exact h.bind (hn.eval object) fun base => h.bind (hn.eval key) fun k =>
      h.bind (h.textOf k) fun s => h.setProperty base s v

theorem callValue_succ (own : Bool) (f : Value) (args : List Value) (timerScope : Option Nat) :
    Q own _ (Script.callValue (n + 1) f args timerScope) := by
  rw [Script.callValue.eq_def]
  cases f with
  | native id native =>
    refine h.bind (h.callHost native _) fun answer => ?_
    cases answer with
    | some v => exact h.pure _
    | none =>
      cases native with
      | click node => exact h.bind (h.discard (hn.dispatch own node "click")) fun _ => h.pure _
      | _ => exact h.pure _
  | function id =>
    refine h.get (fun _ _ => rfl) fun r => ?_
    dsimp only
    split
    · exact h.pure _
    · split
      · exact h.raise _
      · exact h.bind (h.inScope _ _ (hn.execAll .undefined _)) fun done => h.pure _
  | undefined | null | boolean | number | string | object | element =>
    exact h.bind (h.textOf _) fun s => h.raise _

theorem dispatch_succ (own : Bool) (node : NodeId) (type : String) :
    Q own _ (Script.dispatch (n + 1) node type) := by
  rw [Script.dispatch]
  refine h.get (fun _ _ => rfl) fun r => ?_
  split
  · exact h.pure _
  · refine h.bind (h.newEvent node type) fun made => ?_
    obtain ⟨event, number⟩ := made
    exact h.bind (hn.callListeners own node type event _) fun _ =>
      h.get (fun _ _ => rfl) fun _ => h.pure _

theorem callListeners_succ (own : Bool) (node : NodeId) (type : String) (event : Value)
    (fs : List Value) : Q own _ (Script.callListeners (n + 1) node type event fs) := by
  cases fs with
  | nil =>
    rw [Script.callListeners]
    exact h.pure _
  | cons f fs =>
    rw [Script.callListeners]
    exact h.bind (h.logErrors node type (h.discard (hn.callValue own f [event] none))) fun _ =>
      hn.callListeners own node type event fs

end EvaluationHas

theorem Compositional.evaluation (h : Compositional Q) (n : Nat) : EvaluationHas Q n := by
  induction n with
  | zero =>
    constructor
    all_goals
      intros
      first
        | rw [exec] | rw [execAll] | rw [loop] | rw [eval] | rw [evalAll] | rw [store]
        | rw [callValue] | rw [dispatch] | rw [callListeners]
      exact h.fault (.inl rfl)
  | succ n ih =>
    exact ⟨ih.exec_succ h, ih.execAll_succ h, ih.loop_succ h, ih.eval_succ h, ih.evalAll_succ h,
      ih.store_succ h, ih.callValue_succ h, ih.dispatch_succ h, ih.callListeners_succ h⟩

end

/-! ## Effects -/

theorem leads_inScope {α : Type} {own : Bool} {body : ScriptM α} (hBody : Leads (Effects true) body)
    (scope : Scope) (outer : Option Nat) : Leads (Effects own) (inScope scope outer body) := by
  intro r
  have hCall : Effects own r ((stateAfter body (r.enter scope outer)).leave r) := .call r _ _ (hBody _)
  rw [stateAfter, inScope_apply]
  cases hResult : body (r.enter scope outer) with
  | ok v s => rwa [stateAfter_of_ok hResult] at hCall
  | error e s => rwa [stateAfter_of_error hResult] at hCall

theorem leads_logErrors {own : Bool} {body : ScriptM Unit} (hBody : Leads (Effects own) body)
    (context : Realm → String) : Leads (Effects own) (logErrors context body) := by
  intro r
  have hBefore := hBody r
  rw [stateAfter] at hBefore ⊢
  unfold logErrors
  cases hResult : body r with
  | ok v s =>
    rw [hResult] at hBefore
    exact hBefore
  | error i s =>
    rw [hResult] at hBefore
    dsimp only
    cases i.message? with
    | none => exact hBefore
    | some text => exact hBefore.trans (.page s (.journal _ _))

theorem leads_effects : Compositional fun own _ => Leads (Effects own) where
  step h := h.effects
  raise _ := .throw _
  fault _ := .throw _
  bind := .bind
  inScope scope outer hBody := leads_inScope hBody scope outer
  logErrors _ _ hBody := leads_logErrors hBody _

/-- All that evaluation does with a supply of `n` steps are effects. -/
theorem evaluationLeads (n : Nat) : EvaluationHas (fun own _ => Leads (Effects own)) n :=
  leads_effects.evaluation n

theorem leads_runSource (source : String) : Leads (Effects true) (runSource source) := by
  rw [runSource]
  cases readProgram source with
  | error i => exact .throw i
  | ok program => exact ((evaluationLeads _).execAll _ program).bind fun done => .pure _

end PageRender.Script
