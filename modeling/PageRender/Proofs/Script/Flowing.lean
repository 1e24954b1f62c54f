import PageRender.Proofs.Script.Holding
import PageRender.Proofs.Script.Hosting

/-! # Where values come from

A value that evaluation comes by stands in the program, or a realm holds it, or it is an element of the page,
which has an id or to which an event is sent, or one of the functions that the page and its elements hand out.
So what is known of the values that a realm holds and hands out is known of all that evaluation makes of them,
however it ends and wherever its steps run out, and it is still known of those that the realm holds then.
What is known may depend on the realm, as long as it is not forgotten.
-/

namespace PageRender.Script

/-- The value is neither an element nor a function of the page. -/
def Value.IsPlain : Value → Prop
  | .native .. | .element _ => False
  | _ => True

/-- The functions that an element hands out. -/
def Native.ofElement (node : NodeId) : List Native :=
  [.getAttribute node, .setAttribute node, .addEventListener node, .click node]

/-- The functions that a page hands out. -/
def Native.ofPage : List Native :=
  [.alert, .setTimeout, .getElementById, .querySelector, .log]

/-- What is known of a value in the first realm is known of it in the second, and the invariant holds there. -/
structure Onward (W : Realm → Value → Prop) (I : Realm → Prop) (r s : Realm) : Prop where
  known : ∀ {v}, W r v → W s v
  inv : I s

/-- However it ends, the action leads onward from the realm, and its value has the property. -/
structure Yields (W : Realm → Value → Prop) (I : Realm → Prop) (r : Realm) {ε α : Type}
    (K : Realm → α → Prop) (x : EStateM ε Realm α) : Prop where
  ok : ∀ {v s}, x r = .ok v s → Onward W I r s ∧ K s v
  error : ∀ {e s}, x r = .error e s → Onward W I r s

/-- Something is known of all values that a realm of the invariant holds and hands out, and every step of
evaluation leads onward from it. -/
structure Flow (W : Realm → Value → Prop) (I : Realm → Prop) : Prop where
  holds : ∀ {r}, I r → r.Holds (W r)
  plain : ∀ {r v}, Value.IsPlain v → W r v
  ofPage : ∀ {r n} id, n ∈ Native.ofPage → W r (.native id n)
  ofElement : ∀ {r node n} id, W r (.element node) → n ∈ Native.ofElement node → W r (.native id n)
  byId : ∀ {r id node}, I r → r.page.idMap.get? id = some node → W r (.element node)
  name : ∀ {r v} name, I r → W r v → Onward W I r (r.setName name v)
  closure : ∀ {r} params body name, I r → Onward W I r (r.addClosure params body name).1
  native : ∀ {r} n, I r → Onward W I r (r.addNative n).1
  newObject : ∀ {r properties}, I r → Scope.All (W r) properties →
    Onward W I r (r.addObject properties).1
  object : ∀ {r v} id name, I r → W r v →
    Onward W I r { r with objects := r.objects.modify id (·.insert name v) }
  external : ∀ {r} calls, I r → Onward W I r { r with externalCalls := calls }
  enter : ∀ {r scope} outer, I r → Scope.All (W r) scope → Onward W I r (r.enter scope outer)
  leave : ∀ {r} caller, I r → Onward W I r (r.leave caller)
  setAttribute : ∀ {r} node name value, I r →
    Onward W I r (r.onPage fun p => p.changed (p.dom.setAttribute node name value))
  replaceChildren : ∀ {r node} nodes, I r → W r (.element node) →
    Onward W I r (r.onPage fun p => p.changed (p.dom.replaceChildren node nodes))
  shown : ∀ {r} handles alerts console journal, I r →
    Onward W I r (r.onPage fun p => { p with handles, alerts, console, journal })
  listener : ∀ {r id node f} type, I r → W r (.native id (.addEventListener node)) → W r f →
    Onward W I r (r.onPage (·.addListener node type f))
  timer : ∀ {r} t, I r → W r t.callback → Onward W I r (r.onPage (·.addTimer t))
  takeTask : ∀ {r t ts}, I r → r.page.tasks = t :: ts →
    Onward W I r (r.onPage fun p => { p with tasks := ts })
  event : ∀ {r node type f}, I r → f ∈ r.page.listenersOf node type →
    let s := r.onPage fun p => { p with dispatches := p.dispatches + 1 }
    Onward W I r s ∧ W s (.element node) ∧ ∀ id, W s (.native id (.preventDefault r.page.dispatches))
  prevented : ∀ {r id dispatch}, I r → W r (.native id (.preventDefault dispatch)) →
    Onward W I r (r.onPage fun p => { p with prevented := dispatch :: p.prevented })

variable {W : Realm → Value → Prop} {I : Realm → Prop} {r s t : Realm} {ε α β : Type}

theorem Onward.trans (h : Onward W I r s) (hNext : Onward W I s t) : Onward W I r t :=
  ⟨fun hv => hNext.known (h.known hv), hNext.inv⟩

theorem Onward.refl (h : I r) : Onward W I r r :=
  ⟨id, h⟩

namespace Yields

variable {K : Realm → α → Prop} {L : Realm → β → Prop}

theorem pure (h : I r) {v : α} (hv : K r v) : Yields W I r K (pure v : EStateM ε Realm α) where
  ok hResult := by
    cases hResult
    exact ⟨.refl h, hv⟩
  error hResult := by cases hResult

theorem throw (h : I r) (e : ε) : Yields W I r K (throw e : EStateM ε Realm α) where
  ok hResult := by cases hResult
  error hResult := by
    cases hResult
    exact .refl h

theorem modify_with {K : Realm → Prop} {g : Realm → Realm} (h : Onward W I r (g r)) (hK : K (g r)) :
    Yields W I r (fun s _ => K s) (modify g : EStateM ε Realm PUnit) where
  ok hResult := by
    cases hResult
    exact ⟨h, hK⟩
  error hResult := by cases hResult

theorem modify {g : Realm → Realm} (h : Onward W I r (g r)) :
    Yields W I r (fun _ _ => True) (modify g : EStateM ε Realm PUnit) :=
  modify_with h trivial

theorem set (h : Onward W I r s) : Yields W I r (fun _ _ => True) (set s : EStateM ε Realm PUnit) :=
  modify (g := fun _ => s) h

theorem get {f : Realm → EStateM ε Realm β} (h : Yields W I r L (f r)) : Yields W I r L (get >>= f) :=
  ⟨h.ok, h.error⟩

theorem bind {x : EStateM ε Realm α} {f : α → EStateM ε Realm β} (hx : Yields W I r K x)
    (hf : ∀ v s, Onward W I r s → K s v → Yields W I s L (f v)) : Yields W I r L (x >>= f) where
  ok hResult := by
    obtain ⟨v, s, hFirst, hRest⟩ := exists_of_bind_eq_ok hResult
    obtain ⟨hs, hv⟩ := hx.ok hFirst
    obtain ⟨ht, hw⟩ := (hf v s hs hv).ok hRest
    exact ⟨hs.trans ht, hw⟩
  error {e t} hResult := by
    cases hFirst : x r with
    | ok v s =>
      obtain ⟨hs, hv⟩ := hx.ok hFirst
      rw [bind_ok hFirst] at hResult
      exact hs.trans ((hf v s hs hv).error hResult)
    | error e s =>
      rw [bind_error hFirst] at hResult
      cases hResult
      exact hx.error hFirst

theorem discard {x : EStateM ε Realm α} (hx : Yields W I r K x) :
    Yields W I r (fun _ _ => True) (discard x) := by
  change Yields W I r _ ((fun _ => PUnit.unit) <$> x)
  rw [map_eq_pure_bind]
  exact hx.bind fun _ s hs _ => .pure hs.inv trivial

/-- The values of one action after the other, of which nothing is forgotten in between. -/
theorem mapM {f : α → EStateM ε Realm β} (hL : ∀ {r s v}, Onward W I r s → L r v → L s v) {l : List α}
    (hf : ∀ v ∈ l, ∀ {r}, I r → Yields W I r L (f v)) (h : I r) :
    Yields W I r (fun s ws => ∀ w ∈ ws, L s w) (l.mapM f) := by
  induction l generalizing r with
  | nil => exact .pure h fun _ hw => by cases hw
  | cons v l ih =>
    rw [List.mapM_cons]
    refine (hf v List.mem_cons_self h).bind fun w s hs hw => ?_
    refine (ih (fun v hv => hf v (List.mem_cons_of_mem _ hv)) hs.inv).bind fun ws t ht hws => ?_
    exact .pure ht.inv (List.forall_mem_cons.mpr ⟨hL ht hw, hws⟩)

theorem forIn {f : α → PUnit → EStateM ε Realm (ForInStep PUnit)} {l : List α}
    (hf : ∀ v ∈ l, ∀ s, Onward W I r s → Yields W I s (fun _ _ => True) (f v ⟨⟩)) (h : I r) :
    Yields W I r (fun _ _ => True) (forIn l ⟨⟩ f) := by
  induction l generalizing r with
  | nil => exact .pure h trivial
  | cons v l ih =>
    rw [List.forIn_cons]
    refine (hf v List.mem_cons_self r (.refl h)).bind fun step s hs _ => ?_
    cases step with
    | done w => exact .pure hs.inv trivial
    | yield w => exact ih (fun v hv t ht => hf v (List.mem_cons_of_mem _ hv) t (hs.trans ht)) hs.inv

theorem stateAfter {x : EStateM ε Realm α} (hx : Yields W I r K x) :
    Onward W I r (PageRender.stateAfter x r) := by
  cases hResult : x r with
  | ok v s =>
    rw [stateAfter_of_ok hResult]
    exact (hx.ok hResult).1
  | error e s =>
    rw [stateAfter_of_error hResult]
    exact hx.error hResult

end Yields

/-! ## Properties and functions of the page -/

theorem yields_textOf (h : I r) (v : Value) : Yields W I r (fun _ _ => True) (textOf v) :=
  .get (.pure h trivial)

theorem yields_raise {K : Realm → α → Prop} (h : I r) (e : ScriptError) :
    Yields W I r K (raise e : ScriptM α) :=
  .throw h _

theorem yields_raise_text {K : Realm → α → Prop} (h : I r) (v : Value) (e : String → ScriptError) :
    Yields W I r K (do raise (e (← textOf v)) : ScriptM α) :=
  (yields_textOf h v).bind fun _ _ hs _ => .throw hs.inv _

namespace Flow

variable (flow : Flow W I)

include flow

theorem undefined (r : Realm) : W r .undefined :=
  flow.plain trivial

theorem readName (h : I r) (name : String) : Yields W I r W (readName name) := by
  refine .get ?_
  split
  · rename_i v hLookup
    exact .pure h ((flow.holds h).lookup? hLookup)
  · exact yields_raise h _

theorem newNative (h : I r) {n : Native} (hn : ∀ id, W r (.native id n)) :
    Yields W I r W (newNative n) :=
  .get (.bind (.set (flow.native n h)) fun _ _ hs _ => .pure hs.inv (hs.known (hn r.natives)))

theorem binaryValue (h : I r) (op : BinaryOp) (a b : Value) : Yields W I r W (binaryValue op a b) := by
  have hText : ∀ v (f : String → String),
      Yields W I r W (do return .string (f (← Script.textOf v)) : ScriptM Value) :=
    fun v _ => (yields_textOf h v).bind fun _ _ hs _ => .pure hs.inv (flow.plain trivial)
  have hPlain : ∀ v : Value, v.IsPlain → Yields W I r W (pure v : ScriptM Value) :=
    fun v hv => .pure h (flow.plain hv)
  unfold Script.binaryValue
  cases op with
  | add =>
    dsimp only
    split
    · exact hText _ _
    · exact hText _ _
    · exact hPlain _ trivial
  | less | greater =>
    dsimp only
    split <;> exact hPlain _ trivial
  | equal | notEqual | subtract | multiply | divide => exact hPlain _ trivial

theorem stringProperty (h : I r) (s name : String) : Yields W I r W (stringProperty s name) := by
  have hPlain : ∀ v : Value, v.IsPlain → Yields W I r W (pure v : ScriptM Value) :=
    fun v hv => .pure h (flow.plain hv)
  rw [Script.stringProperty]
  split
  · exact hPlain _ trivial
  split
  · split
    · exact .throw h _
    · split <;> exact hPlain _ trivial
  · exact hPlain _ trivial

theorem elementProperty (h : I r) {node : NodeId} (hNode : W r (.element node)) (name : String) :
    Yields W I r W (elementProperty node name) := by
  have hNative : ∀ n ∈ Native.ofElement node, Yields W I r W (Script.newNative n) :=
    fun n hn => flow.newNative h fun id => flow.ofElement id hNode hn
  refine .get ?_
  dsimp only
  split
  all_goals first
    | exact .pure h (flow.plain trivial)
    | exact hNative _ (by simp [Native.ofElement])

theorem property (h : I r) {base : Value} (hBase : W r base) (name : String) :
    Yields W I r W (property base name) := by
  cases base with
  | undefined | null => exact yields_raise_text h _ _
  | object id => exact .get (.pure h (((flow.holds h).object id).getD (flow.plain trivial) name))
  | string s => exact flow.stringProperty h s name
  | element node => exact flow.elementProperty h hBase name
  | boolean | number | function | native => exact .pure h (flow.plain trivial)

/-- Only to elements that may be at hand do scripts give new children. -/
theorem setElementProperty (h : I r) {node : NodeId} (hNode : W r (.element node)) (name : String)
    (v : Value) : Yields W I r (fun _ _ => True) (setElementProperty node name v) := by
  have hChange : ∀ change : Dom → String → Dom,
      (∀ text, Onward W I r (r.onPage fun p => p.changed (change p.dom text))) →
      Yields W I r (fun _ _ => True) (do
        let text ← Script.textOf v
        Script.onPage (·.changed (change r.page.dom text)) : ScriptM Unit) :=
    fun change hText => .get (.modify (hText _))
  refine .get ?_
  dsimp only
  split
  · exact hChange (fun d text => d.replaceChildren node [.text () text])
      fun text => flow.replaceChildren _ h hNode
  · exact hChange (fun d text => d.replaceChildren node (Markup.parseFragment text))
      fun text => flow.replaceChildren _ h hNode
  · exact hChange (fun d text => d.setAttribute node "id" text) fun text => flow.setAttribute node _ text h
  · exact hChange (fun d text => d.setAttribute node "value" text)
      fun text => flow.setAttribute node _ text h
  · exact yields_raise h _

theorem setProperty (h : I r) {base v : Value} (hBase : W r base) (hv : W r v) (name : String) :
    Yields W I r (fun _ _ => True) (setProperty base name v) := by
  cases base with
  | object id => exact .modify (flow.object id name h hv)
  | element node => exact flow.setElementProperty h hBase name v
  | undefined | null | boolean | number | string | function | native => exact yields_raise_text h _ _

theorem withHandle (h : I r) (node : NodeId) : Onward W I r (r.onPage (·.withHandle node)) := by
  have hShown := flow.shown (r.page.handles ++ [node]) r.page.alerts r.page.console r.page.journal h
  rw [Realm.onPage, Page.withHandle]
  split
  · exact .refl h
  · exact hShown

theorem elementById (h : I r) (id : String) : Yields W I r W (elementById id) := by
  refine .get ?_
  split
  · rename_i node hGet
    exact Yields.bind (.modify (flow.withHandle h node)) fun _ s hs _ =>
      .pure hs.inv (hs.known (flow.byId h hGet))
  · exact .pure h (flow.plain trivial)

theorem callHost (h : I r) {id : Nat} {n : Native} (hn : W r (.native id n)) {args : List Value}
    (hArgs : ∀ v ∈ args, W r v) :
    Yields W I r (fun s answer => ∀ v ∈ answer, W s v) (callHost n args) := by
  have hArg := holds_arg (flow.undefined r) hArgs
  have hSome : ∀ {s : Realm} {v : Value}, W s v → ∀ w ∈ some v, W s w := by
    intro s v hv w hw
    rwa [← Option.mem_some_iff.mp hw]
  have hPlain : ∀ {s : Realm} {v : Value}, v.IsPlain → ∀ w ∈ some v, W s w :=
    fun hv => hSome (flow.plain hv)
  cases n with
  | external name arity reply =>
    refine Yields.bind (.modify (flow.external _ h)) fun _ s hs _ => ?_
    cases reply with
    | firstArgument => exact .pure hs.inv (hSome (hs.known (hArg 0)))
    | refusal => exact yields_raise hs.inv _
  | getElementById =>
    exact (yields_textOf h _).bind fun text s hs _ => (flow.elementById hs.inv text).bind fun v t ht hv =>
      .pure ht.inv (hSome hv)
  | querySelector =>
    refine (yields_textOf h _).bind fun text s hs _ => ?_
    split
    · exact (flow.elementById hs.inv _).bind fun v t ht hv => .pure ht.inv (hSome hv)
    · exact .pure hs.inv (hPlain trivial)
  | alert =>
    refine (yields_textOf h _).bind fun text s hs _ => ?_
    have hAlert := flow.shown s.page.handles (s.page.alerts ++ [text]) s.page.console
      (s.page.journal ++ [⟨.info, "Alert: " ++ text⟩]) hs.inv
    exact Yields.bind (.modify hAlert) fun _ t ht _ => .pure ht.inv (hPlain trivial)
  | setTimeout =>
    exact Yields.bind (.modify (flow.timer _ h (hArg 0))) fun _ s hs _ => .pure hs.inv (hPlain trivial)
  | log =>
    have hTexts := Yields.mapM (W := W) (I := I) (L := fun _ _ => True) (f := Script.textOf) (l := args)
      (fun _ _ => trivial) (fun v _ _ hr => yields_textOf hr v) h
    refine hTexts.bind fun texts s hs _ => ?_
    have hConsole := flow.shown s.page.handles s.page.alerts (s.page.console ++ [" ".intercalate texts])
      (s.page.journal ++ [⟨.info, "console.log: " ++ " ".intercalate texts⟩]) hs.inv
    exact Yields.bind (.modify hConsole) fun _ t ht _ => .pure ht.inv (hPlain trivial)
  | getAttribute node =>
    refine (yields_textOf h _).bind fun name s hs _ => .get (.pure hs.inv (hPlain ?_))
    cases s.page.dom.attribute? node name <;> trivial
  | setAttribute node =>
    exact (yields_textOf h _).bind fun name s hs _ => (yields_textOf hs.inv _).bind fun value t ht _ =>
      Yields.bind (.modify (flow.setAttribute node name value ht.inv)) fun _ u hu _ =>
        .pure hu.inv (hPlain trivial)
  | addEventListener node =>
    unfold Script.callHost
    dsimp only
    split
    · exact (yields_textOf h _).bind fun type s hs _ =>
        Yields.bind (.modify (flow.listener type hs.inv (hs.known hn) (hs.known (hArg 1)))) fun _ t ht _ =>
          .pure ht.inv (hPlain trivial)
    · exact .pure h (hPlain trivial)
  | preventDefault dispatch =>
    exact Yields.bind (.modify (flow.prevented h hn)) fun _ s hs _ => .pure hs.inv (hPlain trivial)
  | click node => exact .pure h fun _ hv => by cases hv

/-- A new event has its number from the page, and knows the element it is sent to. -/
theorem newEvent (h : I r) {node : NodeId} {type : String} {f : Value}
    (hf : f ∈ r.page.listenersOf node type) :
    Yields W I r (fun s made => W s made.1) (newEvent node type) := by
  obtain ⟨hNumber, hTarget, hPrevent⟩ := flow.event h hf
  have hHandle := flow.withHandle hNumber.inv node
  refine .get (Yields.bind (K := fun s _ => W s (.element node) ∧
    ∀ id, W s (.native id (.preventDefault r.page.dispatches))) ?_ fun _ s hs hKnown => ?_)
  · exact .modify_with (hNumber.trans hHandle) ⟨hHandle.known hTarget, fun id => hHandle.known (hPrevent id)⟩
  refine (flow.newNative hs.inv hKnown.2).bind fun prevent t ht hFunction => .get ?_
  refine .bind (.set (flow.newObject ht.inv (.ofList ?_))) fun _ u hu _ => .pure hu.inv (flow.plain trivial)
  simp only [List.forall_mem_cons, List.not_mem_nil, false_imp_iff, implies_true, and_true]
  exact ⟨flow.plain trivial, ht.known hKnown.1, hFunction⟩

theorem inScope {K : Realm → α → Prop} (h : I r) {scope : Scope} (hScope : Scope.All (W r) scope)
    (outer : Option Nat) {body : ScriptM α} (hBody : ∀ s, Onward W I r s → Yields W I s K body)
    (hK : ∀ {s t v}, Onward W I s t → K s v → K t v) :
    Yields W I r K (inScope scope outer body) where
  ok {v s} hResult := by
    have hEnter := flow.enter outer h hScope
    rw [inScope_apply] at hResult
    split at hResult
    · rename_i hInside
      cases hResult
      obtain ⟨hs, hv⟩ := (hBody _ hEnter).ok hInside
      have hLeave := flow.leave r hs.inv
      exact ⟨hEnter.trans (hs.trans hLeave), hK hLeave hv⟩
    · cases hResult
  error {e s} hResult := by
    have hEnter := flow.enter outer h hScope
    rw [inScope_apply] at hResult
    split at hResult
    · cases hResult
    · rename_i hInside
      cases hResult
      have hs := (hBody _ hEnter).error hInside
      exact hEnter.trans (hs.trans (flow.leave r hs.inv))

theorem write (h : I r) (level : Level) (text : String) :
    Onward W I r (r.onPage (·.write level text)) := by
  have hShown := flow.shown r.page.handles r.page.alerts r.page.console
    (r.page.journal ++ [⟨level, text⟩]) h
  exact hShown

theorem logErrors {K : Realm → Unit → Prop} {body : ScriptM Unit} (hBody : Yields W I r K body)
    (context : Realm → String) : Yields W I r (fun _ _ => True) (logErrors context body) where
  ok hResult := by
    unfold Script.logErrors at hResult
    split at hResult
    · rename_i hInside
      cases hResult
      exact ⟨(hBody.ok hInside).1, trivial⟩
    · rename_i hInside
      have hs := hBody.error hInside
      split at hResult
      · cases hResult
        exact ⟨hs.trans (flow.write hs.inv _ _), trivial⟩
      · cases hResult
  error hResult := by
    unfold Script.logErrors at hResult
    split at hResult
    · cases hResult
    · rename_i hInside
      split at hResult
      · cases hResult
      · cases hResult
        exact hBody.error hInside

end Flow

/-! ## Evaluation -/

/-- What evaluation does with a supply of `n` steps leads onward, and comes by values of which the same is
known. -/
structure FlowsUpTo (W : Realm → Value → Prop) (I : Realm → Prop) (n : Nat) : Prop where
  exec : ∀ {r}, I r → ∀ s, Yields W I r (fun t done => W t done.programResult) (exec n s)
  execAll : ∀ {r last}, I r → W r last → ∀ ss,
    Yields W I r (fun t done => W t done.programResult) (execAll n last ss)
  loop : ∀ {r}, I r → ∀ test update body,
    Yields W I r (fun t done => W t done.programResult) (loop n test update body)
  eval : ∀ {r}, I r → ∀ e, Yields W I r W (eval n e)
  evalAll : ∀ {r}, I r → ∀ es, Yields W I r (fun t vs => ∀ v ∈ vs, W t v) (evalAll n es)
  store : ∀ {r v}, I r → W r v → ∀ target, Yields W I r (fun _ _ => True) (store n target v)
  callValue : ∀ {r f args}, I r → W r f → (∀ v ∈ args, W r v) → ∀ timerScope,
    Yields W I r W (callValue n f args timerScope)
  dispatch : ∀ {r}, I r → ∀ node type, Yields W I r (fun _ _ => True) (dispatch n node type)
  callListeners : ∀ {r event fs}, I r → W r event → (∀ f ∈ fs, W r f) → ∀ node type,
    Yields W I r (fun _ _ => True) (callListeners n node type event fs)

namespace FlowsUpTo

variable {n : Nat} (flow : Flow W I) (hn : FlowsUpTo W I n)

theorem zero : FlowsUpTo W I 0 := by
  constructor
  all_goals
    intro r
    intros
    first
      | rw [Script.exec] | rw [Script.execAll] | rw [Script.loop] | rw [Script.eval] | rw [Script.evalAll]
      | rw [Script.store] | rw [Script.callValue] | rw [Script.dispatch] | rw [Script.callListeners]
    exact .throw (by assumption) _

include flow hn

theorem exec_succ (h : I r) (s : Stmt) :
    Yields W I r (fun t done => W t done.programResult) (Script.exec (n + 1) s) := by
  rw [Script.exec.eq_def]
  cases s with
  | declare kind name init =>
    have hSet : ∀ (v : Value) t, Onward W I r t → W t v →
        Yields W I t (fun u done => W u done.programResult)
          (do modify (·.setName name v); return .value v : ScriptM Completion) :=
      fun v t ht hv => Yields.bind (.modify (flow.name name ht.inv hv)) fun _ u hu _ =>
        .pure hu.inv (hu.known hv)
    cases init with
    | none => exact hSet .undefined r (.refl h) (flow.plain trivial)
    | some e => exact (hn.eval h e).bind hSet
  | function name params body =>
    have hClosure := flow.closure params body (some name) h
    exact .get (.bind (.set (hClosure.trans (flow.name name hClosure.inv (flow.plain trivial))))
      fun _ s hs _ => .pure hs.inv (flow.plain trivial))
  | ifElse test consequent alternate =>
    refine (hn.eval h test).bind fun v s hs _ => ?_
    split
    · exact hn.exec hs.inv consequent
    · cases alternate with
      | none => exact .pure hs.inv (flow.plain trivial)
      | some s => exact hn.exec hs.inv s
  | forLoop init test update body =>
    cases init with
    | none => exact hn.loop h test update body
    | some s => exact (hn.exec h s).discard.bind fun _ t ht _ => hn.loop ht.inv test update body
  | whileLoop test body => exact hn.loop h (some test) none body
  | returns argument =>
    cases argument with
    | none => exact .pure h (flow.plain trivial)
    | some e => exact (hn.eval h e).bind fun v s hs hv => .pure hs.inv hv
  | block body => exact hn.execAll h (flow.undefined r) body
  | expression e => exact (hn.eval h e).bind fun v s hs hv => .pure hs.inv hv

omit flow in
theorem execAll_succ {last : Value} (h : I r) (hLast : W r last) (ss : List Stmt) :
    Yields W I r (fun t done => W t done.programResult) (Script.execAll (n + 1) last ss) := by
  cases ss with
  | nil =>
    rw [Script.execAll]
    exact .pure h hLast
  | cons s ss =>
    rw [Script.execAll]
    refine (hn.exec h s).bind fun done t ht hDone => ?_
    cases done with
    | returned v => exact .pure ht.inv hDone
    | value v => exact hn.execAll ht.inv hDone ss

theorem loop_succ (h : I r) (test update : Option Expr) (body : Stmt) :
    Yields W I r (fun t done => W t done.programResult) (Script.loop (n + 1) test update body) := by
  obtain ⟨behind, hReturned, hValue, hLoop⟩ := exists_loop_eq n test update body
  have hRound : ∀ s, Onward W I r s →
      Yields W I s (fun t done => W t done.programResult) (Script.exec n body >>= behind) := by
    intro s hs
    refine (hn.exec hs.inv body).bind fun done t ht hDone => ?_
    cases done with
    | returned v => exact hReturned v ▸ .pure ht.inv hDone
    | value v =>
      rw [hValue]
      cases update with
      | none => exact hn.loop ht.inv test none body
      | some e => exact (hn.eval ht.inv e).discard.bind fun _ u hu _ => hn.loop hu.inv test (some e) body
  rw [hLoop]
  cases test with
  | none => exact hRound r (.refl h)
  | some e =>
    refine (hn.eval h e).bind fun v s hs _ => ?_
    split
    · exact hRound s hs
    · exact .pure hs.inv (flow.plain trivial)

theorem eval_succ (h : I r) (e : Expr) : Yields W I r W (Script.eval (n + 1) e) := by
  rw [Script.eval.eq_def]
  cases e with
  | literal l =>
    refine .pure h (flow.plain ?_)
    cases l <;> trivial
  | name name => exact flow.readName h name
  | member object name =>
    exact (hn.eval h object).bind fun base s hs hBase => flow.property hs.inv hBase name
  | index object key =>
    exact (hn.eval h object).bind fun base s hs hBase => (hn.eval hs.inv key).bind fun k t ht _ =>
      (yields_textOf ht.inv k).bind fun name u hu _ =>
        flow.property hu.inv (hu.known (ht.known hBase)) name
  | call callee args =>
    refine (hn.eval h callee).bind fun f s hs hf => (hn.evalAll hs.inv args).bind fun vs t ht hvs => ?_
    split
    · exact hn.callValue ht.inv (ht.known hf) hvs none
    · exact yields_raise_text ht.inv _ _
  | function params body =>
    exact .get (.bind (.set (flow.closure params body none h)) fun _ s hs _ =>
      .pure hs.inv (flow.plain trivial))
  | unary op operand =>
    refine (hn.eval h operand).bind fun v s hs _ => .pure hs.inv (flow.plain ?_)
    cases op <;> trivial
  | binary op left right =>
    exact (hn.eval h left).bind fun a s hs _ => (hn.eval hs.inv right).bind fun b t ht _ =>
      flow.binaryValue ht.inv op a b
  | update op target before =>
    exact (hn.eval h target.toExpr).bind fun v s hs _ =>
      (hn.store (v := .number _) hs.inv (flow.plain trivial) target).bind fun _ t ht _ =>
        .pure ht.inv (flow.plain trivial)
  | assign target value =>
    exact (hn.eval h value).bind fun v s hs hv => (hn.store hs.inv hv target).bind fun _ t ht _ =>
      .pure ht.inv (ht.known hv)

omit flow in
theorem evalAll_succ (h : I r) (es : List Expr) :
    Yields W I r (fun t vs => ∀ v ∈ vs, W t v) (Script.evalAll (n + 1) es) := by
  cases es with
  | nil =>
    rw [Script.evalAll]
    exact .pure h fun _ hv => by cases hv
  | cons e es =>
    rw [Script.evalAll]
    exact (hn.eval h e).bind fun v s hs hv => (hn.evalAll hs.inv es).bind fun vs t ht hvs =>
      .pure ht.inv (List.forall_mem_cons.mpr ⟨ht.known hv, hvs⟩)

theorem store_succ {v : Value} (h : I r) (hv : W r v) (target : Target) :
    Yields W I r (fun _ _ => True) (Script.store (n + 1) target v) := by
  rw [Script.store.eq_def]
  cases target with
  | name name => exact .modify (flow.name name h hv)
  | member object name =>
    exact (hn.eval h object).bind fun base s hs hBase => flow.setProperty hs.inv hBase (hs.known hv) name
  | index object key =>
    exact (hn.eval h object).bind fun base s hs hBase => (hn.eval hs.inv key).bind fun k t ht _ =>
      (yields_textOf ht.inv k).bind fun name u hu _ =>
        flow.setProperty hu.inv (hu.known (ht.known hBase)) (hu.known (ht.known (hs.known hv))) name

theorem callValue_succ {f : Value} {args : List Value} (h : I r) (hf : W r f) (hArgs : ∀ v ∈ args, W r v)
    (timerScope : Option Nat) : Yields W I r W (Script.callValue (n + 1) f args timerScope) := by
  have hUndefined := flow.undefined r
  rw [Script.callValue.eq_def]
  cases f with
  | native id native =>
    refine (flow.callHost h hf (native.arity.holds_adjust hUndefined hArgs)).bind fun answer s hs hAnswer => ?_
    cases answer with
    | some v => exact .pure hs.inv (hAnswer v rfl)
    | none =>
      cases native with
      | click node =>
        exact (hn.dispatch hs.inv node "click").discard.bind fun _ t ht _ => .pure ht.inv (flow.plain trivial)
      | _ => exact .pure hs.inv (flow.plain trivial)
  | function id =>
    refine .get ?_
    dsimp only
    split
    · exact .pure h hUndefined
    · rename_i c hClosure
      have hScope := Closure.all_scope hUndefined hArgs ((flow.holds h).snapshot id c hClosure)
      split
      · exact yields_raise h _
      · refine (flow.inScope h hScope _ (fun s hs => hn.execAll hs.inv (flow.undefined s) c.body)
          fun hNext hDone => hNext.known hDone).bind fun done s hs hDone => .pure hs.inv ?_
        cases done with
        | returned v => exact hDone
        | value v => exact flow.plain trivial
  | undefined | null | boolean | number | string | object | element => exact yields_raise_text h _ _

theorem dispatch_succ (h : I r) (node : NodeId) (type : String) :
    Yields W I r (fun _ _ => True) (Script.dispatch (n + 1) node type) := by
  rw [Script.dispatch]
  refine .get ?_
  have hListeners : ∀ f ∈ r.page.listenersOf node type, W r f :=
    fun f hf => (flow.holds h).page.listenersOf hf
  split
  · exact .pure h trivial
  · rename_i hSome
    obtain ⟨f, hf⟩ := List.exists_mem_of_ne_nil _ hSome
    refine (flow.newEvent h hf).bind fun made s hs hMade => ?_
    exact (hn.callListeners hs.inv hMade (fun g hg => hs.known (hListeners g hg)) node type).bind
      fun _ t ht _ => .get (.pure ht.inv trivial)

theorem callListeners_succ {event : Value} {fs : List Value} (h : I r) (hEvent : W r event)
    (hListeners : ∀ f ∈ fs, W r f) (node : NodeId) (type : String) :
    Yields W I r (fun _ _ => True) (Script.callListeners (n + 1) node type event fs) := by
  cases fs with
  | nil =>
    rw [Script.callListeners]
    exact .pure h trivial
  | cons f fs =>
    obtain ⟨hFirst, hRest⟩ := List.forall_mem_cons.mp hListeners
    have hArgs : ∀ v ∈ [event], W r v := by simpa using hEvent
    rw [Script.callListeners]
    exact (flow.logErrors (hn.callValue h hFirst hArgs none).discard _).bind fun _ s hs _ =>
      hn.callListeners hs.inv (hs.known hEvent) (fun g hg => hs.known (hRest g hg)) node type

end FlowsUpTo

namespace Flow

variable (flow : Flow W I)

include flow

theorem evaluation (n : Nat) : FlowsUpTo W I n := by
  induction n with
  | zero => exact .zero
  | succ n ih =>
    exact ⟨ih.exec_succ flow, ih.execAll_succ, ih.loop_succ flow, ih.eval_succ flow, ih.evalAll_succ,
      ih.store_succ flow, ih.callValue_succ flow, ih.dispatch_succ flow, ih.callListeners_succ flow⟩

/-! ## Hosts -/

theorem runSource (h : I r) (source : String) : Yields W I r W (runSource source) := by
  rw [Script.runSource]
  cases readProgram source with
  | error i => exact .throw h i
  | ok program =>
    exact ((flow.evaluation stepSupply).execAll h (flow.undefined r) program).bind
      fun done s hs hDone => .pure hs.inv hDone

theorem forgiving {K : Realm → α → Prop} {body : ScriptM α} (hBody : Yields W I r K body)
    (context : String) {otherwise : α} (hOtherwise : ∀ s, K s otherwise) :
    Yields W I r K (forgiving context otherwise body) where
  ok hResult := by
    unfold Script.forgiving at hResult
    split at hResult
    · rename_i hInside
      cases hResult
      exact hBody.ok hInside
    · rename_i hInside
      have hs := hBody.error hInside
      split at hResult
      · cases hResult
        exact ⟨hs.trans (flow.write hs.inv _ _), hOtherwise _⟩
      · cases hResult
  error hResult := hBody.error (forgiving_eq_error_iff.mp hResult)

theorem runScript (h : I r) (source name : String) : Yields W I r W (runScript source name) :=
  flow.forgiving (flow.runSource h source) _ fun _ => flow.plain trivial

theorem dispatchEvent (h : I r) (node : NodeId) (type : String) :
    Yields W I r (fun _ _ => True) (dispatchEvent node type) :=
  flow.forgiving ((flow.evaluation stepSupply).dispatch h node type) _ fun _ => trivial

theorem runCallback (h : I r) {task : TimerTask} (hTask : W r task.callback) :
    Yields W I r (fun _ _ => True) (runCallback task) := by
  refine .get ?_
  split
  · exact .pure h trivial
  · have hCall := (flow.evaluation stepSupply).callValue h hTask (List.forall_mem_nil _) (some task.scope)
    exact flow.forgiving hCall.discard _ fun _ => trivial

theorem runTask (h : I r) : Yields W I r (fun _ _ => True) runTask := by
  refine .get ?_
  split
  · exact .pure h trivial
  · rename_i task tasks hTasks
    have hTask : W r task.callback := (flow.holds h).page.tasks task (by rw [hTasks]; exact List.mem_cons_self)
    exact Yields.bind (.modify (flow.takeTask h hTasks)) fun _ s hs _ =>
      (flow.runCallback hs.inv (hs.known hTask)).bind fun _ t ht _ => .pure ht.inv trivial

theorem runTasks (h : I r) (n : Nat) : Yields W I r (fun _ _ => True) (runTasks n) := by
  induction n generalizing r with
  | zero => exact .pure h trivial
  | succ n ih =>
    refine (flow.runTask h).bind fun found s hs _ => ?_
    cases found with
    | false => exact .pure hs.inv trivial
    | true => exact (ih hs.inv).bind fun count t ht _ => .pure ht.inv trivial

theorem runPending (h : I r) : Yields W I r (fun _ _ => True) runPending :=
  .get (flow.runTasks h _)

theorem newHost (h : I r) {natives : List Native} (hNatives : ∀ n ∈ natives, n ∈ Native.ofPage) :
    Yields W I r W (newHost natives) := by
  have hProperties := Yields.mapM (W := W) (I := I) (L := fun s e => W s e.2)
    (f := fun n => (do return (n.name, ← Script.newNative n) : ScriptM (String × Value))) (l := natives)
    (fun {_ _ e} hs (hv : W _ e.2) => hs.known hv)
    (fun n hn _ hr => (flow.newNative hr fun id => flow.ofPage id (hNatives n hn)).bind fun v s hs hv =>
      .pure hs.inv hv) h
  exact hProperties.bind fun es s hs hes => .get (.bind (.set (flow.newObject hs.inv (.ofList hes)))
    fun _ t ht _ => .pure ht.inv (flow.plain trivial))

theorem setPageNames (h : I r) : Yields W I r (fun _ _ => True) setPageNames := by
  unfold Script.setPageNames
  refine (flow.newHost h (by decide)).bind fun window s hs hWindow => ?_
  refine (flow.newHost hs.inv (by decide)).bind fun document t ht hDocument => ?_
  refine (flow.newHost ht.inv (by decide)).bind fun console u hu hConsole => ?_
  have hStill := hu.known (ht.known hWindow)
  refine (flow.property hu.inv hStill "alert").bind fun alert x hx hAlert => ?_
  refine (flow.property hx.inv (hx.known hStill) "setTimeout").bind fun setTimeout y hy hSetTimeout => ?_
  have hNames : ∀ e ∈ [("document", document), ("window", window), ("console", console),
      ("alert", alert), ("setTimeout", setTimeout)], W y e.2 := by
    have hBoth := hx.trans hy
    simp [hBoth.known (hu.known hDocument), hBoth.known hStill, hBoth.known hConsole, hy.known hAlert,
      hSetTimeout]
  refine Yields.bind (K := fun _ _ => True) (.forIn (fun entry hEntry u hu => ?_) hy.inv) fun _ u hu _ =>
    .pure hu.inv trivial
  exact Yields.bind (.modify (flow.name entry.1 hu.inv (hu.known (hNames entry hEntry)))) fun _ v hv _ =>
    .pure hv.inv trivial

theorem forPage {page : Page} (h : I { page }) : I (Realm.forPage page) := by
  have hAfter := (flow.setPageNames h).stateAfter.inv
  rw [PageRender.stateAfter] at hAfter
  unfold Realm.forPage
  cases hResult : Script.setPageNames { page } <;> rw [hResult] at hAfter <;> exact hAfter

end Flow

end PageRender.Script
