import PageRender.Proofs.Script.Compositions

/-! # What no script sees

Whatever happened around a page before, its scripts, listeners and callbacks do the same, and add what
they change and write to what was there. Tasks that wait behind those of the page stay behind them.
-/

namespace PageRender.Script

variable (u : Unseen)

theorem commutes_inScope {α : Type} {body : ScriptM α} (hBody : Commutes (·.plus u) body)
    (scope : Scope) (outer : Option Nat) : Commutes (·.plus u) (inScope scope outer body) := by
  intro r
  have hInside : body ((r.plus u).enter scope outer) = changing (·.plus u) (body (r.enter scope outer)) :=
    hBody (r.enter scope outer)
  dsimp only
  rw [inScope_apply, inScope_apply, hInside]
  cases body (r.enter scope outer) <;> rfl

theorem Realm.write_plus (r : Realm) (level : Level) (text : String) :
    (r.plus u).onPage (·.write level text) = (r.onPage (·.write level text)).plus u :=
  congrArg (fun p => { r with page := p }) (r.page.plus_write u level text)

theorem commutes_logErrors {body : ScriptM Unit} (hBody : Commutes (·.plus u) body) (node : NodeId)
    (type : String) : Commutes (·.plus u) (logErrors (listenerContext node type) body) := by
  intro r
  unfold logErrors
  dsimp only
  rw [hBody r]
  cases body r with
  | ok v s => rfl
  | error i s =>
    dsimp only [changing]
    cases i.message? with
    | none => rfl
    | some text => exact congrArg (EStateM.Result.ok ()) (s.write_plus u .warning _)

theorem commutes_plus : Compositional fun _ _ => Commutes (·.plus u) where
  step {own α a} h r := by
    dsimp only
    rw [h.plus r u]
    rfl
  raise _ := .throw _
  fault _ := .throw _
  bind := .bind
  inScope scope outer hBody := commutes_inScope u hBody scope outer
  logErrors node type hBody := commutes_logErrors u hBody node type

theorem commutes_runSource (source : String) : Commutes (·.plus u) (runSource source) := by
  rw [runSource]
  cases readProgram source with
  | error i => exact .throw i
  | ok program => exact (((commutes_plus u).evaluation _).execAll _ program).bind fun _ => .pure _

theorem Realm.forPage_plus (p : Page) : forPage (p.plus u) = (forPage p).plus u := by
  have hNames : setPageNames { page := p.plus u } = changing (·.plus u) (setPageNames { page := p }) :=
    (commutes_plus u).setPageNames { page := p }
  unfold forPage
  rw [hNames]
  cases setPageNames { page := p } <;> rfl

theorem commutes_refreshIds : Commutes (·.plus u) (modify Realm.refreshIds : HostM PUnit) :=
  .modify fun _ => rfl

section

variable {α : Type}

theorem commutes_forgiving {body : ScriptM α} (hBody : Commutes (·.plus u) body) (context : String)
    (otherwise : α) : Commutes (·.plus u) (forgiving context otherwise body) := by
  intro r
  unfold forgiving
  dsimp only
  rw [hBody r]
  cases body r with
  | ok v s => rfl
  | error i s =>
    dsimp only [changing]
    cases i.message? with
    | none => rfl
    | some text => exact congrArg (EStateM.Result.ok otherwise) (s.write_plus u .warning _)

end

theorem commutes_runScript (source name : String) : Commutes (·.plus u) (runScript source name) :=
  commutes_forgiving u (commutes_runSource u source) _ _

theorem commutes_dispatchEvent (node : NodeId) (type : String) :
    Commutes (·.plus u) (dispatchEvent node type) :=
  commutes_forgiving u (((commutes_plus u).evaluation stepSupply).dispatch true node type) _ _

theorem commutes_runCallback (t : TimerTask) : Commutes (·.plus u) (runCallback t) := by
  refine .get fun r => ?_
  have hSame : (r.plus u).page.discarded = r.page.discarded := rfl
  rw [hSame]
  split
  · rfl
  · have hCall := ((commutes_plus u).evaluation stepSupply).callValue true t.callback [] (some t.scope)
    exact commutes_forgiving u hCall.discard _ _ r

section

variable (hTasks : u.tasks = [])

include hTasks

theorem Realm.tasks_plus (r : Realm) : (r.plus u).page.tasks = r.page.tasks := by
  change r.page.tasks ++ u.tasks = r.page.tasks
  rw [hTasks, List.append_nil]

theorem Page.plus_fire (p : Page) (timer : Nat) : (p.plus u).fire timer = (p.fire timer).plus u := by
  rw [fire, show (p.plus u).timers = p.timers from rfl, fire]
  cases p.timers[timer]? with
  | none => rfl
  | some t => simp [plus, hTasks]

theorem commutes_runTask : Commutes (·.plus u) runTask := by
  refine .get fun r => ?_
  rw [r.tasks_plus u hTasks]
  cases r.page.tasks with
  | nil => rfl
  | cons t ts =>
    have hTake : Commutes (·.plus u) (modify (·.onPage fun p => { p with tasks := ts }) : HostM PUnit) := by
      refine .modify fun r => ?_
      simp [Realm.plus, Realm.onPage, Page.plus, hTasks]
    exact hTake.bind (fun _ => (commutes_runCallback u t).bind fun _ => .pure true) r

theorem commutes_runTasks (n : Nat) : Commutes (·.plus u) (runTasks n) := by
  induction n with
  | zero => exact .pure 0
  | succ n ih =>
    refine (commutes_runTask u hTasks).bind fun found => ?_
    cases found with
    | false => exact .pure 0
    | true => exact ih.bind fun count => .pure (count + 1)

theorem commutes_runPending : Commutes (·.plus u) runPending := by
  refine .get fun r => ?_
  rw [r.tasks_plus u hTasks]
  exact commutes_runTasks u hTasks _ r

end

end PageRender.Script
