import PageRender.Proofs.Script.Hosting
import PageRender.Proofs.Script.Unseen

/-! # Tasks that wait

A timer may fire at any time, also while the tasks that wait are being run, and the page may be left at
any time. The host of a page is taken apart here into moves, so that all this can come between them: to
run what waits is to take a task and to run it, over and over, until none is left.
-/

namespace PageRender.Script

def Timer.task (t : Timer) : TimerTask :=
  ⟨t.callback, t.scope⟩

namespace Page

def timerTasks (p : Page) : List TimerTask :=
  p.timers.map Timer.task

theorem timerTasks_discard (p : Page) : p.discard.timerTasks = p.timerTasks := by
  have hCancelled : ∀ ts : List Timer,
      (ts.map fun t => { t with cancelled := true }).map Timer.task = ts.map Timer.task := by
    intro ts
    rw [List.map_map]
    rfl
  rw [timerTasks, discard, List.map_append, hCancelled, ← List.map_append, List.take_append_drop]
  rfl

/-- To fire a timer is to add its task, and nothing else. -/
theorem fire_eq_plus {p : Page} {timer : Nat} {t : TimerTask} (h : p.timerTasks[timer]? = some t) :
    p.fire timer = p.plus { tasks := [t] } := by
  rw [timerTasks, List.getElem?_map, Option.map_eq_some_iff] at h
  obtain ⟨set, hSet, rfl⟩ := h
  rw [fire, hSet, plus, Nat.zero_add]
  rfl

end Page

def TimerTask.call (t : TimerTask) : HostM Unit :=
  forgiving "setTimeout callback failed: " ()
    (discard (callValue stepSupply t.callback [] (some t.scope)))

theorem runCallback_of_discarded (t : TimerTask) {r : Realm} (h : r.page.discarded = true) :
    runCallback t r = .ok () r := by
  rw [runCallback, get_bind, if_pos h]
  rfl

theorem runCallback_of_kept (t : TimerTask) {r : Realm} (h : r.page.discarded = false) :
    runCallback t r = t.call r := by
  rw [runCallback, get_bind, if_neg (by simp [h])]
  rfl

/-- Only a fault comes out of a call: what a script can be blamed for does not. -/
theorem TimerTask.call_eq_error {t : TimerTask} {r s : Realm} {f : Fault}
    (h : t.call r = .error f s) :
    callValue stepSupply t.callback [] (some t.scope) r = .error (.fault f) s :=
  eq_error_of_discard (forgiving_eq_error_iff.mp h)

/-! ## What evaluation leaves alone -/

/-- The queue stays, the page is left or not as before, and timers are only added. -/
structure Realm.KeepsTasks (r s : Realm) : Prop where
  tasks : s.page.tasks = r.page.tasks
  discarded : s.page.discarded = r.page.discarded
  timerTasks : r.page.timerTasks <+: s.page.timerTasks

instance : IsPreorder Realm Realm.KeepsTasks where
  refl _ := ⟨rfl, rfl, List.prefix_rfl⟩
  trans _ _ _ h k :=
    ⟨k.tasks.trans h.tasks, k.discarded.trans h.discarded, h.timerTasks.trans k.timerTasks⟩

theorem Realm.KeepsTasks.timerTask {r s : Realm} (h : r.KeepsTasks s) {timer : Nat} {t : TimerTask}
    (hTimer : r.page.timerTasks[timer]? = some t) : s.page.timerTasks[timer]? = some t := by
  obtain ⟨hLt, rfl⟩ := List.getElem?_eq_some_iff.mp hTimer
  exact List.prefix_iff_getElem?.mp h.timerTasks timer hLt

theorem PageChange.keepsTasks {p q : Page} (h : PageChange p q) :
    q.tasks = p.tasks ∧ q.discarded = p.discarded ∧ p.timerTasks <+: q.timerTasks := by
  cases h with
  | handle node =>
    rw [Page.withHandle]
    split <;> exact ⟨rfl, rfl, List.prefix_rfl⟩
  | timer t =>
    refine ⟨rfl, rfl, ?_⟩
    rw [Page.timerTasks, Page.timerTasks, Page.addTimer, List.map_append]
    exact List.prefix_append _ _
  | setAttribute | replaceChildren | dispatch | prevented | listener | console | alert | journal =>
    exact ⟨rfl, rfl, List.prefix_rfl⟩

theorem Effects.keepsTasks {own : Bool} {r s : Realm} (h : Effects own r s) : r.KeepsTasks s := by
  induction h with
  | refl r => exact refl_of Realm.KeepsTasks r
  | trans first rest ihFirst ihRest => exact trans_of Realm.KeepsTasks ihFirst ihRest
  | page r change =>
    obtain ⟨hTasks, hDiscarded, hTimers⟩ := change.keepsTasks
    exact ⟨hTasks, hDiscarded, hTimers⟩
  | call r scope outer body ih => exact ⟨ih.tasks, ih.discarded, ih.timerTasks⟩
  | name | closure | native | newObject | object | external => exact ⟨rfl, rfl, List.prefix_rfl⟩

/-- A timer may fire before a callback is called, after it has ended or in between: the callback does the
same, and the queue is the same after it. -/
theorem runCallback_fire (t : TimerTask) {r : Realm} {timer : Nat} (h : timer < r.page.timers.length) :
    runCallback t (r.onPage (·.fire timer)) = changing (·.onPage (·.fire timer)) (runCallback t r) := by
  have hTimer : r.page.timerTasks[timer]? = some r.page.timers[timer].task := by
    rw [Page.timerTasks, List.getElem?_map, List.getElem?_eq_getElem h]
    rfl
  generalize r.page.timers[timer].task = task at hTimer
  have hFire : ∀ s, r.KeepsTasks s → s.onPage (·.fire timer) = s.plus { tasks := [task] } :=
    fun s hKeeps => congrArg (fun p => { s with page := p }) (Page.fire_eq_plus (hKeeps.timerTask hTimer))
  have hAfter := (leads_runCallback t r).keepsTasks
  rw [hFire r (refl_of _ r), commutes_runCallback _ t r]
  rw [stateAfter] at hAfter
  cases hResult : runCallback t r with
  | ok v s =>
    rw [hResult] at hAfter
    rw [changing, changing, hFire s hAfter]
  | error e s =>
    rw [hResult] at hAfter
    rw [changing, changing, hFire s hAfter]

/-! ## Moves of a host -/

/-- What happened to the tasks of a page: a timer fired, the page was left, the host began to run what
waits, called the callback of a task or passed over it, or came to the end with a count of tasks. -/
inductive Event where
  | fired (timer : Nat)
  | left
  | began
  | called (t : TimerTask)
  | passed (t : TimerTask)
  | ended (count : Nat)

/-- Where a host is in its work: at none, between two tasks of which it has run some, or about to run
one that it took. -/
inductive Phase where
  | idle
  | between (count : Nat)
  | holding (count : Nat) (t : TimerTask)

/-- A host of a page, and what happened so far. -/
structure Host where
  realm : Realm
  phase : Phase := .idle
  log : List Event := []

/-- What can happen next. Scripts are run and listeners told about events only by a host that is not at
work on the tasks; its work goes on by one task taken or run. -/
inductive Move where
  | runScript (source name : String)
  | dispatchEvent (node : NodeId) (type : String)
  | fire (timer : Nat)
  | leave
  | work

namespace Host

def doing {α : Type} (h : Host) (x : HostM α) : Host :=
  match h.phase with
  | .idle => { h with realm := stateAfter x h.realm }
  | _ => h

def fire (h : Host) (timer : Nat) : Host :=
  if timer < h.realm.page.timers.length then
    { h with realm := h.realm.onPage (·.fire timer), log := h.log ++ [.fired timer] }
  else h

def leave (h : Host) : Host :=
  { h with realm := h.realm.onPage Page.discard, log := h.log ++ [.left] }

/-- The next step of running the tasks that wait. A fault in a callback ends the work. -/
def work (h : Host) : Host :=
  match h.phase with
  | .idle => { h with phase := .between 0, log := h.log ++ [.began] }
  | .between count =>
    match h.realm.page.tasks with
    | [] => { h with phase := .idle, log := h.log ++ [.ended count] }
    | t :: ts =>
      { h with realm := h.realm.onPage fun p => { p with tasks := ts }, phase := .holding count t }
  | .holding count t =>
    let log := h.log ++ [if h.realm.page.discarded then .passed t else .called t]
    match runCallback t h.realm with
    | .ok _ s => ⟨s, .between (count + 1), log⟩
    | .error _ s => ⟨s, .idle, log⟩

def after (h : Host) : Move → Host
  | .runScript source name => h.doing (Script.runScript source name)
  | .dispatchEvent node type => h.doing (Script.dispatchEvent node type)
  | .fire timer => h.fire timer
  | .leave => h.leave
  | .work => h.work

def afterAll (h : Host) (moves : List Move) : Host :=
  moves.foldl after h

def opened (dom : Dom) (observed : Bool) (journal : Journal) : Host where
  realm := .forPage { dom, observed, journal }

end Host

def Event.fired? : Event → Option Nat
  | fired timer => some timer
  | _ => none

def Event.called? : Event → Option TimerTask
  | called t => some t
  | _ => none

/-- The task that was taken from the queue, whether its callback was called or not. -/
def Event.taken? : Event → Option TimerTask
  | called t | passed t => some t
  | _ => none

/-- The tasks taken since the host last began to run what waits. -/
def takenSinceBegan (log : List Event) : List TimerTask :=
  log.foldl (fun ts e => match e with
    | .began => []
    | _ => ts ++ e.taken?.toList) []

def Phase.inHand : Phase → List TimerTask
  | holding _ t => [t]
  | _ => []

def Phase.count? : Phase → Option Nat
  | idle => none
  | between count | holding count _ => some count

theorem filterMap_concat {α β : Type} (f : α → Option β) (vs : List α) (v : α) :
    (vs ++ [v]).filterMap f = vs.filterMap f ++ (f v).toList := by
  rw [List.filterMap_append]
  cases h : f v <;> simp [h]

def QuietSinceLeft (log : List Event) : Prop :=
  ∀ before after, log = before ++ .left :: after → ∀ t, .called t ∉ after

theorem QuietSinceLeft.append {log : List Event} (h : QuietSinceLeft log) {e : Event}
    (hQuiet : .left ∈ log → ∀ t, e ≠ .called t) : QuietSinceLeft (log ++ [e]) := by
  intro before after hLog t hMem
  obtain rfl | ⟨rest, last, rfl⟩ := after.eq_nil_or_concat
  · cases hMem
  · rw [List.concat_eq_append] at hLog hMem
    rw [← List.cons_append, ← List.append_assoc] at hLog
    obtain ⟨hBefore, hLast⟩ := List.append_inj' hLog rfl
    cases hLast
    rcases List.mem_append.mp hMem with hEarlier | hNow
    · exact h before rest hBefore t hEarlier
    · exact hQuiet (by rw [hBefore]; simp) t (List.mem_singleton.mp hNow).symm

/-- What a log says of the callbacks that were called: all of those taken until the page was left, and
none since. -/
structure Told (log : List Event) (discarded : Bool) : Prop where
  left : .left ∈ log ↔ discarded = true
  called : .left ∉ log → log.filterMap Event.called? = log.filterMap Event.taken?
  quiet : QuietSinceLeft log

namespace Told

theorem nil : Told [] false where
  left := by simp
  called _ := rfl
  quiet before after h := by simp at h

variable {log : List Event} {discarded : Bool} (h : Told log discarded)

include h

theorem append {e : Event} (hOther : e ≠ .left) (hCalled : ∀ t, e = .called t → discarded = false)
    (hPassed : ∀ t, e = .passed t → discarded = true) : Told (log ++ [e]) discarded where
  left := by
    rw [List.mem_append, List.mem_singleton, h.left]
    simp [hOther.symm]
  called hNot := by
    rw [List.mem_append, not_or] at hNot
    rw [filterMap_concat, filterMap_concat, h.called hNot.1]
    congr 2
    cases e with
    | passed t => exact absurd (h.left.mpr (hPassed t rfl)) hNot.1
    | fired | left | began | called | ended => rfl
  quiet := by
    refine h.quiet.append fun hLeft t hNow => ?_
    have hKept := hCalled t hNow
    rw [h.left.mp hLeft] at hKept
    cases hKept

theorem leave : Told (log ++ [.left]) true where
  left := by simp
  called hNot := absurd (by simp) hNot
  quiet := h.quiet.append fun _ _ => nofun

end Told

namespace Host

def taken (h : Host) : List TimerTask :=
  h.log.filterMap Event.taken?

def called (h : Host) : List TimerTask :=
  h.log.filterMap Event.called?

def fired (h : Host) : List Nat :=
  h.log.filterMap Event.fired?

def queue (h : Host) : List TimerTask :=
  h.realm.page.tasks

/-- What is known of the tasks at any time. Those that were taken, that are in hand and that wait are
those of the timers that fired, one for one. -/
structure Accounted (h : Host) : Prop where
  tasks : (h.taken ++ h.phase.inHand ++ h.queue).map some = h.fired.map (h.realm.page.timerTasks[·]?)
  told : Told h.log h.realm.page.discarded
  count : ∀ n, h.phase.count? = some n → n = (takenSinceBegan h.log).length

/-- A move that fires no timer hands the tasks on, and may set timers. -/
theorem tasks_of_kept {h g : Host} (hBefore : (h.taken ++ h.phase.inHand ++ h.queue).map some =
      h.fired.map (h.realm.page.timerTasks[·]?))
    (hTasks : g.taken ++ g.phase.inHand ++ g.queue = h.taken ++ h.phase.inHand ++ h.queue)
    (hFired : g.fired = h.fired) (hTimers : h.realm.page.timerTasks <+: g.realm.page.timerTasks) :
    (g.taken ++ g.phase.inHand ++ g.queue).map some = g.fired.map (g.realm.page.timerTasks[·]?) := by
  rw [hTasks, hFired, hBefore]
  -- All timers that fired are known, and those that were added come behind them.
  refine List.map_congr_left fun timer hMem => ?_
  have hKnown := List.mem_map_of_mem (f := (h.realm.page.timerTasks[·]?)) hMem
  rw [← hBefore] at hKnown
  obtain ⟨t, -, hTimer⟩ := List.mem_map.mp hKnown
  obtain ⟨hLt, rfl⟩ := List.getElem?_eq_some_iff.mp hTimer.symm
  rw [← hTimer, List.prefix_iff_getElem?.mp hTimers timer hLt]

namespace Accounted

variable {h : Host} (hh : h.Accounted)

include hh

theorem doing {α : Type} {x : HostM α} (hx : Leads (Effects true) x) : (h.doing x).Accounted := by
  unfold Host.doing
  split
  case h_1 =>
    have hKeeps := (hx h.realm).keepsTasks
    constructor
    · refine tasks_of_kept hh.tasks ?_ rfl hKeeps.timerTasks
      rw [Host.queue, hKeeps.tasks]
      rfl
    · rw [hKeeps.discarded]
      exact hh.told
    · exact hh.count
  case h_2 => exact hh

theorem fire (timer : Nat) : (h.fire timer).Accounted := by
  unfold Host.fire
  split
  case isFalse => exact hh
  case isTrue hLt =>
    have hTimer : h.realm.page.timerTasks[timer]? = some h.realm.page.timers[timer].task := by
      rw [Page.timerTasks, List.getElem?_map, List.getElem?_eq_getElem hLt]
      rfl
    let task := h.realm.page.timers[timer].task
    let g : Host := ⟨h.realm.plus { tasks := [task] }, h.phase, h.log ++ [.fired timer]⟩
    have hFire : h.realm.onPage (·.fire timer) = g.realm :=
      congrArg (fun p => { h.realm with page := p }) (Page.fire_eq_plus hTimer)
    rw [hFire]
    constructor
    · have hTaken : g.taken = h.taken := by simp [g, taken, Event.taken?]
      have hFired : g.fired = h.fired ++ [timer] := by simp [g, fired, Event.fired?]
      calc (g.taken ++ g.phase.inHand ++ (h.queue ++ [task])).map some
        _ = (h.taken ++ h.phase.inHand ++ h.queue).map some ++ [some task] := by
          rw [hTaken, ← List.append_assoc, List.map_append]
          rfl
        _ = (h.fired ++ [timer]).map (h.realm.page.timerTasks[·]?) := by
          rw [hh.tasks, ← hTimer, List.map_append]
          rfl
        _ = g.fired.map (g.realm.page.timerTasks[·]?) := by
          rw [hFired]
          rfl
    · exact hh.told.append (e := .fired timer) nofun (fun _ => nofun) (fun _ => nofun)
    · simpa [takenSinceBegan, Event.taken?] using hh.count

theorem leave : h.leave.Accounted := by
  constructor
  · refine tasks_of_kept hh.tasks ?_ ?_ ?_
    · simp [Host.leave, taken, queue, Event.taken?, Realm.onPage, Page.discard]
    · simp [Host.leave, fired, Event.fired?]
    · exact h.realm.page.timerTasks_discard ▸ List.prefix_rfl
  · exact hh.told.leave
  · simpa [Host.leave, takenSinceBegan, Event.taken?] using hh.count

theorem ran {count : Nat} {t : TimerTask} (hPhase : h.phase = .holding count t) {s : Realm}
    (hKeeps : h.realm.KeepsTasks s) {phase : Phase} (hInHand : phase.inHand = [])
    (hCount : ∀ n, phase.count? = some n → n = count + 1) :
    (Host.mk s phase
      (h.log ++ [if h.realm.page.discarded then .passed t else .called t])).Accounted := by
  have hTaken : ∀ b : Bool, (if b then Event.passed t else .called t).taken? = some t := by
    intro b
    cases b <;> rfl
  have hFired : ∀ b : Bool, (if b then Event.passed t else .called t).fired? = none := by
    intro b
    cases b <;> rfl
  constructor
  · refine tasks_of_kept hh.tasks ?_ ?_ hKeeps.timerTasks
    · have hHeld : h.phase.inHand = [t] := by rw [hPhase]; rfl
      simp [taken, queue, hTaken, hKeeps.tasks, hInHand, hHeld]
    · simp [fired, hFired]
  · dsimp only
    have hTold := hh.told
    rw [hKeeps.discarded]
    cases hDiscarded : h.realm.page.discarded with
    | true =>
      rw [hDiscarded] at hTold
      exact hTold.append (e := .passed t) nofun (fun _ => nofun) fun _ _ => rfl
    | false =>
      rw [hDiscarded] at hTold
      exact hTold.append (e := .called t) nofun (fun _ _ => rfl) fun _ => nofun
  · intro n hn
    have hSoFar := hh.count count (by rw [hPhase]; rfl)
    rw [hCount n hn, hSoFar]
    cases h.realm.page.discarded <;> simp [takenSinceBegan, Event.taken?]

theorem work : h.work.Accounted := by
  have hTasks := hh.tasks
  unfold Host.work
  cases hPhase : h.phase with
  | idle =>
    refine ⟨tasks_of_kept hTasks ?_ ?_ List.prefix_rfl, ?_, ?_⟩
    · simp [taken, queue, Event.taken?, hPhase, Phase.inHand]
    · simp [fired, Event.fired?]
    · exact hh.told.append nofun (fun _ => nofun) fun _ => nofun
    · simp [takenSinceBegan, Phase.count?]
  | between count =>
    dsimp only
    split
    · refine ⟨tasks_of_kept hTasks ?_ ?_ List.prefix_rfl, ?_, ?_⟩
      · simp [taken, queue, Event.taken?, hPhase, Phase.inHand]
      · simp [fired, Event.fired?]
      · exact hh.told.append nofun (fun _ => nofun) fun _ => nofun
      · simp [Phase.count?]
    · rename_i t ts hQueue
      refine ⟨tasks_of_kept hTasks ?_ rfl List.prefix_rfl, hh.told, ?_⟩
      · simp [taken, queue, Realm.onPage, hPhase, hQueue, Phase.inHand]
      · intro n hn
        exact hh.count n (by rw [hPhase]; exact hn)
  | holding count t =>
    dsimp only
    have hKeeps := (leads_runCallback t h.realm).keepsTasks
    rw [stateAfter] at hKeeps
    cases hResult : runCallback t h.realm with
    | ok v s =>
      rw [hResult] at hKeeps
      exact hh.ran hPhase hKeeps rfl fun n hn => (Option.some.inj hn).symm
    | error e s =>
      rw [hResult] at hKeeps
      exact hh.ran hPhase hKeeps rfl (by simp [Phase.count?])

/-- The work comes to its end only where no task is left. -/
theorem ended {n : Nat} (hEnded : h.work.log = h.log ++ [.ended n]) :
    h.work.queue = [] ∧ n = (takenSinceBegan h.log).length := by
  rw [Host.work] at hEnded ⊢
  cases hPhase : h.phase with
  | idle => simp [hPhase] at hEnded
  | between count =>
    rw [hPhase] at hEnded
    dsimp only at hEnded ⊢
    cases hQueue : h.realm.page.tasks with
    | nil =>
      rw [hQueue] at hEnded
      have hCount : count = n := by simpa using hEnded
      exact ⟨hQueue, hCount ▸ hh.count count (by rw [hPhase]; rfl)⟩
    | cons t ts => simp [hQueue] at hEnded
  | holding count t =>
    rw [hPhase] at hEnded
    dsimp only at hEnded
    split at hEnded <;> split at hEnded <;> simp at hEnded

end Accounted

theorem accounted_opened (dom : Dom) (observed : Bool) (journal : Journal) :
    (opened dom observed journal).Accounted := by
  have hKeeps := (effects_forPage { dom, observed, journal }).keepsTasks
  unfold opened
  generalize Realm.forPage { dom, observed, journal } = r at hKeeps
  constructor
  · simp [taken, fired, queue, hKeeps.tasks, Phase.inHand]
  · dsimp only
    rw [hKeeps.discarded]
    exact .nil
  · nofun

theorem accounted_after {h : Host} (hh : h.Accounted) (move : Move) : (h.after move).Accounted := by
  cases move with
  | runScript source name => exact hh.doing (leads_runScript source name)
  | dispatchEvent node type => exact hh.doing (leads_dispatchEvent node type)
  | fire timer => exact hh.fire timer
  | leave => exact hh.leave
  | work => exact hh.work

theorem accounted_afterAll {h : Host} (hh : h.Accounted) (moves : List Move) :
    (h.afterAll moves).Accounted := by
  induction moves generalizing h with
  | nil => exact hh
  | cons move moves ih => exact ih (accounted_after hh move)

/-- The host comes from the first one by work alone. -/
inductive Works : Host → Host → Prop
  | refl (h : Host) : Works h h
  | step {h g : Host} (rest : Works h.work g) : Works h g

theorem runTask_of_cons {r : Realm} {t : TimerTask} {ts : List TimerTask}
    (hQueue : r.page.tasks = t :: ts) : runTask r =
      (do runCallback t; return true) (r.onPage fun p => { p with tasks := ts }) := by
  rw [runTask, get_bind, hQueue]
  rfl

/-- To run what waits is to work until the queue is empty, if no other move comes in between. -/
theorem works_runTasks (n : Nat) (h : Host) (count : Nat) (hPhase : h.phase = .between count)
    (hLength : h.queue.length = n) :
    match runTasks n h.realm with
    | .ok m s => ∃ log, Works h ⟨s, .idle, log ++ [.ended (count + m)]⟩
    | .error _ s => ∃ log, Works h ⟨s, .idle, log⟩ := by
  -- A callback may set timers, but none fires meanwhile: each round leaves one task less.
  induction n generalizing h count with
  | zero =>
    have hQueue : h.realm.page.tasks = [] := List.eq_nil_of_length_eq_zero hLength
    have hWork : h.work = ⟨h.realm, .idle, h.log ++ [.ended count]⟩ := by
      rw [work, hPhase]
      dsimp only
      rw [hQueue]
    exact ⟨h.log, .step (hWork ▸ .refl _)⟩
  | succ n ih =>
    obtain ⟨t, ts, hQueue⟩ := List.exists_cons_of_length_eq_add_one hLength
    let r := h.realm.onPage fun p => { p with tasks := ts }
    have hTake : h.work = ⟨r, .holding count t, h.log⟩ := by
      rw [work, hPhase]
      dsimp only
      rw [show h.realm.page.tasks = t :: ts from hQueue]
    have hKeeps := (leads_runCallback t r).keepsTasks
    let log := h.log ++ [if r.page.discarded then .passed t else .called t]
    rw [stateAfter] at hKeeps
    rw [runTasks]
    cases hResult : runCallback t r with
    | ok v s =>
      have hRan : h.work.work = ⟨s, .between (count + 1), log⟩ := by
        rw [hTake, work]
        dsimp only
        rw [hResult]
      have hFound : runTask h.realm = .ok true s := by
        rw [runTask_of_cons hQueue, bind_ok hResult]
        rfl
      rw [hResult] at hKeeps
      have hLeft : s.page.tasks.length = n := by
        rw [hKeeps.tasks]
        have hAll : (t :: ts).length = n + 1 := hQueue ▸ hLength
        exact Nat.succ.inj hAll
      have hRest := ih ⟨s, .between (count + 1), log⟩ (count + 1) rfl hLeft
      rw [bind_ok hFound, if_pos rfl]
      cases hTasks : runTasks n s with
      | ok m s' =>
        rw [hTasks] at hRest
        obtain ⟨log', hWorks⟩ := hRest
        rw [bind_ok hTasks]
        refine ⟨log', .step (.step ?_)⟩
        rw [hRan, Nat.add_comm m 1, ← Nat.add_assoc]
        exact hWorks
      | error e s' =>
        rw [hTasks] at hRest
        obtain ⟨log', hWorks⟩ := hRest
        rw [bind_error hTasks]
        exact ⟨log', .step (.step (hRan ▸ hWorks))⟩
    | error e s =>
      have hRan : h.work.work = ⟨s, .idle, log⟩ := by
        rw [hTake, work]
        dsimp only
        rw [hResult]
      have hFailed : runTask h.realm = .error e s := by
        rw [runTask_of_cons hQueue, bind_error hResult]
      rw [bind_error hFailed]
      exact ⟨log, .step (.step (hRan ▸ .refl _))⟩

/-- An idle host that works through the queue without a break does what `runPending` does. -/
theorem works_runPending (h : Host) (hPhase : h.phase = .idle) :
    match runPending h.realm with
    | .ok count s => ∃ log, Works h ⟨s, .idle, log ++ [.ended count]⟩
    | .error _ s => ∃ log, Works h ⟨s, .idle, log⟩ := by
  have hBegan : h.work = ⟨h.realm, .between 0, h.log ++ [.began]⟩ := by rw [work, hPhase]
  have hTasks := works_runTasks h.queue.length h.work 0 (by rw [hBegan]) (by rw [hBegan]; rfl)
  have hRun : runPending h.realm = runTasks h.queue.length h.work.realm := by
    rw [hBegan, runPending, get_bind]
    rfl
  rw [hRun]
  cases hResult : runTasks h.queue.length h.work.realm with
  | ok count s =>
    rw [hResult] at hTasks
    obtain ⟨log, hWorks⟩ := hTasks
    rw [Nat.zero_add] at hWorks
    exact ⟨log, .step hWorks⟩
  | error e s =>
    rw [hResult] at hTasks
    obtain ⟨log, hWorks⟩ := hTasks
    exact ⟨log, .step hWorks⟩

end Host

end PageRender.Script
