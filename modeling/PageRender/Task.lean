/-!
# Tasks

Tasks wait in a queue and are run one at a time, in the order in which they were scheduled. A task
that is run may schedule further tasks, run the next one before it is done itself, or fail. When one
fails, what is left of it and of the tasks that were running around it is given up; the queue stays.
-/

namespace PageRender

mutual

/-- A task: the label it leaves when it is run, and then its actions. -/
inductive Task where
  | mk (label : String) (actions : List TaskAction)

inductive TaskAction where
  | schedule (task : Task)
  | runNext
  | fail

end

/-- What a task leaves behind: its label, or whether it found another task to run. -/
inductive TaskMark where
  | started (label : String)
  | ran (found : Bool)
deriving DecidableEq

/-- What is left to do: an action of the task with a label, or a note that a task was run. -/
inductive TaskWork where
  | act (label : String) (action : TaskAction)
  | noteRan

/-- A queue of tasks, and the marks of those that were run. -/
structure TaskRunner where
  queue : List Task := []
  marks : List TaskMark := []

mutual

/-- The number of steps that a task takes, those of the tasks that it schedules included. -/
def Task.steps : Task → Nat
  | .mk _ actions => 2 + actionSteps actions

def TaskAction.steps : TaskAction → Nat
  | .schedule t => 1 + t.steps
  | .runNext => 1
  | .fail => 1

def actionSteps : List TaskAction → Nat
  | [] => 0
  | a :: as => a.steps + actionSteps as

end

def TaskWork.steps : TaskWork → Nat
  | act _ a => a.steps
  | noteRan => 1

def Task.work : Task → List TaskWork
  | .mk label actions => actions.map (.act label)

def Task.label : Task → String
  | .mk label _ => label

def queueSteps : List Task → Nat
  | [] => 0
  | t :: ts => t.steps + queueSteps ts

def workSteps : List TaskWork → Nat
  | [] => 0
  | w :: ws => w.steps + workSteps ws

theorem queueSteps_append (ts us : List Task) :
    queueSteps (ts ++ us) = queueSteps ts + queueSteps us := by
  induction ts with
  | nil => simp [queueSteps]
  | cons t ts ih => simp only [List.cons_append, queueSteps, ih, Nat.add_assoc]

theorem workSteps_append (vs ws : List TaskWork) :
    workSteps (vs ++ ws) = workSteps vs + workSteps ws := by
  induction vs with
  | nil => simp [workSteps]
  | cons v vs ih => simp only [List.cons_append, workSteps, ih, Nat.add_assoc]

theorem workSteps_map_act (label : String) (actions : List TaskAction) :
    workSteps (actions.map (.act label)) = actionSteps actions := by
  induction actions with
  | nil => rfl
  | cons a as ih => simp only [List.map_cons, workSteps, actionSteps, TaskWork.steps, ih]

theorem workSteps_work_add_two (t : Task) : workSteps t.work + 2 = t.steps := by
  obtain ⟨label, actions⟩ := t
  simp only [Task.work, Task.steps, workSteps_map_act]
  omega

namespace TaskRunner

def schedule (r : TaskRunner) (t : Task) : TaskRunner :=
  { r with queue := r.queue ++ [t] }

def hasPending (r : TaskRunner) : Bool :=
  !r.queue.isEmpty

def mark (r : TaskRunner) (m : TaskMark) : TaskRunner :=
  { r with marks := r.marks ++ [m] }

/-- Does what is left to do. The label of a task that failed comes with the runner as it is then. -/
def work (r : TaskRunner) : List TaskWork → TaskRunner × Option String
  | [] => (r, none)
  | .noteRan :: rest => work (r.mark (.ran true)) rest
  | .act label .fail :: _ => (r, some label)
  | .act _ (.schedule t) :: rest => work (r.schedule t) rest
  | .act _ .runNext :: rest =>
    match _h : r.queue with
    | [] => work (r.mark (.ran false)) rest
    | t :: ts =>
      work ({ r with queue := ts }.mark (.started t.label)) (t.work ++ .noteRan :: rest)
termination_by todo => queueSteps r.queue + workSteps todo
decreasing_by
  · simp [mark, workSteps, TaskWork.steps]
  · simp only [schedule, queueSteps_append, queueSteps, workSteps, TaskWork.steps, TaskAction.steps]
    omega
  · simp [mark, _h, workSteps, TaskWork.steps, TaskAction.steps]
  · have := workSteps_work_add_two t
    simp only [mark, _h, queueSteps, workSteps_append, workSteps, TaskWork.steps, TaskAction.steps]
    omega

/-- Runs the first task, and tells whether there was one. -/
def run (r : TaskRunner) : TaskRunner × Except String Bool :=
  match r.queue with
  | [] => (r, .ok false)
  | t :: ts =>
    match work ({ r with queue := ts }.mark (.started t.label)) t.work with
    | (r, none) => (r, .ok true)
    | (r, some label) => (r, .error label)

def runUpTo (r : TaskRunner) : Nat → TaskRunner × Except String Nat
  | 0 => (r, .ok 0)
  | n + 1 =>
    match r.run with
    | (r, .ok true) =>
      match runUpTo r n with
      | (r, .ok count) => (r, .ok (count + 1))
      | failure => failure
    | (r, .ok false) => (r, .ok 0)
    | (r, .error label) => (r, .error label)

/-- Runs tasks until none is waiting, and counts them. Every task takes a step that is counted in
those of the tasks waiting at first. -/
def runAll (r : TaskRunner) : TaskRunner × Except String Nat :=
  r.runUpTo (queueSteps r.queue)

end TaskRunner

end PageRender
