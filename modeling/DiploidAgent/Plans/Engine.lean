import DiploidAgent.Plans.Outcome

/-!
# Task engine, operators and event handlers

`task/engine.py`, `plan_task_start`, `plan_task_done` and `plan_task_fail` of
`runtime/actions.py`, `_handle_task_completed` and `_handle_task_failed` of
`runtime/lifecycle.py`, over the plan store and the queue of the event bus.

Every plan-manager call is one transaction and one step.  Between two steps of a
worker any number of steps of other workers, of an operator and of the bus thread
may happen.  Operator calls run under the runtime's lock, so at most one is in
progress.  Exceptions are labels of the steps they can come out of: the execution
of the task, the read of the ready tasks and the start of a dependent.
-/

namespace DiploidAgent
namespace TaskEngine

open Plans

/-- The task events of the bus, with the payload keys the handlers read. -/
inductive Event where
  | taskCompleted (planId taskId result log : String) (fl : OutcomeFlags)
  | taskFailed (planId taskId : String) (log error : Option String) (fl : OutcomeFlags)
deriving DecidableEq, Repr

namespace Event

def planId : Event → String
  | taskCompleted planId _ _ _ _ => planId
  | taskFailed planId _ _ _ _ => planId

def taskId : Event → String
  | taskCompleted _ taskId _ _ _ => taskId
  | taskFailed _ taskId _ _ _ => taskId

/-- `payload.get("log", payload.get("error", ""))`. -/
def failureLog (log error : Option String) : String :=
  log.getD (error.getD "")

/-- The plan-manager call of `_handle_task_completed` and
`_handle_task_failed`. -/
def handle (store : Store) (now : Int) : Event → Store
  | taskCompleted planId taskId result log fl =>
      (completeTask store planId taskId result log fl now).1
  | taskFailed planId taskId log error fl =>
      (failTask store planId taskId (failureLog log error) fl now).1

/-- The event tells the recorded outcome. -/
def Agrees : Event → Ended → Prop
  | taskCompleted _ _ result log fl, o =>
      o.1 = fl.doneStatus ∧ o.2.1 = some result ∧ o.2.2 = log
  | taskFailed _ _ log error _, o =>
      o.1 = .failed ∧ o.2.2 = failureLog log error

end Event

/-- What `_execute` returns. -/
structure Executed where
  result : String
  log : String
  exitCode : Int
  fl : OutcomeFlags := {}
deriving DecidableEq, Repr

/-- `task.type.value`. -/
def typeValue : TaskType → String
  | .shell => "shell"
  | .noop => "noop"
  | .acp => "acp"
  | .subagent => "subagent"

/-- What became of the submission of a started task to the pool. -/
inductive Submit where
  | accepted
  | ignored
  | raised (exc trace : String)
deriving DecidableEq, Repr

/-- Where a worker stands in `_run_task`; `guarded` is inside its `try`. -/
inductive Pc where
  | fetch
  | disabled (type : TaskType)
  | execute
  | post (ev : Event) (guarded : Bool)
  | ready (guarded : Bool)
  | start (todo : List String) (guarded : Bool)
  | raised (exc trace : String)
  | postError (exc : String)
  | done
deriving DecidableEq, Repr

/-- One run of `_run_task`. -/
structure Worker where
  planId : String
  taskId : String
  pc : Pc := .fetch
deriving DecidableEq, Repr

/-- The operator calls that end a task by hand. -/
inductive Request where
  | planTaskDone (result log : String)
  | planTaskFail (log : String)
deriving DecidableEq, Repr

/-- Where an operator call stands. -/
inductive OperatorPc where
  | write (already : Bool)
  | post (ev : Event)
deriving DecidableEq, Repr

/-- One operator call in progress. -/
structure Operator where
  planId : String
  taskId : String
  request : Request
  pc : OperatorPc
deriving DecidableEq, Repr

/-- The plan file, the queue of the bus with everything ever posted on it, the
workers and the operator call in progress. -/
structure State where
  store : Store
  queue : List Event
  posted : List Event
  workers : List Worker
  operator : Option Operator

/-- The service before anything happened. -/
def initial : State :=
  { store := Dict.empty, queue := [], posted := [], workers := [], operator := none }

/-- What the environment decides in one step of a worker. -/
inductive Move where
  | fetch (enabled : Bool)
  | failDisabled (now : Int)
  | executed (e : Executed) (now : Int)
  | post
  | readReady
  | startNext (busy : Bool) (submit : Submit) (now : Int)
  | raise (exc trace : String)
  | failRaised (now : Int)
  | postError
deriving DecidableEq, Repr

/-- One step of the service. -/
inductive Label where
  | createPlan (planId name : String) (chatId : Option String) (tasks : List Task)
      (freshId : Nat → String) (now : Int)
  | addTask (planId : String) (task : Task) (freshId : String) (now : Int)
  | startTask (planId taskId : String) (submit : Submit) (now : Int)
  | worker (i : Nat) (move : Move)
  | operatorRead (planId taskId : String) (request : Request)
  | operatorWrite (now : Int)
  | operatorPost
  | handle (now : Int)

section Worker

def State.setPc (s : State) (i : Nat) (w : Worker) (pc : Pc) : State :=
  { s with workers := s.workers.set i { w with pc := pc } }

def State.post (s : State) (ev : Event) : State :=
  { s with queue := s.queue ++ [ev], posted := s.posted ++ [ev] }

def State.spawn (s : State) (planId taskId : String) : State :=
  { s with workers := s.workers ++ [{ planId := planId, taskId := taskId }] }

/-- `start_task` of the engine: the task is RUNNING in the store before the pool
is asked. -/
def startTask (s : State) (planId taskId : String) (submit : Submit) (now : Int) :
    State × Bool :=
  let r := Plans.startTask s.store planId taskId now
  match r.2, submit with
  | none, _ => ({ s with store := r.1 }, false)
  | some _, .accepted => (({ s with store := r.1 } : State).spawn planId taskId, false)
  | some _, .ignored => ({ s with store := r.1 }, false)
  | some _, .raised _ _ => ({ s with store := r.1 }, true)

/-- A started task leaves the workers that are there. -/
theorem workers_startTask
    {s : State} {i : Nat} {w : Worker} {planId taskId : String} {submit : Submit} {now : Int}
    (hw : s.workers[i]? = some w) :
    (startTask s planId taskId submit now).1.workers[i]? = some w := by
  obtain ⟨hi, _⟩ := List.getElem?_eq_some_iff.mp hw
  unfold startTask
  dsimp only
  split
  · exact hw
  · rw [State.spawn, List.getElem?_append_left hi]
    exact hw
  · exact hw
  · exact hw

/-- The plan-manager call after `_execute`, and the event to post when the task
was found. -/
def recordExecuted (store : Store) (planId taskId : String) (e : Executed) (now : Int) :
    Store × Option Event :=
  if e.exitCode = 0 then
    let r := completeTask store planId taskId e.result e.log e.fl now
    (r.1, r.2.map fun _ => .taskCompleted planId taskId e.result e.log e.fl)
  else
    let log := if e.log = "" then e.result else e.log
    let r := failTask store planId taskId log e.fl now
    (r.1, r.2.map fun _ => .taskFailed planId taskId (some log) none e.fl)

/-- The same for a task whose type is disabled. -/
def recordDisabled (store : Store) (planId taskId : String) (type : TaskType) (now : Int) :
    Store × Option Event :=
  let result := "Task type " ++ typeValue type ++ " is disabled"
  let r := failTask store planId taskId result {} now
  (r.1, r.2.map fun _ => .taskFailed planId taskId (some result) none {})

/-- After a plan-manager call: post the event, or nothing was found. -/
def afterRecord (ev : Option Event) (guarded : Bool) : Pc :=
  match ev with
  | some ev => .post ev guarded
  | none => .done

/-- After an exception: the `except` branch, or the thread ends. -/
def afterRaise (guarded : Bool) (exc trace : String) : Pc :=
  if guarded then .raised exc trace else .done

/-- After a dependent was started: the next one, or the exception of the pool. -/
def afterStart (raised : Bool) (submit : Submit) (todo : List String) (guarded : Bool) : Pc :=
  match raised, submit with
  | true, .raised exc trace => afterRaise guarded exc trace
  | _, _ => .start todo guarded

/-- One step of worker `i`. -/
def stepWorker (s : State) (i : Nat) (w : Worker) (move : Move) : Option State :=
  match w.pc, move with
  | .fetch, .fetch enabled =>
      match getTask s.store w.planId w.taskId with
      | none => some (s.setPc i w .done)
      | some task => some (s.setPc i w (if enabled then .execute else .disabled task.type))
  | .disabled type, .failDisabled now =>
      let r := recordDisabled s.store w.planId w.taskId type now
      some (({ s with store := r.1 } : State).setPc i w (afterRecord r.2 false))
  | .execute, .executed e now =>
      let r := recordExecuted s.store w.planId w.taskId e now
      some (({ s with store := r.1 } : State).setPc i w (afterRecord r.2 true))
  | .post ev guarded, .post => some ((s.post ev).setPc i w (.ready guarded))
  | .ready guarded, .readReady =>
      some (s.setPc i w (.start ((getReadyTasks s.store w.planId).map Task.id) guarded))
  | .start [] _, .startNext _ _ _ => some (s.setPc i w .done)
  | .start (t :: ts) guarded, .startNext busy submit now =>
      if busy then some (s.setPc i w (.start ts guarded))
      else
        let r := startTask s w.planId t submit now
        some (r.1.setPc i w (afterStart r.2 submit ts guarded))
  | .execute, .raise exc trace => some (s.setPc i w (.raised exc trace))
  | .ready guarded, .raise exc trace => some (s.setPc i w (afterRaise guarded exc trace))
  | .start _ guarded, .raise exc trace => some (s.setPc i w (afterRaise guarded exc trace))
  | .disabled _, .raise _ _ => some (s.setPc i w .done)
  | .raised _ _, .raise _ _ => some (s.setPc i w .done)
  | .raised exc trace, .failRaised now =>
      let r := failTask s.store w.planId w.taskId (exc ++ "\n" ++ trace) {} now
      some (({ s with store := r.1 } : State).setPc i w (.postError exc))
  | .postError exc, .postError =>
      some ((s.post (.taskFailed w.planId w.taskId none (some exc) {})).setPc i w .done)
  | _, _ => none

end Worker

section Operator

/-- `already_done`, `already_failed`. -/
def Request.already : Request → Option Task → Bool
  | .planTaskDone _ _, existing => existing.any fun t => t.status.isDone
  | .planTaskFail _, existing => existing.any fun t => t.status == .failed

/-- The plan-manager call of the request. -/
def Request.write (store : Store) (planId taskId : String) (now : Int) :
    Request → Store × Option Task
  | .planTaskDone result log => completeTask store planId taskId result log {} now
  | .planTaskFail log => failTask store planId taskId log {} now

/-- The event of the request. -/
def Request.event (planId taskId : String) : Request → Event
  | .planTaskDone result log => .taskCompleted planId taskId result log {}
  | .planTaskFail log => .taskFailed planId taskId (some log) none {}

/-- The write of an operator call; a `ValueError` for an unknown task ends it. -/
def operatorWrite (s : State) (op : Operator) (already : Bool) (now : Int) : State :=
  let r := op.request.write s.store op.planId op.taskId now
  { s with
    store := r.1
    operator :=
      if r.2.isNone || already then none
      else some { op with pc := .post (op.request.event op.planId op.taskId) } }

end Operator

/-- One step of the service.  Plans are created under a fresh id, with distinct
task ids and with tasks that are PENDING. -/
def step (s : State) : Label → Option State
  | .createPlan planId name chatId tasks freshId now =>
      if (s.store.get planId).isNone ∧ (taskIds (withIds freshId tasks)).Nodup ∧
          ((withIds freshId tasks).all fun t => t.status == .pending) then
        some { s with store := (createPlan s.store planId name chatId tasks freshId now).1 }
      else none
  | .addTask planId task freshId now =>
      if task.status = .pending then
        some { s with store := (addTask s.store planId task freshId now).1 }
      else none
  | .startTask planId taskId submit now => some (startTask s planId taskId submit now).1
  | .worker i move => (s.workers[i]?).bind fun w => stepWorker s i w move
  | .operatorRead planId taskId request =>
      match s.operator with
      | some _ => none
      | none =>
          let existing := getTask s.store planId taskId
          some { s with operator := some ⟨planId, taskId, request,
            .write (request.already existing)⟩ }
  | .operatorWrite now =>
      match s.operator with
      | some op =>
          match op.pc with
          | .write already => some (operatorWrite s op already now)
          | .post _ => none
      | none => none
  | .operatorPost =>
      match s.operator with
      | some op =>
          match op.pc with
          | .post ev => some { s.post ev with operator := none }
          | .write _ => none
      | none => none
  | .handle now =>
      match s.queue with
      | [] => none
      | ev :: rest => some { s with queue := rest, store := ev.handle s.store now }

end TaskEngine
end DiploidAgent
