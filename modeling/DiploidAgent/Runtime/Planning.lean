import DiploidAgent.Cron.Store
import DiploidAgent.Plans.Writes
import DiploidAgent.Runtime.WakeMerge

/-!
# Wakes of the task handlers

`_enqueue_plan_task_wake` and `_maybe_enqueue_plan_conclusion` of
`runtime/planning.py` under the two handlers of `runtime/lifecycle.py`.  The bus
thread takes one event at a time; between its plan-manager call, its read of the
plan, the merge, the enqueue and the conclusion any number of steps of the task
engine and of other callers of the wake queue may happen.  The wake that a
SUBAGENT task makes ready is a call of the latter kind.

A restart keeps the plan file and the wake queue and forgets the rest, with it
the set of the plans whose conclusion was enqueued.
-/

namespace DiploidAgent
namespace Planning

open Plans TaskEngine Wake Runs

section Payloads

/-- `TaskStatus.value`. -/
def statusValue : TaskStatus → String
  | .pending => "pending"
  | .ready => "ready"
  | .running => "running"
  | .done => "done"
  | .incomplete => "incomplete"
  | .failed => "failed"
  | .blocked => "blocked"

/-- `PlanStatus.value`. -/
def planStatusValue : PlanStatus → String
  | .draft => "draft"
  | .active => "active"
  | .paused => "paused"
  | .completed => "completed"
  | .failed => "failed"

/-- `str.strip`. -/
def strip (text : List Char) : List Char :=
  ((text.dropWhile Cron.isSpace).reverse.dropWhile Cron.isSpace).reverse

/-- `.replace("\n", " ").strip()`. -/
def oneLine (text : List Char) : List Char :=
  strip (text.map fun c => if c = '\n' then ' ' else c)

/-- `task.result` if the task is done with a result that is not empty. -/
def doneResult (task : Task) : Option String :=
  if task.status.isDone then task.result.filter fun r => r ≠ "" else none

/-- `task_detail`. -/
def taskDetail (task : Task) : String :=
  String.ofList ((oneLine ((doneResult task).getD task.log).toList).take 500)

/-- The dictionary that lists a task, without the counts. -/
def taskFields (task : Task) : List (String × Json) :=
  [("task_id", .str task.id),
    ("task_name", .str task.name),
    ("task_status", .str (statusValue task.status)),
    ("task_detail", .str (taskDetail task))]

/-- A dictionary display. -/
def payloadOf (fields : List (String × Json)) : Payload :=
  fields.foldl (fun p f => p.set f.1 f.2) Dict.empty

/-- `completed_count`. -/
def completedCount (plan : Plan) : Nat :=
  plan.tasks.countP (fun t => t.status.isDone) + plan.tasks.countP fun t => t.status == .failed

/-- The event of `_enqueue_plan_task_wake`. -/
def taskUpdateEvent (plan : Plan) (chatId : String) (task : Task) (now : Int) : WakeEvent where
  id := ""
  chatId := chatId
  reason := "plan_task_update"
  priority := 1
  scheduledAt := now
  payload := payloadOf ([("plan_id", .str plan.id),
    ("plan_name", .str plan.name),
    ("plan_status", .str (planStatusValue plan.status))] ++ taskFields task ++
    [("tasks", .arr [.obj (taskFields task)]),
      ("completed_count", .num (completedCount plan)),
      ("total_count", .num plan.tasks.length),
      ("retry_after", .num 5)])
  silent := false
  createdAt := now
  ready := true

/-- One of `task_lines`. -/
def taskLine (task : Task) : List Char :=
  let line := ("- " ++ task.name ++ ": " ++ statusValue task.status).toList
  match doneResult task with
  | some result => line ++ [' ', '('] ++ oneLine (result.toList.take 100) ++ [')']
  | none =>
      if task.status = .failed ∧ task.log ≠ "" then
        line ++ [' ', '('] ++ oneLine (task.log.toList.take 100) ++ [')']
      else line

/-- The event of `_maybe_enqueue_plan_conclusion`. -/
def conclusionEvent (plan : Plan) (chatId : String) (now : Int) : WakeEvent where
  id := ""
  chatId := chatId
  reason := "plan_completed"
  priority := 1
  scheduledAt := now
  payload := payloadOf [("plan_id", .str plan.id),
    ("plan_name", .str plan.name),
    ("plan_status", .str (planStatusValue plan.status)),
    ("tasks_summary", .str (String.ofList
      ((plan.tasks.map taskLine).intersperse ['\n']).flatten)),
    ("retry_after", .num 5)]
  silent := false
  createdAt := now
  ready := true

end Payloads

section Bus

/-- Finished without a failure, a timeout, a cut or a cancellation. -/
def isClean (task : Task) : Bool :=
  task.status == .done && !task.timedOut && !task.isPartial && !task.cancelled

/-- Where the bus thread stands: the task was recorded, the plan was read, no
event took the update, or the update is out. -/
inductive BusPc where
  | idle
  | recorded (planId : String) (task : Task)
  | update (plan : Plan) (task : Task)
  | enqueue (plan : Plan) (task : Task) (event : WakeEvent)
  | conclude (plan : Plan)

/-- What the handlers did to the wake queue: an update enqueued or merged under
an event id, a merge into an event that raised `TypeError`, a conclusion. -/
inductive Notice where
  | update (planId chatId taskId eventId : String)
  | raised (planId chatId taskId eventId : String)
  | conclusion (plan : Plan) (chatId eventId : String)

def Notice.planId : Notice → String
  | update planId _ _ _ => planId
  | raised planId _ _ _ => planId
  | conclusion plan _ _ => plan.id

/-- The task engine, the wake queue, `_plan_conclusion_enqueued`, the bus thread,
the tasks its handlers recorded, and what it did, the newest first. -/
structure State where
  engine : TaskEngine.State
  wakes : Queue
  concluded : List String
  bus : BusPc
  recorded : List (String × Task)
  told : List Notice

def initial : State :=
  { engine := TaskEngine.initial, wakes := Dict.empty, concluded := [], bus := .idle,
    recorded := [], told := [] }

/-- The plan-manager call of the two handlers, with what it returns. -/
def recordEvent (store : Store) (now : Int) : Event → Store × Option Task
  | .taskCompleted planId taskId result log fl =>
      completeTask store planId taskId result log fl now
  | .taskFailed planId taskId log error fl =>
      failTask store planId taskId (Event.failureLog log error) fl now

/-- One step. -/
inductive Label where
  | engine (a : TaskEngine.Label)
  | handle (now : Int)
  | readPlan
  | update (now mergedAt : Int)
  | enqueue (freshId : String)
  | conclude (now : Int) (freshId : String)
  | wake (a : Wake.Label)
  | restart

/-- The event is taken off the queue of the bus by `handle` only. -/
def isHandle : TaskEngine.Label → Bool
  | .handle _ => true
  | _ => false

/-- The handler after its plan-manager call: nothing was found, a SUBAGENT task,
or a task whose plan is read next. -/
def State.record (s : State) (planId : String) : Option Task → State
  | none => s
  | some task =>
      if task.type = .subagent then s
      else
        { s with
          bus := .recorded planId task
          recorded := (planId, task) :: s.recorded }

/-- `_enqueue_plan_task_wake` up to the merge. -/
def State.update (s : State) (plan : Plan) (task : Task) (now mergedAt : Int) : State :=
  match plan.chatId with
  | none => { s with bus := .conclude plan }
  | some chatId =>
      if task.quiet && isClean task then { s with bus := .conclude plan }
      else
        let event := taskUpdateEvent plan chatId task now
        match mergeTarget s.wakes event plan.id mergedAt with
        | none => { s with bus := .enqueue plan task event }
        | some target =>
            match mergePayload target.payload event.payload with
            | none =>
                { s with
                  bus := .idle
                  told := .raised plan.id chatId task.id target.id :: s.told }
            | some _ =>
                { s with
                  bus := .conclude plan
                  wakes := (mergeIntoReady s.wakes event plan.id mergedAt).1
                  told := .update plan.id chatId task.id target.id :: s.told }

/-- `_maybe_enqueue_plan_conclusion`. -/
def State.conclude (s : State) (plan : Plan) (now : Int) (freshId : String) : State :=
  match plan.chatId with
  | none => { s with bus := .idle }
  | some chatId =>
      if plan.status ≠ .completed ∧ plan.status ≠ .failed then { s with bus := .idle }
      else if plan.id ∈ s.concluded then { s with bus := .idle }
      else
        { s with
          bus := .idle
          concluded := plan.id :: s.concluded
          wakes := Wake.enqueue s.wakes (conclusionEvent plan chatId now) freshId
          told := .conclusion plan chatId freshId :: s.told }

def step (s : State) : Label → Option State
  | .engine a =>
      if isHandle a then none
      else (TaskEngine.step s.engine a).map fun engine => { s with engine := engine }
  | .handle now =>
      match s.bus, s.engine.queue with
      | .idle, ev :: _ =>
          (TaskEngine.step s.engine (.handle now)).map fun engine =>
            { s with engine := engine }.record ev.planId (recordEvent s.engine.store now ev).2
      | _, _ => none
  | .readPlan =>
      match s.bus with
      | .recorded planId task =>
          match getPlan s.engine.store planId with
          | none => some { s with bus := .idle }
          | some plan => some { s with bus := .update plan task }
      | _ => none
  | .update now mergedAt =>
      match s.bus with
      | .update plan task => some (s.update plan task now mergedAt)
      | _ => none
  | .enqueue freshId =>
      match s.bus with
      | .enqueue plan task event =>
          some { s with
            bus := .conclude plan
            wakes := Wake.enqueue s.wakes event freshId
            told := .update plan.id event.chatId task.id freshId :: s.told }
      | _ => none
  | .conclude now freshId =>
      match s.bus with
      | .conclude plan => some (s.conclude plan now freshId)
      | _ => none
  | .wake a => some { s with wakes := Wake.apply s.wakes a }
  | .restart =>
      some { initial with
        engine := { TaskEngine.initial with store := s.engine.store }
        wakes := s.wakes }

end Bus

end Planning
end DiploidAgent
