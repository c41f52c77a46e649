import DiploidAgent.Lib.Dict
import DiploidAgent.Lib.Sweep
import DiploidAgent.Plans.Models

/-!
# The plan manager

`plan/manager.py`.  `_resolve_statuses` runs a `while changed` loop whose body
goes through the task list in order and replaces statuses in place, reading
`status_map`, which it updates as it goes.  `visitTask` is one turn of the inner
loop, `passTasks` the inner loop and `resolveLoop` the outer one, with fuel.

The second half reduces the loop to the sweeps of the library: on distinct ids
the pair of task list and status map is determined by the map alone, and
`resolveTasks` is the task list relabelled by the final map.
-/

namespace DiploidAgent
namespace Plans

open Sweep

/-- `status_map`: the status stored for an id, if any. -/
abbrev StatusMap := String → Option TaskStatus

/-- `{t.id: t.status for t in plan.tasks}`. -/
def statusMap (ts : List Task) : StatusMap :=
  ts.foldl (fun m t => Function.update m t.id (some t.status)) fun _ => none

/-- `dep_statuses` of one task. -/
def depStatuses (byId : List String) (m : StatusMap) (deps : List String) :
    List (Option TaskStatus) :=
  (deps.filter fun d => byId.contains d).map m

/-- `missing` is non-empty. -/
def anyMissing (byId : List String) (deps : List String) : Bool :=
  deps.any fun d => !byId.contains d

/-- `any_failed`. -/
def anyFailed (byId : List String) (m : StatusMap) (deps : List String) : Bool :=
  (depStatuses byId m deps).any fun s =>
    s == some .failed || s == some .blocked

/-- `all_done`. -/
def allDone (byId : List String) (m : StatusMap) (deps : List String) : Bool :=
  ((depStatuses byId m deps).all fun s =>
    s == some .done || s == some .incomplete) && !anyMissing byId deps

/-- One turn of the inner loop: the task, the map and the `changed` flag. -/
def visitTask (byId : List String) (m : StatusMap) (t : Task) :
    Task × StatusMap × Bool :=
  if t.status.isWaiting then
    if anyMissing byId t.dependsOn || anyFailed byId m t.dependsOn then
      if t.status ≠ .blocked then
        ({ t with status := .blocked }, Function.update m t.id (some .blocked), true)
      else (t, m, false)
    else if (allDone byId m t.dependsOn && !t.dependsOn.isEmpty) || t.dependsOn.isEmpty then
      if t.status ≠ .ready then
        ({ t with status := .ready }, Function.update m t.id (some .ready), true)
      else (t, m, false)
    else (t, Function.update m t.id (some t.status), false)
  else (t, m, false)

/-- The inner loop. -/
def passTasks (byId : List String) : StatusMap → List Task → List Task × StatusMap × Bool
  | m, [] => ([], m, false)
  | m, t :: ts =>
      let r := visitTask byId m t
      let rest := passTasks byId r.2.1 ts
      (r.1 :: rest.1, rest.2.1, r.2.2 || rest.2.2)

/-- The `while changed` loop, with fuel. -/
def resolveLoop (byId : List String) : Nat → StatusMap → List Task → Option (List Task)
  | 0, _, _ => none
  | n + 1, m, ts =>
      let r := passTasks byId m ts
      if r.2.2 then resolveLoop byId n r.2.1 r.1 else some r.1

/-- The task list `_resolve_statuses` leaves; the fuel is enough on distinct
ids (`resolveLoop_eq`). -/
def resolveTasks (ts : List Task) : List Task :=
  (resolveLoop (taskIds ts) (ts.length + 1) (statusMap ts) ts).getD ts

/-- `_resolve_statuses`. -/
def resolveStatuses (plan : Plan) : Plan :=
  { plan with tasks := resolveTasks plan.tasks }

/-- `_update_plan_status`. -/
def updatePlanStatus (plan : Plan) : Plan :=
  if plan.tasks.isEmpty then { plan with status := .draft }
  else if plan.tasks.all fun t => t.status.isDone then { plan with status := .completed }
  else if (plan.tasks.any fun t => t.status == .failed) &&
      !(plan.tasks.any fun t => t.status == .running || t.status == .ready) then
    { plan with status := .failed }
  else if plan.tasks.any fun t => t.status == .running || t.status == .ready then
    { plan with status := .active }
  else { plan with status := .draft }

/-- The plan store: the map every transaction re-reads and writes back. -/
abbrev Store := Dict String Plan

/-- The keyword arguments of `complete_task` and `fail_task`. -/
structure OutcomeFlags where
  stopReason : Option String := none
  cancelled : Bool := false
  isPartial : Bool := false
  timedOut : Bool := false
deriving DecidableEq, Repr

/-- The status `complete_task` gives. -/
def OutcomeFlags.doneStatus (fl : OutcomeFlags) : TaskStatus :=
  if fl.cancelled || fl.isPartial || fl.timedOut then .incomplete else .done

/-- The task as `complete_task` rewrites it. -/
def Task.complete (t : Task) (result log : String) (fl : OutcomeFlags) (now : Int) : Task :=
  { t with
    status := fl.doneStatus
    result := some result
    log := log
    completedAt := some now
    stopReason := fl.stopReason
    cancelled := fl.cancelled
    isPartial := fl.isPartial
    timedOut := fl.timedOut }

/-- The task as `fail_task` rewrites it. -/
def Task.fail (t : Task) (log : String) (fl : OutcomeFlags) (now : Int) : Task :=
  { t with
    status := .failed
    log := log
    completedAt := some now
    stopReason := fl.stopReason
    cancelled := fl.cancelled
    isPartial := fl.isPartial
    timedOut := fl.timedOut }

/-- The task as `start_task` rewrites it. -/
def Task.start (t : Task) (now : Int) : Task :=
  { t with status := .running, startedAt := some now }

/-- Change the first task with this id in place. -/
def updateTask (taskId : String) (f : Task → Task) : List Task → List Task
  | [] => []
  | t :: ts => if t.id = taskId then f t :: ts else t :: updateTask taskId f ts

/-- `if not task.id: task.id = self._unique_task_id()`. -/
def Task.withId (t : Task) (freshId : String) : Task :=
  if t.id = "" then { t with id := freshId } else t

/-- The tasks of `create_plan` with every missing id filled in. -/
def withIds (freshId : Nat → String) (ts : List Task) : List Task :=
  ts.mapIdx fun i t => t.withId (freshId i)

/-- `create_plan`. -/
def createPlan (store : Store) (planId name : String) (chatId : Option String)
    (tasks : List Task) (freshId : Nat → String) (now : Int) : Store × Plan :=
  let plan := updatePlanStatus (resolveStatuses
    { id := planId, name := name, chatId := chatId, tasks := withIds freshId tasks,
      createdAt := now, updatedAt := now })
  (store.set plan.id plan, plan)

/-- The stored plan after a task was changed: resolve, recompute the plan's
status, stamp `updated_at`. -/
def settlePlan (plan : Plan) (tasks : List Task) (now : Int) : Plan :=
  { updatePlanStatus (resolveStatuses { plan with tasks := tasks }) with updatedAt := now }

/-- `add_task`. -/
def addTask (store : Store) (planId : String) (task : Task) (freshId : String) (now : Int) :
    Store × Option Task :=
  let task := task.withId freshId
  match store.get planId with
  | none => (store, none)
  | some plan =>
      if task.id ∈ taskIds plan.tasks then (store, none)
      else
        let plan' := settlePlan plan (plan.tasks ++ [task]) now
        (store.set planId plan', getTaskInPlan plan'.tasks task.id)

/-- `get_plan`. -/
def getPlan (store : Store) (planId : String) : Option Plan := store.get planId

/-- `get_task`. -/
def getTask (store : Store) (planId taskId : String) : Option Task :=
  (store.get planId).bind fun plan => getTaskInPlan plan.tasks taskId

/-- `get_ready_tasks`. -/
def getReadyTasks (store : Store) (planId : String) : List Task :=
  match store.get planId with
  | none => []
  | some plan => plan.tasks.filter fun t => t.status == .ready

/-- `start_task`. -/
def startTask (store : Store) (planId taskId : String) (now : Int) : Store × Option Task :=
  match store.get planId with
  | none => (store, none)
  | some plan =>
      match getTaskInPlan plan.tasks taskId with
      | none => (store, none)
      | some task =>
          if task.status ≠ .ready then (store, none)
          else
            let tasks := updateTask taskId (fun t => t.start now) plan.tasks
            let plan' := { updatePlanStatus { plan with tasks := tasks } with updatedAt := now }
            (store.set planId plan', getTaskInPlan tasks taskId)

/-- The body `complete_task` and `fail_task` share: rewrite the task, resolve,
write the plan back. -/
def setOutcome (store : Store) (planId taskId : String) (f : Task → Task) (now : Int) :
    Store × Option Task :=
  match store.get planId with
  | none => (store, none)
  | some plan =>
      match getTaskInPlan plan.tasks taskId with
      | none => (store, none)
      | some _ =>
          let plan' := settlePlan plan (updateTask taskId f plan.tasks) now
          (store.set planId plan', getTaskInPlan plan'.tasks taskId)

/-- `complete_task`. -/
def completeTask (store : Store) (planId taskId result log : String) (fl : OutcomeFlags)
    (now : Int) : Store × Option Task :=
  setOutcome store planId taskId (fun t => t.complete result log fl now) now

/-- `fail_task`. -/
def failTask (store : Store) (planId taskId log : String) (fl : OutcomeFlags) (now : Int) :
    Store × Option Task :=
  setOutcome store planId taskId (fun t => t.fail log fl now) now

end Plans
end DiploidAgent
