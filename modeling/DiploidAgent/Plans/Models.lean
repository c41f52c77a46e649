import Mathlib.Tactic.Common

/-!
# Plans and tasks

The data of `plan/models.py`: the three enumerations, `Task` and `Plan`, with
the fields that the plan manager, the task engine and the wake helpers read or
write.  Times are counted in clock ticks; only their order, sums and
differences are used anywhere.
-/

namespace DiploidAgent
namespace Plans

/-- Status of one task. -/
inductive TaskStatus where
  | pending
  | ready
  | running
  | done
  | incomplete
  | failed
  | blocked
deriving DecidableEq, Repr

/-- Kind of work a task runs. -/
inductive TaskType where
  | shell
  | noop
  | acp
  | subagent
deriving DecidableEq, Repr

/-- Status of a whole plan. -/
inductive PlanStatus where
  | draft
  | active
  | paused
  | completed
  | failed
deriving DecidableEq, Repr

namespace TaskStatus

/-- The statuses `_resolve_statuses` recomputes. -/
def isWaiting : TaskStatus → Bool
  | pending | ready | blocked => true
  | _ => false

/-- The statuses that satisfy a dependency. -/
def isDone : TaskStatus → Bool
  | done | incomplete => true
  | _ => false

/-- The statuses a task ends in. -/
def isTerminal : TaskStatus → Bool
  | done | incomplete | failed => true
  | _ => false

theorem isTerminal_of_isDone
    {s : TaskStatus}
    (h : s.isDone = true) :
    s.isTerminal = true := by
  cases s <;> simp_all [isDone, isTerminal]

theorem isWaiting_eq_false_of_isTerminal
    {s : TaskStatus}
    (h : s.isTerminal = true) :
    s.isWaiting = false := by
  cases s <;> simp_all [isWaiting, isTerminal]

theorem isWaiting_eq_false_of_isDone
    {s : TaskStatus}
    (h : s.isDone = true) :
    s.isWaiting = false :=
  isWaiting_eq_false_of_isTerminal (isTerminal_of_isDone h)

end TaskStatus

/-- One unit of work inside a plan. -/
structure Task where
  id : String
  name : String
  type : TaskType := .shell
  dependsOn : List String := []
  status : TaskStatus := .pending
  result : Option String := none
  log : String := ""
  startedAt : Option Int := none
  completedAt : Option Int := none
  stopReason : Option String := none
  cancelled : Bool := false
  isPartial : Bool := false
  timedOut : Bool := false
  chatId : Option String := none
  dispatchId : Option String := none
  quiet : Bool := false
deriving DecidableEq, Repr

/-- A living plan made of tasks. -/
structure Plan where
  id : String
  name : String
  status : PlanStatus := .draft
  chatId : Option String := none
  tasks : List Task := []
  createdAt : Int
  updatedAt : Int
deriving DecidableEq, Repr

/-- The task ids of a list, in order. -/
def taskIds (ts : List Task) : List String := ts.map Task.id

/-- `_get_task_in_plan`: the first task with this id. -/
def getTaskInPlan (ts : List Task) (taskId : String) : Option Task :=
  ts.find? fun t => t.id == taskId

theorem getTaskInPlan_eq_some
    {ts : List Task} {taskId : String} {t : Task}
    (h : getTaskInPlan ts taskId = some t) :
    t ∈ ts ∧ t.id = taskId := by
  refine ⟨List.mem_of_find?_eq_some h, ?_⟩
  have := List.find?_some h
  simpa using this

/-- With distinct ids the task with an id is the one that is found. -/
theorem getTaskInPlan_of_mem
    {ts : List Task} {t : Task}
    (hnd : (taskIds ts).Nodup)
    (hmem : t ∈ ts) :
    getTaskInPlan ts t.id = some t := by
  induction ts with
  | nil => simp at hmem
  | cons x ts ih =>
      rw [taskIds, List.map_cons, List.nodup_cons] at hnd
      rcases List.mem_cons.mp hmem with rfl | hmem
      · simp [getTaskInPlan]
      · have hne : x.id ≠ t.id := by
          intro hid
          exact hnd.1 (List.mem_map.mpr ⟨t, hmem, hid.symm⟩)
        have htail := ih hnd.2 hmem
        simpa [getTaskInPlan, List.find?_cons, hne] using htail

theorem getTaskInPlan_eq_none_iff
    (ts : List Task) (taskId : String) :
    getTaskInPlan ts taskId = none ↔ taskId ∉ taskIds ts := by
  simp [getTaskInPlan, taskIds, List.find?_eq_none]

/-- With distinct ids a task is determined by its id. -/
theorem eq_of_mem_of_id_eq
    {ts : List Task} {t t' : Task}
    (hnd : (taskIds ts).Nodup)
    (ht : t ∈ ts) (ht' : t' ∈ ts)
    (hid : t.id = t'.id) :
    t = t' := by
  have h := getTaskInPlan_of_mem hnd ht
  rw [hid, getTaskInPlan_of_mem hnd ht'] at h
  exact (Option.some.inj h).symm

end Plans
end DiploidAgent
