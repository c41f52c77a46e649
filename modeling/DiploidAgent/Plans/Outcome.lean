import DiploidAgent.Plans.Scheduling

/-!
# The recorded outcome of a task

`ended` is what a plan store records about a task that has ended: its status,
its result and its log.  Creating a plan, adding or starting a task leave every
recorded outcome alone (`ended_createPlan`, `ended_addTask`, `ended_startTask`);
completing or failing a task rewrites its own and no other (`ended_setOutcome`).
-/

namespace DiploidAgent
namespace Plans

/-- Status, result and log of a task that has ended. -/
abbrev Ended := TaskStatus × Option String × String

/-- The outcome of a task, once it has ended. -/
def Task.ended (t : Task) : Option Ended :=
  if t.status.isTerminal then some (t.status, t.result, t.log) else none

/-- The outcome recorded in a task list. -/
def endedIn (ts : List Task) (taskId : String) : Option Ended :=
  (getTaskInPlan ts taskId).bind Task.ended

/-- The outcome recorded in a plan store. -/
def ended (store : Store) (planId taskId : String) : Option Ended :=
  (getTask store planId taskId).bind Task.ended

section Lists

variable {ts : List Task} {taskId : String}

theorem getTaskInPlan_map
    {f : Task → Task}
    (hid : ∀ t, (f t).id = t.id) :
    getTaskInPlan (ts.map f) taskId = (getTaskInPlan ts taskId).map f := by
  induction ts with
  | nil => rfl
  | cons t ts ih =>
      simp only [getTaskInPlan, List.map_cons, List.find?_cons, hid] at ih ⊢
      split
      · rfl
      · exact ih

theorem getTaskInPlan_relabel
    (m : StatusMap) :
    getTaskInPlan (relabel m ts) taskId =
      (getTaskInPlan ts taskId).map fun t => { t with status := (m t.id).getD t.status } :=
  getTaskInPlan_map (f := fun t => { t with status := (m t.id).getD t.status }) fun _ => rfl

/-- The recomputation of the statuses records and forgets no outcome. -/
theorem endedIn_resolveTasks
    (hnd : (taskIds ts).Nodup) :
    endedIn (resolveTasks ts) taskId = endedIn ts taskId := by
  rw [resolveTasks_eq_relabel hnd, endedIn, getTaskInPlan_relabel, endedIn]
  cases hget : getTaskInPlan ts taskId with
  | none => rfl
  | some t =>
      obtain ⟨ht, _⟩ := getTaskInPlan_eq_some hget
      obtain ⟨s, hs, hwait, hkeep⟩ := finalMap_of_mem hnd ht
      simp only [Option.map_some, Option.bind_some, Task.ended, hs, Option.getD_some]
      cases hw : t.status.isWaiting with
      | false => rw [hkeep hw]
      | true =>
          have hopen : ∀ u : TaskStatus, u.isWaiting = true → u.isTerminal = false := by
            intro u hu
            cases u <;> first | rfl | cases hu
          rw [hopen s (by rw [hwait, hw]), hopen _ hw]
          rfl

theorem getTaskInPlan_updateTask_self
    {f : Task → Task} {t : Task}
    (hid : ∀ t, (f t).id = t.id)
    (hget : getTaskInPlan ts taskId = some t) :
    getTaskInPlan (updateTask taskId f ts) taskId = some (f t) := by
  induction ts with
  | nil => cases hget
  | cons u ts ih =>
      simp only [getTaskInPlan, List.find?_cons] at hget
      rw [updateTask]
      split_ifs with hu
      · simp only [hu, beq_self_eq_true, Option.some.injEq] at hget
        subst hget
        simp [getTaskInPlan, hid, hu]
      · have hne : (u.id == taskId) = false := by simpa using hu
        simp only [hne] at hget
        simpa [getTaskInPlan, List.find?_cons, hne] using ih hget

theorem getTaskInPlan_updateTask_of_ne
    {f : Task → Task} {taskId' : String}
    (hid : ∀ t, (f t).id = t.id)
    (hne : taskId' ≠ taskId) :
    getTaskInPlan (updateTask taskId f ts) taskId' = getTaskInPlan ts taskId' := by
  induction ts with
  | nil => rfl
  | cons u ts ih =>
      rw [updateTask]
      split_ifs with hu
      · have hu' : u.id ≠ taskId' := by
          rintro rfl
          exact hne hu
        simp [getTaskInPlan, hid, hu']
      · simp only [getTaskInPlan, List.find?_cons] at ih ⊢
        rw [ih]

theorem endedIn_of_pending
    (h : ∀ t, t ∈ ts → t.status = .pending) :
    endedIn ts taskId = none := by
  unfold endedIn
  cases hget : getTaskInPlan ts taskId with
  | none => rfl
  | some t =>
      obtain ⟨ht, _⟩ := getTaskInPlan_eq_some hget
      simp [Task.ended, h t ht, TaskStatus.isTerminal]

theorem endedIn_append_pending
    {t : Task}
    (h : t.status = .pending) :
    endedIn (ts ++ [t]) taskId = endedIn ts taskId := by
  unfold endedIn getTaskInPlan
  rw [List.find?_append]
  cases ts.find? fun u => u.id == taskId with
  | some u => rfl
  | none =>
      simp only [Option.none_or, List.find?_cons, List.find?_nil, Option.bind_none]
      split
      · simp [Task.ended, h, TaskStatus.isTerminal]
      · rfl

end Lists

section Calls

variable {store : Store} {planId taskId planId' taskId' : String} {now : Int}

theorem ended_eq
    (store : Store) (planId taskId : String) :
    ended store planId taskId =
      (store.get planId).bind fun plan => endedIn plan.tasks taskId := by
  unfold ended getTask endedIn
  rw [Option.bind_assoc]

/-- Writing back a plan whose tasks record the same outcomes. -/
theorem ended_set
    {plan : Plan}
    (hsame : endedIn plan.tasks taskId = ended store planId' taskId) :
    ended (store.set planId' plan) planId taskId = ended store planId taskId := by
  rw [ended_eq, Dict.get_set]
  split_ifs with hid
  · subst hid
    exact hsame
  · rw [ended_eq]

theorem ended_createPlan
    {name : String} {chatId : Option String} {tasks : List Task} {freshId : Nat → String}
    (hfresh : store.get planId' = none)
    (hnd : (taskIds (withIds freshId tasks)).Nodup)
    (hpending : ∀ t, t ∈ withIds freshId tasks → t.status = .pending) :
    ended (createPlan store planId' name chatId tasks freshId now).1 planId taskId =
      ended store planId taskId := by
  simp only [createPlan, updatePlanStatus_id]
  refine ended_set ?_
  rw [updatePlanStatus_tasks, resolveStatuses_tasks, endedIn_resolveTasks hnd,
    endedIn_of_pending hpending, ended_eq]
  simp only [resolveStatuses, hfresh]
  rfl

theorem ended_addTask
    {task : Task} {freshId : String}
    (h : StoreInv store)
    (hpending : task.status = .pending) :
    ended (addTask store planId' task freshId now).1 planId taskId =
      ended store planId taskId := by
  simp only [addTask]
  split
  · rfl
  · rename_i plan hplan
    split_ifs with hdup
    · rfl
    · have hnd := nodup_append_task (h planId' plan hplan).nodup hdup
      refine ended_set ?_
      rw [settlePlan_tasks, endedIn_resolveTasks hnd,
        endedIn_append_pending (by rw [Task.withId_status, hpending]), ended_eq, hplan]
      rfl

theorem ended_startTask :
    ended (startTask store planId' taskId' now).1 planId taskId =
      ended store planId taskId := by
  unfold startTask
  split
  · rfl
  · rename_i plan hplan
    split
    · rfl
    · rename_i task htask
      split_ifs with hready
      · rfl
      · refine ended_set ?_
        have hold : ended store planId' taskId = endedIn plan.tasks taskId := by
          rw [ended_eq, hplan]
          rfl
        rw [hold, updatePlanStatus_tasks, endedIn]
        rcases eq_or_ne taskId taskId' with rfl | hne
        · have hs : task.status = .ready := by simpa using hready
          have hself := getTaskInPlan_updateTask_self (f := fun t => t.start now)
            (fun _ => rfl) htask
          rw [hself, endedIn, htask]
          simp [Task.ended, Task.start, hs, TaskStatus.isTerminal]
        · have hid : ∀ t : Task, (t.start now).id = t.id := fun _ => rfl
          rw [getTaskInPlan_updateTask_of_ne hid hne, endedIn]

theorem setOutcome_isSome
    {f : Task → Task} :
    (setOutcome store planId taskId f now).2.isSome = true →
      (getTask store planId taskId).isSome = true := by
  unfold setOutcome getTask
  split
  · rename_i hplan
    simp
  · rename_i plan hplan
    split
    · simp
    · rename_i task htask
      simp [hplan, htask]

/-- Completing or failing a task of a stored plan records its outcome. -/
theorem ended_setOutcome
    {f : Task → Task} {t : Task}
    (h : StoreInv store)
    (hid : ∀ t, (f t).id = t.id)
    (hget : getTask store planId' taskId' = some t) :
    (setOutcome store planId' taskId' f now).2.isSome = true ∧
      ∀ planId taskId, ended (setOutcome store planId' taskId' f now).1 planId taskId =
        if planId = planId' ∧ taskId = taskId' then (f t).ended
        else ended store planId taskId := by
  obtain ⟨plan, hplan, htask⟩ := Option.bind_eq_some_iff.mp hget
  have hnd : (taskIds (updateTask taskId' f plan.tasks)).Nodup := by
    rw [taskIds_updateTask (h planId' plan hplan).nodup hid]
    exact (h planId' plan hplan).nodup
  have hself := getTaskInPlan_updateTask_self hid htask
  simp only [setOutcome, hplan, htask, settlePlan_tasks]
  constructor
  · rw [resolveTasks_eq_relabel hnd, getTaskInPlan_relabel, hself]
    rfl
  · intro planId taskId
    rw [ended_eq, Dict.get_set]
    by_cases hp : planId = planId'
    · subst hp
      rw [if_pos rfl, Option.bind_some, settlePlan_tasks, endedIn_resolveTasks hnd, endedIn]
      rcases eq_or_ne taskId taskId' with rfl | hne
      · simp [hself]
      · rw [getTaskInPlan_updateTask_of_ne hid hne, if_neg (fun hc => hne hc.2), ended_eq, hplan]
        rfl
    · rw [if_neg (Ne.symm hp), if_neg (fun hc => hp hc.1), ended_eq]

/-- Completing or failing a task that does not exist changes nothing. -/
theorem setOutcome_of_none
    {f : Task → Task}
    (hget : getTask store planId taskId = none) :
    setOutcome store planId taskId f now = (store, none) := by
  unfold setOutcome
  unfold getTask at hget
  split
  · rfl
  · rename_i plan hplan
    rw [hplan, Option.bind_some] at hget
    rw [hget]

theorem ended_completeTask
    {t : Task}
    (h : StoreInv store) (result log : String) (fl : OutcomeFlags) (now : Int)
    (hget : getTask store planId' taskId' = some t) :
    (completeTask store planId' taskId' result log fl now).2.isSome = true ∧
      ∀ planId taskId, ended (completeTask store planId' taskId' result log fl now).1 planId taskId =
        if planId = planId' ∧ taskId = taskId' then some (fl.doneStatus, some result, log)
        else ended store planId taskId := by
  have hended : (t.complete result log fl now).ended =
      some (fl.doneStatus, some result, log) := by
    simp [Task.ended, Task.complete, doneStatus_isTerminal]
  rw [← hended]
  have hid : ∀ t : Task, (t.complete result log fl now).id = t.id := fun _ => rfl
  exact ended_setOutcome h hid hget

theorem ended_failTask
    {t : Task}
    (h : StoreInv store) (log : String) (fl : OutcomeFlags) (now : Int)
    (hget : getTask store planId' taskId' = some t) :
    (failTask store planId' taskId' log fl now).2.isSome = true ∧
      ∀ planId taskId, ended (failTask store planId' taskId' log fl now).1 planId taskId =
        if planId = planId' ∧ taskId = taskId' then some (.failed, t.result, log)
        else ended store planId taskId := by
  have hended : (t.fail log fl now).ended = some (.failed, t.result, log) := by
    simp [Task.ended, Task.fail, TaskStatus.isTerminal]
  rw [← hended]
  have hid : ∀ t : Task, (t.fail log fl now).id = t.id := fun _ => rfl
  exact ended_setOutcome h hid hget

/-- A recorded outcome is that of a stored task that has ended. -/
theorem exists_task_of_ended
    {o : Ended}
    (h : ended store planId taskId = some o) :
    ∃ t, getTask store planId taskId = some t ∧ t.status.isTerminal = true ∧
      o = (t.status, t.result, t.log) := by
  obtain ⟨t, ht, hto⟩ := Option.bind_eq_some_iff.mp h
  unfold Task.ended at hto
  split_ifs at hto with hterm
  exact ⟨t, ht, hterm, (Option.some.inj hto).symm⟩

end Calls

end Plans
end DiploidAgent
