import DiploidAgent.Plans.Outcome

/-!
# A task under the calls of other threads

What a plan-manager call does to a task it does not name: nothing but a new
status from `_resolve_statuses` (`getTask_apply_of_ne`), which leaves a task that
is not waiting alone and keeps a task without dependencies READY.  A task that was
started never waits again (`begun_apply`).
-/

namespace DiploidAgent
namespace Plans

/-- The task a call starts, completes or fails. -/
def Call.target : Call → Option (String × String)
  | .startTask planId taskId _ => some (planId, taskId)
  | .completeTask planId taskId _ _ _ _ => some (planId, taskId)
  | .failTask planId taskId _ _ _ => some (planId, taskId)
  | _ => none

/-- The call creates no plan under this id. -/
def Call.Spares (planId : String) : Call → Prop
  | .createPlan planId' _ _ _ _ _ => planId' ≠ planId
  | _ => True

/-- The same task with a status that `_resolve_statuses` may give it. -/
structure Follows (t t' : Task) : Prop where
  same : t' = { t with status := t'.status }
  waiting : t'.status.isWaiting = t.status.isWaiting
  kept : t.status.isWaiting = false → t'.status = t.status
  ready : t.status = .ready → t.dependsOn = [] → t'.status = .ready

theorem Follows.refl (t : Task) : Follows t t :=
  ⟨rfl, rfl, fun _ => rfl, fun h _ => h⟩

section Resolve

variable {ts : List Task} {taskId : String} {t : Task}

/-- A waiting task without dependencies is labelled READY. -/
theorem finalMap_of_free
    (hnd : (taskIds ts).Nodup)
    (ht : t ∈ ts)
    (hw : t.status.isWaiting = true)
    (hfree : t.dependsOn = []) :
    finalMap ts t.id = some .ready := by
  obtain ⟨s, hs, hwait, _⟩ := finalMap_of_mem hnd ht
  have hsettled := finalMap_settled hnd ht
  rw [nextStatus, hs, Option.map_some, Option.some.injEq, hfree] at hsettled
  have hready : resolved (taskIds ts) (finalMap ts) s [] = .ready := by
    rw [resolved, if_pos (by rw [hwait, hw])]
    rfl
  rw [hs, ← hsettled, hready]

theorem getTaskInPlan_resolveTasks
    (hnd : (taskIds ts).Nodup)
    (hget : getTaskInPlan ts taskId = some t) :
    ∃ t', getTaskInPlan (resolveTasks ts) taskId = some t' ∧ Follows t t' ∧
      (t.status.isWaiting = true → t.dependsOn = [] → t'.status = .ready) := by
  obtain ⟨ht, _⟩ := getTaskInPlan_eq_some hget
  obtain ⟨s, hs, hwait, hkeep⟩ := finalMap_of_mem hnd ht
  have hfree : t.status.isWaiting = true → t.dependsOn = [] → s = .ready := by
    intro hw hdeps
    exact Option.some.inj (hs.symm.trans (finalMap_of_free hnd ht hw hdeps))
  refine ⟨{ t with status := s }, ?_, ⟨rfl, hwait, hkeep, fun hready => hfree ?_⟩, hfree⟩
  · rw [resolveTasks_eq_relabel hnd, getTaskInPlan_relabel, hget, Option.map_some, hs,
      Option.getD_some]
  · rw [hready]
    rfl

end Resolve

section Calls

variable {store : Store} {planId taskId : String} {t : Task}

theorem getTask_eq_some
    (h : getTask store planId taskId = some t) :
    ∃ plan, store.get planId = some plan ∧ getTaskInPlan plan.tasks taskId = some t :=
  Option.bind_eq_some_iff.mp h

/-- A plan that is written back with a task list in which the task follows. -/
theorem getTask_set
    {planId' : String} {plan : Plan}
    (hget : getTask store planId taskId = some t)
    (hplan : planId' = planId →
      ∃ t', getTaskInPlan plan.tasks taskId = some t' ∧ Follows t t') :
    ∃ t', getTask (store.set planId' plan) planId taskId = some t' ∧ Follows t t' := by
  unfold getTask
  rw [Dict.get_set]
  split_ifs with hid
  · exact hplan hid
  · exact ⟨t, hget, Follows.refl t⟩

theorem getTask_setOutcome_of_ne
    {planId' taskId' : String} {f : Task → Task} {now : Int}
    (hinv : StoreInv store)
    (hid : ∀ t, (f t).id = t.id)
    (hne : (planId', taskId') ≠ (planId, taskId))
    (hget : getTask store planId taskId = some t) :
    ∃ t', getTask (setOutcome store planId' taskId' f now).1 planId taskId = some t' ∧
      Follows t t' := by
  unfold setOutcome
  split
  · exact ⟨t, hget, Follows.refl t⟩
  · rename_i plan hplan
    split
    · exact ⟨t, hget, Follows.refl t⟩
    · refine getTask_set hget ?_
      rintro rfl
      have htask : taskId ≠ taskId' := fun h => hne (by rw [h])
      obtain ⟨plan', hplan', hget'⟩ := getTask_eq_some hget
      obtain rfl : plan' = plan := Option.some.inj (hplan'.symm.trans hplan)
      have hnd : (taskIds (updateTask taskId' f plan'.tasks)).Nodup := by
        rw [taskIds_updateTask (hinv _ _ hplan).nodup hid]
        exact (hinv _ _ hplan).nodup
      rw [settlePlan_tasks]
      obtain ⟨t', ht', hfollows, _⟩ := getTaskInPlan_resolveTasks hnd
        ((getTaskInPlan_updateTask_of_ne hid htask).trans hget')
      exact ⟨t', ht', hfollows⟩

/-- A call that does not name a stored task gives it a new status at most. -/
theorem getTask_apply_of_ne
    {call : Call}
    (hinv : StoreInv store)
    (hspares : call.Spares planId)
    (hne : call.target ≠ some (planId, taskId))
    (hget : getTask store planId taskId = some t) :
    ∃ t', getTask (apply store call) planId taskId = some t' ∧ Follows t t' := by
  cases call with
  | createPlan planId' name chatId tasks freshId now =>
      simp only [apply, createPlan, updatePlanStatus_id, resolveStatuses]
      exact getTask_set hget fun hid => absurd hid hspares
  | addTask planId' task freshId now =>
      simp only [apply, addTask]
      split
      · exact ⟨t, hget, Follows.refl t⟩
      · rename_i plan hplan
        split_ifs with hdup
        · exact ⟨t, hget, Follows.refl t⟩
        · refine getTask_set hget ?_
          rintro rfl
          obtain ⟨plan', hplan', hget'⟩ := getTask_eq_some hget
          obtain rfl : plan' = plan := Option.some.inj (hplan'.symm.trans hplan)
          have hold : getTaskInPlan (plan'.tasks ++ [task.withId freshId]) taskId = some t := by
            unfold getTaskInPlan at hget' ⊢
            rw [List.find?_append, hget', Option.some_or]
          rw [settlePlan_tasks]
          obtain ⟨t', ht', hfollows, _⟩ := getTaskInPlan_resolveTasks
            (nodup_append_task (hinv _ _ hplan).nodup hdup) hold
          exact ⟨t', ht', hfollows⟩
  | startTask planId' taskId' now =>
      simp only [apply, startTask]
      split
      · exact ⟨t, hget, Follows.refl t⟩
      · rename_i plan hplan
        split
        · exact ⟨t, hget, Follows.refl t⟩
        · split_ifs
          · exact ⟨t, hget, Follows.refl t⟩
          · refine getTask_set hget ?_
            rintro rfl
            have htask : taskId ≠ taskId' := fun h => hne (by rw [h]; rfl)
            obtain ⟨plan', hplan', hget'⟩ := getTask_eq_some hget
            obtain rfl : plan' = plan := Option.some.inj (hplan'.symm.trans hplan)
            refine ⟨t, ?_, Follows.refl t⟩
            have hid : ∀ u : Task, (u.start now).id = u.id := fun _ => rfl
            simp only [updatePlanStatus_tasks]
            exact (getTaskInPlan_updateTask_of_ne hid htask).trans hget'
  | completeTask planId' taskId' result log fl now =>
      exact getTask_setOutcome_of_ne hinv (fun _ => rfl) (fun h => hne (congrArg some h)) hget
  | failTask planId' taskId' log fl now =>
      exact getTask_setOutcome_of_ne hinv (fun _ => rfl) (fun h => hne (congrArg some h)) hget

/-- An added task without dependencies is READY, and it was not there before. -/
theorem getTask_addTask
    {task added : Task} {freshId : String} {now : Int}
    (hinv : StoreInv store)
    (hpending : task.status = .pending)
    (hfree : task.dependsOn = [])
    (h : (addTask store planId task freshId now).2 = some added) :
    getTask store planId added.id = none ∧
      getTask (addTask store planId task freshId now).1 planId added.id = some added ∧
      added.status = .ready ∧ added.dependsOn = [] := by
  simp only [addTask] at h ⊢
  split at h
  · cases h
  · rename_i plan hplan
    split_ifs at h ⊢ with hdup
    have hnew : getTaskInPlan plan.tasks (task.withId freshId).id = none :=
      (getTaskInPlan_eq_none_iff _ _).mpr hdup
    have hlast : getTaskInPlan (plan.tasks ++ [task.withId freshId]) (task.withId freshId).id =
        some (task.withId freshId) := by
      unfold getTaskInPlan at hnew ⊢
      rw [List.find?_append, hnew, Option.none_or]
      simp
    have hwait : (task.withId freshId).status.isWaiting = true := by
      rw [Task.withId_status, hpending]
      rfl
    have hdeps : (task.withId freshId).dependsOn = [] := by
      unfold Task.withId
      split_ifs <;> exact hfree
    obtain ⟨t', ht', hfollows, hready⟩ :=
      getTaskInPlan_resolveTasks (nodup_append_task (hinv _ _ hplan).nodup hdup) hlast
    simp only [settlePlan_tasks] at h
    obtain rfl : t' = added := Option.some.inj (ht'.symm.trans h)
    have hid := (getTaskInPlan_eq_some ht').2
    refine ⟨?_, ?_, hready hwait hdeps, ?_⟩
    · rw [getTask, hplan, Option.bind_some, hid, hnew]
    · rw [getTask, Dict.get_set_self, Option.bind_some, settlePlan_tasks, hid, ht']
    · rw [hfollows.same]
      exact hdeps

/-- A READY task can be started; it is RUNNING then. -/
theorem startTask_of_ready
    {now : Int}
    (hget : getTask store planId taskId = some t)
    (hready : t.status = .ready) :
    (startTask store planId taskId now).2 = some (t.start now) ∧
      getTask (startTask store planId taskId now).1 planId taskId = some (t.start now) := by
  obtain ⟨plan, hplan, htask⟩ := getTask_eq_some hget
  have hself := getTaskInPlan_updateTask_self (f := fun t => t.start now) (fun _ => rfl) htask
  simp only [startTask, hplan, htask]
  rw [if_neg (by simp [hready])]
  refine ⟨hself, ?_⟩
  rw [getTask, Dict.get_set_self, Option.bind_some]
  simp only [updatePlanStatus_tasks]
  exact hself

/-- Only a READY task is started. -/
theorem ready_of_startTask
    {started : Task} {now : Int}
    (h : (startTask store planId taskId now).2 = some started) :
    ∃ t, getTask store planId taskId = some t ∧ t.status = .ready := by
  unfold startTask at h
  split at h
  · cases h
  · rename_i plan hplan
    split at h
    · cases h
    · rename_i task htask
      split_ifs at h with hready
      refine ⟨task, ?_, by simpa using hready⟩
      rw [getTask, hplan, Option.bind_some, htask]

/-- A task that cannot be started stays as it is. -/
theorem startTask_of_not_ready
    {now : Int}
    (hget : getTask store planId taskId = some t)
    (hready : t.status ≠ .ready) :
    startTask store planId taskId now = (store, none) := by
  obtain ⟨plan, hplan, htask⟩ := getTask_eq_some hget
  simp only [startTask, hplan, htask]
  rw [if_pos (by simpa using hready)]

/-- The task was started at some time: it does not wait any more. -/
def Begun (store : Store) (planId taskId : String) : Prop :=
  ∃ t, getTask store planId taskId = some t ∧ t.status.isWaiting = false

theorem begun_setOutcome
    {f : Task → Task} {now : Int}
    (hinv : StoreInv store)
    (hid : ∀ t, (f t).id = t.id)
    (hterm : ∀ t, (f t).status.isTerminal = true)
    (hget : getTask store planId taskId = some t) :
    Begun (setOutcome store planId taskId f now).1 planId taskId := by
  have hended := (@ended_setOutcome _ _ _ now _ _ hinv hid hget).2 planId taskId
  rw [if_pos ⟨rfl, rfl⟩, Task.ended, if_pos (hterm t)] at hended
  obtain ⟨t', ht', hterm', _⟩ := exists_task_of_ended hended
  exact ⟨t', ht', TaskStatus.isWaiting_eq_false_of_isTerminal hterm'⟩

/-- No call makes a task wait again. -/
theorem begun_apply
    {call : Call}
    (hinv : StoreInv store)
    (hspares : call.Spares planId)
    (h : Begun store planId taskId) :
    Begun (apply store call) planId taskId := by
  obtain ⟨t, hget, hwait⟩ := h
  by_cases htarget : call.target = some (planId, taskId)
  · cases call with
    | createPlan planId' name chatId tasks freshId now => cases htarget
    | addTask planId' task freshId now => cases htarget
    | startTask planId' taskId' now =>
        cases htarget
        have hready : t.status ≠ .ready := by
          intro hs
          rw [hs] at hwait
          cases hwait
        rw [apply, startTask_of_not_ready hget hready]
        exact ⟨t, hget, hwait⟩
    | completeTask planId' taskId' result log fl now =>
        cases htarget
        exact begun_setOutcome hinv (fun _ => rfl) (fun _ => doneStatus_isTerminal fl) hget
    | failTask planId' taskId' log fl now =>
        cases htarget
        exact begun_setOutcome hinv (fun _ => rfl) (fun _ => rfl) hget
  · obtain ⟨t', hget', hfollows⟩ := getTask_apply_of_ne hinv hspares htarget hget
    exact ⟨t', hget', hfollows.waiting.trans hwait⟩

end Calls

end Plans
end DiploidAgent
