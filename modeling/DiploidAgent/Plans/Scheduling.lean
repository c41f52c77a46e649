import DiploidAgent.Lib.Runs
import DiploidAgent.Plans.Resolve

/-!
# Scheduling invariant of the plan manager

Every stored plan keeps three facts under all five mutating calls, whatever
their arguments: a READY task's dependencies exist and are done, the plan's
status is justified by its tasks, and the ids are distinct.

The fact that carries the induction is weaker than the first one: before a
recomputation a READY task's dependencies exist and are *terminal*
(`ReadyClosed`), since a dependency may just have been failed.  The
recomputation turns it into the strong form.
-/

namespace DiploidAgent
namespace Plans

open Sweep Runs

/-- Every dependency of a READY task exists in the list and is DONE or
INCOMPLETE. -/
def ReadyDepsDone (ts : List Task) : Prop :=
  ∀ t, t ∈ ts → t.status = .ready → ∀ d, d ∈ t.dependsOn →
    ∃ t', t' ∈ ts ∧ t'.id = d ∧ t'.status.isDone = true

/-- Every dependency of a READY task exists in the list and has ended. -/
def ReadyClosed (ts : List Task) : Prop :=
  ∀ t, t ∈ ts → t.status = .ready → ∀ d, d ∈ t.dependsOn →
    ∃ t', t' ∈ ts ∧ t'.id = d ∧ t'.status.isTerminal = true

/-- COMPLETED and FAILED are justified by the tasks. -/
def PlanStatusSound (plan : Plan) : Prop :=
  (plan.status = .completed → ∀ t, t ∈ plan.tasks → t.status.isDone = true) ∧
  (plan.status = .failed →
    (∃ t, t ∈ plan.tasks ∧ t.status = .failed) ∧
      ∀ t, t ∈ plan.tasks → t.status ≠ .ready ∧ t.status ≠ .running)

/-- What every stored plan keeps. -/
structure PlanInv (plan : Plan) : Prop where
  nodup : (taskIds plan.tasks).Nodup
  ready : ReadyDepsDone plan.tasks
  status : PlanStatusSound plan

theorem ReadyDepsDone.closed
    {ts : List Task}
    (h : ReadyDepsDone ts) :
    ReadyClosed ts := by
  intro t ht hs d hd
  obtain ⟨t', ht', hid, hdone⟩ := h t ht hs d hd
  exact ⟨t', ht', hid, TaskStatus.isTerminal_of_isDone hdone⟩

section Resolve

theorem mem_resolveTasks
    {ts : List Task} {t' : Task}
    (hnd : (taskIds ts).Nodup) :
    t' ∈ resolveTasks ts ↔
      ∃ t, t ∈ ts ∧ t' = { t with status := (finalMap ts t.id).getD t.status } := by
  rw [resolveTasks_eq_relabel hnd, relabel, List.mem_map]
  constructor
  · rintro ⟨t, ht, rfl⟩
    exact ⟨t, ht, rfl⟩
  · rintro ⟨t, ht, rfl⟩
    exact ⟨t, ht, rfl⟩

theorem taskIds_resolveTasks
    {ts : List Task}
    (hnd : (taskIds ts).Nodup) :
    taskIds (resolveTasks ts) = taskIds ts := by
  rw [resolveTasks_eq_relabel hnd, taskIds_relabel]

/-- The final map holds a status for every task of the list: its own when the
task is not waiting, a waiting one otherwise. -/
theorem finalMap_of_mem
    {ts : List Task} {t : Task}
    (hnd : (taskIds ts).Nodup)
    (ht : t ∈ ts) :
    ∃ s, finalMap ts t.id = some s ∧ s.isWaiting = t.status.isWaiting ∧
      (t.status.isWaiting = false → s = t.status) := by
  have hsync := statusMap_synced hnd t ht
  rcases finalMap_agrees hnd t.id with heq | ⟨s, s', hs, hs', hw, hw'⟩
  · exact ⟨t.status, by rw [heq, hsync], rfl, fun _ => rfl⟩
  · rw [hsync, Option.some.injEq] at hs
    subst hs
    refine ⟨s', hs', by rw [hw, hw'], fun hfalse => ?_⟩
    rw [hw] at hfalse
    cases hfalse

/-- A task that has ended, or is running, is not touched. -/
theorem resolveTasks_of_not_waiting
    {ts : List Task} {t : Task}
    (hnd : (taskIds ts).Nodup)
    (ht : t ∈ ts)
    (hw : t.status.isWaiting = false) :
    t ∈ resolveTasks ts := by
  obtain ⟨s, hs, _, hkeep⟩ := finalMap_of_mem hnd ht
  refine (mem_resolveTasks hnd).mpr ⟨t, ht, ?_⟩
  rw [hs, hkeep hw]
  rfl

/-- A task of the result that is not waiting was there before. -/
theorem mem_of_mem_resolveTasks
    {ts : List Task} {t' : Task}
    (hnd : (taskIds ts).Nodup)
    (ht' : t' ∈ resolveTasks ts)
    (hw : t'.status.isWaiting = false) :
    t' ∈ ts := by
  obtain ⟨t, ht, rfl⟩ := (mem_resolveTasks hnd).mp ht'
  obtain ⟨s, hs, hwait, hkeep⟩ := finalMap_of_mem hnd ht
  rw [hs, Option.getD_some] at hw ⊢
  rw [hkeep (by rw [← hwait, hw])]
  exact ht

theorem done_of_depsDone
    {byId : List String} {m : StatusMap} {deps : List String} {d : String}
    (h : depsDone byId m deps = true)
    (hd : d ∈ deps) :
    d ∈ byId ∧ ∃ s, m d = some s ∧ s.isDone = true := by
  have hne : deps ≠ [] := by
    rintro rfl
    simp at hd
  have hall : allDone byId m deps = true := by
    simpa [depsDone, hne] using h
  rw [allDone, Bool.and_eq_true] at hall
  have hmem : d ∈ byId := by
    have hmiss : anyMissing byId deps = false := by simpa using hall.2
    have := List.any_eq_false.mp hmiss d hd
    simpa using this
  refine ⟨hmem, ?_⟩
  have hin : m d ∈ depStatuses byId m deps :=
    List.mem_map.mpr ⟨d, List.mem_filter.mpr ⟨hd, by simpa using hmem⟩, rfl⟩
  have hgood := List.all_eq_true.mp hall.1 (m d) hin
  simp only [Bool.or_eq_true, beq_iff_eq] at hgood
  rcases hgood with hgood | hgood
  · exact ⟨.done, hgood, rfl⟩
  · exact ⟨.incomplete, hgood, rfl⟩

/-- A dependency that is not missing and not seen as failed. -/
theorem not_failed_of_ready
    {byId : List String} {m : StatusMap} {deps : List String} {d : String}
    (h : (anyMissing byId deps || anyFailed byId m deps) = false)
    (hd : d ∈ deps) :
    d ∈ byId ∧ m d ≠ some .failed ∧ m d ≠ some .blocked := by
  rw [Bool.or_eq_false_iff] at h
  have hmem : d ∈ byId := by
    have := List.any_eq_false.mp h.1 d hd
    simpa using this
  have hin : m d ∈ depStatuses byId m deps :=
    List.mem_map.mpr ⟨d, List.mem_filter.mpr ⟨hd, by simpa using hmem⟩, rfl⟩
  have hgood := List.any_eq_false.mp h.2 (m d) hin
  simp only [Bool.or_eq_true, beq_iff_eq, not_or] at hgood
  exact ⟨hmem, hgood⟩

/-- With distinct ids the stored status of an id is that of its task. -/
theorem exists_task_of_statusMap
    {ts : List Task} {d : String} {s : TaskStatus}
    (hnd : (taskIds ts).Nodup)
    (h : statusMap ts d = some s) :
    ∃ t, t ∈ ts ∧ t.id = d ∧ t.status = s := by
  by_cases hd : d ∈ taskIds ts
  · obtain ⟨t, ht, rfl⟩ := List.mem_map.mp hd
    rw [statusMap_synced hnd t ht] at h
    exact ⟨t, ht, rfl, Option.some.inj h⟩
  · rw [statusMap_of_notMem hd] at h
    cases h

/-- The invariant of the loop: a task labelled READY has only ended
dependencies. -/
theorem finalMap_ready_closed
    {ts : List Task}
    (hnd : (taskIds ts).Nodup)
    (hclosed : ReadyClosed ts)
    {t : Task}
    (ht : t ∈ ts)
    (hs : finalMap ts t.id = some .ready) :
    ∀ d, d ∈ t.dependsOn → ∃ t', t' ∈ ts ∧ t'.id = d ∧ t'.status.isTerminal = true := by
  have hinv := finalMap_invariant hnd
    (P := fun m => Agrees (statusMap ts) m ∧ ∀ t, t ∈ ts → m t.id = some .ready →
      ∀ d, d ∈ t.dependsOn → ∃ t', t' ∈ ts ∧ t'.id = d ∧ t'.status.isTerminal = true)
    ?_ ?_
  · exact hinv.2 t ht hs
  · rintro m x hx ⟨hag, hm⟩
    obtain ⟨u, hu, rfl⟩ := List.mem_map.mp hx
    refine ⟨agrees_visit (taskIds ts) hag, ?_⟩
    intro v hv hready
    rcases eq_or_ne v.id u.id with hid | hne
    · obtain rfl := eq_of_mem_of_id_eq hnd hv hu hid
      have hnext : nextStatus (taskIds ts) m (v.id, v.dependsOn) = some .ready := by
        simpa [visit] using hready
      obtain ⟨s, hms, hres⟩ := Option.map_eq_some_iff.mp hnext
      rcases eq_or_ne (resolved (taskIds ts) m s v.dependsOn) s with hsame | hchange
      · exact hm v hv (by rw [hms, ← hsame, hres])
      · have htarget := (resolved_of_ne hag hchange).2
        rw [hres] at htarget
        intro d hd
        have hdone : depsDone (taskIds ts) (statusMap ts) v.dependsOn = true := by
          unfold target at htarget
          split_ifs at htarget with h
          exact h
        obtain ⟨_, s', hs', hsd⟩ := done_of_depsDone hdone hd
        obtain ⟨t', ht', hid', rfl⟩ := exists_task_of_statusMap hnd hs'
        exact ⟨t', ht', hid', TaskStatus.isTerminal_of_isDone hsd⟩
    · have hne' : v.id ≠ Prod.fst ((u.id, u.dependsOn) : Node) := hne
      rw [visit_of_ne m hne'] at hready
      exact hm v hv hready
  · refine ⟨Agrees.refl _, fun v hv hready => hclosed v hv ?_⟩
    rw [statusMap_synced hnd v hv] at hready
    exact Option.some.inj hready

/-- After the recomputation every READY task has all its dependencies done. -/
theorem readyDepsDone_resolveTasks
    {ts : List Task}
    (hnd : (taskIds ts).Nodup)
    (hclosed : ReadyClosed ts) :
    ReadyDepsDone (resolveTasks ts) := by
  intro t' ht' hready d hd
  obtain ⟨t, ht, rfl⟩ := (mem_resolveTasks hnd).mp ht'
  obtain ⟨s, hs, _, _⟩ := finalMap_of_mem hnd ht
  have hfinal : finalMap ts t.id = some .ready := by
    rw [hs, Option.getD_some] at hready
    rw [hs, ← hready]
  obtain ⟨u, hu, rfl, hterm⟩ := finalMap_ready_closed hnd hclosed ht hfinal d hd
  have hsettled := finalMap_settled hnd ht
  rw [hfinal, nextStatus, hfinal, Option.map_some, Option.some.injEq, resolved] at hsettled
  have hgood : (anyMissing (taskIds ts) t.dependsOn ||
      anyFailed (taskIds ts) (finalMap ts) t.dependsOn) = false := by
    cases hbad : (anyMissing (taskIds ts) t.dependsOn ||
        anyFailed (taskIds ts) (finalMap ts) t.dependsOn) with
    | false => rfl
    | true => simp [TaskStatus.isWaiting, hbad] at hsettled
  obtain ⟨_, hnotFailed, _⟩ := not_failed_of_ready hgood hd
  have hw := TaskStatus.isWaiting_eq_false_of_isTerminal hterm
  obtain ⟨s', hs', _, hkeep⟩ := finalMap_of_mem hnd hu
  rw [hs', hkeep hw] at hnotFailed
  refine ⟨u, resolveTasks_of_not_waiting hnd hu hw, rfl, ?_⟩
  cases hst : u.status <;> simp_all [TaskStatus.isTerminal, TaskStatus.isDone]

end Resolve

section Operations

theorem planStatusSound_update
    (plan : Plan) :
    PlanStatusSound (updatePlanStatus plan) := by
  unfold updatePlanStatus
  split_ifs with hnil hdone hfail hactive
  · exact ⟨fun h => by simp at h, fun h => by simp at h⟩
  · refine ⟨fun _ t ht => List.all_eq_true.mp hdone t ht, fun h => by simp at h⟩
  · rw [Bool.and_eq_true, Bool.not_eq_true'] at hfail
    refine ⟨fun h => by simp at h, fun _ => ⟨?_, ?_⟩⟩
    · obtain ⟨t, ht, hs⟩ := List.any_eq_true.mp hfail.1
      exact ⟨t, ht, by simpa using hs⟩
    · intro t ht
      have := List.any_eq_false.mp hfail.2 t ht
      simp only [Bool.or_eq_true, beq_iff_eq, not_or] at this
      exact ⟨this.2, this.1⟩
  · exact ⟨fun h => by simp at h, fun h => by simp at h⟩
  · exact ⟨fun h => by simp at h, fun h => by simp at h⟩

@[simp] theorem updatePlanStatus_tasks
    (plan : Plan) :
    (updatePlanStatus plan).tasks = plan.tasks := by
  unfold updatePlanStatus
  split_ifs <;> rfl

@[simp] theorem updatePlanStatus_id
    (plan : Plan) :
    (updatePlanStatus plan).id = plan.id := by
  unfold updatePlanStatus
  split_ifs <;> rfl

@[simp] theorem resolveStatuses_tasks
    (plan : Plan) :
    (resolveStatuses plan).tasks = resolveTasks plan.tasks := rfl

@[simp] theorem settlePlan_tasks
    (plan : Plan) (tasks : List Task) (now : Int) :
    (settlePlan plan tasks now).tasks = resolveTasks tasks := by
  simp [settlePlan]

/-- A plan that was resolved from a list in which READY tasks have only ended
dependencies keeps the invariant. -/
theorem planInv_of_resolved
    {plan : Plan} {ts : List Task}
    (hnd : (taskIds ts).Nodup)
    (hclosed : ReadyClosed ts)
    (htasks : plan.tasks = resolveTasks ts)
    (hstatus : PlanStatusSound plan) :
    PlanInv plan := by
  refine ⟨?_, ?_, hstatus⟩
  · rw [htasks, taskIds_resolveTasks hnd]
    exact hnd
  · rw [htasks]
    exact readyDepsDone_resolveTasks hnd hclosed

theorem planStatusSound_settle
    (plan : Plan) (tasks : List Task) (now : Int) :
    PlanStatusSound (settlePlan plan tasks now) :=
  planStatusSound_update (resolveStatuses { plan with tasks := tasks })

theorem updateTask_eq_map
    (taskId : String) (f : Task → Task) {ts : List Task}
    (hnd : (taskIds ts).Nodup) :
    updateTask taskId f ts = ts.map fun t => if t.id = taskId then f t else t := by
  induction ts with
  | nil => rfl
  | cons t ts ih =>
      rw [taskIds, List.map_cons, List.nodup_cons] at hnd
      rw [updateTask, List.map_cons]
      split_ifs with hid
      · congr 1
        refine (List.map_congr_left fun u hu => ?_).trans (List.map_id ts) |>.symm
        have hne : u.id ≠ taskId := fun h => hnd.1 (List.mem_map.mpr ⟨u, hu, h.trans hid.symm⟩)
        rw [if_neg hne, id]
      · rw [ih hnd.2]

/-- The tasks after one was changed in place. -/
theorem mem_updateTask
    {taskId : String} {f : Task → Task} {ts : List Task} {t' : Task}
    (hnd : (taskIds ts).Nodup) :
    t' ∈ updateTask taskId f ts ↔
      (t' ∈ ts ∧ t'.id ≠ taskId) ∨ ∃ t, t ∈ ts ∧ t.id = taskId ∧ t' = f t := by
  rw [updateTask_eq_map taskId f hnd, List.mem_map]
  constructor
  · rintro ⟨t, ht, rfl⟩
    by_cases hid : t.id = taskId
    · exact Or.inr ⟨t, ht, hid, by rw [if_pos hid]⟩
    · exact Or.inl (by rw [if_neg hid]; exact ⟨ht, hid⟩)
  · rintro (⟨ht, hid⟩ | ⟨t, ht, hid, rfl⟩)
    · exact ⟨t', ht, if_neg hid⟩
    · exact ⟨t, ht, if_pos hid⟩

theorem taskIds_updateTask
    {taskId : String} {f : Task → Task} {ts : List Task}
    (hnd : (taskIds ts).Nodup)
    (hid : ∀ t, (f t).id = t.id) :
    taskIds (updateTask taskId f ts) = taskIds ts := by
  rw [updateTask_eq_map taskId f hnd]
  simp only [taskIds, List.map_map]
  refine List.map_congr_left fun t _ => ?_
  simp only [Function.comp_apply]
  split_ifs
  · exact hid t
  · rfl

/-- Ending a task leaves READY tasks with ended dependencies. -/
theorem readyClosed_updateTask
    {taskId : String} {f : Task → Task} {ts : List Task}
    (hnd : (taskIds ts).Nodup)
    (hid : ∀ t, (f t).id = t.id)
    (hterm : ∀ t, (f t).status.isTerminal = true)
    (h : ReadyDepsDone ts) :
    ReadyClosed (updateTask taskId f ts) := by
  intro t' ht' hready d hd
  rcases (mem_updateTask hnd).mp ht' with ⟨ht, _⟩ | ⟨t, _, _, rfl⟩
  · obtain ⟨u, hu, hud, hdone⟩ := h t' ht hready d hd
    by_cases hu' : u.id = taskId
    · exact ⟨f u, (mem_updateTask hnd).mpr (Or.inr ⟨u, hu, hu', rfl⟩),
        (hid u).trans hud, hterm u⟩
    · exact ⟨u, (mem_updateTask hnd).mpr (Or.inl ⟨hu, hu'⟩), hud,
        TaskStatus.isTerminal_of_isDone hdone⟩
  · have := hterm t
    rw [hready] at this
    cases this

/-- Starting a READY task leaves the other READY tasks with done
dependencies: a done dependency is not the task that was started. -/
theorem readyDepsDone_start
    {taskId : String} {now : Int} {ts : List Task}
    (hnd : (taskIds ts).Nodup)
    (hstart : ∀ t, t ∈ ts → t.id = taskId → t.status = .ready)
    (h : ReadyDepsDone ts) :
    ReadyDepsDone (updateTask taskId (fun t => t.start now) ts) := by
  intro t' ht' hready d hd
  rcases (mem_updateTask hnd).mp ht' with ⟨ht, _⟩ | ⟨t, _, _, rfl⟩
  · obtain ⟨u, hu, hud, hdone⟩ := h t' ht hready d hd
    have hu' : u.id ≠ taskId := by
      intro hid
      rw [hstart u hu hid] at hdone
      cases hdone
    exact ⟨u, (mem_updateTask hnd).mpr (Or.inl ⟨hu, hu'⟩), hud, hdone⟩
  · cases hready

end Operations

section Calls

/-- One call of the plan manager, with its arguments. -/
inductive Call where
  | createPlan (planId name : String) (chatId : Option String) (tasks : List Task)
      (freshId : Nat → String) (now : Int)
  | addTask (planId : String) (task : Task) (freshId : String) (now : Int)
  | startTask (planId taskId : String) (now : Int)
  | completeTask (planId taskId result log : String) (fl : OutcomeFlags) (now : Int)
  | failTask (planId taskId log : String) (fl : OutcomeFlags) (now : Int)

/-- The store after a call. -/
def apply (store : Store) : Call → Store
  | .createPlan planId name chatId tasks freshId now =>
      (createPlan store planId name chatId tasks freshId now).1
  | .addTask planId task freshId now => (addTask store planId task freshId now).1
  | .startTask planId taskId now => (startTask store planId taskId now).1
  | .completeTask planId taskId result log fl now =>
      (completeTask store planId taskId result log fl now).1
  | .failTask planId taskId log fl now => (failTask store planId taskId log fl now).1

/-- Tasks are created PENDING, and a plan is created with distinct ids. -/
def Admissible : Call → Prop
  | .createPlan _ _ _ tasks freshId _ =>
      (taskIds (withIds freshId tasks)).Nodup ∧
        ∀ t, t ∈ withIds freshId tasks → t.status = .pending
  | .addTask _ task _ _ => task.status = .pending
  | _ => True

/-- The task list a call hands to `_resolve_statuses`, when it gets there. -/
def resolveInput (store : Store) : Call → Option (List Task)
  | .createPlan _ _ _ tasks freshId _ => some (withIds freshId tasks)
  | .addTask planId task freshId _ =>
      match store.get planId with
      | none => none
      | some plan =>
          if (task.withId freshId).id ∈ taskIds plan.tasks then none
          else some (plan.tasks ++ [task.withId freshId])
  | .startTask _ _ _ => none
  | .completeTask planId taskId result log fl now =>
      match store.get planId with
      | none => none
      | some plan => (getTaskInPlan plan.tasks taskId).map fun _ =>
          updateTask taskId (fun t => t.complete result log fl now) plan.tasks
  | .failTask planId taskId log fl now =>
      match store.get planId with
      | none => none
      | some plan => (getTaskInPlan plan.tasks taskId).map fun _ =>
          updateTask taskId (fun t => t.fail log fl now) plan.tasks

/-- Every stored plan keeps the invariant. -/
def StoreInv (store : Store) : Prop :=
  ∀ planId plan, store.get planId = some plan → PlanInv plan

theorem StoreInv.set
    {store : Store} {planId : String} {plan : Plan}
    (h : StoreInv store)
    (hplan : PlanInv plan) :
    StoreInv (store.set planId plan) := by
  intro id' plan' hget
  rw [Dict.get_set] at hget
  split_ifs at hget with hid
  · obtain rfl := Option.some.inj hget
    exact hplan
  · exact h id' plan' hget

theorem doneStatus_isTerminal
    (fl : OutcomeFlags) :
    fl.doneStatus.isTerminal = true := by
  unfold OutcomeFlags.doneStatus
  split_ifs <;> rfl

@[simp] theorem Task.withId_status
    (t : Task) (freshId : String) :
    (t.withId freshId).status = t.status := by
  unfold Task.withId
  split_ifs <;> rfl

theorem readyClosed_append
    {ts : List Task} {t : Task}
    (h : ReadyDepsDone ts)
    (hs : t.status = .pending) :
    ReadyClosed (ts ++ [t]) := by
  intro t' ht' hready d hd
  rcases List.mem_append.mp ht' with ht | ht
  · obtain ⟨u, hu, hud, hdone⟩ := h t' ht hready d hd
    exact ⟨u, List.mem_append_left _ hu, hud, TaskStatus.isTerminal_of_isDone hdone⟩
  · obtain rfl := List.mem_singleton.mp ht
    rw [hs] at hready
    cases hready

theorem nodup_append_task
    {ts : List Task} {t : Task}
    (hnd : (taskIds ts).Nodup)
    (ht : t.id ∉ taskIds ts) :
    (taskIds (ts ++ [t])).Nodup := by
  rw [taskIds, List.map_append]
  refine List.Nodup.append hnd (by simp) ?_
  intro d hd hd'
  obtain rfl : d = t.id := by simpa using hd'
  exact ht hd

/-- Completing or failing a task of a plan keeps the invariant. -/
theorem setOutcome_storeInv
    {store : Store} {planId taskId : String} {f : Task → Task} {now : Int}
    (hid : ∀ t, (f t).id = t.id)
    (hterm : ∀ t, (f t).status.isTerminal = true)
    (h : StoreInv store) :
    StoreInv (setOutcome store planId taskId f now).1 := by
  unfold setOutcome
  split
  · exact h
  · rename_i plan hplan
    split
    · exact h
    · have hinv := h planId plan hplan
      have hnd : (taskIds (updateTask taskId f plan.tasks)).Nodup := by
        rw [taskIds_updateTask hinv.nodup hid]
        exact hinv.nodup
      exact h.set (planInv_of_resolved hnd
        (readyClosed_updateTask hinv.nodup hid hterm hinv.ready)
        (settlePlan_tasks plan _ now) (planStatusSound_settle plan _ now))

/-- Every admissible call keeps the invariant of all stored plans. -/
theorem apply_storeInv
    {store : Store} (call : Call)
    (h : StoreInv store)
    (hadm : Admissible call) :
    StoreInv (apply store call) := by
  cases call with
  | createPlan planId name chatId tasks freshId now =>
      refine h.set (planInv_of_resolved hadm.1 ?_ (by simp) (planStatusSound_update _))
      intro t ht hready
      rw [hadm.2 t ht] at hready
      cases hready
  | addTask planId task freshId now =>
      simp only [apply, addTask]
      split
      · exact h
      · rename_i plan hplan
        split_ifs with hdup
        · exact h
        · have hinv := h planId plan hplan
          have hpending : (task.withId freshId).status = .pending := by
            rw [Task.withId_status]
            exact hadm
          exact h.set (planInv_of_resolved (nodup_append_task hinv.nodup hdup)
            (readyClosed_append hinv.ready hpending)
            (settlePlan_tasks plan _ now) (planStatusSound_settle plan _ now))
  | startTask planId taskId now =>
      simp only [apply, startTask]
      split
      · exact h
      · rename_i plan hplan
        split
        · exact h
        · rename_i task htask
          split_ifs with hready
          · exact h
          · have hinv := h planId plan hplan
            obtain ⟨hmem, htid⟩ := getTaskInPlan_eq_some htask
            have hstart : ∀ t, t ∈ plan.tasks → t.id = taskId → t.status = .ready := by
              intro t ht hid
              rw [eq_of_mem_of_id_eq hinv.nodup ht hmem (hid.trans htid.symm)]
              simpa using hready
            refine h.set ⟨?_, ?_, planStatusSound_update _⟩
            · simp only [updatePlanStatus_tasks]
              rw [taskIds_updateTask hinv.nodup (fun t => (rfl : (t.start now).id = t.id))]
              exact hinv.nodup
            · simp only [updatePlanStatus_tasks]
              exact readyDepsDone_start hinv.nodup hstart hinv.ready
  | completeTask planId taskId result log fl now =>
      exact setOutcome_storeInv (fun _ => rfl) (fun _ => doneStatus_isTerminal fl) h
  | failTask planId taskId log fl now =>
      exact setOutcome_storeInv (fun _ => rfl) (fun _ => rfl) h

/-- The step function of the store: every call is enabled. -/
def step (store : Store) (call : Call) : Option Store := some (apply store call)

/-- The stores that admissible calls lead to from an empty plan file. -/
def Stored : Store → Prop :=
  Reach step (fun _ call => Admissible call) Dict.empty

theorem storeInv_of_stored
    {store : Store}
    (h : Stored store) :
    StoreInv store := by
  refine h.invariant (fun _ _ hget => by simp at hget) ?_
  intro s call s' hinv hadm hstep
  obtain rfl := Option.some.inj hstep
  exact apply_storeInv call hinv hadm

/-- Before the call the task was RUNNING already, or it was READY with all its
dependencies done. -/
def StartedFromReady (store : Store) (planId taskId : String) : Prop :=
  ∃ plan t, store.get planId = some plan ∧ t ∈ plan.tasks ∧ t.id = taskId ∧
    (t.status = .running ∨
      (t.status = .ready ∧ ∀ d, d ∈ t.dependsOn →
        ∃ u, u ∈ plan.tasks ∧ u.id = d ∧ u.status.isDone = true))

theorem setOutcome_running
    {store : Store} {planId planId' taskId : String} {f : Task → Task} {now : Int}
    {plan' : Plan} {t' : Task}
    (hid : ∀ t, (f t).id = t.id)
    (hterm : ∀ t, (f t).status.isTerminal = true)
    (h : StoreInv store)
    (hget : (setOutcome store planId taskId f now).1.get planId' = some plan')
    (ht' : t' ∈ plan'.tasks)
    (hrun : t'.status = .running) :
    StartedFromReady store planId' t'.id := by
  have hold : store.get planId' = some plan' → StartedFromReady store planId' t'.id :=
    fun hsame => ⟨plan', t', hsame, ht', rfl, Or.inl hrun⟩
  unfold setOutcome at hget
  split at hget
  · exact hold hget
  · rename_i plan hplan
    split at hget
    · exact hold hget
    · rw [Dict.get_set] at hget
      split_ifs at hget with hpid
      · obtain rfl := Option.some.inj hget
        have hnd := (h planId plan hplan).nodup
        have hnd' : (taskIds (updateTask taskId f plan.tasks)).Nodup := by
          rw [taskIds_updateTask hnd hid]
          exact hnd
        rw [settlePlan_tasks] at ht'
        have hmem := mem_of_mem_resolveTasks hnd' ht' (by rw [hrun]; rfl)
        rcases (mem_updateTask hnd).mp hmem with ⟨hin, _⟩ | ⟨t, _, _, rfl⟩
        · exact ⟨plan, t', hpid ▸ hplan, hin, rfl, Or.inl hrun⟩
        · have := hterm t
          rw [hrun] at this
          cases this
      · exact hold hget

/-- A task that is RUNNING after a call was RUNNING before it, or READY with
all its dependencies done. -/
theorem apply_running
    {store : Store} {call : Call} {planId : String} {plan' : Plan} {t' : Task}
    (h : StoreInv store)
    (hadm : Admissible call)
    (hget : (apply store call).get planId = some plan')
    (ht' : t' ∈ plan'.tasks)
    (hrun : t'.status = .running) :
    StartedFromReady store planId t'.id := by
  have hold : store.get planId = some plan' → StartedFromReady store planId t'.id :=
    fun hsame => ⟨plan', t', hsame, ht', rfl, Or.inl hrun⟩
  have hw : t'.status.isWaiting = false := by rw [hrun]; rfl
  cases call with
  | createPlan planId₀ name chatId tasks freshId now =>
      simp only [apply, createPlan] at hget
      rw [Dict.get_set] at hget
      split_ifs at hget with hpid
      · obtain rfl := Option.some.inj hget
        have hmem : t' ∈ withIds freshId tasks :=
          mem_of_mem_resolveTasks hadm.1 (by simpa using ht') hw
        rw [hadm.2 t' hmem] at hrun
        cases hrun
      · exact hold hget
  | addTask planId₀ task freshId now =>
      simp only [apply, addTask] at hget
      split at hget
      · exact hold hget
      · rename_i plan hplan
        split_ifs at hget with hdup
        · exact hold hget
        · dsimp only at hget
          rw [Dict.get_set] at hget
          split_ifs at hget with hpid
          · obtain rfl := Option.some.inj hget
            have hnd := nodup_append_task (h planId₀ plan hplan).nodup hdup
            rw [settlePlan_tasks] at ht'
            rcases List.mem_append.mp (mem_of_mem_resolveTasks hnd ht' hw) with hin | hin
            · exact ⟨plan, t', hpid ▸ hplan, hin, rfl, Or.inl hrun⟩
            · obtain rfl := List.mem_singleton.mp hin
              rw [Task.withId_status, hadm] at hrun
              cases hrun
          · exact hold hget
  | startTask planId₀ taskId now =>
      simp only [apply, startTask] at hget
      split at hget
      · exact hold hget
      · rename_i plan hplan
        split at hget
        · exact hold hget
        · rename_i task htask
          split_ifs at hget with hready
          · exact hold hget
          · dsimp only at hget
            rw [Dict.get_set] at hget
            split_ifs at hget with hpid
            · obtain rfl := Option.some.inj hget
              have hinv := h planId₀ plan hplan
              obtain ⟨hmem, htid⟩ := getTaskInPlan_eq_some htask
              simp only [updatePlanStatus_tasks] at ht'
              rcases (mem_updateTask hinv.nodup).mp ht' with ⟨hin, _⟩ | ⟨t, ht, hid, rfl⟩
              · exact ⟨plan, t', hpid ▸ hplan, hin, rfl, Or.inl hrun⟩
              · obtain rfl := eq_of_mem_of_id_eq hinv.nodup ht hmem (hid.trans htid.symm)
                have hs : t.status = .ready := by simpa using hready
                exact ⟨plan, t, hpid ▸ hplan, ht, rfl, Or.inr ⟨hs, hinv.ready t ht hs⟩⟩
            · exact hold hget
  | completeTask planId₀ taskId result log fl now =>
      exact setOutcome_running (f := fun t => t.complete result log fl now)
        (fun _ => rfl) (fun _ => doneStatus_isTerminal fl) h hget ht' hrun
  | failTask planId₀ taskId log fl now =>
      exact setOutcome_running (f := fun t => t.fail log fl now)
        (fun _ => rfl) (fun _ => rfl) h hget ht' hrun

/-- Every list a call hands to the recomputation has distinct ids. -/
theorem nodup_of_resolveInput
    {store : Store} {call : Call} {ts : List Task}
    (h : StoreInv store)
    (hadm : Admissible call)
    (hts : resolveInput store call = some ts) :
    (taskIds ts).Nodup := by
  have hupdate : ∀ planId taskId (f : Task → Task) (plan : Plan),
      store.get planId = some plan → (∀ t, (f t).id = t.id) →
      ((getTaskInPlan plan.tasks taskId).map fun _ => updateTask taskId f plan.tasks) = some ts →
      (taskIds ts).Nodup := by
    intro planId taskId f plan hplan hid hmap
    obtain ⟨_, _, rfl⟩ := Option.map_eq_some_iff.mp hmap
    rw [taskIds_updateTask (h planId plan hplan).nodup hid]
    exact (h planId plan hplan).nodup
  cases call with
  | createPlan planId name chatId tasks freshId now =>
      obtain rfl := Option.some.inj hts
      exact hadm.1
  | addTask planId task freshId now =>
      simp only [resolveInput] at hts
      split at hts
      · cases hts
      · rename_i plan hplan
        split_ifs at hts with hdup
        obtain rfl := Option.some.inj hts
        exact nodup_append_task (h planId plan hplan).nodup hdup
  | startTask planId taskId now => cases hts
  | completeTask planId taskId result log fl now =>
      simp only [resolveInput] at hts
      split at hts
      · cases hts
      · rename_i plan hplan
        exact hupdate planId taskId (fun t => t.complete result log fl now) plan hplan
          (fun _ => rfl) hts
  | failTask planId taskId log fl now =>
      simp only [resolveInput] at hts
      split at hts
      · cases hts
      · rename_i plan hplan
        exact hupdate planId taskId (fun t => t.fail log fl now) plan hplan
          (fun _ => rfl) hts

/-- **Plan scheduling invariant.**  In every store admissible calls lead to:
READY tasks have all dependencies done and the plan status is justified; the
next call, whatever it is, makes a task RUNNING only from such a READY state;
and its `while changed` loop returns. -/
theorem plan_scheduling_invariant
    (store : Store)
    (h : Stored store) :
    (∀ planId plan, store.get planId = some plan →
      ReadyDepsDone plan.tasks ∧ PlanStatusSound plan) ∧
    (∀ call, Admissible call →
      ∀ planId plan', (apply store call).get planId = some plan' →
      ∀ t', t' ∈ plan'.tasks → t'.status = .running →
        StartedFromReady store planId t'.id) ∧
    (∀ call, Admissible call → ∀ ts, resolveInput store call = some ts →
      ∀ n, ts.length + 1 ≤ n →
        resolveLoop (taskIds ts) n (statusMap ts) ts = some (resolveTasks ts)) := by
  have hinv := storeInv_of_stored h
  refine ⟨?_, ?_, ?_⟩
  · intro planId plan hget
    exact ⟨(hinv planId plan hget).ready, (hinv planId plan hget).status⟩
  · intro call hadm planId plan' hget t' ht' hrun
    exact apply_running hinv hadm hget ht' hrun
  · intro call hadm ts hts n hn
    exact resolveLoop_eq_some (nodup_of_resolveInput hinv hadm hts) hn

/-- Two tasks, the second depending on the first. -/
def chainOfTwo : Call :=
  .createPlan "plan-1" "chain" none
    [{ id := "a", name := "a" }, { id := "b", name := "b", dependsOn := ["a"] }]
    (fun _ => "") 0

theorem plan_scheduling_invariant_chainOfTwo :
    (∀ planId plan, (apply Dict.empty chainOfTwo).get planId = some plan →
      ReadyDepsDone plan.tasks ∧ PlanStatusSound plan) ∧
    (∀ call, Admissible call →
      ∀ planId plan', (apply (apply Dict.empty chainOfTwo) call).get planId = some plan' →
      ∀ t', t' ∈ plan'.tasks → t'.status = .running →
        StartedFromReady (apply Dict.empty chainOfTwo) planId t'.id) ∧
    (∀ call, Admissible call → ∀ ts,
      resolveInput (apply Dict.empty chainOfTwo) call = some ts →
      ∀ n, ts.length + 1 ≤ n →
        resolveLoop (taskIds ts) n (statusMap ts) ts = some (resolveTasks ts)) := by
  refine plan_scheduling_invariant _ ((Reach.refl _).next (a := chainOfTwo) ?_ rfl)
  exact ⟨by decide, by decide⟩

end Calls

end Plans
end DiploidAgent
