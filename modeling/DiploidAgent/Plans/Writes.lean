import DiploidAgent.Plans.Engine
import DiploidAgent.Plans.Steady

/-!
# What the task engine writes

Every step of the service makes at most one plan-manager call, `Label.call`, and
the plan file after the step is the file after that call (`store_step`).  A worker
is added only for the task that the call started (`runsOf_step`), and no call gives
a stored plan another id or another chat (`identity_apply`).
-/

namespace DiploidAgent
namespace TaskEngine

open Plans

section Calls

/-- The call of `_handle_task_completed` and `_handle_task_failed`. -/
def Event.call (now : Int) : Event → Call
  | taskCompleted planId taskId result log fl => .completeTask planId taskId result log fl now
  | taskFailed planId taskId log error fl =>
      .failTask planId taskId (failureLog log error) fl now

theorem handle_eq_apply
    (store : Store) (now : Int) (ev : Event) :
    ev.handle store now = apply store (ev.call now) := by
  cases ev <;> rfl

/-- The call of an operator. -/
def Request.call (planId taskId : String) (now : Int) : Request → Call
  | .planTaskDone result log => .completeTask planId taskId result log {} now
  | .planTaskFail log => .failTask planId taskId log {} now

theorem write_eq_apply
    (store : Store) (planId taskId : String) (now : Int) (request : Request) :
    (request.write store planId taskId now).1 = apply store (request.call planId taskId now) := by
  cases request <;> rfl

/-- The call after `_execute`. -/
def Executed.call (planId taskId : String) (e : Executed) (now : Int) : Call :=
  if e.exitCode = 0 then .completeTask planId taskId e.result e.log e.fl now
  else .failTask planId taskId (if e.log = "" then e.result else e.log) e.fl now

theorem recordExecuted_eq_apply
    (store : Store) (planId taskId : String) (e : Executed) (now : Int) :
    (recordExecuted store planId taskId e now).1 = apply store (e.call planId taskId now) := by
  unfold recordExecuted Executed.call
  split_ifs <;> rfl

/-- The call of one step of a worker. -/
def Worker.call (w : Worker) : Move → Option Call
  | .failDisabled now =>
      match w.pc with
      | .disabled type =>
          some (.failTask w.planId w.taskId
            ("Task type " ++ typeValue type ++ " is disabled") {} now)
      | _ => none
  | .executed e now => some (e.call w.planId w.taskId now)
  | .startNext busy _ now =>
      match w.pc with
      | .start (t :: _) _ => if busy then none else some (.startTask w.planId t now)
      | _ => none
  | .failRaised now =>
      match w.pc with
      | .raised exc trace => some (.failTask w.planId w.taskId (exc ++ "\n" ++ trace) {} now)
      | _ => none
  | _ => none

/-- The plan-manager call of a step. -/
def Label.call (s : State) : Label → Option Call
  | .createPlan planId name chatId tasks freshId now =>
      some (.createPlan planId name chatId tasks freshId now)
  | .addTask planId task freshId now => some (.addTask planId task freshId now)
  | .startTask planId taskId _ now => some (.startTask planId taskId now)
  | .worker i move => (s.workers[i]?).bind fun w => w.call move
  | .operatorRead _ _ _ => none
  | .operatorWrite now => s.operator.map fun op => op.request.call op.planId op.taskId now
  | .operatorPost => none
  | .handle now => s.queue.head?.map (Event.call now)

/-- The plan file after a call, if there is one. -/
def applyCall (store : Store) (call : Option Call) : Store :=
  call.elim store (apply store)

end Calls

section Steps

variable {s s' : State}

theorem store_startTask
    (s : State) (planId taskId : String) (submit : Submit) (now : Int) :
    (startTask s planId taskId submit now).1.store =
      apply s.store (.startTask planId taskId now) := by
  unfold startTask
  dsimp only
  split <;> rfl

/-- A worker starts, completes or fails a task. -/
inductive WorkerCall (w : Worker) : Call → Prop
  | start (t : String) (now : Int) : WorkerCall w (.startTask w.planId t now)
  | complete (result log : String) (fl : OutcomeFlags) (now : Int) :
      WorkerCall w (.completeTask w.planId w.taskId result log fl now)
  | fail (log : String) (fl : OutcomeFlags) (now : Int) :
      WorkerCall w (.failTask w.planId w.taskId log fl now)

/-- The steps of a worker, by their plan-manager call. -/
inductive Worked (s : State) (i : Nat) (w : Worker) : Option Call → State → Prop
  | move (pc : Pc) :
      Worked s i w none (s.setPc i w pc)
  | post (ev : Event) (pc : Pc) :
      Worked s i w none ((s.post ev).setPc i w pc)
  | write {call : Call} (hcall : WorkerCall w call) (pc : Pc) :
      Worked s i w (some call) (({ s with store := apply s.store call } : State).setPc i w pc)
  | start (t : String) (submit : Submit) (now : Int) (pc : Pc) :
      Worked s i w (some (.startTask w.planId t now))
        ((startTask s w.planId t submit now).1.setPc i w pc)

theorem workerCall_executed
    (w : Worker) (e : Executed) (now : Int) :
    WorkerCall w (e.call w.planId w.taskId now) := by
  unfold Executed.call
  split
  · exact .complete _ _ _ _
  · exact .fail _ _ _

theorem worked_of_stepWorker
    {i : Nat} {w : Worker} {move : Move}
    (h : stepWorker s i w move = some s') :
    Worked s i w (w.call move) s' := by
  unfold stepWorker at h
  split at h
  · split at h <;> obtain rfl := Option.some.inj h <;> exact .move _
  · rename_i type now hpc
    obtain rfl := Option.some.inj h
    simp only [Worker.call, hpc]
    exact .write (.fail _ _ _) _
  · rename_i e now hpc
    obtain rfl := Option.some.inj h
    have hwrite := Worked.write (s := s) (i := i) (workerCall_executed w e now)
      (afterRecord (recordExecuted s.store w.planId w.taskId e now).2 true)
    rw [← recordExecuted_eq_apply] at hwrite
    exact hwrite
  · obtain rfl := Option.some.inj h
    exact .post _ _
  · obtain rfl := Option.some.inj h
    exact .move _
  · rename_i hpc
    obtain rfl := Option.some.inj h
    simp only [Worker.call, hpc]
    exact .move _
  · -- the next dependent
    rename_i t ts guarded busy submit now hpc
    simp only [Worker.call, hpc]
    split_ifs at h with hbusy
    · obtain rfl := Option.some.inj h
      rw [if_pos hbusy]
      exact .move _
    · obtain rfl := Option.some.inj h
      rw [if_neg hbusy]
      exact .start _ _ _ _
  · obtain rfl := Option.some.inj h
    exact .move _
  · obtain rfl := Option.some.inj h
    exact .move _
  · obtain rfl := Option.some.inj h
    exact .move _
  · obtain rfl := Option.some.inj h
    exact .move _
  · obtain rfl := Option.some.inj h
    exact .move _
  · rename_i exc trace now hpc
    obtain rfl := Option.some.inj h
    simp only [Worker.call, hpc]
    exact .write (.fail _ _ _) _
  · obtain rfl := Option.some.inj h
    exact .post _ _
  · cases h

/-- The plan a call creates. -/
def creates : Call → Option (String × Option String)
  | .createPlan planId _ chatId _ _ _ => some (planId, chatId)
  | _ => none

/-- A call whose tasks come in PENDING, under distinct ids, and whose plan is new. -/
structure Sane (store : Store) (call : Call) : Prop where
  admissible : Admissible call
  fresh : ∀ p, creates call = some p → store.get p.1 = none

/-- The steps of the service, by their plan-manager call. -/
inductive Stepped (s : State) : Option Call → State → Prop
  | quiet {queue posted : List Event} {operator : Option Operator} :
      Stepped s none { s with
        queue := queue
        posted := posted
        operator := operator }
  | write {call : Call} {queue : List Event} {operator : Option Operator}
      (hcall : Sane s.store call) :
      Stepped s (some call) { s with
        store := apply s.store call
        queue := queue
        operator := operator }
  | start (planId taskId : String) (submit : Submit) (now : Int) :
      Stepped s (some (.startTask planId taskId now)) (startTask s planId taskId submit now).1
  | worker {i : Nat} {w : Worker} {call : Option Call} {s' : State}
      (hw : s.workers[i]? = some w) (h : Worked s i w call s') :
      Stepped s call s'

theorem sane_event
    (store : Store) (ev : Event) (now : Int) :
    Sane store (ev.call now) := by
  cases ev <;> exact ⟨trivial, fun p hp => by cases hp⟩

theorem sane_request
    (store : Store) (planId taskId : String) (request : Request) (now : Int) :
    Sane store (request.call planId taskId now) := by
  cases request <;> exact ⟨trivial, fun p hp => by cases hp⟩

theorem stepped_of_step
    {a : Label}
    (h : step s a = some s') :
    Stepped s (a.call s) s' := by
  cases a with
  | createPlan planId name chatId tasks freshId now =>
      simp only [step] at h
      split_ifs at h with hguard
      obtain rfl := Option.some.inj h
      refine .write ⟨⟨hguard.2.1, fun t ht => ?_⟩, fun p hp => ?_⟩
      · simpa using List.all_eq_true.mp hguard.2.2 t ht
      · obtain rfl := Option.some.inj hp
        exact Option.isNone_iff_eq_none.mp hguard.1
  | addTask planId task freshId now =>
      simp only [step] at h
      split_ifs at h with hpending
      obtain rfl := Option.some.inj h
      exact .write ⟨hpending, fun p hp => by cases hp⟩
  | startTask planId taskId submit now =>
      obtain rfl := Option.some.inj h
      exact .start _ _ _ _
  | worker i move =>
      obtain ⟨w, hw, hstep⟩ := Option.bind_eq_some_iff.mp h
      rw [Label.call, hw, Option.bind_some]
      exact .worker hw (worked_of_stepWorker hstep)
  | operatorRead planId taskId request =>
      simp only [step] at h
      split at h
      · cases h
      · obtain rfl := Option.some.inj h
        exact .quiet
  | operatorWrite now =>
      simp only [step] at h
      split at h
      · rename_i op hop
        split at h
        · obtain rfl := Option.some.inj h
          rw [Label.call, hop, Option.map_some, operatorWrite, write_eq_apply]
          exact .write (sane_request _ _ _ _ _)
        · cases h
      · cases h
  | operatorPost =>
      simp only [step] at h
      split at h
      · split at h
        · obtain rfl := Option.some.inj h
          exact .quiet
        · cases h
      · cases h
  | handle now =>
      simp only [step] at h
      split at h
      · cases h
      · rename_i ev rest hqueue
        obtain rfl := Option.some.inj h
        rw [Label.call, hqueue, List.head?_cons, Option.map_some, handle_eq_apply]
        exact .write (sane_event _ _ _)

theorem Worked.store_eq
    {i : Nat} {w : Worker} {call : Option Call}
    (h : Worked s i w call s') :
    s'.store = applyCall s.store call := by
  cases h with
  | start t submit now => exact store_startTask s w.planId t submit now
  | _ => rfl

/-- The plan file after a step. -/
theorem store_step
    {a : Label}
    (h : step s a = some s') :
    s'.store = applyCall s.store (a.call s) := by
  have hstepped := stepped_of_step h
  generalize a.call s = call at hstepped ⊢
  cases hstepped with
  | start planId taskId submit now => exact store_startTask s planId taskId submit now
  | worker hw hworked => exact hworked.store_eq
  | _ => rfl

/-- What a step writes is sane. -/
theorem sane_call
    {a : Label} {call : Call}
    (h : step s a = some s')
    (hcall : a.call s = some call) :
    Sane s.store call := by
  have hstepped := stepped_of_step h
  rw [hcall] at hstepped
  cases hstepped with
  | write hsane => exact hsane
  | start => exact ⟨trivial, fun p hp => by cases hp⟩
  | worker hw hworked =>
      cases hworked with
      | write hworker => cases hworker <;> exact ⟨trivial, fun p hp => by cases hp⟩
      | start => exact ⟨trivial, fun p hp => by cases hp⟩

/-- Tasks come in PENDING, plans with distinct task ids. -/
theorem admissible_call
    {a : Label} {call : Call}
    (h : step s a = some s')
    (hcall : a.call s = some call) :
    Admissible call :=
  (sane_call h hcall).admissible

theorem storeInv_step
    {a : Label}
    (hinv : StoreInv s.store)
    (h : step s a = some s') :
    StoreInv s'.store := by
  rw [store_step h]
  cases hcall : a.call s with
  | none => exact hinv
  | some call => exact apply_storeInv call hinv (admissible_call h hcall)

end Steps

section Runs

/-- The tasks that were handed to the pool, one entry a worker. -/
def runsOf (s : State) : List (String × String) :=
  s.workers.map fun w => (w.planId, w.taskId)

variable {s s' : State} {i : Nat} {w : Worker}

theorem runsOf_setPc
    {pc : Pc}
    (hw : s.workers[i]? = some w) :
    runsOf (s.setPc i w pc) = runsOf s := by
  obtain ⟨hi, rfl⟩ := List.getElem?_eq_some_iff.mp hw
  simp only [runsOf, State.setPc, List.map_set]
  rw [← List.getElem_map (fun w : Worker => (w.planId, w.taskId)) (h := by simpa using hi)]
  exact List.set_getElem_self _

theorem startTask_accepted
    {planId taskId : String} {now : Int} {started : Task}
    (submit : Submit)
    (h : (Plans.startTask s.store planId taskId now).2 = some started) :
    (startTask s planId taskId submit now).1.workers =
      if submit = .accepted then s.workers ++ [{ planId := planId, taskId := taskId }]
      else s.workers := by
  unfold startTask
  dsimp only
  rw [h]
  cases submit <;> rfl

theorem startTask_refused
    {planId taskId : String} {submit : Submit} {now : Int}
    (h : (Plans.startTask s.store planId taskId now).2 = none) :
    (startTask s planId taskId submit now).1.workers = s.workers := by
  unfold startTask
  dsimp only
  rw [h]

/-- The pool gets one worker for a task it accepts. -/
theorem runsOf_startTask
    (s : State) (planId taskId : String) (submit : Submit) (now : Int) :
    runsOf (startTask s planId taskId submit now).1 = runsOf s ∨
      ((∃ started, (Plans.startTask s.store planId taskId now).2 = some started) ∧
        runsOf (startTask s planId taskId submit now).1 = runsOf s ++ [(planId, taskId)]) := by
  cases hstart : (Plans.startTask s.store planId taskId now).2 with
  | none => exact Or.inl (by rw [runsOf, startTask_refused hstart, runsOf])
  | some started =>
      have hworkers := startTask_accepted submit hstart
      split_ifs at hworkers
      · refine Or.inr ⟨⟨started, rfl⟩, ?_⟩
        rw [runsOf, hworkers, List.map_append]
        rfl
      · exact Or.inl (by rw [runsOf, hworkers, runsOf])

/-- A step that hands no task to the pool keeps the list; the others append the
task that the plan manager let them start. -/
def Extends (s s' : State) (call : Option Call) : Prop :=
  runsOf s' = runsOf s ∨
    ∃ planId taskId now, call = some (.startTask planId taskId now) ∧
      (∃ started, (Plans.startTask s.store planId taskId now).2 = some started) ∧
      runsOf s' = runsOf s ++ [(planId, taskId)]

theorem Worked.extends
    {call : Option Call}
    (hw : s.workers[i]? = some w)
    (h : Worked s i w call s') :
    Extends s s' call := by
  cases h with
  | move pc => exact Or.inl (runsOf_setPc hw)
  | post ev pc => exact Or.inl (runsOf_setPc (s := s.post ev) hw)
  | @write call hcall pc =>
      exact Or.inl (runsOf_setPc (s := { s with store := apply s.store call }) hw)
  | start t submit now pc =>
      have hmove : runsOf ((startTask s w.planId t submit now).1.setPc i w pc) =
          runsOf (startTask s w.planId t submit now).1 := runsOf_setPc (workers_startTask hw)
      rcases runsOf_startTask s w.planId t submit now with hsame | ⟨hstarted, happend⟩
      · exact Or.inl (hmove.trans hsame)
      · exact Or.inr ⟨w.planId, t, now, rfl, hstarted, hmove.trans happend⟩

theorem extends_step
    {a : Label}
    (h : step s a = some s') :
    Extends s s' (a.call s) := by
  have hstepped := stepped_of_step h
  generalize a.call s = call at hstepped ⊢
  cases hstepped with
  | quiet => exact Or.inl rfl
  | write => exact Or.inl rfl
  | start planId taskId submit now =>
      rcases runsOf_startTask s planId taskId submit now with hsame | ⟨hstarted, happend⟩
      · exact Or.inl hsame
      · exact Or.inr ⟨planId, taskId, now, rfl, hstarted, happend⟩
  | worker hw hworked => exact hworked.extends hw

end Runs

section Identity

/-- What never changes about a stored plan: its id and its chat. -/
def identity (plan : Plan) : String × Option String := (plan.id, plan.chatId)

/-- Every plan is stored under its own id. -/
def OwnIds (store : Store) : Prop :=
  ∀ planId plan, store.get planId = some plan → plan.id = planId

variable {store : Store} {planId : String} {plan : Plan}

@[simp] theorem identity_updatePlanStatus
    (plan : Plan) :
    identity (updatePlanStatus plan) = identity plan := by
  unfold updatePlanStatus
  split_ifs <;> rfl

@[simp] theorem identity_settlePlan
    (plan : Plan) (tasks : List Task) (now : Int) :
    identity (settlePlan plan tasks now) = identity plan :=
  identity_updatePlanStatus (resolveStatuses { plan with tasks := tasks })

/-- Writing a stored plan back with other tasks. -/
theorem identity_set
    {planId' : String} {old new : Plan}
    (hold : store.get planId' = some old)
    (hid : identity new = identity old) :
    ((store.set planId' new).get planId).map identity = (store.get planId).map identity := by
  rw [Dict.get_set]
  split_ifs with hplan
  · subst hplan
    rw [hold, Option.map_some, Option.map_some, hid]
  · rfl

theorem identity_setOutcome
    (planId' taskId : String) (f : Task → Task) (now : Int) :
    ((setOutcome store planId' taskId f now).1.get planId).map identity =
      (store.get planId).map identity := by
  unfold setOutcome
  split
  · rfl
  · rename_i old hold
    split
    · rfl
    · exact identity_set hold (identity_settlePlan old _ now)

/-- A call creates a plan or leaves every plan's identity alone. -/
theorem identity_apply
    (store : Store) (planId : String) (call : Call) :
    ((apply store call).get planId).map identity =
      if (creates call).any fun p => p.1 == planId then creates call
      else (store.get planId).map identity := by
  cases call with
  | createPlan planId' name chatId tasks freshId now =>
      simp only [apply, createPlan, updatePlanStatus_id, resolveStatuses, creates,
        Option.any_some, beq_iff_eq]
      rw [Dict.get_set]
      split_ifs with hid
      · subst hid
        exact congrArg some (identity_updatePlanStatus _)
      · rfl
  | addTask planId' task freshId now =>
      simp only [apply, addTask, creates, Option.any_none, Bool.false_eq_true, if_false]
      split
      · rfl
      · rename_i old hold
        split
        · rfl
        · exact identity_set hold (identity_settlePlan old _ now)
  | startTask planId' taskId now =>
      simp only [apply, Plans.startTask]
      split
      · rfl
      · rename_i old hold
        split
        · rfl
        · split
          · rfl
          · exact identity_set hold (identity_updatePlanStatus _)
  | completeTask planId' taskId result log fl now => exact identity_setOutcome _ _ _ _
  | failTask planId' taskId log fl now => exact identity_setOutcome _ _ _ _

/-- A plan is created under an id that no stored plan has. -/
theorem fresh_of_creates
    {s s' : State} {a : Label} {call : Call}
    (h : step s a = some s')
    (hcall : a.call s = some call)
    (hcreates : ((creates call).any fun p => p.1 == planId) = true) :
    s.store.get planId = none := by
  obtain ⟨p, hp, hid⟩ := (Option.any_eq_true _ _).mp hcreates
  obtain rfl : p.1 = planId := by simpa using hid
  exact (sane_call h hcall).fresh p hp

/-- The call of a step creates no plan in the place of a stored one. -/
theorem spares_of_step
    {s s' : State} {a : Label} {call : Call}
    (h : step s a = some s')
    (hcall : a.call s = some call)
    (hget : s.store.get planId = some plan) :
    call.Spares planId := by
  cases call with
  | createPlan planId' name chatId tasks freshId now =>
      rintro rfl
      rw [fresh_of_creates h hcall (by simp [creates])] at hget
      cases hget
  | _ => trivial

/-- A step keeps the identity of every stored plan. -/
theorem identity_step
    {s s' : State} {a : Label}
    (h : step s a = some s')
    (hget : s.store.get planId = some plan) :
    ∃ plan', s'.store.get planId = some plan' ∧ identity plan' = identity plan := by
  have hmap : (s'.store.get planId).map identity = some (identity plan) := by
    rw [store_step h]
    cases hcall : a.call s with
    | none => exact congrArg (Option.map identity) hget
    | some call =>
        refine (identity_apply s.store planId call).trans ?_
        rw [if_neg, hget, Option.map_some]
        intro hcreates
        rw [fresh_of_creates h hcall hcreates] at hget
        cases hget
  obtain ⟨plan', hget', hid⟩ := Option.map_eq_some_iff.mp hmap
  exact ⟨plan', hget', hid⟩

theorem ownIds_apply
    (hown : OwnIds store) (call : Call) :
    OwnIds (apply store call) := by
  intro planId plan hget
  have hmap := identity_apply store planId call
  rw [hget, Option.map_some] at hmap
  split_ifs at hmap with hcreates
  · rw [← hmap] at hcreates
    simpa [identity] using hcreates
  · obtain ⟨old, hold, hid⟩ := Option.map_eq_some_iff.mp hmap.symm
    exact (congrArg Prod.fst hid).symm.trans (hown planId old hold)

theorem ownIds_step
    {s s' : State} {a : Label}
    (hown : OwnIds s.store)
    (h : step s a = some s') :
    OwnIds s'.store := by
  rw [store_step h]
  cases a.call s with
  | none => exact hown
  | some call => exact ownIds_apply hown call

end Identity

end TaskEngine
end DiploidAgent
