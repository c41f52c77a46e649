import DiploidAgent.Plans.Steady

/-!
# Started tasks and the worker pool

`TaskEngine.start_task` and `_start_ready_dependents` of `task/engine.py` over
`WorkerPool` of `task/worker.py` and the plan store.

A call reads the plan, stores the task as RUNNING, resizes the pool and submits the
body.  Each of these is a step of its own, and between two of them any number of steps of
other calls, of the bodies, of `reconfigure` and of `shutdown` may happen.
`shutdown(wait=True)` holds the lock of the pool until the bodies of its executor are done.

The invariant follows the written task: a call stands between its write and its
submission, or its body is in the pool and has not recorded an outcome yet.  It is lost
where `submit` drops the body, for a task id that is still tracked or after `shutdown`.
-/

namespace DiploidAgent
namespace StartedTasks

open Plans Runs

section Pool

/-- `TaskConfig.workers`, validated on assignment too. -/
structure Workers where
  value : Int
  least : 1 ≤ value
  most : value ≤ 64

/-- `WorkerPool`.  Executors are numbered in the order they were made, and the future of a
task is the number of its body. -/
structure WorkerPool where
  maxWorkers : Int
  isRunning : Bool := true
  executor : Nat := 0
  futures : Dict String Nat := Dict.empty

/-- What became of a submission. -/
inductive Submission where
  | handed
  | ignored
  | raised (error : String)
deriving DecidableEq, Repr

namespace WorkerPool

variable (pool : WorkerPool) (done : Nat → Bool)

/-- `_prune_done`. -/
def pruneDone : WorkerPool :=
  { pool with futures := pool.futures.filter fun e => !done e.2 }

/-- `resize`. -/
def resize (maxWorkers : Int) : Except String WorkerPool :=
  if maxWorkers < 1 then .error ("max_workers must be >= 1, got " ++ toString maxWorkers)
  else if !pool.isRunning then .ok pool
  else if maxWorkers = pool.maxWorkers then .ok pool
  else .ok { pool.pruneDone done with executor := pool.executor + 1, maxWorkers := maxWorkers }

/-- `running`. -/
def running (taskId : String) : Bool :=
  (pool.futures.get taskId).any fun body => !done body

/-- `submit`; the executor of a pool that was shut down takes no body. -/
def submit (taskId : String) (body : Nat) : WorkerPool × Submission :=
  let pool := pool.pruneDone done
  if pool.running done taskId then (pool, .ignored)
  else if pool.isRunning then
    ({ pool with futures := pool.futures.set taskId body }, .handed)
  else (pool, .raised "cannot schedule new futures after shutdown")

/-- `shutdown`, less the wait. -/
def shutdown : WorkerPool :=
  { pool.pruneDone done with isRunning := false }

variable {pool} {done}

/-- The settings never ask for a size that `resize` rejects. -/
theorem resize_workers
    (pool : WorkerPool) (done : Nat → Bool) (workers : Workers) :
    ∃ pool', pool.resize done workers.value = .ok pool' := by
  have hleast := workers.least
  unfold resize
  rw [if_neg (by omega)]
  split_ifs
  · exact ⟨_, rfl⟩
  · exact ⟨_, rfl⟩
  · exact ⟨_, rfl⟩

@[simp] theorem running_pruneDone
    (taskId : String) :
    (pool.pruneDone done).running done taskId = pool.running done taskId := by
  unfold running pruneDone
  rw [Dict.get_filter]
  cases pool.futures.get taskId with
  | none => simp
  | some body => cases hbody : done body <;> simp [hbody]

/-- A body is handed over when the pool runs and no unfinished body has its key. -/
theorem submit_handed
    {taskId : String} (body : Nat)
    (hrunning : pool.isRunning = true)
    (hfree : pool.running done taskId = false) :
    (pool.submit done taskId body).2 = .handed := by
  simp only [submit, running_pruneDone, hfree, Bool.false_eq_true, if_false]
  rw [if_pos (by simpa [pruneDone] using hrunning)]

end WorkerPool

end Pool

section Model

/-- Where a body stands in `_run_task`; at `finish` nothing of its own is left to
record. -/
inductive BodyPc where
  | fetch
  | execute
  | finish
  | done
deriving DecidableEq, Repr

/-- What was submitted, and by which call. -/
structure Job where
  call : Nat
  planId : String
  taskId : String
  executor : Nat
deriving DecidableEq, Repr

/-- A body the executor has taken. -/
structure Body where
  job : Job
  pc : BodyPc := .fetch
deriving DecidableEq, Repr

/-- What a body records about its task. -/
inductive Outcome where
  | completed (result log : String) (fl : OutcomeFlags)
  | failed (log : String) (fl : OutcomeFlags)
deriving DecidableEq, Repr

/-- The plan-manager call of an outcome. -/
def Outcome.call (planId taskId : String) (now : Int) : Outcome → Call
  | .completed result log fl => .completeTask planId taskId result log fl now
  | .failed log fl => .failTask planId taskId log fl now

/-- Where a call of `start_task` stands. -/
inductive CallPc where
  | check
  | write (taskId : String)
  | resize (taskId : String)
  | resizing (taskId : String) (workers : Workers)
  | submit (taskId : String)
  | returned (taskId : String)
  | raised (error : String)

/-- The task that was written and not submitted yet. -/
def CallPc.pending : CallPc → Option String
  | .resize taskId | .resizing taskId _ | .submit taskId => some taskId
  | _ => none

/-- The call has returned or raised. -/
def CallPc.ended : CallPc → Bool
  | .returned _ | .raised _ => true
  | _ => false

/-- A call of `start_task`, made by a body when `caller` says so, with the plan store
before and after each of its transactions. -/
structure StartCall where
  planId : String
  taskId : Option String
  caller : Option Nat := none
  pc : CallPc := .check
  effects : List (Store × Store) := []

/-- The plan store, the settings, the pool, the executor whose end `shutdown` waits for
under the lock, the bodies and the calls. -/
structure State where
  store : Store
  workers : Workers
  pool : WorkerPool
  lock : Option Nat := none
  bodies : List Body := []
  calls : List StartCall := []

/-- The service as it starts, on the plans it finds. -/
def start (store : Store) (workers : Workers) : State :=
  { store := store, workers := workers, pool := { maxWorkers := workers.value } }

/-- One step of the service. -/
inductive Label where
  | plan (call : Call)
  | setWorkers (workers : Workers)
  | reconfigure
  | shutdown (wait : Bool)
  | released
  | startTask (planId : String) (taskId : Option String)
  | startDependent (k : Nat) (taskId : String)
  | advance (i : Nat) (now : Int)
  | fetch (k : Nat)
  | record (k : Nat) (outcome : Outcome) (now : Int)
  | fail (k : Nat) (log : String) (now : Int)
  | finish (k : Nat)

/-- `{task.status}`. -/
def statusText : TaskStatus → String
  | .pending => "TaskStatus.PENDING"
  | .ready => "TaskStatus.READY"
  | .running => "TaskStatus.RUNNING"
  | .done => "TaskStatus.DONE"
  | .incomplete => "TaskStatus.INCOMPLETE"
  | .failed => "TaskStatus.FAILED"
  | .blocked => "TaskStatus.BLOCKED"

/-- The calls of the plan manager that others make: plans are created under fresh ids, with
tasks that are PENDING. -/
def allowed (store : Store) : Call → Bool
  | .createPlan planId _ _ tasks freshId _ =>
      (store.get planId).isNone && decide (taskIds (withIds freshId tasks)).Nodup &&
        (withIds freshId tasks).all fun t => t.status == .pending
  | .addTask _ task _ _ => task.status == .pending
  | .startTask _ _ _ => false
  | _ => true

namespace State

/-- `future.done()`. -/
def done (s : State) (k : Nat) : Bool := (s.bodies[k]?).all fun b => b.pc == .done

def setBody (s : State) (k : Nat) (b : Body) (pc : BodyPc) : State :=
  { s with bodies := s.bodies.set k { b with pc := pc } }

def setCall (s : State) (i : Nat) (c : StartCall) (pc : CallPc) : State :=
  { s with calls := s.calls.set i { c with pc := pc } }

end State

/-- The reads of `start_task`. -/
def StartCall.check (c : StartCall) (store : Store) : CallPc :=
  match c.taskId with
  | none =>
      match getReadyTasks store c.planId with
      | [] => .raised ("No ready tasks in plan " ++ c.planId)
      | task :: _ => .write task.id
  | some taskId =>
      match getTask store c.planId taskId with
      | none => .raised ("Task " ++ taskId ++ " not found in plan " ++ c.planId)
      | some task =>
          if task.status ≠ .ready then
            .raised ("Task " ++ taskId ++ " is not ready (status=" ++ statusText task.status ++ ")")
          else .write taskId

/-- After `plan_manager.start_task`. -/
def afterWrite (taskId : String) : Option Task → CallPc
  | none => .raised ("Could not start task " ++ taskId)
  | some started => .resize started.id

/-- A transaction of the call. -/
def StartCall.saw (c : StartCall) (before after : Store) : StartCall :=
  { c with effects := c.effects ++ [(before, after)] }

/-- One step of a call of `start_task`. -/
def advance (s : State) (i : Nat) (c : StartCall) (now : Int) : Option State :=
  match c.pc with
  | .check => some (s.setCall i (c.saw s.store s.store) (c.check s.store))
  | .write taskId =>
      let r := Plans.startTask s.store c.planId taskId now
      some (({ s with store := r.1 } : State).setCall i (c.saw s.store r.1)
        (afterWrite taskId r.2))
  | .resize taskId => some (s.setCall i c (.resizing taskId s.workers))
  | .resizing taskId workers =>
      if s.lock.isSome then none
      else
        match s.pool.resize s.done workers.value with
        | .error error => some (s.setCall i c (.raised error))
        | .ok pool => some (({ s with pool := pool } : State).setCall i c (.submit taskId))
  | .submit taskId =>
      if s.lock.isSome then none
      else
        let r := s.pool.submit s.done taskId s.bodies.length
        let s' : State := { s with pool := r.1 }
        match r.2 with
        | .handed =>
            let body : Body := { job := ⟨i, c.planId, taskId, r.1.executor⟩ }
            some (({ s' with bodies := s.bodies ++ [body] } : State).setCall i c
              (.returned taskId))
        | .ignored => some (s'.setCall i c (.returned taskId))
        | .raised error => some (s'.setCall i c (.raised error))
  | .returned _ => none
  | .raised _ => none

/-- One step of a body. -/
def stepBody (s : State) (k : Nat) (b : Body) : Label → Option State
  | .startDependent _ taskId =>
      if b.pc = .finish ∧ s.lock = none ∧ s.pool.running s.done taskId = false then
        some { s with calls := s.calls ++
          [{ planId := b.job.planId, taskId := some taskId, caller := some k }] }
      else none
  | .fetch _ =>
      if b.pc = .fetch then
        some (s.setBody k b
          (if (getTask s.store b.job.planId b.job.taskId).isSome then .execute else .finish))
      else none
  | .record _ outcome now =>
      if b.pc = .execute then
        let store := apply s.store (outcome.call b.job.planId b.job.taskId now)
        some (({ s with store := store } : State).setBody k b .finish)
      else none
  -- the `except` branch, after an exception out of a dependent's start
  | .fail _ log now =>
      if b.pc = .finish then
        some { s with store := apply s.store (.failTask b.job.planId b.job.taskId log {} now) }
      else none
  | .finish _ =>
      if b.pc = .finish ∧ ∀ c, c ∈ s.calls → c.caller = some k → c.pc.ended = true then
        some (s.setBody k b .done)
      else none
  | _ => none

/-- One step of the service. -/
def step (s : State) (a : Label) : Option State :=
  match a with
  | .plan call =>
      if allowed s.store call then some { s with store := apply s.store call } else none
  | .setWorkers workers => some { s with workers := workers }
  | .reconfigure =>
      if s.lock.isSome then none
      else
        match s.pool.resize s.done s.workers.value with
        | .error _ => some s
        | .ok pool => some { s with pool := pool }
  | .shutdown wait =>
      if s.lock.isSome then none
      else some { s with
        pool := s.pool.shutdown s.done
        lock := if wait then some s.pool.executor else none }
  | .released =>
      if ∀ b, b ∈ s.bodies → some b.job.executor = s.lock → b.pc = .done then
        some { s with lock := none }
      else none
  | .startTask planId taskId =>
      some { s with calls := s.calls ++ [{ planId := planId, taskId := taskId }] }
  | .advance i now => (s.calls[i]?).bind fun c => advance s i c now
  | .startDependent k _ | .fetch k | .record k _ _ | .fail k _ _ | .finish k =>
      (s.bodies[k]?).bind fun b => stepBody s k b a

end Model

section Properties

/-- The task is stored as RUNNING. -/
def Running (store : Store) (planId taskId : String) : Prop :=
  ∃ t, getTask store planId taskId = some t ∧ t.status = .running

/-- None of the call's transactions changed the plans. -/
def StartCall.Unchanged (c : StartCall) : Prop :=
  ∀ e, e ∈ c.effects → e.2 = e.1

/-- One of the call's transactions found the task READY and stored it as RUNNING. -/
def StartCall.Wrote (c : StartCall) (taskId : String) : Prop :=
  ∃ e, e ∈ c.effects ∧ (getTask e.1 c.planId taskId).map Task.status = some .ready ∧
    Running e.2 c.planId taskId

/-- The tasks whose bodies a call has handed to the pool. -/
def State.handed (s : State) (i : Nat) : List (String × String) :=
  ((s.bodies.map Body.job).filter fun job => job.call == i).map fun job =>
    (job.planId, job.taskId)

/-- The call stored a task as RUNNING and handed its body over, once; or it changed nothing
and handed nothing over. -/
def Settled (handed : List (String × String)) (c : StartCall) : Prop :=
  (∃ taskId, c.Wrote taskId ∧ handed = [(c.planId, taskId)]) ∨ (c.Unchanged ∧ handed = [])

/-- A call is about to submit the task's body, or the body is in the pool and has an outcome
to record. -/
def Attended (s : State) (planId taskId : String) : Prop :=
  (∃ c, c ∈ s.calls ∧ c.planId = planId ∧ c.pc.pending = some taskId) ∨
    ∃ b, b ∈ s.bodies ∧ b.job.planId = planId ∧ b.job.taskId = taskId ∧
      (b.pc = .fetch ∨ b.pc = .execute)

/-- Every task that became RUNNING since the service started is attended to. -/
def Worked (store : Store) (s : State) : Prop :=
  ∀ planId taskId, Running s.store planId taskId →
    Running store planId taskId ∨ Attended s planId taskId

/-- A body is submitted to a pool that was not shut down and that tracks no unfinished body
under its task id. -/
def Unhindered (s : State) : Label → Prop
  | .advance i _ => ∀ c taskId, s.calls[i]? = some c → c.pc = .submit taskId →
      s.pool.isRunning = true ∧ s.pool.running s.done taskId = false
  | _ => True

end Properties

section Plans

variable {store : Store} {planId taskId : String} {call : Call} {now : Int}

/-- A task whose outcome was just recorded is not RUNNING. -/
theorem not_running_setOutcome
    {f : Task → Task}
    (hinv : StoreInv store)
    (hid : ∀ t, (f t).id = t.id)
    (hterm : ∀ t, (f t).status.isTerminal = true) :
    ¬ Running (setOutcome store planId taskId f now).1 planId taskId := by
  rintro ⟨t', hget', hrun⟩
  cases hget : getTask store planId taskId with
  | none =>
      rw [setOutcome_of_none hget, hget] at hget'
      cases hget'
  | some t =>
      have hended : ended (setOutcome store planId taskId f now).1 planId taskId = _ :=
        (ended_setOutcome hinv hid hget).2 planId taskId
      rw [if_pos ⟨rfl, rfl⟩, Task.ended, if_pos (hterm t)] at hended
      obtain ⟨u, hu, huterm, _⟩ := exists_task_of_ended hended
      obtain rfl : u = t' := Option.some.inj (hu.symm.trans hget')
      rw [hrun] at huterm
      cases huterm

theorem not_running_completeTask
    (hinv : StoreInv store) (result log : String) (fl : OutcomeFlags) :
    ¬ Running (completeTask store planId taskId result log fl now).1 planId taskId :=
  not_running_setOutcome (f := fun t => t.complete result log fl now) hinv (fun _ => rfl)
    fun _ => doneStatus_isTerminal fl

theorem not_running_failTask
    (hinv : StoreInv store) (log : String) (fl : OutcomeFlags) :
    ¬ Running (failTask store planId taskId log fl now).1 planId taskId :=
  not_running_setOutcome (f := fun t => t.fail log fl now) hinv (fun _ => rfl) fun _ => rfl

/-- A call makes no task RUNNING that it does not name. -/
theorem running_of_apply
    (hinv : StoreInv store)
    (hadm : Admissible call)
    (hfresh : (store.get planId).isSome = true → call.Spares planId)
    (htarget : call.target ≠ some (planId, taskId))
    (h : Running (apply store call) planId taskId) :
    Running store planId taskId := by
  obtain ⟨t', hget', hrun⟩ := h
  obtain ⟨plan', hplan', hin⟩ := getTask_eq_some hget'
  obtain ⟨hmem, hid⟩ := getTaskInPlan_eq_some hin
  obtain ⟨plan, u, hplan, hu, huid, _⟩ := apply_running hinv hadm hplan' hmem hrun
  have hget : getTask store planId taskId = some u := by
    rw [getTask, hplan, Option.bind_some, ← hid, ← huid]
    exact getTaskInPlan_of_mem (hinv planId plan hplan).nodup hu
  obtain ⟨t, ht, hfollows⟩ :=
    getTask_apply_of_ne hinv (hfresh (by rw [hplan]; rfl)) htarget hget
  obtain rfl : t = t' := Option.some.inj (ht.symm.trans hget')
  have hwaiting : u.status.isWaiting = false := by
    rw [← hfollows.waiting, hrun]
    rfl
  exact ⟨u, hget, (hfollows.kept hwaiting).symm.trans hrun⟩

theorem admissible_of_allowed
    (h : allowed store call = true) :
    Admissible call := by
  cases call with
  | createPlan planId' name chatId tasks freshId now =>
      rw [allowed, Bool.and_eq_true, Bool.and_eq_true] at h
      refine ⟨of_decide_eq_true h.1.2, fun t ht => ?_⟩
      simpa using List.all_eq_true.mp h.2 t ht
  | addTask planId' task freshId now => simpa [allowed, Admissible] using h
  | startTask planId' taskId' now => trivial
  | completeTask planId' taskId' result log fl now => trivial
  | failTask planId' taskId' log fl now => trivial

/-- The calls that others make start no task. -/
theorem running_of_allowed
    (hinv : StoreInv store)
    (hallowed : allowed store call = true)
    (h : Running (apply store call) planId taskId) :
    Running store planId taskId := by
  refine running_of_apply hinv (admissible_of_allowed hallowed) ?_ ?_ h
  · intro hsome
    cases call with
    | createPlan planId' name chatId tasks freshId now =>
        rintro rfl
        rw [allowed, Bool.and_eq_true, Bool.and_eq_true, Option.isNone_iff_eq_none] at hallowed
        rw [hallowed.1.1] at hsome
        cases hsome
    | _ => trivial
  · intro htarget
    cases call with
    | createPlan planId' name chatId tasks freshId now => cases htarget
    | addTask planId' task freshId now => cases htarget
    | startTask planId' taskId' now => cases hallowed
    | completeTask planId' taskId' result log fl now =>
        cases htarget
        exact not_running_completeTask hinv result log fl h
    | failTask planId' taskId' log fl now =>
        cases htarget
        exact not_running_failTask hinv log fl h

theorem running_of_startTask
    {planId' taskId' : String}
    (hinv : StoreInv store)
    (h : Running (startTask store planId' taskId' now).1 planId taskId) :
    (planId' = planId ∧ taskId' = taskId) ∨ Running store planId taskId := by
  by_cases htarget : (planId', taskId') = (planId, taskId)
  · exact Or.inl (Prod.mk.inj htarget)
  · have h' : Running (apply store (.startTask planId' taskId' now)) planId taskId := h
    refine Or.inr (running_of_apply hinv ?_ ?_ ?_ h')
    · trivial
    · exact fun _ => trivial
    · exact fun hsame => htarget (Option.some.inj hsame)

/-- A recorded outcome is a call that others may make too, and leaves its task not RUNNING. -/
theorem outcome_call
    (hinv : StoreInv store) (planId taskId : String) (now : Int) (outcome : Outcome) :
    allowed store (outcome.call planId taskId now) = true ∧
      ¬ Running (apply store (outcome.call planId taskId now)) planId taskId := by
  cases outcome with
  | completed result log fl => exact ⟨rfl, not_running_completeTask hinv result log fl⟩
  | failed log fl => exact ⟨rfl, not_running_failTask hinv log fl⟩

end Plans

section Invariant

/-- What a call has done by the place where it stands. -/
def Standing (handed : List (String × String)) (c : StartCall) : Prop :=
  match c.pc with
  | .check | .write _ => c.Unchanged ∧ handed = []
  | .resize taskId | .resizing taskId _ | .submit taskId => c.Wrote taskId ∧ handed = []
  | .returned _ | .raised _ => Settled handed c

/-- What every step keeps. -/
structure Inv (store : Store) (s : State) : Prop where
  plans : StoreInv s.store
  calls : ∀ i c, s.calls[i]? = some c → Standing (s.handed i) c
  jobs : ∀ job, job ∈ s.bodies.map Body.job → job.call < s.calls.length
  worked : Worked store s

variable {store : Store} {s : State} {i k : Nat} {c c' : StartCall} {b : Body}
  {planId taskId : String}

/-- A call that has not been made has handed nothing over. -/
theorem handed_of_le
    (h : Inv store s) (hi : s.calls.length ≤ i) :
    s.handed i = [] := by
  have hnone : (s.bodies.map Body.job).filter (fun job => job.call == i) = [] := by
    refine List.filter_eq_nil_iff.mpr fun job hjob hcall => ?_
    have hlt := h.jobs job hjob
    have heq : job.call = i := by simpa using hcall
    omega
  rw [State.handed, hnone, List.map_nil]

theorem handed_append
    (job : Job) (bodies : List Body) :
    State.handed { s with bodies := bodies ++ [{ job := job }] } i =
      State.handed { s with bodies := bodies } i ++
        if job.call = i then [(job.planId, job.taskId)] else [] := by
  simp only [State.handed, List.map_append, List.filter_append, List.map_cons, List.map_nil,
    List.filter_cons, List.filter_nil, beq_iff_eq]
  split_ifs <;> rfl

theorem mem_set_of_ne
    (c' : StartCall) {x : StartCall} (hc : s.calls[i]? = some c) (hx : x ∈ s.calls) :
    x = c ∨ x ∈ s.calls.set i c' := by
  obtain ⟨j, hj⟩ := List.mem_iff_getElem?.mp hx
  by_cases hij : i = j
  · subst hij
    exact Or.inl (Option.some.inj (hj.symm.trans hc))
  · refine Or.inr (List.mem_iff_getElem?.mpr ⟨j, ?_⟩)
    rw [List.getElem?_set_ne hij]
    exact hj

theorem mem_set_self
    (hc : s.calls[i]? = some c) :
    c' ∈ s.calls.set i c' := by
  obtain ⟨hi, _⟩ := List.getElem?_eq_some_iff.mp hc
  exact List.mem_iff_getElem?.mpr ⟨i, List.getElem?_set_self hi⟩

/-- A call that moves on and keeps what is pending leaves every task attended to. -/
theorem attended_setCall
    {pc : CallPc}
    (hc : s.calls[i]? = some c)
    (hplan : c'.planId = c.planId)
    (hpending : ∀ t, c.pc.pending = some t → pc.pending = some t)
    (h : Attended s planId taskId) :
    Attended (s.setCall i c' pc) planId taskId := by
  rcases h with ⟨x, hx, hxplan, hxtask⟩ | hbody
  · rcases mem_set_of_ne { c' with pc := pc } hc hx with rfl | hin
    · exact Or.inl ⟨_, mem_set_self hc, hplan.trans hxplan, hpending _ hxtask⟩
    · exact Or.inl ⟨x, hin, hxplan, hxtask⟩
  · exact Or.inr hbody

/-- The calls of a state in which one has moved on. -/
theorem standing_setCall
    {pc : CallPc}
    (h : Inv store s)
    (hstanding : Standing (s.handed i) { c' with pc := pc }) :
    ∀ j x, (s.setCall i c' pc).calls[j]? = some x → Standing (s.handed j) x := by
  intro j x hx
  rw [State.setCall, List.getElem?_set] at hx
  split_ifs at hx with hij hlt
  · subst hij
    obtain rfl := Option.some.inj hx
    exact hstanding
  · exact h.calls j x hx

theorem Inv.setCall
    {pc : CallPc}
    (h : Inv store s)
    (hc : s.calls[i]? = some c)
    (hplan : c'.planId = c.planId)
    (hpending : ∀ t, c.pc.pending = some t → pc.pending = some t)
    (hstanding : Standing (s.handed i) { c' with pc := pc }) :
    Inv store (s.setCall i c' pc) where
  plans := h.plans
  calls := standing_setCall h hstanding
  jobs := fun job hjob => by
    rw [State.setCall, List.length_set]
    exact h.jobs job hjob
  worked := fun planId taskId hrun =>
    (h.worked planId taskId hrun).imp id (attended_setCall hc hplan hpending)

/-- The pool, its lock and the settings do not matter. -/
theorem Inv.setPool
    (h : Inv store s) (workers : Workers) (pool : WorkerPool) (lock : Option Nat) :
    Inv store { s with workers := workers, pool := pool, lock := lock } :=
  ⟨h.plans, h.calls, h.jobs, h.worked⟩

/-- A call that begins has done nothing yet. -/
theorem Inv.begin
    (h : Inv store s) (hpc : c.pc = .check) (heffects : c.effects = []) :
    Inv store { s with calls := s.calls ++ [c] } where
  plans := h.plans
  calls := fun j x hx => by
    rw [List.getElem?_append] at hx
    split_ifs at hx with hj
    · exact h.calls j x hx
    · obtain ⟨hj', rfl⟩ : j = s.calls.length ∧ c = x := by
        rw [List.getElem?_singleton] at hx
        split_ifs at hx with hzero
        exact ⟨by omega, Option.some.inj hx⟩
      have hnone : s.handed j = [] := handed_of_le h (by omega)
      have hunchanged : c.Unchanged := by
        intro e he
        rw [heffects] at he
        cases he
      simp only [Standing, hpc]
      exact ⟨hunchanged, hnone⟩
  jobs := fun job hjob => by
    have hlt := h.jobs job hjob
    rw [List.length_append]
    omega
  worked := fun planId taskId hrun => by
    refine (h.worked planId taskId hrun).imp id fun hattended => ?_
    rcases hattended with ⟨x, hx, hrest⟩ | hbody
    · exact Or.inl ⟨x, List.mem_append_left _ hx, hrest⟩
    · exact Or.inr hbody

/-- Another call of the plan manager. -/
theorem Inv.apply
    {call : Call}
    (h : Inv store s) (hallowed : allowed s.store call = true) :
    Inv store { s with store := apply s.store call } where
  plans := apply_storeInv call h.plans (admissible_of_allowed hallowed)
  calls := h.calls
  jobs := h.jobs
  worked := fun planId taskId hrun =>
    h.worked planId taskId (running_of_allowed h.plans hallowed hrun)

/-- A body moves on: its own task must be attended to no longer, or still. -/
theorem Inv.setBody
    {pc : BodyPc}
    (h : Inv store s)
    (hb : s.bodies[k]? = some b)
    (hown : Running s.store b.job.planId b.job.taskId → (b.pc = .fetch ∨ b.pc = .execute) →
      pc = .fetch ∨ pc = .execute) :
    Inv store (s.setBody k b pc) := by
  have hjobs : (s.setBody k b pc).bodies.map Body.job = s.bodies.map Body.job := by
    obtain ⟨hk, hbk⟩ := List.getElem?_eq_some_iff.mp hb
    refine List.ext_getElem? fun j => ?_
    rw [List.getElem?_map, List.getElem?_map, State.setBody, List.getElem?_set]
    split_ifs with hkj
    · subst hkj
      rw [hb]
      rfl
    · rfl
  have hhanded : ∀ j, (s.setBody k b pc).handed j = s.handed j := by
    intro j
    rw [State.handed, hjobs, State.handed]
  refine ⟨h.plans, fun j x hx => ?_, ?_, fun planId taskId hrun => ?_⟩
  · rw [hhanded]
    exact h.calls j x hx
  · rw [hjobs]
    exact h.jobs
  · refine (h.worked planId taskId hrun).imp id fun hattended => ?_
    rcases hattended with hcall | ⟨x, hx, hplan, htask, hpc⟩
    · exact Or.inl hcall
    · obtain ⟨j, hj⟩ := List.mem_iff_getElem?.mp hx
      by_cases hkj : k = j
      · subst hkj
        obtain rfl : x = b := Option.some.inj (hj.symm.trans hb)
        obtain ⟨hk, _⟩ := List.getElem?_eq_some_iff.mp hb
        refine Or.inr ⟨{ x with pc := pc }, ?_, hplan, htask, ?_⟩
        · exact List.mem_iff_getElem?.mpr ⟨k, List.getElem?_set_self hk⟩
        · refine hown ?_ hpc
          rw [hplan, htask]
          exact hrun
      · refine Or.inr ⟨x, List.mem_iff_getElem?.mpr ⟨j, ?_⟩, hplan, htask, hpc⟩
        rw [State.setBody, List.getElem?_set_ne hkj]
        exact hj

end Invariant

section Steps

variable {store : Store} {s s' : State} {i k : Nat} {c : StartCall} {b : Body}
  {taskId : String} {now : Int}

/-- The reads of a call leave it with nothing pending, and about to write or raising. -/
theorem check_cases
    (c : StartCall) (store : Store) :
    (∃ taskId, c.check store = .write taskId) ∨ ∃ error, c.check store = .raised error := by
  unfold StartCall.check
  split
  · split
    · exact Or.inr ⟨_, rfl⟩
    · exact Or.inl ⟨_, rfl⟩
  · split
    · exact Or.inr ⟨_, rfl⟩
    · split_ifs
      · exact Or.inr ⟨_, rfl⟩
      · exact Or.inl ⟨_, rfl⟩

theorem unchanged_saw
    (h : c.Unchanged) (store : Store) :
    (c.saw store store).Unchanged := by
  intro e he
  rcases List.mem_append.mp he with hold | hnew
  · exact h e hold
  · obtain rfl := List.mem_singleton.mp hnew
    rfl

theorem inv_check
    (h : Inv store s)
    (hc : s.calls[i]? = some c)
    (hpc : c.pc = .check) :
    Inv store (s.setCall i (c.saw s.store s.store) (c.check s.store)) := by
  have hstanding := h.calls i c hc
  simp only [Standing, hpc] at hstanding
  obtain ⟨hunchanged, hnone⟩ := hstanding
  have hsaw := unchanged_saw hunchanged s.store
  refine h.setCall hc rfl (by simp [hpc, CallPc.pending]) ?_
  rcases check_cases c s.store with ⟨taskId, hcheck⟩ | ⟨error, hcheck⟩
  · simp only [Standing, hcheck]
    exact ⟨hsaw, hnone⟩
  · simp only [Standing, hcheck]
    exact Or.inr ⟨hsaw, hnone⟩

/-- `plan_manager.start_task` changes nothing, or starts the READY task it was given. -/
theorem startTask_cases
    (store : Store) (planId taskId : String) (now : Int) :
    startTask store planId taskId now = (store, none) ∨
      ∃ t, getTask store planId taskId = some t ∧ t.status = .ready ∧
        (startTask store planId taskId now).2 = some (t.start now) ∧
        getTask (startTask store planId taskId now).1 planId taskId = some (t.start now) := by
  cases hstarted : (startTask store planId taskId now).2 with
  | some started =>
      obtain ⟨t, hget, hready⟩ := ready_of_startTask hstarted
      have hresult : (startTask store planId taskId now).2 = some (t.start now) ∧
          getTask (startTask store planId taskId now).1 planId taskId = some (t.start now) :=
        startTask_of_ready hget hready
      exact Or.inr ⟨t, hget, hready, hstarted.symm.trans hresult.1, hresult.2⟩
  | none =>
      refine Or.inl (Prod.ext ?_ hstarted)
      unfold startTask at hstarted ⊢
      split
      · rfl
      · rename_i plan hplan
        rw [hplan] at hstarted
        split
        · rfl
        · rename_i task htask
          simp only [htask] at hstarted
          split_ifs at hstarted ⊢ with hready
          · rfl
          · have hself := getTaskInPlan_updateTask_self (f := fun t => t.start now)
              (fun _ => rfl) htask
            rw [hself] at hstarted
            cases hstarted

theorem inv_write
    (h : Inv store s)
    (hc : s.calls[i]? = some c)
    (hpc : c.pc = .write taskId) :
    Inv store (({ s with store := (startTask s.store c.planId taskId now).1 } : State).setCall i
      (c.saw s.store (startTask s.store c.planId taskId now).1)
      (afterWrite taskId (startTask s.store c.planId taskId now).2)) := by
  have hstanding := h.calls i c hc
  simp only [Standing, hpc] at hstanding
  obtain ⟨hunchanged, hnone⟩ := hstanding
  have hpending : c.pc.pending = none := by
    rw [hpc]
    rfl
  rcases startTask_cases s.store c.planId taskId now with hsame | ⟨t, hget, hready, hresult, hstored⟩
  · rw [hsame]
    refine h.setCall hc rfl (by simp [hpending]) ?_
    exact Or.inr ⟨unchanged_saw hunchanged s.store, hnone⟩
  · have hid : (t.start now).id = taskId := (getTaskInPlan_eq_some
      (Option.bind_eq_some_iff.mp hstored).choose_spec.2).2
    have hfound : (getTask s.store c.planId taskId).map Task.status = some .ready := by
      rw [hget, Option.map_some, hready]
    have hwrote : (c.saw s.store (startTask s.store c.planId taskId now).1).Wrote taskId :=
      ⟨_, List.mem_append_right _ (List.mem_singleton_self _), hfound, t.start now, hstored, rfl⟩
    have hafter : afterWrite taskId (startTask s.store c.planId taskId now).2 = .resize taskId := by
      rw [hresult, afterWrite, hid]
    rw [hafter]
    refine ⟨?_, standing_setCall (s := s) h ⟨hwrote, hnone⟩, ?_, fun planId' taskId' hrun => ?_⟩
    · exact apply_storeInv (.startTask c.planId taskId now) h.plans trivial
    · intro job hjob
      rw [State.setCall, List.length_set]
      exact h.jobs job hjob
    · rcases running_of_startTask h.plans hrun with ⟨rfl, rfl⟩ | hbefore
      · exact Or.inr (Or.inl ⟨_, mem_set_self hc, rfl, rfl⟩)
      · refine (h.worked planId' taskId' hbefore).imp id fun hattended => ?_
        exact attended_setCall (s := s) hc rfl (by simp [hpending]) hattended

/-- The body is handed over: the task is attended to by the pool from now on. -/
theorem inv_submit
    (h : Inv store s)
    (hc : s.calls[i]? = some c)
    (hpc : c.pc = .submit taskId)
    (executor : Nat) :
    Inv store (({ s with bodies :=
      s.bodies ++ [{ job := ⟨i, c.planId, taskId, executor⟩ }] } : State).setCall i c
        (.returned taskId)) := by
  have hstanding := h.calls i c hc
  simp only [Standing, hpc] at hstanding
  obtain ⟨hwrote, hnone⟩ := hstanding
  obtain ⟨hi, _⟩ := List.getElem?_eq_some_iff.mp hc
  refine ⟨h.plans, fun j x hx => ?_, fun job hjob => ?_, fun planId' taskId' hrun => ?_⟩
  · have happend := handed_append (s := s) (i := j) ⟨i, c.planId, taskId, executor⟩ s.bodies
    have hx' := hx
    rw [State.setCall, List.getElem?_set] at hx'
    split_ifs at hx' with hij
    · subst hij
      obtain rfl := Option.some.inj hx'
      refine Or.inl ⟨taskId, hwrote, happend.trans ?_⟩
      rw [if_pos rfl]
      exact congrArg (· ++ [(c.planId, taskId)]) hnone
    · rw [if_neg hij, List.append_nil] at happend
      have hkept : (({ s with bodies :=
          s.bodies ++ [{ job := ⟨i, c.planId, taskId, executor⟩ }] } : State).setCall i c
            (.returned taskId)).handed j = s.handed j := happend
      rw [hkept]
      exact h.calls j x hx'
  · rw [State.setCall, List.length_set]
    rw [State.setCall, List.map_append] at hjob
    rcases List.mem_append.mp hjob with hold | hnew
    · exact h.jobs job hold
    · obtain rfl := List.mem_singleton.mp hnew
      exact hi
  · refine (h.worked planId' taskId' hrun).imp id fun hattended => ?_
    rcases hattended with ⟨x, hx, hplan, htask⟩ | ⟨x, hx, hrest⟩
    · rcases mem_set_of_ne { c with pc := .returned taskId } hc hx with rfl | hin
      · obtain rfl : taskId = taskId' := by
          rw [hpc] at htask
          exact Option.some.inj htask
        refine Or.inr ⟨_, List.mem_append_right _ (List.mem_singleton_self _), hplan, rfl, ?_⟩
        exact Or.inl rfl
      · exact Or.inl ⟨x, hin, hplan, htask⟩
    · exact Or.inr ⟨x, List.mem_append_left _ hx, hrest⟩

theorem inv_advance
    (h : Inv store s)
    (hc : s.calls[i]? = some c)
    (hcond : ∀ taskId, c.pc = .submit taskId →
      s.pool.isRunning = true ∧ s.pool.running s.done taskId = false)
    (hstep : advance s i c now = some s') :
    Inv store s' := by
  have hstanding := h.calls i c hc
  unfold advance at hstep
  split at hstep
  case h_1 hpc =>
    obtain rfl := Option.some.inj hstep
    exact inv_check h hc hpc
  case h_2 taskId hpc =>
    obtain rfl := Option.some.inj hstep
    exact inv_write h hc hpc
  case h_3 taskId hpc =>
    obtain rfl := Option.some.inj hstep
    rw [Standing, hpc] at hstanding
    exact h.setCall hc rfl (by simp [hpc, CallPc.pending]) hstanding
  case h_4 taskId workers hpc =>
    obtain ⟨pool, hresize⟩ := WorkerPool.resize_workers s.pool s.done workers
    rw [hresize] at hstep
    split_ifs at hstep
    obtain rfl := Option.some.inj hstep
    rw [Standing, hpc] at hstanding
    exact (h.setPool s.workers pool s.lock).setCall hc rfl (by simp [hpc, CallPc.pending])
      hstanding
  case h_5 taskId hpc =>
    obtain ⟨hrunning, hfree⟩ := hcond taskId hpc
    have hhanded := WorkerPool.submit_handed s.bodies.length hrunning hfree
    simp only [hhanded] at hstep
    split_ifs at hstep
    obtain rfl := Option.some.inj hstep
    have hpool := h.setPool s.workers (s.pool.submit s.done taskId s.bodies.length).1 s.lock
    exact inv_submit hpool hc hpc _
  case h_6 => cases hstep
  case h_7 => cases hstep

theorem inv_stepBody
    {a : Label}
    (h : Inv store s)
    (hb : s.bodies[k]? = some b)
    (hstep : stepBody s k b a = some s') :
    Inv store s' := by
  unfold stepBody at hstep
  split at hstep
  case h_1 =>
    split_ifs at hstep
    obtain rfl := Option.some.inj hstep
    exact h.begin rfl rfl
  case h_2 =>
    split_ifs at hstep
    · rename_i hfound
      obtain rfl := Option.some.inj hstep
      exact h.setBody hb fun _ _ => Or.inr rfl
    · rename_i hpc hmissing
      obtain rfl := Option.some.inj hstep
      refine h.setBody hb fun hrun _ => absurd ?_ hmissing
      obtain ⟨t, hget, _⟩ := hrun
      rw [hget]
      rfl
  case h_3 outcome now =>
    split_ifs at hstep
    obtain rfl := Option.some.inj hstep
    obtain ⟨hallowed, hnot⟩ := outcome_call h.plans b.job.planId b.job.taskId now outcome
    exact (h.apply hallowed).setBody hb fun hrun _ => absurd hrun hnot
  case h_4 =>
    split_ifs at hstep
    obtain rfl := Option.some.inj hstep
    exact h.apply rfl
  case h_5 =>
    split_ifs at hstep with hguard
    obtain rfl := Option.some.inj hstep
    refine h.setBody hb fun _ hpc => ?_
    rw [hguard.1] at hpc
    rcases hpc with hpc | hpc <;> cases hpc
  case h_6 => cases hstep

/-- Every step that meets the condition keeps the invariant. -/
theorem inv_step
    (h : Inv store s)
    {a : Label}
    (hcond : Unhindered s a)
    (hstep : step s a = some s') :
    Inv store s' := by
  cases a with
  | plan call =>
      rw [step] at hstep
      split_ifs at hstep with hallowed
      obtain rfl := Option.some.inj hstep
      exact h.apply hallowed
  | setWorkers workers =>
      obtain rfl := Option.some.inj hstep
      exact h.setPool workers s.pool s.lock
  | reconfigure =>
      obtain ⟨pool, hresize⟩ :=
        WorkerPool.resize_workers s.pool s.done s.workers
      rw [step, hresize] at hstep
      split_ifs at hstep
      obtain rfl := Option.some.inj hstep
      exact h.setPool s.workers pool s.lock
  | shutdown wait =>
      rw [step] at hstep
      split_ifs at hstep
      all_goals
        obtain rfl := Option.some.inj hstep
        exact h.setPool s.workers _ _
  | released =>
      rw [step] at hstep
      split_ifs at hstep
      obtain rfl := Option.some.inj hstep
      exact h.setPool s.workers s.pool none
  | startTask planId taskId =>
      obtain rfl := Option.some.inj hstep
      exact h.begin rfl rfl
  | advance i now =>
      obtain ⟨c, hc, hadvance⟩ := Option.bind_eq_some_iff.mp hstep
      exact inv_advance h hc (fun taskId => hcond c taskId hc) hadvance
  | startDependent k taskId =>
      obtain ⟨b, hb, hbody⟩ := Option.bind_eq_some_iff.mp hstep
      exact inv_stepBody h hb hbody
  | fetch k =>
      obtain ⟨b, hb, hbody⟩ := Option.bind_eq_some_iff.mp hstep
      exact inv_stepBody h hb hbody
  | record k outcome now =>
      obtain ⟨b, hb, hbody⟩ := Option.bind_eq_some_iff.mp hstep
      exact inv_stepBody h hb hbody
  | fail k log now =>
      obtain ⟨b, hb, hbody⟩ := Option.bind_eq_some_iff.mp hstep
      exact inv_stepBody h hb hbody
  | finish k =>
      obtain ⟨b, hb, hbody⟩ := Option.bind_eq_some_iff.mp hstep
      exact inv_stepBody h hb hbody

theorem inv_start
    (hstore : StoreInv store) (workers : Workers) :
    Inv store (start store workers) where
  plans := hstore
  calls := fun _ _ hc => by simp [start] at hc
  jobs := fun _ hjob => by simp [start] at hjob
  worked := fun _ _ hrun => Or.inl hrun

end Steps

section Results

/-- **A started task has a worker.**  In a run in which no body is submitted to a pool that
was shut down or that tracks its task id, every call of `start_task` that has ended stored
its task as RUNNING and handed its body over once, or changed nothing; and every task that
became RUNNING is about to be submitted, or has a body that will record an outcome. -/
theorem startTask_worked
    {store : Store} {workers : Workers} {s : State}
    (hstore : Stored store)
    (h : Reach step Unhindered (start store workers) s) :
    (∀ i c, s.calls[i]? = some c → c.pc.ended = true → Settled (s.handed i) c) ∧
      Worked store s := by
  have hinv : Inv store s := by
    refine h.invariant (inv_start (storeInv_of_stored hstore) workers) ?_
    intro t a t' ht hcond hstep
    exact inv_step ht hcond hstep
  refine ⟨fun i c hc hended => ?_, hinv.worked⟩
  have hstanding := hinv.calls i c hc
  unfold Standing at hstanding
  cases hpc : c.pc with
  | returned taskId => simpa only [hpc] using hstanding
  | raised error => simpa only [hpc] using hstanding
  | _ => simp [hpc, CallPc.ended] at hended

/-- Two plans that both call their only task `t`. -/
def twoPlans : Store :=
  apply (apply Dict.empty (.createPlan "A" "first" none [{ id := "t", name := "t" }]
    (fun _ => "") 0)) (.createPlan "B" "second" none [{ id := "t", name := "t" }] (fun _ => "") 0)

theorem stored_twoPlans : Stored twoPlans := by
  have hadm : ∀ planId name, Admissible
      (.createPlan planId name none [{ id := "t", name := "t" }] (fun _ => "") 0) := by
    intro planId name
    constructor
    · simp [taskIds, withIds]
    · intro t ht
      obtain rfl : t = ({ id := "t", name := "t" } : Task).withId "" := by
        simpa [withIds] using ht
      rfl
  have hempty : Stored Dict.empty := Reach.refl _
  exact Reach.next (Reach.next hempty (hadm "A" "first") rfl) (hadm "B" "second") rfl

def fourWorkers : Workers := ⟨4, by decide, by decide⟩

/-- A whole call of `start_task` for the task `t` of this plan. -/
def callFor (i : Nat) (planId : String) : List Label :=
  .startTask planId (some "t") :: List.replicate 5 (.advance i 1)

/-- The first task ends before the second is started. -/
def oneAfterAnother : List Label :=
  callFor 0 "A" ++ [.fetch 0, .record 0 (.completed "noop" "" {}) 2, .finish 0] ++ callFor 1 "B"

/-- The condition as a check. -/
def unhinderedCheck (s : State) : Label → Bool
  | .advance i _ => (s.calls[i]?).all fun c =>
      match c.pc with
      | .submit taskId => s.pool.isRunning && !s.pool.running s.done taskId
      | _ => true
  | _ => true

theorem unhindered_of_check
    (s : State) (a : Label) (h : unhinderedCheck s a = true) :
    Unhindered s a := by
  unfold Unhindered
  split
  · intro c taskId hc hpc
    simpa [unhinderedCheck, hc, hpc] using h
  · trivial

theorem startTask_worked_oneAfterAnother :
    ∃ s, run step (start twoPlans fourWorkers) oneAfterAnother = some s ∧
      (∀ i c, s.calls[i]? = some c → c.pc.ended = true → Settled (s.handed i) c) ∧
      Worked twoPlans s := by
  have hgoes : (run step (start twoPlans fourWorkers) oneAfterAnother).isSome = true := by
    decide +kernel
  have hcheck : checkRun step unhinderedCheck (start twoPlans fourWorkers) oneAfterAnother =
      true := by
    decide +kernel
  have hrun := run_eq_getD hgoes
  exact ⟨_, hrun, startTask_worked stored_twoPlans
    (reach_of_run hrun (guarded_of_checkRun unhinderedCheck unhindered_of_check hcheck))⟩

/-- While the first task is tracked, the second is stored as RUNNING and its body dropped. -/
theorem startTask_unattended :
    ¬ ∀ (store : Store) (workers : Workers) (s : State), Stored store →
      Reach step (fun _ _ => True) (start store workers) s →
      (∀ i c, s.calls[i]? = some c → c.pc.ended = true → Settled (s.handed i) c) ∧
        Worked store s := by
  intro h
  have hgoes : (run step (start twoPlans fourWorkers) (callFor 0 "A" ++ callFor 1 "B")).isSome =
      true := by
    decide +kernel
  have hworked := (h twoPlans fourWorkers _ stored_twoPlans (reach_run hgoes)).2
  have hrunning : ∀ store : Store,
      (getTask store "B" "t").map Task.status = some .running ↔ Running store "B" "t" := by
    intro store
    simp [Running, Option.map_eq_some_iff]
  rcases hworked "B" "t" ((hrunning _).mp (by decide +kernel)) with hbefore | hcall | hbody
  · exact absurd ((hrunning _).mpr hbefore) (by decide +kernel)
  · obtain ⟨c, hc, _, hpending⟩ := hcall
    have hnone : ∀ c, c ∈ ((run step (start twoPlans fourWorkers)
        (callFor 0 "A" ++ callFor 1 "B")).getD (start twoPlans fourWorkers)).calls →
        c.pc.pending ≠ some "t" := by
      decide +kernel
    exact hnone c hc hpending
  · obtain ⟨b, hb, hplan, _⟩ := hbody
    have hnone : ∀ b, b ∈ ((run step (start twoPlans fourWorkers)
        (callFor 0 "A" ++ callFor 1 "B")).getD (start twoPlans fourWorkers)).bodies →
        b.job.planId ≠ "B" := by
      decide +kernel
    exact hnone b hb hplan

end Results

end StartedTasks
end DiploidAgent
