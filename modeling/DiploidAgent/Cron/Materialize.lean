import DiploidAgent.Cron.Service
import DiploidAgent.Plans.Writes

/-!
# A fire beside the task engine

`_materialize` as the five steps it takes in the thread of a tick or of
`run_now`: it adds a READY task to the standing plan, saves the row, starts the
task, and when that raises fails the task and saves the row again.  Between two of
them any steps of the task engine may happen, among them the
`_start_ready_dependents` of other workers, which start every READY task.

As long as no other thread starts the task between its addition and the start,
the task has one worker if the fire ends as started and none if it ends as "could
not start" (`fire_executed_once`).

Task ids are unique across plans, so a plan id and a task id are the key of the
pool.  The row that another function saves is a step of its own.
-/

namespace DiploidAgent
namespace Materialize

open Plans TaskEngine Cron Runs

section Model

/-- A call of `_materialize` with the task it builds. -/
structure Fire where
  job : ResolvedJob
  row : Row
  planId : String
  task : Task
  now : Int
  catchup : Bool
  manual : Bool
  pending : task.status = .pending
  free : task.dependsOn = []

/-- Where a call of `_materialize` stands. -/
inductive LaunchPc where
  | add
  | notAdded
  | save (taskId : String)
  | start (taskId : String)
  | fail (taskId error : String)
  | mark (taskId error : String)
  | started (taskId : String)
  | notStarted (taskId error : String)
deriving DecidableEq, Repr

/-- A call of `_materialize` in progress or done. -/
structure Launcher where
  fire : Fire
  pc : LaunchPc := .add

/-- The task engine, the rows and the calls of `_materialize`. -/
structure State where
  engine : TaskEngine.State
  rows : Dict String Row
  launchers : List Launcher

def initial : State :=
  { engine := TaskEngine.initial, rows := Dict.empty, launchers := [] }

/-- What the environment decides in one step of a call. -/
inductive LaunchMove where
  | add (freshId : String) (now : Int)
  | save
  | start (submit : Submit) (error : String) (now : Int)
  | fail (now : Int)
  | mark
deriving DecidableEq, Repr

inductive Label where
  | engine (a : TaskEngine.Label)
  | row (row : Row)
  | fire (f : Fire)
  | launch (i : Nat) (move : LaunchMove)

/-- The row saved before the start. -/
def Fire.startedRow (cfg : ServiceConfig) (f : Fire) (taskId : String) : Row :=
  lastSaved f.row (materialize cfg f.job f.row f.now f.catchup f.manual { added := some taskId })

/-- The row saved after the start raised. -/
def Fire.notStartedRow (cfg : ServiceConfig) (f : Fire) (taskId error : String) : Row :=
  lastSaved f.row (materialize cfg f.job f.row f.now f.catchup f.manual
    { added := some taskId, startError := some error })

/-- The pool ignores a submission while a worker of the task is running. -/
def poolBusy (s : TaskEngine.State) (planId taskId : String) : Bool :=
  s.workers.any fun w => w.planId == planId && w.taskId == taskId && w.pc != .done

/-- What `start_task` of the engine does to the call: it returned, or raised a
`ValueError` or the exception of the pool. -/
def afterStart (started : Option Task) (submit : Submit) (taskId error : String) : LaunchPc :=
  match started, submit with
  | none, _ => .fail taskId error
  | some _, .raised exc _ => .fail taskId exc
  | some _, _ => .started taskId

def State.setLauncher (s : State) (i : Nat) (l : Launcher) (pc : LaunchPc) : State :=
  { s with launchers := s.launchers.set i { l with pc := pc } }

def State.withStore (s : State) (store : Store) : State :=
  { s with engine := { s.engine with store := store } }

/-- One step of a call. -/
def stepLauncher (cfg : ServiceConfig) (s : State) (i : Nat) (l : Launcher) (move : LaunchMove) :
    Option State :=
  match l.pc, move with
  | .add, .add freshId now =>
      let r := addTask s.engine.store l.fire.planId l.fire.task freshId now
      let pc :=
        match r.2 with
        | none => .notAdded
        | some added => .save added.id
      some ((s.withStore r.1).setLauncher i l pc)
  | .save taskId, .save =>
      some ({ s with rows := s.rows.set l.fire.row.jobId (l.fire.startedRow cfg taskId) }.setLauncher
        i l (.start taskId))
  | .start taskId, .start submit error now =>
      if submit = .ignored ∧ poolBusy s.engine l.fire.planId taskId = false then none
      else
        let pc := afterStart (Plans.startTask s.engine.store l.fire.planId taskId now).2 submit
          taskId error
        some ({ s with
          engine := (TaskEngine.startTask s.engine l.fire.planId taskId submit now).1 }.setLauncher
            i l pc)
  | .fail taskId error, .fail now =>
      let log := "cron could not start: " ++ error
      some ((s.withStore (failTask s.engine.store l.fire.planId taskId log {} now).1).setLauncher i l
        (.mark taskId error))
  | .mark taskId error, .mark =>
      let row := l.fire.notStartedRow cfg taskId error
      some ({ s with rows := s.rows.set l.fire.row.jobId row }.setLauncher i l
        (.notStarted taskId error))
  | _, _ => none

def step (cfg : ServiceConfig) (s : State) : Label → Option State
  | .engine a => (TaskEngine.step s.engine a).map fun engine => { s with engine := engine }
  | .row row => some { s with rows := s.rows.set row.jobId row }
  | .fire f => some { s with launchers := s.launchers ++ [{ fire := f }] }
  | .launch i move => (s.launchers[i]?).bind fun l => stepLauncher cfg s i l move

end Model

section Claim

/-- How often the task was handed to a worker. -/
def execs (s : State) (planId taskId : String) : Nat :=
  (runsOf s.engine).count (planId, taskId)

/-- The task was added and not yet started by its call. -/
def LaunchPc.waits : LaunchPc → Option String
  | .save taskId => some taskId
  | .start taskId => some taskId
  | _ => none

/-- The start raised. -/
def LaunchPc.failed : LaunchPc → Option String
  | .fail taskId _ => some taskId
  | .mark taskId _ => some taskId
  | .notStarted taskId _ => some taskId
  | _ => none

/-- A call that is through has one worker if it started the task, and none if it
reports that it could not. -/
structure Launched (s : State) : Prop where
  started : ∀ l, l ∈ s.launchers → ∀ taskId, l.pc = .started taskId →
    execs s l.fire.planId taskId = 1
  failed : ∀ l, l ∈ s.launchers → ∀ taskId, l.pc.failed = some taskId →
    execs s l.fire.planId taskId = 0

/-- The condition: no other thread calls `start_task` for a task whose call has
added it and not started it yet. -/
def NotStolen (s : State) : Label → Prop
  | .engine a =>
      ∀ planId taskId now, a.call s.engine = some (.startTask planId taskId now) →
        ∀ l, l ∈ s.launchers → l.fire.planId = planId → l.pc.waits ≠ some taskId
  | _ => True

/-- The stronger condition: no other thread starts, completes or fails such a
task, and the pool takes the submission. -/
def Undisturbed (s : State) : Label → Prop
  | .engine a =>
      ∀ call, a.call s.engine = some call → ∀ l, l ∈ s.launchers → ∀ taskId,
        l.pc.waits = some taskId → call.target ≠ some (l.fire.planId, taskId)
  | .launch _ (.start submit _ _) => submit = .accepted
  | _ => True

end Claim

section Engine

/-- The task is READY and has no dependencies. -/
def ReadyFree (store : Store) (planId taskId : String) : Prop :=
  ∃ t, getTask store planId taskId = some t ∧ t.status = .ready ∧ t.dependsOn = []

/-- A step of the task engine, or of a call of `_materialize` on it. -/
structure Moves (e e' : TaskEngine.State) (call : Option Call) : Prop where
  store : e'.store = applyCall e.store call
  runs : Extends e e' call
  spares : ∀ c, call = some c → ∀ planId plan, e.store.get planId = some plan → c.Spares planId
  admissible : ∀ c, call = some c → Admissible c

variable {e e' : TaskEngine.State} {call : Option Call} {planId taskId : String}

theorem moves_step
    {a : TaskEngine.Label}
    (h : TaskEngine.step e a = some e') :
    Moves e e' (a.call e) :=
  ⟨store_step h, extends_step h, fun _ hcall _ _ hget => spares_of_step h hcall hget,
    fun _ hcall => admissible_call h hcall⟩

/-- A call that creates no plan and hands nothing to the pool. -/
theorem moves_store
    {c : Call}
    (hspares : ∀ planId, c.Spares planId)
    (hadm : Admissible c) :
    Moves e { e with store := apply e.store c } (some c) := by
  refine ⟨rfl, Or.inl rfl, fun c' hc planId _ _ => ?_, fun c' hc => ?_⟩
  · obtain rfl := Option.some.inj hc
    exact hspares planId
  · obtain rfl := Option.some.inj hc
    exact hadm

theorem moves_startTask
    (e : TaskEngine.State) (planId taskId : String) (submit : Submit) (now : Int) :
    Moves e (TaskEngine.startTask e planId taskId submit now).1
      (some (.startTask planId taskId now)) := by
  refine ⟨store_startTask e planId taskId submit now, ?_, fun c hc _ _ _ => ?_, fun c hc => ?_⟩
  · rcases runsOf_startTask e planId taskId submit now with hsame | ⟨hstarted, happend⟩
    · exact Or.inl hsame
    · exact Or.inr ⟨planId, taskId, now, rfl, hstarted, happend⟩
  · obtain rfl := Option.some.inj hc
    trivial
  · obtain rfl := Option.some.inj hc
    trivial

theorem Moves.storeInv
    (h : Moves e e' call)
    (hinv : StoreInv e.store) :
    StoreInv e'.store := by
  rw [h.store]
  cases call with
  | none => exact hinv
  | some c => exact apply_storeInv c hinv (h.admissible c rfl)

theorem Moves.begun
    (h : Moves e e' call)
    (hinv : StoreInv e.store)
    (hbegun : Begun e.store planId taskId) :
    Begun e'.store planId taskId := by
  rw [h.store]
  cases call with
  | none => exact hbegun
  | some c =>
      have hstored := hbegun
      obtain ⟨t, hget, _⟩ := hstored
      obtain ⟨plan, hplan, _⟩ := getTask_eq_some hget
      exact begun_apply hinv (h.spares c rfl planId plan hplan) hbegun

/-- A READY task without dependencies stays so until it is started, completed or
failed. -/
theorem Moves.waiting
    (h : Moves e e' call)
    (hinv : StoreInv e.store)
    (hnot : ∀ now, call ≠ some (.startTask planId taskId now))
    (hfree : ReadyFree e.store planId taskId) :
    Begun e'.store planId taskId ∨ ReadyFree e'.store planId taskId := by
  obtain ⟨t, hget, hready, hdeps⟩ := hfree
  rw [h.store]
  cases call with
  | none => exact Or.inr ⟨t, hget, hready, hdeps⟩
  | some c =>
      obtain ⟨plan, hplan, _⟩ := getTask_eq_some hget
      by_cases htarget : c.target = some (planId, taskId)
      · refine Or.inl ?_
        cases c with
        | createPlan planId' name chatId tasks freshId now => cases htarget
        | addTask planId' task freshId now => cases htarget
        | startTask planId' taskId' now =>
            cases htarget
            exact absurd rfl (hnot now)
        | completeTask planId' taskId' result log fl now =>
            cases htarget
            exact begun_setOutcome hinv (fun _ => rfl) (fun _ => doneStatus_isTerminal fl) hget
        | failTask planId' taskId' log fl now =>
            cases htarget
            exact begun_setOutcome hinv (fun _ => rfl) (fun _ => rfl) hget
      · obtain ⟨t', hget', hfollows⟩ :=
          getTask_apply_of_ne hinv (h.spares c rfl planId plan hplan) htarget hget
        refine Or.inr ⟨t', hget', hfollows.ready hready hdeps, ?_⟩
        rw [hfollows.same]
        exact hdeps

/-- A task that was not READY, or that the call does not start, gets no worker. -/
theorem Moves.count_eq
    (h : Moves e e' call)
    (hnot : Begun e.store planId taskId ∨ ∀ now, call ≠ some (.startTask planId taskId now)) :
    (runsOf e').count (planId, taskId) = (runsOf e).count (planId, taskId) := by
  rcases h.runs with hsame | ⟨planId', taskId', now, rfl, ⟨started, hstarted⟩, happend⟩
  · rw [hsame]
  · rw [happend, List.count_append, List.count_singleton]
    have hne : ((planId', taskId') == (planId, taskId)) = false := by
      rw [beq_eq_false_iff_ne]
      intro hkey
      cases hkey
      rcases hnot with ⟨t, hget, hwait⟩ | hnot
      · obtain ⟨t', hget', hready⟩ := ready_of_startTask hstarted
        obtain rfl : t' = t := Option.some.inj (hget'.symm.trans hget)
        rw [hready] at hwait
        cases hwait
      · exact hnot now rfl
    simp [hne]

/-- Every task that was handed to the pool was started. -/
def RunsBegun (e : TaskEngine.State) : Prop :=
  ∀ planId taskId, (planId, taskId) ∈ runsOf e → Begun e.store planId taskId

theorem Moves.runsBegun
    (h : Moves e e' call)
    (hinv : StoreInv e.store)
    (hruns : RunsBegun e) :
    RunsBegun e' := by
  intro planId taskId hmem
  rcases h.runs with hsame | ⟨planId', taskId', now, rfl, ⟨started, hstarted⟩, happend⟩
  · rw [hsame] at hmem
    exact h.begun hinv (hruns planId taskId hmem)
  · rw [happend] at hmem
    rcases List.mem_append.mp hmem with hmem | hmem
    · exact h.begun hinv (hruns planId taskId hmem)
    · cases List.mem_singleton.mp hmem
      obtain ⟨t, hget, hready⟩ := ready_of_startTask hstarted
      rw [h.store]
      exact ⟨t.start now, (startTask_of_ready hget hready).2, rfl⟩

end Engine

section Invariant

/-- What the plan file and the pool say about the task of a call. -/
def Sound (e : TaskEngine.State) (planId : String) : LaunchPc → Prop
  | .add | .notAdded => True
  | .save taskId | .start taskId =>
      (Begun e.store planId taskId ∨ ReadyFree e.store planId taskId) ∧
        (runsOf e).count (planId, taskId) = 0
  | .fail taskId _ | .mark taskId _ | .notStarted taskId _ =>
      Begun e.store planId taskId ∧ (runsOf e).count (planId, taskId) = 0
  | .started taskId =>
      Begun e.store planId taskId ∧ (runsOf e).count (planId, taskId) = 1

/-- The task a call has added. -/
def LaunchPc.added : LaunchPc → Option String
  | .add | .notAdded => none
  | .save taskId | .start taskId | .started taskId => some taskId
  | .fail taskId _ | .mark taskId _ | .notStarted taskId _ => some taskId

/-- What every state keeps that is reached without a stolen start. -/
structure Inv (s : State) : Prop where
  store : StoreInv s.engine.store
  runs : RunsBegun s.engine
  sound : ∀ (i : Nat) l, s.launchers[i]? = some l → Sound s.engine l.fire.planId l.pc
  distinct : ∀ (i j : Nat) l l' taskId, s.launchers[i]? = some l → s.launchers[j]? = some l' →
    i ≠ j → l.fire.planId = l'.fire.planId → l.pc.added = some taskId → l'.pc.added ≠ some taskId

variable {e e' : TaskEngine.State} {call : Option Call} {planId : String} {pc : LaunchPc}

/-- The call starts no task that waits for its own call. -/
def Keeps (call : Option Call) (planId : String) (pc : LaunchPc) : Prop :=
  ∀ taskId now, call = some (.startTask planId taskId now) → pc.waits ≠ some taskId

theorem Sound.moves
    (h : Moves e e' call)
    (hinv : StoreInv e.store)
    (hkeeps : Keeps call planId pc)
    (hsound : Sound e planId pc) :
    Sound e' planId pc := by
  have hwaits : ∀ taskId, pc.waits = some taskId →
      (Begun e.store planId taskId ∨ ReadyFree e.store planId taskId) ∧
        (runsOf e).count (planId, taskId) = 0 →
      (Begun e'.store planId taskId ∨ ReadyFree e'.store planId taskId) ∧
        (runsOf e').count (planId, taskId) = 0 := by
    rintro taskId hpc ⟨hstored, hcount⟩
    have hnot : ∀ now, call ≠ some (.startTask planId taskId now) :=
      fun now hcall => hkeeps taskId now hcall hpc
    refine ⟨?_, (h.count_eq (Or.inr hnot)).trans hcount⟩
    rcases hstored with hbegun | hfree
    · exact Or.inl (h.begun hinv hbegun)
    · exact h.waiting hinv hnot hfree
  have hover : ∀ taskId n, Begun e.store planId taskId ∧
      (runsOf e).count (planId, taskId) = n →
      Begun e'.store planId taskId ∧ (runsOf e').count (planId, taskId) = n :=
    fun taskId n ⟨hbegun, hcount⟩ =>
      ⟨h.begun hinv hbegun, (h.count_eq (Or.inl hbegun)).trans hcount⟩
  cases pc with
  | add => trivial
  | notAdded => trivial
  | save taskId => exact hwaits taskId rfl hsound
  | start taskId => exact hwaits taskId rfl hsound
  | fail taskId error => exact hover taskId 0 hsound
  | mark taskId error => exact hover taskId 0 hsound
  | notStarted taskId error => exact hover taskId 0 hsound
  | started taskId => exact hover taskId 1 hsound

/-- A task that a call has added is stored. -/
theorem Sound.stored
    {taskId : String}
    (hsound : Sound e planId pc)
    (hadded : pc.added = some taskId) :
    getTask e.store planId taskId ≠ none := by
  intro hnone
  have hbegun : ¬ Begun e.store planId taskId := by
    rintro ⟨t, hget, _⟩
    rw [hnone] at hget
    cases hget
  have hfree : ¬ ReadyFree e.store planId taskId := by
    rintro ⟨t, hget, _⟩
    rw [hnone] at hget
    cases hget
  cases pc with
  | add => cases hadded
  | notAdded => cases hadded
  | save taskId' =>
      cases hadded
      exact hsound.1.elim hbegun hfree
  | start taskId' =>
      cases hadded
      exact hsound.1.elim hbegun hfree
  | fail taskId' error =>
      cases hadded
      exact hbegun hsound.1
  | mark taskId' error =>
      cases hadded
      exact hbegun hsound.1
  | notStarted taskId' error =>
      cases hadded
      exact hbegun hsound.1
  | started taskId' =>
      cases hadded
      exact hbegun hsound.1

variable {s s' : State} {i : Nat} {l : Launcher}

theorem getElem?_set_eq_some
    {α : Type} {xs : List α} {i j : Nat} {x y : α}
    (h : (xs.set i x)[j]? = some y) :
    (j = i ∧ y = x) ∨ (j ≠ i ∧ xs[j]? = some y) := by
  rw [List.getElem?_set] at h
  split_ifs at h with hij hlt
  · exact Or.inl ⟨hij.symm, (Option.some.inj h).symm⟩
  · exact Or.inr ⟨fun h => hij h.symm, h⟩

/-- One call moves, with what it does to the task engine. -/
theorem inv_move
    {rows : Dict String Row}
    (hinv : Inv s)
    (hl : s.launchers[i]? = some l)
    (h : Moves s.engine e' call)
    (hkeeps : ∀ (j : Nat) l', j ≠ i → s.launchers[j]? = some l' →
      Keeps call l'.fire.planId l'.pc)
    (hown : Sound e' l.fire.planId pc)
    (hadded : pc.added = l.pc.added ∨
      ∀ taskId, pc.added = some taskId → getTask s.engine.store l.fire.planId taskId = none) :
    Inv { s with
      engine := e'
      rows := rows
      launchers := s.launchers.set i { l with pc := pc } } := by
  refine ⟨h.storeInv hinv.store, h.runsBegun hinv.store hinv.runs, fun j l' hj => ?_,
    fun j k l₁ l₂ taskId hj hk hne hplan h₁ h₂ => ?_⟩
  · rcases getElem?_set_eq_some hj with ⟨rfl, rfl⟩ | ⟨hne, hj⟩
    · exact hown
    · exact (hinv.sound j l' hj).moves h hinv.store (hkeeps j l' hne hj)
  · rcases getElem?_set_eq_some hj with ⟨rfl, rfl⟩ | ⟨_, hj'⟩
    · rcases getElem?_set_eq_some hk with ⟨rfl, rfl⟩ | ⟨_, hk'⟩
      · exact hne rfl
      · rcases hadded with hsame | hfresh
        · exact hinv.distinct j k l l₂ taskId hl hk' hne hplan (hsame.symm.trans h₁) h₂
        · refine (hinv.sound k l₂ hk').stored h₂ ?_
          rw [← hplan]
          exact hfresh taskId h₁
    · rcases getElem?_set_eq_some hk with ⟨rfl, rfl⟩ | ⟨_, hk'⟩
      · rcases hadded with hsame | hfresh
        · exact hinv.distinct j k l₁ l taskId hj' hl hne hplan h₁ (hsame.symm.trans h₂)
        · refine (hinv.sound j l₁ hj').stored h₁ ?_
          rw [hplan]
          exact hfresh taskId h₂
      · exact hinv.distinct j k l₁ l₂ taskId hj' hk' hne hplan h₁ h₂

/-- The pool is not busy with a task that no worker was given. -/
theorem not_poolBusy
    {planId taskId : String}
    (hcount : (runsOf e).count (planId, taskId) = 0) :
    poolBusy e planId taskId = false := by
  rw [List.count_eq_zero] at hcount
  rw [poolBusy, List.any_eq_false]
  intro w hw hbusy
  simp only [Bool.and_eq_true, beq_iff_eq] at hbusy
  refine hcount (List.mem_map.mpr ⟨w, hw, ?_⟩)
  rw [hbusy.1.1, hbusy.1.2]

/-- The start of a task that has no worker yet. -/
theorem sound_start
    {taskId error : String} {submit : Submit} {now : Int}
    (hinv : StoreInv e.store)
    (hsound : Sound e planId (.start taskId))
    (hpool : ¬ (submit = .ignored ∧ poolBusy e planId taskId = false)) :
    Sound (TaskEngine.startTask e planId taskId submit now).1 planId
      (afterStart (Plans.startTask e.store planId taskId now).2 submit taskId error) := by
  obtain ⟨hstored, hcount⟩ := hsound
  have hmoves := moves_startTask e planId taskId submit now
  cases hstart : (Plans.startTask e.store planId taskId now).2 with
  | none =>
      have hbegun : Begun e.store planId taskId := by
        refine hstored.resolve_right ?_
        rintro ⟨t, hget, hready, _⟩
        rw [(startTask_of_ready hget hready).1] at hstart
        cases hstart
      exact ⟨hmoves.begun hinv hbegun, (hmoves.count_eq (Or.inl hbegun)).trans hcount⟩
  | some started =>
      obtain ⟨t, hget, hready⟩ := ready_of_startTask hstart
      have hbegun : Begun (TaskEngine.startTask e planId taskId submit now).1.store planId taskId := by
        rw [store_startTask]
        exact ⟨t.start now, (startTask_of_ready hget hready).2, rfl⟩
      have hworkers := startTask_accepted submit hstart
      cases submit with
      | accepted =>
          refine ⟨hbegun, ?_⟩
          rw [if_pos rfl] at hworkers
          rw [runsOf, hworkers, List.map_append, List.count_append]
          have hold : (List.map (fun w : Worker => (w.planId, w.taskId)) e.workers).count
              (planId, taskId) = 0 := hcount
          rw [hold]
          simp
      | ignored => exact absurd ⟨rfl, not_poolBusy hcount⟩ hpool
      | raised exc trace =>
          refine ⟨hbegun, ?_⟩
          rw [if_neg (by simp)] at hworkers
          rw [runsOf, hworkers]
          exact hcount

theorem inv_launch
    {cfg : ServiceConfig} {move : LaunchMove}
    (hinv : Inv s)
    (hl : s.launchers[i]? = some l)
    (hstep : stepLauncher cfg s i l move = some s') :
    Inv s' := by
  have hsound := hinv.sound i l hl
  have hstill : Moves s.engine s.engine none :=
    ⟨rfl, Or.inl rfl, fun _ h => (nomatch h), fun _ h => (nomatch h)⟩
  have hnone : ∀ planId pc, Keeps none planId pc := fun _ _ _ _ h => (nomatch h)
  unfold stepLauncher at hstep
  split at hstep
  · -- add
    rename_i freshId now hpc
    obtain rfl := Option.some.inj hstep
    have hmoves : Moves s.engine
        { s.engine with
          store := apply s.engine.store (.addTask l.fire.planId l.fire.task freshId now) }
        (some (.addTask l.fire.planId l.fire.task freshId now)) :=
      moves_store (fun _ => trivial) l.fire.pending
    have hkeeps : ∀ planId pc,
        Keeps (some (.addTask l.fire.planId l.fire.task freshId now)) planId pc := by
      intro planId pc taskId now' h
      cases h
    cases hadd : (addTask s.engine.store l.fire.planId l.fire.task freshId now).2 with
    | none =>
        exact inv_move (s := s) hinv hl hmoves (fun _ l' _ _ => hkeeps _ l'.pc) trivial
          (Or.inr fun _ h => (nomatch h))
    | some added =>
        obtain ⟨hnone, hget, hready, hdeps⟩ :=
          getTask_addTask hinv.store l.fire.pending l.fire.free hadd
        refine inv_move (s := s) hinv hl hmoves (fun _ l' _ _ => hkeeps _ l'.pc)
          ⟨Or.inr ⟨added, hget, hready, hdeps⟩, ?_⟩ (Or.inr fun taskId h => ?_)
        · rw [List.count_eq_zero]
          intro hmem
          obtain ⟨t, ht, _⟩ := hinv.runs _ _ hmem
          rw [hnone] at ht
          cases ht
        · obtain rfl := Option.some.inj h
          exact hnone
  · -- save
    rename_i taskId hpc
    obtain rfl := Option.some.inj hstep
    rw [hpc] at hsound
    exact inv_move (s := s) hinv hl hstill (fun _ l' _ _ => hnone _ l'.pc) hsound
      (Or.inl (by rw [hpc]; rfl))
  · -- start
    rename_i taskId submit error now hpc
    split_ifs at hstep with hpool
    obtain rfl := Option.some.inj hstep
    rw [hpc] at hsound
    refine inv_move (s := s) hinv hl (moves_startTask s.engine l.fire.planId taskId submit now) ?_
      (sound_start hinv.store hsound hpool) (Or.inl ?_)
    · intro j l' hne hj taskId' now' hcall hwaits
      obtain ⟨hplan, rfl, _⟩ := Call.startTask.inj (Option.some.inj hcall)
      have hadded : l'.pc.added = some taskId := by
        cases hpc' : l'.pc <;> rw [hpc'] at hwaits <;> cases hwaits <;> rfl
      exact hinv.distinct i j l l' taskId hl hj (Ne.symm hne) hplan (by rw [hpc]; rfl) hadded
    · rw [hpc]
      unfold afterStart
      split <;> rfl
  · -- fail
    rename_i taskId error now hpc
    obtain rfl := Option.some.inj hstep
    rw [hpc] at hsound
    have hmoves : Moves s.engine
        { s.engine with
          store := apply s.engine.store
            (.failTask l.fire.planId taskId ("cron could not start: " ++ error) {} now) }
        (some (.failTask l.fire.planId taskId ("cron could not start: " ++ error) {} now)) :=
      moves_store (fun _ => trivial) trivial
    have hkeeps : ∀ planId pc, Keeps
        (some (.failTask l.fire.planId taskId ("cron could not start: " ++ error) {} now))
        planId pc := by
      intro planId pc taskId' now' h
      cases h
    exact inv_move (s := s) hinv hl hmoves (fun _ l' _ _ => hkeeps _ l'.pc)
      (hsound.moves hmoves hinv.store (hkeeps _ _)) (Or.inl (by rw [hpc]; rfl))
  · -- mark
    rename_i taskId error hpc
    obtain rfl := Option.some.inj hstep
    rw [hpc] at hsound
    exact inv_move (s := s) hinv hl hstill (fun _ l' _ _ => hnone _ l'.pc) hsound
      (Or.inl (by rw [hpc]; rfl))
  · cases hstep

/-- Every step without a stolen start. -/
theorem inv_step
    {cfg : ServiceConfig} {a : Label}
    (hinv : Inv s)
    (hnot : NotStolen s a)
    (hstep : step cfg s a = some s') :
    Inv s' := by
  cases a with
  | engine a =>
      obtain ⟨engine, hengine, rfl⟩ := Option.map_eq_some_iff.mp hstep
      have hmoves := moves_step hengine
      refine ⟨hmoves.storeInv hinv.store, hmoves.runsBegun hinv.store hinv.runs,
        fun i l hl => ?_, hinv.distinct⟩
      refine (hinv.sound i l hl).moves hmoves hinv.store fun taskId now hcall => ?_
      exact hnot l.fire.planId taskId now hcall l (List.mem_of_getElem? hl) rfl
  | row row =>
      obtain rfl := Option.some.inj hstep
      exact ⟨hinv.store, hinv.runs, hinv.sound, hinv.distinct⟩
  | fire f =>
      obtain rfl := Option.some.inj hstep
      have hcases : ∀ (i : Nat) l, (s.launchers ++ [{ fire := f }])[i]? = some l →
          s.launchers[i]? = some l ∨ l = { fire := f } := by
        intro i l hl
        rw [List.getElem?_append] at hl
        split_ifs at hl
        · exact Or.inl hl
        · exact Or.inr (List.mem_singleton.mp (List.mem_of_getElem? hl))
      refine ⟨hinv.store, hinv.runs, fun i l hl => ?_,
        fun i j l l' taskId hl hl' hne hplan h h' => ?_⟩
      · rcases hcases i l hl with hl | rfl
        · exact hinv.sound i l hl
        · trivial
      · rcases hcases i l hl with hl | rfl
        · rcases hcases j l' hl' with hl' | rfl
          · exact hinv.distinct i j l l' taskId hl hl' hne hplan h h'
          · cases h'
        · cases h
  | launch i move =>
      obtain ⟨l, hl, hlaunch⟩ := Option.bind_eq_some_iff.mp hstep
      exact inv_launch hinv hl hlaunch

theorem inv_initial : Inv initial := by
  refine ⟨fun _ _ hget => ?_, fun _ _ hmem => ?_, fun _ _ hl => ?_, fun _ _ _ _ _ hl => ?_⟩
  · simp [initial, TaskEngine.initial] at hget
  · cases hmem
  · simp [initial] at hl
  · simp [initial] at hl

theorem Inv.launched
    (hinv : Inv s) :
    Launched s := by
  refine ⟨fun l hl taskId hpc => ?_, fun l hl taskId hpc => ?_⟩
  · obtain ⟨i, hi⟩ := List.mem_iff_getElem?.mp hl
    have hsound := hinv.sound i l hi
    rw [hpc] at hsound
    exact hsound.2
  · obtain ⟨i, hi⟩ := List.mem_iff_getElem?.mp hl
    have hsound := hinv.sound i l hi
    cases hcase : l.pc with
    | fail taskId' error =>
        rw [hcase] at hpc hsound
        cases hpc
        exact hsound.2
    | mark taskId' error =>
        rw [hcase] at hpc hsound
        cases hpc
        exact hsound.2
    | notStarted taskId' error =>
        rw [hcase] at hpc hsound
        cases hpc
        exact hsound.2
    | _ =>
        rw [hcase] at hpc
        cases hpc

end Invariant

section Undisturbed

/-- What every state keeps that is reached without a disturbance: a task whose
call waits is READY, and no start raised. -/
def Calm (s : State) : Prop :=
  ∀ l, l ∈ s.launchers → l.pc.failed = none ∧
    ∀ taskId, l.pc.waits = some taskId → ReadyFree s.engine.store l.fire.planId taskId

variable {cfg : ServiceConfig} {s s' : State} {a : Label}

theorem notStolen_of_undisturbed
    (h : Undisturbed s a) :
    NotStolen s a := by
  cases a with
  | engine a =>
      intro planId taskId now hcall l hl hplan hwaits
      exact h _ hcall l hl taskId hwaits (by rw [hplan]; rfl)
  | _ => trivial

theorem readyFree_moves
    {e e' : TaskEngine.State} {call : Option Call} {planId taskId : String}
    (h : Moves e e' call)
    (hinv : StoreInv e.store)
    (hnot : ∀ c, call = some c → c.target ≠ some (planId, taskId))
    (hfree : ReadyFree e.store planId taskId) :
    ReadyFree e'.store planId taskId := by
  obtain ⟨t, hget, hready, hdeps⟩ := hfree
  rw [h.store]
  cases call with
  | none => exact ⟨t, hget, hready, hdeps⟩
  | some c =>
      obtain ⟨plan, hplan, _⟩ := getTask_eq_some hget
      obtain ⟨t', hget', hfollows⟩ :=
        getTask_apply_of_ne hinv (h.spares c rfl planId plan hplan) (hnot c rfl) hget
      refine ⟨t', hget', hfollows.ready hready hdeps, ?_⟩
      rw [hfollows.same]
      exact hdeps

theorem calm_move
    {i : Nat} {l : Launcher} {pc : LaunchPc} {rows : Dict String Row} {e' : TaskEngine.State}
    {call : Option Call}
    (hinv : Inv s)
    (hcalm : Calm s)
    (h : Moves s.engine e' call)
    (hnot : ∀ (j : Nat) l', j ≠ i → s.launchers[j]? = some l' → ∀ taskId,
      l'.pc.waits = some taskId → ∀ c, call = some c → c.target ≠ some (l'.fire.planId, taskId))
    (hfailed : pc.failed = none)
    (hown : ∀ taskId, pc.waits = some taskId → ReadyFree e'.store l.fire.planId taskId) :
    Calm { s with
      engine := e'
      rows := rows
      launchers := s.launchers.set i { l with pc := pc } } := by
  intro l' hl'
  obtain ⟨j, hj⟩ := List.mem_iff_getElem?.mp hl'
  rcases getElem?_set_eq_some hj with ⟨_, rfl⟩ | ⟨hne, hj⟩
  · exact ⟨hfailed, hown⟩
  · obtain ⟨hold, hready⟩ := hcalm l' (List.mem_of_getElem? hj)
    exact ⟨hold, fun taskId hwaits =>
      readyFree_moves h hinv.store (hnot j l' hne hj taskId hwaits) (hready taskId hwaits)⟩

theorem added_of_waits
    {pc : LaunchPc} {taskId : String}
    (h : pc.waits = some taskId) :
    pc.added = some taskId := by
  cases pc <;> cases h <;> rfl

theorem calm_launch
    {i : Nat} {l : Launcher} {move : LaunchMove}
    (hinv : Inv s)
    (hcalm : Calm s)
    (h : Undisturbed s (.launch i move))
    (hl : s.launchers[i]? = some l)
    (hstep : stepLauncher cfg s i l move = some s') :
    Calm s' := by
  obtain ⟨hfailed, hready⟩ := hcalm l (List.mem_of_getElem? hl)
  have hstill : Moves s.engine s.engine none :=
    ⟨rfl, Or.inl rfl, fun _ h => (nomatch h), fun _ h => (nomatch h)⟩
  unfold stepLauncher at hstep
  split at hstep
  · -- add
    rename_i freshId now hpc
    obtain rfl := Option.some.inj hstep
    have hmoves : Moves s.engine
        { s.engine with
          store := apply s.engine.store (.addTask l.fire.planId l.fire.task freshId now) }
        (some (.addTask l.fire.planId l.fire.task freshId now)) :=
      moves_store (fun _ => trivial) l.fire.pending
    have hnot : ∀ (j : Nat) l', j ≠ i → s.launchers[j]? = some l' → ∀ taskId,
        l'.pc.waits = some taskId → ∀ c,
        some (Call.addTask l.fire.planId l.fire.task freshId now) = some c →
        c.target ≠ some (l'.fire.planId, taskId) := by
      intro _ _ _ _ _ _ c hc
      obtain rfl := Option.some.inj hc
      exact fun htarget => (nomatch htarget)
    cases hadd : (addTask s.engine.store l.fire.planId l.fire.task freshId now).2 with
    | none => exact calm_move (s := s) hinv hcalm hmoves hnot rfl fun _ h => (nomatch h)
    | some added =>
        obtain ⟨_, hget, hadded, hdeps⟩ :=
          getTask_addTask hinv.store l.fire.pending l.fire.free hadd
        refine calm_move (s := s) hinv hcalm hmoves hnot rfl fun taskId hwaits => ?_
        obtain rfl := Option.some.inj hwaits
        exact ⟨added, hget, hadded, hdeps⟩
  · -- save
    rename_i taskId hpc
    obtain rfl := Option.some.inj hstep
    refine calm_move (s := s) hinv hcalm hstill (fun _ _ _ _ _ _ _ h => (nomatch h)) rfl
      fun taskId' hwaits => hready taskId' ?_
    rw [hpc]
    exact hwaits
  · -- start
    rename_i taskId submit error now hpc
    split_ifs at hstep with hpool
    obtain rfl := Option.some.inj hstep
    obtain rfl : submit = .accepted := h
    obtain ⟨t, hget, hts, _⟩ := hready taskId (by rw [hpc]; rfl)
    rw [(startTask_of_ready hget hts).1]
    refine calm_move (s := s) hinv hcalm
      (moves_startTask s.engine l.fire.planId taskId .accepted now) ?_ rfl
      fun _ h => (nomatch h)
    intro j l' hne hj taskId' hwaits c hc htarget
    obtain rfl := Option.some.inj hc
    obtain ⟨hplan, rfl⟩ := Prod.mk.inj (Option.some.inj htarget)
    exact hinv.distinct i j l l' taskId hl hj (Ne.symm hne) hplan (by rw [hpc]; rfl)
      (added_of_waits hwaits)
  · rename_i hpc
    rw [hpc] at hfailed
    cases hfailed
  · rename_i hpc
    rw [hpc] at hfailed
    cases hfailed
  · cases hstep

theorem calm_step
    (hinv : Inv s)
    (hcalm : Calm s)
    (h : Undisturbed s a)
    (hstep : step cfg s a = some s') :
    Calm s' := by
  cases a with
  | engine a =>
      obtain ⟨engine, hengine, rfl⟩ := Option.map_eq_some_iff.mp hstep
      intro l hl
      obtain ⟨hfailed, hready⟩ := hcalm l hl
      exact ⟨hfailed, fun taskId hwaits => readyFree_moves (moves_step hengine) hinv.store
        (fun c hc => h c hc l hl taskId hwaits) (hready taskId hwaits)⟩
  | row row =>
      obtain rfl := Option.some.inj hstep
      exact hcalm
  | fire f =>
      obtain rfl := Option.some.inj hstep
      intro l hl
      rcases List.mem_append.mp hl with hl | hl
      · exact hcalm l hl
      · obtain rfl := List.mem_singleton.mp hl
        exact ⟨rfl, fun _ h => (nomatch h)⟩
  | launch i move =>
      obtain ⟨l, hl, hlaunch⟩ := Option.bind_eq_some_iff.mp hstep
      exact calm_launch hinv hcalm h hl hlaunch

end Undisturbed

section Results

variable {cfg : ServiceConfig} {s : State}

/-- The start of a call that is through has not failed. -/
def Launcher.Executed (s : State) (l : Launcher) : Prop :=
  l.pc.failed = none ∧
    ∀ taskId, l.pc = .started taskId → execs s l.fire.planId taskId = 1

theorem inv_of_reach
    (h : Reach (step cfg) NotStolen initial s) :
    Inv s :=
  h.invariant inv_initial fun _ _ _ hinv hnot hstep => inv_step hinv hnot hstep

theorem calm_of_reach
    (h : Reach (step cfg) Undisturbed initial s) :
    Inv s ∧ Calm s :=
  h.invariant (P := fun s => Inv s ∧ Calm s) ⟨inv_initial, fun _ hl => (nomatch hl)⟩
    fun _ _ _ ⟨hinv, hcalm⟩ hnot hstep =>
      ⟨inv_step hinv (notStolen_of_undisturbed hnot) hstep, calm_step hinv hcalm hnot hstep⟩

/-- **A fire is executed once.**  Without a stolen start a call that started its
task has given it one worker, and one that could not start it has given it none.
If moreover nobody completes or fails the waiting task and the pool takes it, no
start fails. -/
theorem fire_executed_once
    (cfg : ServiceConfig) (s : State)
    (h : Reach (step cfg) NotStolen initial s) :
    Launched s ∧
      (Reach (step cfg) Undisturbed initial s →
        ∀ l, l ∈ s.launchers → l.Executed s) := by
  refine ⟨(inv_of_reach h).launched, fun hcalm l hl => ?_⟩
  obtain ⟨hinv, hready⟩ := calm_of_reach hcalm
  exact ⟨(hready l hl).1, fun taskId hpc => hinv.launched.started l hl taskId hpc⟩

/-- An hourly job of a chat. -/
def hourlyFire : Fire where
  job := { driver := .schedule (.everySeconds 3600), chatId := "chat-1" }
  row := { jobId := "hourly", updatedAt := 0 }
  planId := "plan-1"
  task := { id := "task-2", name := "cron:hourly", chatId := some "chat-1" }
  now := 10
  catchup := false
  manual := false
  pending := rfl
  free := rfl

/-- Another task of the standing plan runs when the job fires. -/
def addedRun : List Label :=
  [.engine (.createPlan "plan-1" "__cron__" (some "chat-1")
      [{ id := "task-1", name := "cron:other", chatId := some "chat-1" }] (fun _ => "") 0),
    .engine (.startTask "plan-1" "task-1" .accepted 1),
    .engine (.worker 0 (.fetch true)),
    .fire hourlyFire,
    .launch 0 (.add "task-2" 10),
    .launch 0 .save]

/-- `Undisturbed`, as a check of the labels of a run. -/
def undisturbed (s : State) : Label → Bool
  | .engine a => (a.call s.engine).all fun call => s.launchers.all fun l =>
      l.pc.waits.all fun taskId => call.target != some (l.fire.planId, taskId)
  | .launch _ (.start submit _ _) => submit == .accepted
  | _ => true

theorem undisturbed_iff
    (s : State) (a : Label)
    (h : undisturbed s a = true) :
    Undisturbed s a := by
  cases a with
  | engine a =>
      intro call hcall l hl taskId hwaits
      simp only [undisturbed, hcall, Option.all_some, List.all_eq_true] at h
      simpa [hwaits] using h l hl
  | launch i move =>
      cases move with
      | start submit error now =>
          have haccepted : submit = .accepted := by simpa [undisturbed] using h
          exact haccepted
      | _ => trivial
  | _ => trivial

def startedRun : List Label := addedRun ++ [.launch 0 (.start .accepted "" 12)]

theorem fire_executed_once_startedRun :
    ∃ s, run (step tenTicks) initial startedRun = some s ∧
      Launched s ∧ (∀ l, l ∈ s.launchers → l.Executed s) ∧
      (∃ l, l ∈ s.launchers ∧ l.pc = .started "task-2") := by
  have hsome : (run (step tenTicks) initial startedRun).isSome = true := by decide
  have hreach : Reach (step tenTicks) Undisturbed initial
      ((run (step tenTicks) initial startedRun).getD initial) :=
    reach_of_run (run_eq_getD hsome) (guarded_of_checkRun undisturbed undisturbed_iff (by decide))
  have hfree := hreach.mono fun _ _ => notStolen_of_undisturbed
  have honce := fire_executed_once tenTicks _ hfree
  exact ⟨_, run_eq_getD hsome, honce.1, honce.2 hreach, ⟨hourlyFire, .started "task-2"⟩,
    List.mem_singleton.mpr rfl, rfl⟩

/-- The other task ends before the start of the new one. -/
def stolenRun : List Label :=
  addedRun ++
    [.engine (.worker 0 (.executed { result := "ok", log := "", exitCode := 0 } 11)),
      .engine (.worker 0 .post),
      .engine (.worker 0 .readReady),
      .engine (.worker 0 (.startNext false .accepted 12)),
      .engine (.worker 1 (.fetch true)),
      .launch 0 (.start .accepted "Task task-2 is not ready (status=TaskStatus.RUNNING)" 13),
      .launch 0 (.fail 14),
      .launch 0 .mark]

/-- A worker runs the task while the job's run is marked as failed and its
`running_task_id` is cleared. -/
theorem stolen_fire_could_not_start :
    ∃ s, run (step tenTicks) initial stolenRun = some s ∧ ¬ Launched s ∧
      execs s "plan-1" "task-2" = 1 ∧
      ((s.rows.get "hourly").map fun r => (r.lastStatus, r.lastSummary, r.runningTaskId)) =
        some (some "failed",
          "could not start: Task task-2 is not ready (status=TaskStatus.RUNNING)", none) := by
  have hsome : (run (step tenTicks) initial stolenRun).isSome = true := by decide
  refine ⟨_, run_eq_getD hsome, fun h => ?_, by decide, by decide⟩
  have hzero := h.failed ⟨hourlyFire, .notStarted "task-2"
    "Task task-2 is not ready (status=TaskStatus.RUNNING)"⟩ (List.mem_singleton.mpr rfl) "task-2" rfl
  revert hzero
  decide

end Results

end Materialize
end DiploidAgent
