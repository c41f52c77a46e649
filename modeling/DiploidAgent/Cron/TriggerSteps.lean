import DiploidAgent.Cron.Service
import DiploidAgent.Lib.Runs
import Mathlib.Logic.Function.Basic

/-!
# Runs of one trigger job

One job that stays in the merged config, as atomic ticks, completion events,
manual runs, restarts and hot edits move it.  Beside the row the state keeps a
history, which nothing reads: the fires, what the ticks observed under each
trigger, and whether a tick under another driver than the row's has written the
trigger fields (`stale`).
-/

namespace DiploidAgent
namespace Cron
namespace Triggers

/-! ### The history -/

inductive Event where
  | fired (now : Int) (t : Trigger)
  | newMtime (t : Trigger)
  | rise (t : Trigger)
  | reset
deriving DecidableEq, Repr

structure History where
  log : List Event := []
  lastMtime : Trigger → Option Int := fun _ => none
  lastHeld : Trigger → Option Bool := fun _ => none
  stale : Bool := false

/-- A tick under the trigger `t` looks at its source. -/
def History.observe (h : History) (t : Trigger) (sight : Sight) : History :=
  match t.watch with
  | .file _ =>
      match sight.mtime with
      | none => h
      | some mtime =>
          { h with
            log := if (h.lastMtime t).any (· ≠ mtime) then .newMtime t :: h.log else h.log
            lastMtime := Function.update h.lastMtime t (some mtime) }
  | .body _ op value =>
      let held := compare sight.current op value
      { h with
        log := if held && h.lastHeld t == some false then .rise t :: h.log else h.log
        lastHeld := Function.update h.lastHeld t (some held) }

def History.look (h : History) (job : ResolvedJob) (sight : Sight) : History :=
  match job.driver with
  | .trigger t => h.observe t sight
  | .schedule _ => h

/-- The row takes over another driver. -/
def History.reseed (h : History) (job : ResolvedJob) : History :=
  { h with
    log := if job.isTrigger then .reset :: h.log else h.log
    stale := false }

/-- Whether a list of actions starts a run. -/
def started (actions : List Action) : Bool :=
  actions.any fun a =>
    match a with
    | .save _ (.started _) => true
    | _ => false

/-- Non-manual actions under a trigger that start a run are a fire. -/
def History.fire (h : History) (job : ResolvedJob) (now : Int) (actions : List Action) : History :=
  match job.driver with
  | .trigger t => if started actions then { h with log := .fired now t :: h.log } else h
  | .schedule _ => h

/-- A run in flight keeps the row under another driver than the job's. -/
def drifted (cfg : ServiceConfig) (job : ResolvedJob) (s : Row) : Bool :=
  s.scheduleKey != "" && s.scheduleKey != cfg.driverKey job.driver && s.runningTaskId.isSome

/-- A tick that left `s'` has written the trigger fields of a drifted row. -/
def History.disturb (h : History) (cfg : ServiceConfig) (job : ResolvedJob) (s s' : Row) :
    History :=
  let same := s'.triggerSeenMtime = s.triggerSeenMtime ∧ s'.triggerHeld = s.triggerHeld ∧
    s'.queuedDue = s.queuedDue
  { h with stale := h.stale || drifted cfg job s && !decide same }

/-! ### States and steps -/

structure State where
  job : ResolvedJob
  row : Option Row := none
  clock : Int
  booted : Bool := false
  catchup : Bool := false
  history : History := {}

/-- What `_reconcile_running` finds for the task of the row. -/
inductive Answer where
  | running
  | lost
  | finished (fin : Finish) (done later : Int) (launch : Launch)
deriving DecidableEq, Repr

inductive Label where
  | tick (now : Int) (answer : Answer) (sight : Sight) (launch : Launch)
  | completed (fin : Finish) (done later : Int) (launch : Launch)
  | runNow (now : Int) (launch : Launch)
  | restart
  | edit (job : ResolvedJob)
deriving DecidableEq, Repr

/-- `ensure`. -/
def State.ensured (jobId : String) (st : State) (now : Int) : Row :=
  st.row.getD (freshState jobId st.job.sourceFile now)

/-- `_boot_pass`, on the first tick of a process. -/
def boot (cfg : ServiceConfig) (st : State) (now : Int) : State :=
  match st.booted, st.row with
  | true, _ => st
  | false, none => { st with booted := true }
  | false, some s =>
      let pass := bootPass cfg st.job s now
      { st with
        row := some (lastSaved s pass.1)
        booted := true
        catchup := st.catchup || pass.2 }

/-- `_finalize`, from a completion event or from the tick. -/
def finish (cfg : ServiceConfig) (st : State) (s : Row) (fin : Finish) (done later : Int)
    (launch : Launch) : State :=
  let actions := finalize cfg (some st.job) s done later fin launch
  let reseeds := s.runningTaskId = some fin.taskId ∧ s.scheduleKey ≠ cfg.driverKey st.job.driver
  { st with
    row := some (lastSaved s actions)
    clock := later
    history :=
      (if reseeds then st.history.reseed st.job else st.history).fire st.job later actions }

/-- `_reconcile_running`. -/
def reconcile (cfg : ServiceConfig) (st : State) (now : Int) (answer : Answer) : Option State :=
  match st.row with
  | none => some st
  | some s =>
      match s.runningTaskId, answer with
      | none, _ => some st
      | some _, .running => some st
      | some _, .lost => some { st with row := some (lastSaved s (loseTask s)) }
      | some taskId, .finished fin done later launch =>
          if fin.taskId = taskId ∧ now ≤ done ∧ done ≤ later then
            some (finish cfg st s fin done later launch)
          else none

/-- The history of a tick of an enabled job: the drift check, the look at the source,
the fire. -/
def tickHistory (cfg : ServiceConfig) (job : ResolvedJob) (h : History) (s s' : Row) (now : Int)
    (sight : Sight) (actions : List Action) : History :=
  if s.disabled then h
  else
    (((if s.scheduleKey ≠ cfg.driverKey job.driver ∧ s.scheduleKey ≠ "" ∧ s.runningTaskId = none
      then h.reseed job else h).look job sight).disturb cfg job s s').fire job now actions

/-- The job's turn in the loop of `_tick`. -/
def evaluate (cfg : ServiceConfig) (jobId : String) (st : State) (now : Int) (sight : Sight)
    (launch : Launch) : State :=
  if st.job.enabled then
    let s := st.ensured jobId now
    let actions := tickJob cfg st.job s now sight st.catchup launch
    let s' := lastSaved s actions
    { st with
      row := some s'
      catchup := st.catchup && !tickDropsCatchup cfg st.job s now sight
      history := tickHistory cfg st.job st.history s s' now sight actions }
  else st

/-- One atomic step.  An edit that the merge would drop is not one of the job. -/
def step (cfg : ServiceConfig) (jobId : String) (st : State) : Label → Option State
  | .tick now answer sight launch =>
      if st.clock ≤ now then
        (reconcile cfg { boot cfg st now with clock := now } now answer).map fun st =>
          evaluate cfg jobId st now sight launch
      else none
  | .completed fin done later launch =>
      if st.clock ≤ done ∧ done ≤ later then
        match st.row with
        | none => some { st with clock := later }
        | some s => some (finish cfg st s fin done later launch)
      else none
  | .runNow now launch =>
      if st.clock ≤ now then
        let s := st.ensured jobId now
        some { st with row := some (lastSaved s (runNow cfg st.job s now launch)), clock := now }
      else none
  | .restart => some { st with booted := false, catchup := false }
  | .edit job => if floorOk cfg job then some { st with job := job } else none

def initial (job : ResolvedJob) (clock : Int) : State := { job := job, clock := clock }

end Triggers
end Cron
end DiploidAgent
