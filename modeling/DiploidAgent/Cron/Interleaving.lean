import DiploidAgent.Cron.Service
import DiploidAgent.Lib.Runs
import Mathlib.Logic.Function.Basic

/-!
# Interleaved threads of the cron service

The tick, the event bus, operators and the wake pipeline work on the rows of one
store.  Each thread reads a row, which fixes what it will do, and then does it
action by action; between two actions any other thread may move.  Every call of
the store is one action.  What the world answers (the plan manager, the engine,
the clock) is chosen when a thread reads.

Beside the store the state keeps the log of what was recorded, in order, and the
copy of the four fields each thread works from.
-/

namespace DiploidAgent
namespace Cron
namespace Threads

/-! ### The recorded fields -/

/-- The fields of a row that carry its runs. -/
structure Fields where
  consecutiveFailures : Int := 0
  disabled : Bool := false
  turnCount : Int := 0
  turnDate : String := ""
  runningTaskId : Option String := none
deriving DecidableEq, Repr

def fields (s : Row) : Fields where
  consecutiveFailures := s.consecutiveFailures
  disabled := s.disabled
  turnCount := s.turnCount
  turnDate := s.turnDate
  runningTaskId := s.runningTaskId

/-- The update that a note stands for. -/
def applyNote (f : Fields) : Note → Fields
  | .kept => f
  | .started taskId => { f with runningTaskId := some taskId }
  | .notStarted _ | .lost _ => { f with runningTaskId := none }
  | .finalized _ true _ =>
      { f with runningTaskId := none, consecutiveFailures := 0, disabled := false }
  | .finalized _ false maxFailures =>
      { f with
        runningTaskId := none
        consecutiveFailures := f.consecutiveFailures + 1
        disabled := f.disabled || maxFailures ≤ f.consecutiveFailures + 1 }
  | .billed today =>
      { f with
        turnDate := today
        turnCount := (if f.turnDate = today then f.turnCount else 0) + 1 }

/-- What was recorded: a note on a job's row by a thread, the removal of a row, the
removal of the idle rows of unknown jobs. -/
inductive Entry where
  | noted (thread : Nat) (jobId : String) (note : Note)
  | dropped (jobId : String)
  | swept (jobIds : List String)
deriving DecidableEq, Repr

def applyEntry (jobId : String) (f : Fields) : Entry → Fields
  | .noted _ id note => if id = jobId then applyNote f note else f
  | .dropped id => if id = jobId then {} else f
  | .swept jobIds => if jobIds.contains jobId || f.runningTaskId.isSome then f else {}

/-- The fields of a job's row after all that was recorded, the newest entry first. -/
def replay (jobId : String) : List Entry → Fields
  | [] => {}
  | e :: rest => applyEntry jobId (replay jobId rest) e

/-! ### States -/

/-- Where a task of the cron plan stands in the plan manager and the engine. -/
inductive Stage where
  | unknown
  | ready
  | executing
  | ended
  | gone
deriving DecidableEq, Repr

/-- A thread at work on a job: the fields as it last read or wrote them, and what it
is still to do. -/
structure Thread where
  jobId : String := ""
  basis : Fields := {}
  todo : List Action := []

/-- The store, the tasks, the finalize lock and the threads; then who was given a task
id and for which job, what was recorded and what was delivered. -/
structure State where
  rows : States Int := Dict.empty
  stage : String → Stage := fun _ => .unknown
  lock : Option Nat := none
  threads : Nat → Thread := fun _ => {}
  home : String → Option (Nat × String) := fun _ => none
  log : List Entry := []
  delivered : List String := []

/-- The fields of a job's row; a missing row is a fresh one. -/
def State.fieldsOf (s : State) (jobId : String) : Fields :=
  ((s.rows.get jobId).map fields).getD {}

/-! ### Steps -/

/-- A stretch of the service that reads one row. -/
inductive Section where
  | tick (job : ResolvedJob) (now : Int) (sight : Sight) (catchup : Bool) (launch : Launch)
  | runNow (job : ResolvedJob) (now : Int) (launch : Launch)
  | bootPass (job : ResolvedJob) (now : Int)
  | reconcileLost
  | finalize (job : Option ResolvedJob) (now later : Int) (fin : Finish) (launch : Launch)
  | recordTurnDelivery (today : String)
deriving DecidableEq, Repr

/-- `ensure`, which stores a missing row in a second call of the store. -/
def ensured (jobId : String) (job : ResolvedJob) (now : Int) (row : Option Row) :
    Row × List Action :=
  match row with
  | some s => (s, [])
  | none =>
      let s := freshState jobId job.sourceFile now
      (s, [.save s .kept])

/-- The row a section reads and what it then does. -/
def plan (cfg : ServiceConfig) (jobId : String) (row : Option Row) :
    Section → Option (Fields × List Action)
  | .tick job now sight catchup launch =>
      let r := ensured jobId job now row
      some (fields r.1, r.2 ++ tickJob cfg job r.1 now sight catchup launch)
  | .runNow job now launch =>
      let r := ensured jobId job now row
      some (fields r.1, r.2 ++ runNow cfg job r.1 now launch)
  | .bootPass job now => row.map fun s => (fields s, (bootPass cfg job s now).1)
  | .reconcileLost => row.map fun s => (fields s, loseTask s)
  | .finalize job now later fin launch =>
      match row with
      | none => some ({}, [.unlock])
      | some s => some (fields s, finalize cfg job s now later fin launch)
  | .recordTurnDelivery today => row.map fun s => (fields s, recordTurnDelivery s today)

def Section.isFinalize : Section → Bool
  | .finalize .. => true
  | _ => false

/-- The task id that the plan manager would hand out in the section. -/
def Section.launched : Section → Option String
  | .tick _ _ _ _ launch | .runNow _ _ launch | .finalize _ _ _ _ launch => launch.added
  | _ => none

/-- The task whose end a completion reports. -/
def Section.finished : Section → Option String
  | .finalize _ _ _ fin _ => some fin.taskId
  | _ => none

inductive Label where
  | begin (thread : Nat) (jobId : String) (sec : Section)
  | next (thread : Nat) (now : Int)
  | finish (taskId : String)
  | vanish (taskId : String)
  | removeMissing (jobIds : List String)
deriving DecidableEq, Repr

def State.setStage (s : State) (taskId : String) (stage : Stage) : State :=
  { s with stage := Function.update s.stage taskId stage }

def State.setThread (s : State) (i : Nat) (t : Thread) : State :=
  { s with threads := Function.update s.threads i t }

/-- A section may begin in an idle thread.  Completions take the finalize lock and
report ended tasks; task ids are handed out once. -/
def begins (s : State) (i : Nat) (sec : Section) : Bool :=
  (s.threads i).todo.isEmpty && (!sec.isFinalize || s.lock.isNone) &&
    sec.finished.all (fun taskId => s.stage taskId == .ended) &&
    sec.launched.all fun taskId => (s.home taskId).isNone

def beginSection (cfg : ServiceConfig) (s : State) (i : Nat) (jobId : String) (sec : Section) :
    Option State :=
  if begins s i sec then
    (plan cfg jobId (s.rows.get jobId) sec).map fun p =>
      { s with
        lock := if sec.isFinalize then some i else s.lock
        home := match sec.launched with
          | some taskId => Function.update s.home taskId (some (i, jobId))
          | none => s.home
        threads := Function.update s.threads i ⟨jobId, p.1, p.2⟩ }
  else none

/-- `get_task` misses the record of a lost task only. -/
def maySave (s : State) : Note → Bool
  | .lost taskId => s.stage taskId == .gone
  | _ => true

/-- The next action of a thread.  The engine starts READY tasks only. -/
def act (s : State) (i : Nat) (t : Thread) (rest : List Action) (now : Int) : Action →
    Option State
  | .save row note =>
      if maySave s note then
        some (({ s with
          rows := updateState s.rows row now
          log := .noted i t.jobId note :: s.log } : State).setThread i
            { t with basis := fields row, todo := rest })
      else none
  | .add taskId =>
      if s.stage taskId = .unknown then
        some ((s.setStage taskId .ready).setThread i { t with todo := rest })
      else none
  | .start taskId =>
      if s.stage taskId = .ready then
        some ((s.setStage taskId .executing).setThread i { t with todo := rest })
      else none
  | .failStart taskId =>
      some ((if s.stage taskId = .ready then s.setStage taskId .ended else s).setThread i
        { t with todo := rest })
  | .unlock => some (({ s with lock := none } : State).setThread i { t with todo := rest })
  | .deliver taskId =>
      some (({ s with delivered := taskId :: s.delivered } : State).setThread i
        { t with todo := rest })
  | .drop =>
      some (({ s with
        rows := dropState s.rows t.jobId
        log := .dropped t.jobId :: s.log } : State).setThread i
          { t with basis := {}, todo := rest })

/-- One step. -/
def step (cfg : ServiceConfig) (s : State) : Label → Option State
  | .begin i jobId sec => beginSection cfg s i jobId sec
  | .next i now =>
      match (s.threads i).todo with
      | [] => none
      | a :: rest => act s i (s.threads i) rest now a
  | .finish taskId =>
      if s.stage taskId = .executing then some (s.setStage taskId .ended) else none
  | .vanish taskId =>
      if s.stage taskId = .unknown then none else some (s.setStage taskId .gone)
  | .removeMissing jobIds =>
      some { s with
        rows := removeMissing s.rows jobIds
        log := .swept jobIds :: s.log }

def initial : State := {}

end Threads
end Cron
end DiploidAgent
