import DiploidAgent.Lib.Dict

/-!
# Cron job state

`CronJobState` of `runtime/cron_state.py` and what the calls of
`CronStateStore` do to the map of rows.  Every call re-reads the file under the
file lock and, when it writes, replaces it before the lock is released, so each
is one step on the map, whichever store instance makes it.
-/

namespace DiploidAgent
namespace Cron

/-- `CronJobState`, over the type of its times. -/
structure CronJobState (τ : Type) where
  jobId : String
  sourceFile : String := ""
  lastRunAt : Option τ := none
  nextDueAt : Option τ := none
  lastStatus : Option String := none
  runningTaskId : Option String := none
  runningPlanId : Option String := none
  consecutiveFailures : Int := 0
  disabled : Bool := false
  lastFinishedAt : Option τ := none
  lastSummary : String := ""
  lastTaskId : Option String := none
  queuedDue : Bool := false
  scheduleKey : String := ""
  firedSpec : String := ""
  firedChatId : String := ""
  turnCount : Int := 0
  turnDate : String := ""
  triggerSeenMtime : Option τ := none
  triggerFiredAt : Option τ := none
  triggerHeld : Bool := false
  updatedAt : τ
deriving DecidableEq, Repr

abbrev States (τ : Type) := Dict String (CronJobState τ)

variable {τ : Type}

/-- A row as `ensure` creates it. -/
def freshState (jobId sourceFile : String) (now : τ) : CronJobState τ :=
  { jobId := jobId, sourceFile := sourceFile, updatedAt := now }

/-- `update`. -/
def updateState (m : States τ) (state : CronJobState τ) (now : τ) : States τ :=
  m.set state.jobId { state with updatedAt := now }

/-- `ensure`: the row it returns is the one stored under the id afterwards. -/
def ensureState (m : States τ) (jobId sourceFile : String) (now : τ) : States τ :=
  match m.get jobId with
  | none => updateState m (freshState jobId sourceFile now) now
  | some _ => m

/-- `remove_missing`. -/
def removeMissing (m : States τ) (jobIds : List String) : States τ :=
  m.filter fun e => jobIds.contains e.1 || e.2.runningTaskId.isSome

/-- `drop`. -/
def dropState (m : States τ) (jobId : String) : States τ := m.erase jobId

/-- Every row is stored under its own id. -/
def Keyed (m : States τ) : Prop :=
  ∀ id s, m.get id = some s → s.jobId = id

section Lookups

variable {m : States τ} {id : String}

theorem get_updateState
    (state : CronJobState τ) (now : τ) :
    (updateState m state now).get id =
      if state.jobId = id then some { state with updatedAt := now } else m.get id :=
  Dict.get_set _ _ _ _

theorem get_removeMissing
    (jobIds : List String) :
    (removeMissing m jobIds).get id =
      (m.get id).filter fun s => jobIds.contains id || s.runningTaskId.isSome :=
  Dict.get_filter _ _ _

theorem get_dropState
    (jobId : String) :
    (dropState m jobId).get id = if jobId = id then none else m.get id :=
  Dict.get_erase _ _ _

theorem keyed_empty :
    Keyed (Dict.empty : States τ) := by
  intro id s h
  cases h

theorem keyed_updateState
    (hkeyed : Keyed m)
    (state : CronJobState τ) (now : τ) :
    Keyed (updateState m state now) := by
  intro id s hs
  rw [get_updateState] at hs
  split_ifs at hs with hid
  · obtain rfl := Option.some.inj hs
    exact hid
  · exact hkeyed id s hs

theorem keyed_ensureState
    (hkeyed : Keyed m)
    (jobId sourceFile : String) (now : τ) :
    Keyed (ensureState m jobId sourceFile now) := by
  unfold ensureState
  cases m.get jobId with
  | none => exact keyed_updateState hkeyed _ _
  | some s => exact hkeyed

theorem keyed_filter
    (hkeyed : Keyed m)
    (p : String × CronJobState τ → Bool) :
    Keyed (m.filter p) := by
  intro id s hs
  rw [Dict.get_filter, Option.filter_eq_some_iff] at hs
  exact hkeyed id s hs.1

end Lookups

end Cron
end DiploidAgent
