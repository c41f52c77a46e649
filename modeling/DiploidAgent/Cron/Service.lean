import DiploidAgent.Cron.Store

/-!
# The cron service

The functions of `runtime/cron_service.py` that read and write the state row of
a job.  Each reads one copy of a row and then runs straight on, so what it does
is a list of actions that the copy, the job and the answers of the outside world
determine: rows it saves, calls of the plan manager and the task engine, the
delivery of a result.  A saved row says what it records (`Note`).

Times are clock ticks.  The task's texts and call, the phantom prompt and the
result files are left out.
-/

namespace DiploidAgent
namespace Cron

abbrev Row := CronJobState Int

/-! ### Jobs -/

/-- A value in the body state, or a trigger's threshold. -/
inductive BodyValue where
  | num (n : Int)
  | flag (b : Bool)
  | text (s : String)
  | other
deriving DecidableEq, Repr

inductive Op where
  | gt | ge | lt | le | eq | ne
deriving DecidableEq, Repr

inductive Watch where
  | file (path : String)
  | body (field : String) (op : Op) (value : BodyValue)
deriving DecidableEq, Repr

/-- `CronTriggerSpec`. -/
structure Trigger where
  watch : Watch
  cooldownSeconds : Option Int
deriving DecidableEq, Repr

/-- `CronScheduleSpec`, of which exactly one field is set. -/
inductive Schedule where
  | everySeconds (seconds : Int)
  | atDaily (time : String)
  | cron (expr : String)
deriving DecidableEq, Repr

/-- Exactly one driver. -/
inductive Driver where
  | schedule (s : Schedule)
  | trigger (t : Trigger)
deriving DecidableEq, Repr

inductive Overlap where
  | skip | queue
deriving DecidableEq, Repr

inductive Catchup where
  | once | skip
deriving DecidableEq, Repr

/-- A merged job: `CronJobSpec` and its resolution. -/
structure ResolvedJob where
  enabled : Bool := true
  driver : Driver
  overlap : Overlap := .skip
  catchup : Catchup := .once
  maxConsecutiveFailures : Int := 3
  specJson : String := ""
  sourceFile : String := ""
  chatId : String := ""
deriving DecidableEq, Repr

def ResolvedJob.isTrigger (job : ResolvedJob) : Bool :=
  match job.driver with
  | .trigger _ => true
  | .schedule _ => false

theorem ResolvedJob.driver_cases (job : ResolvedJob) :
    (∃ t, job.driver = .trigger t) ∨ ∃ sched, job.driver = .schedule sched := by
  cases job.driver with
  | schedule sched => exact Or.inr ⟨sched, rfl⟩
  | trigger t => exact Or.inl ⟨t, rfl⟩

/-- Settings, the wall clock and the texts of drivers.  Two drivers are the same
exactly when their JSON texts are, and no text is empty. -/
structure ServiceConfig where
  minIntervalSeconds : Int
  minInterval_nonneg : 0 ≤ minIntervalSeconds
  wallClock : Schedule → Int → Int
  driverKey : Driver → String
  driverKey_injective : Function.Injective driverKey
  driverKey_ne_empty : ∀ d, driverKey d ≠ ""

/-- `_next_due`. -/
def nextDue (cfg : ServiceConfig) (s : Schedule) (base : Int) : Int :=
  match s with
  | .everySeconds seconds => base + seconds
  | .atDaily time => cfg.wallClock (.atDaily time) base
  | .cron expr => cfg.wallClock (.cron expr) base

/-- `trig.cooldown_seconds or min_interval_seconds`. -/
def cooldown (cfg : ServiceConfig) (t : Trigger) : Int :=
  match t.cooldownSeconds with
  | none => cfg.minIntervalSeconds
  | some c => if c = 0 then cfg.minIntervalSeconds else c

/-- The interval floor of `_resolve_job` for triggers. -/
def floorOk (cfg : ServiceConfig) (job : ResolvedJob) : Bool :=
  match job.driver with
  | .trigger t => cfg.minIntervalSeconds ≤ cooldown cfg t
  | .schedule _ => true

/-! ### Actions -/

/-- What a saved row records of the run of a job. -/
inductive Note where
  | kept
  | started (taskId : String)
  | notStarted (taskId : String)
  | lost (taskId : String)
  | finalized (taskId : String) (ok : Bool) (maxFailures : Int)
  | billed (today : String)
deriving DecidableEq, Repr

/-- What a function of the service does after it has read its row. -/
inductive Action where
  | save (row : Row) (note : Note)
  | add (taskId : String)
  | start (taskId : String)
  | failStart (taskId : String)
  | unlock
  | deliver (taskId : String)
  | drop
deriving DecidableEq, Repr

/-- What the plan manager and the task engine answer when a job is materialized:
the id of the added task, and the error of `start_task`. -/
structure Launch where
  added : Option String
  startError : Option String := none
deriving DecidableEq, Repr

/-- `_materialize`. -/
def materialize (cfg : ServiceConfig) (job : ResolvedJob) (s : Row) (now : Int)
    (catchup manual : Bool) (launch : Launch) : List Action :=
  match launch.added with
  | none => []
  | some taskId =>
      let s := { s with
        runningTaskId := some taskId
        runningPlanId := some job.chatId
        lastTaskId := some taskId
        lastRunAt := some now
        queuedDue := false
        firedSpec := job.specJson
        firedChatId := job.chatId }
      let s :=
        match job.driver with
        | .schedule sched =>
            if manual then s else { s with nextDueAt := some (nextDue cfg sched now) }
        | .trigger _ => if manual then s else { s with triggerFiredAt := some now }
      let s := if catchup then { s with lastStatus := some "catchup" } else s
      .add taskId :: .save s (.started taskId) ::
        match launch.startError with
        | none => [.start taskId]
        | some error =>
            [.failStart taskId,
              .save { s with
                runningTaskId := none
                runningPlanId := none
                lastStatus := some "failed"
                lastSummary := "could not start: " ++ error } (.notStarted taskId)]

/-! ### Triggers -/

/-- `_reset_trigger`. -/
def resetTrigger (s : Row) : Row :=
  { s with
    triggerSeenMtime := none
    triggerHeld := false
    queuedDue := false
    nextDueAt := none }

/-- The number Python compares a value as. -/
def BodyValue.number : BodyValue → Option Int
  | .num n => some n
  | .flag b => some (if b then 1 else 0)
  | _ => none

/-- `_TRIGGER_OPS` on values that have an order. -/
def Op.onOrder {α : Type} [DecidableEq α] (less : α → α → Bool) (op : Op) (a b : α) : Bool :=
  match op with
  | .gt => less b a
  | .ge => less b a || a == b
  | .lt => less a b
  | .le => less a b || a == b
  | .eq => a == b
  | .ne => a != b

/-- `_compare`; a `TypeError` is no match. -/
def compare (current : Option BodyValue) (op : Op) (value : BodyValue) : Bool :=
  match current with
  | none => false
  | some current =>
      match current.number, value.number, current, value with
      | some a, some b, _, _ => op.onOrder (fun a b => decide (a < b)) a b
      | _, _, .text a, .text b => op.onOrder (fun a b => decide (a < b)) a b
      | _, _, _, _ => op == .ne

/-- What a tick sees of the world: the mtime of the watched file, if there is one,
and the value of the watched field. -/
structure Sight where
  mtime : Option Int := none
  current : Option BodyValue := none
deriving DecidableEq, Repr

/-- An evaluation: the copy it ends with, whether it was saved, and whether the job
fires. -/
structure Verdict where
  state : Row
  saved : Bool
  fires : Bool
deriving DecidableEq, Repr

/-- Inside the cooldown window of the last fire. -/
def inWindow (s : Row) (now cooldown : Int) : Bool :=
  s.triggerFiredAt.any fun firedAt => now - firedAt < cooldown

/-- A run in flight takes the edge: queue owes a re-fire, skip marks it. -/
def takeEdge (job : ResolvedJob) (s : Row) : Row :=
  match job.overlap with
  | .queue => { s with queuedDue := true }
  | .skip => { s with lastStatus := some "skipped" }

/-- `_eval_file_trigger`. -/
def evalFileTrigger (job : ResolvedJob) (s : Row) (now cooldown : Int) (mtime : Option Int) :
    Verdict :=
  match mtime with
  | none => { state := s, saved := false, fires := false }
  | some mtime =>
      if s.triggerSeenMtime = none then
        { state := { s with triggerSeenMtime := some mtime }, saved := true, fires := false }
      else if s.triggerSeenMtime = some mtime then { state := s, saved := false, fires := false }
      else if inWindow s now cooldown then { state := s, saved := false, fires := false }
      else if s.runningTaskId.isSome then
        { state := takeEdge job { s with triggerSeenMtime := some mtime }
          saved := true
          fires := false }
      else
        { state := { s with triggerSeenMtime := some mtime }, saved := true, fires := true }

/-- `_eval_body_trigger`. -/
def evalBodyTrigger (job : ResolvedJob) (s : Row) (now cooldown : Int) (held : Bool) : Verdict :=
  if !held then
    if s.triggerHeld then
      { state := { s with triggerHeld := false }, saved := true, fires := false }
    else { state := s, saved := false, fires := false }
  else if s.triggerHeld then { state := s, saved := false, fires := false }
  else if inWindow s now cooldown then { state := s, saved := false, fires := false }
  else if s.runningTaskId.isSome then
    { state := takeEdge job { s with triggerHeld := true }, saved := true, fires := false }
  else { state := { s with triggerHeld := true }, saved := true, fires := true }

/-- The evaluation half of `_tick_trigger`. -/
def evalTrigger (cfg : ServiceConfig) (job : ResolvedJob) (t : Trigger) (s : Row) (now : Int)
    (sight : Sight) : Verdict :=
  match t.watch with
  | .file _ => evalFileTrigger job s now (cooldown cfg t) sight.mtime
  | .body _ op value => evalBodyTrigger job s now (cooldown cfg t) (compare sight.current op value)

/-! ### The tick -/

/-- The drift check of `_tick`: the copy to go on with, whether it was saved, and
whether the tick goes on with the job. -/
structure Drift where
  state : Row
  saved : Bool
  goesOn : Bool
deriving DecidableEq, Repr

/-- A hot-edited driver is taken over from an idle job only. -/
def checkDrift (cfg : ServiceConfig) (job : ResolvedJob) (s : Row) (now : Int) : Drift :=
  let key := cfg.driverKey job.driver
  if s.scheduleKey = key then { state := s, saved := false, goesOn := true }
  else if s.scheduleKey = "" then
    { state := { s with scheduleKey := key }, saved := true, goesOn := true }
  else if s.runningTaskId = none then
    match job.driver with
    | .trigger _ =>
        { state := resetTrigger { s with scheduleKey := key }, saved := true, goesOn := true }
    | .schedule sched =>
        { state := { s with scheduleKey := key, nextDueAt := some (nextDue cfg sched now) }
          saved := true
          goesOn := false }
  else { state := s, saved := false, goesOn := true }

/-- The due check of `_tick` for a schedule. -/
def evalSchedule (cfg : ServiceConfig) (job : ResolvedJob) (sched : Schedule) (s : Row)
    (now : Int) : Verdict :=
  match s.nextDueAt with
  | none =>
      { state := { s with nextDueAt := some (nextDue cfg sched now) }, saved := true, fires := false }
  | some due =>
      if now < due then { state := s, saved := false, fires := false }
      else if s.runningTaskId.isSome then
        { state := takeEdge job s, saved := true, fires := false }
      else { state := s, saved := false, fires := true }

/-- The evaluation of a tick, once it goes on with the job. -/
def evalDriver (cfg : ServiceConfig) (job : ResolvedJob) (s : Row) (now : Int) (sight : Sight) :
    Verdict :=
  match job.driver with
  | .trigger t => evalTrigger cfg job t s now sight
  | .schedule sched => evalSchedule cfg job sched s now

/-- Only an idle job fires. -/
theorem idle_of_fires
    {cfg : ServiceConfig} {job : ResolvedJob} {s : Row} {now : Int} {sight : Sight}
    (h : (evalDriver cfg job s now sight).fires = true) :
    s.runningTaskId = none := by
  suffices hidle : (evalDriver cfg job s now sight).fires = true →
      ¬ s.runningTaskId.isSome = true from Option.not_isSome_iff_eq_none.mp (hidle h)
  unfold evalDriver evalTrigger evalFileTrigger evalBodyTrigger evalSchedule
  split
  · split
    · split
      · exact fun h => nomatch h
      · split_ifs <;> first | exact fun _ => ‹¬ s.runningTaskId.isSome = true› | exact fun h => nomatch h
    · split_ifs <;> first | exact fun _ => ‹¬ s.runningTaskId.isSome = true› | exact fun h => nomatch h
  · split
    · exact fun h => nomatch h
    · split_ifs <;> first | exact fun _ => ‹¬ s.runningTaskId.isSome = true› | exact fun h => nomatch h

/-- A save, when there was one. -/
def saveIf (saved : Bool) (s : Row) : List Action :=
  if saved then [.save s .kept] else []

/-- `_tick` for one job, from the row that `ensure` returned.  `_tick_trigger` fires
without the catch-up tag. -/
def tickJob (cfg : ServiceConfig) (job : ResolvedJob) (s : Row) (now : Int) (sight : Sight)
    (catchup : Bool) (launch : Launch) : List Action :=
  if s.disabled then []
  else
    let drift := checkDrift cfg job { s with sourceFile := job.sourceFile } now
    saveIf drift.saved drift.state ++
      if drift.goesOn then
        let verdict := evalDriver cfg job drift.state now sight
        let tagged := !job.isTrigger && catchup
        saveIf verdict.saved verdict.state ++
          if verdict.fires then materialize cfg job verdict.state now tagged false launch else []
      else []

/-- Whether `_tick` discards the job from `_catchup_pending`: on reseeding a hot-edited
schedule and after a scheduled fire. -/
def tickDropsCatchup (cfg : ServiceConfig) (job : ResolvedJob) (s : Row) (now : Int)
    (sight : Sight) : Bool :=
  let drift := checkDrift cfg job { s with sourceFile := job.sourceFile } now
  !s.disabled && !job.isTrigger &&
    (!drift.goesOn || (evalDriver cfg job drift.state now sight).fires)

/-! ### Completion -/

/-- What `_finalize` makes of a finished task. -/
structure Finish where
  taskId : String
  ok : Bool
  summary : String := ""
deriving DecidableEq, Repr

/-- `max_consecutive_failures`, 3 for a removed job. -/
def maxFailures (job : Option ResolvedJob) : Int :=
  (job.map ResolvedJob.maxConsecutiveFailures).getD 3

/-- The outcome part of `_finalize`. -/
def applyOutcome (job : Option ResolvedJob) (s : Row) (now : Int) (fin : Finish) : Row :=
  let s := { s with
    lastSummary := fin.summary
    lastStatus := some (if fin.ok then "ok" else "failed")
    lastFinishedAt := some now
    runningTaskId := none
    runningPlanId := none }
  if fin.ok then { s with consecutiveFailures := 0, disabled := false }
  else
    let failures := s.consecutiveFailures + 1
    if maxFailures job ≤ failures then
      { s with
        consecutiveFailures := failures
        disabled := true
        lastStatus := some "disabled"
        lastSummary := "auto-disabled after " ++ toString failures ++
          " consecutive failures: " ++ s.lastSummary }
    else { s with consecutiveFailures := failures }

/-- The part of `_finalize` that takes over a driver edited during the run. -/
def adoptDriver (cfg : ServiceConfig) (job : Option ResolvedJob) (s : Row) (now : Int) : Row :=
  match job with
  | none => s
  | some job =>
      let key := cfg.driverKey job.driver
      if s.scheduleKey = key then s
      else
        match job.driver with
        | .trigger _ => resetTrigger { s with scheduleKey := key }
        | .schedule sched =>
            { s with scheduleKey := key, nextDueAt := some (nextDue cfg sched now) }

/-- The row that `_finalize` saves under its lock. -/
def finalizedRow (cfg : ServiceConfig) (job : Option ResolvedJob) (s : Row) (now : Int)
    (fin : Finish) : Row :=
  adoptDriver cfg job (applyOutcome job s now fin) now

/-- `_finalize` from the row it re-reads under its lock; `later` is the clock of the
queued re-fire. -/
def finalize (cfg : ServiceConfig) (job : Option ResolvedJob) (fresh : Row) (now later : Int)
    (fin : Finish) (launch : Launch) : List Action :=
  if fresh.runningTaskId = some fin.taskId then
    let s := finalizedRow cfg job fresh now fin
    [.save s (.finalized fin.taskId fin.ok (maxFailures job)), .unlock, .deliver fin.taskId] ++
      match job with
      | none => [.drop]
      | some job =>
          if s.queuedDue && !s.disabled then
            let s := { s with queuedDue := false }
            .save s .kept :: materialize cfg job s later false false launch
          else []
  else [.unlock]

/-- A task record that `_reconcile_running` does not find. -/
def loseTask (s : Row) : List Action :=
  match s.runningTaskId with
  | none => []
  | some taskId =>
      [.save { s with
        runningTaskId := none
        runningPlanId := none
        lastStatus := some "failed"
        lastSummary := "task record lost during restart" } (.lost taskId)]

/-- `run_now` from the row that `ensure` returned. -/
def runNow (cfg : ServiceConfig) (job : ResolvedJob) (s : Row) (now : Int) (launch : Launch) :
    List Action :=
  if s.runningTaskId.isSome then [] else materialize cfg job s now false true launch

/-- `record_turn_delivery`. -/
def recordTurnDelivery (s : Row) (today : String) : List Action :=
  let s := if s.turnDate = today then s else { s with turnDate := today, turnCount := 0 }
  [.save { s with turnCount := s.turnCount + 1 } (.billed today)]

/-- `_boot_pass` for one job: a missed due time is caught up once or reseeded. -/
def bootPass (cfg : ServiceConfig) (job : ResolvedJob) (s : Row) (now : Int) :
    List Action × Bool :=
  match job.driver, s.nextDueAt with
  | .schedule sched, some due =>
      if now ≤ due || s.disabled then ([], false)
      else
        match job.catchup with
        | .once => ([], true)
        | .skip => ([.save { s with nextDueAt := some (nextDue cfg sched now) } .kept], false)
  | _, _ => ([], false)

/-- The row in the store after the saves of a list of actions. -/
def lastSaved (s : Row) : List Action → Row
  | [] => s
  | .save row _ :: rest => lastSaved row rest
  | _ :: rest => lastSaved s rest

section LastSaved

variable {α : Type} {f : Row → α} {s s' : Row}

/-- The last saved row looks the same from rows that do. -/
theorem lastSaved_congr
    (h : f s = f s')
    (actions : List Action) :
    f (lastSaved s actions) = f (lastSaved s' actions) := by
  induction actions generalizing s s' with
  | nil => exact h
  | cons a rest ih =>
      cases a with
      | save row note => rfl
      | _ => exact ih h

/-- A save that is left out has changed nothing that is looked at. -/
theorem lastSaved_saveIf
    {saved : Bool} {x : Row}
    (h : saved = false → f x = f s)
    (rest : List Action) :
    f (lastSaved s (saveIf saved x ++ rest)) = f (lastSaved x rest) := by
  cases saved with
  | true => rfl
  | false => exact lastSaved_congr (h rfl).symm rest

end LastSaved

/-! ### Driver texts -/

section DriverTexts

open JsonText

def Op.text : Op → String
  | .gt => ">"
  | .ge => ">="
  | .lt => "<"
  | .le => "<="
  | .eq => "=="
  | .ne => "!="

def jsonText (s : String) : Scalar Int := .str s.toList

def BodyValue.json : BodyValue → Scalar Int
  | .num n => .float n
  | .flag b => .bool b
  | .text s => jsonText s
  | .other => .null

def jsonSeconds : Option Int → Scalar Int
  | none => .null
  | some n => .float n

/-- The members of `model_dump_json` of a schedule or trigger. -/
def Driver.members : Driver → List (List Char × Scalar Int)
  | .schedule (.cron expr) =>
      [("cron".toList, jsonText expr), ("every_seconds".toList, .null), ("at_daily".toList, .null)]
  | .schedule (.everySeconds seconds) =>
      [("cron".toList, .null), ("every_seconds".toList, .float seconds), ("at_daily".toList, .null)]
  | .schedule (.atDaily time) =>
      [("cron".toList, .null), ("every_seconds".toList, .null), ("at_daily".toList, jsonText time)]
  | .trigger ⟨.file path, cooldown⟩ =>
      [("type".toList, jsonText "file"), ("path".toList, jsonText path), ("field".toList, .null),
        ("op".toList, .null), ("value".toList, .null),
        ("cooldown_seconds".toList, jsonSeconds cooldown)]
  | .trigger ⟨.body field op value, cooldown⟩ =>
      [("type".toList, jsonText "body"), ("path".toList, .null), ("field".toList, jsonText field),
        ("op".toList, jsonText op.text), ("value".toList, value.json),
        ("cooldown_seconds".toList, jsonSeconds cooldown)]

/-- `_driver_key` over whole seconds. -/
def driverText (d : Driver) : String := String.ofList (writeObject wholeSeconds d.members)

theorem BodyValue.json_injective : Function.Injective BodyValue.json := by
  intro a b h
  cases a <;> cases b <;> simp_all [BodyValue.json, jsonText, String.toList_inj]

theorem jsonSeconds_injective : Function.Injective jsonSeconds := by
  intro a b h
  cases a <;> cases b <;> simp_all [jsonSeconds]

theorem Op.text_injective : Function.Injective Op.text := by
  intro a b h
  cases a <;> cases b <;> first | rfl | simp [Op.text] at h

theorem Driver.members_injective : Function.Injective Driver.members := by
  intro d e h
  rcases d with (_ | _ | _) | ⟨_ | _, _⟩ <;> rcases e with (_ | _ | _) | ⟨_ | _, _⟩ <;>
    simp_all [Driver.members, jsonText, String.toList_inj, BodyValue.json_injective.eq_iff,
      jsonSeconds_injective.eq_iff, Op.text_injective.eq_iff]

theorem driverText_injective : Function.Injective driverText := by
  intro d e h
  have hwritten : writeObject wholeSeconds d.members = writeObject wholeSeconds e.members :=
    String.ofList_injective h
  have hread := congrArg (loads wholeSeconds) hwritten
  rw [loads_writeObject, loads_writeObject] at hread
  have hmembers : d.members.map (fun m => (m.1, Value.scalar m.2)) =
      e.members.map fun m => (m.1, Value.scalar m.2) := Value.obj.inj (Option.some.inj hread)
  have hpair : Function.Injective fun m : List Char × Scalar Int => (m.1, Value.scalar m.2) := by
    rintro ⟨k, v⟩ ⟨k', v'⟩ hm
    simpa using hm
  exact Driver.members_injective (List.map_injective_iff.mpr hpair hmembers)

theorem driverText_ne_empty (d : Driver) : driverText d ≠ "" := by
  intro h
  have hnil : writeObject wholeSeconds d.members = [] := by
    simpa [driverText] using congrArg String.toList h
  rcases d with (_ | _ | _) | ⟨_ | _, _⟩ <;> simp [Driver.members, writeObject] at hnil

/-- Ten ticks between runs at least; wall-clock schedules fire every hundred. -/
def tenTicks : ServiceConfig where
  minIntervalSeconds := 10
  minInterval_nonneg := by decide
  wallClock _ base := base + 100
  driverKey := driverText
  driverKey_injective := driverText_injective
  driverKey_ne_empty := driverText_ne_empty

end DriverTexts

end Cron
end DiploidAgent
