import DiploidAgent.Cron.OwedFire

/-!
# Overlap policy

A schedule job as atomic ticks, completions and manual runs move it under a clock
that does not go back, from no row or from a stored row of an idle job.  Beside
the state of the service the history keeps the slots that ticks fire, the ends of
the runs, and the due slots that a tick meets while a run is in flight.

A tick that meets a due slot marks the job `skipped` and leaves `next_due_at` where
it is, so the first tick after the run fires the slot late; a slot that comes due
between the last tick and the end of the run is not marked at all, under either
policy.  The policy holds along a run exactly when no slot comes due before the end
of a run (`skip`), or when every slot that does is queued by then and `_finalize`
may fire it (`queue`).
-/

namespace DiploidAgent
namespace Cron
namespace OverlapPolicy

open Triggers Runs

section Model

/-- A slot that a tick fires: its due time, and when the run before it ended. -/
structure Fire where
  due : Option Int
  ended : Option Int
deriving DecidableEq, Repr

/-- The end of a run: the slot the row waits for, and the fires of `_finalize`. -/
structure RunEnd where
  time : Int
  due : Option Int
  fires : Nat
deriving DecidableEq, Repr

/-- A tick that meets a due slot while a run is in flight, and the row it leaves. -/
structure Meeting where
  now : Int
  due : Option Int
  after : Row
deriving DecidableEq, Repr

structure State where
  service : Triggers.State
  ended : Option Int := none
  fires : List Fire := []
  ends : List RunEnd := []
  met : List Meeting := []

def start (job : ResolvedJob) (row : Option Row) (clock : Int) : State where
  service := { job := job, row := row, clock := clock }

inductive Label where
  | tick (now : Int) (answer : Answer) (launch : Launch)
  | completed (fin : Finish) (done later : Int) (launch : Launch)
  | runNow (now : Int) (launch : Launch)

/-- The tasks that a list of actions adds to the plan. -/
def adds (actions : List Action) : Nat :=
  actions.countP fun a =>
    match a with
    | .add _ => true
    | _ => false

/-- `_finalize` ends the run of its task. -/
def endRun (cfg : ServiceConfig) (st : State) (s : Row) (fin : Finish) (done later : Int)
    (launch : Launch) : State :=
  if s.runningTaskId = some fin.taskId then
    { st with
      ended := some done
      ends :=
        { time := done
          due := s.nextDueAt
          fires := adds (finalize cfg (some st.service.job) s done later fin launch) } :: st.ends }
  else st

/-- The boot pass and the reconcile pass of a tick. -/
def answerTick (cfg : ServiceConfig) (st : State) (now : Int) (answer : Answer) : Option State :=
  let st := { st with service := { boot cfg st.service now with clock := now } }
  (reconcile cfg st.service now answer).map fun service =>
    match st.service.row, answer with
    | some s, .finished fin done later launch =>
        { endRun cfg st s fin done later launch with service := service }
    | _, _ => { st with service := service }

/-- A tick meets a due slot of a job whose run is in flight. -/
def meets (job : ResolvedJob) (s : Row) (now : Int) : Bool :=
  job.enabled && !s.disabled && s.runningTaskId.isSome && s.nextDueAt.any fun due => due ≤ now

/-- The job's turn in the loop of `_tick`. -/
def evaluateTick (cfg : ServiceConfig) (jobId : String) (st : State) (now : Int)
    (launch : Launch) : State :=
  let job := st.service.job
  let s := st.service.ensured jobId now
  let actions := tickJob cfg job s now {} st.service.catchup launch
  { st with
    service := evaluate cfg jobId st.service now {} launch
    fires :=
      if job.enabled && 0 < adds actions then
        { due := s.nextDueAt, ended := st.ended } :: st.fires
      else st.fires
    met :=
      if meets job s now then
        { now := now, due := s.nextDueAt, after := lastSaved s actions } :: st.met
      else st.met }

/-- One atomic step; the clock does not go back. -/
def step (cfg : ServiceConfig) (jobId : String) (st : State) : Label → Option State
  | .tick now answer launch =>
      if st.service.clock ≤ now then
        (answerTick cfg st now answer).map fun st => evaluateTick cfg jobId st now launch
      else none
  | .completed fin done later launch =>
      (Triggers.step cfg jobId st.service (.completed fin done later launch)).map fun service =>
        match st.service.row with
        | none => { st with service := service }
        | some s => { endRun cfg st s fin done later launch with service := service }
  | .runNow now launch =>
      (Triggers.step cfg jobId st.service (.runNow now launch)).map fun service =>
        { st with service := service }

end Model

section Claim

/-- A row that a job starts from: no run is in flight, and it waits for a slot once
it has the driver of the job. -/
def Stored (cfg : ServiceConfig) (job : ResolvedJob) (row : Option Row) : Prop :=
  ∀ s, row = some s → s.runningTaskId = none ∧
    (s.scheduleKey = cfg.driverKey job.driver → s.nextDueAt.isSome = true)

/-- The row waits for a slot after `now`. -/
def Advanced (s : Row) (now : Int) : Prop := ∃ due, s.nextDueAt = some due ∧ now < due

/-- The overlap policy: no tick fires a slot that was due before the end of the run
before it.  Under `skip` a tick meets every slot that comes due before the end of a
run, the slot is recorded and the schedule advances, and no end of a run fires.
Under `queue` the end of a run fires once if a slot came due before, and not if
none did. -/
structure Overlaps (st : State) : Prop where
  slots : ∀ f ∈ st.fires, ∀ due e, f.due = some due → f.ended = some e → e ≤ due
  skipped : st.service.job.overlap = .skip → ∀ m ∈ st.met,
    m.after.lastStatus = some "skipped" ∧ Advanced m.after m.now
  noticed : st.service.job.overlap = .skip → ∀ e ∈ st.ends, ∀ due, e.due = some due →
    due < e.time → ∃ m ∈ st.met, m.due = some due
  ticksOnly : st.service.job.overlap = .skip → ∀ e ∈ st.ends, e.fires = 0
  owed : st.service.job.overlap = .queue → ∀ e ∈ st.ends, ∀ due, e.due = some due →
    (due < e.time → e.fires = 1) ∧ (e.time < due → e.fires = 0)

/-- The end of a run that leaves the job auto-disabled. -/
def endsDisabled (job : ResolvedJob) (s : Row) (fin : Finish) : Bool :=
  !fin.ok && (s.disabled || decide (job.maxConsecutiveFailures ≤ s.consecutiveFailures + 1))

/-- A run ends before its slot comes due, or the slot is queued and may be fired. -/
def endsInTime (job : ResolvedJob) (s : Row) (fin : Finish) (done : Int) (launch : Launch) :
    Bool :=
  s.runningTaskId != some fin.taskId || s.nextDueAt.all (fun due => done ≤ due) ||
    (job.overlap == .queue && s.queuedDue && !endsDisabled job s fin && launch.added.isSome)

/-- Whether the run that the reconcile pass of a tick finds finished ends in time. -/
def answersInTime (cfg : ServiceConfig) (st : State) (now : Int) (answer : Answer) : Bool :=
  match (boot cfg st.service now).row, answer with
  | some s, .finished fin done _ launch => endsInTime st.service.job s fin done launch
  | _, _ => true

/-- The condition: runs end in time, and under `skip` no tick meets a due slot. -/
def inTime (cfg : ServiceConfig) (jobId : String) (st : State) : Label → Bool
  | .tick now answer _ =>
      answersInTime cfg st now answer &&
      (st.service.job.overlap == .queue ||
        (answerTick cfg st now answer).all fun st =>
          !meets st.service.job (st.service.ensured jobId now) now)
  | .completed fin done _ launch =>
      st.service.row.all fun s => endsInTime st.service.job s fin done launch
  | .runNow _ _ => true

end Claim

section Rows

variable {cfg : ServiceConfig} {job : ResolvedJob} {sched : Schedule} {s : Row} {now : Int}

/-- What the policy reads of a row. -/
structure Slot where
  running : Bool
  queued : Bool
  key : String
  due : Option Int
deriving DecidableEq, Repr

def slot (s : Row) : Slot where
  running := s.runningTaskId.isSome
  queued := s.queuedDue
  key := s.scheduleKey
  due := s.nextDueAt

theorem adds_append
    (as bs : List Action) :
    adds (as ++ bs) = adds as + adds bs :=
  List.countP_append

theorem adds_saveIf
    (saved : Bool) (s : Row) :
    adds (saveIf saved s) = 0 := by
  cases saved <;> rfl

theorem adds_materialize
    (catchup manual : Bool) (launch : Launch) :
    adds (materialize cfg job s now catchup manual launch) =
      if launch.added.isSome then 1 else 0 := by
  obtain ⟨added, startError⟩ := launch
  cases added with
  | none => rfl
  | some taskId => cases startError <;> rfl

/-- The row of a schedule job after `_materialize`. -/
theorem slot_materialize
    (hdriver : job.driver = .schedule sched)
    (catchup manual : Bool) (launch : Launch) :
    slot (lastSaved s (materialize cfg job s now catchup manual launch)) =
      if launch.added.isSome then
        { running := launch.startError.isNone
          queued := false
          key := s.scheduleKey
          due := if manual then s.nextDueAt else some (nextDue cfg sched now) }
      else slot s := by
  obtain ⟨added, startError⟩ := launch
  cases added with
  | none => rfl
  | some taskId =>
      cases startError <;> cases manual <;> cases catchup <;>
        simp [materialize, lastSaved, slot, hdriver]

/-- The key a tick leaves: a row without one is stamped. -/
def Stamped (cfg : ServiceConfig) (job : ResolvedJob) (s : Row) (key : String) : Prop :=
  key = s.scheduleKey ∨ (s.scheduleKey = "" ∧ key = cfg.driverKey job.driver)

/-- What a tick of an enabled schedule job may do: the slot of the row it leaves, and
the tasks it adds. -/
inductive Ticked (cfg : ServiceConfig) (job : ResolvedJob) (sched : Schedule) (s : Row)
    (now : Int) : Slot → Nat → Prop
  | waits (key : String) (hkey : Stamped cfg job s key) (hdue : s.nextDueAt.isSome = true) :
      Ticked cfg job sched s now { slot s with key := key } 0
  | seeds (key : String) (hkey : Stamped cfg job s key) (hdue : s.nextDueAt = none) :
      Ticked cfg job sched s now
        { slot s with
          key := key
          due := some (nextDue cfg sched now) } 0
  | reseeds (hkey : s.scheduleKey ≠ cfg.driverKey job.driver) (hidle : s.runningTaskId = none) :
      Ticked cfg job sched s now
        { slot s with
          key := cfg.driverKey job.driver
          due := some (nextDue cfg sched now) } 0
  | meets (key : String) (hkey : Stamped cfg job s key) (due : Int)
      (hdue : s.nextDueAt = some due) (hle : due ≤ now) :
      Ticked cfg job sched s now
        { slot s with
          key := key
          queued := s.queuedDue || job.overlap == .queue } 0
  | fires (key : String) (hkey : Stamped cfg job s key) (due : Int)
      (hdue : s.nextDueAt = some due) (hle : due ≤ now) (hidle : s.runningTaskId = none)
      (running : Bool) :
      Ticked cfg job sched s now
        { running := running
          queued := false
          key := key
          due := some (nextDue cfg sched now) } 1

/-- The drift check of a schedule job. -/
theorem checkDrift_schedule
    (cfg : ServiceConfig) (s : Row) (now : Int)
    (hdriver : job.driver = .schedule sched) :
    (∃ key, Stamped cfg job s key ∧
      (checkDrift cfg job s now).state = { s with scheduleKey := key } ∧
      (checkDrift cfg job s now).goesOn = true) ∨
    (s.scheduleKey ≠ cfg.driverKey job.driver ∧ s.runningTaskId = none ∧
      (checkDrift cfg job s now).state = { s with
        scheduleKey := cfg.driverKey job.driver
        nextDueAt := some (nextDue cfg sched now) } ∧
      (checkDrift cfg job s now).goesOn = false) := by
  unfold checkDrift
  dsimp only
  split_ifs with hkey hempty hidle
  · exact Or.inl ⟨s.scheduleKey, Or.inl rfl, rfl, rfl⟩
  · exact Or.inl ⟨_, Or.inr ⟨hempty, rfl⟩, rfl, rfl⟩
  · rw [hdriver]
    exact Or.inr ⟨by rw [← hdriver]; exact hkey, hidle, rfl, rfl⟩
  · exact Or.inl ⟨s.scheduleKey, Or.inl rfl, rfl, rfl⟩

/-- The due check of a row whose key the drift check left. -/
theorem ticked_evalSchedule
    {key : String} {x : Row} {verdict : Verdict}
    (hdriver : job.driver = .schedule sched)
    (hkey : Stamped cfg job s key)
    (hx : { s with
      sourceFile := job.sourceFile
      scheduleKey := key } = x)
    (hverdict : evalSchedule cfg job sched x now = verdict)
    (catchup : Bool) (launch : Launch) :
    let rest := saveIf verdict.saved verdict.state ++
      if verdict.fires then materialize cfg job verdict.state now catchup false launch else []
    Ticked cfg job sched s now (slot (lastSaved x rest)) (adds rest) := by
  have hslot : slot x = { slot s with key := key } := by
    subst hx
    rfl
  have hdue : x.nextDueAt = s.nextDueAt := by
    subst hx
    rfl
  have hrun : x.runningTaskId = s.runningTaskId := by
    subst hx
    rfl
  unfold evalSchedule at hverdict
  split at hverdict
  · rename_i hnone
    subst hverdict hx
    exact Ticked.seeds key hkey hnone
  · rename_i due hsome
    rw [hsome] at hdue
    have hwaits : Ticked cfg job sched s now (slot x) 0 := by
      rw [hslot]
      exact Ticked.waits key hkey (Option.isSome_of_eq_some hdue.symm)
    split_ifs at hverdict with hwait hflight
    · subst hverdict
      exact hwaits
    · have hmeets : Ticked cfg job sched s now _ 0 :=
        Ticked.meets key hkey due hdue.symm (Int.not_lt.mp hwait)
      subst hverdict hx
      have hskip : (Overlap.skip == Overlap.queue) = false := rfl
      cases hoverlap : job.overlap with
      | skip => simpa [takeEdge, hoverlap, hskip, saveIf, lastSaved, slot, adds] using hmeets
      | queue => simpa [takeEdge, hoverlap, saveIf, lastSaved, slot, adds] using hmeets
    · have hidle : s.runningTaskId = none := hrun ▸ Option.not_isSome_iff_eq_none.mp hflight
      subst hverdict
      dsimp only [saveIf]
      rw [if_neg Bool.false_ne_true, if_pos rfl, List.nil_append, slot_materialize hdriver,
        adds_materialize]
      simp only [Bool.false_eq_true, if_false]
      split_ifs
      · subst hx
        exact Ticked.fires key hkey due hdue.symm (Int.not_lt.mp hwait) hidle _
      · exact hwaits

/-- One tick of an enabled schedule job that is not auto-disabled. -/
theorem ticked_tickJob
    (hdriver : job.driver = .schedule sched)
    (hdis : s.disabled = false)
    (catchup : Bool) (launch : Launch) :
    Ticked cfg job sched s now
      (slot (lastSaved s (tickJob cfg job s now {} catchup launch)))
      (adds (tickJob cfg job s now {} catchup launch)) := by
  have hsaved : (checkDrift cfg job { s with sourceFile := job.sourceFile } now).saved = false →
      slot (checkDrift cfg job { s with sourceFile := job.sourceFile } now).state = slot s := by
    intro h
    rw [checkDrift_unsaved h]
    rfl
  rw [tickJob, if_neg (by simp [hdis])]
  dsimp only
  rw [lastSaved_saveIf hsaved, adds_append, adds_saveIf, Nat.zero_add]
  rcases checkDrift_schedule cfg { s with sourceFile := job.sourceFile } now hdriver with
    ⟨key, hkey, hstate, hgoes⟩ | ⟨hkey, hidle, hstate, hgoes⟩
  · rw [hgoes, if_pos rfl, hstate]
    have heval : ∀ x, evalDriver cfg job x now {} = evalSchedule cfg job sched x now := by
      intro x
      rw [evalDriver, hdriver]
    rw [heval]
    exact ticked_evalSchedule (s := s) hdriver hkey rfl rfl _ launch
  · rw [hgoes, if_neg Bool.false_ne_true, hstate]
    exact Ticked.reseeds hkey hidle

variable {fin : Finish} {done later : Int} {launch : Launch}

theorem slot_applyOutcome
    (job : Option ResolvedJob) (s : Row) (done : Int) (fin : Finish) :
    slot (applyOutcome job s done fin) = { slot s with running := false } := by
  unfold applyOutcome
  dsimp only
  split_ifs <;> rfl

/-- The row that `_finalize` saves has the driver of the job. -/
theorem slot_finalizedRow
    (hdriver : job.driver = .schedule sched) :
    slot (finalizedRow cfg (some job) s done fin) =
      { running := false
        queued := s.queuedDue
        key := cfg.driverKey job.driver
        due :=
          if s.scheduleKey = cfg.driverKey job.driver then s.nextDueAt
          else some (nextDue cfg sched done) } := by
  have hout := slot_applyOutcome (some job) s done fin
  have hkey : (applyOutcome (some job) s done fin).scheduleKey = s.scheduleKey :=
    congrArg Slot.key hout
  unfold finalizedRow adoptDriver
  dsimp only
  rw [hkey]
  split_ifs with hsame
  · rw [hout]
    simp [slot, hsame]
  · rw [hdriver]
    have hqueued : (applyOutcome (some job) s done fin).queuedDue = s.queuedDue :=
      congrArg Slot.queued hout
    have hrunning : (applyOutcome (some job) s done fin).runningTaskId.isSome = false :=
      congrArg Slot.running hout
    simp [slot, hqueued, hrunning]

/-- The end of a run that is queued and leaves the job enabled fires once. -/
theorem adds_finalize
    (hrun : s.runningTaskId = some fin.taskId)
    (hdriver : job.driver = .schedule sched) :
    adds (finalize cfg (some job) s done later fin launch) =
      if s.queuedDue && !endsDisabled job s fin && launch.added.isSome then 1 else 0 := by
  have hqueued : (finalizedRow cfg (some job) s done fin).queuedDue = s.queuedDue :=
    congrArg Slot.queued (slot_finalizedRow hdriver)
  have hdis : (finalizedRow cfg (some job) s done fin).disabled = endsDisabled job s fin :=
    OwedFire.disabled_finalizedRow job s fin done
  have hrefire : adds (finalize cfg (some job) s done later fin launch) =
      adds (refire cfg job (finalizedRow cfg (some job) s done fin) later launch) := by
    rw [finalize_of_running hrun, adds_append]
    exact Nat.zero_add _
  rw [hrefire, refire, hqueued, hdis]
  by_cases hfires : (s.queuedDue && !endsDisabled job s fin) = true
  · rw [if_pos hfires, hfires, Bool.true_and]
    exact adds_materialize false false launch
  · rw [if_neg hfires, eq_false_of_ne_true hfires]
    rfl

/-- The row after the end of a run: it waits for the slot after a fire that it made,
or for the slot that it waited for. -/
theorem slot_finalize
    (hrun : s.runningTaskId = some fin.taskId)
    (hdriver : job.driver = .schedule sched) :
    ∃ v, slot (lastSaved s (finalize cfg (some job) s done later fin launch)) = v ∧
      v.key = cfg.driverKey job.driver ∧ (v.running = true → v.queued = false) ∧
      (v.due = some (nextDue cfg sched later) ∨
        (adds (finalize cfg (some job) s done later fin launch) = 0 ∧
          v.due = if s.scheduleKey = cfg.driverKey job.driver then s.nextDueAt
            else some (nextDue cfg sched done))) := by
  generalize hx : finalizedRow cfg (some job) s done fin = x
  have hslot : slot x = _ := hx ▸ slot_finalizedRow hdriver
  have hactions : finalize cfg (some job) s done later fin launch =
      [.save x (.finalized fin.taskId fin.ok (maxFailures (some job))), .unlock,
        .deliver fin.taskId] ++ refire cfg job x later launch := by
    rw [finalize_of_running hrun, hx]
  have hlast : lastSaved s (finalize cfg (some job) s done later fin launch) =
      lastSaved x (refire cfg job x later launch) := by
    rw [hactions]
    rfl
  have hadds : adds (finalize cfg (some job) s done later fin launch) =
      adds (refire cfg job x later launch) := by
    rw [hactions, adds_append]
    exact Nat.zero_add _
  have hkey : x.scheduleKey = cfg.driverKey job.driver := congrArg Slot.key hslot
  have hidle : x.runningTaskId.isSome = false := congrArg Slot.running hslot
  have hdue : x.nextDueAt = _ := congrArg Slot.due hslot
  rw [hlast, hadds]
  refine ⟨_, rfl, ?_⟩
  unfold refire
  by_cases hfires : (x.queuedDue && !x.disabled) = true
  · rw [if_pos hfires, lastSaved, slot_materialize hdriver]
    cases hadded : launch.added with
    | some taskId =>
        rw [Option.isSome_some, if_pos rfl]
        exact ⟨hkey, fun _ => rfl, Or.inl rfl⟩
    | none =>
        rw [Option.isSome_none, if_neg Bool.false_ne_true]
        refine ⟨hkey, fun _ => rfl, Or.inr ⟨?_, hdue⟩⟩
        rw [materialize, hadded]
        rfl
  · rw [if_neg hfires]
    refine ⟨hkey, fun hrunning => ?_, Or.inr ⟨rfl, hdue⟩⟩
    exact absurd (hidle.symm.trans hrunning) Bool.false_ne_true

end Rows

section Invariant

variable {cfg : ServiceConfig} {job : ResolvedJob} {sched : Schedule}

/-- `_next_due` does not lead back. -/
def Forward (cfg : ServiceConfig) (sched : Schedule) : Prop :=
  ∀ base, base ≤ nextDue cfg sched base

/-- An interval is at least the floor of the config, which is not negative. -/
theorem forward_of_floor
    (hfloor : ∀ seconds, sched = .everySeconds seconds → cfg.minIntervalSeconds ≤ seconds)
    (hwall : ∀ sched base, base ≤ cfg.wallClock sched base) :
    Forward cfg sched := by
  intro base
  cases sched with
  | everySeconds seconds =>
      have hmin := cfg.minInterval_nonneg
      have hseconds := hfloor seconds rfl
      rw [nextDue]
      omega
  | atDaily time => exact hwall _ base
  | cron expr => exact hwall _ base

/-- A run in flight that owes a fire has a slot that came due, the slot the row waits
for is not before the end of the last run, and a row with the driver of the job waits
for one. -/
structure SlotKept (cfg : ServiceConfig) (job : ResolvedJob) (ended : Option Int) (clock : Int)
    (v : Slot) : Prop where
  owed : v.running = true → v.queued = true →
    job.overlap = .queue ∧ ∃ due, v.due = some due ∧ due ≤ clock
  spaced : ∀ due e, v.due = some due → ended = some e → e ≤ due
  waiting : v.key = cfg.driverKey job.driver → v.due.isSome = true

structure Kept (cfg : ServiceConfig) (job : ResolvedJob) (st : State) : Prop where
  same : st.service.job = job
  ended : ∀ e, st.ended = some e → e ≤ st.service.clock
  row : ∀ s, st.service.row = some s → SlotKept cfg job st.ended st.service.clock (slot s)
  unbooted : ∀ s, st.service.row = some s → st.service.booted = false →
    s.runningTaskId.isSome = true → s.queuedDue = false
  unmet : job.overlap = .skip → st.met = []

variable {ended : Option Int} {clock now : Int} {v v' : Slot}

theorem SlotKept.later
    {clock' : Int}
    (h : SlotKept cfg job ended clock v)
    (hclock : clock ≤ clock') :
    SlotKept cfg job ended clock' v := by
  refine ⟨fun hrun hqueued => ?_, h.spaced, h.waiting⟩
  obtain ⟨hoverlap, due, hdue, hle⟩ := h.owed hrun hqueued
  exact ⟨hoverlap, due, hdue, Int.le_trans hle hclock⟩

/-- A slot of the same key and due time that does not come to owe a fire. -/
theorem SlotKept.of_free
    (h : SlotKept cfg job ended clock v)
    (hfree : v'.running = true → v'.queued = false)
    (hkey : v'.key = v.key) (hdue : v'.due = v.due) :
    SlotKept cfg job ended clock v' := by
  refine ⟨fun hrun hqueued => ?_, fun due e hd => ?_, fun hk => ?_⟩
  · exact absurd ((hfree hrun).symm.trans hqueued) Bool.false_ne_true
  · exact h.spaced due e (hdue.symm.trans hd)
  · rw [hdue]
    exact h.waiting (hkey.symm.trans hk)

/-- A slot that waits for a time after the end of the last run. -/
theorem slotKept_of_due
    {due : Int}
    (hfree : v.running = true → v.queued = false)
    (hdue : v.due = some due)
    (hspaced : ∀ e, ended = some e → e ≤ due) :
    SlotKept cfg job ended clock v := by
  refine ⟨fun hrun hqueued => ?_, fun due' e hd he => ?_, fun _ => ?_⟩
  · exact absurd ((hfree hrun).symm.trans hqueued) Bool.false_ne_true
  · obtain rfl := Option.some.inj (hdue.symm.trans hd)
    exact hspaced e he
  · rw [hdue]
    rfl

/-- A row that `ensure` creates. -/
theorem slotKept_fresh
    (jobId sourceFile : String) (now : Int) :
    SlotKept cfg job ended clock (slot (freshState jobId sourceFile now)) := by
  refine ⟨fun hrun => (nomatch hrun), fun _ _ hdue => (nomatch hdue), fun hkey => ?_⟩
  exact absurd hkey.symm (cfg.driverKey_ne_empty job.driver)

theorem slotKept_ensured
    {st : State}
    (h : Kept cfg job st)
    (jobId : String) (now : Int) :
    SlotKept cfg job st.ended st.service.clock (slot (st.service.ensured jobId now)) := by
  unfold State.ensured
  cases hrow : st.service.row with
  | none => exact slotKept_fresh jobId _ now
  | some s => exact h.row s hrow

/-- What a tick of an enabled job keeps, when the last run ended before the tick or
the row has the driver of the job. -/
theorem SlotKept.ticked
    {s : Row} {n : Nat}
    (h : SlotKept cfg job ended clock (slot s))
    (hforward : Forward cfg sched)
    (hnow : now ≤ clock)
    (hended : (∀ e, ended = some e → e ≤ now) ∨ s.scheduleKey = cfg.driverKey job.driver)
    (hticked : Ticked cfg job sched s now v n) :
    SlotKept cfg job ended clock v := by
  cases hticked with
  | waits key hkey hdue => exact ⟨h.owed, h.spaced, fun _ => hdue⟩
  | seeds key hkey hdue =>
      refine ⟨fun hrun hqueued => ?_, fun due e hd he => ?_, fun _ => rfl⟩
      · obtain ⟨_, due, hd, _⟩ := h.owed hrun hqueued
        exact nomatch hdue.symm.trans hd
      · have hle : e ≤ now := by
          refine (hended.resolve_right fun hsame => ?_) e he
          have hwaits : s.nextDueAt.isSome = true := h.waiting hsame
          rw [hdue] at hwaits
          exact nomatch hwaits
        obtain rfl := Option.some.inj hd
        exact Int.le_trans hle (hforward now)
  | reseeds hkey hidle =>
      refine slotKept_of_due (fun hrun => ?_) rfl fun e he => ?_
      · have hrun' : s.runningTaskId.isSome = true := hrun
        rw [hidle] at hrun'
        exact nomatch hrun'
      · exact Int.le_trans (hended.resolve_right hkey e he) (hforward now)
  | meets key hkey due hdue hle =>
      refine ⟨fun hrun hqueued => ?_, h.spaced, fun _ => Option.isSome_of_eq_some hdue⟩
      rcases Bool.or_eq_true _ _ ▸ hqueued with hqueued | hqueue
      · exact h.owed hrun hqueued
      · exact ⟨by simpa using hqueue, due, hdue, Int.le_trans hle hnow⟩
  | fires key hkey due hdue hle hidle running =>
      refine slotKept_of_due (fun _ => rfl) rfl fun e he => ?_
      exact Int.le_trans (h.spaced due e hdue he) (Int.le_trans hle (hforward now))

end Invariant

section Steps

variable {cfg : ServiceConfig} {jobId : String} {job : ResolvedJob} {sched : Schedule}
variable {st : State} {s : Row} {now : Int}

/-- The boot pass replaces the due time of an idle row, if it does anything. -/
theorem kept_boot
    (h : Kept cfg job st)
    (hdriver : job.driver = .schedule sched)
    (hforward : Forward cfg sched)
    (hnow : st.service.clock ≤ now) :
    Kept cfg job { st with service := { boot cfg st.service now with clock := now } } := by
  have hended : ∀ e, st.ended = some e → e ≤ now := fun e he =>
    Int.le_trans (h.ended e he) hnow
  unfold boot
  split
  · exact ⟨h.same, hended, fun s hs => (h.row s hs).later hnow, h.unbooted, h.unmet⟩
  · refine ⟨h.same, hended, fun s hs => (h.row s hs).later hnow, ?_, h.unmet⟩
    exact fun _ _ hbooted => nomatch hbooted
  · rename_i s hbooted hrow
    refine ⟨h.same, hended, fun s' hs' => ?_, fun _ _ hno => (nomatch hno), h.unmet⟩
    obtain rfl := Option.some.inj hs'
    have hkept := (h.row s hrow).later hnow
    have hfree := h.unbooted s hrow hbooted
    rw [h.same]
    unfold bootPass
    rw [hdriver]
    cases hdue : s.nextDueAt with
    | none => exact hkept
    | some due =>
        dsimp only
        split_ifs with hwait
        · exact hkept
        · cases job.catchup with
          | once => exact hkept
          | skip =>
              refine slotKept_of_due hfree rfl fun e he => ?_
              exact Int.le_trans (hended e he) (hforward now)

variable {fin : Finish} {done later : Int} {launch : Launch}

/-- The state after `_finalize`. -/
def finished (cfg : ServiceConfig) (st : State) (s : Row) (fin : Finish) (done later : Int)
    (launch : Launch) : State :=
  { endRun cfg st s fin done later launch with
    service := finish cfg st.service s fin done later launch }

theorem finished_of_running
    (hrun : s.runningTaskId = some fin.taskId) :
    finished cfg st s fin done later launch =
      { st with
        service := finish cfg st.service s fin done later launch
        ended := some done
        ends :=
          { time := done
            due := s.nextDueAt
            fires := adds (finalize cfg (some st.service.job) s done later fin launch) } ::
              st.ends } := by
  rw [finished, endRun, if_pos hrun]

theorem finished_of_ne
    (hrun : s.runningTaskId ≠ some fin.taskId) :
    finished cfg st s fin done later launch =
      { st with service := finish cfg st.service s fin done later launch } := by
  rw [finished, endRun, if_neg hrun]

theorem finalize_of_ne
    (job : Option ResolvedJob)
    (hrun : s.runningTaskId ≠ some fin.taskId) :
    finalize cfg job s done later fin launch = [.unlock] := by
  rw [finalize, if_neg hrun]

/-- The end of a run in time keeps the invariant, and leaves the driver of the job. -/
theorem kept_finished
    (h : Kept cfg job st)
    (hdriver : job.driver = .schedule sched)
    (hforward : Forward cfg sched)
    (hrow : st.service.row = some s)
    (hdone : st.service.clock ≤ done) (hlater : done ≤ later)
    (hin : endsInTime job s fin done launch = true) :
    Kept cfg job (finished cfg st s fin done later launch) := by
  by_cases hrun : s.runningTaskId = some fin.taskId
  · obtain ⟨v, hv, hkey, hfree, hdue⟩ :=
      @slot_finalize cfg job sched s fin done later launch hrun hdriver
    rw [finished_of_running hrun]
    refine ⟨h.same, fun e he => ?_, fun s' hs' => ?_, fun s' hs' _ hrunning => ?_, h.unmet⟩
    · obtain rfl := Option.some.inj he
      exact hlater
    · obtain rfl := Option.some.inj hs'
      rw [h.same, hv]
      rcases hdue with hdue | ⟨hadds, hdue⟩
      · refine slotKept_of_due hfree hdue fun e he => ?_
        obtain rfl := Option.some.inj he
        exact Int.le_trans hlater (hforward later)
      · split_ifs at hdue with hsame
        · refine ⟨fun hr hq => ?_, fun due e hd he => ?_, fun _ => ?_⟩
          · exact absurd ((hfree hr).symm.trans hq) Bool.false_ne_true
          · obtain rfl := Option.some.inj he
            have hsome : s.nextDueAt = some due := hdue.symm.trans hd
            rw [adds_finalize hrun hdriver] at hadds
            by_contra hlate
            -- a slot before the end is in time only if it was fired
            simp only [endsInTime, hrun, hsome, bne_self_eq_false, Option.all_some, hlate,
              decide_false, Bool.or_self, Bool.false_or, Bool.and_eq_true] at hin
            simp [hin] at hadds
          · rw [hdue]
            exact (h.row s hrow).waiting hsame
        · refine slotKept_of_due hfree hdue fun e he => ?_
          obtain rfl := Option.some.inj he
          exact hforward _
    · obtain rfl := Option.some.inj hs'
      rw [h.same] at hrunning ⊢
      have hq := hfree (by rw [← hv]; exact hrunning)
      rw [← hv] at hq
      exact hq
  · rw [finished_of_ne hrun]
    have hkeep : lastSaved s (finalize cfg (some st.service.job) s done later fin launch) = s := by
      rw [finalize_of_ne _ hrun]
      rfl
    refine ⟨h.same, fun e he => ?_, fun s' hs' => ?_, fun s' hs' hbooted => ?_, h.unmet⟩
    · exact Int.le_trans (h.ended e he) (Int.le_trans hdone hlater)
    · obtain rfl := Option.some.inj hs'
      rw [hkeep]
      exact (h.row s hrow).later (Int.le_trans hdone hlater)
    · obtain rfl := Option.some.inj hs'
      rw [hkeep]
      exact h.unbooted s hrow hbooted

/-- The end of a run under `skip` fires nothing. -/
theorem adds_of_skip
    {ended : Option Int} {clock : Int}
    (h : SlotKept cfg job ended clock (slot s))
    (hdriver : job.driver = .schedule sched)
    (hrun : s.runningTaskId = some fin.taskId)
    (hskip : job.overlap = .skip) :
    adds (finalize cfg (some job) s done later fin launch) = 0 := by
  have hqueued : s.queuedDue = false := by
    by_contra hq
    have hqueue := (h.owed (Option.isSome_of_eq_some hrun) (by simpa [slot] using hq)).1
    exact nomatch hskip.symm.trans hqueue
  rw [adds_finalize hrun hdriver, hqueued]
  rfl

/-- Under `queue` the end of a run fires the slots that came due exactly when it is in
time. -/
theorem endsInTime_queue_iff
    {ended : Option Int} {clock : Int}
    (h : SlotKept cfg job ended clock (slot s))
    (hdriver : job.driver = .schedule sched)
    (hrun : s.runningTaskId = some fin.taskId)
    (hqueue : job.overlap = .queue)
    (hdone : clock ≤ done)
    (later : Int) :
    endsInTime job s fin done launch = true ↔
      ∀ due, s.nextDueAt = some due →
        (due < done → adds (finalize cfg (some job) s done later fin launch) = 1) ∧
        (done < due → adds (finalize cfg (some job) s done later fin launch) = 0) := by
  rw [adds_finalize hrun hdriver]
  have hbool : endsInTime job s fin done launch =
      (s.nextDueAt.all (fun due => done ≤ due) ||
        (s.queuedDue && !endsDisabled job s fin && launch.added.isSome)) := by
    simp [endsInTime, hrun, hqueue]
  rw [hbool]
  generalize hn : (s.queuedDue && !endsDisabled job s fin && launch.added.isSome) = fires
  have hpast : fires = true → ∃ due, s.nextDueAt = some due ∧ due ≤ clock := by
    intro hfires
    rw [← hn, Bool.and_eq_true, Bool.and_eq_true] at hfires
    exact (h.owed (Option.isSome_of_eq_some hrun) hfires.1.1).2
  cases hdue : s.nextDueAt with
  | none => simp
  | some due =>
      cases fires with
      | false => simp
      | true =>
          obtain ⟨due', hdue', hle⟩ := hpast rfl
          obtain rfl := Option.some.inj (hdue.symm.trans hdue')
          simp only [Bool.or_true, true_iff, Option.some.injEq, forall_eq', if_true]
          exact ⟨fun _ => trivial, fun hlt => absurd (Int.le_trans hle hdone) (by omega)⟩

/-- Under `skip` a run is in time when it ends before its slot comes due. -/
theorem endsInTime_skip_iff
    (hrun : s.runningTaskId = some fin.taskId)
    (hskip : job.overlap = .skip) :
    endsInTime job s fin done launch = true ↔
      ∀ due, s.nextDueAt = some due → ¬ due < done := by
  have hother : (Overlap.skip == Overlap.queue) = false := rfl
  cases hdue : s.nextDueAt <;> simp [endsInTime, hrun, hskip, hother, hdue]

/-- A run that keeps the policy at its end is in time. -/
theorem endsInTime_of_overlaps
    (h : Kept cfg job st)
    (hdriver : job.driver = .schedule sched)
    (hrow : st.service.row = some s)
    (hdone : st.service.clock ≤ done)
    (hpolicy : Overlaps (finished cfg st s fin done later launch)) :
    endsInTime job s fin done launch = true := by
  by_cases hrun : s.runningTaskId = some fin.taskId
  · rw [finished_of_running hrun] at hpolicy
    obtain rfl := h.same
    cases hoverlap : st.service.job.overlap with
    | skip =>
        refine (endsInTime_skip_iff hrun hoverlap).mpr fun due hdue hlt => ?_
        obtain ⟨m, hm, _⟩ := hpolicy.noticed hoverlap _ (List.mem_cons_self ..) due hdue hlt
        have hm' : m ∈ st.met := hm
        rw [h.unmet hoverlap] at hm'
        exact nomatch hm'
    | queue =>
        refine (endsInTime_queue_iff (h.row s hrow) hdriver hrun hoverlap hdone later).mpr ?_
        exact hpolicy.owed hoverlap _ (List.mem_cons_self ..)
  · simp [endsInTime, hrun]

/-- The end of a run in time keeps the policy. -/
theorem overlaps_finished
    (h : Kept cfg job st)
    (hdriver : job.driver = .schedule sched)
    (hrow : st.service.row = some s)
    (hdone : st.service.clock ≤ done)
    (hin : endsInTime job s fin done launch = true)
    (hpolicy : Overlaps st) :
    Overlaps (finished cfg st s fin done later launch) := by
  by_cases hrun : s.runningTaskId = some fin.taskId
  · rw [finished_of_running hrun]
    obtain rfl := h.same
    have hkept := h.row s hrow
    refine ⟨hpolicy.slots, hpolicy.skipped, fun hskip e he due hdue hlt => ?_,
      fun hskip e he => ?_, fun hqueue e he due hdue => ?_⟩
    · rcases List.mem_cons.mp he with rfl | he
      · exact absurd hlt ((endsInTime_skip_iff hrun hskip).mp hin due hdue)
      · exact hpolicy.noticed hskip e he due hdue hlt
    · rcases List.mem_cons.mp he with rfl | he
      · exact adds_of_skip hkept hdriver hrun hskip
      · exact hpolicy.ticksOnly hskip e he
    · rcases List.mem_cons.mp he with rfl | he
      · exact (endsInTime_queue_iff hkept hdriver hrun hqueue hdone later).mp hin due hdue
      · exact hpolicy.owed hqueue e he due hdue
  · rw [finished_of_ne hrun]
    exact ⟨hpolicy.slots, hpolicy.skipped, hpolicy.noticed, hpolicy.ticksOnly, hpolicy.owed⟩

theorem evaluateTick_off
    (hoff : st.service.job.enabled = false)
    (jobId : String) (now : Int) (launch : Launch) :
    evaluateTick cfg jobId st now launch = st := by
  simp [evaluateTick, evaluate, meets, hoff]

/-- A due slot that a tick meets stays where it is. -/
theorem not_advanced_of_meets
    {catchup : Bool}
    (hdriver : job.driver = .schedule sched)
    (hmeets : meets job s now = true) :
    ¬ Advanced (lastSaved s (tickJob cfg job s now {} catchup launch)) now := by
  simp only [meets, Bool.and_eq_true, Bool.not_eq_true'] at hmeets
  obtain ⟨⟨⟨_, hdis⟩, hrun⟩, hdue⟩ := hmeets
  obtain ⟨due, hsome, hle⟩ : ∃ due, s.nextDueAt = some due ∧ due ≤ now := by
    simpa [Option.any_eq_true] using hdue
  rintro ⟨due', hdue', hlt⟩
  have hafter : (slot (lastSaved s (tickJob cfg job s now {} catchup launch))).due = some due := by
    have hticked := @ticked_tickJob cfg job sched s now hdriver hdis catchup launch
    generalize slot (lastSaved s (tickJob cfg job s now {} catchup launch)) = v at hticked ⊢
    generalize adds (tickJob cfg job s now {} catchup launch) = n at hticked
    cases hticked with
    | waits => exact hsome
    | seeds _ _ hnone => exact nomatch hnone.symm.trans hsome
    | reseeds _ hidle => simp [hidle] at hrun
    | meets => exact hsome
    | fires _ _ _ _ _ hidle => simp [hidle] at hrun
  obtain rfl := Option.some.inj (hafter.symm.trans hdue')
  omega

/-- The turn of an enabled job in a tick. -/
theorem evaluateTick_on
    {actions : List Action}
    (hon : st.service.job.enabled = true)
    (hs : st.service.ensured jobId now = s)
    (hactions : tickJob cfg st.service.job s now {} st.service.catchup launch = actions) :
    ∃ service, evaluateTick cfg jobId st now launch =
        { st with
          service := service
          fires :=
            if 0 < adds actions then { due := s.nextDueAt, ended := st.ended } :: st.fires
            else st.fires
          met :=
            if meets st.service.job s now then
              { now := now, due := s.nextDueAt, after := lastSaved s actions } :: st.met
            else st.met } ∧
      service.job = st.service.job ∧ service.clock = st.service.clock ∧
      service.booted = st.service.booted ∧ service.row = some (lastSaved s actions) := by
  subst hs hactions
  refine ⟨evaluate cfg jobId st.service now {} launch, ?_, ?_⟩
  · simp [evaluateTick, hon]
  · simp only [evaluate, hon, if_true, and_self]

/-- A turn of the job that keeps the policy meets no due slot under `skip`. -/
theorem free_of_evaluateTick
    (hjob : st.service.job = job)
    (hdriver : job.driver = .schedule sched)
    (hpolicy : Overlaps (evaluateTick cfg jobId st now launch)) :
    job.overlap = .queue ∨ meets job (st.service.ensured jobId now) now = false := by
  subst hjob
  cases hon : st.service.job.enabled with
  | false => exact Or.inr (by simp [meets, hon])
  | true =>
      obtain ⟨service, hnew, hjob, _, _, _⟩ :=
        @evaluateTick_on cfg jobId st _ now launch _ hon rfl rfl
      rw [hnew] at hpolicy
      generalize st.service.ensured jobId now = s at hpolicy ⊢
      cases hoverlap : st.service.job.overlap with
      | queue => exact Or.inl rfl
      | skip =>
          refine Or.inr (eq_false_of_ne_true fun hmeets => ?_)
          have hskipped := hpolicy.skipped (hjob ▸ hoverlap)
          dsimp only at hskipped
          rw [if_pos hmeets] at hskipped
          exact not_advanced_of_meets hdriver hmeets (hskipped _ (List.mem_cons_self ..)).2

/-- The turn of the job keeps the policy when it meets no due slot under `skip`. -/
theorem overlaps_evaluateTick
    (h : Kept cfg job st)
    (hpolicy : Overlaps st)
    (hfree : job.overlap = .queue ∨ meets job (st.service.ensured jobId now) now = false) :
    Overlaps (evaluateTick cfg jobId st now launch) := by
  obtain rfl := h.same
  cases hon : st.service.job.enabled with
  | false =>
      rw [evaluateTick_off hon]
      exact hpolicy
  | true =>
      obtain ⟨service, hnew, hjob, _, _, _⟩ :=
        @evaluateTick_on cfg jobId st _ now launch _ hon rfl rfl
      have hkept := slotKept_ensured h jobId now
      rw [hnew]
      generalize st.service.ensured jobId now = s at hkept hfree ⊢
      have hmeets : st.service.job.overlap = .skip → meets st.service.job s now = false := by
        intro hskip
        refine hfree.resolve_left fun hqueue => ?_
        exact nomatch hskip.symm.trans hqueue
      refine ⟨fun f hf => ?_, fun hskip m hm => ?_, fun hskip e he due hdue hlt => ?_,
        fun hskip => ?_, fun hqueue => ?_⟩
      · dsimp only at hf
        split_ifs at hf
        · rcases List.mem_cons.mp hf with rfl | hf
          · exact hkept.spaced
          · exact hpolicy.slots f hf
        · exact hpolicy.slots f hf
      · rw [hjob] at hskip
        rw [hmeets hskip] at hm
        exact hpolicy.skipped hskip m hm
      · rw [hjob] at hskip
        rw [hmeets hskip]
        exact hpolicy.noticed hskip e he due hdue hlt
      · exact hpolicy.ticksOnly (hjob ▸ hskip)
      · exact hpolicy.owed (hjob ▸ hqueue)

theorem kept_evaluateTick
    (h : Kept cfg job st)
    (hdriver : job.driver = .schedule sched)
    (hforward : Forward cfg sched)
    (hbooted : st.service.booted = true)
    (hnow : now ≤ st.service.clock)
    (hended : (∀ e, st.ended = some e → e ≤ now) ∨
      (st.service.ensured jobId now).scheduleKey = cfg.driverKey job.driver)
    (hfree : job.overlap = .queue ∨ meets job (st.service.ensured jobId now) now = false) :
    Kept cfg job (evaluateTick cfg jobId st now launch) := by
  obtain rfl := h.same
  cases hon : st.service.job.enabled with
  | false =>
      rw [evaluateTick_off hon]
      exact h
  | true =>
      obtain ⟨service, hnew, hjob, hclock, hbooted', hrow⟩ :=
        @evaluateTick_on cfg jobId st _ now launch _ hon rfl rfl
      have hkept := slotKept_ensured h jobId now
      rw [hnew]
      generalize hs : st.service.ensured jobId now = s at hkept hended hfree hrow ⊢
      refine ⟨hjob, fun e he => ?_, fun s' hs' => ?_, fun s' _ hno => ?_, fun hskip => ?_⟩
      · rw [hclock]
        exact h.ended e he
      · obtain rfl := Option.some.inj (hrow.symm.trans hs')
        rw [hclock]
        cases hdis : s.disabled with
        | true =>
            rw [OwedFire.tickJob_of_disabled hdis]
            exact hkept
        | false => exact hkept.ticked hforward hnow hended (ticked_tickJob hdriver hdis _ launch)
      · exact absurd ((hbooted'.trans hbooted).symm.trans hno) (by decide)
      · have hmeets := hfree.resolve_left fun hqueue => nomatch hskip.symm.trans hqueue
        rw [hmeets]
        exact h.unmet hskip

/-- What the first half of a tick leaves for the turn of the job. -/
structure Ready (cfg : ServiceConfig) (jobId : String) (job : ResolvedJob) (now : Int)
    (st : State) : Prop where
  kept : Kept cfg job st
  booted : st.service.booted = true
  clock : now ≤ st.service.clock
  ended : (∀ e, st.ended = some e → e ≤ now) ∨
    (st.service.ensured jobId now).scheduleKey = cfg.driverKey job.driver

theorem overlaps_congr
    {st' : State}
    (hjob : st'.service.job = st.service.job)
    (hfires : st'.fires = st.fires) (hends : st'.ends = st.ends) (hmet : st'.met = st.met)
    (h : Overlaps st) :
    Overlaps st' := by
  refine ⟨?_, ?_, ?_, ?_, ?_⟩
  · exact hfires.symm ▸ h.slots
  · exact hjob.symm ▸ hmet.symm ▸ h.skipped
  · exact hjob.symm ▸ hmet.symm ▸ hends.symm ▸ h.noticed
  · exact hjob.symm ▸ hends.symm ▸ h.ticksOnly
  · exact hjob.symm ▸ hends.symm ▸ h.owed

theorem boot_job
    (cfg : ServiceConfig) (st : Triggers.State) (now : Int) :
    (boot cfg st now).job = st.job ∧ (boot cfg st now).booted = true := by
  unfold boot
  split
  · rename_i hbooted
    exact ⟨rfl, hbooted⟩
  · exact ⟨rfl, rfl⟩
  · exact ⟨rfl, rfl⟩

/-- A run that is lost ends without a finish. -/
theorem kept_loseTask
    (h : Kept cfg job st)
    (hrow : st.service.row = some s) :
    Kept cfg job { st with
      service := { st.service with row := some (lastSaved s (loseTask s)) } } := by
  have hlost : slot (lastSaved s (loseTask s)) = { slot s with running := false } := by
    unfold loseTask
    split
    · rename_i hidle
      simp [lastSaved, slot, hidle]
    · rfl
  refine ⟨h.same, h.ended, fun s' hs' => ?_, fun s' hs' _ hrun => ?_, h.unmet⟩
  · obtain rfl := Option.some.inj hs'
    rw [hlost]
    exact (h.row s hrow).of_free (fun hrun => absurd hrun Bool.false_ne_true) rfl rfl
  · obtain rfl := Option.some.inj hs'
    have hidle := congrArg Slot.running hlost
    exact absurd (hidle.symm.trans hrun) Bool.false_ne_true

/-- The boot pass and the reconcile pass keep the policy exactly when the run they find
finished ends in time. -/
theorem answerTick_holds
    {st' : State} {answer : Answer}
    (h : Kept cfg job st)
    (hdriver : job.driver = .schedule sched)
    (hforward : Forward cfg sched)
    (hnow : st.service.clock ≤ now)
    (hstep : answerTick cfg st now answer = some st') :
    (Overlaps st' → answersInTime cfg st now answer = true) ∧
    (answersInTime cfg st now answer = true → Ready cfg jobId job now st' ∧
      (Overlaps st → Overlaps st')) := by
  obtain rfl := h.same
  have hboot := kept_boot h hdriver hforward hnow
  obtain ⟨hjob, hbooted⟩ := boot_job cfg st.service now
  obtain ⟨service, hreconcile, rfl⟩ := Option.map_eq_some_iff.mp hstep
  unfold answersInTime
  generalize hst₁ : ({ st with service := { boot cfg st.service now with clock := now } } : State) =
    st₁ at hboot hreconcile ⊢
  have hrow₁ : (boot cfg st.service now).row = st₁.service.row := by
    subst hst₁
    rfl
  have hclock : st₁.service.clock = now := by
    subst hst₁
    rfl
  have hended : ∀ e, st₁.ended = some e → e ≤ now := hclock ▸ hboot.ended
  have hready : Ready cfg jobId st.service.job now st₁ :=
    ⟨hboot, by subst hst₁; exact hbooted, hclock.symm ▸ Int.le_refl _, Or.inl hended⟩
  have hpolicy : Overlaps st → Overlaps st₁ := by
    subst hst₁
    exact overlaps_congr hjob rfl rfl rfl
  have hsame : ∀ service', service' = st₁.service →
      (Overlaps { st₁ with service := service' } → true = true) ∧
      (true = true → Ready cfg jobId st.service.job now { st₁ with service := service' } ∧
        (Overlaps st → Overlaps { st₁ with service := service' })) := by
    rintro _ rfl
    exact ⟨fun _ => rfl, fun _ => ⟨hready, hpolicy⟩⟩
  rw [hrow₁]
  unfold reconcile at hreconcile
  cases hrow : st₁.service.row with
  | none =>
      rw [hrow] at hreconcile
      exact hsame service (Option.some.inj hreconcile).symm
  | some s =>
      rw [hrow] at hreconcile
      cases hrun : s.runningTaskId with
      | none =>
          have hkept : service = st₁.service := by
            simpa [hrun, eq_comm] using hreconcile
          cases answer with
          | running => exact hsame service hkept
          | lost => exact hsame service hkept
          | finished fin done later launch =>
              have hne : s.runningTaskId ≠ some fin.taskId := by
                rw [hrun]
                exact fun hno => nomatch hno
              have hfree : endsInTime st.service.job s fin done launch = true := by
                simp [endsInTime, hne]
              dsimp only
              rw [endRun, if_neg hne, hfree]
              exact hsame service hkept
      | some taskId =>
          dsimp only at hreconcile
          rw [hrun] at hreconcile
          cases answer with
          | running => exact hsame service (Option.some.inj hreconcile).symm
          | lost =>
              obtain rfl := Option.some.inj hreconcile
              have hlost := kept_loseTask hboot hrow
              exact ⟨fun _ => rfl, fun _ => ⟨⟨hlost, hready.booted, hready.clock, Or.inl hended⟩,
                fun hst => @overlaps_congr st₁ _ rfl rfl rfl rfl (hpolicy hst)⟩⟩
          | finished fin done later launch =>
              dsimp only at hreconcile
              split_ifs at hreconcile with hguard
              obtain ⟨htask, hdone, hlater⟩ := hguard
              obtain rfl := Option.some.inj hreconcile
              have hrun' : s.runningTaskId = some fin.taskId := by
                rw [hrun, htask]
              refine ⟨endsInTime_of_overlaps hboot hdriver hrow (hclock ▸ hdone), fun hin => ?_⟩
              have hkept := kept_finished hboot hdriver hforward hrow (hclock ▸ hdone) hlater hin
              refine ⟨⟨hkept, hready.booted, Int.le_trans hdone hlater, Or.inr ?_⟩, fun hst => ?_⟩
              · obtain ⟨v, hv, hkey, _, _⟩ :=
                  @slot_finalize cfg st.service.job sched s fin done later launch hrun' hdriver
                rw [← hboot.same] at hv
                exact (congrArg Slot.key hv).trans hkey
              · exact overlaps_finished hboot hdriver hrow (hclock ▸ hdone) hin (hpolicy hst)

/-- The slots of the meetings stay where they are. -/
def Plain (st : State) : Prop := ∀ m ∈ st.met, ¬ Advanced m.after m.now

/-- What every step does to the history. -/
structure Grows (st st' : State) : Prop where
  same : st'.service.job = st.service.job
  fires : st.fires ⊆ st'.fires
  ends : st.ends ⊆ st'.ends
  met : st.met ⊆ st'.met
  plain : Plain st → Plain st'

theorem Grows.trans
    {st' st'' : State}
    (h : Grows st st') (h' : Grows st' st'') :
    Grows st st'' where
  same := h'.same.trans h.same
  fires := List.Subset.trans h.fires h'.fires
  ends := List.Subset.trans h.ends h'.ends
  met := List.Subset.trans h.met h'.met
  plain hplain := h'.plain (h.plain hplain)

theorem grows_service
    {service : Triggers.State}
    (hjob : service.job = st.service.job) :
    Grows st { st with service := service } :=
  ⟨hjob, List.Subset.refl _, List.Subset.refl _, List.Subset.refl _, id⟩

theorem grows_endRun
    {service : Triggers.State}
    (hjob : service.job = st.service.job)
    (s : Row) (fin : Finish) (done later : Int) (launch : Launch) :
    Grows st { endRun cfg st s fin done later launch with service := service } := by
  unfold endRun
  split_ifs
  · exact ⟨hjob, List.Subset.refl _, List.subset_cons_self .., List.Subset.refl _, id⟩
  · exact grows_service hjob

/-- A policy that holds after a step held before it. -/
theorem Overlaps.before
    {st' : State}
    (hgrows : Grows st st')
    (hplain : Plain st')
    (h : Overlaps st') :
    Overlaps st := by
  refine ⟨fun f hf => h.slots f (hgrows.fires hf), fun hskip m hm => ?_,
    fun hskip e he due hdue hlt => ?_, fun hskip e he => ?_, fun hqueue e he => ?_⟩
  · exact h.skipped (hgrows.same ▸ hskip) m (hgrows.met hm)
  · -- under `skip` there is no meeting at all
    obtain ⟨m, hm, _⟩ := h.noticed (hgrows.same ▸ hskip) e (hgrows.ends he) due hdue hlt
    exact absurd (h.skipped (hgrows.same ▸ hskip) m hm).2 (hplain m hm)
  · exact h.ticksOnly (hgrows.same ▸ hskip) e (hgrows.ends he)
  · exact h.owed (hgrows.same ▸ hqueue) e (hgrows.ends he)

theorem grows_answerTick
    {st' : State} {answer : Answer}
    (hstep : answerTick cfg st now answer = some st') :
    Grows st st' := by
  obtain ⟨hjob, _⟩ := boot_job cfg st.service now
  obtain ⟨service, hreconcile, rfl⟩ := Option.map_eq_some_iff.mp hstep
  have hservice : service.job = (boot cfg st.service now).job := by
    unfold reconcile at hreconcile
    split at hreconcile
    · rw [← Option.some.inj hreconcile]
    · split at hreconcile
      · rw [← Option.some.inj hreconcile]
      · rw [← Option.some.inj hreconcile]
      · rw [← Option.some.inj hreconcile]
      · split_ifs at hreconcile
        rw [← Option.some.inj hreconcile]
        rfl
  have hbooted : Grows st { st with service := { boot cfg st.service now with clock := now } } :=
    grows_service hjob
  refine hbooted.trans ?_
  dsimp only
  split
  · exact grows_endRun hservice ..
  · exact grows_service hservice

theorem grows_evaluateTick
    (hdriver : st.service.job.driver = .schedule sched)
    (jobId : String) (now : Int) (launch : Launch) :
    Grows st (evaluateTick cfg jobId st now launch) := by
  cases hon : st.service.job.enabled with
  | false =>
      rw [evaluateTick_off hon]
      exact grows_service rfl
  | true =>
      obtain ⟨service, hnew, hjob, _, _, _⟩ :=
        @evaluateTick_on cfg jobId st _ now launch _ hon rfl rfl
      rw [hnew]
      generalize st.service.ensured jobId now = s
      refine ⟨hjob, ?_, List.Subset.refl _, ?_, fun hplain m hm => ?_⟩
      · dsimp only
        split_ifs
        · exact List.subset_cons_self ..
        · exact List.Subset.refl _
      · dsimp only
        split_ifs
        · exact List.subset_cons_self ..
        · exact List.Subset.refl _
      · dsimp only at hm
        split_ifs at hm with hmeets
        · rcases List.mem_cons.mp hm with rfl | hm
          · exact not_advanced_of_meets hdriver hmeets
          · exact hplain m hm
        · exact hplain m hm

theorem grows_step
    {st' : State} {a : Label}
    (hdriver : st.service.job.driver = .schedule sched)
    (hstep : step cfg jobId st a = some st') :
    Grows st st' := by
  cases a with
  | tick now answer launch =>
      simp only [step] at hstep
      split_ifs at hstep
      obtain ⟨st₁, hanswer, rfl⟩ := Option.map_eq_some_iff.mp hstep
      have hfirst := grows_answerTick hanswer
      exact hfirst.trans (grows_evaluateTick (hfirst.same ▸ hdriver) jobId now launch)
  | completed fin done later launch =>
      obtain ⟨service, hservice, rfl⟩ := Option.map_eq_some_iff.mp hstep
      have hjob : service.job = st.service.job := by
        simp only [Triggers.step] at hservice
        split_ifs at hservice
        split at hservice
        · rw [← Option.some.inj hservice]
        · rw [← Option.some.inj hservice]
          rfl
      split
      · exact grows_service hjob
      · exact grows_endRun hjob ..
  | runNow now launch =>
      obtain ⟨service, hservice, rfl⟩ := Option.map_eq_some_iff.mp hstep
      simp only [Triggers.step] at hservice
      split_ifs at hservice
      obtain rfl := Option.some.inj hservice
      exact grows_service rfl

/-- A manual run leaves the slot that the row waits for. -/
theorem kept_runNow
    (h : Kept cfg job st)
    (hdriver : job.driver = .schedule sched)
    (hnow : st.service.clock ≤ now)
    (jobId : String) (launch : Launch) :
    Kept cfg job { st with
      service := { st.service with
        row := some (lastSaved (st.service.ensured jobId now)
          (runNow cfg st.service.job (st.service.ensured jobId now) now launch))
        clock := now } } := by
  have hkept := (slotKept_ensured h jobId now).later hnow
  have hunbooted : st.service.booted = false →
      (st.service.ensured jobId now).runningTaskId.isSome = true →
      (st.service.ensured jobId now).queuedDue = false := by
    unfold State.ensured
    cases hrow : st.service.row with
    | none => exact fun _ _ => rfl
    | some s => exact h.unbooted s hrow
  generalize st.service.ensured jobId now = s at hkept hunbooted
  have hafter : SlotKept cfg job st.ended now
        (slot (lastSaved s (runNow cfg st.service.job s now launch))) ∧
      ((lastSaved s (runNow cfg st.service.job s now launch)).queuedDue = false ∨
        lastSaved s (runNow cfg st.service.job s now launch) = s) := by
    rw [h.same]
    unfold runNow
    split_ifs with hrun
    · exact ⟨hkept, Or.inr rfl⟩
    · have hslot := @slot_materialize cfg job sched s now hdriver false true launch
      cases hadded : launch.added with
      | none =>
          rw [materialize, hadded]
          exact ⟨hkept, Or.inr rfl⟩
      | some taskId =>
          rw [hadded, Option.isSome_some, if_pos rfl, if_pos rfl] at hslot
          rw [hslot]
          exact ⟨hkept.of_free (fun _ => rfl) rfl rfl, Or.inl (congrArg Slot.queued hslot)⟩
  refine ⟨h.same, fun e he => Int.le_trans (h.ended e he) hnow, fun s' hs' => ?_,
    fun s' hs' hbooted hrun => ?_, h.unmet⟩
  · obtain rfl := Option.some.inj hs'
    exact hafter.1
  · obtain rfl := Option.some.inj hs'
    rcases hafter.2 with hfree | hsame
    · exact hfree
    · rw [hsame] at hrun ⊢
      exact hunbooted hbooted hrun

/-- One step keeps the policy exactly when it is in time. -/
theorem step_holds
    {st' : State} {a : Label}
    (h : Kept cfg job st)
    (hplain : Plain st)
    (hdriver : job.driver = .schedule sched)
    (hforward : Forward cfg sched)
    (hstep : step cfg jobId st a = some st') :
    (Overlaps st' → inTime cfg jobId st a = true) ∧
    (inTime cfg jobId st a = true → Kept cfg job st' ∧ (Overlaps st → Overlaps st')) := by
  cases a with
  | tick now answer launch =>
      simp only [step] at hstep
      split_ifs at hstep with hnow
      obtain ⟨st₁, hanswer, rfl⟩ := Option.map_eq_some_iff.mp hstep
      obtain ⟨hin, hready⟩ :=
        @answerTick_holds cfg jobId job sched st now st₁ answer h hdriver hforward hnow hanswer
      have hfirst := grows_answerTick hanswer
      have hjob : st₁.service.job = job := hfirst.same.trans h.same
      have hsecond := @grows_evaluateTick cfg sched st₁ (hjob.symm ▸ hdriver) jobId now launch
      have hcheck : inTime cfg jobId st (.tick now answer launch) = true ↔
          answersInTime cfg st now answer = true ∧ (job.overlap = .queue ∨
            meets job (st₁.service.ensured jobId now) now = false) := by
        simp [inTime, hanswer, h.same, hjob]
      rw [hcheck]
      refine ⟨fun hpolicy => ⟨?_, free_of_evaluateTick hjob hdriver hpolicy⟩, fun hbefore => ?_⟩
      · exact hin (hpolicy.before hsecond (hsecond.plain (hfirst.plain hplain)))
      · obtain ⟨hr, hkeep⟩ := hready hbefore.1
        exact ⟨kept_evaluateTick hr.kept hdriver hforward hr.booted hr.clock hr.ended hbefore.2,
          fun hpolicy => overlaps_evaluateTick hr.kept (hkeep hpolicy) hbefore.2⟩
  | completed fin done later launch =>
      obtain ⟨service, hservice, rfl⟩ := Option.map_eq_some_iff.mp hstep
      simp only [Triggers.step] at hservice
      split_ifs at hservice with hguard
      obtain ⟨hdone, hlater⟩ := hguard
      simp only [inTime]
      generalize hrow : st.service.row = row at hservice
      cases row with
      | none =>
          obtain rfl := Option.some.inj hservice
          refine ⟨fun _ => rfl, fun _ => ⟨⟨h.same, fun e he => ?_, fun s hs => ?_,
            fun s hs => ?_, h.unmet⟩, @overlaps_congr st _ rfl rfl rfl rfl⟩⟩
          · exact Int.le_trans (h.ended e he) (Int.le_trans hdone hlater)
          · have hnone : (none : Option Row) = some s := hs
            cases hnone
          · have hnone : (none : Option Row) = some s := hs
            cases hnone
      | some s =>
          obtain rfl := Option.some.inj hservice
          rw [Option.all_some, h.same]
          exact ⟨endsInTime_of_overlaps h hdriver hrow hdone, fun hin =>
            ⟨kept_finished h hdriver hforward hrow hdone hlater hin,
              overlaps_finished h hdriver hrow hdone hin⟩⟩
  | runNow now launch =>
      obtain ⟨service, hservice, rfl⟩ := Option.map_eq_some_iff.mp hstep
      simp only [Triggers.step] at hservice
      split_ifs at hservice with hnow
      obtain rfl := Option.some.inj hservice
      exact ⟨fun _ => rfl, fun _ => ⟨kept_runNow h hdriver hnow jobId launch,
        @overlaps_congr st _ rfl rfl rfl rfl⟩⟩

end Steps

section Results

variable {cfg : ServiceConfig} {jobId : String} {job : ResolvedJob} {sched : Schedule}
variable {st st' : State}

/-- The condition along a list of labels. -/
def AllInTime (cfg : ServiceConfig) (jobId : String) : State → List Label → Prop :=
  Guarded (step cfg jobId) fun st a => inTime cfg jobId st a = true

theorem run_plain
    {labels : List Label}
    (hjob : st.service.job = job)
    (hdriver : job.driver = .schedule sched)
    (hplain : Plain st)
    (hrun : run (step cfg jobId) st labels = some st') :
    Grows st st' ∧ Plain st' := by
  induction labels generalizing st with
  | nil =>
      obtain rfl := Option.some.inj hrun
      exact ⟨grows_service rfl, hplain⟩
  | cons a labels ih =>
      obtain ⟨st₁, hstep, hrest⟩ := run_cons_eq_some.mp hrun
      have hgrows := grows_step (hjob.symm ▸ hdriver) hstep
      obtain ⟨hgrows', hplain'⟩ := ih (hgrows.same.trans hjob) (hgrows.plain hplain) hrest
      exact ⟨hgrows.trans hgrows', hplain'⟩

/-- A run from a state that keeps the policy keeps it exactly when each step is in time. -/
theorem run_holds_iff
    {labels : List Label}
    (h : Kept cfg job st)
    (hplain : Plain st)
    (hpolicy : Overlaps st)
    (hdriver : job.driver = .schedule sched)
    (hforward : Forward cfg sched)
    (hrun : run (step cfg jobId) st labels = some st') :
    Overlaps st' ↔ AllInTime cfg jobId st labels := by
  induction labels generalizing st with
  | nil =>
      obtain rfl := Option.some.inj hrun
      exact ⟨fun _ => trivial, fun _ => hpolicy⟩
  | cons a labels ih =>
      obtain ⟨st₁, hstep, hrest⟩ := run_cons_eq_some.mp hrun
      obtain ⟨hin, hkeeps⟩ := step_holds h hplain hdriver hforward hstep
      have hgrows := grows_step (h.same.symm ▸ hdriver) hstep
      have hplain₁ := hgrows.plain hplain
      have hnext : inTime cfg jobId st a = true →
          (Overlaps st' ↔ AllInTime cfg jobId st₁ labels) := fun hnow =>
        ih (hkeeps hnow).1 hplain₁ ((hkeeps hnow).2 hpolicy) hrest
      constructor
      · intro hafter
        obtain ⟨hgrows', hplain'⟩ := run_plain (hgrows.same.trans h.same) hdriver hplain₁ hrest
        have hnow := hin (hafter.before hgrows' hplain')
        refine ⟨hnow, fun st₂ hst₂ => ?_⟩
        obtain rfl := Option.some.inj (hstep.symm.trans hst₂)
        exact (hnext hnow).mp hafter
      · rintro ⟨hnow, hlabels⟩
        exact (hnext hnow).mpr (hlabels st₁ hstep)

theorem kept_start
    {row : Option Row}
    (hrow : Stored cfg job row)
    (clock : Int) :
    Kept cfg job (start job row clock) := by
  refine ⟨rfl, fun e he => (nomatch he), fun s hs => ⟨fun hrun => ?_, fun _ e _ he => (nomatch he),
    (hrow s hs).2⟩, fun s hs _ hrun => ?_, fun _ => rfl⟩
  · have hrun' : s.runningTaskId.isSome = true := hrun
    rw [(hrow s hs).1] at hrun'
    exact nomatch hrun'
  · rw [(hrow s hs).1] at hrun
    exact nomatch hrun

theorem overlaps_start
    (job : ResolvedJob) (row : Option Row) (clock : Int) :
    Overlaps (start job row clock) :=
  ⟨fun _ hf => (nomatch hf), fun _ _ hm => (nomatch hm), fun _ _ he => (nomatch he),
    fun _ _ he => (nomatch he), fun _ _ he => (nomatch he)⟩

/-- **Overlap policy.**  A run of a schedule job keeps the overlap policy exactly when
each of its steps is in time. -/
theorem overlap_holds_iff
    (cfg : ServiceConfig) (jobId : String) (job : ResolvedJob) (sched : Schedule)
    (row : Option Row) (clock : Int) (labels : List Label) (st : State)
    (hdriver : job.driver = .schedule sched)
    (hfloor : ∀ seconds, sched = .everySeconds seconds → cfg.minIntervalSeconds ≤ seconds)
    (hwall : ∀ sched base, base ≤ cfg.wallClock sched base)
    (hrow : Stored cfg job row)
    (hrun : run (step cfg jobId) (start job row clock) labels = some st) :
    Overlaps st ↔ AllInTime cfg jobId (start job row clock) labels :=
  run_holds_iff (kept_start hrow clock) (fun _ hm => nomatch hm) (overlaps_start job row clock)
    hdriver (forward_of_floor hfloor hwall) hrun

def skipJob : ResolvedJob where
  driver := .schedule (.everySeconds 10)

def queuedJob : ResolvedJob := { skipJob with overlap := .queue }

/-- A run that is longer than the interval, and the tick after it. -/
def longRun : List Label :=
  [.tick 0 .running { added := none },
    .tick 10 .running { added := some "t1" },
    .tick 20 .running { added := none },
    .completed { taskId := "t1", ok := true } 25 25 { added := some "t2" },
    .tick 26 .running { added := some "t3" }]

theorem overlap_holds_iff_longRun :
    ∃ st, run (step tenTicks "backup") (start queuedJob none 0) longRun = some st ∧
      Overlaps st := by
  have hrun := run_eq_getD (show
    (run (step tenTicks "backup") (start queuedJob none 0) longRun).isSome = true by decide)
  have hin : AllInTime tenTicks "backup" (start queuedJob none 0) longRun :=
    guarded_of_checkRun (inTime tenTicks "backup") (fun _ _ h => h) (by decide)
  refine ⟨_, hrun, (overlap_holds_iff tenTicks "backup" queuedJob (.everySeconds 10) none 0
    longRun _ rfl ?_ ?_ (fun _ hs => nomatch hs) hrun).mpr hin⟩
  · rintro seconds ⟨⟩
    decide
  · intro sched base
    exact Int.le_add_of_nonneg_right (by decide)

/-- The slot that was due at 20, and that the tick skipped, is fired at 26. -/
theorem skipped_slot_fired :
    ∃ st, run (step tenTicks "backup") (start skipJob none 0) longRun = some st ∧
      ¬ Overlaps st := by
  have hrun := run_eq_getD (show
    (run (step tenTicks "backup") (start skipJob none 0) longRun).isSome = true by decide)
  refine ⟨_, hrun, fun hpolicy => ?_⟩
  have hlate := hpolicy.slots { due := some 20, ended := some 25 } (by decide) 20 25 rfl rfl
  exact absurd hlate (by decide)

end Results

end OverlapPolicy
end Cron
end DiploidAgent
