import DiploidAgent.Cron.TriggerFloor

/-!
# Owed and disabled fires

One job as atomic ticks, completion events, manual runs, restarts and config edits
move it, removals from the config included.  Beside the row the state keeps what
nothing reads: whether each fire was manual and enabled, and the trigger resets.

A re-fire that a finished run owes is given to the job whether its spec is enabled
or not, and a lost task leaves an idle job that still owes one.  Without these two
(`Regular`) every fire but a manual one is of an enabled job, an owed fire is
cleared by a fire or a reset only, and it is owed by a job that runs or is
auto-disabled (`owed_fire_respected`).
-/

namespace DiploidAgent
namespace Cron
namespace OwedFire

open Triggers Runs

section Model

/-- What happened to the job: a fire, with the `enabled` of its spec, or a trigger
reset. -/
inductive Happening where
  | fired (enabled manual : Bool)
  | reset
deriving DecidableEq, Repr

/-- A job, its row, and the state of the process. -/
structure State where
  job : Option ResolvedJob := none
  row : Option Row := none
  booted : Bool := false
  catchup : Bool := false
  log : List Happening := []

def initial : State := {}

inductive Label where
  | tick (now : Int) (answer : Answer) (sight : Sight) (launch : Launch)
  | completed (fin : Finish) (done later : Int) (launch : Launch)
  | runNow (now : Int) (launch : Launch)
  | restart
  | edit (job : Option ResolvedJob)

/-- The fire of a list of actions. -/
def fires (job : ResolvedJob) (manual : Bool) (actions : List Action) : List Happening :=
  if started actions then [.fired job.enabled manual] else []

/-- The row after a list of actions. -/
def rowAfter (s : Row) (actions : List Action) : Option Row :=
  if actions.contains .drop then none else some (lastSaved s actions)

/-- `_boot_pass`, on the first tick of a process. -/
def boot (cfg : ServiceConfig) (st : State) (now : Int) : State :=
  match st.booted, st.job, st.row with
  | false, some job, some s =>
      let pass := bootPass cfg job s now
      { st with
        row := some (lastSaved s pass.1)
        booted := true
        catchup := st.catchup || pass.2 }
  | _, _, _ => { st with booted := true }

/-- Whether `_finalize` resets the trigger of a driver edited during the run. -/
def resetsAtEnd (cfg : ServiceConfig) (job : ResolvedJob) (s : Row) : Bool :=
  job.isTrigger && s.scheduleKey != cfg.driverKey job.driver

/-- `_finalize`. -/
def finish (cfg : ServiceConfig) (st : State) (s : Row) (fin : Finish) (done later : Int)
    (launch : Launch) : State :=
  let actions := finalize cfg st.job s done later fin launch
  { st with
    row := rowAfter s actions
    log :=
      match st.job with
      | none => st.log
      | some job =>
          fires job false actions ++
            (if s.runningTaskId = some fin.taskId ∧ resetsAtEnd cfg job s then [.reset] else []) ++
              st.log }

/-- `_reconcile_running`. -/
def reconcile (cfg : ServiceConfig) (st : State) (answer : Answer) : Option State :=
  match st.row with
  | none => some st
  | some s =>
      match s.runningTaskId, answer with
      | none, _ => some st
      | some _, .running => some st
      | some _, .lost => some { st with row := some (lastSaved s (loseTask s)) }
      | some taskId, .finished fin done later launch =>
          if fin.taskId = taskId then some (finish cfg st s fin done later launch) else none

/-- Whether the drift check of a tick resets the trigger. -/
def resetsAtTick (cfg : ServiceConfig) (job : ResolvedJob) (s : Row) : Bool :=
  job.isTrigger && !s.disabled && s.scheduleKey != cfg.driverKey job.driver &&
    s.scheduleKey != "" && s.runningTaskId.isNone

/-- The job's turn in the loop of `_tick`. -/
def evaluate (cfg : ServiceConfig) (jobId : String) (st : State) (now : Int) (sight : Sight)
    (launch : Launch) : State :=
  match st.job with
  | none => st
  | some job =>
      if job.enabled then
        let s := st.row.getD (freshState jobId job.sourceFile now)
        let actions := tickJob cfg job s now sight st.catchup launch
        { st with
          row := some (lastSaved s actions)
          catchup := st.catchup && !tickDropsCatchup cfg job s now sight
          log := fires job false actions ++
            (if resetsAtTick cfg job s then [.reset] else []) ++ st.log }
      else st

/-- One atomic step.  An edit that leaves the job out drops its row unless a run is
in flight. -/
def step (cfg : ServiceConfig) (jobId : String) (st : State) : Label → Option State
  | .tick now answer sight launch =>
      (reconcile cfg (boot cfg st now) answer).map fun st =>
        evaluate cfg jobId st now sight launch
  | .completed fin done later launch =>
      match st.row with
      | none => some st
      | some s => some (finish cfg st s fin done later launch)
  | .runNow now launch =>
      st.job.map fun job =>
        let s := st.row.getD (freshState jobId job.sourceFile now)
        let actions := runNow cfg job s now launch
        { st with row := some (lastSaved s actions), log := fires job true actions ++ st.log }
  | .restart => some { st with booted := false, catchup := false }
  | .edit job =>
      some { st with
        job := job
        row := st.row.filter fun s => job.isSome || s.runningTaskId.isSome }

end Model

section Claim

/-- An owed fire is owed by a job that runs or is auto-disabled. -/
def Owes (s : Row) : Prop :=
  s.queuedDue = true → s.runningTaskId.isSome = true ∨ s.disabled = true

/-- Fires that are not manual are of an enabled job, and an owed fire is owed by a
job that runs or is auto-disabled. -/
structure Respected (st : State) : Prop where
  enabled : ∀ enabled manual, .fired enabled manual ∈ st.log → manual = false → enabled = true
  owes : ∀ s, st.row = some s → Owes s

/-- A step that clears the flag of a row it keeps fires the job or resets its
trigger, and it drops the row of a removed job only. -/
structure ClearedByCause (st st' : State) : Prop where
  caused : ∀ s s', st.row = some s → s.queuedDue = true → st'.row = some s' →
    s'.queuedDue = false → ∃ new, st'.log = new ++ st.log ∧ new ≠ []
  removed : st.row.isSome = true → st'.row = none → st'.job = none

/-- The finished run owes a re-fire that `_finalize` gives. -/
def Refires (cfg : ServiceConfig) (job : ResolvedJob) (s : Row) (fin : Finish) : Prop :=
  s.runningTaskId = some fin.taskId ∧ s.queuedDue = true ∧ resetsAtEnd cfg job s = false ∧
    (fin.ok = true ∨
      (s.disabled = false ∧ s.consecutiveFailures + 1 < job.maxConsecutiveFailures))

/-- The condition on the end of a run: a re-fire it owes is of an enabled job, and
the plan manager adds its task. -/
def RegularEnd (cfg : ServiceConfig) (st : State) (fin : Finish) (launch : Launch) : Prop :=
  ∀ job s, st.job = some job → st.row = some s → Refires cfg job s fin →
    job.enabled = true ∧ launch.added.isSome = true

/-- The condition: every run ends regularly, and no task is lost that a job waits
for which owes a fire. -/
def Regular (cfg : ServiceConfig) (st : State) : Label → Prop
  | .tick _ .lost _ _ =>
      ∀ s, st.row = some s → s.runningTaskId.isSome = true → s.queuedDue = true →
        s.disabled = true
  | .tick _ (.finished fin _ _ launch) _ _ => RegularEnd cfg st fin launch
  | .completed fin _ _ launch => RegularEnd cfg st fin launch
  | _ => True

end Claim

section Flags

variable {cfg : ServiceConfig} {job : ResolvedJob} {s : Row} {now : Int} {sight : Sight}

/-- The three fields the claim is about. -/
structure Flags where
  running : Bool
  queued : Bool
  disabled : Bool
deriving DecidableEq, Repr

def flags (s : Row) : Flags where
  running := s.runningTaskId.isSome
  queued := s.queuedDue
  disabled := s.disabled

theorem flags_materialize (catchup manual : Bool) (launch : Launch) :
    flags (lastSaved s (materialize cfg job s now catchup manual launch)) =
      if launch.added.isSome then
        { running := launch.startError.isNone, queued := false, disabled := s.disabled }
      else flags s := by
  obtain ⟨added, startError⟩ := launch
  cases added with
  | none => rfl
  | some taskId =>
      cases hdriver : job.driver <;> cases startError <;> cases manual <;> cases catchup <;>
        simp [materialize, lastSaved, flags, hdriver]

/-- What a step of the tick may do to the flags: a running job may come to owe a
fire. -/
def Flags.Grows (f f' : Flags) : Prop :=
  f'.running = f.running ∧ f'.disabled = f.disabled ∧
    (f'.queued = f.queued ∨ (f.running = true ∧ f'.queued = true))

theorem Flags.Grows.refl (f : Flags) : f.Grows f := ⟨rfl, rfl, Or.inl rfl⟩

theorem grows_takeEdge
    {r : Row}
    (hflags : flags r = flags s)
    (hrun : s.runningTaskId.isSome = true) :
    (flags s).Grows (flags (takeEdge job r)) := by
  rw [← hflags]
  have hrunning : (flags r).running = true := by
    rw [hflags]
    exact hrun
  unfold takeEdge
  cases job.overlap with
  | skip => exact ⟨rfl, rfl, Or.inl rfl⟩
  | queue => exact ⟨rfl, rfl, Or.inr ⟨hrunning, rfl⟩⟩

theorem grows_evalDriver :
    (flags s).Grows (flags (evalDriver cfg job s now sight).state) := by
  unfold evalDriver evalTrigger evalFileTrigger evalBodyTrigger evalSchedule
  split
  · split
    · split
      · exact Flags.Grows.refl _
      · split_ifs
        all_goals first
          | exact Flags.Grows.refl _
          | exact grows_takeEdge (s := s) rfl (by assumption)
    · split_ifs
      all_goals first
        | exact Flags.Grows.refl _
        | exact grows_takeEdge (s := s) rfl (by assumption)
  · split
    · exact Flags.Grows.refl _
    · split_ifs
      all_goals first
        | exact Flags.Grows.refl _
        | exact grows_takeEdge (s := s) rfl (by assumption)

/-- The drift check keeps the flags of a running job, and leaves an idle one no
flag it did not have. -/
theorem flags_checkDrift :
    flags (checkDrift cfg job s now).state = flags s ∨
      (s.runningTaskId = none ∧
        flags (checkDrift cfg job s now).state = { flags s with queued := false }) := by
  unfold checkDrift
  dsimp only
  split_ifs with hkey hempty hidle
  · exact Or.inl rfl
  · exact Or.inl rfl
  · cases job.driver with
    | trigger t => exact Or.inr ⟨hidle, rfl⟩
    | schedule sched => exact Or.inl rfl
  · exact Or.inl rfl

end Flags

section Tick

variable {cfg : ServiceConfig} {job : ResolvedJob} {s : Row} {now : Int} {sight : Sight}
variable {catchup : Bool} {launch : Launch}

def Flags.Owes (f : Flags) : Prop := f.queued = true → f.running = true ∨ f.disabled = true

theorem Flags.Grows.owes
    {f f' : Flags}
    (h : f.Grows f')
    (howes : f.Owes) :
    f'.Owes := by
  obtain ⟨hrun, hdis, hqueued | ⟨hrunning, _⟩⟩ := h
  · rw [Flags.Owes, hqueued, hrun, hdis]
    exact howes
  · exact fun _ => Or.inl (hrun.trans hrunning)

theorem tickJob_of_disabled
    (hdis : s.disabled = true) :
    tickJob cfg job s now sight catchup launch = [] := by
  rw [tickJob, if_pos hdis]

/-- A tick only adds a fire that a running job owes, and an idle job that owes none
owes none afterwards. -/
theorem flags_tickJob
    (hdis : s.disabled = false) :
    (s.runningTaskId.isSome = true →
      (flags s).Grows (flags (lastSaved s (tickJob cfg job s now sight catchup launch)))) ∧
    (s.runningTaskId = none → s.queuedDue = false →
      (flags (lastSaved s (tickJob cfg job s now sight catchup launch))).queued = false) := by
  generalize hdrift : checkDrift cfg job { s with sourceFile := job.sourceFile } now = drift
  generalize hverdict : evalDriver cfg job drift.state now sight = verdict
  have hstart : flags drift.state = flags s ∨
      (s.runningTaskId = none ∧ flags drift.state = { flags s with queued := false }) := by
    subst hdrift
    exact flags_checkDrift (s := { s with sourceFile := job.sourceFile })
  have hgrows : (flags drift.state).Grows (flags verdict.state) := by
    subst hverdict
    exact grows_evalDriver
  have hidle : verdict.fires = true → (flags drift.state).running = false := by
    subst hverdict
    intro hfires
    rw [flags, idle_of_fires hfires]
    rfl
  have hfirst : drift.saved = false → flags drift.state = flags s := by
    subst hdrift
    intro h
    rw [checkDrift_unsaved h]
    rfl
  have hsecond : verdict.saved = false → flags verdict.state = flags drift.state := by
    subst hverdict
    intro h
    rw [evalDriver_unsaved sight h]
  rw [tickJob, if_neg (by simp [hdis])]
  simp only [hdrift, hverdict]
  rw [lastSaved_saveIf hfirst]
  constructor
  · intro hrun
    have hsame : flags drift.state = flags s := by
      refine hstart.resolve_right fun hnone => ?_
      rw [hnone.1] at hrun
      cases hrun
    rw [← hsame]
    split_ifs with hgoes hfires
    · rw [lastSaved_saveIf hsecond]
      have hfree := hidle hfires
      rw [hsame] at hfree
      exact absurd (hfree.symm.trans hrun) Bool.false_ne_true
    · rw [lastSaved_saveIf hsecond]
      exact hgrows
    · exact Flags.Grows.refl _
  · intro hnone hqueued
    have hfree : (flags drift.state).queued = false ∧ (flags drift.state).running = false := by
      rcases hstart with hsame | ⟨_, hclear⟩
      · rw [hsame]
        exact ⟨hqueued, by rw [flags, hnone]; rfl⟩
      · rw [hclear]
        exact ⟨rfl, by rw [flags, hnone]; rfl⟩
    have hverdictFree : (flags verdict.state).queued = false := by
      rcases hgrows.2.2 with hsame | ⟨hrunning, _⟩
      · exact hsame.trans hfree.1
      · exact absurd (hfree.2.symm.trans hrunning) Bool.false_ne_true
    split_ifs with hgoes hfires
    · rw [lastSaved_saveIf hsecond, flags_materialize]
      split_ifs
      · rfl
      · exact hverdictFree
    · rw [lastSaved_saveIf hsecond]
      exact hverdictFree
    · exact hfree.1

end Tick

section Turns

variable {cfg : ServiceConfig} {st st' : State} {now : Int}

theorem owes_iff (s : Row) : Owes s ↔ (flags s).Owes := Iff.rfl

/-- A turn that keeps the two properties and clears no owed fire without a cause. -/
structure Turn (st st' : State) : Prop where
  respected : Respected st'
  cleared : ClearedByCause st st'
  grows : ∃ new, st'.log = new ++ st.log

theorem clearedByCause_of_some
    {s' : Row}
    (hrow' : st'.row = some s')
    (h : ∀ s, st.row = some s → s.queuedDue = true → s'.queuedDue = false →
      ∃ new, st'.log = new ++ st.log ∧ new ≠ []) :
    ClearedByCause st st' := by
  refine ⟨fun s r hs hqueued hr hclear => ?_, fun _ hnone => ?_⟩
  · obtain rfl := Option.some.inj (hr.symm.trans hrow')
    exact h s hs hqueued hclear
  · rw [hrow'] at hnone
    cases hnone

theorem Turn.refl
    (h : Respected st) :
    Turn st st := by
  refine ⟨h, ⟨fun s s' hs hqueued hs' hclear => ?_, fun hsome hnone => ?_⟩, [], rfl⟩
  swap
  · rw [hnone] at hsome
    cases hsome
  obtain rfl : s' = s := Option.some.inj (hs'.symm.trans hs)
  rw [hqueued] at hclear
  cases hclear

/-- Two turns in a row of which the first keeps the row. -/
theorem Turn.trans
    {st'' : State}
    (h : Turn st st')
    (h' : Turn st' st'')
    (hkeeps : st.row.isSome = true → st'.row.isSome = true) :
    Turn st st'' := by
  obtain ⟨new, hnew⟩ := h.grows
  obtain ⟨new', hnew'⟩ := h'.grows
  have hlog : st''.log = new' ++ new ++ st.log := by
    rw [hnew', hnew, List.append_assoc]
  refine ⟨h'.respected, ⟨fun s s'' hs hqueued hs'' hclear => ⟨_, hlog, ?_⟩,
    fun hsome => h'.cleared.removed (hkeeps hsome)⟩, _, hlog⟩
  obtain ⟨s', hs'⟩ := Option.isSome_iff_exists.mp (hkeeps (by rw [hs]; rfl))
  cases hmiddle : s'.queuedDue with
  | false =>
      obtain ⟨cause, hcause, hne⟩ := h.cleared.caused s s' hs hqueued hs' hmiddle
      rw [hnew] at hcause
      rw [List.append_cancel_right hcause]
      exact fun hnil => hne (List.append_eq_nil_iff.mp hnil).2
  | true =>
      obtain ⟨cause, hcause, hne⟩ := h'.cleared.caused s' s'' hs' hmiddle hs'' hclear
      rw [hnew'] at hcause
      rw [List.append_cancel_right hcause]
      exact fun hnil => hne (List.append_eq_nil_iff.mp hnil).1

/-- A turn that leaves the flags of the row and the log alone. -/
theorem turn_of_flags
    {r r' : Row}
    (h : Respected st)
    (hrow : st.row = some r) (hrow' : st'.row = some r')
    (hflags : flags r' = flags r)
    (hlog : st'.log = st.log) :
    Turn st st' := by
  refine ⟨⟨by rw [hlog]; exact h.enabled, fun s hs => ?_⟩,
    clearedByCause_of_some hrow' fun s hs hqueued hclear => ?_, [], hlog⟩
  · obtain rfl := Option.some.inj (hs.symm.trans hrow')
    rw [owes_iff, hflags]
    exact h.owes r hrow
  · obtain rfl := Option.some.inj (hs.symm.trans hrow)
    have hsame := congrArg Flags.queued hflags
    exact absurd (hclear.symm.trans (hsame.trans hqueued)) Bool.false_ne_true

theorem respected_fires
    {job : ResolvedJob} {manual : Bool} {actions : List Action} {log : List Happening}
    (h : ∀ enabled manual, .fired enabled manual ∈ log → manual = false → enabled = true)
    (hfires : started actions = true → manual = false → job.enabled = true) :
    ∀ enabled manual', .fired enabled manual' ∈ fires job manual actions ++ log →
      manual' = false → enabled = true := by
  intro enabled manual' hmem hmanual
  rcases List.mem_append.mp hmem with hmem | hmem
  · unfold fires at hmem
    split_ifs at hmem with hstarted
    · cases List.mem_singleton.mp hmem
      exact hfires hstarted hmanual
    · cases hmem
  · exact h enabled manual' hmem hmanual

theorem fires_ne_nil
    {job : ResolvedJob} {manual : Bool} {actions : List Action}
    (h : started actions = true) :
    fires job manual actions ≠ [] := by
  rw [fires, if_pos h]
  exact List.cons_ne_nil _ _

theorem enabled_reset
    {log : List Happening} {p : Prop} [Decidable p]
    (h : ∀ enabled manual, .fired enabled manual ∈ log → manual = false → enabled = true) :
    ∀ enabled manual, .fired enabled manual ∈ (if p then [.reset] else []) ++ log →
      manual = false → enabled = true := by
  intro enabled manual hmem
  refine h enabled manual ?_
  rcases List.mem_append.mp hmem with hmem | hmem
  · split_ifs at hmem
    · cases List.mem_singleton.mp hmem
    · cases hmem
  · exact hmem

/-- The evaluation of a tick. -/
theorem turn_evaluate
    (jobId : String) (sight : Sight) (launch : Launch)
    (h : Respected st) :
    Turn st (evaluate cfg jobId st now sight launch) := by
  unfold evaluate
  split
  · exact Turn.refl h
  · rename_i job hjob
    split_ifs with henabled
    · generalize hs : st.row.getD (freshState jobId job.sourceFile now) = s
      have howes : Owes s := by
        cases hrow : st.row with
        | none =>
            rw [hrow, Option.getD_none] at hs
            subst hs
            exact fun hq => (by cases hq)
        | some r =>
            rw [hrow, Option.getD_some] at hs
            subst hs
            exact h.owes r hrow
      have hafter : ∀ catchup, (flags (lastSaved s (tickJob cfg job s now sight catchup launch))).Owes ∧
          (s.queuedDue = true →
            (flags (lastSaved s (tickJob cfg job s now sight catchup launch))).queued = true) := by
        intro catchup
        cases hdis : s.disabled with
        | true =>
            rw [tickJob_of_disabled hdis]
            exact ⟨howes, fun hq => hq⟩
        | false =>
            obtain ⟨hrunning, hidle⟩ := @flags_tickJob cfg job s now sight catchup launch hdis
            cases hrun : s.runningTaskId with
            | none =>
                have hqueued : s.queuedDue = false := by
                  by_contra hq
                  rcases howes (by simpa using hq) with hr | hd
                  · rw [hrun] at hr
                    cases hr
                  · exact absurd (hdis.symm.trans hd) Bool.false_ne_true
                refine ⟨fun hq => ?_, fun hq => absurd (hqueued.symm.trans hq) Bool.false_ne_true⟩
                exact absurd ((hidle hrun hqueued).symm.trans hq) Bool.false_ne_true
            | some taskId =>
                have hgrows := hrunning (by rw [hrun]; rfl)
                refine ⟨hgrows.owes howes, fun hq => ?_⟩
                rcases hgrows.2.2 with hsame | ⟨_, hset⟩
                · exact hsame.trans hq
                · exact hset
      refine ⟨⟨?_, fun s' hs' => ?_⟩, clearedByCause_of_some rfl fun r hr hqueued hclear => ?_,
        fires job false _ ++ (if resetsAtTick cfg job s then [.reset] else []), rfl⟩
      · dsimp only
        rw [List.append_assoc]
        exact respected_fires (enabled_reset h.enabled) fun _ _ => henabled
      · obtain rfl := Option.some.inj hs'
        exact (hafter st.catchup).1
      · rw [hr, Option.getD_some] at hs
        subst hs
        exact absurd (hclear.symm.trans ((hafter st.catchup).2 hqueued)) Bool.false_ne_true
    · exact Turn.refl h

theorem drop_notMem_materialize
    (job : ResolvedJob) (s : Row) (catchup manual : Bool) (launch : Launch) :
    Action.drop ∉ materialize cfg job s now catchup manual launch := by
  obtain ⟨added, startError⟩ := launch
  cases added with
  | none => exact List.not_mem_nil
  | some taskId => cases startError <;> simp [materialize]

theorem rowAfter_of_notMem
    {s : Row} {actions : List Action}
    (h : Action.drop ∉ actions) :
    rowAfter s actions = some (lastSaved s actions) := by
  rw [rowAfter, if_neg (by simpa using h)]

/-- The flags after the first save of `_finalize`. -/
theorem disabled_finalizedRow
    (job : ResolvedJob) (s : Row) (fin : Finish) (done : Int) :
    (finalizedRow cfg (some job) s done fin).disabled =
      (!fin.ok && (s.disabled || decide (job.maxConsecutiveFailures ≤ s.consecutiveFailures + 1))) := by
  have houtcome : (applyOutcome (some job) s done fin).disabled =
      (!fin.ok && (s.disabled ||
        decide (job.maxConsecutiveFailures ≤ s.consecutiveFailures + 1))) := by
    unfold applyOutcome maxFailures
    cases fin.ok with
    | true => rfl
    | false =>
        simp only [Bool.false_eq_true, if_false, Option.map_some, Option.getD_some]
        split_ifs with hmax
        · simp [hmax]
        · simp [hmax]
  rw [← houtcome, finalizedRow, adoptDriver]
  split_ifs
  · rfl
  · cases job.driver <;> rfl

theorem queued_finalizedRow
    (job : ResolvedJob) (s : Row) (fin : Finish) (done : Int) :
    (finalizedRow cfg (some job) s done fin).queuedDue =
      (s.queuedDue && !resetsAtEnd cfg job s) := by
  have harming := congrArg Arming.queued
    (@arming_finalizedRow cfg job s done fin)
  have hqueued : (finalizedRow cfg (some job) s done fin).queuedDue =
      (arming (finalizedRow cfg (some job) s done fin)).queued := rfl
  rw [hqueued, harming, resetsAtEnd]
  split_ifs with hkey htrigger
  · simp [hkey, arming]
  · simp [hkey, htrigger]
  · simp [htrigger, arming]

/-- The run that `_finalize` ends owes a re-fire exactly when it gives one. -/
theorem refires_iff
    {job : ResolvedJob} {s : Row} {fin : Finish} {done : Int}
    (hrun : s.runningTaskId = some fin.taskId) :
    ((finalizedRow cfg (some job) s done fin).queuedDue &&
        !(finalizedRow cfg (some job) s done fin).disabled) = true ↔
      Refires cfg job s fin := by
  rw [queued_finalizedRow, disabled_finalizedRow, Refires]
  cases fin.ok <;> cases s.disabled <;> cases s.queuedDue <;> cases resetsAtEnd cfg job s <;>
    simp [hrun]

theorem finish_job
    (cfg : ServiceConfig) (st : State) (s : Row) (fin : Finish) (done later : Int)
    (launch : Launch) :
    (finish cfg st s fin done later launch).job = st.job := rfl

/-- The end of a run of a job that is still in the config. -/
theorem turn_finish_some
    {job : ResolvedJob} {s : Row} {fin : Finish} {done later : Int} {launch : Launch}
    (h : Respected st)
    (hjob : st.job = some job) (hrow : st.row = some s)
    (hend : RegularEnd cfg st fin launch) :
    Turn st (finish cfg st s fin done later launch) ∧
      (finish cfg st s fin done later launch).row.isSome = true := by
  by_cases hrun : s.runningTaskId = some fin.taskId
  · generalize hs₁ : finalizedRow cfg (some job) s done fin = s₁
    have hactions : finalize cfg (some job) s done later fin launch =
        [.save s₁ (.finalized fin.taskId fin.ok (maxFailures (some job))), .unlock,
          .deliver fin.taskId] ++ refire cfg job s₁ later launch := by
      rw [finalize_of_running hrun, hs₁]
    have hnodrop : Action.drop ∉ finalize cfg (some job) s done later fin launch := by
      rw [hactions]
      unfold refire
      split_ifs <;> simp [drop_notMem_materialize]
    have hlast : lastSaved s (finalize cfg (some job) s done later fin launch) =
        lastSaved s₁ (refire cfg job s₁ later launch) := by
      rw [hactions]
      rfl
    have hstarted : started (finalize cfg (some job) s done later fin launch) =
        started (refire cfg job s₁ later launch) := by
      rw [hactions]
      rfl
    have hrefires := @refires_iff cfg job s fin done hrun
    rw [hs₁] at hrefires
    have hrefire : (s₁.queuedDue && !s₁.disabled) = true →
        job.enabled = true ∧ launch.added.isSome = true :=
      fun hq => hend job s hjob hrow (hrefires.mp hq)
    have hafter : (flags (lastSaved s₁ (refire cfg job s₁ later launch))).Owes ∧
        (started (refire cfg job s₁ later launch) = true →
          (s₁.queuedDue && !s₁.disabled) = true) ∧
        (s₁.queuedDue = true → (lastSaved s₁ (refire cfg job s₁ later launch)).queuedDue = false →
          started (refire cfg job s₁ later launch) = true) := by
      unfold refire
      split_ifs with hq
      · have hadded := (hrefire hq).2
        have hflags := @flags_materialize cfg job { s₁ with queuedDue := false } later
          false false launch
        rw [if_pos hadded] at hflags
        refine ⟨?_, fun _ => hq, fun _ _ => ?_⟩
        · rw [lastSaved, hflags]
          exact fun h => (by cases h)
        · have hstart := @started_materialize cfg job { s₁ with queuedDue := false } later
            false false launch
          rw [hadded] at hstart
          exact hstart
      · refine ⟨fun hqueued => Or.inr ?_, fun hno => (by cases hno), fun hqueued hclear => ?_⟩
        · have hqueued' : s₁.queuedDue = true := hqueued
          simpa [hqueued', lastSaved, flags] using hq
        · exact absurd (hclear.symm.trans hqueued) Bool.false_ne_true
    obtain ⟨howes, hgives, hcause⟩ := hafter
    unfold finish
    rw [hjob]
    dsimp only
    rw [rowAfter_of_notMem hnodrop]
    refine ⟨⟨⟨?_, fun s' hs' => ?_⟩, clearedByCause_of_some rfl fun r hr hqueued hclear => ?_,
      _, rfl⟩, rfl⟩
    · dsimp only
      rw [List.append_assoc]
      refine respected_fires (enabled_reset h.enabled) fun hstart _ => ?_
      exact (hrefire (hgives (hstarted.symm.trans hstart))).1
    · obtain rfl := Option.some.inj hs'
      rw [owes_iff, hlast]
      exact howes
    · obtain rfl : r = s := Option.some.inj (hr.symm.trans hrow)
      rw [hlast] at hclear
      cases hreset : resetsAtEnd cfg job r with
      | true =>
          refine ⟨_, rfl, fun hnil => ?_⟩
          rw [if_pos ⟨hrun, rfl⟩] at hnil
          exact List.cons_ne_nil _ _ (List.append_eq_nil_iff.mp hnil).2
      | false =>
          have hq : s₁.queuedDue = true := by
            rw [← hs₁, queued_finalizedRow, hqueued, hreset]
            rfl
          have hne := @fires_ne_nil job false _
            (hstarted.trans (hcause hq hclear))
          exact ⟨_, rfl, fun hnil => hne (List.append_eq_nil_iff.mp hnil).1⟩
  · have hactions : finalize cfg (some job) s done later fin launch = [.unlock] := by
      rw [finalize, if_neg hrun]
    have hsame : finish cfg st s fin done later launch = { st with row := some s } := by
      unfold finish
      rw [hjob]
      dsimp only
      rw [hactions, if_neg (fun hc => hrun hc.1)]
      rfl
    rw [hsame]
    exact ⟨turn_of_flags h hrow rfl rfl rfl, rfl⟩

/-- The end of a run of a job that was left out of the config. -/
theorem turn_finish_none
    {s : Row} {fin : Finish} {done later : Int} {launch : Launch}
    (h : Respected st)
    (hjob : st.job = none) (hrow : st.row = some s) :
    Turn st (finish cfg st s fin done later launch) := by
  by_cases hrun : s.runningTaskId = some fin.taskId
  · have hgone : finish cfg st s fin done later launch = { st with row := none } := by
      unfold finish
      rw [hjob]
      dsimp only
      rw [finalize, if_pos hrun]
      rfl
    rw [hgone]
    exact ⟨⟨h.enabled, fun _ hs => (by cases hs)⟩, ⟨fun _ _ _ _ hs => (by cases hs),
      fun _ _ => hjob⟩, [], rfl⟩
  · have hsame : finish cfg st s fin done later launch = { st with row := some s } := by
      unfold finish
      rw [hjob]
      dsimp only
      rw [finalize, if_neg hrun]
      rfl
    rw [hsame]
    exact turn_of_flags h hrow rfl rfl rfl

/-- The first tick of a process writes `next_due_at` only. -/
theorem boot_row
    (cfg : ServiceConfig) (st : State) (now : Int) :
    (boot cfg st now).log = st.log ∧ (boot cfg st now).job = st.job ∧
      ((boot cfg st now).row = st.row ∨
        ∃ s due, st.row = some s ∧ (boot cfg st now).row = some { s with nextDueAt := due }) := by
  unfold boot
  split
  · rename_i job s hbooted hjob hrow
    refine ⟨rfl, rfl, ?_⟩
    unfold bootPass
    split
    · split_ifs
      · exact Or.inl hrow.symm
      · cases job.catchup with
        | once => exact Or.inl hrow.symm
        | skip => exact Or.inr ⟨s, _, hrow, rfl⟩
    · exact Or.inl hrow.symm
  · exact ⟨rfl, rfl, Or.inl rfl⟩

theorem turn_boot
    (h : Respected st) :
    Turn st (boot cfg st now) ∧ (st.row.isSome = true → (boot cfg st now).row.isSome = true) := by
  obtain ⟨hlog, _, hsame | ⟨s, due, hrow, hrow'⟩⟩ := boot_row cfg st now
  · refine ⟨⟨⟨by rw [hlog]; exact h.enabled, by rw [hsame]; exact h.owes⟩,
      ⟨fun s s' hs hqueued hs' hclear => ?_, fun hsome hnone => ?_⟩, [], hlog⟩,
      fun hsome => by rw [hsame]; exact hsome⟩
    swap
    · rw [hsame.symm.trans hnone] at hsome
      cases hsome
    rw [hsame, hs] at hs'
    obtain rfl := Option.some.inj hs'
    exact absurd (hclear.symm.trans hqueued) Bool.false_ne_true
  · exact ⟨turn_of_flags h hrow hrow' rfl hlog, fun _ => by rw [hrow']; rfl⟩

/-- The reconcile pass of a tick. -/
theorem turn_reconcile
    {answer : Answer}
    (h : Respected st)
    (hlost : answer = .lost → ∀ s, st.row = some s → s.runningTaskId.isSome = true →
      s.queuedDue = true → s.disabled = true)
    (hend : ∀ fin done later launch, answer = .finished fin done later launch →
      RegularEnd cfg st fin launch)
    (hstep : reconcile cfg st answer = some st') :
    Turn st st' ∧ st'.job = st.job ∧
      (st.job.isSome = true → st.row.isSome = true → st'.row.isSome = true) := by
  unfold reconcile at hstep
  split at hstep
  · obtain rfl := Option.some.inj hstep
    exact ⟨Turn.refl h, rfl, fun _ hrow => hrow⟩
  · rename_i s hrow
    split at hstep
    · obtain rfl := Option.some.inj hstep
      exact ⟨Turn.refl h, rfl, fun _ hrow => hrow⟩
    · obtain rfl := Option.some.inj hstep
      exact ⟨Turn.refl h, rfl, fun _ hrow => hrow⟩
    · -- the task is lost
      rename_i taskId hrun
      obtain rfl := Option.some.inj hstep
      have hflags : flags (lastSaved s (loseTask s)) = { flags s with running := false } := by
        simp [loseTask, hrun, lastSaved, flags]
      refine ⟨⟨⟨h.enabled, fun s' hs' => ?_⟩,
        clearedByCause_of_some rfl fun r hr hqueued hclear => ?_, [], rfl⟩, rfl, fun _ _ => rfl⟩
      · obtain rfl := Option.some.inj hs'
        rw [owes_iff, hflags]
        exact fun hqueued => Or.inr (hlost rfl s hrow (by rw [hrun]; rfl) hqueued)
      · obtain rfl := Option.some.inj (hr.symm.trans hrow)
        have hsame := congrArg Flags.queued hflags
        exact absurd (hclear.symm.trans (hsame.trans hqueued)) Bool.false_ne_true
    · split_ifs at hstep
      rename_i taskId fin done later launch _ _
      obtain rfl := Option.some.inj hstep
      rcases hjob : st.job with _ | job
      · exact ⟨turn_finish_none h hjob hrow, (finish_job ..).trans hjob, fun hsome => (by cases hsome)⟩
      · obtain ⟨hturn, hsome⟩ := @turn_finish_some cfg st job s fin done later launch h hjob hrow
          (hend fin done later launch rfl)
        exact ⟨hturn, (finish_job ..).trans hjob, fun _ _ => hsome⟩

theorem regularEnd_boot
    {fin : Finish} {launch : Launch}
    (h : RegularEnd cfg st fin launch) :
    RegularEnd cfg (boot cfg st now) fin launch := by
  intro job s hjob hrow hrefires
  obtain ⟨_, hsame, hkept | ⟨s', due, hrow', hdue⟩⟩ := boot_row cfg st now
  · exact h job s (hsame.symm.trans hjob) (hkept.symm.trans hrow) hrefires
  · obtain rfl := Option.some.inj (hdue.symm.trans hrow)
    exact h job s' (hsame.symm.trans hjob) hrow' hrefires

theorem turn_runNow
    {job : ResolvedJob} {launch : Launch}
    (s : Row)
    (h : Respected st)
    (hrow : st.row = some s ∨ (st.row = none ∧ s.queuedDue = false))
    (hst : st' = { st with
      row := some (lastSaved s (runNow cfg job s now launch))
      log := fires job true (runNow cfg job s now launch) ++ st.log }) :
    Turn st st' := by
  have howes : Owes s := by
    rcases hrow with hrow | ⟨_, hqueued⟩
    · exact h.owes s hrow
    · exact fun hq => absurd (hqueued.symm.trans hq) Bool.false_ne_true
  subst hst
  refine ⟨⟨respected_fires h.enabled fun _ hmanual => (nomatch hmanual), fun s' hs' => ?_⟩,
    clearedByCause_of_some rfl fun r hr hqueued hclear => ⟨_, rfl, ?_⟩, _, rfl⟩
  · obtain rfl := Option.some.inj hs'
    unfold runNow
    split_ifs with hrun
    · exact howes
    · rw [owes_iff, flags_materialize]
      split_ifs
      · exact fun hq => (nomatch hq)
      · exact howes
  · rcases hrow with hrow | ⟨hrow, _⟩
    · obtain rfl := Option.some.inj (hr.symm.trans hrow)
      refine fires_ne_nil ?_
      unfold runNow at hclear ⊢
      split_ifs at hclear ⊢ with hrun
      · exact absurd (hclear.symm.trans hqueued) Bool.false_ne_true
      · rw [started_materialize]
        by_contra hadded
        have hflags := congrArg Flags.queued (@flags_materialize cfg job r now false true launch)
        rw [if_neg hadded] at hflags
        exact absurd (hclear.symm.trans (hflags.trans hqueued)) Bool.false_ne_true
    · rw [hrow] at hr
      cases hr

/-- Every step that meets the condition. -/
theorem turn_step
    {jobId : String} {a : Label}
    (h : Respected st)
    (hreg : Regular cfg st a)
    (hstep : step cfg jobId st a = some st') :
    Turn st st' := by
  cases a with
  | tick now answer sight launch =>
      obtain ⟨st₂, hreconcile, rfl⟩ := Option.map_eq_some_iff.mp hstep
      obtain ⟨hboot, hbooted⟩ := @turn_boot cfg st now h
      obtain ⟨_, hbootJob, hbootRow⟩ := boot_row cfg st now
      have hlost : answer = .lost → ∀ s, (boot cfg st now).row = some s →
          s.runningTaskId.isSome = true → s.queuedDue = true → s.disabled = true := by
        rintro rfl s hrow
        rcases hbootRow with hsame | ⟨s', due, hrow', hdue⟩
        · exact hreg s (hsame.symm.trans hrow)
        · obtain rfl := Option.some.inj (hdue.symm.trans hrow)
          exact hreg s' hrow'
      have hend : ∀ fin done later launch', answer = .finished fin done later launch' →
          RegularEnd cfg (boot cfg st now) fin launch' := by
        rintro fin done later launch' rfl
        exact regularEnd_boot hreg
      obtain ⟨hturn, hjob, hkeeps⟩ := turn_reconcile hboot.respected hlost hend hreconcile
      have hfirst := hboot.trans hturn
      cases hpresent : st₂.job with
      | none =>
          have hsame : evaluate cfg jobId st₂ now sight launch = st₂ := by
            rw [evaluate, hpresent]
          rw [hsame]
          exact hfirst hbooted
      | some job =>
          have hsome : (boot cfg st now).job.isSome = true := by
            rw [← hjob, hpresent]
            rfl
          exact (hfirst hbooted).trans (turn_evaluate jobId sight launch hturn.respected)
            fun hrow => hkeeps hsome (hbooted hrow)
  | completed fin done later launch =>
      simp only [step] at hstep
      split at hstep
      · obtain rfl := Option.some.inj hstep
        exact Turn.refl h
      · rename_i s hrow
        obtain rfl := Option.some.inj hstep
        cases hjob : st.job with
        | none => exact turn_finish_none h hjob hrow
        | some job => exact (turn_finish_some h hjob hrow hreg).1
  | runNow now launch =>
      obtain ⟨job, hjob, rfl⟩ := Option.map_eq_some_iff.mp hstep
      refine turn_runNow (st.row.getD (freshState jobId job.sourceFile now)) h ?_ rfl
      cases hrow : st.row with
      | none => exact Or.inr ⟨rfl, rfl⟩
      | some s => exact Or.inl rfl
  | restart =>
      obtain rfl := Option.some.inj hstep
      refine ⟨⟨h.enabled, h.owes⟩, ⟨fun s s' hs hqueued hs' hclear => ?_, fun hsome hnone => ?_⟩,
        [], rfl⟩
      swap
      · rw [hnone] at hsome
        cases hsome
      obtain rfl : s' = s := Option.some.inj (hs'.symm.trans hs)
      exact absurd (hclear.symm.trans hqueued) Bool.false_ne_true
  | edit job =>
      obtain rfl := Option.some.inj hstep
      refine ⟨⟨h.enabled, fun s hs => ?_⟩, ⟨fun s s' hs hqueued hs' hclear => ?_,
        fun hsome hnone => ?_⟩, [], rfl⟩
      · exact h.owes s (Option.filter_eq_some_iff.mp hs).1
      · obtain rfl : s' = s :=
          Option.some.inj ((Option.filter_eq_some_iff.mp hs').1.symm.trans hs)
        exact absurd (hclear.symm.trans hqueued) Bool.false_ne_true
      · obtain ⟨s, hs⟩ := Option.isSome_iff_exists.mp hsome
        rw [hs] at hnone
        dsimp only at hnone
        cases job with
        | none => rfl
        | some job => simp at hnone

end Turns

section Results

variable {cfg : ServiceConfig} {jobId : String} {st : State}

theorem respected_initial : Respected initial :=
  ⟨fun _ _ hmem => (nomatch hmem), fun _ hrow => (nomatch hrow)⟩

/-- **Owed and disabled fires.**  In every run whose steps are regular, fires that
are not manual are of an enabled job, an owed fire is owed by a job that runs or is
auto-disabled, and the next regular step clears it by a fire or a reset only. -/
theorem owed_fire_respected
    (cfg : ServiceConfig) (jobId : String) (st : State)
    (h : Reach (step cfg jobId) (Regular cfg) initial st) :
    Respected st ∧ ∀ a st', Regular cfg st a → step cfg jobId st a = some st' →
      ClearedByCause st st' := by
  have hrespected : Respected st := h.invariant respected_initial
    fun _ _ _ hst hreg hstep => (turn_step hst hreg hstep).respected
  exact ⟨hrespected, fun a st' hreg hstep => (turn_step hrespected hreg hstep).cleared⟩

def queueJob : ResolvedJob where
  driver := .schedule (.everySeconds 10)
  overlap := .queue

/-- The job is added and fires, and owes the fire of the next slot to its run. -/
def owing : List Label :=
  [.edit (some queueJob),
    .tick 0 .running {} { added := none },
    .tick 10 .running {} { added := some "t1" },
    .tick 20 .running {} { added := none }]

/-- The owed fire comes at the end of the run. -/
def refired : List Label :=
  owing ++ [.completed { taskId := "t1", ok := true } 25 25 { added := some "t2" }]

/-- The job is switched off while its run is in flight. -/
def switchedOff : List Label :=
  owing ++ [.edit (some { queueJob with enabled := false }),
    .completed { taskId := "t1", ok := true } 25 25 { added := some "t2" }]

theorem disabled_job_refired :
    ¬ ∀ (cfg : ServiceConfig) (jobId : String) (st : State),
      Reach (step cfg jobId) (fun _ _ => True) initial st →
      Respected st ∧ ∀ a st', step cfg jobId st a = some st' → ClearedByCause st st' := by
  intro hall
  have hreach := reach_run (show
    (run (step tenTicks "backup") initial switchedOff).isSome = true by decide)
  have henabled := (hall tenTicks "backup" _ hreach).1.enabled false false (by decide) rfl
  cases henabled

/-- A step passes when no run ends, or it ends for a job that is switched on and
whose task is added. -/
def regularCheck (st : State) : Label → Bool
  | .tick _ .running _ _ => true
  | .tick _ _ _ _ => false
  | .completed _ _ _ launch => st.job.all (·.enabled) && launch.added.isSome
  | _ => true

theorem regular_of_check
    {a : Label}
    (h : regularCheck st a = true) :
    Regular cfg st a := by
  cases a with
  | tick now answer sight launch =>
      cases answer with
      | running => exact trivial
      | lost => cases h
      | finished fin done later launch => cases h
  | completed fin done later launch =>
      intro job s hjob _ _
      rw [regularCheck, hjob, Bool.and_eq_true] at h
      exact h
  | runNow now launch => exact trivial
  | restart => exact trivial
  | edit job => exact trivial

theorem owed_fire_respected_refired :
    ∃ st, run (step tenTicks "backup") initial refired = some st ∧
      Respected st ∧ ∀ a st', Regular tenTicks st a → step tenTicks "backup" st a = some st' →
        ClearedByCause st st' := by
  have hrun := run_eq_getD (show
    (run (step tenTicks "backup") initial refired).isSome = true by decide)
  have hguarded : Guarded (step tenTicks "backup") (Regular tenTicks) initial refired :=
    guarded_of_checkRun regularCheck (fun _ _ => regular_of_check) (by decide)
  exact ⟨_, hrun, owed_fire_respected tenTicks "backup" _ (reach_of_run hrun hguarded)⟩

end Results

end OwedFire
end Cron
end DiploidAgent
