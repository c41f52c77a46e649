import DiploidAgent.Cron.TriggerSteps
import DiploidAgent.Lib.Spacing

/-!
# Trigger floor and edge accounting

Two fires of a trigger job are the cooldown of the later one apart, and between
them a tick has seen an edge of the later one's trigger, in every run in which no
hot edit brings a driver back over a row that a tick under another driver has
written while a run was in flight.

The invariant speaks about six fields of the row.  While the row is under a
trigger and undisturbed, an unconsumed edge is one seen since the last fire
(`Pending`), and an owed re-fire has its cooldown behind it, its edge seen and
every later observation consumed (`Owed`).
-/

namespace DiploidAgent
namespace Cron
namespace Triggers

open Runs Spacing

/-! ### The trigger fields of a row -/

/-- The fields that decide fires. -/
structure Arming where
  key : String := ""
  running : Bool := false
  queued : Bool := false
  seen : Option Int := none
  firedAt : Option Int := none
  held : Bool := false
deriving DecidableEq, Repr

def arming (s : Row) : Arming where
  key := s.scheduleKey
  running := s.runningTaskId.isSome
  queued := s.queuedDue
  seen := s.triggerSeenMtime
  firedAt := s.triggerFiredAt
  held := s.triggerHeld

theorem started_append (as bs : List Action) :
    started (as ++ bs) = (started as || started bs) := List.any_append

@[simp] theorem started_saveIf (saved : Bool) (s : Row) :
    started (saveIf saved s) = false := by
  cases saved <;> rfl

section Specs

variable {cfg : ServiceConfig} {job : ResolvedJob} {s : Row} {now : Int}

/-- A fire without an added task writes nothing. -/
theorem arming_materialize (catchup manual : Bool) (launch : Launch) :
    arming (lastSaved s (materialize cfg job s now catchup manual launch)) =
      if launch.added.isSome then
        { arming s with
          running := launch.startError.isNone
          queued := false
          firedAt := if !manual && job.isTrigger then some now else (arming s).firedAt }
      else arming s := by
  obtain ⟨added, startError⟩ := launch
  cases added with
  | none => rfl
  | some taskId =>
      cases hdriver : job.driver <;> cases startError <;> cases manual <;> cases catchup <;>
        simp [materialize, lastSaved, arming, ResolvedJob.isTrigger, hdriver]

theorem started_materialize (catchup manual : Bool) (launch : Launch) :
    started (materialize cfg job s now catchup manual launch) = launch.added.isSome := by
  obtain ⟨added, startError⟩ := launch
  cases added with
  | none => rfl
  | some taskId => cases startError <;> rfl

theorem checkDrift_of_eq
    (h : s.scheduleKey = cfg.driverKey job.driver) :
    checkDrift cfg job s now = { state := s, saved := false, goesOn := true } := by
  simp [checkDrift, h]

theorem checkDrift_of_empty
    (h : s.scheduleKey = "") :
    checkDrift cfg job s now =
      { state := { s with scheduleKey := cfg.driverKey job.driver }
        saved := true
        goesOn := true } := by
  simp [checkDrift, h, (cfg.driverKey_ne_empty job.driver).symm]

theorem checkDrift_of_running
    (hkey : s.scheduleKey ≠ cfg.driverKey job.driver) (hne : s.scheduleKey ≠ "")
    (hrun : s.runningTaskId ≠ none) :
    checkDrift cfg job s now = { state := s, saved := false, goesOn := true } := by
  simp [checkDrift, hkey, hne, hrun]

theorem checkDrift_of_idle_trigger {t : Trigger}
    (hdriver : job.driver = .trigger t)
    (hkey : s.scheduleKey ≠ cfg.driverKey job.driver) (hne : s.scheduleKey ≠ "")
    (hidle : s.runningTaskId = none) :
    checkDrift cfg job s now =
      { state := resetTrigger { s with scheduleKey := cfg.driverKey job.driver }
        saved := true
        goesOn := true } := by
  rw [hdriver] at hkey
  simp [checkDrift, hdriver, hkey, hne, hidle]

theorem checkDrift_of_idle_schedule {sched : Schedule}
    (hdriver : job.driver = .schedule sched)
    (hkey : s.scheduleKey ≠ cfg.driverKey job.driver) (hne : s.scheduleKey ≠ "")
    (hidle : s.runningTaskId = none) :
    checkDrift cfg job s now =
      { state := { s with
          scheduleKey := cfg.driverKey job.driver
          nextDueAt := some (nextDue cfg sched now) }
        saved := true
        goesOn := false } := by
  rw [hdriver] at hkey
  simp [checkDrift, hdriver, hkey, hne, hidle]

theorem checkDrift_unsaved
    (h : (checkDrift cfg job s now).saved = false) :
    (checkDrift cfg job s now).state = s := by
  revert h
  unfold checkDrift
  dsimp only
  split_ifs with hkey hempty hidle
  · exact fun _ => rfl
  · exact fun h => nomatch h
  · cases job.driver <;> exact fun h => nomatch h
  · exact fun _ => rfl

theorem evalDriver_unsaved (sight : Sight)
    (h : (evalDriver cfg job s now sight).saved = false) :
    (evalDriver cfg job s now sight).state = s := by
  revert h
  unfold evalDriver evalTrigger evalFileTrigger evalBodyTrigger evalSchedule
  split
  · split
    · split
      · exact fun _ => rfl
      · split_ifs <;> first | exact fun _ => rfl | exact fun h => nomatch h
    · split_ifs <;> first | exact fun _ => rfl | exact fun h => nomatch h
  · split
    · exact fun h => nomatch h
    · split_ifs <;> first | exact fun _ => rfl | exact fun h => nomatch h

section Tick

variable {drift : Drift} {verdict : Verdict} {sight : Sight}
variable {catchup : Bool} {launch : Launch}

/-- The trigger fields after a tick. -/
theorem arming_tickJob
    (hdis : s.disabled = false)
    (hdrift : checkDrift cfg job { s with sourceFile := job.sourceFile } now = drift)
    (hverdict : evalDriver cfg job drift.state now sight = verdict) :
    arming (lastSaved s (tickJob cfg job s now sight catchup launch)) =
      if drift.goesOn then
        if verdict.fires then
          arming (lastSaved verdict.state
            (materialize cfg job verdict.state now (!job.isTrigger && catchup) false launch))
        else arming verdict.state
      else arming drift.state := by
  have hfirst : drift.saved = false → arming drift.state = arming s := fun h => by
    subst hdrift
    rw [checkDrift_unsaved h]
    rfl
  have hsecond : verdict.saved = false → arming verdict.state = arming drift.state := fun h => by
    subst hverdict
    rw [evalDriver_unsaved sight h]
  rw [tickJob, if_neg (by simp [hdis])]
  simp only [hdrift, hverdict]
  rw [lastSaved_saveIf hfirst]
  by_cases hgoes : drift.goesOn = true
  · rw [if_pos hgoes, if_pos hgoes, lastSaved_saveIf hsecond]
    split_ifs <;> rfl
  · rw [if_neg hgoes, if_neg hgoes]
    rfl

theorem started_tickJob
    (hdis : s.disabled = false)
    (hdrift : checkDrift cfg job { s with sourceFile := job.sourceFile } now = drift)
    (hverdict : evalDriver cfg job drift.state now sight = verdict) :
    started (tickJob cfg job s now sight catchup launch) =
      (drift.goesOn && verdict.fires && launch.added.isSome) := by
  rw [tickJob, if_neg (by simp [hdis])]
  simp only [hdrift, hverdict]
  rw [started_append, started_saveIf, Bool.false_or]
  cases drift.goesOn with
  | false => rfl
  | true =>
      rw [if_pos rfl, started_append, started_saveIf, Bool.false_or]
      cases verdict.fires with
      | false => rfl
      | true => rw [if_pos rfl, started_materialize, Bool.true_and, Bool.true_and]

end Tick

theorem arming_applyOutcome (job : Option ResolvedJob) (fin : Finish) :
    arming (applyOutcome job s now fin) = { arming s with running := false } := by
  unfold applyOutcome
  dsimp only
  split_ifs <;> rfl

/-- The trigger fields after the first save of `_finalize`. -/
theorem arming_finalizedRow (fin : Finish) :
    arming (finalizedRow cfg (some job) s now fin) =
      if s.scheduleKey = cfg.driverKey job.driver then { arming s with running := false }
      else if job.isTrigger then
        { key := cfg.driverKey job.driver, firedAt := (arming s).firedAt }
      else { arming s with key := cfg.driverKey job.driver, running := false } := by
  have hrow : arming (applyOutcome (some job) s now fin) = { arming s with running := false } :=
    arming_applyOutcome (some job) fin
  have hkey : (applyOutcome (some job) s now fin).scheduleKey = s.scheduleKey :=
    congrArg Arming.key hrow
  rw [finalizedRow, adoptDriver]
  dsimp only
  rw [hkey]
  split_ifs with hsame htrig
  · exact hrow
  · cases hdriver : job.driver with
    | trigger t =>
        simp only [arming, Arming.mk.injEq] at hrow
        simp [arming, resetTrigger, hrow]
    | schedule sched => simp [ResolvedJob.isTrigger, hdriver] at htrig
  · cases hdriver : job.driver with
    | trigger t => simp [ResolvedJob.isTrigger, hdriver] at htrig
    | schedule sched =>
        simp only [arming, Arming.mk.injEq] at hrow
        simp [arming, hrow]

end Specs

/-! ### Fires and their edges -/

def watchesFile (t : Trigger) : Bool :=
  match t.watch with
  | .file _ => true
  | .body .. => false

/-- The events that a fire of the trigger may use up: a new mtime for a file, a rise
or a reset for a body field. -/
def isEdge (t : Trigger) : Event → Bool
  | .newMtime u => watchesFile t && u == t
  | .rise u => !watchesFile t && u == t
  | .reset => !watchesFile t
  | .fired .. => false

/-- Fires are the marks of the history. -/
def meter (cfg : ServiceConfig) : Meter Event (Int × Trigger) Trigger where
  mark
    | .fired now t => some (now, t)
    | _ => none
  time f := f.1
  gap f := cooldown cfg f.2
  kind f := f.2
  cause t e := isEdge t e = true

section Accounting

variable {cfg : ServiceConfig} {h : History} {t : Trigger} {a a' : Arming} {now : Int}

/-- The cooldown of the last fire is over. -/
def Elapsed (cfg : ServiceConfig) (now : Int) (t : Trigger) (a : Arming) : Prop :=
  ∀ firedAt, a.firedAt = some firedAt → cooldown cfg t ≤ now - firedAt

/-- An edge was seen since the last fire, if there was one. -/
def Caused (cfg : ServiceConfig) (h : History) (t : Trigger) : Prop :=
  (meter cfg).last h.log = none ∨ (meter cfg).CauseSince t h.log

/-- The row has consumed what was last observed under the trigger. -/
def Consumed (h : History) (t : Trigger) (a : Arming) : Prop :=
  match t.watch with
  | .file _ => ∀ mtime, a.seen = some mtime → h.lastMtime t = some mtime
  | .body .. => a.held = false → h.lastHeld t = some false

/-- What the row has not consumed was seen since the last fire. -/
def Pending (cfg : ServiceConfig) (h : History) (t : Trigger) (a : Arming) : Prop :=
  Caused cfg h t ∨ Consumed h t a

/-- A fire would keep the floor and have its edge. -/
structure Owed (cfg : ServiceConfig) (now : Int) (h : History) (t : Trigger) (a : Arming) :
    Prop where
  elapsed : Elapsed cfg now t a
  caused : Caused cfg h t
  consumed : Consumed h t a

/-- The trigger fields of a row agree with the history. -/
structure Accounted (cfg : ServiceConfig) (now : Int) (h : History) (a : Arming) : Prop where
  spaced : (meter cfg).Spaced h.log
  anchored : a.firedAt = ((meter cfg).last h.log).map Prod.fst
  blank : a.key = "" → a.queued = false ∧ a.firedAt = none ∧ h.stale = false
  pending : ∀ t, a.key = cfg.driverKey (.trigger t) → h.stale = false → Pending cfg h t a
  owed : ∀ t, a.key = cfg.driverKey (.trigger t) → h.stale = false →
    a.queued = true → a.running = true → Owed cfg now h t a

theorem inWindow_eq_false
    {s : Row} (t : Trigger) :
    inWindow s now (cooldown cfg t) = false ↔ Elapsed cfg now t (arming s) := by
  cases hfired : s.triggerFiredAt <;> simp [inWindow, Elapsed, arming, hfired]

theorem Elapsed.mono
    {later : Int}
    (helapsed : Elapsed cfg now t a) (hle : now ≤ later) :
    Elapsed cfg later t a := by
  intro firedAt hfired
  have := helapsed firedAt hfired
  omega

theorem trigger_key_injective
    {u : Trigger}
    (h : cfg.driverKey (.trigger t) = cfg.driverKey (.trigger u)) :
    t = u :=
  Driver.trigger.inj (cfg.driverKey_injective h)

theorem cooldown_nonneg
    {job : ResolvedJob}
    (hdriver : job.driver = .trigger t) (hfloor : floorOk cfg job = true) :
    0 ≤ cooldown cfg t := by
  rw [floorOk, hdriver] at hfloor
  exact Int.le_trans cfg.minInterval_nonneg (of_decide_eq_true hfloor)

namespace Accounted

theorem mono
    {later : Int}
    (hacc : Accounted cfg now h a) (hle : now ≤ later) :
    Accounted cfg later h a where
  __ := hacc
  owed t hkey hstale hqueued hrunning :=
    have howed := hacc.owed t hkey hstale hqueued hrunning
    ⟨howed.elapsed.mono hle, howed.caused, howed.consumed⟩

/-- A row that owes nothing agrees with the history at any time. -/
theorem of_disarmed
    {now' : Int}
    (hacc : Accounted cfg now h a)
    (hkey : a'.key = a.key) (hseen : a'.seen = a.seen) (hheld : a'.held = a.held)
    (hfired : a'.firedAt = a.firedAt)
    (hfree : a'.queued = true → a'.running = true → False)
    (hblank : a.queued = false → a'.queued = false) :
    Accounted cfg now' h a' where
  spaced := hacc.spaced
  anchored := hfired.trans hacc.anchored
  blank hempty := by
    obtain ⟨hqueued, hnone, hstale⟩ := hacc.blank (hkey ▸ hempty)
    exact ⟨hblank hqueued, hfired.trans hnone, hstale⟩
  pending t hk hstale := by
    have hpending := hacc.pending t (hkey ▸ hk) hstale
    rwa [Pending, Consumed, hseen, hheld]
  owed t _ _ hqueued hrunning := (hfree hqueued hrunning).elim

/-- A fire that is owed is spaced from the one before it. -/
theorem fire
    {later : Int} {running : Bool}
    (hacc : Accounted cfg now h a)
    (hkey : a.key = cfg.driverKey (.trigger t)) (howed : Owed cfg now h t a)
    (hcool : 0 ≤ cooldown cfg t) :
    Accounted cfg later { h with log := .fired now t :: h.log }
      { a with running := running, queued := false, firedAt := some now } where
  spaced := by
    have hmark : (meter cfg).mark (.fired now t) = some (now, t) := rfl
    refine (spaced_of_mark hmark).mpr ⟨hacc.spaced, hcool, fun f hf => ?_⟩
    have hfired : a.firedAt = some f.1 := by rw [hacc.anchored, hf]; rfl
    refine ⟨howed.elapsed f.1 hfired, ?_⟩
    rcases howed.caused with hnone | hcause
    · rw [hnone] at hf
      cases hf
    · exact hcause
  anchored := rfl
  blank hempty := absurd (hkey.symm.trans hempty) (cfg.driverKey_ne_empty _)
  pending u hu _ := by
    obtain rfl := trigger_key_injective (hkey.symm.trans hu)
    exact Or.inr howed.consumed
  owed _ _ _ hqueued := nomatch hqueued

end Accounted

/-! ### What a tick observes -/

/-- An observation adds at most one event, which is no fire. -/
theorem observe_log (cfg : ServiceConfig) (h : History) (t : Trigger) (sight : Sight) :
    (h.observe t sight).log = h.log ∨
      ∃ e, (meter cfg).mark e = none ∧ (h.observe t sight).log = e :: h.log := by
  unfold History.observe
  split
  · split
    · exact Or.inl rfl
    · dsimp only
      split_ifs
      · exact Or.inr ⟨_, rfl, rfl⟩
      · exact Or.inl rfl
  · dsimp only
    split_ifs
    · exact Or.inr ⟨_, rfl, rfl⟩
    · exact Or.inl rfl

theorem observe_stale (h : History) (t : Trigger) (sight : Sight) :
    (h.observe t sight).stale = h.stale := by
  unfold History.observe
  split
  · split <;> rfl
  · rfl

section Quiet

variable {h' : History}

/-- The second history adds nothing but an event that is no fire. -/
def Quiet (cfg : ServiceConfig) (h h' : History) : Prop :=
  h'.log = h.log ∨ ∃ e, (meter cfg).mark e = none ∧ h'.log = e :: h.log

theorem Quiet.spaced
    (hquiet : Quiet cfg h h') (hspaced : (meter cfg).Spaced h.log) :
    (meter cfg).Spaced h'.log := by
  rcases hquiet with heq | ⟨e, he, heq⟩
  · rwa [heq]
  · rw [heq]
    exact (spaced_of_quiet he).mpr hspaced

theorem Quiet.last
    (hquiet : Quiet cfg h h') :
    (meter cfg).last h'.log = (meter cfg).last h.log := by
  rcases hquiet with heq | ⟨e, he, heq⟩
  · rw [heq]
  · rw [heq, last_of_quiet he]

theorem Quiet.caused
    (hquiet : Quiet cfg h h') (hcaused : Caused cfg h t) :
    Caused cfg h' t := by
  refine hcaused.imp (fun hnone => hquiet.last.trans hnone) fun hcause => ?_
  rcases hquiet with heq | ⟨e, he, heq⟩
  · rwa [heq]
  · rw [heq]
    exact (causeSince_of_quiet he).mpr (Or.inr hcause)

end Quiet

theorem consumed_observe_of_ne
    {u : Trigger} {sight : Sight}
    (hne : u ≠ t) :
    Consumed (h.observe t sight) u a ↔ Consumed h u a := by
  unfold History.observe
  split
  · split
    · exact Iff.rfl
    · simp [Consumed, Function.update_of_ne hne]
  · simp [Consumed, Function.update_of_ne hne]

/-- A mtime that differs from the consumed one was new since the last fire. -/
theorem caused_of_new_mtime
    {path : String} {sight : Sight} {seen mtime : Int}
    (hwatch : t.watch = .file path) (hsight : sight.mtime = some mtime)
    (hseen : a.seen = some seen) (hne : seen ≠ mtime)
    (hpending : Pending cfg h t a) :
    Caused cfg (h.observe t sight) t := by
  rcases hpending with hcaused | hconsumed
  · exact Quiet.caused (observe_log cfg h t sight) hcaused
  · have hlast : h.lastMtime t = some seen := by
      rw [Consumed, hwatch] at hconsumed
      exact hconsumed seen hseen
    have hlog : (h.observe t sight).log = .newMtime t :: h.log := by
      simp [History.observe, hwatch, hsight, hlast, hne]
    right
    rw [hlog]
    exact (causeSince_of_quiet rfl).mpr (Or.inl (by simp [meter, isEdge, watchesFile, hwatch]))

/-- A condition that holds and is not marked as held rose since the last fire. -/
theorem caused_of_rise
    {field : String} {op : Op} {value : BodyValue} {sight : Sight}
    (hwatch : t.watch = .body field op value) (htrue : compare sight.current op value = true)
    (hheld : a.held = false)
    (hpending : Pending cfg h t a) :
    Caused cfg (h.observe t sight) t := by
  rcases hpending with hcaused | hconsumed
  · exact Quiet.caused (observe_log cfg h t sight) hcaused
  · have hlast : h.lastHeld t = some false := by
      rw [Consumed, hwatch] at hconsumed
      exact hconsumed hheld
    have hlog : (h.observe t sight).log = .rise t :: h.log := by
      simp [History.observe, hwatch, htrue, hlast]
    right
    rw [hlog]
    exact (causeSince_of_quiet rfl).mpr (Or.inl (by simp [meter, isEdge, watchesFile, hwatch]))

/-! ### Evaluations -/

/-- What an evaluation under the trigger makes of the trigger fields when the history
goes from `h` to `h'`: nothing new to consume, an edge stays pending in the cooldown
window, a run in flight takes the edge, or the job fires. -/
inductive Outcome (cfg : ServiceConfig) (now : Int) (h h' : History) (t : Trigger) (a : Arming) :
    Arming → Bool → Prop where
  | quiet {a' : Arming} (seen : Option Int) (held : Bool)
      (hfields : a' = { a with seen := seen, held := held })
      (hpending : Pending cfg h' t a') (hkeeps : Consumed h t a → Consumed h' t a') :
      Outcome cfg now h h' t a a' false
  | wait (hcaused : Caused cfg h' t) (hwindow : ¬ Elapsed cfg now t a) :
      Outcome cfg now h h' t a a false
  | take {a' : Arming} (seen : Option Int) (held queued : Bool)
      (hfields : a' = { a with seen := seen, held := held, queued := queued })
      (howed : Owed cfg now h' t a') : Outcome cfg now h h' t a a' false
  | fire {a' : Arming} (seen : Option Int) (held : Bool)
      (hfields : a' = { a with seen := seen, held := held })
      (hidle : a.running = false) (howed : Owed cfg now h' t a') :
      Outcome cfg now h h' t a a' true

/-- An observation that leaves everything consumed. -/
theorem Outcome.consumed
    {h' : History} {a' : Arming} (seen : Option Int) (held : Bool)
    (hfields : a' = { a with seen := seen, held := held })
    (hconsumed : Consumed h' t a') :
    Outcome cfg now h h' t a a' false :=
  .quiet seen held hfields (Or.inr hconsumed) fun _ => hconsumed

theorem arming_takeEdge (job : ResolvedJob) (s : Row) :
    ∃ queued, arming (takeEdge job s) = { arming s with queued := queued } := by
  unfold takeEdge
  cases job.overlap with
  | queue => exact ⟨true, rfl⟩
  | skip => exact ⟨s.queuedDue, rfl⟩

section Evaluations

variable {job : ResolvedJob} {s : Row} {sight : Sight}

theorem outcome_file
    {path : String}
    (hwatch : t.watch = .file path)
    (hpending : Pending cfg h t (arming s)) :
    Outcome cfg now h (h.observe t sight) t (arming s)
      (arming (evalFileTrigger job s now (cooldown cfg t) sight.mtime).state)
      (evalFileTrigger job s now (cooldown cfg t) sight.mtime).fires := by
  cases hsight : sight.mtime with
  | none =>
      have hsame : h.observe t sight = h := by simp [History.observe, hwatch, hsight]
      rw [hsame]
      exact .quiet _ _ rfl hpending id
  | some mtime =>
      have hlast : (h.observe t sight).lastMtime t = some mtime := by
        simp [History.observe, hwatch, hsight]
      -- whatever the row says it has seen is this mtime
      have hconsumed : ∀ a' : Arming, a'.seen = some mtime →
          Consumed (h.observe t sight) t a' := fun a' ha' => by
        simp [Consumed, hwatch, ha', hlast]
      unfold evalFileTrigger
      dsimp only
      split_ifs with hfirst hsame hwindow hrun
      · exact .consumed (some mtime) _ rfl (hconsumed _ rfl)
      · exact .consumed _ _ rfl (hconsumed _ hsame)
      all_goals
        obtain ⟨seen, hseen⟩ := Option.ne_none_iff_exists'.mp hfirst
        have hne : seen ≠ mtime := fun heq => hsame (heq ▸ hseen)
        have hcaused : Caused cfg (h.observe t sight) t :=
          caused_of_new_mtime hwatch hsight hseen hne hpending
      · refine .wait hcaused fun helapsed => ?_
        rw [(inWindow_eq_false t).mpr helapsed] at hwindow
        cases hwindow
      all_goals
        have helapsed : Elapsed cfg now t (arming s) :=
          (inWindow_eq_false t).mp (Bool.eq_false_iff.mpr hwindow)
      · obtain ⟨queued, htake⟩ := arming_takeEdge job { s with triggerSeenMtime := some mtime }
        rw [htake]
        exact .take (some mtime) _ queued rfl ⟨helapsed, hcaused, hconsumed _ rfl⟩
      · have hidle : (arming s).running = false := Bool.eq_false_iff.mpr hrun
        exact .fire (some mtime) _ rfl hidle ⟨helapsed, hcaused, hconsumed _ rfl⟩

theorem outcome_body
    {field : String} {op : Op} {value : BodyValue}
    (hwatch : t.watch = .body field op value)
    (hpending : Pending cfg h t (arming s)) :
    let verdict :=
      evalBodyTrigger job s now (cooldown cfg t) (compare sight.current op value)
    Outcome cfg now h (h.observe t sight) t (arming s) (arming verdict.state) verdict.fires := by
  have hlast : (h.observe t sight).lastHeld t = some (compare sight.current op value) := by
    simp [History.observe, hwatch]
  -- a condition marked as held has nothing to consume
  have hconsumed : ∀ a' : Arming, a'.held = true → Consumed (h.observe t sight) t a' :=
    fun a' ha' => by simp [Consumed, hwatch, ha']
  unfold evalBodyTrigger
  dsimp only
  split_ifs with hfalse hheld hheld hwindow hrun
  · have hnow : Consumed (h.observe t sight) t { arming s with held := false } := by
      simpa [Consumed, hwatch, hlast] using hfalse
    exact .consumed _ false rfl hnow
  · have hnow : Consumed (h.observe t sight) t (arming s) := by
      simpa [Consumed, hwatch, hlast] using fun _ => hfalse
    exact .consumed _ _ rfl hnow
  · exact .consumed _ _ rfl (hconsumed _ hheld)
  all_goals
    have htrue : compare sight.current op value = true := by simpa using hfalse
    have hcaused : Caused cfg (h.observe t sight) t :=
      caused_of_rise hwatch htrue (Bool.eq_false_iff.mpr hheld) hpending
  · refine .wait hcaused fun helapsed => ?_
    rw [(inWindow_eq_false t).mpr helapsed] at hwindow
    cases hwindow
  all_goals
    have helapsed : Elapsed cfg now t (arming s) :=
      (inWindow_eq_false t).mp (Bool.eq_false_iff.mpr hwindow)
  · obtain ⟨queued, htake⟩ := arming_takeEdge job { s with triggerHeld := true }
    rw [htake]
    exact .take _ true queued rfl ⟨helapsed, hcaused, hconsumed _ rfl⟩
  · have hidle : (arming s).running = false := Bool.eq_false_iff.mpr hrun
    exact .fire _ true rfl hidle ⟨helapsed, hcaused, hconsumed _ rfl⟩

theorem outcome_evalTrigger
    (hpending : Pending cfg h t (arming s)) :
    Outcome cfg now h (h.observe t sight) t (arming s)
      (arming (evalTrigger cfg job t s now sight).state)
      (evalTrigger cfg job t s now sight).fires := by
  unfold evalTrigger
  split
  next path hwatch => exact outcome_file hwatch hpending
  next field op value hwatch => exact outcome_body hwatch hpending

end Evaluations

theorem Outcome.fields
    {h' : History} {fires : Bool}
    (hout : Outcome cfg now h h' t a a' fires) :
    a'.key = a.key ∧ a'.running = a.running ∧ a'.firedAt = a.firedAt := by
  cases hout with
  | wait => exact ⟨rfl, rfl, rfl⟩
  | quiet seen held hfields | take seen held queued hfields | fire seen held hfields =>
      subst hfields
      exact ⟨rfl, rfl, rfl⟩

theorem Outcome.pending
    {h' : History} {fires : Bool}
    (hout : Outcome cfg now h h' t a a' fires) :
    Pending cfg h' t a' := by
  cases hout with
  | quiet seen held hfields hpending hkeeps => exact hpending
  | wait hcaused hwindow => exact Or.inl hcaused
  | take seen held queued hfields howed => exact Or.inl howed.caused
  | fire seen held hfields hidle howed => exact Or.inl howed.caused

theorem Outcome.owed
    {h' : History}
    (hout : Outcome cfg now h h' t a a' true) :
    Owed cfg now h' t a' := by
  cases hout with
  | fire seen held hfields hidle howed => exact howed

/-- An evaluation under the row's own trigger keeps the accounts. -/
theorem Accounted.of_outcome
    {h' : History} {fires : Bool}
    (hacc : Accounted cfg now h a)
    (hkey : a.key = cfg.driverKey (.trigger t)) (hstale : h.stale = false)
    (hquiet : Quiet cfg h h')
    (hout : Outcome cfg now h h' t a a' fires) :
    Accounted cfg now h' a' := by
  obtain ⟨hkey', hrunning', hfired'⟩ := hout.fields
  refine ⟨hquiet.spaced hacc.spaced, ?_, fun hempty => ?_, fun u hu _ => ?_, ?_⟩
  · rw [hfired', hacc.anchored, hquiet.last]
  · exact absurd (hkey.symm.trans (hkey'.symm.trans hempty)) (cfg.driverKey_ne_empty _)
  · obtain rfl := trigger_key_injective (hkey.symm.trans (hkey'.symm.trans hu))
    exact hout.pending
  · intro u hu _ hqueued hrunning
    obtain rfl := trigger_key_injective (hkey.symm.trans (hkey'.symm.trans hu))
    rw [hrunning'] at hrunning
    cases hout with
    | quiet seen held hfields hpending hkeeps =>
        subst hfields
        have howed := hacc.owed t hkey hstale hqueued hrunning
        exact ⟨howed.elapsed, hquiet.caused howed.caused, hkeeps howed.consumed⟩
    | wait hcaused hwindow =>
        exact absurd (hacc.owed t hkey hstale hqueued hrunning).elapsed hwindow
    | take seen held queued hfields howed => exact howed
    | fire seen held hfields hidle howed =>
        rw [hidle] at hrunning
        cases hrunning

end Accounting

/-! ### Steps -/

section Steps

variable {cfg : ServiceConfig} {job : ResolvedJob} {h : History} {s : Row}
variable {now later : Int} {sight : Sight} {catchup : Bool} {launch : Launch}

theorem fire_of_not_started
    {actions : List Action}
    (hnone : started actions = false) :
    h.fire job now actions = h := by
  unfold History.fire
  cases job.driver <;> simp [hnone]

theorem fire_congr
    {as bs : List Action}
    (h' : started as = started bs) :
    h.fire job now as = h.fire job now bs := by
  unfold History.fire
  rw [h']

theorem fire_of_schedule
    {actions : List Action} {sched : Schedule}
    (hdriver : job.driver = .schedule sched) :
    h.fire job now actions = h := by
  simp [History.fire, hdriver]

/-- A fire that the row owes keeps the accounts; `actions` are the whole step's. -/
theorem accounted_fire
    {t : Trigger} {actions : List Action}
    (hacc : Accounted cfg now h (arming s))
    (hdriver : job.driver = .trigger t) (hfloor : floorOk cfg job = true)
    (hkey : s.scheduleKey = cfg.driverKey (.trigger t))
    (howed : Owed cfg now h t (arming s))
    (hstarted : started actions = launch.added.isSome) :
    Accounted cfg now (h.fire job now actions)
      (arming (lastSaved s (materialize cfg job s now catchup false launch))) := by
  have htrig : job.isTrigger = true := by simp [ResolvedJob.isTrigger, hdriver]
  rw [arming_materialize]
  cases hadded : launch.added.isSome with
  | false =>
      rw [fire_of_not_started (hstarted.trans hadded)]
      exact hacc
  | true =>
      have hfire : h.fire job now actions = { h with log := .fired now t :: h.log } := by
        simp [History.fire, hdriver, hstarted, hadded]
      rw [hfire, if_pos rfl, htrig]
      exact hacc.fire hkey howed (cooldown_nonneg hdriver hfloor)

/-- Runs that are no trigger fires leave the accounts as they are. -/
theorem accounted_unfired
    {manual : Bool}
    (hacc : Accounted cfg now h (arming s))
    (hno : (!manual && job.isTrigger) = false) :
    Accounted cfg now h (arming (lastSaved s (materialize cfg job s now catchup manual launch))) := by
  rw [arming_materialize, hno]
  simp only [Bool.false_eq_true, if_false]
  split_ifs
  · exact hacc.of_disarmed rfl rfl rfl rfl (fun hqueued => nomatch hqueued) (fun _ => rfl)
  · exact hacc

/-- Under a schedule only the fires of the past are accounted for. -/
theorem accounted_of_schedule_key
    {a : Arming} (sched : Schedule)
    (hspaced : (meter cfg).Spaced h.log)
    (hanchored : a.firedAt = ((meter cfg).last h.log).map Prod.fst)
    (hkey : a.key = cfg.driverKey (.schedule sched)) :
    Accounted cfg now h a where
  spaced := hspaced
  anchored := hanchored
  blank hempty := absurd (hkey.symm.trans hempty) (cfg.driverKey_ne_empty _)
  pending _ ht := nomatch cfg.driverKey_injective (hkey.symm.trans ht)
  owed _ ht := nomatch cfg.driverKey_injective (hkey.symm.trans ht)

/-- A row reset for a trigger has nothing to consume but what the reset allows. -/
theorem accounted_of_reset
    {a : Arming} {t : Trigger}
    (hacc : Accounted cfg now h a) (hdriver : job.driver = .trigger t) :
    Accounted cfg later (h.reseed job)
      { key := cfg.driverKey job.driver, firedAt := a.firedAt } := by
  have hlog : (h.reseed job).log = .reset :: h.log := by
    simp [History.reseed, ResolvedJob.isTrigger, hdriver]
  have hquiet : Quiet cfg h (h.reseed job) := Or.inr ⟨_, rfl, hlog⟩
  refine ⟨hquiet.spaced hacc.spaced, ?_, fun hempty => ?_, fun u hu _ => ?_, ?_⟩
  · rw [hquiet.last]
    exact hacc.anchored
  · exact absurd hempty (cfg.driverKey_ne_empty _)
  · cases hwatch : u.watch with
    | file path =>
        right
        simp [Consumed, hwatch]
    | body field op value =>
        left
        right
        rw [hlog]
        exact (causeSince_of_quiet rfl).mpr
          (Or.inl (by simp [meter, isEdge, watchesFile, hwatch]))
  · exact fun _ _ _ hqueued => nomatch hqueued

theorem reseed_log_of_schedule
    {sched : Schedule}
    (hdriver : job.driver = .schedule sched) :
    (h.reseed job).log = h.log := by
  simp [History.reseed, ResolvedJob.isTrigger, hdriver]

/-- A row taken over by a schedule. -/
theorem accounted_of_takeover
    {a a' : Arming} {sched : Schedule}
    (hacc : Accounted cfg now h a) (hdriver : job.driver = .schedule sched)
    (hkey : a'.key = cfg.driverKey job.driver) (hfired : a'.firedAt = a.firedAt) :
    Accounted cfg later (h.reseed job) a' := by
  have hlog : (h.reseed job).log = h.log := reseed_log_of_schedule hdriver
  refine accounted_of_schedule_key sched ?_ ?_ (hdriver ▸ hkey)
  · rw [hlog]
    exact hacc.spaced
  · rw [hlog, hfired]
    exact hacc.anchored

theorem accounted_any_time
    {a : Arming}
    (hacc : Accounted cfg now h a) (hfree : a.queued = true → a.running = true → False) :
    Accounted cfg later h a :=
  hacc.of_disarmed rfl rfl rfl rfl hfree id

theorem arming_finalizedRow_running {done : Int} (fin : Finish) :
    (arming (finalizedRow cfg (some job) s done fin)).running = false := by
  rw [arming_finalizedRow]
  split_ifs <;> rfl

/-- The queued re-fire of `_finalize`. -/
def refire (cfg : ServiceConfig) (job : ResolvedJob) (s : Row) (later : Int) (launch : Launch) :
    List Action :=
  if s.queuedDue && !s.disabled then
    .save { s with queuedDue := false } .kept ::
      materialize cfg job { s with queuedDue := false } later false false launch
  else []

theorem finalize_of_running
    {fin : Finish} {done : Int}
    (hrun : s.runningTaskId = some fin.taskId) :
    finalize cfg (some job) s done later fin launch =
      [.save (finalizedRow cfg (some job) s done fin)
          (.finalized fin.taskId fin.ok (maxFailures (some job))),
        .unlock, .deliver fin.taskId] ++
      refire cfg job (finalizedRow cfg (some job) s done fin) later launch := by
  simp only [finalize, hrun, if_pos, refire]

/-- The row of `_finalize` after its first save and the re-fire that it may owe. -/
theorem accounted_refire
    (hacc : Accounted cfg later h (arming s)) (hfloor : floorOk cfg job = true)
    (howed : ∀ t, job.driver = .trigger t → s.queuedDue = true →
      s.scheduleKey = cfg.driverKey (.trigger t) ∧ Owed cfg later h t (arming s)) :
    Accounted cfg later (h.fire job later (refire cfg job s later launch))
      (arming (lastSaved s (refire cfg job s later launch))) := by
  unfold refire
  split_ifs with hqueued
  · have hcleared : Accounted cfg later h (arming { s with queuedDue := false }) :=
      hacc.of_disarmed rfl rfl rfl rfl (fun hq => nomatch hq) (fun _ => rfl)
    cases hdriver : job.driver with
    | trigger t =>
        rw [Bool.and_eq_true] at hqueued
        obtain ⟨hkey, hdue⟩ := howed t hdriver hqueued.1
        refine accounted_fire hcleared hdriver hfloor hkey ?_ (started_materialize _ _ _)
        exact ⟨hdue.elapsed, hdue.caused, hdue.consumed⟩
    | schedule sched =>
        rw [fire_of_schedule hdriver]
        exact accounted_unfired hcleared (by simp [ResolvedJob.isTrigger, hdriver])
  · rw [fire_of_not_started rfl]
    exact hacc

/-- After the re-fire nothing is owed to a run in flight. -/
theorem free_refire
    (hidle : (arming s).running = false) :
    (arming (lastSaved s (refire cfg job s later launch))).queued = true →
      (arming (lastSaved s (refire cfg job s later launch))).running = true → False := by
  unfold refire
  split_ifs with hqueued
  · have hcleared : (arming (lastSaved s (.save { s with queuedDue := false } .kept ::
        materialize cfg job { s with queuedDue := false } later false false launch))).queued =
        false := by
      rw [lastSaved, arming_materialize]
      split_ifs <;> rfl
    exact fun h => nomatch hcleared.symm.trans h
  · exact fun _ h => nomatch hidle.symm.trans h

/-- No hot edit has brought the row's own trigger back after a tick under another
driver has written the row. -/
def Undisturbed (cfg : ServiceConfig) (job : ResolvedJob) (h : History) (key : String) : Prop :=
  job.isTrigger = true → key = cfg.driverKey job.driver → h.stale = false

theorem accounted_finish
    {fin : Finish} {done : Int}
    (hacc : Accounted cfg now h (arming s)) (hle : now ≤ later)
    (hfloor : floorOk cfg job = true) (hund : Undisturbed cfg job h s.scheduleKey)
    (hrun : s.runningTaskId = some fin.taskId) :
    let actions := finalize cfg (some job) s done later fin launch
    let reseeds := s.runningTaskId = some fin.taskId ∧ s.scheduleKey ≠ cfg.driverKey job.driver
    Accounted cfg later ((if reseeds then h.reseed job else h).fire job later actions)
      (arming (lastSaved s actions)) := by
  intro actions reseeds
  have hactions : lastSaved s actions =
      lastSaved (finalizedRow cfg (some job) s done fin)
        (refire cfg job (finalizedRow cfg (some job) s done fin) later launch) := by
    simp only [actions, finalize_of_running hrun]
    rfl
  have hstarted : started actions =
      started (refire cfg job (finalizedRow cfg (some job) s done fin) later launch) := by
    simp only [actions, finalize_of_running hrun, started_append]
    rfl
  have hrow : arming (finalizedRow cfg (some job) s done fin) = _ := arming_finalizedRow fin
  rw [fire_congr hstarted, hactions]
  refine accounted_refire ?_ hfloor ?_
  all_goals
    by_cases hkey : s.scheduleKey = cfg.driverKey job.driver
  · rw [if_neg (fun h => h.2 hkey), hrow, if_pos hkey]
    exact hacc.of_disarmed rfl rfl rfl rfl (fun _ hr => nomatch hr) id
  · rw [if_pos ⟨hrun, hkey⟩, hrow, if_neg hkey]
    cases hdriver : job.driver with
    | trigger t =>
        rw [if_pos (by simp [ResolvedJob.isTrigger, hdriver])]
        exact hdriver ▸ accounted_of_reset hacc hdriver
    | schedule sched =>
        rw [if_neg (by simp [ResolvedJob.isTrigger, hdriver])]
        exact accounted_of_takeover hacc hdriver (by rw [hdriver]) rfl
  · -- the re-fire runs under the trigger that queued it
    intro t hdriver hqueued
    rw [if_pos hkey] at hrow
    have hqueued' : (arming s).queued = true := by
      have := congrArg Arming.queued hrow
      exact this.symm.trans hqueued
    have hstale : h.stale = false :=
      hund (by simp [ResolvedJob.isTrigger, hdriver]) hkey
    have hdue := hacc.owed t (hdriver ▸ hkey) hstale hqueued' (by simp [arming, hrun])
    rw [if_neg (fun h => h.2 hkey), hrow]
    refine ⟨?_, hdue.elapsed.mono hle, hdue.caused, hdue.consumed⟩
    exact (congrArg Arming.key hrow).trans (hdriver ▸ hkey)
  · intro t hdriver hqueued
    rw [if_neg hkey, if_pos (by simp [ResolvedJob.isTrigger, hdriver])] at hrow
    have hfree := congrArg Arming.queued hrow
    exact nomatch hqueued.symm.trans hfree

/-! ### The tick -/

/-- The fields that no evaluation writes. -/
def Arming.Kept (a a' : Arming) : Prop :=
  a'.key = a.key ∧ a'.running = a.running ∧ a'.firedAt = a.firedAt

theorem kept_takeEdge (r : Row) :
    Arming.Kept (arming r) (arming (takeEdge job r)) := by
  obtain ⟨queued, htake⟩ := arming_takeEdge job r
  rw [htake]
  exact ⟨rfl, rfl, rfl⟩

/-- An evaluation leaves the key, the run and the anchor alone. -/
theorem kept_evalDriver :
    Arming.Kept (arming s) (arming (evalDriver cfg job s now sight).state) := by
  unfold evalDriver evalTrigger evalFileTrigger evalBodyTrigger evalSchedule
  split
  · split
    · split
      · exact ⟨rfl, rfl, rfl⟩
      · split_ifs
        all_goals first | exact ⟨rfl, rfl, rfl⟩ | exact kept_takeEdge { s with triggerSeenMtime := _ }
    · split_ifs
      all_goals first | exact ⟨rfl, rfl, rfl⟩ | exact kept_takeEdge { s with triggerHeld := true }
  · split
    · exact ⟨rfl, rfl, rfl⟩
    · split_ifs
      all_goals first | exact ⟨rfl, rfl, rfl⟩ | exact kept_takeEdge s

/-- The evaluation and the fire of a tick, on a row under the job's own driver. -/
theorem accounted_eval
    {actions : List Action}
    (hacc : Accounted cfg now h (arming s)) (hfloor : floorOk cfg job = true)
    (hkey : s.scheduleKey = cfg.driverKey job.driver)
    (hstale : job.isTrigger = true → h.stale = false)
    (hstarted : started actions =
      ((evalDriver cfg job s now sight).fires && launch.added.isSome)) :
    let verdict := evalDriver cfg job s now sight
    Accounted cfg now ((h.look job sight).fire job now actions)
      (if verdict.fires then
        arming (lastSaved verdict.state
          (materialize cfg job verdict.state now (!job.isTrigger && catchup) false launch))
      else arming verdict.state) := by
  intro verdict
  obtain ⟨hkey', hrunning', hfired'⟩ : Arming.Kept (arming s) (arming verdict.state) :=
    kept_evalDriver
  have hkeep : verdict.state.scheduleKey = cfg.driverKey job.driver := hkey'.trans hkey
  cases hdriver : job.driver with
  | trigger t =>
      have hobserved : h.look job sight = h.observe t sight := by simp [History.look, hdriver]
      have hverdict : verdict = evalTrigger cfg job t s now sight := by
        simp only [verdict, evalDriver, hdriver]
      have htrig : job.isTrigger = true := by simp [ResolvedJob.isTrigger, hdriver]
      have hout : Outcome cfg now h (h.look job sight) t (arming s) (arming verdict.state) verdict.fires := by
        rw [hobserved, hverdict]
        exact outcome_evalTrigger (hacc.pending t (hdriver ▸ hkey) (hstale htrig))
      have hquiet : Quiet cfg h (h.look job sight) := hobserved ▸ observe_log cfg h t sight
      have hacc' : Accounted cfg now (h.look job sight) (arming verdict.state) :=
        hacc.of_outcome (hdriver ▸ hkey) (hstale htrig) hquiet hout
      split_ifs with hfires
      · rw [show (evalDriver cfg job s now sight).fires = true from hfires,
          Bool.true_and] at hstarted
        rw [hfires] at hout
        exact accounted_fire hacc' hdriver hfloor (hdriver ▸ hkeep) hout.owed hstarted
      · rw [show (evalDriver cfg job s now sight).fires = false from Bool.eq_false_iff.mpr hfires,
          Bool.false_and] at hstarted
        rw [fire_of_not_started hstarted]
        exact hacc'
  | schedule sched =>
      have hobserved : h.look job sight = h := by simp [History.look, hdriver]
      rw [hobserved, fire_of_schedule hdriver]
      have hacc' : Accounted cfg now h (arming verdict.state) :=
        accounted_of_schedule_key sched hacc.spaced (hfired'.trans hacc.anchored)
          (hdriver ▸ hkeep)
      split_ifs
      · exact accounted_unfired hacc' (by simp [ResolvedJob.isTrigger, hdriver])
      · exact hacc'

theorem disturb_of_not_drifted
    {s' : Row}
    (hdrift : drifted cfg job s = false) :
    h.disturb cfg job s s' = h := by
  simp [History.disturb, hdrift]

/-- A tick under another driver than the row's, with a run in flight: a row whose
trigger fields it left alone still agrees, and one it wrote is stale. -/
theorem accounted_drifted
    {s' : Row} {h' : History}
    (hacc : Accounted cfg now h (arming s))
    (hkey : s.scheduleKey ≠ cfg.driverKey job.driver) (hne : s.scheduleKey ≠ "")
    (hrun : s.runningTaskId ≠ none)
    (hkept : Arming.Kept (arming s) (arming s'))
    (hobserved : h' = h ∨ ∃ t, job.driver = .trigger t ∧ h' = h.observe t sight) :
    Accounted cfg now (h'.disturb cfg job s s') (arming s') := by
  obtain ⟨hkey', hrunning', hfired'⟩ := hkept
  have hquiet : Quiet cfg h (h'.disturb cfg job s s') := by
    rcases hobserved with rfl | ⟨t, _, rfl⟩
    · exact Or.inl rfl
    · exact observe_log cfg h t sight
  have hdrift : drifted cfg job s = true := by
    simp [drifted, hne, hkey, Option.isSome_iff_ne_none.mpr hrun]
  -- an undisturbed row has the fields it had
  have hsame : (h'.disturb cfg job s s').stale = false →
      h.stale = false ∧ (arming s').seen = (arming s).seen ∧ (arming s').held = (arming s).held ∧
        (arming s').queued = (arming s).queued := by
    intro hstale
    have hstale' : h'.stale = h.stale := by
      rcases hobserved with rfl | ⟨t, _, rfl⟩
      · rfl
      · exact observe_stale h t sight
    simp only [History.disturb, hdrift, Bool.true_and, Bool.or_eq_false_iff,
      Bool.not_eq_false', decide_eq_true_eq, hstale'] at hstale
    exact ⟨hstale.1, hstale.2⟩
  have hconsumed : ∀ u, (arming s).key = cfg.driverKey (.trigger u) → Consumed h u (arming s) →
      (arming s').seen = (arming s).seen → (arming s').held = (arming s).held →
      Consumed (h'.disturb cfg job s s') u (arming s') := by
    intro u hu hcons hseen hheld
    have hcons' : Consumed h u (arming s') := by rwa [Consumed, hseen, hheld]
    rcases hobserved with rfl | ⟨t, hdriver, rfl⟩
    · exact hcons'
    · have hne' : u ≠ t := fun heq => hkey (by rw [hdriver, ← heq]; exact hu)
      exact (consumed_observe_of_ne hne').mpr hcons'
  refine ⟨hquiet.spaced hacc.spaced, ?_, fun hempty => ?_, fun u hu hstale => ?_, ?_⟩
  · rw [hfired', hacc.anchored, hquiet.last]
  · exact absurd (hkey'.symm.trans hempty) hne
  · rw [hkey'] at hu
    obtain ⟨hstale₀, hseen, hheld, _⟩ := hsame hstale
    exact (hacc.pending u hu hstale₀).imp hquiet.caused
      fun hcons => hconsumed u hu hcons hseen hheld
  · intro u hu hstale hqueued hrunning
    rw [hkey'] at hu
    obtain ⟨hstale₀, hseen, hheld, hqueued'⟩ := hsame hstale
    have howed := hacc.owed u hu hstale₀ (hqueued' ▸ hqueued) (hrunning' ▸ hrunning)
    refine ⟨?_, hquiet.caused howed.caused, hconsumed u hu howed.consumed hseen hheld⟩
    intro firedAt hfired
    exact howed.elapsed firedAt (hfired' ▸ hfired)

/-- The tick goes on with a row under the job's own driver. -/
theorem accounted_goesOn
    {drift : Drift}
    (hdis : s.disabled = false)
    (hdrift : checkDrift cfg job { s with sourceFile := job.sourceFile } now = drift)
    (hgoes : drift.goesOn = true) (hown : drifted cfg job s = false)
    (hkey : drift.state.scheduleKey = cfg.driverKey job.driver)
    (hacc : Accounted cfg now h (arming drift.state)) (hfloor : floorOk cfg job = true)
    (hstale : job.isTrigger = true → h.stale = false) :
    let actions := tickJob cfg job s now sight catchup launch
    let s' := lastSaved s actions
    Accounted cfg now (((h.look job sight).disturb cfg job s s').fire job now actions)
      (arming s') := by
  intro actions s'
  have hverdict : evalDriver cfg job drift.state now sight = _ := rfl
  have hrow : arming s' = _ := arming_tickJob hdis hdrift hverdict
  have hstarted : started actions = _ := started_tickJob hdis hdrift hverdict
  rw [disturb_of_not_drifted hown, hrow, if_pos hgoes]
  rw [hgoes, Bool.true_and] at hstarted
  exact accounted_eval hacc hfloor hkey hstale hstarted

theorem accounted_tick
    (hacc : Accounted cfg now h (arming s)) (hfloor : floorOk cfg job = true)
    (hund : Undisturbed cfg job h s.scheduleKey) :
    let actions := tickJob cfg job s now sight catchup launch
    let s' := lastSaved s actions
    Accounted cfg now (tickHistory cfg job h s s' now sight actions) (arming s') := by
  intro actions s'
  cases hdis : s.disabled with
  | true =>
      have hnone : actions = [] := by simp [actions, tickJob, hdis]
      rw [show s' = s by simp [s', hnone, lastSaved], tickHistory, if_pos hdis]
      exact hacc
  | false =>
      rw [tickHistory, if_neg (by simp [hdis])]
      by_cases hkey : s.scheduleKey = cfg.driverKey job.driver
      · rw [if_neg (fun h => h.1 hkey)]
        refine accounted_goesOn hdis (checkDrift_of_eq hkey) rfl ?_ hkey hacc hfloor ?_
        · simp [drifted, hkey]
        · exact fun htrig => hund htrig hkey
      by_cases hempty : s.scheduleKey = ""
      · rw [if_neg (fun h => h.2.1 hempty)]
        obtain ⟨hqueued, hnone, hstale⟩ := hacc.blank hempty
        have hlast : (meter cfg).last h.log = none := by
          simpa [hnone] using hacc.anchored.symm
        refine accounted_goesOn hdis (checkDrift_of_empty hempty) rfl ?_ rfl ?_ hfloor
          fun _ => hstale
        · simp [drifted, hempty]
        · exact ⟨hacc.spaced, hacc.anchored, fun hblank => absurd hblank (cfg.driverKey_ne_empty _),
            fun _ _ _ => Or.inl (Or.inl hlast), fun _ _ _ hq => nomatch hqueued.symm.trans hq⟩
      by_cases hidle : s.runningTaskId = none
      · rw [if_pos ⟨hkey, hempty, hidle⟩]
        have hown : drifted cfg job s = false := by simp [drifted, hidle]
        rcases job.driver_cases with ⟨t, hdriver⟩ | ⟨sched, hdriver⟩
        · refine accounted_goesOn hdis (checkDrift_of_idle_trigger hdriver hkey hempty hidle) rfl
            hown rfl ?_ hfloor fun _ => rfl
          have hfields : arming (resetTrigger
              { s with scheduleKey := cfg.driverKey job.driver, sourceFile := job.sourceFile }) =
              { key := cfg.driverKey job.driver, firedAt := (arming s).firedAt } := by
            simp [arming, resetTrigger, hidle]
          rw [hfields]
          exact accounted_of_reset hacc hdriver
        · let idle : Row := { s with sourceFile := job.sourceFile }
          have hdrift : checkDrift cfg job idle now = _ :=
            checkDrift_of_idle_schedule hdriver hkey hempty hidle
          have hrow : arming s' = _ := arming_tickJob hdis hdrift rfl
          rw [if_neg Bool.false_ne_true] at hrow
          rw [disturb_of_not_drifted hown, fire_of_schedule hdriver, History.look, hdriver, hrow]
          exact accounted_of_takeover hacc hdriver rfl rfl
      · rw [if_neg (fun h => hidle h.2.2)]
        have hdrift : checkDrift cfg job { s with sourceFile := job.sourceFile } now = _ :=
          checkDrift_of_running hkey hempty hidle
        have hkept : Arming.Kept (arming s) (arming (evalDriver cfg job
            { s with sourceFile := job.sourceFile } now sight).state) := kept_evalDriver
        have hfires : (evalDriver cfg job
            { s with sourceFile := job.sourceFile } now sight).fires = false :=
          Bool.eq_false_iff.mpr fun h =>
            hidle (idle_of_fires (s := { s with sourceFile := job.sourceFile }) h)
        have hrow : arming s' = _ := arming_tickJob hdis hdrift rfl
        have hstarted : started actions = _ := started_tickJob hdis hdrift rfl
        rw [if_pos rfl, hfires, if_neg Bool.false_ne_true] at hrow
        rw [hfires, Bool.and_false, Bool.false_and] at hstarted
        rw [fire_of_not_started hstarted]
        have hobserved : h.look job sight = h ∨
            ∃ t, job.driver = .trigger t ∧ h.look job sight = h.observe t sight := by
          rcases job.driver_cases with ⟨t, hdriver⟩ | ⟨sched, hdriver⟩
          · exact Or.inr ⟨t, hdriver, by simp only [History.look, hdriver]⟩
          · exact Or.inl (by simp only [History.look, hdriver])
        exact accounted_drifted hacc hkey hempty hidle (hrow ▸ hkept) hobserved

end Steps

/-! ### Runs -/

/-- No step goes on with a row that a tick under another driver has written: where a
tick or a completion finds the row's own trigger in force, the row is not stale. -/
def Settled (cfg : ServiceConfig) (st : State) : Label → Prop
  | .tick .. | .completed .. =>
      ∀ s, st.row = some s → Undisturbed cfg st.job st.history s.scheduleKey
  | _ => True

/-- The row, or the one that `ensure` would create. -/
def State.arming (st : State) : Arming := (st.row.map Triggers.arming).getD {}

/-- The invariant of a run. -/
structure Inv (cfg : ServiceConfig) (st : State) : Prop where
  accounted : Accounted cfg st.clock st.history st.arming
  floor : floorOk cfg st.job = true

section Runs

variable {cfg : ServiceConfig} {jobId : String} {st st' : State}

theorem arming_ensured (now : Int) :
    arming (st.ensured jobId now) = st.arming := by
  unfold State.ensured State.arming
  cases st.row <;> rfl

theorem arming_bootPass {job : ResolvedJob} {s : Row} {now : Int} :
    arming (lastSaved s (bootPass cfg job s now).1) = arming s := by
  unfold bootPass
  split
  · split_ifs
    · rfl
    · cases job.catchup <;> rfl
  · rfl

theorem boot_eq (cfg : ServiceConfig) (st : State) (now : Int) :
    (boot cfg st now).arming = st.arming ∧ (boot cfg st now).job = st.job ∧
      (boot cfg st now).history = st.history ∧ (boot cfg st now).clock = st.clock ∧
      ∀ s, (boot cfg st now).row = some s → ∃ r, st.row = some r ∧ arming s = arming r := by
  unfold boot
  split
  next => exact ⟨rfl, rfl, rfl, rfl, fun s hs => ⟨s, hs, rfl⟩⟩
  next hrow => exact ⟨rfl, rfl, rfl, rfl, fun s hs => ⟨s, hs, rfl⟩⟩
  next r _ hrow =>
    refine ⟨?_, rfl, rfl, rfl, fun s hs => ⟨r, hrow, ?_⟩⟩
    · simp [State.arming, hrow, arming_bootPass]
    · obtain rfl := Option.some.inj hs
      exact arming_bootPass

theorem arming_of_row
    {s : Row}
    (hrow : st.row = some s) :
    st.arming = arming s := by
  simp [State.arming, hrow]

theorem fire_stale {h : History} {job : ResolvedJob} {now : Int} {actions : List Action} :
    (h.fire job now actions).stale = h.stale := by
  unfold History.fire
  split
  · split <;> rfl
  · rfl

/-- What a completion leaves: the accounts, and nothing stale under a trigger. -/
theorem finish_spec
    {s : Row} (fin : Finish) (done : Int) {later : Int} (launch : Launch)
    (hacc : Accounted cfg st.clock st.history (arming s)) (hfloor : floorOk cfg st.job = true)
    (hund : Undisturbed cfg st.job st.history s.scheduleKey)
    (hle : st.clock ≤ later) :
    let st' := finish cfg st s fin done later launch
    Accounted cfg later st'.history st'.arming ∧
      (s.runningTaskId = some fin.taskId →
        (st'.arming.queued = true → st'.arming.running = true → False) ∧
        (st.job.isTrigger = true → st'.history.stale = false)) := by
  intro st'
  by_cases hrun : s.runningTaskId = some fin.taskId
  · refine ⟨accounted_finish hacc hle hfloor hund hrun, fun _ => ⟨?_, fun htrig => ?_⟩⟩
    · have hrow : st'.arming = arming (lastSaved (finalizedRow cfg (some st.job) s done fin)
          (refire cfg st.job (finalizedRow cfg (some st.job) s done fin) later launch)) := by
        simp only [st', State.arming, finish, finalize_of_running hrun]
        rfl
      rw [hrow]
      exact free_refire (arming_finalizedRow_running fin)
    · have hstale : st'.history.stale =
          (if s.runningTaskId = some fin.taskId ∧ s.scheduleKey ≠ cfg.driverKey st.job.driver
            then st.history.reseed st.job else st.history).stale := fire_stale
      rw [hstale]
      split_ifs with hreseed
      · rfl
      · exact hund htrig (by_contra fun hne => hreseed ⟨hrun, hne⟩)
  · refine ⟨?_, fun h => absurd h hrun⟩
    have hactions : finalize cfg (some st.job) s done later fin launch = [.unlock] := by
      simp [finalize, hrun]
    have hkept : st'.history = st.history := by
      simp only [st', finish, hactions]
      rw [fire_of_not_started rfl, if_neg (fun h => hrun h.1)]
    have hrow : st'.arming = arming s := by
      simp only [st', State.arming, finish, hactions]
      rfl
    rw [hkept, hrow]
    exact hacc.mono hle

/-- `_reconcile_running` keeps the accounts at the time of its tick, whatever the clock
shows when a completion in it is over. -/
theorem reconcile_spec
    (st : State) {now : Int} {answer : Answer}
    (hacc : Accounted cfg now st.history st.arming) (hfloor : floorOk cfg st.job = true)
    (hund : ∀ s, st.row = some s → Undisturbed cfg st.job st.history s.scheduleKey)
    (hclock : st.clock = now)
    (h : reconcile cfg st now answer = some st') :
    Accounted cfg now st'.history st'.arming ∧ st'.job = st.job ∧ now ≤ st'.clock ∧
      ∀ s, st'.row = some s → Undisturbed cfg st'.job st'.history s.scheduleKey := by
  have hsame : Accounted cfg now st.history st.arming ∧ st.job = st.job ∧ now ≤ st.clock ∧
      ∀ s, st.row = some s → Undisturbed cfg st.job st.history s.scheduleKey :=
    ⟨hacc, rfl, Int.le_of_eq hclock.symm, hund⟩
  unfold reconcile at h
  cases hrow : st.row with
  | none =>
      simp only [hrow, Option.some.injEq] at h
      subst h
      exact hsame
  | some s =>
      simp only [hrow] at h
      have harm : st.arming = arming s := arming_of_row hrow
      cases hrun : s.runningTaskId with
      | none =>
          simp only [hrun, Option.some.injEq] at h
          subst h
          exact hsame
      | some taskId =>
          simp only [hrun] at h
          cases answer with
          | running =>
              simp only [Option.some.injEq] at h
              subst h
              exact hsame
          | lost =>
              simp only [Option.some.injEq] at h
              subst h
              have hlost : arming (lastSaved s (loseTask s)) = { arming s with running := false } := by
                simp [loseTask, hrun, lastSaved, arming]
              refine ⟨?_, rfl, Int.le_of_eq hclock.symm, fun r hr => ?_⟩
              · rw [State.arming, Option.map_some, Option.getD_some, hlost]
                rw [harm] at hacc
                exact hacc.of_disarmed rfl rfl rfl rfl (fun _ hr => nomatch hr) id
              · obtain rfl := Option.some.inj hr
                have hkey : (lastSaved s (loseTask s)).scheduleKey = s.scheduleKey :=
                  congrArg Arming.key hlost
                exact hkey.symm ▸ hund s hrow
          | finished fin done later launch =>
              dsimp only at h
              split_ifs at h with hguard
              obtain ⟨htask, hdone, hlater⟩ := hguard
              obtain rfl := Option.some.inj h
              obtain ⟨hacc', hfree⟩ := finish_spec fin done launch
                (hclock.symm ▸ harm ▸ hacc) hfloor (hund s hrow)
                (hclock.symm ▸ Int.le_trans hdone hlater)
              obtain ⟨hfree, hstale⟩ := hfree (by rw [hrun, htask])
              exact ⟨accounted_any_time hacc' hfree, rfl, Int.le_trans hdone hlater,
                fun r hr htrig _ => hstale htrig⟩

theorem inv_evaluate
    {now : Int} {sight : Sight} {launch : Launch}
    (hacc : Accounted cfg now st.history st.arming) (hfloor : floorOk cfg st.job = true)
    (hclock : now ≤ st.clock)
    (hund : ∀ s, st.row = some s → Undisturbed cfg st.job st.history s.scheduleKey) :
    Inv cfg (evaluate cfg jobId st now sight launch) := by
  unfold evaluate
  split_ifs
  · refine ⟨?_, hfloor⟩
    have hund' : Undisturbed cfg st.job st.history (st.ensured jobId now).scheduleKey := by
      unfold State.ensured
      cases hrow : st.row with
      | none => exact fun _ hempty => absurd hempty.symm (cfg.driverKey_ne_empty _)
      | some s => exact hund s hrow
    rw [← arming_ensured now] at hacc
    exact (accounted_tick hacc hfloor hund').mono hclock
  · exact ⟨hacc.mono hclock, hfloor⟩

theorem inv_step
    {a : Label}
    (hinv : Inv cfg st) (hsettled : Settled cfg st a)
    (h : step cfg jobId st a = some st') :
    Inv cfg st' := by
  cases a with
  | tick now answer sight launch =>
      simp only [step] at h
      split_ifs at h with hclock
      obtain ⟨st₁, hrec, rfl⟩ := Option.map_eq_some_iff.mp h
      obtain ⟨harm, hjob, hhistory, _, hrows⟩ := boot_eq cfg st now
      have hacc : Accounted cfg now (boot cfg st now).history (boot cfg st now).arming := by
        rw [harm, hhistory]
        exact hinv.accounted.mono hclock
      have hund : ∀ s, (boot cfg st now).row = some s →
          Undisturbed cfg (boot cfg st now).job (boot cfg st now).history s.scheduleKey := by
        intro s hs
        obtain ⟨r, hr, hsr⟩ := hrows s hs
        have hkey : s.scheduleKey = r.scheduleKey := congrArg Arming.key hsr
        rw [hjob, hhistory, hkey]
        exact hsettled r hr
      obtain ⟨hacc', hjob', hle, hund'⟩ :=
        reconcile_spec { boot cfg st now with clock := now } hacc (hjob ▸ hinv.floor)
          hund rfl hrec
      exact inv_evaluate hacc' (hjob' ▸ hjob ▸ hinv.floor) hle hund'
  | completed fin done later launch =>
      simp only [step] at h
      split_ifs at h with hclock
      obtain ⟨hdone, hlater⟩ := hclock
      have hle : st.clock ≤ later := Int.le_trans hdone hlater
      cases hrow : st.row with
      | none =>
          simp only [hrow, Option.some.injEq] at h
          subst h
          have hacc := hinv.accounted
          rw [State.arming, hrow] at hacc
          exact ⟨hacc.mono hle, hinv.floor⟩
      | some s =>
          simp only [hrow, Option.some.injEq] at h
          subst h
          have hacc := hinv.accounted
          rw [arming_of_row hrow] at hacc
          exact ⟨(finish_spec fin done launch hacc hinv.floor (hsettled s hrow) hle).1, hinv.floor⟩
  | runNow now launch =>
      simp only [step] at h
      split_ifs at h with hclock
      obtain rfl := Option.some.inj h
      refine ⟨?_, hinv.floor⟩
      have hacc : Accounted cfg now st.history (arming (st.ensured jobId now)) := by
        rw [arming_ensured]
        exact hinv.accounted.mono hclock
      show Accounted cfg now st.history (arming (lastSaved (st.ensured jobId now) _))
      unfold runNow
      split_ifs
      · exact hacc
      · exact accounted_unfired hacc rfl
  | restart =>
      obtain rfl := Option.some.inj h
      exact ⟨hinv.accounted, hinv.floor⟩
  | edit job =>
      simp only [step] at h
      split_ifs at h with hfloor
      obtain rfl := Option.some.inj h
      exact ⟨hinv.accounted, hfloor⟩

theorem inv_initial
    {job : ResolvedJob} {clock : Int}
    (hfloor : floorOk cfg job = true) :
    Inv cfg (initial job clock) where
  accounted :=
    { spaced := trivial
      anchored := rfl
      blank := fun _ => ⟨rfl, rfl, rfl⟩
      pending := fun _ _ _ => Or.inl (Or.inl rfl)
      owed := fun _ _ _ hqueued => nomatch hqueued }
  floor := hfloor

end Runs

/-- **Trigger floor and edge accounting.**  Any two trigger fires of the job are the
cooldown of the later one apart, and between them a tick has seen an edge of the later
one's trigger. -/
theorem fires_spaced_and_caused
    (cfg : ServiceConfig) (jobId : String) (job : ResolvedJob) (clock : Int)
    (hfloor : floorOk cfg job = true) (st : State)
    (h : Reach (step cfg jobId) (Settled cfg) (initial job clock) st) :
    ∀ pre mid post now₁ now₂ t₁ t₂,
      st.history.log = pre ++ .fired now₂ t₂ :: (mid ++ .fired now₁ t₁ :: post) →
      cooldown cfg t₂ ≤ now₂ - now₁ ∧ ∃ e ∈ mid, isEdge t₂ e = true := by
  have hinv : Inv cfg st :=
    h.invariant (P := Inv cfg) (inv_initial hfloor) fun _ _ _ hi hc hs => inv_step hi hc hs
  intro pre mid post now₁ now₂ t₁ t₂ hlog
  have hspaced : (meter cfg).Spaced (pre ++ .fired now₂ t₂ :: (mid ++ .fired now₁ t₁ :: post)) :=
    hlog ▸ hinv.accounted.spaced
  exact hspaced.apart rfl rfl

/-- A file trigger with a cooldown of a hundred ticks. -/
def slowJob : ResolvedJob where
  driver := .trigger ⟨.file "notes.md", some 100⟩
  overlap := .queue

/-- The same job under another file and the default cooldown. -/
def fastJob : ResolvedJob where
  driver := .trigger ⟨.file "todo.md", none⟩
  overlap := .queue

/-- The job fires under the first trigger; while its run is in flight a tick under the
second owes it a re-fire, and the first is edited back before the run is over. -/
def editedBack : List Label :=
  [.tick 0 .running { mtime := some 1 } { added := none },
    .tick 1 .running { mtime := some 2 } { added := some "t1" },
    .edit fastJob,
    .tick 12 .running { mtime := some 5 } { added := none },
    .edit slowJob,
    .completed { taskId := "t1", ok := true } 13 13 { added := some "t2" }]

theorem fires_not_spaced :
    ¬ ∀ (cfg : ServiceConfig) (jobId : String) (job : ResolvedJob) (clock : Int),
      floorOk cfg job = true →
      ∀ st, Reach (step cfg jobId) (fun _ _ => True) (initial job clock) st →
      ∀ pre mid post now₁ now₂ t₁ t₂,
        st.history.log = pre ++ .fired now₂ t₂ :: (mid ++ .fired now₁ t₁ :: post) →
        cooldown cfg t₂ ≤ now₂ - now₁ ∧ ∃ e ∈ mid, isEdge t₂ e = true := by
  intro hall
  have hreach := reach_run (show
    (run (step tenTicks "watch") (initial slowJob 0) editedBack).isSome = true by decide)
  have hfires := hall tenTicks "watch" slowJob 0 (by decide) _ hreach [] []
    [.newMtime ⟨.file "notes.md", some 100⟩] 1 13 ⟨.file "notes.md", some 100⟩
    ⟨.file "notes.md", some 100⟩ (by decide)
  exact absurd hfires.1 (by decide)

/-- Two fires, the second of a change seen inside the cooldown window. -/
def twoFires : List Label :=
  [.tick 0 .running { mtime := some 1 } { added := none },
    .tick 1 .running { mtime := some 2 } { added := some "t1" },
    .completed { taskId := "t1", ok := true } 5 5 { added := none },
    .tick 60 .running { mtime := some 3 } { added := none },
    .tick 102 .running { mtime := some 3 } { added := some "t2" }]

theorem fires_spaced_and_caused_twoFires :
    ∃ st, run (step tenTicks "watch") (initial slowJob 0) twoFires = some st ∧
      ∀ pre mid post now₁ now₂ t₁ t₂,
        st.history.log = pre ++ .fired now₂ t₂ :: (mid ++ .fired now₁ t₁ :: post) →
        cooldown tenTicks t₂ ≤ now₂ - now₁ ∧ ∃ e ∈ mid, isEdge t₂ e = true := by
  have hrun := run_eq_getD (show
    (run (step tenTicks "watch") (initial slowJob 0) twoFires).isSome = true by decide)
  have hguarded : Guarded (step tenTicks "watch") (Settled tenTicks) (initial slowJob 0)
      twoFires := by
    refine guarded_of_checkRun (fun st _ => !st.history.stale) (fun st a hcheck => ?_) (by decide)
    have hstale : st.history.stale = false := by simpa using hcheck
    cases a <;> first | exact trivial | exact fun _ _ _ _ => hstale
  exact ⟨_, hrun, fires_spaced_and_caused tenTicks "watch" slowJob 0 (by decide) _
    (reach_of_run hrun hguarded)⟩

end Triggers
end Cron
end DiploidAgent
