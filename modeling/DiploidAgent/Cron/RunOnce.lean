import DiploidAgent.Cron.Interleaving

/-!
# Cron runs exactly once

In every run in which each thread that writes a row back finds the recorded
fields as it last knew them, a task is finalized and delivered at most once, at
most one task of a job is in flight, and the rows hold exactly what was recorded.

`Script` says of a thread what it is still to do and what it relies on; the
invariant rules follow action by action.
-/

namespace DiploidAgent
namespace Cron
namespace Threads

open Runs

/-! ### What was recorded of a task -/

def startsTask (taskId : String) : Entry → Bool
  | .noted _ _ (.started id) => id == taskId
  | _ => false

def finalizesTask (taskId : String) : Entry → Bool
  | .noted _ _ (.finalized id _ _) => id == taskId
  | _ => false

def begun (log : List Entry) (taskId : String) : Bool := log.any (startsTask taskId)

def finals (log : List Entry) (taskId : String) : Nat := log.countP (finalizesTask taskId)

/-- The thread that finalized the task last. -/
def finalizer (taskId : String) : List Entry → Option Nat
  | [] => none
  | .noted i _ (.finalized id _ _) :: rest => if id = taskId then some i else finalizer taskId rest
  | _ :: rest => finalizer taskId rest

/-- What holds of a task in front of a thread and a job. -/
structure Facts where
  owns : String → Prop
  fresh : String → Prop
  begun : String → Prop
  closed : String → Prop
  quiet : String → Prop
  due : String → Prop

def Stage.closed (stage : Stage) : Prop := stage = .ended ∨ stage = .gone

theorem Stage.not_closed_unknown : ¬ Stage.unknown.closed := by simp [Stage.closed]

theorem Stage.not_closed_ready : ¬ Stage.ready.closed := by simp [Stage.closed]

/-- The facts of a state: the thread was given the id for the job; the task was not, or
was, recorded as started; it has ended or is lost; it is known and does not execute;
the thread has finalized it and still owes the delivery. -/
def State.facts (s : State) (i : Nat) (j : String) : Facts where
  owns t := s.home t = some (i, j)
  fresh t := Threads.begun s.log t = false
  begun t := Threads.begun s.log t = true
  closed t := (s.stage t).closed
  quiet t := s.stage t ≠ .unknown ∧ s.stage t ≠ .executing
  due t := finalizer t s.log = some i ∧ t ∉ s.delivered

/-- The facts that only grow into those of another state. -/
structure Facts.Grow (F F' : Facts) : Prop where
  owns : ∀ t, F.owns t → F'.owns t
  fresh : ∀ t, F.owns t → F.fresh t → F'.fresh t
  begun : ∀ t, F.begun t → F'.begun t
  closed : ∀ t, F.closed t → F'.closed t
  quiet : ∀ t, F.owns t → F.quiet t → F'.quiet t

/-! ### Scripts -/

/-- A row that carries out a note on the fields. -/
structure Records (j : String) (b : Fields) (row : Row) (note : Note) : Prop where
  jobId : row.jobId = j
  fields : fields row = applyNote b note

/-- After a run was recorded as started. -/
inductive Starting (j : String) (b : Fields) (t : String) : List Action → Prop where
  | start : Starting j b t [.start t]
  | fail {row : Row} (hrow : Records j b row (.notStarted t)) :
      Starting j b t [.failStart t, .save row (.notStarted t)]

/-- A materialization, from any of its actions on. -/
inductive Launching (F : Facts) (j : String) (b : Fields) : List Action → Prop where
  | nothing : Launching F j b []
  | add {t : String} {row : Row} {rest : List Action}
      (howns : F.owns t) (hfresh : F.fresh t) (hidle : b.runningTaskId = none)
      (hrow : Records j b row (.started t)) (hrest : Starting j (fields row) t rest) :
      Launching F j b (.add t :: .save row (.started t) :: rest)
  | save {t : String} {row : Row} {rest : List Action}
      (howns : F.owns t) (hfresh : F.fresh t) (hquiet : F.quiet t)
      (hidle : b.runningTaskId = none)
      (hrow : Records j b row (.started t)) (hrest : Starting j (fields row) t rest) :
      Launching F j b (.save row (.started t) :: rest)
  | start {t : String} (howns : F.owns t) (hbegun : F.begun t) : Launching F j b [.start t]
  | fail {t : String} {row : Row} (howns : F.owns t) (hquiet : F.quiet t)
      (hrun : b.runningTaskId = some t) (hrow : Records j b row (.notStarted t)) :
      Launching F j b [.failStart t, .save row (.notStarted t)]
  | undo {t : String} {row : Row} (hclosed : F.closed t)
      (hrun : b.runningTaskId = some t) (hrow : Records j b row (.notStarted t)) :
      Launching F j b [.save row (.notStarted t)]

/-- What a section does but for completions. -/
inductive Work (F : Facts) (j : String) (b : Fields) : List Action → Prop where
  | launch {acts : List Action} (h : Launching F j b acts) : Work F j b acts
  | kept {row : Row} {rest : List Action} (hrow : Records j b row .kept)
      (hrest : Work F j b rest) : Work F j b (.save row .kept :: rest)
  | lost {t : String} {row : Row} (hrun : b.runningTaskId = some t)
      (hrow : Records j b row (.lost t)) : Work F j b [.save row (.lost t)]
  | billed {today : String} {row : Row} (hrow : Records j b row (.billed today)) :
      Work F j b [.save row (.billed today)]
  | drop (hidle : b.runningTaskId = none) : Work F j b [.drop]

/-- What a thread is still to do. -/
inductive Script (F : Facts) (j : String) (b : Fields) : List Action → Prop where
  | work {acts : List Action} (h : Work F j b acts) : Script F j b acts
  | finalize {t : String} {ok : Bool} {m : Int} {row : Row} {rest : List Action}
      (hrun : b.runningTaskId = some t) (hclosed : F.closed t)
      (hrow : Records j b row (.finalized t ok m)) (hrest : Work F j (fields row) rest) :
      Script F j b (.save row (.finalized t ok m) :: .unlock :: .deliver t :: rest)
  | unlock {t : String} {rest : List Action} (hdue : F.due t) (hrest : Work F j b rest) :
      Script F j b (.unlock :: .deliver t :: rest)
  | deliver {t : String} {rest : List Action} (hdue : F.due t) (hrest : Work F j b rest) :
      Script F j b (.deliver t :: rest)
  | giveUp : Script F j b [.unlock]

section Scripts

variable {F F' : Facts} {j : String} {b : Fields} {acts : List Action}

theorem Launching.grow
    (h : Launching F j b acts) (hgrow : F.Grow F') :
    Launching F' j b acts := by
  cases h with
  | nothing => exact .nothing
  | add howns hfresh hidle hrow hrest =>
      exact .add (hgrow.owns _ howns) (hgrow.fresh _ howns hfresh) hidle hrow hrest
  | save howns hfresh hquiet hidle hrow hrest =>
      exact .save (hgrow.owns _ howns) (hgrow.fresh _ howns hfresh)
        (hgrow.quiet _ howns hquiet) hidle hrow hrest
  | start howns hbegun => exact .start (hgrow.owns _ howns) (hgrow.begun _ hbegun)
  | fail howns hquiet hrun hrow =>
      exact .fail (hgrow.owns _ howns) (hgrow.quiet _ howns hquiet) hrun hrow
  | undo hclosed hrun hrow => exact .undo (hgrow.closed _ hclosed) hrun hrow

theorem Work.grow
    (h : Work F j b acts) (hgrow : F.Grow F') :
    Work F' j b acts := by
  induction h with
  | launch h => exact .launch (h.grow hgrow)
  | kept hrow _ ih => exact .kept hrow ih
  | lost hrun hrow => exact .lost hrun hrow
  | billed hrow => exact .billed hrow
  | drop hidle => exact .drop hidle

theorem Script.grow
    (h : Script F j b acts) (hgrow : F.Grow F') (hdue : ∀ t, F.due t → F'.due t) :
    Script F' j b acts := by
  cases h with
  | work h => exact .work (h.grow hgrow)
  | finalize hrun hclosed hrow hrest =>
      exact .finalize hrun (hgrow.closed _ hclosed) hrow (hrest.grow hgrow)
  | unlock h hrest => exact .unlock (hdue _ h) (hrest.grow hgrow)
  | deliver h hrest => exact .deliver (hdue _ h) (hrest.grow hgrow)
  | giveUp => exact .giveUp

end Scripts

/-! ### What the functions of the service do to a row -/

section Sections

variable {cfg : ServiceConfig} {job : ResolvedJob} {s : Row} {now : Int} {F : Facts} {j : String}
variable {sight : Sight} {launch : Launch}

/-- The task id that the plan manager hands out is the thread's own and unused. -/
def Granted (F : Facts) (launch : Launch) : Prop :=
  ∀ t, launch.added = some t → F.owns t ∧ F.fresh t

theorem launching_materialize
    (hid : s.jobId = j) (hidle : s.runningTaskId = none) (hgranted : Granted F launch)
    (catchup manual : Bool) :
    Launching F j (fields s) (materialize cfg job s now catchup manual launch) := by
  obtain ⟨added, startError⟩ := launch
  cases added with
  | none => exact .nothing
  | some t =>
      obtain ⟨howns, hfresh⟩ := hgranted t rfl
      unfold materialize
      dsimp only
      refine .add howns hfresh hidle ?_ ?_
      · cases job.driver <;> cases catchup <;> cases manual <;> exact ⟨hid, rfl⟩
      · cases startError with
        | none => exact .start
        | some error =>
            refine .fail ?_
            cases job.driver <;> cases catchup <;> cases manual <;> exact ⟨hid, rfl⟩

/-- A row with other trigger, schedule and status fields. -/
def Rewritten (s s' : Row) : Prop :=
  s'.jobId = s.jobId ∧ fields s' = fields s

theorem Rewritten.records
    {s' : Row}
    (h : Rewritten s s') (hid : s.jobId = j) :
    Records j (fields s) s' .kept :=
  ⟨h.1.trans hid, h.2⟩

theorem rewritten_takeEdge (r : Row) : Rewritten r (takeEdge job r) := by
  unfold takeEdge
  cases job.overlap <;> exact ⟨rfl, rfl⟩

theorem rewritten_evalDriver : Rewritten s (evalDriver cfg job s now sight).state := by
  unfold evalDriver evalTrigger evalFileTrigger evalBodyTrigger evalSchedule
  split
  · split
    · split
      · exact ⟨rfl, rfl⟩
      · split_ifs
        all_goals first | exact ⟨rfl, rfl⟩ | exact rewritten_takeEdge { s with triggerSeenMtime := _ }
    · split_ifs
      all_goals first | exact ⟨rfl, rfl⟩ | exact rewritten_takeEdge { s with triggerHeld := true }
  · split
    · exact ⟨rfl, rfl⟩
    · split_ifs
      all_goals first | exact ⟨rfl, rfl⟩ | exact rewritten_takeEdge s

theorem rewritten_checkDrift : Rewritten s (checkDrift cfg job s now).state := by
  unfold checkDrift
  dsimp only
  split_ifs
  · exact ⟨rfl, rfl⟩
  · exact ⟨rfl, rfl⟩
  · cases job.driver <;> exact ⟨rfl, rfl⟩
  · exact ⟨rfl, rfl⟩

theorem work_saveIf
    {s' : Row} {b : Fields} {rest : List Action} (saved : Bool)
    (hrow : Records j b s' .kept) (hrest : Work F j b rest) :
    Work F j b (saveIf saved s' ++ rest) := by
  cases saved with
  | true => exact .kept hrow hrest
  | false => exact hrest

theorem work_tickJob
    (hid : s.jobId = j) (hgranted : Granted F launch) (catchup : Bool) :
    Work F j (fields s) (tickJob cfg job s now sight catchup launch) := by
  unfold tickJob
  by_cases hdis : s.disabled = true
  · rw [if_pos hdis]
    exact .launch .nothing
  rw [if_neg hdis]
  dsimp only
  have hdrift : Rewritten s (checkDrift cfg job { s with sourceFile := job.sourceFile } now).state :=
    rewritten_checkDrift (s := { s with sourceFile := job.sourceFile })
  refine work_saveIf _ (hdrift.records hid) ?_
  generalize (checkDrift cfg job { s with sourceFile := job.sourceFile } now) = drift at hdrift
  by_cases hgoes : drift.goesOn = true
  · rw [if_pos hgoes]
    have hverdict : Rewritten drift.state (evalDriver cfg job drift.state now sight).state :=
      rewritten_evalDriver
    have hrows : Rewritten s (evalDriver cfg job drift.state now sight).state :=
      ⟨hverdict.1.trans hdrift.1, hverdict.2.trans hdrift.2⟩
    refine work_saveIf _ (hrows.records hid) ?_
    split_ifs with hfires
    · have hidle : (evalDriver cfg job drift.state now sight).state.runningTaskId = none := by
        have hrun : (evalDriver cfg job drift.state now sight).state.runningTaskId =
            drift.state.runningTaskId := congrArg Fields.runningTaskId hverdict.2
        exact hrun.trans (idle_of_fires hfires)
      rw [← hrows.2]
      exact .launch (launching_materialize (hrows.1.trans hid) hidle hgranted _ _)
    · exact .launch .nothing
  · rw [if_neg hgoes]
    exact .launch .nothing

theorem work_runNow
    (hid : s.jobId = j) (hgranted : Granted F launch) :
    Work F j (fields s) (runNow cfg job s now launch) := by
  unfold runNow
  split_ifs with hrun
  · exact .launch .nothing
  · have hidle : s.runningTaskId = none := Option.not_isSome_iff_eq_none.mp hrun
    exact .launch (launching_materialize hid hidle hgranted _ _)

theorem work_bootPass
    (hid : s.jobId = j) :
    Work F j (fields s) (bootPass cfg job s now).1 := by
  unfold bootPass
  split
  · split_ifs
    · exact .launch .nothing
    · cases job.catchup with
      | once => exact .launch .nothing
      | skip => exact .kept ⟨hid, rfl⟩ (.launch .nothing)
  · exact .launch .nothing

theorem work_loseTask
    (hid : s.jobId = j) :
    Work F j (fields s) (loseTask s) := by
  unfold loseTask
  split
  next => exact .launch .nothing
  next t hrun => exact .lost hrun ⟨hid, rfl⟩

theorem work_recordTurnDelivery
    (hid : s.jobId = j) (today : String) :
    Work F j (fields s) (recordTurnDelivery s today) := by
  unfold recordTurnDelivery
  refine .billed ⟨?_, ?_⟩
  · split_ifs <;> exact hid
  · split_ifs with hdate <;> simp [fields, applyNote, hdate]

theorem records_finalizedRow
    (hid : s.jobId = j) (job : Option ResolvedJob) (fin : Finish) :
    Records j (fields s) (finalizedRow cfg job s now fin)
      (.finalized fin.taskId fin.ok (maxFailures job)) := by
  have houtcome : (applyOutcome job s now fin).jobId = j ∧ fields (applyOutcome job s now fin) =
      applyNote (fields s) (.finalized fin.taskId fin.ok (maxFailures job)) := by
    unfold applyOutcome
    cases hok : fin.ok with
    | true => exact ⟨hid, rfl⟩
    | false =>
        dsimp only
        rw [if_neg Bool.false_ne_true]
        by_cases hmax : maxFailures job ≤ s.consecutiveFailures + 1
        · rw [if_pos hmax]
          exact ⟨hid, by simp [fields, applyNote, hmax]⟩
        · rw [if_neg hmax]
          exact ⟨hid, by simp [fields, applyNote, hmax]⟩
  unfold finalizedRow adoptDriver
  split
  · exact ⟨houtcome.1, houtcome.2⟩
  · dsimp only
    split_ifs
    · exact ⟨houtcome.1, houtcome.2⟩
    · split <;> exact ⟨houtcome.1, houtcome.2⟩

theorem script_finalize
    {job : Option ResolvedJob} {later : Int} {fin : Finish}
    (hid : s.jobId = j) (hclosed : F.closed fin.taskId) (hgranted : Granted F launch) :
    Script F j (fields s) (finalize cfg job s now later fin launch) := by
  unfold finalize
  split_ifs with hrun
  · have hrow := @records_finalizedRow cfg s now j hid job fin
    generalize finalizedRow cfg job s now fin = r at hrow
    have hidle : r.runningTaskId = none := by
      have hrun' : r.runningTaskId =
          (applyNote (fields s) (.finalized fin.taskId fin.ok (maxFailures job))).runningTaskId :=
        congrArg Fields.runningTaskId hrow.fields
      cases hok : fin.ok <;> simpa [hok, applyNote] using hrun'
    refine .finalize hrun hclosed hrow ?_
    cases job with
    | none => exact .drop hidle
    | some job =>
        dsimp only
        split_ifs
        · refine .kept ⟨hrow.jobId, rfl⟩ (.launch ?_)
          exact launching_materialize (s := { r with queuedDue := false }) hrow.jobId hidle
            hgranted _ _
        · exact .launch .nothing
  · exact .giveUp

end Sections

/-! ### The books -/

theorem finals_eq_zero_iff
    {t : String} {log : List Entry} :
    finals log t = 0 ↔ finalizer t log = none := by
  induction log with
  | nil => simp [finals, finalizer]
  | cons e log ih =>
      rw [finals] at *
      rw [List.countP_cons]
      cases e with
      | noted i j note =>
          cases note with
          | finalized id ok m =>
              by_cases hid : id = t
              · simp [finalizer, finalizesTask, hid]
              · simpa [finalizer, finalizesTask, hid] using ih
          | _ => simpa [finalizer, finalizesTask] using ih
      | _ => simpa [finalizer, finalizesTask] using ih

section Books

/-- The task of a job's row. -/
def State.running (s : State) (jobId : String) : Option String :=
  (s.fieldsOf jobId).runningTaskId

/-- What the store, the tasks and the records say of each other. -/
structure Books (s : State) : Prop where
  keyed : Keyed s.rows
  kept : ∀ j, s.fieldsOf j = replay j s.log
  running : ∀ j t, s.running j = some t → begun s.log t = true ∧ ∃ i, s.home t = some (i, j)
  known : ∀ t, begun s.log t = true → s.home t ≠ none ∧ s.stage t ≠ .unknown
  current : ∀ t i j, begun s.log t = true → s.stage t = .ready ∨ s.stage t = .executing →
    s.home t = some (i, j) → s.running j = some t
  executing : ∀ t, s.stage t = .executing → begun s.log t = true
  once : ∀ t, finals s.log t ≤ 1
  final : ∀ t, finalizer t s.log ≠ none → begun s.log t = true ∧ ∀ j, s.running j ≠ some t
  deliveredOnce : ∀ t, s.delivered.count t ≤ 1
  delivered : ∀ t, t ∈ s.delivered → finalizer t s.log ≠ none

variable {s : State} {i : Nat} {j : String} {b : Fields} {row : Row} {now : Int}

/-- A row saved by thread `i` on job `j`. -/
def State.saved (s : State) (i : Nat) (j : String) (row : Row) (note : Note) (now : Int) : State :=
  { s with
    rows := updateState s.rows row now
    log := .noted i j note :: s.log }

theorem fieldsOf_saved
    {note : Note} (hid : row.jobId = j) (j' : String) :
    (s.saved i j row note now).fieldsOf j' = if j = j' then fields row else s.fieldsOf j' := by
  unfold State.fieldsOf State.saved
  dsimp only
  rw [get_updateState, hid]
  split_ifs <;> rfl

theorem running_saved
    {note : Note} (hrow : Records j b row note) (j' : String) :
    (s.saved i j row note now).running j' =
      if j = j' then (applyNote b note).runningTaskId else s.running j' := by
  unfold State.running
  rw [fieldsOf_saved hrow.jobId]
  split_ifs with hj
  · rw [hrow.fields]
  · rfl

theorem kept_saved
    {note : Note}
    (hbooks : Books s) (hfresh : s.fieldsOf j = b) (hrow : Records j b row note) (j' : String) :
    (s.saved i j row note now).fieldsOf j' = replay j' (s.saved i j row note now).log := by
  rw [fieldsOf_saved hrow.jobId]
  show _ = if j = j' then applyNote (replay j' s.log) note else replay j' s.log
  split_ifs with hj
  · subst hj
    rw [hrow.fields, ← hfresh, hbooks.kept j]
  · exact hbooks.kept j'

/-- Notes that leave the run alone. -/
theorem books_neutral
    {note : Note}
    (hbooks : Books s) (hfresh : s.fieldsOf j = b) (hrow : Records j b row note)
    (hrun : (applyNote b note).runningTaskId = b.runningTaskId)
    (hstart : ∀ t, startsTask t (.noted i j note) = false)
    (hfinal : ∀ t, finalizesTask t (.noted i j note) = false) :
    Books (s.saved i j row note now) := by
  have hrunning : ∀ j', (s.saved i j row note now).running j' = s.running j' := fun j' => by
    rw [running_saved hrow]
    split_ifs with hj
    · rw [hrun, ← hfresh, ← hj]
      rfl
    · rfl
  have hbegun : ∀ t, begun (s.saved i j row note now).log t = begun s.log t := fun t => by
    show (startsTask t (.noted i j note) || begun s.log t) = begun s.log t
    rw [hstart t, Bool.false_or]
  have hfinals : ∀ t, finals (s.saved i j row note now).log t = finals s.log t := fun t => by
    show List.countP (finalizesTask t) (.noted i j note :: s.log) = finals s.log t
    rw [List.countP_cons_of_neg (by simp [hfinal t])]
    rfl
  have hfinalizer : ∀ t, finalizer t (s.saved i j row note now).log ≠ none ↔
      finalizer t s.log ≠ none := fun t => by
    rw [ne_eq, ne_eq, ← finals_eq_zero_iff, ← finals_eq_zero_iff, hfinals t]
  refine ⟨keyed_updateState hbooks.keyed _ _, kept_saved hbooks hfresh hrow, ?_, ?_, ?_, ?_, ?_,
    ?_, hbooks.deliveredOnce, ?_⟩
  · intro j' t ht
    rw [hrunning] at ht
    rw [hbegun]
    exact hbooks.running j' t ht
  · intro t ht
    rw [hbegun] at ht
    exact hbooks.known t ht
  · intro t i' j' ht hstage hhome
    rw [hbegun] at ht
    rw [hrunning]
    exact hbooks.current t i' j' ht hstage hhome
  · intro t hstage
    rw [hbegun]
    exact hbooks.executing t hstage
  · intro t
    rw [hfinals]
    exact hbooks.once t
  · intro t ht
    obtain ⟨hb, hn⟩ := hbooks.final t ((hfinalizer t).mp ht)
    exact ⟨(hbegun t).trans hb, fun j' => by rw [hrunning]; exact hn j'⟩
  · exact fun t ht => (hfinalizer t).mpr (hbooks.delivered t ht)

/-- A run is recorded as started in a row without one. -/
theorem books_started
    {t : String}
    (hbooks : Books s) (hfresh : s.fieldsOf j = b) (hrow : Records j b row (.started t))
    (hidle : b.runningTaskId = none)
    (hown : s.home t = some (i, j)) (hnew : begun s.log t = false)
    (hquiet : s.stage t ≠ .unknown ∧ s.stage t ≠ .executing) :
    Books (s.saved i j row (.started t) now) := by
  have hrunning : ∀ j', (s.saved i j row (.started t) now).running j' =
      if j = j' then some t else s.running j' := fun j' => by
    rw [running_saved hrow]
    rfl
  have hbegun : ∀ u, begun (s.saved i j row (.started t) now).log u =
      (t == u || begun s.log u) := fun u => rfl
  have hnone : s.running j = none := by
    rw [State.running, hfresh]
    exact hidle
  refine ⟨keyed_updateState hbooks.keyed _ _, kept_saved hbooks hfresh hrow, ?_, ?_, ?_, ?_,
    hbooks.once, ?_, hbooks.deliveredOnce, hbooks.delivered⟩
  · intro j' u hu
    rw [hrunning] at hu
    split_ifs at hu with hj
    · obtain rfl := Option.some.inj hu
      exact ⟨by rw [hbegun]; simp, i, hj ▸ hown⟩
    · obtain ⟨hb, hhome⟩ := hbooks.running j' u hu
      exact ⟨by rw [hbegun, hb, Bool.or_true], hhome⟩
  · intro u hu
    rw [hbegun, Bool.or_eq_true] at hu
    rcases hu with hu | hu
    · obtain rfl : t = u := by simpa using hu
      exact ⟨by rw [show (s.saved i j row (.started t) now).home = s.home from rfl, hown]; simp,
        hquiet.1⟩
    · exact hbooks.known u hu
  · intro u i' j' hu hstage hhome
    rw [hrunning]
    rw [hbegun, Bool.or_eq_true] at hu
    rcases hu with hu | hu
    · obtain rfl : t = u := by simpa using hu
      have hpair : some (i, j) = some (i', j') := hown.symm.trans hhome
      rw [if_pos (by simpa using (Prod.ext_iff.mp (Option.some.inj hpair)).2)]
    · have hcurrent := hbooks.current u i' j' hu hstage hhome
      rw [if_neg (fun hj => by rw [← hj, hnone] at hcurrent; cases hcurrent)]
      exact hcurrent
  · intro u hstage
    rw [hbegun, hbooks.executing u hstage, Bool.or_true]
  · intro u hu
    obtain ⟨hb, hn⟩ := hbooks.final u hu
    refine ⟨by rw [hbegun, hb, Bool.or_true], fun j' => ?_⟩
    rw [hrunning]
    split_ifs with hj
    · intro heq
      obtain rfl := Option.some.inj heq
      rw [hnew] at hb
      cases hb
    · exact hn j'

/-- A run is recorded as over, for a task that has ended or is lost. -/
theorem books_over
    {t : String} {note : Note}
    (hbooks : Books s) (hfresh : s.fieldsOf j = b) (hrow : Records j b row note)
    (hrun : b.runningTaskId = some t) (hclosed : (s.stage t).closed)
    (hover : (applyNote b note).runningTaskId = none)
    (hstart : ∀ u, startsTask u (.noted i j note) = false)
    (hfinal : ∀ u, finalizesTask u (.noted i j note) = true → u = t) :
    Books (s.saved i j row note now) := by
  have hwas : s.running j = some t := by
    rw [State.running, hfresh]
    exact hrun
  have hrunning : ∀ j', (s.saved i j row note now).running j' =
      if j = j' then none else s.running j' := fun j' => by
    rw [running_saved hrow, hover]
  have hbegun : ∀ u, begun (s.saved i j row note now).log u = begun s.log u := fun u => by
    show (startsTask u (.noted i j note) || begun s.log u) = begun s.log u
    rw [hstart u, Bool.false_or]
  have hfinals : ∀ u, finals (s.saved i j row note now).log u =
      finals s.log u + if finalizesTask u (.noted i j note) then 1 else 0 :=
    fun u => List.countP_cons
  have hnever : finals s.log t = 0 := by
    rw [finals_eq_zero_iff]
    by_contra hne
    exact (hbooks.final t hne).2 j hwas
  refine ⟨keyed_updateState hbooks.keyed _ _, kept_saved hbooks hfresh hrow, ?_, ?_, ?_, ?_, ?_,
    ?_, hbooks.deliveredOnce, ?_⟩
  · intro j' u hu
    rw [hrunning] at hu
    split_ifs at hu with hj
    rw [hbegun]
    exact hbooks.running j' u hu
  · intro u hu
    rw [hbegun] at hu
    exact hbooks.known u hu
  · intro u i' j' hu hstage hhome
    rw [hbegun] at hu
    have hcurrent := hbooks.current u i' j' hu hstage hhome
    rw [hrunning]
    split_ifs with hj
    · -- the task of the row is over, so it is not the one that may still execute
      subst hj
      rw [hwas] at hcurrent
      obtain rfl := Option.some.inj hcurrent
      have hstage' : s.stage t = .ready ∨ s.stage t = .executing := hstage
      rcases hclosed with h | h <;> rw [h] at hstage' <;> simp at hstage'
    · exact hcurrent
  · intro u hstage
    rw [hbegun]
    exact hbooks.executing u hstage
  · intro u
    rw [hfinals]
    split_ifs with hu
    · rw [hfinal u hu]
      omega
    · exact hbooks.once u
  · intro u hu
    rw [hbegun]
    rw [ne_eq, ← finals_eq_zero_iff, hfinals] at hu
    by_cases hut : finalizesTask u (.noted i j note) = true
    · obtain rfl := hfinal u hut
      obtain ⟨hb, i', hhome⟩ := hbooks.running j u hwas
      refine ⟨hb, fun j' hj' => ?_⟩
      rw [hrunning] at hj'
      split_ifs at hj' with hj
      obtain ⟨_, i'', hhome'⟩ := hbooks.running j' u hj'
      rw [hhome] at hhome'
      exact hj (by simpa using (Prod.ext_iff.mp (Option.some.inj hhome')).2)
    · rw [if_neg hut, Nat.add_zero, finals_eq_zero_iff] at hu
      obtain ⟨hb, hn⟩ := hbooks.final u hu
      refine ⟨hb, fun j' hj' => ?_⟩
      rw [hrunning] at hj'
      split_ifs at hj' with hj
      exact hn j' hj'
  · intro u hu
    have hold := hbooks.delivered u hu
    rw [ne_eq, ← finals_eq_zero_iff] at hold ⊢
    rw [hfinals]
    omega

/-- The row of an idle job is dropped. -/
theorem books_dropped
    (hbooks : Books s) (hidle : (s.fieldsOf j).runningTaskId = none) :
    Books { s with rows := dropState s.rows j, log := .dropped j :: s.log } := by
  have hfields : ∀ j', ({ s with rows := dropState s.rows j, log := .dropped j :: s.log } :
      State).fieldsOf j' = if j = j' then {} else s.fieldsOf j' := fun j' => by
    unfold State.fieldsOf
    dsimp only
    rw [get_dropState]
    split_ifs <;> rfl
  have hrunning : ∀ j', ({ s with rows := dropState s.rows j, log := .dropped j :: s.log } :
      State).running j' = s.running j' := fun j' => by
    rw [State.running, hfields]
    split_ifs with hj
    · exact hj ▸ hidle.symm
    · rfl
  refine ⟨fun id r hr => ?_, fun j' => ?_, fun j' t ht => hbooks.running j' t (hrunning j' ▸ ht),
    hbooks.known, fun t i' j' ht hstage hhome => ?_, hbooks.executing, hbooks.once,
    fun t ht => ⟨(hbooks.final t ht).1, fun j' => ?_⟩, hbooks.deliveredOnce, hbooks.delivered⟩
  · rw [get_dropState] at hr
    split_ifs at hr
    exact hbooks.keyed id r hr
  · rw [hfields]
    show _ = if j = j' then {} else replay j' s.log
    rw [hbooks.kept]
  · rw [hrunning]
    exact hbooks.current t i' j' ht hstage hhome
  · rw [hrunning]
    exact (hbooks.final t ht).2 j'

/-- The idle rows of unknown jobs are removed. -/
theorem books_swept
    (hbooks : Books s) (jobIds : List String) :
    Books { s with rows := removeMissing s.rows jobIds, log := .swept jobIds :: s.log } := by
  have hfields : ∀ j', ({ s with rows := removeMissing s.rows jobIds, log := .swept jobIds :: s.log } :
      State).fieldsOf j' =
        if jobIds.contains j' || (s.running j').isSome then s.fieldsOf j' else {} := fun j' => by
    unfold State.running State.fieldsOf
    dsimp only
    rw [get_removeMissing]
    cases hrow : s.rows.get j' with
    | none => simp
    | some r =>
        by_cases hstay : (jobIds.contains j' || r.runningTaskId.isSome) = true
        · rw [Option.filter_some, if_pos hstay]
          exact (if_pos hstay).symm
        · rw [Option.filter_some, if_neg hstay]
          exact (if_neg hstay).symm
  have hrunning : ∀ j', ({ s with rows := removeMissing s.rows jobIds, log := .swept jobIds :: s.log } :
      State).running j' = s.running j' := fun j' => by
    rw [State.running, hfields]
    split_ifs with hstay
    · rfl
    · have hnone : s.running j' = none := by
        rw [Bool.or_eq_true, not_or] at hstay
        exact Option.not_isSome_iff_eq_none.mp hstay.2
      exact hnone.symm
  refine ⟨keyed_filter hbooks.keyed _, fun j' => ?_,
    fun j' t ht => hbooks.running j' t (hrunning j' ▸ ht),
    hbooks.known, fun t i' j' ht hstage hhome => ?_, hbooks.executing, hbooks.once,
    fun t ht => ⟨(hbooks.final t ht).1, fun j' => ?_⟩, hbooks.deliveredOnce, hbooks.delivered⟩
  · rw [hfields]
    show _ = if jobIds.contains j' || (replay j' s.log).runningTaskId.isSome then replay j' s.log
      else {}
    rw [← hbooks.kept]
    rfl
  · rw [hrunning]
    exact hbooks.current t i' j' ht hstage hhome
  · rw [hrunning]
    exact (hbooks.final t ht).2 j'

/-- A task moves on in the plan manager or the engine. -/
theorem books_setStage
    {t : String} {stage : Stage}
    (hbooks : Books s)
    (hknown : stage ≠ .unknown)
    (hcurrent : begun s.log t = true → stage = .ready ∨ stage = .executing →
      s.stage t = .ready ∨ s.stage t = .executing)
    (hexec : stage = .executing → begun s.log t = true) :
    Books (s.setStage t stage) := by
  have hstage : ∀ u, (s.setStage t stage).stage u = if u = t then stage else s.stage u :=
    fun u => Function.update_apply _ _ _ _
  refine ⟨hbooks.keyed, hbooks.kept, hbooks.running, fun u hu => ⟨(hbooks.known u hu).1, ?_⟩,
    fun u i' j' hu hst hhome => ?_, fun u hu => ?_, hbooks.once, hbooks.final,
    hbooks.deliveredOnce, hbooks.delivered⟩
  · rw [hstage]
    split_ifs
    · exact hknown
    · exact (hbooks.known u hu).2
  · rw [hstage] at hst
    refine hbooks.current u i' j' hu ?_ hhome
    split_ifs at hst with heq
    · subst heq
      exact hcurrent hu hst
    · exact hst
  · rw [hstage] at hu
    split_ifs at hu with heq
    · subst heq
      exact hexec hu
    · exact hbooks.executing u hu

/-- The delivery of a task that was finalized and not delivered yet. -/
theorem books_delivered
    {t : String}
    (hbooks : Books s) (hfinal : finalizer t s.log ≠ none) (hnew : t ∉ s.delivered) :
    Books { s with delivered := t :: s.delivered } := by
  refine ⟨hbooks.keyed, hbooks.kept, hbooks.running, hbooks.known, hbooks.current,
    hbooks.executing, hbooks.once, hbooks.final, fun u => ?_, fun u hu => ?_⟩
  · show (t :: s.delivered).count u ≤ 1
    rw [List.count_cons]
    split_ifs with heq
    · obtain rfl : t = u := by simpa using heq
      have hzero := List.count_eq_zero_of_not_mem hnew
      omega
    · exact hbooks.deliveredOnce u
  · rcases List.mem_cons.mp hu with rfl | hu
    · exact hfinal
    · exact hbooks.delivered u hu

end Books

/-! ### Steps -/

theorem finalizer_cons_of_ne
    {t : String} {e : Entry} {log : List Entry}
    (h : finalizesTask t e = false) :
    finalizer t (e :: log) = finalizer t log := by
  cases e with
  | noted i j note =>
      cases note with
      | finalized id ok m =>
          have hne : id ≠ t := by simpa [finalizesTask] using h
          simp [finalizer, hne]
      | _ => rfl
  | _ => rfl

structure Inv (s : State) : Prop where
  books : Books s
  scripts : ∀ i, Script (s.facts i (s.threads i).jobId) (s.threads i).jobId
    (s.threads i).basis (s.threads i).todo

/-- The thread that moves finds the recorded fields of its job as it last knew them
whenever it writes the row back or drops it. -/
def InStep (s : State) : Label → Prop
  | .next i _ =>
      match (s.threads i).todo with
      | .save _ _ :: _ | .drop :: _ => s.fieldsOf (s.threads i).jobId = (s.threads i).basis
      | _ => True
  | _ => True

section Frames

variable {s s₁ : State} {i i' : Nat} {j j' : String}

theorem inv_setThread
    {t : Thread}
    (hinv : Inv s) (hbooks : Books s₁) (hthreads : s₁.threads = s.threads)
    (hown : Script (s₁.facts i t.jobId) t.jobId t.basis t.todo)
    (hgrow : ∀ i' j', i' ≠ i → (s.facts i' j').Grow (s₁.facts i' j'))
    (hdue : ∀ i' j' u, i' ≠ i → (s.facts i' j').due u → (s₁.facts i' j').due u) :
    Inv (s₁.setThread i t) := by
  refine ⟨⟨hbooks.keyed, hbooks.kept, hbooks.running, hbooks.known, hbooks.current,
    hbooks.executing, hbooks.once, hbooks.final, hbooks.deliveredOnce, hbooks.delivered⟩,
    fun i' => ?_⟩
  have hthread : (s₁.setThread i t).threads i' = if i' = i then t else s.threads i' := by
    rw [← hthreads]
    exact Function.update_apply _ _ _ _
  rw [hthread]
  split_ifs with hi
  · subst hi
    exact hown
  · exact (hinv.scripts i').grow (hgrow i' _ hi) fun u => hdue i' _ u hi

/-- Nothing but the store, the lock or the deliveries has changed. -/
theorem grow_refl
    (hhome : s₁.home = s.home) (hlog : s₁.log = s.log) (hstage : s₁.stage = s.stage) :
    (s.facts i' j').Grow (s₁.facts i' j') := by
  refine ⟨fun t h => ?_, fun t _ h => ?_, fun t h => ?_, fun t h => ?_, fun t _ h => ?_⟩ <;>
    simpa only [State.facts, hhome, hlog, hstage] using h

theorem grow_saved
    {row : Row} {note : Note} {now : Int}
    (hstart : ∀ t, s.home t = some (i', j') → startsTask t (.noted i j note) = false) :
    (s.facts i' j').Grow ((s.saved i j row note now).facts i' j') := by
  refine ⟨fun _ h => h, fun t howns hfresh => ?_, fun t hbegun => ?_, fun _ h => h,
    fun _ _ h => h⟩
  · show (startsTask t (.noted i j note) || begun s.log t) = false
    rw [hstart t howns, Bool.false_or]
    exact hfresh
  · show (startsTask t (.noted i j note) || begun s.log t) = true
    rw [show begun s.log t = true from hbegun, Bool.or_true]

theorem due_saved
    {row : Row} {note : Note} {now : Int} {u : String}
    (hfinal : finalizer u s.log ≠ none → finalizesTask u (.noted i j note) = false)
    (hdue : (s.facts i' j').due u) :
    ((s.saved i j row note now).facts i' j').due u := by
  refine ⟨?_, hdue.2⟩
  have hsome : finalizer u s.log = some i' := hdue.1
  show finalizer u (.noted i j note :: s.log) = some i'
  rw [finalizer_cons_of_ne (hfinal (by simp [hsome]))]
  exact hsome

theorem grow_setStage
    {t : String} {stage : Stage}
    (hclosed : (s.stage t).closed → stage.closed)
    (hquiet : s.home t = some (i', j') → s.stage t ≠ .unknown ∧ s.stage t ≠ .executing →
      stage ≠ .unknown ∧ stage ≠ .executing) :
    (s.facts i' j').Grow ((s.setStage t stage).facts i' j') := by
  have hstage : ∀ u, (s.setStage t stage).stage u = if u = t then stage else s.stage u :=
    fun u => Function.update_apply _ _ _ _
  refine ⟨fun _ h => h, fun _ _ h => h, fun _ h => h, fun u h => ?_, fun u howns h => ?_⟩
  · show ((s.setStage t stage).stage u).closed
    rw [hstage]
    split_ifs with heq
    · exact hclosed (heq ▸ h)
    · exact h
  · show (s.setStage t stage).stage u ≠ .unknown ∧ (s.setStage t stage).stage u ≠ .executing
    rw [hstage]
    split_ifs with heq
    · subst heq
      exact hquiet howns h
    · exact h

/-- The owner of a task is one thread. -/
theorem not_owned
    {t : String} {j'' : String}
    (hown : s.home t = some (i, j)) (hne : i' ≠ i) :
    s.home t ≠ some (i', j'') := by
  intro h
  rw [hown] at h
  exact hne (Prod.ext_iff.mp (Option.some.inj h)).1.symm

end Frames

section Actions

variable {s : State} {i : Nat} {t : Thread} {rest : List Action} {row : Row} {note : Note} {now : Int}

/-- A save of a note that starts nothing and finalizes nothing. -/
theorem inv_saved
    (hinv : Inv s) (hbooks : Books (s.saved i t.jobId row note now))
    (hstart : ∀ u, startsTask u (.noted i t.jobId note) = false)
    (hfinal : ∀ u, finalizer u s.log ≠ none → finalizesTask u (.noted i t.jobId note) = false)
    (hrest : Script ((s.saved i t.jobId row note now).facts i t.jobId) t.jobId (fields row) rest) :
    Inv ((s.saved i t.jobId row note now).setThread i { t with basis := fields row, todo := rest }) :=
  inv_setThread hinv hbooks rfl hrest (fun _ _ _ => grow_saved fun u _ => hstart u)
    fun _ _ u _ => due_saved (hfinal u)

theorem not_finalized_of_running
    {u : String} {j : String} {b : Fields}
    (hbooks : Books s) (hfresh : s.fieldsOf j = b) (hrun : b.runningTaskId = some u) :
    finalizer u s.log = none := by
  by_contra hne
  refine (hbooks.final u hne).2 j ?_
  rw [State.running, hfresh]
  exact hrun

theorem inv_started
    {u : String}
    (hinv : Inv s) (hfresh : s.fieldsOf t.jobId = t.basis)
    (howns : s.home u = some (i, t.jobId)) (hnew : begun s.log u = false)
    (hquiet : s.stage u ≠ .unknown ∧ s.stage u ≠ .executing) (hidle : t.basis.runningTaskId = none)
    (hrow : Records t.jobId t.basis row (.started u))
    (hrest : Starting t.jobId (fields row) u rest) :
    Inv ((s.saved i t.jobId row (.started u) now).setThread i
      { t with basis := fields row, todo := rest }) := by
  have hbooks : Books (s.saved i t.jobId row (.started u) now) :=
    books_started hinv.books hfresh hrow hidle howns hnew hquiet
  refine inv_setThread hinv hbooks rfl (.work (.launch ?_)) (fun i' j' hi => ?_)
    fun _ _ v _ => due_saved fun _ => rfl
  · have hbegun : begun (s.saved i t.jobId row (.started u) now).log u = true := by
      show (startsTask u (.noted i t.jobId (.started u)) || begun s.log u) = true
      simp [startsTask]
    cases hrest with
    | start => exact .start howns hbegun
    | fail hundo =>
        have hrun : (fields row).runningTaskId = some u := by
          rw [hrow.fields]
          rfl
        exact .fail howns hquiet hrun hundo
  · refine grow_saved fun v hv => ?_
    have hne : u ≠ v := fun heq => not_owned howns hi (heq ▸ hv)
    simpa [startsTask] using hne

theorem inv_over
    {u : String}
    (hinv : Inv s) (hfresh : s.fieldsOf t.jobId = t.basis)
    (hrun : t.basis.runningTaskId = some u) (hclosed : (s.stage u).closed)
    (hrow : Records t.jobId t.basis row note)
    (hnote : note = .notStarted u ∨ note = .lost u) :
    Inv ((s.saved i t.jobId row note now).setThread i { t with basis := fields row, todo := [] }) := by
  have hover : (applyNote t.basis note).runningTaskId = none := by
    rcases hnote with rfl | rfl <;> rfl
  have hstart : ∀ v, startsTask v (.noted i t.jobId note) = false := by
    rcases hnote with rfl | rfl <;> exact fun _ => rfl
  have hfinal : ∀ v, finalizesTask v (.noted i t.jobId note) = false := by
    rcases hnote with rfl | rfl <;> exact fun _ => rfl
  have hbooks : Books (s.saved i t.jobId row note now) :=
    books_over hinv.books hfresh hrow hrun hclosed hover hstart
      fun v hv => by rw [hfinal v] at hv; cases hv
  exact inv_saved hinv hbooks hstart (fun v _ => hfinal v) (.work (.launch .nothing))

theorem inv_save
    (hinv : Inv s) (hfresh : s.fieldsOf t.jobId = t.basis) (hmay : maySave s note = true)
    (hscript : Script (s.facts i t.jobId) t.jobId t.basis (.save row note :: rest)) :
    Inv ((s.saved i t.jobId row note now).setThread i { t with basis := fields row, todo := rest }) := by
  cases hscript with
  | @finalize u ok m _ rest' hrun hclosed hrow hrest =>
      have hover : (applyNote t.basis (.finalized u ok m)).runningTaskId = none := by
        cases ok <;> rfl
      have hnone : finalizer u s.log = none := not_finalized_of_running hinv.books hfresh hrun
      have hbooks : Books (s.saved i t.jobId row (.finalized u ok m) now) :=
        books_over hinv.books hfresh hrow hrun hclosed hover (fun _ => rfl)
          fun v hv => (show u = v by simpa [finalizesTask] using hv).symm
      refine inv_saved hinv hbooks (fun _ => rfl) (fun v hv => ?_) (.unlock ⟨?_, fun hmem => ?_⟩ ?_)
      · have hne : u ≠ v := fun heq => hv (heq ▸ hnone)
        simpa [finalizesTask] using hne
      · show finalizer u (.noted i t.jobId (.finalized u ok m) :: s.log) = some i
        simp [finalizer]
      · exact hinv.books.delivered u hmem hnone
      · exact hrest.grow (grow_saved fun _ _ => rfl)
  | work hwork =>
      cases hwork with
      | kept hrow hrest =>
          have hbooks : Books (s.saved i t.jobId row .kept now) :=
            books_neutral hinv.books hfresh hrow rfl (fun _ => rfl) fun _ => rfl
          have hbasis : fields row = t.basis := hrow.fields
          refine inv_saved hinv hbooks (fun _ => rfl) (fun _ _ => rfl) (.work ?_)
          rw [hbasis]
          exact hrest.grow (grow_saved fun _ _ => rfl)
      | billed hrow =>
          have hbooks : Books (s.saved i t.jobId row _ now) :=
            books_neutral hinv.books hfresh hrow rfl (fun _ => rfl) fun _ => rfl
          exact inv_saved hinv hbooks (fun _ => rfl) (fun _ _ => rfl) (.work (.launch .nothing))
      | @lost u _ hrun hrow =>
          have hgone : s.stage u = .gone := by simpa [maySave] using hmay
          exact inv_over hinv hfresh hrun (Or.inr hgone) hrow (Or.inr rfl)
      | launch hlaunch =>
          cases hlaunch with
          | save howns hnew hquiet hidle hrow hrest =>
              exact inv_started hinv hfresh howns hnew hquiet hidle hrow hrest
          | @undo u _ hclosed hrun hrow =>
              exact inv_over hinv hfresh hrun hclosed hrow (Or.inl rfl)

theorem inv_drop
    (hinv : Inv s) (hfresh : s.fieldsOf t.jobId = t.basis)
    (hscript : Script (s.facts i t.jobId) t.jobId t.basis (.drop :: rest)) :
    Inv (({ s with
      rows := dropState s.rows t.jobId
      log := .dropped t.jobId :: s.log } : State).setThread i
        { t with basis := {}, todo := rest }) := by
  cases hscript with
  | work hwork =>
      cases hwork with
      | drop hidle =>
          have hbooks := books_dropped (j := t.jobId) hinv.books (hfresh ▸ hidle)
          refine inv_setThread hinv hbooks rfl (.work (.launch .nothing))
            (fun i' j' _ => ?_) fun i' j' u _ hdue => hdue
          exact ⟨fun _ h => h, fun _ _ h => h, fun _ h => h, fun _ h => h, fun _ _ h => h⟩
      | launch hlaunch => cases hlaunch

theorem inv_add
    {u : String}
    (hinv : Inv s) (hstage : s.stage u = .unknown)
    (hscript : Script (s.facts i t.jobId) t.jobId t.basis (.add u :: rest)) :
    Inv ((s.setStage u .ready).setThread i { t with todo := rest }) := by
  cases hscript with
  | work hwork =>
      cases hwork with
      | launch hlaunch =>
          cases hlaunch with
          | add howns hnew hidle hrow hrest =>
              have hbooks : Books (s.setStage u .ready) :=
                books_setStage hinv.books (fun h => nomatch h)
                  (fun hb => nomatch (show begun s.log u = false from hnew).symm.trans hb)
                  fun h => nomatch h
              have hready : (s.setStage u .ready).stage u = .ready := Function.update_self _ _ _
              refine inv_setThread hinv hbooks rfl
                (.work (.launch (.save howns hnew ?_ hidle hrow hrest)))
                (fun i' j' hi => grow_setStage (fun h => ?_) fun hother _ => ?_)
                fun _ _ _ _ hdue => hdue
              · show (s.setStage u .ready).stage u ≠ .unknown ∧ (s.setStage u .ready).stage u ≠ .executing
                rw [hready]
                decide
              · rw [hstage] at h
                exact (Stage.not_closed_unknown h).elim
              · exact absurd hother (not_owned howns hi)

theorem inv_start
    {u : String}
    (hinv : Inv s) (hstage : s.stage u = .ready)
    (hscript : Script (s.facts i t.jobId) t.jobId t.basis (.start u :: rest)) :
    Inv ((s.setStage u .executing).setThread i { t with todo := rest }) := by
  cases hscript with
  | work hwork =>
      cases hwork with
      | launch hlaunch =>
          cases hlaunch with
          | start howns hbegun =>
              have hbooks : Books (s.setStage u .executing) :=
                books_setStage hinv.books (fun h => nomatch h) (fun _ _ => Or.inl hstage)
                  fun _ => hbegun
              refine inv_setThread hinv hbooks rfl (.work (.launch .nothing))
                (fun i' j' hi => grow_setStage (fun h => ?_) fun hother _ => ?_)
                fun _ _ _ _ hdue => hdue
              · rw [hstage] at h
                exact (Stage.not_closed_ready h).elim
              · exact absurd hother (not_owned howns hi)

theorem inv_failStart
    {u : String}
    (hinv : Inv s)
    (hscript : Script (s.facts i t.jobId) t.jobId t.basis (.failStart u :: rest)) :
    Inv ((if s.stage u = .ready then s.setStage u .ended else s).setThread i
      { t with todo := rest }) := by
  cases hscript with
  | work hwork =>
      cases hwork with
      | launch hlaunch =>
          cases hlaunch with
          | fail howns hquiet hrun hrow =>
              split_ifs with hready
              · have hbooks : Books (s.setStage u .ended) :=
                  books_setStage hinv.books (by decide) (fun _ h => by simp at h) (fun h => nomatch h)
                have hclosed : ((s.setStage u .ended).stage u).closed := by
                  rw [show (s.setStage u .ended).stage u = .ended from Function.update_self _ _ _]
                  exact Or.inl rfl
                exact inv_setThread hinv hbooks rfl (.work (.launch (.undo hclosed hrun hrow)))
                  (fun _ _ _ => grow_setStage (fun _ => Or.inl rfl) fun _ _ => by decide)
                  fun _ _ _ _ hdue => hdue
              · have hclosed : (s.stage u).closed := by
                  obtain ⟨hunknown, hexec⟩ := hquiet
                  cases hstage : s.stage u with
                  | unknown => exact absurd hstage hunknown
                  | ready => exact absurd hstage hready
                  | executing => exact absurd hstage hexec
                  | ended => exact Or.inl rfl
                  | gone => exact Or.inr rfl
                exact inv_setThread hinv hinv.books rfl
                  (.work (.launch (.undo hclosed hrun hrow)))
                  (fun _ _ _ => grow_refl rfl rfl rfl) fun _ _ _ _ hdue => hdue

theorem inv_unlock
    (hinv : Inv s)
    (hscript : Script (s.facts i t.jobId) t.jobId t.basis (.unlock :: rest)) :
    Inv (({ s with lock := none } : State).setThread i { t with todo := rest }) := by
  have hbooks : Books { s with lock := none } :=
    ⟨hinv.books.keyed, hinv.books.kept, hinv.books.running, hinv.books.known, hinv.books.current,
      hinv.books.executing, hinv.books.once, hinv.books.final, hinv.books.deliveredOnce,
      hinv.books.delivered⟩
  have hown : Script (({ s with lock := none } : State).facts i t.jobId) t.jobId t.basis rest := by
    cases hscript with
    | unlock hdue hrest => exact .deliver hdue (hrest.grow (grow_refl rfl rfl rfl))
    | giveUp => exact .work (.launch .nothing)
    | work hwork =>
        cases hwork with
        | launch hlaunch => cases hlaunch
  exact inv_setThread hinv hbooks rfl hown (fun _ _ _ => grow_refl rfl rfl rfl)
    fun _ _ _ _ hdue => hdue

theorem inv_deliver
    {u : String}
    (hinv : Inv s)
    (hscript : Script (s.facts i t.jobId) t.jobId t.basis (.deliver u :: rest)) :
    Inv (({ s with delivered := u :: s.delivered } : State).setThread i { t with todo := rest }) := by
  cases hscript with
  | deliver hdue hrest =>
      obtain ⟨hfinal, hnew⟩ := hdue
      have hbooks : Books { s with delivered := u :: s.delivered } :=
        books_delivered hinv.books (by rw [hfinal]; simp) hnew
      refine inv_setThread hinv hbooks rfl (.work (hrest.grow (grow_refl rfl rfl rfl)))
        (fun _ _ _ => grow_refl rfl rfl rfl) fun i' j' v hi hdue => ⟨hdue.1, fun hmem => ?_⟩
      -- the other thread's task is another task
      rcases List.mem_cons.mp hmem with rfl | hmem
      · exact hi (Option.some.inj (hdue.1.symm.trans hfinal))
      · exact hdue.2 hmem
  | work hwork =>
      cases hwork with
      | launch hlaunch => cases hlaunch

theorem inv_act
    {a : Action} {s' : State}
    (hinv : Inv s)
    (hfresh : (∃ row note, a = .save row note) ∨ a = .drop → s.fieldsOf t.jobId = t.basis)
    (hscript : Script (s.facts i t.jobId) t.jobId t.basis (a :: rest))
    (h : act s i t rest now a = some s') :
    Inv s' := by
  cases a with
  | save row note =>
      simp only [act] at h
      split_ifs at h with hmay
      obtain rfl := Option.some.inj h
      exact inv_save hinv (hfresh (Or.inl ⟨row, note, rfl⟩)) hmay hscript
  | add u =>
      simp only [act] at h
      split_ifs at h with hstage
      obtain rfl := Option.some.inj h
      exact inv_add hinv hstage hscript
  | start u =>
      simp only [act] at h
      split_ifs at h with hstage
      obtain rfl := Option.some.inj h
      exact inv_start hinv hstage hscript
  | failStart u =>
      obtain rfl := Option.some.inj h
      exact inv_failStart hinv hscript
  | unlock =>
      obtain rfl := Option.some.inj h
      exact inv_unlock hinv hscript
  | deliver u =>
      obtain rfl := Option.some.inj h
      exact inv_deliver hinv hscript
  | drop =>
      obtain rfl := Option.some.inj h
      exact inv_drop hinv (hfresh (Or.inr rfl)) hscript

end Actions

/-! ### Sections begin -/

section Begin

variable {cfg : ServiceConfig} {s s' : State} {i : Nat} {j : String}

theorem work_ensured
    {F : Facts} {row : Option Row} {job : ResolvedJob} {now : Int} {rest : List Action}
    (hrest : Work F j (fields (ensured j job now row).1) rest) :
    Work F j (fields (ensured j job now row).1) ((ensured j job now row).2 ++ rest) := by
  cases row with
  | none => exact .kept ⟨rfl, rfl⟩ hrest
  | some r => exact hrest

theorem script_plan
    {F : Facts} {row : Option Row} {sec : Section} {p : Fields × List Action}
    (hid : ∀ r, row = some r → r.jobId = j)
    (hgranted : ∀ u, sec.launched = some u → F.owns u ∧ F.fresh u)
    (hclosed : ∀ u, sec.finished = some u → F.closed u)
    (h : plan cfg j row sec = some p) :
    Script F j p.1 p.2 := by
  have hensured : ∀ job now, (ensured j job now row).1.jobId = j := fun job now => by
    cases hrow : row with
    | none => rfl
    | some r => exact hid r hrow
  cases sec with
  | tick job now sight catchup launch =>
      obtain rfl := Option.some.inj h
      exact .work (work_ensured (work_tickJob (hensured job now) hgranted catchup))
  | runNow job now launch =>
      obtain rfl := Option.some.inj h
      exact .work (work_ensured (work_runNow (hensured job now) hgranted))
  | bootPass job now =>
      obtain ⟨r, hrow, rfl⟩ := Option.map_eq_some_iff.mp h
      exact .work (work_bootPass (hid r hrow))
  | reconcileLost =>
      obtain ⟨r, hrow, rfl⟩ := Option.map_eq_some_iff.mp h
      exact .work (work_loseTask (hid r hrow))
  | finalize job now later fin launch =>
      cases hrow : row with
      | none =>
          subst hrow
          obtain rfl := Option.some.inj h
          exact .giveUp
      | some r =>
          subst hrow
          obtain rfl := Option.some.inj h
          exact script_finalize (hid r rfl) (hclosed _ rfl) hgranted
  | recordTurnDelivery today =>
      obtain ⟨r, hrow, rfl⟩ := Option.map_eq_some_iff.mp h
      exact .work (work_recordTurnDelivery (hid r hrow) today)

/-- New ids are handed out, and the lock is taken. -/
theorem books_home
    {home : String → Option (Nat × String)} {lock : Option Nat}
    (hbooks : Books s) (hhome : ∀ u, s.home u ≠ none → home u = s.home u) :
    Books { s with lock := lock, home := home } := by
  have hbegun : ∀ u, begun s.log u = true → home u = s.home u :=
    fun u hu => hhome u (hbooks.known u hu).1
  refine ⟨hbooks.keyed, hbooks.kept, fun j' u hu => ?_, fun u hu => ⟨?_, (hbooks.known u hu).2⟩,
    fun u i' j' hu hstage hown => ?_, hbooks.executing, hbooks.once, hbooks.final,
    hbooks.deliveredOnce, hbooks.delivered⟩
  · obtain ⟨hb, i', hown⟩ := hbooks.running j' u hu
    exact ⟨hb, i', (hbegun u hb).trans hown⟩
  · show home u ≠ none
    rw [hbegun u hu]
    exact (hbooks.known u hu).1
  · exact hbooks.current u i' j' hu hstage ((hbegun u hu).symm.trans hown)

/-- Where the tasks were launched, the one of a new section included. -/
def homeAfter (s : State) (i : Nat) (j : String) (sec : Section) :
    String → Option (Nat × String) :=
  sec.launched.elim s.home fun taskId => Function.update s.home taskId (some (i, j))

theorem beginSection_of_begins
    {sec : Section} (h : begins s i sec = true) :
    beginSection cfg s i j sec = (plan cfg j (s.rows.get j) sec).map fun p =>
      { s with
        lock := if sec.isFinalize then some i else s.lock
        home := homeAfter s i j sec
        threads := Function.update s.threads i ⟨j, p.1, p.2⟩ } := by
  unfold beginSection homeAfter
  rw [if_pos h]
  cases sec.launched <;> rfl

theorem inv_begin
    {sec : Section}
    (hinv : Inv s) (h : beginSection cfg s i j sec = some s') :
    Inv s' := by
  by_cases hbegins : begins s i sec = true
  · rw [beginSection_of_begins hbegins] at h
    obtain ⟨p, hplan, rfl⟩ := Option.map_eq_some_iff.mp h
    simp only [begins, Bool.and_eq_true] at hbegins
    obtain ⟨⟨_, hfinished⟩, hlaunched⟩ := hbegins
    have hhome : ∀ u, s.home u ≠ none → homeAfter s i j sec u = s.home u := by
      intro u hu
      unfold homeAfter
      cases hsec : sec.launched with
      | none => rfl
      | some v =>
          refine Function.update_of_ne (fun heq => hu ?_) _ _
          rw [hsec] at hlaunched
          simpa [heq] using hlaunched
    have hgiven : ∀ u, sec.launched = some u →
        homeAfter s i j sec u = some (i, j) ∧ begun s.log u = false := by
      intro u hu
      refine ⟨by rw [homeAfter, hu]; exact Function.update_self _ _ _, ?_⟩
      rw [hu] at hlaunched
      have hnone : s.home u = none := by simpa using hlaunched
      exact Bool.eq_false_iff.mpr fun hb => (hinv.books.known u hb).1 hnone
    have hgrow : ∀ i' j', (s.facts i' j').Grow
        (({ s with lock := if sec.isFinalize then some i else s.lock
                   home := homeAfter s i j sec } : State).facts i' j') := fun i' j' =>
      ⟨fun u hu => (hhome u (by rw [show s.home u = _ from hu]; simp)).trans hu,
        fun _ _ h => h, fun _ h => h, fun _ h => h, fun _ _ h => h⟩
    refine inv_setThread hinv (books_home hinv.books hhome) rfl
      (script_plan (fun r hr => hinv.books.keyed j r hr) hgiven (fun u hu => ?_) hplan)
      (fun i' j' _ => hgrow i' j') fun _ _ _ _ hdue => hdue
    rw [hu] at hfinished
    exact Or.inl (by simpa using hfinished)
  · rw [beginSection, if_neg hbegins] at h
    cases h

theorem inv_step
    {a : Label}
    (hinv : Inv s) (hin : InStep s a) (h : step cfg s a = some s') :
    Inv s' := by
  cases a with
  | begin i j sec => exact inv_begin hinv h
  | next i now =>
      simp only [step] at h
      cases htodo : (s.threads i).todo with
      | nil => simp [htodo] at h
      | cons a rest =>
          rw [htodo] at h
          have hscript := hinv.scripts i
          rw [htodo] at hscript
          refine inv_act hinv (fun hwrite => ?_) hscript h
          simp only [InStep, htodo] at hin
          rcases hwrite with ⟨row, note, rfl⟩ | rfl <;> exact hin
  | finish u =>
      simp only [step] at h
      split_ifs at h with hstage
      obtain rfl := Option.some.inj h
      have hbooks : Books (s.setStage u .ended) :=
        books_setStage hinv.books (by decide) (fun _ h => by simp at h) (fun h => nomatch h)
      exact ⟨hbooks, fun i' => (hinv.scripts i').grow
        (grow_setStage (fun _ => Or.inl rfl) fun _ _ => by decide) fun _ hdue => hdue⟩
  | vanish u =>
      simp only [step] at h
      split_ifs at h with hstage
      obtain rfl := Option.some.inj h
      have hbooks : Books (s.setStage u .gone) :=
        books_setStage hinv.books (by decide) (fun _ h => by simp at h) (fun h => nomatch h)
      exact ⟨hbooks, fun i' => (hinv.scripts i').grow
        (grow_setStage (fun _ => Or.inr rfl) fun _ _ => by decide) fun _ hdue => hdue⟩
  | removeMissing jobIds =>
      obtain rfl := Option.some.inj h
      exact ⟨books_swept hinv.books jobIds, fun i' => (hinv.scripts i').grow
        ⟨fun _ h => h, fun _ _ h => h, fun _ h => h, fun _ h => h, fun _ _ h => h⟩
        fun _ hdue => hdue⟩

theorem inv_initial : Inv initial where
  books :=
    { keyed := keyed_empty
      kept := fun _ => rfl
      running := fun _ _ h => nomatch h
      known := fun _ h => nomatch h
      current := fun _ _ _ h => nomatch h
      executing := fun _ h => nomatch h
      once := fun _ => Nat.zero_le _
      final := fun _ h => absurd rfl h
      deliveredOnce := fun _ => Nat.zero_le _
      delivered := fun _ h => nomatch h }
  scripts := fun _ => .work (.launch .nothing)

end Begin

/-- Every task is finalized and delivered at most once, at most one task of a job is in
flight, and every row holds exactly what was recorded on it. -/
structure ExactlyOnce (s : State) : Prop where
  finalizedOnce : ∀ t, finals s.log t ≤ 1
  deliveredOnce : ∀ t, s.delivered.count t ≤ 1
  oneInFlight : ∀ t t' i i' j, s.stage t = .executing → s.stage t' = .executing →
    s.home t = some (i, j) → s.home t' = some (i', j) → t = t'
  nothingUndone : ∀ j, s.fieldsOf j = replay j s.log

/-- **Cron run exactly-once.**  In every run in which the threads write back in step, for
any jobs, threads and interleaving. -/
theorem cron_exactly_once
    (cfg : ServiceConfig) (s : State) (h : Reach (step cfg) InStep initial s) :
    ExactlyOnce s := by
  have hinv : Inv s :=
    h.invariant (P := Inv) inv_initial fun _ _ _ hi hc hs => inv_step hi hc hs
  have hbooks := hinv.books
  refine ⟨hbooks.once, hbooks.deliveredOnce, fun t t' i i' j ht ht' hown hown' => ?_, hbooks.kept⟩
  have hrun : s.running j = some t :=
    hbooks.current t i j (hbooks.executing t ht) (Or.inr ht) hown
  have hrun' : s.running j = some t' :=
    hbooks.current t' i' j (hbooks.executing t' ht') (Or.inr ht') hown'
  exact Option.some.inj (hrun.symm.trans hrun')

/-- A job that runs every hundred ticks. -/
def hundredJob : ResolvedJob where
  driver := .schedule (.everySeconds 100)

/-- An operator's run, started and ended. -/
def manualRun : List Label :=
  [.begin 0 "tidy" (.runNow hundredJob 0 { added := some "t1" }),
    .next 0 0, .next 0 0, .next 0 0, .next 0 0, .finish "t1"]

def completion (thread : Nat) (now : Int) : List Label :=
  [.begin thread "tidy" (.finalize (some hundredJob) now now { taskId := "t1", ok := false }
      { added := none }),
    .next thread now, .next thread now, .next thread now]

theorem cron_exactly_once_manualRun :
    ∃ s, run (step tenTicks) initial (manualRun ++ completion 1 11) = some s ∧ ExactlyOnce s := by
  have hrun := run_eq_getD (show
    (run (step tenTicks) initial (manualRun ++ completion 1 11)).isSome = true by decide)
  have hguarded : Guarded (step tenTicks) InStep initial (manualRun ++ completion 1 11) := by
    refine guarded_of_checkRun (fun s a =>
      match a with
      | .next i _ => decide (s.fieldsOf (s.threads i).jobId = (s.threads i).basis)
      | _ => true) (fun s a hcheck => ?_) (by decide)
    cases a with
    | next i now =>
        have heq : s.fieldsOf (s.threads i).jobId = (s.threads i).basis := by simpa using hcheck
        simp only [InStep]
        split
        · exact heq
        · exact heq
        · trivial
    | _ => trivial
  exact ⟨_, hrun, cron_exactly_once tenTicks _ (reach_of_run hrun hguarded)⟩

/-- The tick has read the row when the event thread finalizes the task, writes its copy
back, and the task is finalized again. -/
theorem cron_not_exactly_once :
    ¬ ∀ (cfg : ServiceConfig) (s : State),
      Reach (step cfg) (fun _ _ => True) initial s → ExactlyOnce s := by
  intro hall
  have hreach := reach_run (show (run (step tenTicks) initial (manualRun ++
    .begin 0 "tidy" (.tick hundredJob 10 {} false { added := none }) :: completion 1 11 ++
    [.next 0 12, .next 0 12] ++ completion 0 20)).isSome = true by decide)
  have honce := (hall tenTicks _ hreach).finalizedOnce "t1"
  exact absurd honce (by decide)

end Threads
end Cron
end DiploidAgent
