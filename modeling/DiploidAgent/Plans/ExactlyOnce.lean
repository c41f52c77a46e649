import DiploidAgent.Lib.Ledger
import DiploidAgent.Lib.Runs
import DiploidAgent.Plans.Engine

/-!
# One terminal event for every ended task

The service is a ledger of the library: the outcome of a key is what the plan
store records for the task, the actors are the operator and the workers, and
what they owe is the event they are about to post.  A step that meets `Orderly`
is a step of the ledger (`step_ledger`), so every ended task keeps its outcome
and has exactly one terminal event, which agrees with it.

The handlers write the outcome of an event a second time; that changes nothing
because the event agrees with what is recorded.
-/

namespace DiploidAgent
namespace TaskEngine

open Plans Runs

section Abstraction

/-- The event a worker is about to post. -/
def Worker.owes (w : Worker) : Option Event :=
  match w.pc with
  | .post ev _ => some ev
  | .postError exc => some (.taskFailed w.planId w.taskId none (some exc) {})
  | _ => none

/-- The event an operator call is about to post. -/
def Operator.owes (op : Operator) : Option Event :=
  match op.pc with
  | .post ev => some ev
  | .write _ => none

/-- The task an event is about. -/
def Event.key (ev : Event) : String × String := (ev.planId, ev.taskId)

/-- The service as a ledger. -/
def ledger (s : State) : Ledger (String × String) Ended Event where
  outcome := fun k => ended s.store k.1 k.2
  posted := s.posted
  owed := s.operator.bind Operator.owes :: s.workers.map Worker.owes

end Abstraction

section Conditions

/-- The request repeats an outcome that was recorded when the operator looked. -/
def Request.Repeats (request : Request) (o : Ended) : Prop :=
  match request with
  | .planTaskDone result log => o = (.done, some result, log)
  | .planTaskFail log => o.1 = .failed ∧ o.2.2 = log

/-- The condition on a step: a worker raises no exception inside its `try`, it
records an outcome for a task that has not ended, and an operator call either
does so too or repeats an outcome that was recorded when it looked. -/
def Orderly (s : State) : Label → Prop
  | .worker i move =>
      ∀ w, s.workers[i]? = some w →
        match move with
        | .failDisabled _ => ended s.store w.planId w.taskId = none
        | .executed _ _ => ended s.store w.planId w.taskId = none
        | .startNext _ (.raised _ _) _ => ∀ todo, w.pc ≠ .start todo true
        | .raise _ _ => w.pc ≠ .execute ∧ w.pc ≠ .ready true ∧ ∀ todo, w.pc ≠ .start todo true
        | _ => True
  | .operatorWrite _ =>
      ∀ op, s.operator = some op →
        ended s.store op.planId op.taskId = none ∨
          (op.pc = .write true ∧
            ∃ o, ended s.store op.planId op.taskId = some o ∧ op.request.Repeats o)
  | _ => True

end Conditions

section Writes

variable {store : Store} {planId taskId : String} {now : Int}

/-- Writing an outcome that agrees with the recorded one changes nothing. -/
theorem ended_handle
    (ev : Event) {o : Ended}
    (h : StoreInv store)
    (ho : ended store ev.planId ev.taskId = some o)
    (hag : ev.Agrees o) :
    ended (ev.handle store now) planId taskId = ended store planId taskId := by
  obtain ⟨t, ht, _, rfl⟩ := exists_task_of_ended ho
  cases ev with
  | taskCompleted p i result log fl =>
      obtain ⟨hs, hr, hl⟩ := hag
      dsimp only at hs hr hl
      refine ((ended_completeTask h _ _ _ now ht).2 _ _).trans ?_
      split_ifs with hkey
      · rw [hkey.1, hkey.2, ← hs, ← hr, ← hl]
        exact ho.symm
      · rfl
  | taskFailed p i log error fl =>
      obtain ⟨hs, hl⟩ := hag
      dsimp only at hs hl
      refine ((ended_failTask h _ _ now ht).2 _ _).trans ?_
      split_ifs with hkey
      · rw [hkey.1, hkey.2, ← hs, ← hl]
        exact ho.symm
      · rfl

/-- A plan-manager call that ends one task: nothing was found, or the outcome is
recorded and the event to post agrees with it. -/
def Records (store : Store) (planId taskId : String) (r : Store × Option Event) : Prop :=
  StoreInv r.1 ∧
    ((r.2 = none ∧ ∀ p i, ended r.1 p i = ended store p i) ∨
      ∃ ev o, r.2 = some ev ∧ ev.key = (planId, taskId) ∧ ev.Agrees o ∧
        ∀ p i, ended r.1 p i =
          if p = planId ∧ i = taskId then some o else ended store p i)

theorem records_completeTask
    (h : StoreInv store) (result log : String) (fl : OutcomeFlags) :
    Records store planId taskId
      ((completeTask store planId taskId result log fl now).1,
        (completeTask store planId taskId result log fl now).2.map fun _ =>
          .taskCompleted planId taskId result log fl) := by
  refine ⟨apply_storeInv (.completeTask planId taskId result log fl now) h trivial, ?_⟩
  cases hget : getTask store planId taskId with
  | none =>
      left
      simp [completeTask, setOutcome_of_none hget]
  | some t =>
      right
      obtain ⟨hsome, hrec⟩ := ended_completeTask h result log fl now hget
      obtain ⟨t', ht'⟩ := Option.isSome_iff_exists.mp hsome
      exact ⟨.taskCompleted planId taskId result log fl, (fl.doneStatus, some result, log),
        by rw [ht']; rfl, rfl, ⟨rfl, rfl, rfl⟩, hrec⟩

theorem records_failTask
    (h : StoreInv store) (log : Option String) (error : Option String) (fl fl' : OutcomeFlags) :
    Records store planId taskId
      ((failTask store planId taskId (Event.failureLog log error) fl now).1,
        (failTask store planId taskId (Event.failureLog log error) fl now).2.map fun _ =>
          .taskFailed planId taskId log error fl') := by
  refine ⟨apply_storeInv (.failTask planId taskId _ fl now) h trivial, ?_⟩
  cases hget : getTask store planId taskId with
  | none =>
      left
      simp [failTask, setOutcome_of_none hget]
  | some t =>
      right
      obtain ⟨hsome, hrec⟩ := ended_failTask h (Event.failureLog log error) fl now hget
      obtain ⟨t', ht'⟩ := Option.isSome_iff_exists.mp hsome
      exact ⟨.taskFailed planId taskId log error fl', (.failed, t.result, Event.failureLog log error),
        by rw [ht']; rfl, rfl, ⟨rfl, rfl⟩, hrec⟩

theorem records_recordDisabled
    (h : StoreInv store) (type : TaskType) :
    Records store planId taskId (recordDisabled store planId taskId type now) :=
  records_failTask h (some ("Task type " ++ typeValue type ++ " is disabled")) none {} {}

theorem records_recordExecuted
    (h : StoreInv store) (e : Executed) :
    Records store planId taskId (recordExecuted store planId taskId e now) := by
  unfold recordExecuted
  split_ifs
  · exact records_completeTask h e.result e.log e.fl
  · exact records_failTask h (some e.result) none e.fl e.fl
  · exact records_failTask h (some e.log) none e.fl e.fl

end Writes

section Steps

/-- The worker is not in its `except` branch. -/
def Pc.calm : Pc → Bool
  | .raised _ _ => false
  | .postError _ => false
  | _ => true

/-- The program counters at which a worker owes nothing. -/
def Pc.idle : Pc → Bool
  | .post _ _ => false
  | .postError _ => false
  | _ => true

theorem owes_of_idle
    {w : Worker}
    (h : w.pc.idle = true) :
    w.owes = none := by
  obtain ⟨planId, taskId, pc⟩ := w
  cases pc <;> first | rfl | cases h

theorem idle_afterRaise
    (guarded : Bool) (exc trace : String) :
    (afterRaise guarded exc trace).idle = true := by
  unfold afterRaise
  split_ifs <;> rfl

/-- What one step of a worker can do. -/
inductive WorkerStep (s : State) (i : Nat) (w : Worker) : State → Prop
  | move {pc : Pc} (hbefore : w.pc.idle = true) (hafter : pc.idle = true)
      (hcalm : pc.calm = true) : WorkerStep s i w (s.setPc i w pc)
  | record {r : Store × Option Event} {guarded : Bool} (hbefore : w.pc.idle = true)
      (hr : Records s.store w.planId w.taskId r)
      (hopen : ended s.store w.planId w.taskId = none) :
      WorkerStep s i w (({ s with store := r.1 } : State).setPc i w (afterRecord r.2 guarded))
  | post {ev : Event} {guarded : Bool} (hpc : w.pc = .post ev guarded) :
      WorkerStep s i w ((s.post ev).setPc i w (.ready guarded))
  | start {taskId : String} {submit : Submit} {now : Int} {pc : Pc}
      (hbefore : w.pc.idle = true) (hafter : pc.idle = true) (hcalm : pc.calm = true) :
      WorkerStep s i w ((startTask s w.planId taskId submit now).1.setPc i w pc)

/-- An orderly step of a worker that is not in its `except` branch. -/
theorem workerStep_of_stepWorker
    {s s' : State} {i : Nat} {w : Worker} {move : Move}
    (hstore : StoreInv s.store)
    (hw : s.workers[i]? = some w)
    (hcalm : w.pc.calm = true)
    (hord : Orderly s (.worker i move))
    (h : stepWorker s i w move = some s') :
    WorkerStep s i w s' := by
  replace hord := hord w hw
  unfold stepWorker at h
  split at h
  · -- fetch
    rename_i hpc
    have hbefore : w.pc.idle = true := by rw [hpc]; rfl
    split at h
    · obtain rfl := Option.some.inj h
      exact .move hbefore rfl rfl
    · obtain rfl := Option.some.inj h
      refine .move hbefore ?_ ?_ <;> split_ifs <;> rfl
  · -- a disabled type
    rename_i type now hpc
    dsimp only at h
    obtain rfl := Option.some.inj h
    exact .record (r := recordDisabled s.store w.planId w.taskId type now)
      (by rw [hpc]; rfl) (records_recordDisabled hstore type) hord
  · -- executed
    rename_i e now hpc
    dsimp only at h
    obtain rfl := Option.some.inj h
    exact .record (r := recordExecuted s.store w.planId w.taskId e now)
      (by rw [hpc]; rfl) (records_recordExecuted hstore e) hord
  · rename_i ev guarded hpc
    obtain rfl := Option.some.inj h
    exact .post hpc
  · rename_i guarded hpc
    obtain rfl := Option.some.inj h
    exact .move (by rw [hpc]; rfl) rfl rfl
  · rename_i hpc
    obtain rfl := Option.some.inj h
    exact .move (by rw [hpc]; rfl) rfl rfl
  · -- the next dependent
    rename_i t ts guarded busy submit now hpc
    have hbefore : w.pc.idle = true := by rw [hpc]; rfl
    split_ifs at h
    · obtain rfl := Option.some.inj h
      exact .move hbefore rfl rfl
    · obtain rfl := Option.some.inj h
      refine .start hbefore ?_ ?_
      · unfold afterStart
        split
        · exact idle_afterRaise _ _ _
        · rfl
      · unfold afterStart
        split
        · cases guarded with
          | false => rfl
          | true => exact absurd hpc (hord (t :: ts))
        · rfl
  · rename_i hpc
    exact absurd hpc hord.1
  · rename_i guarded exc trace hpc
    obtain rfl := Option.some.inj h
    cases guarded with
    | true => exact absurd hpc hord.2.1
    | false => exact .move (by rw [hpc]; rfl) rfl rfl
  · rename_i todo guarded exc trace hpc
    obtain rfl := Option.some.inj h
    cases guarded with
    | true => exact absurd hpc (hord.2.2 todo)
    | false => exact .move (by rw [hpc]; rfl) rfl rfl
  · rename_i hpc
    obtain rfl := Option.some.inj h
    exact .move (by rw [hpc]; rfl) rfl rfl
  · rename_i hpc
    rw [hpc] at hcalm
    cases hcalm
  · rename_i hpc
    rw [hpc] at hcalm
    cases hcalm
  · rename_i hpc
    rw [hpc] at hcalm
    cases hcalm
  · cases h

end Steps

section Refinement

variable {s s' : State} {i : Nat} {w : Worker}

theorem ledger_setPc
    (s : State) (i : Nat) (w : Worker) (pc : Pc) :
    ledger (s.setPc i w pc) =
      { ledger s with owed := (ledger s).owed.set (i + 1) (Worker.owes { w with pc := pc }) } := by
  simp [ledger, State.setPc, List.map_set]

theorem owed_worker
    (hw : s.workers[i]? = some w) :
    (ledger s).owed[i + 1]? = some w.owes := by
  simp [ledger, hw]

theorem set_eq_self
    {α : Type} {l : List α} {j : Nat} {x : α}
    (h : l[j]? = some x) :
    l.set j x = l := by
  obtain ⟨hj, rfl⟩ := List.getElem?_eq_some_iff.mp h
  exact List.set_getElem_self hj

/-- Moving a worker between idle program counters does not touch the books. -/
theorem ledger_move
    {pc : Pc}
    (hw : s.workers[i]? = some w)
    (hbefore : w.pc.idle = true) (hafter : pc.idle = true) :
    ledger (s.setPc i w pc) = ledger s := by
  have howed := owed_worker hw
  rw [owes_of_idle hbefore] at howed
  rw [ledger_setPc, owes_of_idle (w := { w with pc := pc }) hafter, set_eq_self howed]

theorem ledger_store
    {store : Store}
    (h : ∀ p i, ended store p i = ended s.store p i) :
    ledger { s with store := store } = ledger s := by
  simp [ledger, h]

theorem outcome_update
    {store store' : Store} {planId taskId : String} {o : Ended}
    (h : ∀ p i, ended store' p i =
      if p = planId ∧ i = taskId then some o else ended store p i) :
    (fun k : String × String => ended store' k.1 k.2) =
      Function.update (fun k : String × String => ended store k.1 k.2) (planId, taskId)
        (some o) := by
  funext k
  rw [h, Function.update_apply]
  simp only [Prod.ext_iff]

/-- A started task owes nothing; its worker joins the books. -/
theorem ledger_startTask
    (s : State) (planId taskId : String) (submit : Submit) (now : Int) :
    Ledger.Step Event.key Event.Agrees (ledger s)
      (ledger (startTask s planId taskId submit now).1) := by
  have hstore : ledger { s with store := (Plans.startTask s.store planId taskId now).1 } =
      ledger s := ledger_store fun _ _ => ended_startTask
  unfold startTask
  dsimp only
  split
  · rw [hstore]
    exact .same _
  · have hgrow : ledger (State.spawn
        { s with store := (Plans.startTask s.store planId taskId now).1 } planId taskId) =
        { ledger s with owed := (ledger s).owed ++ [none] } := by
      rw [← hstore]
      simp [ledger, State.spawn, Worker.owes]
    rw [hgrow]
    exact .grow _
  · rw [hstore]
    exact .same _
  · rw [hstore]
    exact .same _

/-- A worker's step is a step of the books. -/
theorem WorkerStep.ledger
    (hw : s.workers[i]? = some w)
    (h : WorkerStep s i w s') :
    Ledger.Step Event.key Event.Agrees (ledger s) (ledger s') := by
  cases h with
  | move hbefore hafter _ =>
      rw [ledger_move hw hbefore hafter]
      exact .same _
  | @record r guarded hbefore hr hopen =>
      have howed := owed_worker hw
      rw [owes_of_idle hbefore] at howed
      rcases hr.2 with ⟨hnone, hsame⟩ | ⟨ev, o, hsome, hkey, hag, hrec⟩
      · rw [hnone]
        have hw' : ({ s with store := r.1 } : State).workers[i]? = some w := hw
        rw [ledger_move hw' hbefore (by rfl), ledger_store hsame]
        exact .same _
      · have hstep : Ledger.Step Event.key Event.Agrees (TaskEngine.ledger s)
            { TaskEngine.ledger s with
              outcome := Function.update (TaskEngine.ledger s).outcome ev.key (some o)
              owed := (TaskEngine.ledger s).owed.set (i + 1) (some ev) } :=
          .record (by rw [hkey]; exact hopen) howed hag
        have hout := outcome_update hrec
        rw [hsome, ledger_setPc]
        rw [hkey] at hstep
        simp only [TaskEngine.ledger] at hstep ⊢
        rw [hout]
        exact hstep
  | @post ev guarded hpc =>
      have howed := owed_worker hw
      have howes : w.owes = some ev := by simp [Worker.owes, hpc]
      rw [howes] at howed
      rw [ledger_setPc]
      exact .post howed
  | start hbefore hafter _ =>
      rw [ledger_move (workers_startTask hw) hbefore hafter]
      exact ledger_startTask _ _ _ _ _

/-- What the refinement needs besides the books. -/
structure Side (s : State) : Prop where
  store : StoreInv s.store
  queue : ∀ ev, ev ∈ s.queue → ev ∈ s.posted
  calm : ∀ w, w ∈ s.workers → w.pc.calm = true
  looked : ∀ op, s.operator = some op → op.pc = .write true →
    (ended s.store op.planId op.taskId).isSome = true

theorem calm_set
    {pc : Pc}
    (h : ∀ w, w ∈ s.workers → w.pc.calm = true)
    (hpc : pc.calm = true) :
    ∀ u, u ∈ (s.setPc i w pc).workers → u.pc.calm = true := by
  intro u hu
  rcases List.mem_or_eq_of_mem_set hu with hu | rfl
  · exact h u hu
  · exact hpc

/-- An operator call in progress keeps what it saw. -/
theorem looked_of_step
    (hstep : Ledger.Step Event.key Event.Agrees (ledger s) (ledger s'))
    (hop : s'.operator = s.operator)
    (h : Side s) :
    ∀ op, s'.operator = some op → op.pc = .write true →
      (ended s'.store op.planId op.taskId).isSome = true := by
  intro op hop' hpc
  rw [hop] at hop'
  obtain ⟨o, ho⟩ := Option.isSome_iff_exists.mp (h.looked op hop' hpc)
  have hstays := hstep.outcome_stays (k := (op.planId, op.taskId)) ho
  exact Option.isSome_iff_exists.mpr ⟨o, hstays⟩

theorem startTask_frame
    (s : State) (planId taskId : String) (submit : Submit) (now : Int) :
    (startTask s planId taskId submit now).1.store =
        (Plans.startTask s.store planId taskId now).1 ∧
      (startTask s planId taskId submit now).1.queue = s.queue ∧
      (startTask s planId taskId submit now).1.posted = s.posted ∧
      (startTask s planId taskId submit now).1.operator = s.operator ∧
      ∀ u, u ∈ (startTask s planId taskId submit now).1.workers →
        u ∈ s.workers ∨ u.pc = .fetch := by
  unfold startTask
  dsimp only
  split
  · exact ⟨rfl, rfl, rfl, rfl, fun _ hu => Or.inl hu⟩
  · refine ⟨rfl, rfl, rfl, rfl, fun u hu => ?_⟩
    rcases List.mem_append.mp hu with hu | hu
    · exact Or.inl hu
    · obtain rfl := List.mem_singleton.mp hu
      exact Or.inr rfl
  · exact ⟨rfl, rfl, rfl, rfl, fun _ hu => Or.inl hu⟩
  · exact ⟨rfl, rfl, rfl, rfl, fun _ hu => Or.inl hu⟩

theorem startTask_side
    (h : Side s) (planId taskId : String) (submit : Submit) (now : Int) :
    Side (startTask s planId taskId submit now).1 := by
  obtain ⟨hstore, hqueue, hposted, hop, hworkers⟩ := startTask_frame s planId taskId submit now
  refine ⟨?_, ?_, ?_, looked_of_step (ledger_startTask s planId taskId submit now) hop h⟩
  · rw [hstore]
    exact apply_storeInv (.startTask planId taskId now) h.store trivial
  · rw [hqueue, hposted]
    exact h.queue
  · intro u hu
    rcases hworkers u hu with hu | hu
    · exact h.calm u hu
    · rw [hu]
      rfl

theorem WorkerStep.side
    (hw : s.workers[i]? = some w)
    (h : Side s)
    (hstep : WorkerStep s i w s') :
    Side s' := by
  have hledger := hstep.ledger hw
  cases hstep with
  | move _ _ hcalm =>
      exact ⟨h.store, h.queue, calm_set h.calm hcalm, looked_of_step hledger rfl h⟩
  | @record r guarded _ hr _ =>
      refine ⟨hr.1, h.queue, calm_set h.calm ?_, looked_of_step hledger rfl h⟩
      cases r.2 <;> rfl
  | @post ev guarded _ =>
      refine ⟨h.store, fun e he => ?_, calm_set h.calm rfl, looked_of_step hledger rfl h⟩
      rcases List.mem_append.mp he with he | he
      · exact List.mem_append_left _ (h.queue e he)
      · exact List.mem_append_right _ he
  | @start taskId submit now pc _ _ hcalm =>
      have hmid := startTask_side h w.planId taskId submit now
      have hop := (startTask_frame s w.planId taskId submit now).2.2.2.1
      exact ⟨hmid.store, hmid.queue, calm_set hmid.calm hcalm, looked_of_step hledger hop h⟩

end Refinement

section Operator

variable {s s' : State}

theorem records_request
    {store : Store}
    (h : StoreInv store) (planId taskId : String) (request : Request) (now : Int) :
    Records store planId taskId
      ((request.write store planId taskId now).1,
        (request.write store planId taskId now).2.map fun _ => request.event planId taskId) := by
  cases request with
  | planTaskDone result log => exact records_completeTask h result log {}
  | planTaskFail log => exact records_failTask h (some log) none {} {}

/-- A request that repeats the recorded outcome changes nothing. -/
theorem ended_write_of_repeats
    {store : Store} {planId taskId : String} {now : Int} {request : Request} {o : Ended}
    (h : StoreInv store)
    (ho : ended store planId taskId = some o)
    (hrep : request.Repeats o) (p i : String) :
    ended (request.write store planId taskId now).1 p i = ended store p i := by
  cases request with
  | planTaskDone result log =>
      obtain rfl := hrep
      exact ended_handle (.taskCompleted planId taskId result log {}) h ho
        ⟨rfl, rfl, rfl⟩
  | planTaskFail log =>
      exact ended_handle (.taskFailed planId taskId (some log) none {}) h ho hrep

/-- The write of an operator call that meets the condition. -/
theorem operatorWrite_step
    {op : Operator} {already : Bool} {now : Int}
    (h : Side s)
    (hop : s.operator = some op)
    (hpc : op.pc = .write already)
    (hord : Orderly s (.operatorWrite now)) :
    Ledger.Step Event.key Event.Agrees (ledger s) (ledger (operatorWrite s op already now)) ∧
      Side (operatorWrite s op already now) := by
  obtain ⟨hstore, hrec⟩ := records_request h.store op.planId op.taskId op.request now
  have howes : op.owes = none := by simp [Operator.owes, hpc]
  have hidle : (ledger s).owed[0]? = some none := by simp [ledger, hop, howes]
  -- the write leaves every outcome alone and the call ends
  have hquiet : (∀ p i, ended (op.request.write s.store op.planId op.taskId now).1 p i =
      ended s.store p i) →
      (operatorWrite s op already now).operator = none →
      Ledger.Step Event.key Event.Agrees (ledger s) (ledger (operatorWrite s op already now)) ∧
        Side (operatorWrite s op already now) := by
    intro hsame hnone
    have hledger : ledger (operatorWrite s op already now) = ledger s := by
      simp only [ledger, hnone, hop]
      simp [operatorWrite, hsame, howes]
    refine ⟨by rw [hledger]; exact .same _, hstore, h.queue, h.calm, fun op' hop' => ?_⟩
    rw [hnone] at hop'
    cases hop'
  rcases hord op hop with hopen | ⟨hwrite, o, ho, hrep⟩
  · have hnew : already = false := by
      cases already with
      | false => rfl
      | true =>
          have := h.looked op hop hpc
          rw [hopen] at this
          cases this
    subst hnew
    rcases hrec with ⟨hnone, hsame⟩ | ⟨ev, o, hsome, hkey, hag, hout⟩
    · refine hquiet hsame ?_
      have : (op.request.write s.store op.planId op.taskId now).2 = none := by
        simpa using hnone
      simp [operatorWrite, this]
    · obtain ⟨t, ht, rfl⟩ := Option.map_eq_some_iff.mp hsome
      have hafter : (operatorWrite s op false now).operator =
          some { op with pc := .post (op.request.event op.planId op.taskId) } := by
        simp [operatorWrite, ht]
      have hstep : Ledger.Step Event.key Event.Agrees (ledger s)
          { ledger s with
            outcome := Function.update (ledger s).outcome
              (op.request.event op.planId op.taskId).key (some o)
            owed := (ledger s).owed.set 0 (some (op.request.event op.planId op.taskId)) } :=
        .record (by rw [hkey]; exact hopen) hidle hag
      have hledger : ledger (operatorWrite s op false now) =
          { ledger s with
            outcome := Function.update (ledger s).outcome
              (op.request.event op.planId op.taskId).key (some o)
            owed := (ledger s).owed.set 0 (some (op.request.event op.planId op.taskId)) } := by
        rw [hkey]
        simp only [ledger, hafter, ← outcome_update hout]
        rfl
      refine ⟨by rw [hledger]; exact hstep, hstore, h.queue, h.calm, fun op' hop' hpc' => ?_⟩
      rw [hafter, Option.some.injEq] at hop'
      subst hop'
      cases hpc'
  · have hdone : already = true := by
      rw [hpc] at hwrite
      exact OperatorPc.write.inj hwrite
    subst hdone
    exact hquiet (ended_write_of_repeats h.store ho hrep) (by simp [operatorWrite])

end Operator

section Run

variable {s s' : State}

theorem step_ledger
    {a : Label}
    (h : Side s)
    (hb : (ledger s).Balanced Event.key Event.Agrees)
    (hord : Orderly s a)
    (hstep : step s a = some s') :
    Ledger.Step Event.key Event.Agrees (ledger s) (ledger s') ∧ Side s' := by
  -- a write that leaves every outcome alone
  have hquiet : ∀ store, StoreInv store → (∀ p i, ended store p i = ended s.store p i) →
      Ledger.Step Event.key Event.Agrees (ledger s) (ledger { s with store := store }) ∧
        Side { s with store := store } := by
    intro store hstore hsame
    have hledger := ledger_store hsame
    refine ⟨by rw [hledger]; exact .same _, hstore, h.queue, h.calm, ?_⟩
    exact looked_of_step (s := s) (by rw [hledger]; exact .same _) rfl h
  cases a with
  | createPlan planId name chatId tasks freshId now =>
      simp only [step] at hstep
      split_ifs at hstep with hguard
      obtain rfl := Option.some.inj hstep
      obtain ⟨hfresh, hnd, hpending⟩ := hguard
      have hpending' : ∀ t, t ∈ withIds freshId tasks → t.status = .pending := by
        intro t ht
        simpa using List.all_eq_true.mp hpending t ht
      refine hquiet _ ?_ fun _ _ => ended_createPlan (by simpa using hfresh) hnd hpending'
      exact apply_storeInv (.createPlan planId name chatId tasks freshId now) h.store
        ⟨hnd, hpending'⟩
  | addTask planId task freshId now =>
      simp only [step] at hstep
      split_ifs at hstep with hpending
      obtain rfl := Option.some.inj hstep
      refine hquiet _ ?_ fun _ _ => ended_addTask h.store hpending
      exact apply_storeInv (.addTask planId task freshId now) h.store hpending
  | startTask planId taskId submit now =>
      obtain rfl := Option.some.inj hstep
      exact ⟨ledger_startTask s planId taskId submit now, startTask_side h planId taskId submit now⟩
  | worker i move =>
      obtain ⟨w, hw, hstep⟩ := Option.bind_eq_some_iff.mp hstep
      have hworker := workerStep_of_stepWorker h.store hw
        (h.calm w (List.mem_of_getElem? hw)) hord hstep
      exact ⟨hworker.ledger hw, hworker.side hw h⟩
  | operatorRead planId taskId request =>
      simp only [step] at hstep
      split at hstep
      · cases hstep
      · rename_i hop
        obtain rfl := Option.some.inj hstep
        have hledger : ledger { s with operator := some ⟨planId, taskId, request,
            .write (request.already (getTask s.store planId taskId))⟩ } = ledger s := by
          simp [ledger, hop, Operator.owes]
        refine ⟨by rw [hledger]; exact .same _, h.store, h.queue, h.calm, fun op hop hpc => ?_⟩
        obtain rfl := Option.some.inj hop
        have halready := OperatorPc.write.inj hpc
        cases hget : getTask s.store planId taskId with
        | none =>
            rw [hget] at halready
            cases request <;> cases halready
        | some t =>
            rw [hget] at halready
            have hterm : t.status.isTerminal = true := by
              cases request with
              | planTaskDone result log => exact TaskStatus.isTerminal_of_isDone halready
              | planTaskFail log =>
                  have hs : t.status = .failed := by simpa [Request.already] using halready
                  rw [hs]
                  rfl
            simp [ended, hget, Task.ended, hterm]
  | operatorWrite now =>
      simp only [step] at hstep
      split at hstep
      · rename_i op hop
        split at hstep
        · rename_i already hpc
          obtain rfl := Option.some.inj hstep
          exact operatorWrite_step h hop hpc hord
        · cases hstep
      · cases hstep
  | operatorPost =>
      simp only [step] at hstep
      split at hstep
      · rename_i op hop
        split at hstep
        · rename_i ev hpc
          obtain rfl := Option.some.inj hstep
          have hdue : (ledger s).owed[0]? = some (some ev) := by
            simp [ledger, hop, Operator.owes, hpc]
          have hledger : ledger { s.post ev with operator := none } =
              { ledger s with
                posted := (ledger s).posted ++ [ev], owed := (ledger s).owed.set 0 none } := rfl
          refine ⟨by rw [hledger]; exact .post hdue, h.store, fun e he => ?_, h.calm,
            fun op' hop' => by cases hop'⟩
          rcases List.mem_append.mp he with he | he
          · exact List.mem_append_left _ (h.queue e he)
          · exact List.mem_append_right _ he
        · cases hstep
      · cases hstep
  | handle now =>
      simp only [step] at hstep
      split at hstep
      · cases hstep
      · rename_i ev rest hqueue
        obtain rfl := Option.some.inj hstep
        have hposted : ev ∈ s.posted := h.queue ev (by rw [hqueue]; simp)
        obtain ⟨o, ho, hag⟩ := hb.agrees ev (Or.inl hposted)
        have hsame : ∀ p i, ended (ev.handle s.store now) p i = ended s.store p i :=
          fun _ _ => ended_handle ev h.store ho hag
        have hstore : StoreInv (ev.handle s.store now) := by
          cases ev with
          | taskCompleted p i result log fl =>
              exact apply_storeInv (.completeTask p i result log fl now) h.store trivial
          | taskFailed p i log error fl =>
              exact apply_storeInv (.failTask p i _ fl now) h.store trivial
        obtain ⟨hledger, hside⟩ := hquiet _ hstore hsame
        exact ⟨hledger, hside.store, fun e he => h.queue e (by rw [hqueue]; simp [he]),
          hside.calm, hside.looked⟩

theorem side_initial : Side initial :=
  ⟨fun _ _ hget => by simp [initial] at hget, fun _ hev => by simp [initial] at hev,
    fun _ hw => by simp [initial] at hw, fun _ hop => by cases hop⟩

theorem balanced_initial : (ledger initial).Balanced Event.key Event.Agrees := by
  refine ⟨fun k => rfl, fun e he => ?_⟩
  rcases he with he | he
  · simp [ledger, initial] at he
  · simp [ledger, initial] at he

/-- What every orderly run keeps. -/
theorem inv_of_reach
    (h : Reach step Orderly initial s) :
    Side s ∧ (ledger s).Balanced Event.key Event.Agrees := by
  refine h.invariant
    (P := fun s => Side s ∧ (ledger s).Balanced Event.key Event.Agrees)
    ⟨side_initial, balanced_initial⟩ ?_
  rintro s a s' ⟨hside, hb⟩ hord hstep
  obtain ⟨hledger, hside'⟩ := step_ledger hside hb hord hstep
  exact ⟨hside', hledger.balanced hb⟩

/-- An outcome recorded in an orderly run stays to its end. -/
theorem ended_of_reach
    {planId taskId : String} {o : Ended}
    (hs : Reach step Orderly initial s)
    (h : Reach step Orderly s s')
    (ho : ended s.store planId taskId = some o) :
    ended s'.store planId taskId = some o := by
  obtain ⟨hside, hb⟩ := inv_of_reach hs
  refine h.relation (R := fun s => ended s.store planId taskId = some o)
    (P := fun s => Side s ∧ (ledger s).Balanced Event.key Event.Agrees)
    ⟨hside, hb⟩ ?_ ho ?_
  · rintro s a s' ⟨hside, hb⟩ hord hstep
    obtain ⟨hledger, hside'⟩ := step_ledger hside hb hord hstep
    exact ⟨hside', hledger.balanced hb⟩
  · rintro s a s' ⟨hside, hb⟩ hold hord hstep
    exact (step_ledger hside hb hord hstep).1.outcome_stays (k := (planId, taskId)) hold

/-- In the state and in every run from it that meets the condition: an ended
task has exactly one terminal event, posted or about to be posted, which agrees
with its outcome; a task that has not ended has none; and an outcome stays. -/
def ExactlyOnce (cond : State → Label → Prop) (s : State) : Prop :=
  (∀ planId taskId o, ended s.store planId taskId = some o →
    (ledger s).postedCount Event.key (planId, taskId) +
        (ledger s).owedCount Event.key (planId, taskId) = 1 ∧
      ∀ ev, (ledger s).Issued ev → ev.key = (planId, taskId) → ev.Agrees o) ∧
  (∀ planId taskId, ended s.store planId taskId = none →
    ∀ ev, (ledger s).Issued ev → ev.key ≠ (planId, taskId)) ∧
  ∀ s', Reach step cond s s' → ∀ planId taskId o,
    ended s.store planId taskId = some o → ended s'.store planId taskId = some o

/-- **Terminal exactly once.** -/
theorem terminal_exactly_once
    (s : State)
    (h : Reach step Orderly initial s) :
    ExactlyOnce Orderly s := by
  obtain ⟨_, hb⟩ := inv_of_reach h
  refine ⟨fun planId taskId o ho => ⟨?_, fun ev hev hkey => ?_⟩, fun planId taskId hnone ev hev hkey => ?_,
    fun s' hs' planId taskId o ho => ended_of_reach h hs' ho⟩
  · have hcount := hb.count (planId, taskId)
    have hsome : (ledger s).outcome (planId, taskId) = some o := ho
    simpa [hsome] using hcount
  · obtain ⟨o', ho', hag⟩ := hb.agrees ev hev
    rw [hkey] at ho'
    obtain rfl : o' = o := Option.some.inj (ho'.symm.trans ho)
    exact hag
  · obtain ⟨o', ho', _⟩ := hb.agrees ev hev
    rw [hkey] at ho'
    have hnone' : (ledger s).outcome (planId, taskId) = none := hnone
    rw [hnone'] at ho'
    cases ho'

/-- A NOOP task and one that depends on it; the first is run to the record of
its outcome. -/
def recordedRun : List Label :=
  [.createPlan "plan-1" "chain" none
      [{ id := "a", name := "a", type := .noop },
        { id := "b", name := "b", type := .noop, dependsOn := ["a"] }] (fun _ => "") 0,
    .startTask "plan-1" "a" .accepted 1,
    .worker 0 (.fetch true),
    .worker 0 (.executed { result := "noop", log := "", exitCode := 0 } 2)]

theorem terminal_exactly_once_recordedRun :
    ∃ s, run step initial recordedRun = some s ∧
      ended s.store "plan-1" "a" = some (.done, some "noop", "") ∧ ExactlyOnce Orderly s := by
  have hrun := run_eq_getD (show (run step initial recordedRun).isSome = true by decide)
  refine ⟨_, hrun, by decide, terminal_exactly_once _ (reach_of_run hrun ?_)⟩
  refine ⟨trivial, fun s₁ h₁ => ⟨trivial, fun s₂ h₂ => ⟨?_, fun s₃ h₃ => ⟨?_, fun _ _ => trivial⟩⟩⟩⟩
  · exact fun _ _ => trivial
  · obtain rfl := Option.some.inj h₁
    obtain rfl := Option.some.inj h₂
    obtain rfl := Option.some.inj h₃
    intro w hw
    obtain rfl := Option.some.inj hw
    decide

/-- The pool is shut down when the dependent is to be started. -/
def shutdownRun : List Label :=
  [.worker 0 .post, .worker 0 .readReady,
    .worker 0 (.startNext false
      (.raised "cannot schedule new futures after shutdown" "Traceback") 3),
    .worker 0 (.failRaised 4)]

/-- The exception raised while the dependent of a DONE task is started turns the
task into a FAILED one. -/
theorem not_terminal_exactly_once :
    ¬ ∀ s, Reach step (fun _ _ => True) initial s → ExactlyOnce (fun _ _ => True) s := by
  intro h
  have hrecorded := reach_run (show (run step initial recordedRun).isSome = true by decide)
  have hshutdown := reach_run
    (show (run step ((run step initial recordedRun).getD initial) shutdownRun).isSome = true by
      decide)
  have hstays := (h _ hrecorded).2.2 _ hshutdown "plan-1" "a"
    (.done, some "noop", "") (by decide)
  revert hstays
  decide

end Run

end TaskEngine
end DiploidAgent
