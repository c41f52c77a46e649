import DiploidAgent.Cron.Store
import DiploidAgent.Lib.TableFile
import DiploidAgent.Plans.Writes
import DiploidAgent.Runtime.Loaders
import DiploidAgent.Runtime.WakeLease

/-!
# Transactions of the three stores

`WakeQueue`, `PlanManager` and `CronStateStore` wrap every call into a `_transaction` that
loads the file, applies the call and saves.  The load takes a file that it cannot read for an
empty one, and what the call makes of that is saved over it.

A wake event and a plan have a line each, which reads as a record, is skipped or is fatal; the
lines that are written read back.  The rows of the cron state are text, in which a row with a
line boundary in one of its strings does not read back.

Whatever the call: a failed read destroys nothing and every record that the call is not about
stays, exactly when what was not read is not written over and, of the cron state, the rows that
stay are clean (`stores_spare_iff`).
-/

namespace DiploidAgent
namespace Transactions

open Cron LineLoader Loaders TableFile

/-! ### The wake queue -/

section Wake

open Wake

/-- A call of `WakeQueue`: one that changes events, or one that only looks at them. -/
inductive WakeCall where
  | change (op : Wake.Label)
  | get (eventId : String)
  | pending (chatId : Option String) (now : Option Int)
  | pendingCount (now : Int)
  | dueCount (now : Int)

/-- What is done to the loaded queue; a payload that cannot be merged is a `TypeError`. -/
def WakeCall.body (q : Queue) : WakeCall → Except PyError Queue
  | .change (.merge event key now) =>
      match mergeTarget q event key now with
      | none => .ok q
      | some target =>
          match mergePayload target.payload event.payload with
          | none => .error .typeError
          | some _ => .ok (mergeIntoReady q event key now).1
  | .change op => .ok (Wake.apply q op)
  | _ => .ok q

/-- The events that a call is about. -/
def WakeCall.targets (q : Queue) : WakeCall → String → Prop
  | .change (.enqueue event freshId), id => id = (event.withId freshId).id
  | .change (.ready eventId _), id => id = eventId
  | .change (.merge event key now), id =>
      ∃ target, mergeTarget q event key now = some target ∧ target.id = id
  | .change (.popDue now _), id => ∃ e, q.get id = some e ∧ e.isDue now = true
  | .change (.complete eventId), id => id = eventId
  | .change (.fail eventId _ _), id => id = eventId
  | .change (.cancelEvent eventId _ _), id => id = eventId
  | .change (.cancel chatId reason now), id =>
      ∃ e, q.get id = some e ∧ cancels chatId reason now (id, e) = true
  | .change (.cancelOlderThan before reason now), id =>
      ∃ e, q.get id = some e ∧ cancelsOlder before reason now (id, e) = true
  | _, _ => False

variable {q q' : Queue} {call : WakeCall} {id : String}

theorem wake_body_cases
    (h : call.body q = .ok q') :
    q' = q ∨ ∃ op, call = .change op ∧ q' = Wake.apply q op := by
  cases call with
  | change op =>
      cases op with
      | merge event key now =>
          unfold WakeCall.body at h
          dsimp only at h
          split at h
          · exact Or.inl (Except.ok.inj h).symm
          · split at h
            · cases h
            · exact Or.inr ⟨_, rfl, (Except.ok.inj h).symm⟩
      | _ => exact Or.inr ⟨_, rfl, (Except.ok.inj h).symm⟩
  | _ => exact Or.inl (Except.ok.inj h).symm

theorem get_filter_of_spared
    {p : WakeEvent → Bool} (h : ¬ ∃ e, q.get id = some e ∧ p e = true) :
    (q.get id).filter (fun e => !p e) = q.get id := by
  cases hget : q.get id with
  | none => rfl
  | some e =>
      have hspared : p e = false := by
        cases hp : p e with
        | false => rfl
        | true => exact absurd ⟨e, hget, hp⟩ h
      rw [Option.filter_some, hspared]
      rfl

/-- A call leaves the events alone that it is not about. -/
theorem wake_frame
    (h : call.body q = .ok q') (hother : ¬ call.targets q id) :
    q'.get id = q.get id := by
  rcases wake_body_cases h with rfl | ⟨op, rfl, rfl⟩
  · rfl
  cases op with
  | enqueue event freshId =>
      exact (get_enqueue event freshId).trans (if_neg fun heq => hother heq.symm)
  | ready eventId now =>
      exact (get_ready eventId now).trans (if_neg fun heq => hother heq.symm)
  | merge event key now =>
      rcases get_mergeIntoReady q id event key now with hsame | ⟨target, _, htarget, hid, _⟩
      · exact hsame
      · exact absurd ⟨target, htarget, hid⟩ hother
  | popDue now leaseSeconds =>
      refine (get_popDue now leaseSeconds).trans ?_
      cases hget : q.get id with
      | none => rfl
      | some e =>
          have hdue : ¬ e.isDue now = true := fun hdue => hother ⟨e, hget, hdue⟩
          rw [Option.map_some, if_neg hdue]
  | complete eventId =>
      exact (get_complete eventId).trans (if_neg fun heq => hother heq.symm)
  | fail eventId retryAfter now =>
      exact (get_fail eventId retryAfter now).trans (if_neg fun heq => hother heq.symm)
  | cancelEvent eventId chatId now =>
      refine (get_cancelEvent eventId chatId now).trans (get_filter_of_spared ?_)
      rintro ⟨e, _, hcancels⟩
      simp only [cancelsEvent, Bool.and_eq_true, beq_iff_eq] at hcancels
      exact hother hcancels.1.1.1
  | cancel chatId reason now =>
      exact (get_cancel chatId reason now).trans (get_filter_of_spared hother)
  | cancelOlderThan before reason now =>
      exact (get_cancelOlderThan before reason now).trans (get_filter_of_spared hother)

/-- `_load` and `_save` of `WakeQueue`. -/
def wakeFormat : Format PyError (List (Outcome PyError WakeEvent)) String WakeEvent :=
  rowFormat WakeEvent.id

def WakeCall.transaction (call : WakeCall) :
    Transaction PyError String WakeEvent wakeFormat.keyOf where
  saves := true
  body q := call.body q
  targets q := call.targets q
  own := by
    intro q q' hown h
    rcases wake_body_cases h with rfl | ⟨op, rfl, rfl⟩
    · exact hown
    · exact keyed_apply hown
  frame := fun _ _ _ h _ hother => wake_frame h hother

end Wake

/-! ### The plan manager -/

section Plans

open Plans

/-- A call of `PlanManager`: one that changes a plan, or one that only looks at it. -/
inductive PlanCall where
  | change (op : Plans.Call)
  | getPlan (planId : String)
  | listPlans (chatId : Option String)
  | getTask (planId taskId : String)
  | getReadyTasks (planId : String)

def PlanCall.body (store : Store) : PlanCall → Store
  | .change op => Plans.apply store op
  | _ => store

/-- The plan that an operation creates or changes. -/
def planOf : Plans.Call → String
  | .createPlan planId _ _ _ _ _ => planId
  | .addTask planId _ _ _ => planId
  | .startTask planId _ _ => planId
  | .completeTask planId _ _ _ _ _ => planId
  | .failTask planId _ _ _ _ => planId

def PlanCall.targets : PlanCall → String → Prop
  | .change op, planId => planId = planOf op
  | _, _ => False

variable {store : Store} {planId : String} {call : PlanCall}

theorem get_setOutcome_of_ne
    {planId' taskId : String} {f : Task → Task} {now : Int} (hne : planId ≠ planId') :
    (setOutcome store planId' taskId f now).1.get planId = store.get planId := by
  unfold setOutcome
  split
  · rfl
  · split
    · rfl
    · exact Dict.get_set_of_ne _ hne.symm _

/-- An operation leaves the other plans alone. -/
theorem get_apply_of_ne
    {op : Plans.Call} (hne : planId ≠ planOf op) :
    (Plans.apply store op).get planId = store.get planId := by
  cases op with
  | createPlan planId' name chatId tasks freshId now =>
      unfold Plans.apply createPlan
      refine Dict.get_set_of_ne _ (fun heq => hne ?_) _
      rw [← heq, updatePlanStatus_id, resolveStatuses]
      rfl
  | addTask planId' task freshId now =>
      simp only [Plans.apply, addTask]
      split
      · rfl
      · split
        · rfl
        · exact Dict.get_set_of_ne _ hne.symm _
  | startTask planId' taskId now =>
      simp only [Plans.apply, Plans.startTask]
      split
      · rfl
      · split
        · rfl
        · split
          · rfl
          · exact Dict.get_set_of_ne _ hne.symm _
  | completeTask planId' taskId result log fl now => exact get_setOutcome_of_ne hne
  | failTask planId' taskId log fl now => exact get_setOutcome_of_ne hne

/-- `_load` and `_save` of `PlanManager`. -/
def planFormat : Format PyError (List (Outcome PyError Plan)) String Plan := rowFormat Plan.id

def PlanCall.transaction (call : PlanCall) :
    Transaction PyError String Plan planFormat.keyOf where
  saves := true
  body store := .ok (call.body store)
  targets _ := call.targets
  own := by
    intro store store' hown h
    obtain rfl := Except.ok.inj h
    cases call with
    | change op => exact TaskEngine.ownIds_apply hown op
    | _ => exact hown
  frame := by
    intro store store' _ h planId hother
    obtain rfl := Except.ok.inj h
    cases call with
    | change op => exact get_apply_of_ne hother
    | _ => rfl

end Plans

/-! ### The cron state store -/

section Cron

variable {τ : Type}

/-- A transaction of `CronStateStore`; `ensure` is a `get` and, where there is no row, an
`update`. -/
inductive CronCall (τ : Type) where
  | get (jobId : String)
  | all
  | update (state : CronJobState τ)
  | removeMissing (jobIds : List String)
  | drop (jobId : String)

/-- `_transaction(save=False)` is a read. -/
def CronCall.saves : CronCall τ → Bool
  | .get _ => false
  | .all => false
  | _ => true

def CronCall.body (m : States τ) (now : τ) : CronCall τ → States τ
  | .get _ => m
  | .all => m
  | .update state => updateState m state now
  | .removeMissing jobIds => Cron.removeMissing m jobIds
  | .drop jobId => dropState m jobId

/-- The rows that a call is about. -/
def CronCall.targets : CronCall τ → String → Prop
  | .update state, jobId => jobId = state.jobId
  | .removeMissing jobIds, jobId => jobIds.contains jobId = false
  | .drop jobId', jobId => jobId = jobId'
  | _, _ => False

variable {N : JsonText.FloatText τ} {now : τ} {m : States τ} {call : CronCall τ}

theorem keyed_load
    (text : List Char) :
    Keyed (Cron.load N now (some text)) := by
  unfold Cron.load
  dsimp only
  generalize Lines.splitLines text = lines
  have hfold : ∀ m : States τ, Keyed m → Keyed (lines.foldl (Cron.loadLine N now) m) := by
    induction lines with
    | nil => exact fun _ h => h
    | cons line lines ih =>
        intro m h
        refine ih _ ?_
        unfold Cron.loadLine
        split
        · exact h
        · split
          · exact h
          · exact @own_set _ _ _ CronJobState.jobId m h _
  exact hfold _ keyed_empty

/-- `_load` and `_save` of `CronStateStore`. -/
def cronFormat (N : JsonText.FloatText τ) (now : τ) :
    Format PyError (List Char) String (CronJobState τ) where
  keyOf := CronJobState.jobId
  read text := .ok (Cron.load N now (some text))
  write := save N
  kept s := decide (CleanState s)
  own_read := by
    intro text m h
    obtain rfl := Except.ok.inj h
    exact keyed_load text
  read_write := fun m h => congrArg Except.ok (load_save N now h)

theorem cron_frame
    {jobId : String} (hother : ¬ call.targets jobId) :
    (call.body m now).get jobId = m.get jobId := by
  cases call with
  | update state =>
      exact (get_updateState state now).trans (if_neg fun heq => hother heq.symm)
  | removeMissing jobIds =>
      refine (get_removeMissing jobIds).trans ?_
      have hlisted : jobIds.contains jobId = true := by
        cases hcontains : jobIds.contains jobId with
        | true => rfl
        | false => exact absurd hcontains hother
      rw [hlisted]
      cases m.get jobId <;> rfl
  | drop jobId' => exact (get_dropState jobId').trans (if_neg fun heq => hother heq.symm)
  | _ => rfl

theorem cron_keyed
    (hkeyed : Keyed m) :
    Keyed (call.body m now) := by
  cases call with
  | update state => exact keyed_updateState hkeyed state now
  | removeMissing jobIds => exact Cron.keyed_filter hkeyed _
  | drop jobId => exact Cron.keyed_filter hkeyed _
  | _ => exact hkeyed

def CronCall.transaction (N : JsonText.FloatText τ) (now : τ) (call : CronCall τ) :
    Transaction PyError String (CronJobState τ) (cronFormat N now).keyOf where
  saves := call.saves
  body m := .ok (call.body m now)
  targets _ := call.targets
  own := by
    intro m m' hown h
    obtain rfl := Except.ok.inj h
    exact cron_keyed hown
  frame := by
    intro m m' _ h jobId hother
    obtain rfl := Except.ok.inj h
    exact cron_frame hother

end Cron

/-! ### All three -/

/-- **Transactions and their files.**  Whatever the file holds and whatever the call is: a
failed read destroys nothing, and the records that the call is not about stay, exactly when
what was not read is not written over; and for the cron state, when besides all rows that
should stay are clean. -/
theorem stores_spare_iff
    {τ : Type} (N : JsonText.FloatText τ) (now : τ) :
    (∀ (call : WakeCall) (d : Disk (List (Outcome PyError Wake.WakeEvent))),
      Safe wakeFormat call.transaction d ↔ NotWrittenOver wakeFormat call.transaction d) ∧
    (∀ (call : PlanCall) (d : Disk (List (Outcome PyError Plans.Plan))),
      Safe planFormat call.transaction d ↔ NotWrittenOver planFormat call.transaction d) ∧
    ∀ (call : CronCall τ) (d : Disk (List Char)),
      Safe (cronFormat N now) (call.transaction N now) d ↔
        NotWrittenOver (cronFormat N now) (call.transaction N now) d ∧
          (d.readable = true → call.saves = true → d.writable = true → ∀ text,
            d.content = some text → ∀ jobId s, ¬ call.targets jobId →
              (Cron.load N now (some text)).get jobId = some s → CleanState s) := by
  refine ⟨fun call d => safe_iff_of_kept fun _ => rfl,
    fun call d => safe_iff_of_kept fun _ => rfl, fun call d => ?_⟩
  rw [safe_iff]
  refine and_congr_right fun _ => ⟨fun h hread hsaves hwritable text htext jobId s hother hget =>
    ?_, fun h hread hsaves hwritable text m m' htext hm _ jobId s hother hget => ?_⟩
  · exact of_decide_eq_true
      (h hread hsaves hwritable text _ _ htext rfl rfl jobId s hother hget)
  · obtain rfl := Except.ok.inj hm
    exact decide_eq_true (h hread hsaves hwritable text htext jobId s hother hget)

/-- Looking for an event in a queue that cannot be read empties it. -/
theorem unread_queue_emptied :
    ¬ ∀ (call : WakeCall) (d : Disk (List (Outcome PyError Wake.WakeEvent))),
      Safe wakeFormat call.transaction d := by
  intro hall
  have hsafe := hall (.get "wake-1")
    { content := some [.record ⟨"wake-1", "chat", "cron:tidy", 0, 100, Dict.empty, true, 90, true,
        0, none⟩]
      readable := false
      writable := true }
  have hkept := hsafe.unread (by simp) rfl
  have hemptied : transact wakeFormat (WakeCall.get "wake-1").transaction
      { content := some [.record ⟨"wake-1", "chat", "cron:tidy", 0, 100, Dict.empty, true, 90,
          true, 0, none⟩]
        readable := false
        writable := true } = some [] := rfl
  rw [hemptied] at hkept
  cases hkept

end Transactions
end DiploidAgent
