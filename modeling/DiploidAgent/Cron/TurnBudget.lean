import DiploidAgent.Cron.Service
import DiploidAgent.Runtime.WakeQueue
import DiploidAgent.Lib.Totals
import DiploidAgent.Lib.Runs

/-!
# The daily cap on turn deliveries

`_deliver_turn` arms a wake for a finished run while the turns billed today in all
rows and the armed cron wakes of the job's own chat are below
`turn_delivery_max_per_day`.  A wake that produced a turn is billed to the row of its
job, if there still is one.

Over the whole harness the cap holds in a run in which a delivery that passes its
gates finds room for the armed wakes of the other chats too, a produced turn finds
the row it is billed to, and no row billed today is removed
(`turn_deliveries_capped`).
-/

namespace DiploidAgent
namespace Cron
namespace TurnBudget

open Runs Wake

section Delivery

/-- The budgets of turn deliveries. -/
structure TurnConfig where
  turnDeliveryMaxPerDay : Nat
  selfWakeMaxPending : Nat
  selfWakeMinIntervalSeconds : Int

/-- A finished run: job, chat, status of the row and the stripped result of the
task. -/
structure Delivery where
  jobId : String
  chatId : String
  lastStatus : Option String
  summary : String

/-- `s.startswith(head)`. -/
def startsWith (s head : String) : Bool := head.toList.isPrefixOf s.toList

def cronWakeReasonPrefix : String := "cron:"

/-- `e.reason.startswith(WAKE_BUDGET_REASON_PREFIXES)`. -/
def isBudgetWake (e : WakeEvent) : Bool :=
  startsWith e.reason "self_wake" || startsWith e.reason "cron:"

def isCronWake (e : WakeEvent) : Bool := startsWith e.reason cronWakeReasonPrefix

/-- The `pending` of `_deliver_turn`. -/
def budgetPending (q : Queue) (chatId : String) : List WakeEvent :=
  (pending q (some chatId) none).filter isBudgetWake

def turnsToday (rows : States Int) (today : String) : Int :=
  ((rows.values.filter fun s => s.turnDate == today).map fun s => s.turnCount).sum

/-- The armed cron wakes that the gate counts: those of one chat. -/
def armedCron (q : Queue) (chatId : String) : Nat :=
  ((budgetPending q chatId).filter isCronWake).length

def dailyCapReached (cfg : TurnConfig) (rows : States Int) (q : Queue) (chatId today : String) :
    Bool :=
  (cfg.turnDeliveryMaxPerDay : Int) ≤ turnsToday rows today + armedCron q chatId

def wakeBudgetReached (cfg : TurnConfig) (q : Queue) (chatId : String) : Bool :=
  cfg.selfWakeMaxPending ≤ (budgetPending q chatId).length

/-- Behind the last pending fire inside the interval, if there is one. -/
def turnScheduledAt (pending : List WakeEvent) (now interval : Int) : Int :=
  match (pending.filter fun e => e.scheduledAt < now + interval).map fun e =>
      max e.scheduledAt now with
  | [] => now
  | first :: rest => rest.foldl max first + interval

/-- The text of the delivered turn. -/
def turnMessage (d : Delivery) : String :=
  "[cron: " ++ d.jobId ++ " finished — " ++ d.lastStatus.getD "None" ++ "]\n" ++
    (if d.summary = "" then "(no summary)" else d.summary) ++ "\n\n" ++
    "A scheduled job delivered this result as a turn — respond with judgment."

/-- The wake of a finished run. -/
def turnWake (d : Delivery) (scheduledAt now : Int) : WakeEvent where
  id := ""
  chatId := d.chatId
  reason := cronWakeReasonPrefix ++ d.jobId
  priority := 1
  scheduledAt := scheduledAt
  payload :=
    (((Dict.empty.set "user_message" (.str (turnMessage d))).set "agent_reason"
      (.str (cronWakeReasonPrefix ++ d.jobId))).set "notify" (.bool true)).set "cron_job_id"
        (.str d.jobId)
  silent := false
  createdAt := now
  ready := true

/-- `_deliver_turn` of a service that has a wake queue: the queue afterwards and the
outcome. -/
def deliverTurn (cfg : TurnConfig) (rows : States Int) (q : Queue) (d : Delivery) (today : String)
    (now : Int) (freshId : String) : Queue × String :=
  if dailyCapReached cfg rows q d.chatId today then (q, "turn_suppressed: daily cap reached")
  else if wakeBudgetReached cfg q d.chatId then (q, "turn_suppressed: wake budget reached")
  else
    let scheduledAt :=
      turnScheduledAt (budgetPending q d.chatId) now cfg.selfWakeMinIntervalSeconds
    (enqueue q (turnWake d scheduledAt now) freshId,
      if now < scheduledAt then "turn_deferred: " ++ toString (scheduledAt - now) ++ "s"
      else "turn")

/-- `record_turn_delivery` on the store. -/
def recordDelivery (rows : States Int) (jobId today : String) (now : Int) : States Int :=
  match rows.get jobId with
  | none => rows
  | some s => updateState rows (lastSaved s (recordTurnDelivery s today)) now

/-- `(wake_event.payload or {}).get("cron_job_id")`, when it is true. -/
def cronJobId (e : WakeEvent) : Option String :=
  match e.payload.get "cron_job_id" with
  | some (.str jobId) => if jobId = "" then none else some jobId
  | _ => none

end Delivery

section Model

/-- The rows, the wake queue, and how many cron wakes have produced a turn today. -/
structure State where
  rows : States Int
  queue : Queue
  produced : Nat

inductive Label where
  | deliver (d : Delivery) (now : Int) (freshId : String)
  | turn (eventId : String) (now : Int)
  | refuse (eventId : String) (retryAfter now : Int)
  | complete (eventId : String)
  | cancel (chatId reason : Option String) (now : Int)
  | cancelOlderThan (before : Int) (reason : Option String) (now : Int)
  | cancelEvent (eventId : String) (chatId : Option String) (now : Int)
  | popDue (now leaseSeconds : Int)
  | enqueue (event : WakeEvent) (freshId : String)
  | ensure (jobId sourceFile : String) (now : Int)
  | removeMissing (jobIds : List String)
  | drop (jobId : String)

/-- One step of a day.  New events get an id that is not in the queue, and the wakes
that come from elsewhere are not cron wakes. -/
def step (cfg : TurnConfig) (today : String) (st : State) : Label → Option State
  | .deliver d now freshId =>
      if (st.queue.get freshId).isSome then none
      else some { st with queue := (deliverTurn cfg st.rows st.queue d today now freshId).1 }
  | .turn eventId now =>
      (st.queue.get eventId).map fun e =>
        { rows :=
            match cronJobId e with
            | none => st.rows
            | some jobId => recordDelivery st.rows jobId today now
          queue := complete st.queue eventId
          produced := st.produced + if isCronWake e then 1 else 0 }
  | .refuse eventId retryAfter now =>
      some { st with queue := fail st.queue eventId retryAfter now }
  | .complete eventId => some { st with queue := complete st.queue eventId }
  | .cancel chatId reason now => some { st with queue := cancel st.queue chatId reason now }
  | .cancelOlderThan before reason now =>
      some { st with queue := cancelOlderThan st.queue before reason now }
  | .cancelEvent eventId chatId now =>
      some { st with queue := cancelEvent st.queue eventId chatId now }
  | .popDue now leaseSeconds => some { st with queue := (popDue st.queue now leaseSeconds).1 }
  | .enqueue event freshId =>
      if isCronWake event || (st.queue.get (event.withId freshId).id).isSome then none
      else some { st with queue := enqueue st.queue event freshId }
  | .ensure jobId sourceFile now =>
      some { st with rows := ensureState st.rows jobId sourceFile now }
  | .removeMissing jobIds => some { st with rows := removeMissing st.rows jobIds }
  | .drop jobId => some { st with rows := dropState st.rows jobId }

end Model

section Claim

/-- The armed cron wakes of all chats. -/
def armed (q : Queue) : Nat := (q.values.filter isCronWake).length

/-- What a row counts for on a day. -/
def billedOn (today : String) (s : CronJobState Int) : Int :=
  if s.turnDate == today then s.turnCount else 0

/-- A day begins: nothing is billed yet, and the wakes armed before fit the cap. -/
structure Dawn (cfg : TurnConfig) (today : String) (st : State) : Prop where
  keyed : Keyed st.rows
  unbilled : ∀ id s, st.rows.get id = some s → s.turnDate ≠ today
  unproduced : st.produced = 0
  fits : armed st.queue ≤ cfg.turnDeliveryMaxPerDay

/-- The condition: a delivery that passes its gates finds room for the wakes of all
chats, a wake that produces a turn finds the row it is billed to, and a row that is
removed has nothing billed today. -/
def Regular (cfg : TurnConfig) (today : String) (st : State) : Label → Prop
  | .deliver d _ _ =>
      dailyCapReached cfg st.rows st.queue d.chatId today = false →
        wakeBudgetReached cfg st.queue d.chatId = false →
        turnsToday st.rows today + armed st.queue < cfg.turnDeliveryMaxPerDay
  | .turn eventId _ =>
      ∀ e, st.queue.get eventId = some e → isCronWake e = true →
        ∃ jobId s, cronJobId e = some jobId ∧ st.rows.get jobId = some s
  | .removeMissing jobIds =>
      ∀ id s, st.rows.get id = some s → (removeMissing st.rows jobIds).get id = none →
        billedOn today s ≤ 0
  | .drop jobId => ∀ s, st.rows.get jobId = some s → billedOn today s ≤ 0
  | _ => True

end Claim

section Counts

variable {cfg : TurnConfig} {today : String} {rows : States Int} {q : Queue} {now : Int}

/-- What an event counts for among the armed cron wakes. -/
def cronWeight (e : WakeEvent) : Int := if isCronWake e then 1 else 0

theorem cronWeight_nonneg (e : WakeEvent) : 0 ≤ cronWeight e := by
  unfold cronWeight
  split_ifs <;> omega

theorem armed_eq_total (q : Queue) : (armed q : Int) = q.total cronWeight :=
  (Dict.total_count isCronWake).symm

theorem turnsToday_eq_total
    (rows : States Int) (today : String) :
    turnsToday rows today = rows.total (billedOn today) :=
  (Dict.total_select (fun s : CronJobState Int => s.turnDate == today) fun s => s.turnCount).symm

/-- The gate of one chat sees no more wakes than there are. -/
theorem armedCron_eq
    (q : Queue) (chatId : String) :
    armedCron q chatId = (q.values.filter fun e => e.chatId == chatId && isCronWake e).length := by
  have hcron : ∀ e : WakeEvent, isCronWake e = (isCronWake e && isBudgetWake e) := by
    intro e
    unfold isBudgetWake isCronWake cronWakeReasonPrefix
    cases startsWith e.reason "cron:" <;> simp
  rw [armedCron, budgetPending, List.filter_filter, length_filter_pending]
  congr 2
  funext e
  rw [← hcron e]

/-- With the wakes of one chat only, the gate of that chat is the gate of all. -/
theorem armedCron_of_one_chat
    {chatId : String}
    (h : ∀ id e, q.get id = some e → isCronWake e = true → e.chatId = chatId) :
    armedCron q chatId = armed q := by
  rw [armedCron_eq, armed]
  congr 1
  refine List.filter_congr fun e he => ?_
  obtain ⟨id, hid⟩ := Dict.exists_get_of_mem_values he
  cases hcron : isCronWake e with
  | false => rw [Bool.and_false]
  | true => rw [Bool.and_true, h id e hid hcron, beq_self_eq_true]

theorem room_of_one_chat
    {chatId : String}
    (h : ∀ id e, q.get id = some e → isCronWake e = true → e.chatId = chatId)
    (hcap : dailyCapReached cfg rows q chatId today = false) :
    turnsToday rows today + armed q < cfg.turnDeliveryMaxPerDay := by
  rw [← armedCron_of_one_chat h]
  simpa [dailyCapReached] using hcap

theorem armed_set
    (id : String) (e : WakeEvent) :
    (armed (q.set id e) : Int) + (q.get id).elim 0 cronWeight = armed q + cronWeight e := by
  rw [armed_eq_total, armed_eq_total]
  exact Dict.total_set id e

theorem armed_enqueue
    {event : WakeEvent} {freshId : String}
    (hfresh : q.get (event.withId freshId).id = none) :
    (armed (enqueue q event freshId) : Int) = armed q + cronWeight event := by
  have hset := armed_set (q := q) (event.withId freshId).id (event.withId freshId)
  have hweight : cronWeight (event.withId freshId) = cronWeight event := by
    unfold WakeEvent.withId
    split_ifs <;> rfl
  rw [hfresh, Option.elim_none, add_zero, hweight] at hset
  exact hset

theorem armed_complete
    (eventId : String) :
    (armed (complete q eventId) : Int) + (q.get eventId).elim 0 cronWeight = armed q := by
  rw [armed_eq_total, armed_eq_total]
  exact Dict.total_erase eventId

theorem armed_fail
    (eventId : String) (retryAfter : Int) :
    armed (fail q eventId retryAfter now) = armed q := by
  unfold fail
  cases hget : q.get eventId with
  | none => rfl
  | some e =>
      have hset := armed_set (q := q) eventId
        { e with attempts := e.attempts + 1, scheduledAt := now + retryAfter, leasedUntil := none }
      rw [hget, Option.elim_some] at hset
      have hweight : cronWeight { e with
          attempts := e.attempts + 1
          scheduledAt := now + retryAfter
          leasedUntil := none } = cronWeight e := rfl
      dsimp only
      omega

theorem armed_popDue
    (leaseSeconds : Int) :
    armed (popDue q now leaseSeconds).1 = armed q := by
  have htotal : (popDue q now leaseSeconds).1.total cronWeight = q.total cronWeight := by
    refine Dict.total_mapValues fun _ e => ?_
    split_ifs <;> rfl
  rw [← armed_eq_total, ← armed_eq_total] at htotal
  exact Int.ofNat.inj htotal

theorem armed_filter_le
    (p : String × WakeEvent → Bool) :
    armed (q.filter p) ≤ armed q := by
  have htotal := Dict.total_filter_le (d := q) (w := cronWeight) p
    fun _ e _ _ => cronWeight_nonneg e
  rw [← armed_eq_total, ← armed_eq_total] at htotal
  omega

theorem armed_cancelEvent_le
    (eventId : String) (chatId : Option String) :
    armed (cancelEvent q eventId chatId now) ≤ armed q := by
  unfold cancelEvent
  split
  · exact le_rfl
  · split_ifs
    · exact le_rfl
    · exact armed_filter_le _

theorem billedOn_recordTurnDelivery
    (s : CronJobState Int) :
    billedOn today (lastSaved s (recordTurnDelivery s today)) = billedOn today s + 1 := by
  by_cases hdate : s.turnDate = today
  · simp [recordTurnDelivery, lastSaved, billedOn, hdate]
  · simp [recordTurnDelivery, lastSaved, billedOn, hdate]

theorem total_updateState
    (s : CronJobState Int) :
    (updateState rows s now).total (billedOn today) + (rows.get s.jobId).elim 0 (billedOn today) =
      rows.total (billedOn today) + billedOn today s :=
  Dict.total_set s.jobId { s with updatedAt := now }

/-- A produced turn is billed once, to the row of its job. -/
theorem total_recordDelivery
    {jobId : String} {s : CronJobState Int}
    (hkeyed : Keyed rows)
    (hrow : rows.get jobId = some s) :
    (recordDelivery rows jobId today now).total (billedOn today) =
      rows.total (billedOn today) + 1 := by
  have hid : (lastSaved s (recordTurnDelivery s today)).jobId = jobId := by
    rw [← hkeyed jobId s hrow]
    simp only [recordTurnDelivery, lastSaved]
    split_ifs <;> rfl
  have hupdate := @total_updateState today rows now
    (lastSaved s (recordTurnDelivery s today))
  rw [hid, hrow, Option.elim_some, billedOn_recordTurnDelivery] at hupdate
  rw [recordDelivery, hrow]
  dsimp only
  omega

theorem total_ensureState
    (jobId sourceFile : String) :
    (ensureState rows jobId sourceFile now).total (billedOn today) =
      rows.total (billedOn today) := by
  unfold ensureState
  cases hget : rows.get jobId with
  | some s => rfl
  | none =>
      have hfresh : billedOn today (freshState jobId sourceFile now) = 0 := by
        unfold billedOn freshState
        split_ifs <;> rfl
      have hupdate := @total_updateState today rows now
        (freshState jobId sourceFile now)
      have hid : (freshState jobId sourceFile now).jobId = jobId := rfl
      rw [hid, hget, Option.elim_none, add_zero, hfresh, add_zero] at hupdate
      exact hupdate

end Counts

section Results

variable {cfg : TurnConfig} {today : String} {st st' : State}

/-- The turns produced today are billed in the rows, and with the armed wakes they
are within the cap. -/
structure Within (cfg : TurnConfig) (today : String) (st : State) : Prop where
  keyed : Keyed st.rows
  billed : (st.produced : Int) ≤ st.rows.total (billedOn today)
  capped : st.produced + armed st.queue ≤ cfg.turnDeliveryMaxPerDay

theorem within_of_dawn
    (h : Dawn cfg today st) :
    Within cfg today st where
  keyed := h.keyed
  billed := by
    have hzero : st.rows.total (billedOn today) = 0 :=
      Dict.total_eq_zero fun id s hs => by simp [billedOn, h.unbilled id s hs]
    rw [h.unproduced, hzero]
    rfl
  capped := by
    rw [h.unproduced, Nat.zero_add]
    exact h.fits

/-- A step on the queue that arms no cron wake. -/
theorem within_queue
    {q : Queue}
    (h : Within cfg today st)
    (hle : armed q ≤ armed st.queue) :
    Within cfg today { st with queue := q } where
  keyed := h.keyed
  billed := h.billed
  capped := by
    have hcapped := h.capped
    dsimp only
    omega

theorem within_rows
    {rows : States Int}
    (h : Within cfg today st)
    (hkeyed : Keyed rows)
    (hle : st.rows.total (billedOn today) ≤ rows.total (billedOn today)) :
    Within cfg today { st with rows := rows } where
  keyed := hkeyed
  billed := h.billed.trans hle
  capped := h.capped

theorem within_deliver
    {d : Delivery} {now : Int} {freshId : String}
    (h : Within cfg today st)
    (hfresh : st.queue.get freshId = none)
    (hroom : Regular cfg today st (.deliver d now freshId)) :
    Within cfg today
      { st with queue := (deliverTurn cfg st.rows st.queue d today now freshId).1 } := by
  unfold deliverTurn
  split_ifs with hcap hbudget
  · exact within_queue h le_rfl
  · exact within_queue h le_rfl
  · have hroom' := hroom (by simpa using hcap) (by simpa using hbudget)
    have hbilled := h.billed
    rw [turnsToday_eq_total] at hroom'
    have harmed := @armed_enqueue st.queue (turnWake d (turnScheduledAt (budgetPending st.queue
      d.chatId) now cfg.selfWakeMinIntervalSeconds) now) freshId hfresh
    have hweight : cronWeight (turnWake d (turnScheduledAt (budgetPending st.queue d.chatId) now
        cfg.selfWakeMinIntervalSeconds) now) ≤ 1 := by
      unfold cronWeight
      split_ifs <;> omega
    refine ⟨h.keyed, hbilled, ?_⟩
    dsimp only
    omega

theorem keyed_recordDelivery
    {rows : States Int}
    (h : Keyed rows)
    (jobId : String) (now : Int) :
    Keyed (recordDelivery rows jobId today now) := by
  unfold recordDelivery
  split
  · exact h
  · exact keyed_updateState h _ _

/-- A produced turn moves one wake from the armed ones to the billed ones. -/
theorem within_turn
    {eventId : String} {now : Int}
    (h : Within cfg today st)
    (hreg : Regular cfg today st (.turn eventId now))
    (hstep : step cfg today st (.turn eventId now) = some st') :
    Within cfg today st' := by
  obtain ⟨e, hget, rfl⟩ := Option.map_eq_some_iff.mp hstep
  have hcomplete := armed_complete (q := st.queue) eventId
  rw [hget, Option.elim_some] at hcomplete
  have hcapped := h.capped
  have hbilled := h.billed
  cases hcron : isCronWake e with
  | true =>
      obtain ⟨jobId, s, hjob, hrow⟩ := hreg e hget hcron
      have hweight : cronWeight e = 1 := by rw [cronWeight, if_pos hcron]
      have hrecord := @total_recordDelivery today _ now _ _ h.keyed hrow
      refine ⟨?_, ?_, ?_⟩
      · rw [hjob]
        exact keyed_recordDelivery h.keyed jobId now
      · rw [hjob, if_pos rfl]
        dsimp only
        push_cast
        omega
      · rw [if_pos rfl]
        dsimp only
        omega
  | false =>
      have hweight : cronWeight e = 0 := by rw [cronWeight, if_neg (by simp [hcron])]
      have hrows : ∀ jobId, st.rows.total (billedOn today) ≤
          (recordDelivery st.rows jobId today now).total (billedOn today) := by
        intro jobId
        cases hrow : st.rows.get jobId with
        | none => rw [recordDelivery, hrow]
        | some s =>
            rw [total_recordDelivery h.keyed hrow]
            omega
      refine ⟨?_, ?_, ?_⟩
      · cases cronJobId e with
        | none => exact h.keyed
        | some jobId => exact keyed_recordDelivery h.keyed jobId now
      · rw [if_neg Bool.false_ne_true, Nat.add_zero]
        cases cronJobId e with
        | none => exact hbilled
        | some jobId => exact hbilled.trans (hrows jobId)
      · rw [if_neg Bool.false_ne_true]
        dsimp only
        omega

/-- Every step that meets the condition. -/
theorem within_step
    {a : Label}
    (h : Within cfg today st)
    (hreg : Regular cfg today st a)
    (hstep : step cfg today st a = some st') :
    Within cfg today st' := by
  cases a with
  | deliver d now freshId =>
      simp only [step] at hstep
      split_ifs at hstep with hfresh
      obtain rfl := Option.some.inj hstep
      exact within_deliver h (by simpa using hfresh) hreg
  | turn eventId now => exact within_turn h hreg hstep
  | refuse eventId retryAfter now =>
      obtain rfl := Option.some.inj hstep
      exact within_queue h (armed_fail eventId retryAfter).le
  | complete eventId =>
      obtain rfl := Option.some.inj hstep
      exact within_queue h (armed_filter_le _)
  | cancel chatId reason now =>
      obtain rfl := Option.some.inj hstep
      exact within_queue h (armed_filter_le _)
  | cancelOlderThan before reason now =>
      obtain rfl := Option.some.inj hstep
      exact within_queue h (armed_filter_le _)
  | cancelEvent eventId chatId now =>
      obtain rfl := Option.some.inj hstep
      exact within_queue h (armed_cancelEvent_le eventId chatId)
  | popDue now leaseSeconds =>
      obtain rfl := Option.some.inj hstep
      exact within_queue h (armed_popDue leaseSeconds).le
  | enqueue event freshId =>
      simp only [step] at hstep
      split_ifs at hstep with hguard
      obtain rfl := Option.some.inj hstep
      obtain ⟨hcron, hfresh⟩ : isCronWake event = false ∧
          st.queue.get (event.withId freshId).id = none := by simpa using hguard
      have harmed := armed_enqueue hfresh
      have hweight : cronWeight event = 0 := by rw [cronWeight, if_neg (by simp [hcron])]
      exact within_queue h (by omega)
  | ensure jobId sourceFile now =>
      obtain rfl := Option.some.inj hstep
      exact within_rows h (keyed_ensureState h.keyed _ _ _) (total_ensureState _ _).ge
  | removeMissing jobIds =>
      obtain rfl := Option.some.inj hstep
      refine within_rows h (keyed_filter h.keyed _) (Dict.le_total_filter _ fun id s hs hout => ?_)
      refine hreg id s hs ?_
      rw [removeMissing, Dict.get_filter, hs, Option.filter_some, if_neg]
      rw [hout]
      exact Bool.false_ne_true
  | drop jobId =>
      obtain rfl := Option.some.inj hstep
      refine within_rows h (keyed_filter h.keyed _) (Dict.le_total_filter _ fun id s hs hout => ?_)
      obtain rfl : id = jobId := by simpa using hout
      exact hreg s hs

/-- **Daily cap on turn deliveries.**  In every run of a day whose steps meet the
condition, the cron wakes that produced a turn and the armed ones of all chats are
together within `turn_delivery_max_per_day`. -/
theorem turn_deliveries_capped
    (cfg : TurnConfig) (today : String) (st₀ st : State)
    (hdawn : Dawn cfg today st₀)
    (h : Reach (step cfg today) (Regular cfg today) st₀ st) :
    st.produced + armed st.queue ≤ cfg.turnDeliveryMaxPerDay := by
  have hwithin : Within cfg today st := h.invariant (within_of_dawn hdawn)
    fun _ _ _ hst hreg hstep => within_step hst hreg hstep
  exact hwithin.capped

def onceADay : TurnConfig where
  turnDeliveryMaxPerDay := 1
  selfWakeMaxPending := 3
  selfWakeMinIntervalSeconds := 300

/-- No rows and no wakes. -/
def firstDay : State where
  rows := Dict.empty
  queue := Dict.empty
  produced := 0

theorem dawn_firstDay (cfg : TurnConfig) (today : String) : Dawn cfg today firstDay where
  keyed := keyed_empty
  unbilled := fun _ _ hs => (nomatch hs)
  unproduced := rfl
  fits := Nat.zero_le _

/-- Two jobs of two chats finish. -/
def twoChats : List Label :=
  [.ensure "tidy" "crons.yaml" 0,
    .ensure "sweep" "crons.yaml" 0,
    .deliver ⟨"tidy", "chat-1", some "ok", "done"⟩ 10 "wake-1",
    .deliver ⟨"sweep", "chat-2", some "ok", "done"⟩ 20 "wake-2"]

theorem two_chats_exceed_cap :
    ¬ ∀ (cfg : TurnConfig) (today : String) (st₀ st : State), Dawn cfg today st₀ →
      Reach (step cfg today) (fun _ _ => True) st₀ st →
      st.produced + armed st.queue ≤ cfg.turnDeliveryMaxPerDay := by
  intro hall
  have hreach := reach_run (show
    (run (step onceADay "2026-03-01") firstDay twoChats).isSome = true by decide)
  have hcapped := hall onceADay "2026-03-01" firstDay _ (dawn_firstDay _ _) hreach
  exact absurd hcapped (by decide)

/-- Two jobs of one chat finish, and the first one's wake produces a turn. -/
def oneChat : List Label :=
  [.ensure "tidy" "crons.yaml" 0,
    .ensure "sweep" "crons.yaml" 0,
    .deliver ⟨"tidy", "chat-1", some "ok", "done"⟩ 10 "wake-1",
    .popDue 11 300,
    .turn "wake-1" 15,
    .deliver ⟨"sweep", "chat-1", some "ok", "done"⟩ 20 "wake-2"]

/-- The condition, computed for a step of `oneChat`. -/
def regularCheck (cfg : TurnConfig) (today : String) (st : State) : Label → Bool
  | .deliver d _ _ =>
      dailyCapReached cfg st.rows st.queue d.chatId today ||
        turnsToday st.rows today + armed st.queue < cfg.turnDeliveryMaxPerDay
  | .turn eventId _ =>
      (st.queue.get eventId).all fun e =>
        (cronJobId e).any fun jobId => (st.rows.get jobId).isSome
  | .removeMissing _ => false
  | .drop _ => false
  | _ => true

theorem regular_of_check
    {a : Label}
    (h : regularCheck cfg today st a = true) :
    Regular cfg today st a := by
  cases a with
  | deliver d now freshId =>
      intro hcap _
      simpa [regularCheck, hcap] using h
  | turn eventId now =>
      intro e hget _
      rw [regularCheck, hget, Option.all_some, Option.any_eq_true] at h
      obtain ⟨jobId, hjob, hrow⟩ := h
      obtain ⟨s, hs⟩ := Option.isSome_iff_exists.mp hrow
      exact ⟨jobId, s, hjob, hs⟩
  | removeMissing jobIds => cases h
  | drop jobId => cases h
  | _ => exact trivial

theorem turn_deliveries_capped_oneChat :
    ∃ st, run (step onceADay "2026-03-01") firstDay oneChat = some st ∧
      st.produced + armed st.queue ≤ 1 := by
  have hrun := run_eq_getD (show
    (run (step onceADay "2026-03-01") firstDay oneChat).isSome = true by decide)
  have hguarded : Guarded (step onceADay "2026-03-01") (Regular onceADay "2026-03-01") firstDay
      oneChat :=
    guarded_of_checkRun (regularCheck onceADay "2026-03-01") (fun _ _ => regular_of_check)
      (by decide)
  exact ⟨_, hrun, turn_deliveries_capped onceADay "2026-03-01" firstDay _ (dawn_firstDay _ _)
    (reach_of_run hrun hguarded)⟩

end Results

end TurnBudget
end Cron
end DiploidAgent
