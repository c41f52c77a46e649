import DiploidAgent.Runtime.WakeGates
import DiploidAgent.Runtime.WakeLease

/-!
# Fired wakes

`_handle_timer_fired` of `runtime/lifecycle.py` decides by the text of the reply
and by the turn number whether a fired wake goes back to the queue or leaves it.
A wake is `Kept` when it leaves the queue only after its turn ran or its reply
was handed over, and when every refusal puts it back.  Which gates keep it is
`FiringKeeps`; `runKept_iff` says so for whole runs.
-/

namespace DiploidAgent
namespace Wake

/-- `_WAKE_RETRY_REPLIES`. -/
def wakeRetryReplies : List String :=
  ["Chat is busy; wake re-enqueued.",
    "A turn is already in progress for this chat.",
    "Another instance is currently handling this chat.",
    "A turn is already in progress; continuation queued.",
    "A session operation is in progress for this chat.",
    "A turn or session operation is in progress for this chat."]

/-- `_WAKE_DROP_REPLIES`. -/
def wakeDropReplies : List String := ["Unknown or already completed wake event."]

/-- The queue after a firing, and what the firing handed to the delivery channel
and billed to a cron job. -/
structure Fired where
  queue : Queue
  outcome : Outcome
  delivered : Option ChatResult := none
  billed : Option Json := none

/-- `reply or notice`. -/
def ChatResult.speaks (r : ChatResult) : Bool :=
  r.reply != "" || r.notice.any (· != "")

/-- The `retry_after` of a fired wake. -/
def retryAfter (cfg : Config) (event : Option WakeEvent) : Json :=
  match event with
  | none => .num cfg.retryAfterSeconds
  | some e => (e.payload.get "retry_after").getD (.num cfg.retryAfterSeconds)

/-- `fail` with a value out of a payload; a `TypeError` writes nothing. -/
def failAfter (q : Queue) (eventId : String) (retry : Json) (now : Int) : Queue :=
  match retry.toNum with
  | none => q
  | some n => fail q eventId n now

/-- `cron_job_id` of the wake, if there is one to bill. -/
def cronJobId (event : Option WakeEvent) : Option Json :=
  event.bind fun e => (e.payload.get "cron_job_id").filter Json.truthy

/-- The rest of `_handle_timer_fired` once `wake` has returned or raised. -/
def settle (cfg : Config) (event : Option WakeEvent) (eventId : String) (now : Int) (q : Queue)
    (out : Outcome) : Fired :=
  match out.result with
  | none => { queue := failAfter q eventId (retryAfter cfg event) now, outcome := out }
  | some r =>
      if r.turnNumber = none then
        if r.reply ∈ wakeRetryReplies then
          { queue := failAfter q eventId (retryAfter cfg event) now, outcome := out }
        else if r.reply ∈ wakeDropReplies then
          { queue := complete q eventId, outcome := out }
        else
          { queue := complete q eventId
            outcome := out
            delivered := if r.speaks && cfg.outboxDelivery then some r else none }
      else
        { queue := complete q eventId, outcome := out, billed := cronJobId event }

/-- `_handle_timer_fired`. -/
def handleTimerFired (cfg : Config) (g : Gates) (q : Queue) (eventId : String) : Fired :=
  let (q', out) := wake cfg g q eventId
  settle cfg (q.get eventId) eventId g.now q' out

/-- The engine was called on the message of the wake. -/
def Outcome.turnRan : Outcome → Bool
  | .ran _ => true
  | _ => false

/-- A gate turned the wake away before its turn. -/
def Outcome.turnRefused : Outcome → Bool
  | .refused _ => true
  | _ => false

/-- `event` came back as `fail` leaves it. -/
def Rescheduled (cfg : Config) (now : Int) (e : WakeEvent) (after : Option WakeEvent) : Prop :=
  ∃ e' n, after = some e' ∧ (retryAfter cfg (some e)).toNum = some n ∧
    e'.attempts = e.attempts + 1 ∧ e'.scheduledAt = now + n ∧ e'.leasedUntil = none

/-- A firing has done its duty by a wake `e` it found in the queue. -/
structure Served (cfg : Config) (now : Int) (e : WakeEvent) (eventId : String) (f : Fired) :
    Prop where
  removed : f.queue.get eventId = none → f.outcome.turnRan = true ∨ f.delivered.isSome = true
  refused : f.outcome.turnRefused = true → Rescheduled cfg now e (f.queue.get eventId)

/-- The firing keeps its wake, a parked session operation apart. -/
def Kept (cfg : Config) (g : Gates) (q : Queue) (eventId : String) : Prop :=
  ∀ e, q.get eventId = some e → wakeReason e ≠ "session_op" →
    Served cfg g.now e eventId (handleTimerFired cfg g q eventId)

/-! ### The condition on the gates -/

/-- A reply that is given without a turn reaches the user, or is retried. -/
def AnswerKeeps (cfg : Config) (r : ChatResult) : Prop :=
  r.turnNumber = none ∧ (r.reply ∈ wakeRetryReplies ∨
    (r.reply ∉ wakeDropReplies ∧ r.speaks = true ∧ cfg.outboxDelivery = true))

/-- The wake can be retried: its `retry_after` is a number. -/
def Retriable (cfg : Config) (e : WakeEvent) : Prop :=
  ((retryAfter cfg (some e)).toNum).isSome = true

section Settle

variable {cfg : Config} {now : Int} {e e₁ : WakeEvent} {id : String} {q : Queue}

theorem get_failAfter
    (q : Queue) (id : String) (retry : Json) (now : Int) :
    (failAfter q id retry now).get id =
      (q.get id).map fun e =>
        match retry.toNum with
        | none => e
        | some n =>
            { e with attempts := e.attempts + 1, scheduledAt := now + n, leasedUntil := none } := by
  unfold failAfter
  cases retry.toNum with
  | none => simp
  | some n => simp only [get_fail, if_pos]

/-- A wake that was put back is owed a number to wait for, if it was refused. -/
theorem served_failAfter
    {f : Fired}
    (hget : q.get id = some e₁)
    (hattempts : f.outcome.turnRefused = true → e₁.attempts = e.attempts)
    (hqueue : f.queue = failAfter q id (retryAfter cfg (some e)) now) :
    Served cfg now e id f ↔ (f.outcome.turnRefused = true → Retriable cfg e) := by
  have hafter := get_failAfter q id (retryAfter cfg (some e)) now
  rw [← hqueue, hget, Option.map_some] at hafter
  constructor
  · intro hserved hrefused
    obtain ⟨e', n, _, hn, _⟩ := hserved.refused hrefused
    simp [Retriable, hn]
  · intro hretry
    refine ⟨fun h => ?_, fun hrefused => ?_⟩
    · rw [hafter] at h
      cases h
    · obtain ⟨n, hn⟩ := Option.isSome_iff_exists.mp (hretry hrefused)
      rw [hn] at hafter
      exact ⟨_, n, hafter, hn, congrArg (· + 1) (hattempts hrefused), rfl, rfl⟩

/-- A wake that left the queue was owed its turn or the delivery of its reply,
and no refusal. -/
theorem served_complete
    {f : Fired}
    (hqueue : f.queue = complete q id) :
    Served cfg now e id f ↔
      (f.outcome.turnRan = true ∨ f.delivered.isSome = true) ∧ f.outcome.turnRefused = false := by
  have hgone : f.queue.get id = none := by
    rw [hqueue, get_complete, if_pos rfl]
  constructor
  · intro hserved
    refine ⟨hserved.removed hgone, ?_⟩
    cases hrefused : f.outcome.turnRefused with
    | false => rfl
    | true =>
        obtain ⟨e', _, he', _⟩ := hserved.refused hrefused
        rw [hgone] at he'
        cases he'
  · rintro ⟨hdone, hrefused⟩
    exact ⟨fun _ => hdone, fun h => by rw [hrefused] at h; cases h⟩

/-- A wake whose turn ran is owed nothing. -/
theorem served_ran
    {f : Fired} {run : EngineRun}
    (hout : f.outcome = .ran run) :
    Served cfg now e id f :=
  ⟨fun _ => Or.inl (by rw [hout]; rfl), fun h => by rw [hout] at h; cases h⟩

/-- What has to be true of an outcome for the handler to keep the wake. -/
def OutcomeKeeps (cfg : Config) (e : WakeEvent) : Outcome → Prop
  | .refused r => r.turnNumber = none ∧ r.reply ∈ wakeRetryReplies ∧ Retriable cfg e
  | .answered r => AnswerKeeps cfg r
  | .raised => True
  | .ran _ => True
  | .opDone _ => False

/-- The handler's decision for each outcome.  The queue it starts from still
holds the wake unless the result has a turn number. -/
theorem served_iff
    {out : Outcome}
    (hstill : (∀ r, out.result = some r → r.turnNumber = none) →
      ∃ e₁, q.get id = some e₁ ∧ (out.turnRefused = true → e₁.attempts = e.attempts)) :
    Served cfg now e id (settle cfg (some e) id now q out) ↔ OutcomeKeeps cfg e out := by
  cases out with
  | refused r =>
      by_cases hturn : r.turnNumber = none
      · obtain ⟨e₁, hget, hattempts⟩ :=
          hstill fun r' hr' => by obtain rfl := Option.some.inj hr'; exact hturn
        by_cases hretry : r.reply ∈ wakeRetryReplies
        · have hsettle : settle cfg (some e) id now q (.refused r) =
              { queue := failAfter q id (retryAfter cfg (some e)) now, outcome := .refused r } := by
            simp [settle, Outcome.result, hturn, hretry]
          rw [hsettle, served_failAfter hget hattempts rfl]
          simp [Outcome.turnRefused, OutcomeKeeps, hturn, hretry]
        · have hqueue : (settle cfg (some e) id now q (.refused r)).queue = complete q id ∧
              (settle cfg (some e) id now q (.refused r)).outcome = .refused r := by
            simp only [settle, Outcome.result, if_pos hturn, if_neg hretry]
            split_ifs <;> exact ⟨rfl, rfl⟩
          rw [served_complete hqueue.1, hqueue.2]
          simp [Outcome.turnRefused, OutcomeKeeps, hretry]
      · have hsettle : settle cfg (some e) id now q (.refused r) =
            { queue := complete q id, outcome := .refused r, billed := cronJobId (some e) } := by
          simp [settle, Outcome.result, hturn]
        rw [hsettle, served_complete rfl]
        simp [Outcome.turnRefused, OutcomeKeeps, hturn]
  | answered r =>
      by_cases hturn : r.turnNumber = none
      · obtain ⟨e₁, hget, hattempts⟩ :=
          hstill fun r' hr' => by obtain rfl := Option.some.inj hr'; exact hturn
        by_cases hretry : r.reply ∈ wakeRetryReplies
        · have hsettle : settle cfg (some e) id now q (.answered r) =
              { queue := failAfter q id (retryAfter cfg (some e)) now, outcome := .answered r } := by
            simp [settle, Outcome.result, hturn, hretry]
          rw [hsettle, served_failAfter hget hattempts rfl]
          simp [Outcome.turnRefused, OutcomeKeeps, AnswerKeeps, hturn, hretry]
        · by_cases hdrop : r.reply ∈ wakeDropReplies
          · have hsettle : settle cfg (some e) id now q (.answered r) =
                { queue := complete q id, outcome := .answered r } := by
              simp [settle, Outcome.result, hturn, hretry, hdrop]
            rw [hsettle, served_complete rfl]
            simp [Outcome.turnRan, OutcomeKeeps, AnswerKeeps, hretry, hdrop]
          · have hsettle : settle cfg (some e) id now q (.answered r) =
                { queue := complete q id
                  outcome := .answered r
                  delivered := if r.speaks && cfg.outboxDelivery then some r else none } := by
              simp [settle, Outcome.result, hturn, hretry, hdrop]
            rw [hsettle, served_complete rfl]
            simp [Outcome.turnRan, Outcome.turnRefused, OutcomeKeeps, AnswerKeeps, hturn, hretry,
              hdrop]
      · have hsettle : settle cfg (some e) id now q (.answered r) =
            { queue := complete q id, outcome := .answered r, billed := cronJobId (some e) } := by
          simp [settle, Outcome.result, hturn]
        rw [hsettle, served_complete rfl]
        simp [Outcome.turnRan, OutcomeKeeps, AnswerKeeps, hturn]
  | raised =>
      obtain ⟨e₁, hget, hattempts⟩ := hstill fun r' hr' => by cases hr'
      refine iff_of_true ((served_failAfter hget hattempts rfl).mpr fun h => ?_) trivial
      cases h
  | ran run =>
      have hout : (settle cfg (some e) id now q (.ran run)).outcome = .ran run := by
        unfold settle
        split
        · rfl
        · split_ifs <;> rfl
      exact iff_of_true (served_ran hout) trivial
  | opDone delivered =>
      have hsettle : settle cfg (some e) id now q (.opDone delivered) =
          { queue := complete q id, outcome := .opDone delivered } := by
        simp [settle, Outcome.result, wakeRetryReplies, wakeDropReplies, ChatResult.speaks]
      rw [hsettle, served_complete rfl]
      simp [Outcome.turnRan, OutcomeKeeps]

end Settle

/-! ### The gates -/

section GateOutcomes

variable {cfg : Config} {g : Gates} {e : WakeEvent}

/-- A refusal in one of the texts of the retry set. -/
theorem refused_keeps
    {r : ChatResult}
    (hturn : r.turnNumber = none)
    (hretry : r.reply ∈ wakeRetryReplies) :
    OutcomeKeeps cfg e (.refused r) ↔ Retriable cfg e :=
  ⟨fun h => h.2.2, fun h => ⟨hturn, hretry, h⟩⟩

end GateOutcomes

section QueueAfter

variable {cfg : Config} {g : Gates} {q : Queue} {id : String} {e : WakeEvent}

end QueueAfter

/-! ### The handler -/

/-- `run_session_op` refuses in one text only. -/
theorem runSessionOp_refused
    {g : Gates} {payload : Payload} {r : ChatResult}
    (h : runSessionOp g payload = .refused r) :
    r = wakeBusy := by
  unfold runSessionOp at h
  split_ifs at h
  · exact (Outcome.refused.inj h).symm
  · cases hop : sessionOpOf payload with
    | none =>
        rw [hop] at h
        cases h
    | some op =>
        rw [hop] at h
        dsimp only at h
        cases hrun : g.runOp op with
        | none =>
            rw [hrun] at h
            cases h
        | some r' =>
            rw [hrun] at h
            dsimp only at h
            split_ifs at h
            exact (Outcome.refused.inj h).symm

/-- A parked session operation that meets a closed gate is put back. -/
theorem sessionOp_rescheduled
    {cfg : Config} {g : Gates} {q : Queue} {eventId : String} {e : WakeEvent} {r : ChatResult}
    (hget : q.get eventId = some e)
    (hreason : wakeReason e = "session_op")
    (hretriable : Retriable cfg e)
    (hrefused : (wake cfg g q eventId).2 = .refused r) :
    Rescheduled cfg g.now e ((handleTimerFired cfg g q eventId).queue.get eventId) := by
  have hwake : wake cfg g q eventId = (q, .refused wakeBusy) := by
    unfold wake at hrefused ⊢
    rw [hget] at hrefused ⊢
    dsimp only at hrefused ⊢
    split_ifs at hrefused ⊢
    · rfl
    · dsimp only at hrefused
      rw [hrefused, runSessionOp_refused hrefused]
  have hserved : Served cfg g.now e eventId (handleTimerFired cfg g q eventId) := by
    rw [handleTimerFired, hget, hwake]
    exact (served_iff fun _ => ⟨e, hget, fun _ => rfl⟩).mpr
      ((refused_keeps rfl (by decide)).mpr hretriable)
  refine hserved.refused ?_
  rw [handleTimerFired, hget, hwake]
  rfl

/-! ### Runs -/

/-- A wake fires, or anybody else uses the queue. -/
inductive Act where
  | fired (g : Gates) (eventId : String)
  | op (a : Label)

/-- The queue after an act. -/
def Act.apply (cfg : Config) (q : Queue) : Act → Queue
  | .fired g eventId => (handleTimerFired cfg g q eventId).queue
  | .op a => Wake.apply q a

end Wake
end DiploidAgent
