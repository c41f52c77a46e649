import Mathlib.Algebra.Order.Field.Rat
import Mathlib.Data.Stream.Init
import Mathlib.Tactic.Linarith

/-!
# The budget of a session resume

`_resume_session` of `acp_client/sessions.py` with `_call_with_resume_retry`,
`_resume_jitter` and `_apply_session_config`, over the two waits of `AcpTransport.call`, the
one for the pipe and the one for the answer.

The budget is read before each attempt and once before the mode and model calls.  What is
read bounds every single wait after it, not their sum, and the pauses between the attempts
do not read it at all.  So the time that is spent is held by the timeout only where the
timeout is at least what all waits and pauses can take together.
-/

namespace DiploidAgent
namespace Acp
namespace ResumeBudget

section Model

/-- How a call ends.  `methodNotFound` is an error of which `_is_method_not_found` holds,
`acpError` any other `AcpError` but an `AcpModelError`, `other` what is not an `AcpError`. -/
inductive Outcome where
  | ok
  | methodNotFound
  | modelError
  | acpError
  | timeout
  | other
deriving DecidableEq, Repr

/-- What a call meets: the time until the pipe has drained, the time from there to the
answer, the answer, and the jitter of the pause that may follow. -/
structure Event where
  drain : ℚ
  wait : ℚ
  answer : Outcome
  jitter : ℚ
  drain_nonneg : 0 ≤ drain
  wait_nonneg : 0 ≤ wait
  jitter_nonneg : 0 ≤ jitter
  jitter_le : jitter ≤ 1 / 10

/-- The client's configuration, as far as a resume reads it. -/
structure Config where
  acpResumeMaxRetries : ℤ := 1
  acpResumeRetryBaseSeconds : ℚ := 1 / 2
  acpResumeRetryMaxSeconds : ℚ := 5
  controlTimeout : ℚ := 120
  watchdogTimeout : ℚ := 120

/-- The seconds since the resume began, and what the calls to come meet. -/
structure Clock where
  now : ℚ
  events : Stream' Event

/-- `call_timeout` of the control server. -/
def callTimeout (cfg : Config) : ℚ :=
  max 60 (min cfg.controlTimeout cfg.watchdogTimeout)

/-- `AcpTransport.call`: each of the two waits may take the whole timeout. -/
def call (timeout : ℚ) (k : Clock) : Clock × Outcome :=
  let event := k.events.head
  if timeout < event.drain then (⟨k.now + timeout, k.events.tail⟩, .timeout)
  else if timeout < event.wait then (⟨k.now + event.drain + timeout, k.events.tail⟩, .timeout)
  else (⟨k.now + event.drain + event.wait, k.events.tail⟩, event.answer)

/-- `_resume_jitter`, with the jitter that is drawn. -/
def resumeJitter (cfg : Config) (attempt : ℕ) (jitter : ℚ) : ℚ :=
  min (min (cfg.acpResumeRetryBaseSeconds * 2 ^ attempt) cfg.acpResumeRetryMaxSeconds + jitter)
    cfg.acpResumeRetryMaxSeconds

/-- `asyncio.sleep`, which comes back at once from a delay that is not positive. -/
def sleep (delay : ℚ) (k : Clock) : Clock :=
  ⟨k.now + max 0 delay, k.events⟩

/-- `_remaining`; without a value it raises its `TimeoutError`. -/
def remaining (timeout : ℚ) (k : Clock) : Option ℚ :=
  if timeout - k.now ≤ 0 then none else some (timeout - k.now)

/-- The errors after which `_call_with_resume_retry` goes on. -/
def Outcome.retried : Outcome → Bool
  | .modelError | .acpError | .timeout => true
  | _ => false

/-- One attempt, capped by what is left; without a value the budget raises. -/
def callOnce (cfg : Config) (timeout : ℚ) (k : Clock) : Option (Clock × Outcome) :=
  (remaining timeout k).map fun left => call (min (callTimeout cfg) left) k

/-- `_call_with_resume_retry`, with the number of attempts that may follow this one. -/
def callWithResumeRetry (cfg : Config) (timeout : ℚ) : ℕ → ℕ → Clock → Clock × Outcome
  | 0, _, k => (callOnce cfg timeout k).getD (k, .timeout)
  | more + 1, attempt, k =>
      match callOnce cfg timeout k with
      | none => (k, .timeout)
      | some answered =>
          if answered.2.retried then
            callWithResumeRetry cfg timeout more (attempt + 1)
              (sleep (resumeJitter cfg attempt k.events.head.jitter) answered.1)
          else answered

/-- `_apply_session_config`, with the one timeout for the mode and for the model. -/
def applySessionConfig (timeout : ℚ) (k : Clock) : Clock × Outcome :=
  let mode := call timeout k
  if mode.2 = .ok then
    let model := call timeout mode.1
    if model.2 = .modelError then (model.1, .ok) else model
  else mode

/-- The end of `_resume_session`, once the session is there. -/
def configure (cfg : Config) (timeout : ℚ) (k : Clock) : Clock × Outcome :=
  match remaining timeout k with
  | none => (k, .timeout)
  | some left => applySessionConfig (min (callTimeout cfg) left) k

/-- What follows `session/load`. -/
def afterLoad (cfg : Config) (timeout : ℚ) (loaded : Clock × Outcome) : Clock × Outcome :=
  if loaded.2 = .ok then configure cfg timeout loaded.1 else loaded

/-- The retries of each method; the client takes a negative number for none. -/
def retries (cfg : Config) : ℕ :=
  (max 0 cfg.acpResumeMaxRetries).toNat

/-- What follows `session/resume`. -/
def afterResume (cfg : Config) (timeout : ℚ) (resumed : Clock × Outcome) : Clock × Outcome :=
  if resumed.2 = .methodNotFound then
    afterLoad cfg timeout (callWithResumeRetry cfg timeout (retries cfg) 0 resumed.1)
  else if resumed.2 = .ok then configure cfg timeout resumed.1
  else resumed

/-- `_resume_session` with a positive timeout. -/
def resumeSession (cfg : Config) (timeout : ℚ) (events : Stream' Event) : Clock × Outcome :=
  afterResume cfg timeout (callWithResumeRetry cfg timeout (retries cfg) 0 ⟨0, events⟩)

end Model

section Properties

/-- The longest pause after an attempt. -/
def longestPause (cfg : Config) (attempt : ℕ) : ℚ :=
  max 0 (resumeJitter cfg attempt (1 / 10))

/-- What one method can take: two waits an attempt, and the pauses. -/
def longestRetry (cfg : Config) : ℕ → ℕ → ℚ
  | 0, _ => 2 * callTimeout cfg
  | more + 1, attempt =>
      2 * callTimeout cfg + longestPause cfg attempt + longestRetry cfg more (attempt + 1)

/-- What a resume can take: both methods, and two waits each for the mode and the model. -/
def longestResume (cfg : Config) : ℚ :=
  2 * longestRetry cfg (retries cfg) 0 + 4 * callTimeout cfg

end Properties

section Bounds

variable {cfg : Config} {timeout limit left : ℚ} {k : Clock} {more attempt : ℕ}

theorem callTimeout_pos (cfg : Config) : 0 < callTimeout cfg :=
  lt_of_lt_of_le (by norm_num) (le_max_left 60 (min cfg.controlTimeout cfg.watchdogTimeout))

theorem remaining_eq_some
    (h : remaining timeout k = some left) :
    0 < left ∧ left = timeout - k.now := by
  rw [remaining] at h
  split_ifs at h with hspent
  obtain rfl := Option.some.inj h
  exact ⟨lt_of_not_ge hspent, rfl⟩

theorem allowance_nonneg
    (cfg : Config) (h : remaining timeout k = some left) :
    0 ≤ min (callTimeout cfg) left :=
  le_min (callTimeout_pos cfg).le (remaining_eq_some h).1.le

/-- A call takes two waits at most. -/
theorem call_now
    (h : 0 ≤ limit) (k : Clock) :
    k.now ≤ (call limit k).1.now ∧ (call limit k).1.now ≤ k.now + 2 * limit := by
  have hdrain := k.events.head.drain_nonneg
  have hwait := k.events.head.wait_nonneg
  unfold call
  dsimp only
  split_ifs <;> dsimp only <;> constructor <;> linarith

/-- An attempt takes two full waits at most. -/
theorem callOnce_now
    {answered : Clock × Outcome} (h : callOnce cfg timeout k = some answered) :
    k.now ≤ answered.1.now ∧ answered.1.now ≤ k.now + 2 * callTimeout cfg := by
  obtain ⟨left, hleft, rfl⟩ := Option.map_eq_some_iff.mp h
  obtain ⟨hfrom, hto⟩ := call_now (allowance_nonneg cfg hleft) k
  have hlimit := min_le_left (callTimeout cfg) left
  exact ⟨hfrom, hto.trans (by linarith)⟩

theorem now_le_sleep (delay : ℚ) (k : Clock) : k.now ≤ (sleep delay k).now :=
  le_add_of_nonneg_right (le_max_left 0 delay)

theorem sleep_le
    (cfg : Config) (attempt : ℕ) (event : Event) (k : Clock) :
    (sleep (resumeJitter cfg attempt event.jitter) k).now ≤ k.now + longestPause cfg attempt := by
  have hjitter : resumeJitter cfg attempt event.jitter ≤ resumeJitter cfg attempt (1 / 10) := by
    refine min_le_min ?_ le_rfl
    linarith [event.jitter_le]
  exact add_le_add le_rfl (max_le_max le_rfl hjitter)

theorem longestPause_nonneg (cfg : Config) (attempt : ℕ) : 0 ≤ longestPause cfg attempt :=
  le_max_left 0 _

theorem longestRetry_pos (cfg : Config) (more attempt : ℕ) : 0 < longestRetry cfg more attempt := by
  have hcall := callTimeout_pos cfg
  induction more generalizing attempt with
  | zero =>
      rw [longestRetry]
      linarith
  | succ more ih =>
      rw [longestRetry]
      linarith [ih (attempt + 1), longestPause_nonneg cfg attempt]

/-- The attempts of one method neither turn the clock back nor pass what they can take. -/
theorem callWithResumeRetry_now
    (cfg : Config) (timeout : ℚ) (more attempt : ℕ) (k : Clock) :
    k.now ≤ (callWithResumeRetry cfg timeout more attempt k).1.now ∧
      (callWithResumeRetry cfg timeout more attempt k).1.now ≤
        k.now + longestRetry cfg more attempt := by
  have hspent := longestRetry_pos cfg more attempt
  induction more generalizing attempt k with
  | zero =>
      rw [callWithResumeRetry]
      cases hanswered : callOnce cfg timeout k with
      | none => exact ⟨le_rfl, le_add_of_nonneg_right hspent.le⟩
      | some answered => exact callOnce_now hanswered
  | succ more ih =>
      rw [callWithResumeRetry]
      cases hanswered : callOnce cfg timeout k with
      | none => exact ⟨le_rfl, le_add_of_nonneg_right hspent.le⟩
      | some answered =>
          obtain ⟨hfrom, hto⟩ := callOnce_now hanswered
          have hlater := longestRetry_pos cfg more (attempt + 1)
          have hpause := longestPause_nonneg cfg attempt
          dsimp only
          rw [longestRetry]
          split_ifs
          · have hslept := now_le_sleep (resumeJitter cfg attempt k.events.head.jitter) answered.1
            have hwoken := sleep_le cfg attempt k.events.head answered.1
            obtain ⟨hbegin, hend⟩ := ih (attempt + 1)
              (sleep (resumeJitter cfg attempt k.events.head.jitter) answered.1) hlater
            exact ⟨(hfrom.trans hslept).trans hbegin, hend.trans (by linarith)⟩
          · exact ⟨hfrom, hto.trans (by linarith)⟩

theorem applySessionConfig_now
    (h : 0 ≤ limit) (k : Clock) :
    k.now ≤ (applySessionConfig limit k).1.now ∧
      (applySessionConfig limit k).1.now ≤ k.now + 4 * limit := by
  obtain ⟨hmode, hmode'⟩ := call_now h k
  obtain ⟨hmodel, hmodel'⟩ := call_now h (call limit k).1
  unfold applySessionConfig
  dsimp only
  split_ifs
  · exact ⟨hmode.trans hmodel, hmodel'.trans (by linarith)⟩
  · exact ⟨hmode.trans hmodel, hmodel'.trans (by linarith)⟩
  · exact ⟨hmode, hmode'.trans (by linarith)⟩

theorem configure_now
    (cfg : Config) (timeout : ℚ) (k : Clock) :
    k.now ≤ (configure cfg timeout k).1.now ∧
      (configure cfg timeout k).1.now ≤ k.now + 4 * callTimeout cfg := by
  have hcall := callTimeout_pos cfg
  unfold configure
  split
  · exact ⟨le_rfl, by linarith⟩
  · rename_i left hleft
    obtain ⟨hfrom, hto⟩ := applySessionConfig_now (allowance_nonneg cfg hleft) k
    have hlimit := min_le_left (callTimeout cfg) left
    exact ⟨hfrom, by linarith⟩

theorem afterLoad_now
    (cfg : Config) (timeout : ℚ) (loaded : Clock × Outcome) :
    loaded.1.now ≤ (afterLoad cfg timeout loaded).1.now ∧
      (afterLoad cfg timeout loaded).1.now ≤ loaded.1.now + 4 * callTimeout cfg := by
  have hcall := callTimeout_pos cfg
  unfold afterLoad
  split_ifs
  · exact configure_now cfg timeout loaded.1
  · exact ⟨le_rfl, by linarith⟩

theorem afterResume_now
    (cfg : Config) (timeout : ℚ) (resumed : Clock × Outcome) :
    resumed.1.now ≤ (afterResume cfg timeout resumed).1.now ∧
      (afterResume cfg timeout resumed).1.now ≤
        resumed.1.now + longestRetry cfg (retries cfg) 0 + 4 * callTimeout cfg := by
  have hcall := callTimeout_pos cfg
  have hretry := longestRetry_pos cfg (retries cfg) 0
  unfold afterResume
  split_ifs
  · obtain ⟨hload, hload'⟩ := callWithResumeRetry_now cfg timeout (retries cfg) 0 resumed.1
    obtain ⟨hafter, hafter'⟩ := afterLoad_now cfg timeout
      (callWithResumeRetry cfg timeout (retries cfg) 0 resumed.1)
    exact ⟨hload.trans hafter, hafter'.trans (by linarith)⟩
  · obtain ⟨hafter, hafter'⟩ := configure_now cfg timeout resumed.1
    exact ⟨hafter, hafter'.trans (by linarith)⟩
  · exact ⟨le_rfl, by linarith⟩

/-- No resume takes longer than all waits and pauses together. -/
theorem resumeSession_le
    (cfg : Config) (timeout : ℚ) (events : Stream' Event) :
    (resumeSession cfg timeout events).1.now ≤ longestResume cfg := by
  obtain ⟨_, hresume⟩ := callWithResumeRetry_now cfg timeout (retries cfg) 0 ⟨0, events⟩
  obtain ⟨_, hafter⟩ := afterResume_now cfg timeout
    (callWithResumeRetry cfg timeout (retries cfg) 0 ⟨0, events⟩)
  rw [resumeSession, longestResume]
  dsimp only at hresume
  linarith

end Bounds

section Overruns

variable {cfg : Config} {timeout limit now : ℚ} {more attempt : ℕ}

/-- An event in which the waits take the given times, followed by the longest jitter. -/
def waits {drain wait : ℚ} (hdrain : 0 ≤ drain) (hwait : 0 ≤ wait) (answer : Outcome) : Event where
  drain := drain
  wait := wait
  answer := answer
  jitter := 1 / 10
  drain_nonneg := hdrain
  wait_nonneg := hwait
  jitter_nonneg := by norm_num
  jitter_le := le_rfl

theorem call_waits
    {drain wait : ℚ} (hdrain : 0 ≤ drain) (hwait : 0 ≤ wait)
    (hdrain' : drain ≤ limit) (hwait' : wait ≤ limit)
    (answer : Outcome) (now : ℚ) (events : Stream' Event) :
    call limit ⟨now, Stream'.cons (waits hdrain hwait answer) events⟩ =
      (⟨now + drain + wait, events⟩, answer) := by
  unfold call
  exact (if_neg hdrain'.not_gt).trans (if_neg hwait'.not_gt)

theorem remaining_of_lt
    (h : now < timeout) (events : Stream' Event) :
    remaining timeout ⟨now, events⟩ = some (timeout - now) := by
  rw [remaining]
  exact if_neg (by dsimp only; linarith)

/-- A time inside the first of two bounds that leaves less than the second. -/
theorem exists_slack
    {c left later : ℚ} (hc : 0 < c) (hleft : 0 ≤ left) (hlater : left < later) :
    ∃ slack, 0 ≤ slack ∧ slack ≤ c ∧ 0 < left + slack ∧ left + slack < later := by
  refine ⟨min c ((later - left) / 2), ?_, min_le_left _ _, ?_, ?_⟩
  · exact le_min hc.le (by linarith)
  · have hpos : 0 < min c ((later - left) / 2) := lt_min hc (by linarith)
    linarith
  · have hhalf := min_le_right c ((later - left) / 2)
    linarith

/-- An attempt either overruns the timeout by its two waits, or is given the full limit. -/
theorem overrun_or_full
    (cfg : Config) (h : now < timeout) :
    timeout < now + 2 * min (callTimeout cfg) (timeout - now) ∨
      min (callTimeout cfg) (timeout - now) = callTimeout cfg ∧
        now + 2 * callTimeout cfg ≤ timeout := by
  by_cases hover : timeout < now + 2 * min (callTimeout cfg) (timeout - now)
  · exact Or.inl hover
  · rcases min_cases (callTimeout cfg) (timeout - now) with ⟨hmin, _⟩ | ⟨hmin, _⟩
    · rw [hmin] at hover
      exact Or.inr ⟨hmin, not_lt.mp hover⟩
    · rw [hmin] at hover
      exact absurd (by linarith) hover

/-- The first attempt of a method, with two waits of given times. -/
theorem callOnce_waits
    {drain wait : ℚ} (h : now < timeout)
    (hdrain : 0 ≤ drain) (hwait : 0 ≤ wait)
    (hdrain' : drain ≤ min (callTimeout cfg) (timeout - now))
    (hwait' : wait ≤ min (callTimeout cfg) (timeout - now))
    (answer : Outcome) (events : Stream' Event) :
    callOnce cfg timeout ⟨now, Stream'.cons (waits hdrain hwait answer) events⟩ =
      some (⟨now + drain + wait, events⟩, answer) := by
  rw [callOnce, remaining_of_lt h, Option.map_some, call_waits hdrain hwait hdrain' hwait']

/-- An attempt that fails is followed by its pause and the next one. -/
theorem callWithResumeRetry_waits
    {drain wait : ℚ} (h : now < timeout)
    (hdrain : 0 ≤ drain) (hwait : 0 ≤ wait)
    (hdrain' : drain ≤ min (callTimeout cfg) (timeout - now))
    (hwait' : wait ≤ min (callTimeout cfg) (timeout - now))
    (more attempt : ℕ) (events : Stream' Event) :
    callWithResumeRetry cfg timeout (more + 1) attempt
        ⟨now, Stream'.cons (waits hdrain hwait .acpError) events⟩ =
      callWithResumeRetry cfg timeout more (attempt + 1)
        ⟨now + drain + wait + longestPause cfg attempt, events⟩ := by
  rw [callWithResumeRetry, callOnce_waits h hdrain hwait hdrain' hwait']
  exact if_pos rfl

/-- If what follows a method can overrun from every time that leaves less than `later`, then
the method and what follows can from every time that leaves less than both together. -/
theorem overrun_retry
    (answer : Outcome) {next : Clock × Outcome → Clock × Outcome} {later : ℚ}
    (hforward : ∀ r, r.1.now ≤ (next r).1.now)
    (hnext : ∀ now, now < timeout → timeout - now < later →
      ∃ events, timeout < (next (⟨now, events⟩, answer)).1.now)
    (more attempt : ℕ) (now : ℚ)
    (hnow : now < timeout)
    (hlater : timeout - now < longestRetry cfg more attempt + later) :
    ∃ events,
      timeout < (next (callWithResumeRetry cfg timeout more attempt ⟨now, events⟩)).1.now := by
  have hcall := callTimeout_pos cfg
  have hlimit : 0 ≤ min (callTimeout cfg) (timeout - now) := le_min hcall.le (by linarith)
  induction more generalizing attempt now with
  | zero =>
      rw [longestRetry] at hlater
      rcases overrun_or_full cfg hnow with hover | ⟨hfull, hfits⟩
      · refine ⟨Stream'.cons (waits hlimit hlimit answer)
          (Stream'.const (waits hlimit hlimit answer)), ?_⟩
        rw [callWithResumeRetry, callOnce_waits hnow hlimit hlimit le_rfl le_rfl]
        refine lt_of_lt_of_le ?_ (hforward _)
        rw [Option.getD_some]
        linarith
      · have hleft : 0 ≤ timeout - now - 2 * callTimeout cfg := by linarith
        have hless : timeout - now - 2 * callTimeout cfg < later := by linarith
        obtain ⟨slack, hslack, hslack', hpos, hless'⟩ := exists_slack hcall hleft hless
        have hwait : 0 ≤ callTimeout cfg - slack := by linarith
        obtain ⟨events, hevents⟩ := hnext (now + callTimeout cfg + (callTimeout cfg - slack))
          (by linarith) (by linarith)
        refine ⟨Stream'.cons (waits hcall.le hwait answer) events, ?_⟩
        rw [callWithResumeRetry, callOnce_waits hnow hcall.le hwait (by rw [hfull])
          (by rw [hfull]; linarith)]
        exact hevents
  | succ more ih =>
      rw [longestRetry] at hlater
      have hpause := longestPause_nonneg cfg attempt
      -- what the attempts to come add to a clock that is already beyond the timeout
      have hbeyond : ∀ now events, timeout < now →
          timeout < (next
            (callWithResumeRetry cfg timeout more (attempt + 1) ⟨now, events⟩)).1.now := by
        intro now events hover
        have hretry := (callWithResumeRetry_now cfg timeout more (attempt + 1) ⟨now, events⟩).1
        exact lt_of_lt_of_le hover (hretry.trans (hforward _))
      rcases overrun_or_full cfg hnow with hover | ⟨hfull, hfits⟩
      · refine ⟨Stream'.cons (waits hlimit hlimit .acpError)
          (Stream'.const (waits hlimit hlimit .acpError)), ?_⟩
        rw [callWithResumeRetry_waits hnow hlimit hlimit le_rfl le_rfl]
        exact hbeyond _ _ (by linarith)
      · rcases lt_or_ge (timeout - now - 2 * callTimeout cfg - longestPause cfg attempt) 0
          with hpaused | hleft
        · refine ⟨Stream'.cons (waits hcall.le hcall.le .acpError)
            (Stream'.const (waits hcall.le hcall.le .acpError)), ?_⟩
          rw [callWithResumeRetry_waits hnow hcall.le hcall.le hfull.ge hfull.ge]
          exact hbeyond _ _ (by linarith)
        · have hless : timeout - now - 2 * callTimeout cfg - longestPause cfg attempt <
              longestRetry cfg more (attempt + 1) + later := by linarith
          obtain ⟨slack, hslack, hslack', hpos, hless'⟩ := exists_slack hcall hleft hless
          have hwait : 0 ≤ callTimeout cfg - slack := by linarith
          have hnow' : now + callTimeout cfg + (callTimeout cfg - slack) +
              longestPause cfg attempt < timeout := by linarith
          obtain ⟨events, hevents⟩ := ih (attempt + 1) _ hnow' (by linarith)
            (le_min hcall.le (by linarith))
          refine ⟨Stream'.cons (waits hcall.le hwait .acpError) events, ?_⟩
          rw [callWithResumeRetry_waits hnow hcall.le hwait hfull.ge (by rw [hfull]; linarith)]
          exact hevents

/-- The mode and model calls overrun from every time that leaves less than four full waits. -/
theorem overrun_configure
    (hnow : now < timeout)
    (hlater : timeout - now < 4 * callTimeout cfg) :
    ∃ events, timeout < (configure cfg timeout ⟨now, events⟩).1.now := by
  have hcall := callTimeout_pos cfg
  have hlimit : 0 ≤ min (callTimeout cfg) (timeout - now) := le_min hcall.le (by linarith)
  refine ⟨Stream'.const (waits hlimit hlimit .ok), ?_⟩
  rw [configure, remaining_of_lt hnow]
  dsimp only
  rw [applySessionConfig, Stream'.const_eq, call_waits hlimit hlimit le_rfl le_rfl]
  dsimp only
  rw [if_pos rfl, Stream'.const_eq, call_waits hlimit hlimit le_rfl le_rfl,
    if_neg (fun hmodel => Outcome.noConfusion hmodel)]
  dsimp only
  rcases overrun_or_full cfg hnow with hover | ⟨hfull, _⟩
  · linarith
  · linarith

theorem overrun_resumeSession
    (h : 0 < timeout)
    (hlonger : timeout < longestResume cfg) :
    ∃ events, timeout < (resumeSession cfg timeout events).1.now := by
  have hload : ∀ now, now < timeout →
      timeout - now < longestRetry cfg (retries cfg) 0 + 4 * callTimeout cfg →
      ∃ events, timeout < (afterResume cfg timeout (⟨now, events⟩, .methodNotFound)).1.now := by
    intro now hnow hlater
    refine overrun_retry .ok (fun r => (afterLoad_now cfg timeout r).1) ?_
      (retries cfg) 0 now hnow hlater
    intro now hnow hlater
    exact overrun_configure hnow hlater
  rw [longestResume] at hlonger
  exact overrun_retry .methodNotFound (fun r => (afterResume_now cfg timeout r).1)
    hload (retries cfg) 0 0 h (by linarith)

end Overruns

section Budget

/-- **The resume timeout.**  Every resume stays within a positive timeout exactly if the
timeout is at least what all waits and pauses of the configuration can take together. -/
theorem resumeSession_within_iff
    (cfg : Config) {timeout : ℚ} (h : 0 < timeout) :
    (∀ events, (resumeSession cfg timeout events).1.now ≤ timeout) ↔
      longestResume cfg ≤ timeout := by
  constructor
  · intro hwithin
    by_contra hlonger
    obtain ⟨events, hover⟩ := overrun_resumeSession h (not_le.mp hlonger)
    exact absurd (hwithin events) (not_le.mpr hover)
  · intro hlong events
    exact (resumeSession_le cfg timeout events).trans hlong

theorem resumeSession_within_iff_default :
    (∀ events, (resumeSession {} 120 events).1.now ≤ 120) ↔ longestResume {} ≤ 120 :=
  resumeSession_within_iff {} (by norm_num)

/-- Answers that take 35 seconds, after a pipe that takes as long. -/
def slowEvent : Event where
  drain := 35
  wait := 35
  answer := .ok
  jitter := 0
  drain_nonneg := by norm_num
  wait_nonneg := by norm_num
  jitter_nonneg := le_rfl
  jitter_le := by norm_num

/-- With the default timeout of 120 seconds such a resume takes longer. -/
theorem resumeSession_overruns :
    ¬ ∀ (cfg : Config) (timeout : ℚ), 0 < timeout →
      ∀ events, (resumeSession cfg timeout events).1.now ≤ timeout := by
  intro h
  exact absurd (h {} 120 (by norm_num) (Stream'.const slowEvent)) (by decide +kernel)

end Budget

end ResumeBudget
end Acp
end DiploidAgent
