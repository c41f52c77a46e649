import Mathlib.Data.Rat.Floor
import Mathlib.Data.List.Infix
import DiploidAgent.Sessions.Store

/-!
# Follow-up prompts

`build_follow_up` of `context/builder.py` with `context/pressure.py` and
`context/token_estimator.py`.  From the record of a session and the estimate of the next
prompt it decides how much of the soul the prompt carries and whether it asks for a new
session.  Ratios and factors are rational numbers.

A prompt asks for a new session exactly when it is compact (`compact_iff_asks`), and no
prompt of a rehydration does (`rehydrated_asks`).
-/

namespace DiploidAgent
namespace Turns
namespace FollowUp

/-! ### Records -/

structure TurnMetrics where
  promptChars : Nat := 0
  inputTokens : Nat := 0
  outputTokens : Nat := 0
deriving DecidableEq

/-- A record with its session and what decides the next prompt. -/
structure SessionRecord extends Sessions.SessionRecord where
  sessionId : Option String
  model : String
  lastStopReason : Option String := none
  enabledSkills : Option (List String) := none
  lastTurnMetrics : Option TurnMetrics := none
  firstTurnMetrics : Option TurnMetrics := none
  pressureHandoffDone : Bool := false
deriving DecidableEq

/-! ### The token estimator -/

/-- The settings of the engine, the harness and its memory that are read here. -/
structure Config where
  engineModel : String
  engineContextWindow : Option Nat := none
  proactiveNewSessionThreshold : ℚ := 85 / 100
  reinjectSoulThreshold : ℚ := 7 / 10
  reinjectSoulInputThreshold : ℚ := 6 / 10
  reinjectSoulFullThreshold : ℚ := 9 / 10
  reinjectSoulTurns : Nat := 20
  pressureHandoffEnabled : Bool := true
  pressureHandoffStubEnabled : Bool := true
  proactiveInputBufferFactor : ℚ := 12 / 10
  proactiveSoulTokenBudget : Nat := 500
  proactiveCalibrationEnabled : Bool := true
  proactiveCalibrationMinPromptChars : Nat := 100
  maxShortTermChars : Nat := 6144
  identityAnchor : String

/-- `_CHARS_PER_TOKEN`. -/
def charsPerTokenTable : List (String × ℚ) :=
  [("swe-1-7", 7 / 2),
    ("claude-sonnet-4-20250514", 4),
    ("claude-sonnet-4", 4),
    ("claude-opus-4", 4),
    ("gpt-4o", 4),
    ("gpt-4o-mini", 4)]

/-- The ratio that one turn's metrics give, where they can be trusted. -/
def calibrated (cfg : Config) (metrics : TurnMetrics) : Option ℚ :=
  if metrics.promptChars < cfg.proactiveCalibrationMinPromptChars then none
  else if metrics.inputTokens = 0 then none
  else
    let ratio : ℚ := metrics.promptChars / metrics.inputTokens
    if 1 ≤ ratio ∧ ratio ≤ 10 then some ratio else none

/-- `chars_per_token`. -/
def charsPerToken (cfg : Config) (r : SessionRecord) : ℚ :=
  if r.model = "" then 4
  else
    let samples := [r.firstTurnMetrics, r.lastTurnMetrics].filterMap id
    match (if cfg.proactiveCalibrationEnabled then samples.findSome? (calibrated cfg) else none) with
    | some ratio => ratio
    | none =>
        match charsPerTokenTable.find? fun row => row.1.toList <:+: r.model.toLower.toList with
        | some row => row.2
        | none => 4

/-- `int` of a quotient. -/
def truncate (q : ℚ) : Int := q.num.tdiv q.den

/-- `round(q, 4)`. -/
def round4 (q : ℚ) : ℚ :=
  let scaled := q * 10000
  let low := scaled.floor
  let rest := scaled - low
  let n := if rest < 1 / 2 ∨ rest = 1 / 2 ∧ low % 2 = 0 then low else low + 1
  n / 10000

/-- `context_window_for`; a table of windows, where the engine has one, comes first. -/
def contextWindowFor (cfg : Config) (windowFn : Option (String → Option Nat)) (model : String) :
    Option Nat :=
  match windowFn with
  | some f => if model = "" then cfg.engineContextWindow else f model
  | none => cfg.engineContextWindow

/-- `estimate_next_prompt_tokens`, its total. -/
def estimateNextPromptTokens (cfg : Config) (r : SessionRecord) (formatted : String) : Int :=
  let last := r.lastTurnMetrics.getD {}
  let lastTotal := last.inputTokens + last.outputTokens
  let ratio := charsPerToken cfg r
  let shortTerm := truncate (cfg.maxShortTermChars / ratio)
  let soul := truncate (cfg.identityAnchor.length / ratio) + cfg.proactiveSoulTokenBudget
  let user := truncate (formatted.length / ratio)
  truncate (lastTotal * cfg.proactiveInputBufferFactor) + soul + user + shortTerm

/-! ### Context pressure -/

inductive SoulMode where
  | normal
  | small
  | full
  | fresh
deriving DecidableEq

/-- The pressure on a window of `n` tokens: the estimated ratio of the next prompt and
the input ratio of the last turn. -/
def ratios (cfg : Config) (r : SessionRecord) (formatted : String) (n : Nat) : ℚ × ℚ :=
  (estimateNextPromptTokens cfg r formatted / n,
    round4 ((r.lastTurnMetrics.getD {}).inputTokens / n))

/-- `_soul_mode`; a window of no tokens is none. -/
def soulMode (cfg : Config) (windowFn : Option (String → Option Nat)) (lastFull : Nat)
    (record : Option SessionRecord) (rehydrated : Bool) (formatted : String) :
    SoulMode × Bool :=
  match record with
  | none => (.normal, false)
  | some r =>
      if rehydrated then (.full, false)
      else
        match (contextWindowFor cfg windowFn r.model).filter (· ≠ 0) with
        | some n =>
            let (estimated, input) := ratios cfg r formatted n
            if cfg.proactiveNewSessionThreshold < estimated then (.fresh, true)
            else if cfg.reinjectSoulFullThreshold < input then (.fresh, true)
            else if cfg.reinjectSoulThreshold < estimated ∨ cfg.reinjectSoulInputThreshold < input
            then (.small, false)
            else (.normal, false)
        | none =>
            -- without a window both ratios are zero
            if cfg.reinjectSoulFullThreshold < 0 then (.fresh, true)
            else if (cfg.reinjectSoulTurns : Int) < (r.turnNumber : Int) - lastFull
            then (.small, false)
            else (.normal, false)

/-- A new session is asked for together with the fresh soul. -/
theorem soulMode_fresh_iff
    (cfg : Config) (windowFn : Option (String → Option Nat)) (lastFull : Nat)
    (record : Option SessionRecord) (rehydrated : Bool) (formatted : String) :
    (soulMode cfg windowFn lastFull record rehydrated formatted).1 = .fresh ↔
      (soulMode cfg windowFn lastFull record rehydrated formatted).2 = true := by
  unfold soulMode
  cases record with
  | none => simp
  | some r =>
      cases rehydrated with
      | true => simp
      | false =>
          simp only [Bool.false_eq_true, if_false]
          split <;> split_ifs <;> simp

@[simp] theorem soulMode_rehydrated
    (cfg : Config) (windowFn : Option (String → Option Nat)) (lastFull : Nat)
    (record : Option SessionRecord) (formatted : String) :
    (soulMode cfg windowFn lastFull record true formatted).2 = false := by
  cases record <;> rfl

/-! ### The prompt -/

inductive RehydrationReason where
  | none
  | resumed
  | stale
  | timeout
  | transportError
  | restart
  | fresh
deriving DecidableEq

/-- The parts of a prompt that pressure decides, and the message it carries. -/
structure PromptContext where
  formatted : String
  soulMode : SoulMode
  soulNotice : String
  rehydrationReason : RehydrationReason
  model : Option String
  forceNewSession : Bool
  compact : Bool
deriving DecidableEq

def handoffNotice : String :=
  "Context window is nearly full — this is your handoff turn. " ++
    "The next turn will start a fresh session with compacted " ++
    "memory, so while you still hold full context, write what the " ++
    "next you needs: update your self_state/next-self handoff and " ++
    "felt state, and promote any facts worth keeping. Still reply " ++
    "to the user, but the handoff is the priority."

def freshNotice : String :=
  "Fresh ACP session for context pressure. " ++
    "Persona memory is compacted and long-term recall is skipped " ++
    "unless the user asks about memory. If you need long-term facts, " ++
    "call `memory_recall(query, tags)`."

def nearlyFullNotice : String :=
  "Context window is nearly full. This prompt includes the full soul " ++
    "and a fresh ACP session will be started."

def smallNotice : String :=
  "Context pressure is high. Re-injecting the cheap soul slots " ++
    "(self_state, body, wake, mesh, self_narrative) to keep continuity."

def fullNotice : String :=
  "Re-injecting the full soul: persona memory, chat memory, recall, " ++ "and identity slots."

/-- The decision about one prompt: the soul it carries, whether it asks for a new session,
and whether it is the handoff turn of its session. -/
structure Decision where
  soulMode : SoulMode
  force : Bool
  handoff : Bool
deriving DecidableEq

/-- The pressure decision; a session has one handoff turn before it is left. -/
def decision (cfg : Config) (windowFn : Option (String → Option Nat)) (lastFull : Nat)
    (record : Option SessionRecord) (rehydrated : Bool) (formatted : String) : Decision :=
  let (mode, force) := soulMode cfg windowFn lastFull record rehydrated formatted
  match record with
  | some r =>
      if force ∧ cfg.pressureHandoffEnabled ∧ ¬ r.pressureHandoffDone then
        { soulMode := .small
          force := false
          handoff := true }
      else
        { soulMode := mode
          force := force
          handoff := false }
  | none =>
      { soulMode := mode
        force := force
        handoff := false }

/-- The soul notice of a prompt; `narrative` is the wake narrative, where there is one. -/
def soulNotice (d : Decision) (narrative : String) : String :=
  if d.handoff then handoffNotice
  else if d.force then
    match d.soulMode with
    | .fresh => if narrative = "" then freshNotice else freshNotice ++ " " ++ narrative
    | _ => nearlyFullNotice
  else
    match d.soulMode with
    | .small => smallNotice
    | .full => fullNotice
    | _ => ""

/-- What a prompt is built from besides the record: the formatted message, the wake
narrative, the model that plugins gave the prompt, the last turn with a full soul, the
window table, and the plugins that see the built prompt. -/
structure PromptInputs where
  formatted : String
  narrative : String := ""
  buildModel : Option String := none
  lastFull : Nat := 0
  windowFn : Option (String → Option Nat) := none
  afterPromptBuilt : PromptContext → PromptContext := id

/-- What `build_follow_up` leaves: the record, the prompt, and whether a handoff stub is
written. -/
structure Built where
  record : Option SessionRecord
  prompt : PromptContext
  stub : Bool

/-- The prompt before plugins see it. -/
def assembled (cfg : Config) (inp : PromptInputs) (d : Decision)
    (reason : RehydrationReason) (model : String) : PromptContext :=
  { formatted := inp.formatted
    soulMode := d.soulMode
    soulNotice := soulNotice d inp.narrative
    rehydrationReason := if d.soulMode = .fresh then .fresh else reason
    model := some (if model = "" then cfg.engineModel else model)
    forceNewSession := d.force
    compact := d.soulMode = .fresh }

/-- `build_follow_up`. -/
def buildFollowUp (cfg : Config) (inp : PromptInputs) (record : Option SessionRecord)
    (rehydrated : Bool) (rehydrationReason : Option RehydrationReason) : Built :=
  let d := decision cfg inp.windowFn inp.lastFull record rehydrated inp.formatted
  let reason := rehydrationReason.getD (if rehydrated then .stale else .none)
  let model := inp.buildModel.getD ((record.map (·.model)).getD "")
  { record := if d.handoff then record.map fun r => { r with pressureHandoffDone := true }
      else record
    prompt := inp.afterPromptBuilt (assembled cfg inp d reason model)
    stub := (d.handoff || d.force) && record.isSome && cfg.pressureHandoffStubEnabled }

section Decisions

variable (cfg : Config) (inp : PromptInputs) (record : Option SessionRecord)

@[simp] theorem decision_rehydrated
    (windowFn : Option (String → Option Nat)) (lastFull : Nat) (formatted : String) :
    (decision cfg windowFn lastFull record true formatted).force = false ∧
      (decision cfg windowFn lastFull record true formatted).handoff = false := by
  cases record with
  | none => exact ⟨rfl, rfl⟩
  | some r => simp [decision]

/-- The two parts of a decision agree: the fresh soul goes with a new session. -/
theorem decision_fresh_iff
    (windowFn : Option (String → Option Nat)) (lastFull : Nat) (rehydrated : Bool)
    (formatted : String) :
    (decision cfg windowFn lastFull record rehydrated formatted).soulMode = .fresh ↔
      (decision cfg windowFn lastFull record rehydrated formatted).force = true := by
  have h := soulMode_fresh_iff cfg windowFn lastFull record rehydrated formatted
  cases record with
  | none => exact h
  | some r =>
      dsimp only [decision]
      split
      · simp
      · exact h

/-- A prompt is compact exactly when it asks for a new session. -/
theorem compact_iff_asks (rehydrated : Bool) (reason : RehydrationReason) (model : String) :
    let d := decision cfg inp.windowFn inp.lastFull record rehydrated inp.formatted
    (assembled cfg inp d reason model).compact = true ↔
      (assembled cfg inp d reason model).forceNewSession = true := by
  intro d
  have h : d.soulMode = .fresh ↔ d.force = true := decision_fresh_iff ..
  simpa [assembled] using h

/-- A prompt that asks for a new session says so. -/
theorem notice_of_asks (rehydrated : Bool) (reason : RehydrationReason) (model : String) :
    let d := decision cfg inp.windowFn inp.lastFull record rehydrated inp.formatted
    (assembled cfg inp d reason model).forceNewSession = true →
      ∃ tail, (assembled cfg inp d reason model).soulNotice = freshNotice ++ tail := by
  intro d hforce
  have hmode : d.soulMode = .fresh := (decision_fresh_iff ..).mpr hforce
  have hhandoff : d.handoff = false := by
    change (decision ..).handoff = false
    replace hforce : (decision cfg inp.windowFn inp.lastFull record rehydrated
      inp.formatted).force = true := hforce
    cases record with
    | none => rfl
    | some r =>
        dsimp only [decision] at hforce ⊢
        split at hforce
        · cases hforce
        · rename_i h
          rw [if_neg h]
  have hforce' : d.force = true := hforce
  simp only [assembled, soulNotice, hhandoff, hforce', hmode, if_true, Bool.false_eq_true, if_false]
  split
  · exact ⟨"", by simp⟩
  · exact ⟨" " ++ inp.narrative, by rw [String.append_assoc]⟩

/-- The prompt of a rehydration leaves the record as it is. -/
@[simp] theorem record_rehydrated (reason : Option RehydrationReason) :
    (buildFollowUp cfg inp record true reason).record = record := by
  simp [buildFollowUp]

/-- The pressure decision before any plugin sees the prompt: the session is to be left,
and its handoff turn is spent or not granted. -/
theorem force_iff (r : SessionRecord) (rehydrated : Bool) :
    (decision cfg inp.windowFn inp.lastFull (some r) rehydrated inp.formatted).force = true ↔
      (soulMode cfg inp.windowFn inp.lastFull (some r) rehydrated inp.formatted).2 = true ∧
        (cfg.pressureHandoffEnabled = true → r.pressureHandoffDone = true) := by
  dsimp only [decision]
  split
  · rename_i h
    simpa using fun _ => ⟨h.2.1, by simpa using h.2.2⟩
  · rename_i h
    constructor
    · intro hforce
      exact ⟨hforce, fun henabled => by
        by_contra hdone
        exact h ⟨hforce, henabled, hdone⟩⟩
    · exact fun h => h.1

/-- A session that has had its handoff turn is not granted another. -/
theorem record_of_handoffDone (r : SessionRecord) (rehydrated : Bool)
    (reason : Option RehydrationReason) (hdone : r.pressureHandoffDone = true) :
    (buildFollowUp cfg inp (some r) rehydrated reason).record = some r := by
  simp [buildFollowUp, decision, hdone]

end Decisions

end FollowUp
end Turns
end DiploidAgent
