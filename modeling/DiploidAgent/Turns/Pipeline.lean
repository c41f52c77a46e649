import Mathlib.Data.Finset.Dedup
import Mathlib.Data.List.MinMax
import DiploidAgent.Turns.FollowUp

/-!
# The turn pipeline

A turn of `turn/process.py` or `turn/dispatch.py` from the chosen prompt to the finished
record: `_call_engine` and `_finalize_turn` of `turn/pipeline.py`, with the recovery of
`turn/rehydrate.py`.  What the engine and the plugins answer at each point where the turn
asks them is given in advance.

The gates before a turn, memory, metrics and the texts of notices are left out.
-/

namespace DiploidAgent
namespace Turns
namespace Pipeline

open FollowUp

/-! ### The engine -/

/-- What an engine call raises, as `is_transport_error`, `is_stale_session_error` and
`is_acp_error` tell it apart; `runtime` is any other `RuntimeError`, and `other` is neither
a `RuntimeError` nor a `TimeoutError`. -/
inductive Failure where
  | timeout
  | transport
  | stale
  | acp
  | runtime
  | other
deriving DecidableEq

structure TurnResult where
  reply : String
  sessionId : Option String
  model : Option String := none
  stopReason : Option String := none
  cancelled : Bool := false
  isPartial : Bool := false
deriving DecidableEq

/-- The parts of a `ChatResult` that a turn reads or gives back itself. -/
structure ChatResult where
  reply : String
  sessionId : Option String := none
deriving DecidableEq

/-- An id that is not `None` and not empty. -/
def truthy (id : Option String) : Bool :=
  match id with
  | some s => s ≠ ""
  | none => false

/-- `a or b` of two ids. -/
def orId (a b : Option String) : Option String := if truthy a then a else b

/-- A prompt on its way: the session it goes to, or none when one is created for it. -/
structure Send where
  target : Option String
  prompt : PromptContext
deriving DecidableEq

/-- `EngineCallContext`. -/
structure EngineCallContext where
  request : PromptContext
  sessionId : Option String

/-- `EngineResultContext`. -/
structure EngineResultContext where
  result : TurnResult
  reply : String
  stopReason : Option String

/-- The answers of the engine in one `_rehydrate`. -/
structure Recovery where
  /-- whether `engine.restart` succeeds before anything else -/
  restart : Bool := true
  resume : Except Failure String
  resumePrompt : Except Failure TurnResult
  alive : Bool := false
  alivePrompt : Except Failure TurnResult
  create : Except Failure TurnResult
  /-- whether `engine.restart` succeeds between the two attempts -/
  restartAgain : Bool := true
  createAgain : Except Failure TurnResult
  followUp : PromptInputs
  first : PromptContext

/-- What the engine and the plugins answer during one turn. -/
structure Answers where
  beforeEngineCall : EngineCallContext → ChatResult ⊕ EngineCallContext := Sum.inr
  resync : Except Failure String
  prompt : Except Failure TurnResult
  afterEngineCall : EngineResultContext → EngineResultContext := id
  onFailure : Recovery
  onEmpty : Recovery

/-- The settings of `config.engine` and `config.harness` that a turn reads. -/
structure Settings extends Config where
  acpResumeEnabled : Bool := true
  acpTimeoutAutoResend : Bool := false

/-! ### Rehydration -/

/-- `_can_resume_record`; the skills are compared sorted. -/
def canResumeRecord (record : Option SessionRecord) (activeSkills : List String) : Bool :=
  match record with
  | none => false
  | some r =>
      if ¬ truthy r.sessionId then false
      else if r.lastStopReason = some "timeout" then false
      else
        match r.enabledSkills with
        | none => true
        | some skills => skills.isPerm activeSkills

/-- `_start_new_session`: a result without an id is an ACP error. -/
def startNewSession (answer : Except Failure TurnResult) :
    Except Failure (TurnResult × String) :=
  match answer with
  | .error f => .error f
  | .ok r =>
      match r.sessionId with
      | none => .error .acp
      | some id => .ok (r, id)

/-- How `_rehydrate` ends: with a result, with a text for the user in place of one, the
old record marked with an error or not, or with an exception. -/
inductive Rehydrated where
  | result (r : TurnResult) (sessionId : String) (prompt : PromptContext)
  | gaveUp (errored : Bool)
  | raised (f : Failure)

/-- The second attempt at a new session. -/
def rehydrateAgain (rec : Recovery) : Rehydrated :=
  match startNewSession rec.createAgain with
  | .ok (r, id) => .result r id rec.first
  | .error .other => .raised .other
  | .error .acp => .gaveUp true
  | .error _ => .gaveUp true

/-- The two attempts at a new session that end `_rehydrate`. -/
def rehydrateNew (rec : Recovery) : List Send × Rehydrated :=
  let send : Send :=
    { target := none
      prompt := rec.first }
  match startNewSession rec.create with
  | .ok (r, id) => ([send], .result r id rec.first)
  | .error .other => ([send], .raised .other)
  | .error .acp => ([send], .gaveUp true)
  | .error _ =>
      if rec.restartAgain then ([send, send], rehydrateAgain rec)
      else ([send], .gaveUp true)

/-- What remains of `_rehydrate` after the attempt to resume: the probe of the old session,
unless it was resumed, and then a new one. -/
def rehydrateProbe (cfg : Settings) (record : Option SessionRecord) (canResume resumed : Bool)
    (rec : Recovery) : List Send × Rehydrated :=
  match record.bind (·.sessionId) with
  | some old =>
      if canResume ∧ ¬ resumed ∧ rec.alive then
        let pctx :=
          (buildFollowUp cfg.toConfig rec.followUp record true (some .resumed)).prompt
        let send : Send :=
          { target := some old
            prompt := pctx }
        match rec.alivePrompt with
        | .ok r => ([send], .result r old pctx)
        | .error f => ([send], .raised f)
      else rehydrateNew rec
  | none => rehydrateNew rec

/-- `_rehydrate`. -/
def rehydrate (cfg : Settings) (record : Option SessionRecord) (activeSkills : List String)
    (restartFirst allowResume : Bool) (rec : Recovery) : List Send × Rehydrated :=
  if restartFirst ∧ ¬ rec.restart then ([], .gaveUp false)
  else
    let canResume := allowResume && canResumeRecord record activeSkills
    if cfg.acpResumeEnabled ∧ canResume then
      match rec.resume with
      | .error .other => ([], .raised .other)
      | .error _ => rehydrateProbe cfg record canResume false rec
      | .ok resumedId =>
          let pctx :=
            (buildFollowUp cfg.toConfig rec.followUp record true (some .resumed)).prompt
          let send : Send :=
            { target := some resumedId
              prompt := pctx }
          match rec.resumePrompt with
          | .ok r => ([send], .result r resumedId pctx)
          | .error .other => ([send], .raised .other)
          | .error _ =>
              let (sent, ended) :=
                rehydrateProbe cfg record canResume (truthy (some resumedId)) rec
              (send :: sent, ended)
    else rehydrateProbe cfg record canResume false rec

/-! ### The engine call -/

/-- What a turn hands to `_call_engine` and `_finalize_turn`; the record is both the
record and the old record of their calls. -/
structure Begun where
  prompt : PromptContext
  useModel : String
  record : Option SessionRecord
  isNew : Bool
  forceNewSession : Bool
  sessionResync : Bool
  sessionNumber : Nat
  turnNumber : Nat
  activeSkills : List String

namespace Begun

/-- The turn is to cross a session boundary. -/
def starts (b : Begun) : Bool := b.isNew || b.forceNewSession

/-- The id of the old record's session. -/
def oldId (b : Begun) : Option String := b.record.bind (·.sessionId)

/-- What `before_engine_call` is shown. -/
def callContext (b : Begun) : EngineCallContext :=
  { request := b.prompt
    sessionId := if b.starts then none else b.oldId }

end Begun

/-- How the first try ends: with a result, its session id, and the session that served it,
or with a failure, `resync_failed` or not. -/
inductive Tried where
  | ok (r : TurnResult) (sessionId served : Option String)
  | failed (f : Failure) (resyncFailed : Bool)

/-- `after_engine_call` of an engine's result. -/
def afterEngine (a : Answers) (r : TurnResult) : TurnResult :=
  let ctx := a.afterEngineCall {
    result := r
    reply := r.reply
    stopReason := r.stopReason }
  { ctx.result with
    reply := ctx.reply
    stopReason := ctx.stopReason }

/-- `after_engine_call` of a plugin's answer, of which only the result is read back. -/
def afterAnswer (a : Answers) (r : TurnResult) : TurnResult :=
  (a.afterEngineCall {
    result := r
    reply := r.reply
    stopReason := r.stopReason }).result

/-- `engine.prompt` and what follows it; `idOf` is the session id before the hook.  The
prompt is served by the session it was sent to, or by the one made for it. -/
def askEngine (a : Answers) (send : Send) (idOf : TurnResult → Option String) :
    Option Send × Tried :=
  match a.prompt with
  | .error f => (some send, .failed f false)
  | .ok r =>
      let r' := afterEngine a r
      let served := if send.target.isSome then send.target else r.sessionId
      (some send, .ok r' (orId r'.sessionId (idOf r)) served)

/-- The session id that a follow-up prompt's result stands for. -/
def followUpId (b : Begun) (r : TurnResult) : Option String := orId r.sessionId b.oldId

/-- MCP drift on the session that a follow-up prompt goes to. -/
def resyncs (b : Begun) (ctx : EngineCallContext) : Bool :=
  b.sessionResync && truthy b.oldId && decide (ctx.sessionId = none ∨ ctx.sessionId = b.oldId)

/-- The engine call, when no plugin answered in its place. -/
def callPassed (b : Begun) (a : Answers) (ctx : EngineCallContext) : Option Send × Tried :=
  if b.starts then
    askEngine a {
      target := none
      prompt := ctx.request } (·.sessionId)
  else if resyncs b ctx then
    match a.resync with
    | .error .timeout => (none, .failed .stale true)
    | .error .transport => (none, .failed .stale true)
    | .error .other => (none, .failed .other false)
    | .error f => (none, .failed f true)
    | .ok resumedId =>
        askEngine a {
          target := orId ctx.sessionId (orId (some resumedId) b.oldId)
          prompt := ctx.request } (followUpId b)
  else
    askEngine a {
      target := orId ctx.sessionId b.oldId
      prompt := ctx.request } (followUpId b)

/-- A plugin's answer as a result of the engine. -/
def resultOf (cr : ChatResult) : TurnResult :=
  { reply := cr.reply
    sessionId := cr.sessionId }

/-- The body of the `try` of `_call_engine`. -/
def firstTry (b : Begun) (a : Answers) : Option Send × Tried :=
  match a.beforeEngineCall b.callContext with
  | .inl cr =>
      let r := afterAnswer a (resultOf cr)
      (none, .ok r (orId r.sessionId none) (orId cr.sessionId b.oldId))
  | .inr ctx => callPassed b a ctx

/-- `EngineCallOutcome`, with the session that served the turn. -/
structure EngineCallOutcome where
  result : TurnResult
  sessionId : Option String
  useModel : String
  isNew : Bool
  served : Option String

inductive Ended where
  | outcome (o : EngineCallOutcome)
  | gaveUp (errored : Bool)
  | raised (f : Failure)

/-- What an engine call leaves: the turn's own prompt, where it was sent, what the
recovery sent, and how it ended. -/
structure Called where
  sent : Option Send
  recovery : List Send
  ended : Ended

/-- The outcome after a rehydration that came back with a result. -/
def recovered (b : Begun) (useModel : String) (r : TurnResult) (id : String)
    (pctx : PromptContext) : EngineCallOutcome :=
  { result := r
    sessionId := some id
    useModel := (pctx.model.filter (· ≠ "")).getD useModel
    isNew := some id ≠ b.oldId
    served := some id }

/-- The turn's own result is genuinely empty. -/
def isEmpty (r : TurnResult) : Bool := r.reply = "" && !r.isPartial

/-- The rehydration of an empty reply. -/
def afterEmpty (cfg : Settings) (b : Begun) (a : Answers) (sent : Option Send)
    (recovery : List Send) (o : EngineCallOutcome) : Called :=
  if isEmpty o.result then
    let (more, ended) :=
      rehydrate cfg b.record b.activeSkills false
        (!b.starts && o.sessionId = b.oldId) a.onEmpty
    { sent := sent
      recovery := recovery ++ more
      ended :=
        match ended with
        | .result r id pctx => .outcome (recovered b o.useModel r id pctx)
        | .gaveUp errored => .gaveUp errored
        | .raised f => .raised f }
  else
    { sent := sent
      recovery := recovery
      ended := .outcome o }

/-- What is worth a rehydration, and whether the transport is restarted first. -/
def rehydrates : Failure → Option Bool
  | .timeout => some true
  | .transport => some true
  | .stale => some false
  | .acp => none
  | .runtime => none
  | .other => none

/-- The handler of a failure: a rehydration, a text for the user, or the exception. -/
def afterFailure (cfg : Settings) (b : Begun) (a : Answers) (sent : Option Send)
    (f : Failure) (resyncFailed : Bool) : Called :=
  match rehydrates f with
  | some restartFirst =>
      let (recovery, ended) :=
        rehydrate cfg b.record b.activeSkills restartFirst
          (!b.starts && !resyncFailed) a.onFailure
      match ended with
      | .result r id pctx =>
          afterEmpty cfg b a sent recovery (recovered b b.useModel r id pctx)
      | .gaveUp errored =>
          { sent := sent
            recovery := recovery
            ended := .gaveUp errored }
      | .raised f =>
          { sent := sent
            recovery := recovery
            ended := .raised f }
  | none =>
      { sent := sent
        recovery := []
        ended :=
          match f with
          | .acp => .gaveUp true
          | .runtime => .gaveUp false
          | f => .raised f }

/-- `_call_engine`. -/
def callEngine (cfg : Settings) (b : Begun) (a : Answers) : Called :=
  match firstTry b a with
  | (sent, .ok r sessionId served) =>
      afterEmpty cfg b a sent [] {
        result := r
        sessionId := sessionId
        useModel := b.useModel
        isNew := b.isNew
        served := served }
  | (sent, .failed f resyncFailed) => afterFailure cfg b a sent f resyncFailed

/-! ### The record -/

/-- The sessions of a chat. -/
structure ChatState where
  sessions : Dict Nat SessionRecord
  nextSessionNumber : Nat

/-- The order of `updated_at`; with more of the library in scope another instance, which
does not compute, would be found. -/
local instance updatedAtOrder : Preorder Int := Int.instLinearOrder.toPreorder

/-- `active_record`: the record that was updated last. -/
def activeRecord (chat : ChatState) : Option SessionRecord :=
  chat.sessions.values.argmax (·.updatedAt)

/-- A record with a reserved turn number. -/
def reserved (r : SessionRecord) : SessionRecord :=
  { r with pendingTurnNumber := some r.reservedTurnNumber }

/-- The record in its place. -/
def put (chat : ChatState) (r : SessionRecord) : ChatState :=
  { chat with sessions := chat.sessions.set r.sessionNumber r }

/-- What `_finalize_turn` is told besides the outcome: the clock, the chat, and whether
the turn was stopped. -/
structure Finish where
  chatId : String
  now : Int
  stopped : Bool := false

/-- `last_stop_reason` of a finished turn. -/
def stopReasonOf (fin : Finish) (r : TurnResult) : String :=
  if ¬ r.isPartial then "completed"
  else if fin.stopped then "stopped"
  else if r.cancelled then "cancelled"
  else
    match r.stopReason.filter (· ≠ "") with
    | some reason => reason
    | none => "timeout"

/-- `record_is_new`. -/
def recordIsNew (b : Begun) (o : EngineCallOutcome) : Bool := o.isNew || b.forceNewSession

/-- The turn's number is consumed and its time and end are recorded. -/
def closed (fin : Finish) (o : EngineCallOutcome) (r : SessionRecord) : SessionRecord :=
  { r with
    turnNumber := r.nextTurnNumber
    pendingTurnNumber := none
    updatedAt := fin.now
    lastStopReason := some (stopReasonOf fin o.result) }

/-- The model that is recorded. -/
def effectiveModel (o : EngineCallOutcome) : String :=
  (o.result.model.filter (· ≠ "")).getD o.useModel

/-- The record that `_create_record` makes, with the reserved number. -/
def createRecord (b : Begun) (o : EngineCallOutcome) (fin : Finish) (number : Nat) :
    SessionRecord :=
  { chatId := fin.chatId
    sessionNumber := number
    updatedAt := fin.now
    turnNumber := 0
    pendingTurnNumber := some b.turnNumber
    sessionId := o.sessionId
    model := effectiveModel o
    enabledSkills := some b.activeSkills }

/-- `_finalize_turn`: a new record, or the old one with the session and the model of the
turn. -/
def finalizeTurn (chat : ChatState) (b : Begun) (o : EngineCallOutcome) (fin : Finish) :
    ChatState :=
  if recordIsNew b o then
    if o.isNew then put chat (closed fin o (createRecord b o fin b.sessionNumber))
    else
      put { chat with nextSessionNumber := chat.nextSessionNumber + 1 }
        (closed fin o (createRecord b o fin chat.nextSessionNumber))
  else
    match b.record with
    | none => chat
    | some r =>
        put chat (closed fin o {
          r with
          enabledSkills := some b.activeSkills
          sessionId := o.sessionId
          model := effectiveModel o })

/-! ### The turns -/

/-- What a turn starts from besides the chat: the models, the active skills, the message,
and what plugins and `build_first` made of them. -/
structure TurnInputs where
  currentModel : String
  useModel : String
  activeSkills : List String
  isContinuationMessage : Bool := false
  mcpChanged : Bool := false
  prompt : PromptInputs
  first : PromptContext

/-- A model that `build_*` gave, or the one before. -/
def orModel (m : Option String) (fallback : String) : String :=
  (m.filter (· ≠ "")).getD fallback

/-- The number that a turn reserves on the record, which is put back. -/
def reserveOn (chat : ChatState) (record : Option SessionRecord) : ChatState × Nat :=
  match record with
  | some r => (put chat (reserved r), r.reservedTurnNumber)
  | none => (chat, 1)

/-- `process` up to the engine call; none where it waits for a confirmation. -/
def process (cfg : Settings) (inp : TurnInputs) (chat : ChatState) :
    Option (ChatState × Begun) :=
  let record := activeRecord chat
  let hardTimeoutBefore := record.bind (·.lastStopReason) = some "timeout"
  let modelChanged := record.isSome ∧ inp.useModel ≠ inp.currentModel
  let previous := ((record.bind (·.enabledSkills)).getD []).toFinset
  let skillsChanged := record.isSome ∧ previous ≠ inp.activeSkills.toFinset
  if hardTimeoutBefore ∧ ¬ cfg.acpTimeoutAutoResend ∧ ¬ inp.isContinuationMessage then none
  else if record.isNone ∨ modelChanged ∨ hardTimeoutBefore ∨ skillsChanged then
    let (chat', turnNumber) :=
      reserveOn { chat with nextSessionNumber := chat.nextSessionNumber + 1 } record
    some (chat', {
      prompt := inp.first
      useModel := orModel inp.first.model inp.useModel
      record := record.map reserved
      isNew := true
      forceNewSession := false
      sessionResync := inp.mcpChanged && cfg.acpResumeEnabled
      sessionNumber := chat.nextSessionNumber
      turnNumber := turnNumber
      activeSkills := inp.activeSkills })
  else
    let built := buildFollowUp cfg.toConfig inp.prompt record false none
    let (chat', turnNumber) := reserveOn chat built.record
    some (chat', {
      prompt := built.prompt
      useModel := orModel built.prompt.model inp.useModel
      record := built.record.map reserved
      isNew := false
      forceNewSession := built.prompt.forceNewSession
      sessionResync := inp.mcpChanged && cfg.acpResumeEnabled
      sessionNumber := (record.map (·.sessionNumber)).getD 0
      turnNumber := turnNumber
      activeSkills := inp.activeSkills })

/-- `continue_turn` up to the engine call; none without an active session.  The engine
call and the record are told `force_new_session=False` whatever the prompt asks. -/
def continueTurn (cfg : Settings) (inp : TurnInputs) (chat : ChatState) :
    Option (ChatState × Begun) :=
  match activeRecord chat with
  | none => none
  | some record =>
      let built := buildFollowUp cfg.toConfig inp.prompt (some record) false none
      let (chat', turnNumber) := reserveOn chat built.record
      some (chat', {
        prompt := built.prompt
        useModel := orModel built.prompt.model inp.useModel
        record := built.record.map reserved
        isNew := false
        forceNewSession := false
        sessionResync := inp.mcpChanged && cfg.acpResumeEnabled &&
          decide (record.lastStopReason ≠ some "timeout")
        sessionNumber := record.sessionNumber
        turnNumber := turnNumber
        activeSkills := inp.activeSkills })

/-- The paths of a turn: a user's message, a wake, or the continuation of a dispatch. -/
inductive Path where
  | user
  | wake
  | continuation
deriving DecidableEq

/-- A turn up to the engine call. -/
def beginTurn (cfg : Settings) (path : Path) (inp : TurnInputs) (chat : ChatState) :
    Option (ChatState × Begun) :=
  match path with
  | .user => process cfg inp chat
  | .wake => process cfg inp chat
  | .continuation => continueTurn cfg inp chat

/-- The chat after a turn whose engine call came back with an outcome. -/
def finished (cfg : Settings) (chat : ChatState) (b : Begun) (a : Answers) (fin : Finish) :
    Option (EngineCallOutcome × ChatState) :=
  match (callEngine cfg b a).ended with
  | .outcome o => some (o, finalizeTurn chat b o fin)
  | .gaveUp _ => none
  | .raised _ => none

/-! ### How a turn begins -/

/-- The old session's id does not depend on what a turn writes on the record first. -/
def activeId (chat : ChatState) : Option String := (activeRecord chat).bind (·.sessionId)

/-- The prompt that `build_follow_up` gives a turn asks for a new session. -/
def asksForNewSession (cfg : Settings) (inp : TurnInputs) (chat : ChatState) : Bool :=
  (buildFollowUp cfg.toConfig inp.prompt (activeRecord chat) false none).prompt.forceNewSession

/-- A turn that starts a session: it has a number of its own. -/
structure StartsSession (path : Path) (chat chat' : ChatState) (b : Begun) : Prop where
  path : path ≠ .continuation
  isNew : b.isNew = true
  force : b.forceNewSession = false
  number : b.sessionNumber = chat.nextSessionNumber
  oldId : b.oldId = activeId chat
  record : b.record = (activeRecord chat).map reserved
  chat : chat' =
    (reserveOn { chat with nextSessionNumber := chat.nextSessionNumber + 1 }
      (activeRecord chat)).1

/-- A turn that follows up on the active record. -/
structure FollowsUp (cfg : Settings) (path : Path) (inp : TurnInputs) (chat chat' : ChatState)
    (b : Begun) (r : SessionRecord) : Prop where
  active : activeRecord chat = some r
  isNew : b.isNew = false
  asks : b.prompt.forceNewSession = asksForNewSession cfg inp chat
  force : b.forceNewSession = (decide (path ≠ .continuation) && asksForNewSession cfg inp chat)
  number : b.sessionNumber = r.sessionNumber
  oldId : b.oldId = r.sessionId
  record : ∃ r', b.record = some r' ∧ r'.sessionNumber = r.sessionNumber ∧
    r'.updatedAt = r.updatedAt ∧ chat' = put chat r'

section Begins

variable {cfg : Settings} {path : Path} {inp : TurnInputs} {chat chat' : ChatState}
  {b : Begun}

@[simp] theorem sessionId_reserved (r : SessionRecord) :
    (reserved r).sessionId = r.sessionId := rfl

@[simp] theorem sessionNumber_reserved (r : SessionRecord) :
    (reserved r).sessionNumber = r.sessionNumber := rfl

@[simp] theorem updatedAt_reserved (r : SessionRecord) :
    (reserved r).updatedAt = r.updatedAt := rfl

/-- The record that `build_follow_up` leaves, but for the mark of the handoff turn. -/
theorem record_buildFollowUp (r : SessionRecord) (rehydrated : Bool)
    (reason : Option RehydrationReason) :
    ∃ r', (buildFollowUp cfg.toConfig inp.prompt (some r) rehydrated reason).record = some r' ∧
      r'.sessionId = r.sessionId ∧ r'.sessionNumber = r.sessionNumber ∧
        r'.updatedAt = r.updatedAt := by
  dsimp only [buildFollowUp]
  split
  · exact ⟨_, rfl, rfl, rfl, rfl⟩
  · exact ⟨r, rfl, rfl, rfl, rfl⟩

theorem begins_process
    (hpath : path ≠ .continuation)
    (h : process cfg inp chat = some (chat', b)) :
    StartsSession path chat chat' b ∨ ∃ r, FollowsUp cfg path inp chat chat' b r := by
  dsimp only [process] at h
  split at h
  · cases h
  · split at h
    · cases h
      refine Or.inl ⟨hpath, rfl, rfl, rfl, ?_, rfl, rfl⟩
      cases hactive : activeRecord chat <;> simp [Begun.oldId, activeId, hactive]
    · rename_i hfollow
      cases hactive : activeRecord chat with
      | none => simp [hactive] at hfollow
      | some r =>
          obtain ⟨r', hrecord, hid, hnumber, htime⟩ :=
            @record_buildFollowUp cfg inp r false none
          rw [hactive] at h
          cases h
          refine Or.inr ⟨r, hactive, rfl, ?_, ?_, rfl, ?_, reserved r', ?_, hnumber, htime, ?_⟩
          · rw [asksForNewSession, hactive]
          · rw [asksForNewSession, hactive, decide_eq_true hpath, Bool.true_and]
          · simp [Begun.oldId, hrecord, hid]
          · simp [hrecord]
          · simp [reserveOn, hrecord]

theorem begins_continueTurn
    (h : continueTurn cfg inp chat = some (chat', b)) :
    ∃ r, FollowsUp cfg .continuation inp chat chat' b r := by
  cases hactive : activeRecord chat with
  | none => simp [continueTurn, hactive] at h
  | some r =>
      obtain ⟨r', hrecord, hid, hnumber, htime⟩ :=
        @record_buildFollowUp cfg inp r false none
      simp only [continueTurn, hactive] at h
      cases h
      refine ⟨r, hactive, rfl, ?_, rfl, rfl, ?_, reserved r', ?_, hnumber, htime, ?_⟩
      · rw [asksForNewSession, hactive]
      · simp [Begun.oldId, hrecord, hid]
      · simp [hrecord]
      · simp [reserveOn, hrecord]

/-- A turn starts a session or follows up on one. -/
theorem begins
    (h : beginTurn cfg path inp chat = some (chat', b)) :
    StartsSession path chat chat' b ∨ ∃ r, FollowsUp cfg path inp chat chat' b r := by
  cases path with
  | user => exact begins_process (by decide) h
  | wake => exact begins_process (by decide) h
  | continuation => exact Or.inr (begins_continueTurn h)

end Begins

end Pipeline
end Turns
end DiploidAgent
