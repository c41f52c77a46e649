import DiploidAgent.Runtime.WakeQueue

/-!
# The gates between a wake and its turn

`wake` and `continue_turn` of `runtime/ingress.py`, `process` of
`turn/process.py`, `continue_turn` of `turn/dispatch.py` and `run_session_op` of
`turn/controller.py`, up to the engine call.  Whatever other threads, plugins
and the engine contribute is a field of `Gates`, read where the code reads it.

The code only returns a `ChatResult`.  `Outcome` also keeps where it came from:
from a gate that turned the message away, from a path that answers without a
turn, or from the turn itself.
-/

namespace DiploidAgent
namespace Wake

/-- `ChatResult` of `models.py`. -/
structure ChatResult where
  reply : String
  notice : Option String := none
  sessionId : Option String := none
  sessionNumber : Option Nat := none
  turnNumber : Option Nat := none
deriving DecidableEq, Repr

/-- The fields of `SessionRecord` that the gates read. -/
structure SessionRecord where
  sessionId : String
  sessionNumber : Nat
  turnNumber : Nat
  lastStopReason : Option String

inductive DispatchStatus where
  | pending | completed | failed | timeout | cancelled
deriving DecidableEq, Repr

/-- The fields of `Dispatch` that are read before the engine call. -/
structure Dispatch where
  status : DispatchStatus
  result : Option String

/-- `resolve_model`. -/
structure Route where
  budgetExceeded : Bool
  notice : Option String

/-- What the plugins' `before_turn` comes back with. -/
inductive Hook where
  | raised
  | vetoed (r : ChatResult)
  | passed (userMessage : String)

/-- What the rest of the turn comes back with: the prompt, the engine call and the
recording. -/
inductive EngineRun where
  | raised
  | early (r : ChatResult)
  | finished (r : ChatResult) (turnNumber : Nat)

/-- The operations `run_session_op` knows. -/
inductive SessionOp where
  | new (model : Option Json)
  | switchModel (model : Json) (inPlace : Bool)
  | resume (sessionNumber : Json)
  | branch (sessionNumber : Json)

/-- Settings, and the texts that the prompt builders make of a payload. -/
structure Config where
  retryAfterSeconds : Int
  wakerRetryAfter : Int
  outboxDelivery : Bool
  acpTimeoutAutoResend : Bool
  continuationTriggers : List String
  normalizeTrigger : String → String
  continueWord : String
  planTaskUpdateMessage : Payload → Option String
  planCompletedMessage : Payload → Option String
  dumps : Payload → String

/-- What one firing finds at each gate on its way; `none` for a call that can
raise is the exception. -/
structure Gates where
  chatFree : Bool
  dispatchAtWake : String → Option Dispatch
  dispatchAtIngress : String → Option Dispatch
  continueFree : Bool
  dispatchAtTurn : String → Option Dispatch
  resultStored : Json → Bool
  draining : Bool
  sessionOp : Bool
  activeTurn : Bool
  record : Option SessionRecord
  route : Option Route
  beforeTurn : String → Hook
  engine : String → EngineRun
  runOp : SessionOp → Option ChatResult
  now : Int

/-- How a wake came out. -/
inductive Outcome where
  | refused (r : ChatResult)
  | answered (r : ChatResult)
  | raised
  | ran (e : EngineRun)
  | opDone (delivered : Option ChatResult)

/-- The result of the engine, `none` when it raised. -/
def EngineRun.result : EngineRun → Option ChatResult
  | .raised => none
  | .early r => some r
  | .finished r turnNumber => some { r with turnNumber := some turnNumber }

/-- What the caller of `wake` sees: a result, or an exception. -/
def Outcome.result : Outcome → Option ChatResult
  | .refused r => some r
  | .answered r => some r
  | .raised => none
  | .ran e => e.result
  | .opDone _ => some { reply := "" }

namespace Json

/-- Python truth of a JSON value. -/
def truthy : Json → Bool
  | .null => false
  | .bool b => b
  | .num n => n != 0
  | .str s => s != ""
  | .arr xs => !xs.isEmpty
  | .obj fields => !fields.isEmpty

/-- The number that adding the value to a time adds; `none` is a `TypeError`. -/
def toNum : Json → Option Int
  | .num n => some n
  | .bool b => some (if b then 1 else 0)
  | _ => none

end Json

section Texts

def unknownWake : ChatResult := { reply := "Unknown or already completed wake event." }

def wakeBusy : ChatResult := { reply := "Chat is busy; wake re-enqueued." }

def otherInstance : ChatResult :=
  { reply := "Another instance is currently handling this chat." }

def unknownDispatch : ChatResult := { reply := "Unknown dispatch." }

def dispatchCompleted : ChatResult := { reply := "Dispatch already completed." }

def noActiveSession : ChatResult := { reply := "No active session for this chat." }

def draining : ChatResult :=
  { reply := "The service is draining for a restart; " ++
      "please send your message again in a moment."
    notice := some "Restart in progress; your turn was not started." }

def sessionOpBusy : ChatResult :=
  { reply := "A session operation is in progress for this chat."
    notice := some "Please retry in a moment." }

def turnBusy : ChatResult :=
  { reply := "A turn is already in progress for this chat."
    notice := some "Send /stop to cancel it, or wait for it to finish." }

def continuationDraining (dispatchId : String) : ChatResult :=
  { reply := "The service is draining for a restart; continuation deferred."
    notice := some ("dispatch:" ++ dispatchId) }

def continuationOpBusy (dispatchId : String) : ChatResult :=
  { reply := "A session operation is in progress for this chat."
    notice := some ("dispatch:" ++ dispatchId) }

def continuationTurnBusy (dispatchId : String) : ChatResult :=
  { reply := "A turn is already in progress; continuation queued."
    notice := some ("dispatch:" ++ dispatchId) }

/-- The budget notice of `route`. -/
def overBudget (route : Route) : ChatResult := { reply := "", notice := route.notice }

/-- The question after a hard timeout, under the number of the turn it asks
about. -/
def confirmation (cfg : Config) (record : SessionRecord) : ChatResult :=
  { reply := "The previous turn was interrupted by the hard time limit and did not " ++
      "complete. Reply `" ++ cfg.continueWord ++ "` to retry it, or send a new message to " ++
      "start fresh."
    notice := some "Waiting for confirmation before resending the interrupted turn."
    sessionId := some record.sessionId
    sessionNumber := some record.sessionNumber
    turnNumber := some record.turnNumber }

end Texts

/-- `is_continuation_message`. -/
def isContinuationMessage (cfg : Config) (userMessage : String) : Bool :=
  let normalized := cfg.normalizeTrigger userMessage
  normalized != "" && (cfg.continuationTriggers.map cfg.normalizeTrigger).contains normalized

/-- `process` asks before it resends a turn that the hard limit interrupted. -/
def awaitsConfirmation (cfg : Config) (record : SessionRecord) (userMessage : String) : Bool :=
  record.lastStopReason == some "timeout" && !cfg.acpTimeoutAutoResend &&
    !isContinuationMessage cfg userMessage

/-- The budget check and the plugins, which `process` and `continue_turn` pass in
the same way; `turn` goes on with the message the plugins leave. -/
def routeGate (g : Gates) (userMessage : String) (turn : String → Outcome) : Outcome :=
  match g.route with
  | none => .raised
  | some route =>
      if route.budgetExceeded then .answered (overBudget route)
      else
        match g.beforeTurn userMessage with
        | .raised => .raised
        | .vetoed r => .answered r
        | .passed message => turn message

/-- `process` after the plugins. -/
def processTurn (cfg : Config) (g : Gates) (message : String) : Outcome :=
  match g.record with
  | none => .ran (g.engine message)
  | some record =>
      if awaitsConfirmation cfg record message then .refused (confirmation cfg record)
      else .ran (g.engine message)

/-- `TurnProcess.process`. -/
def process (cfg : Config) (g : Gates) (userMessage : String) : Outcome :=
  if g.draining then .refused draining
  else if g.sessionOp then .refused sessionOpBusy
  else if g.activeTurn then .refused turnBusy
  else routeGate g userMessage (processTurn cfg g)

/-- `TurnDispatch.continue_turn`. -/
def continueDispatch (g : Gates) (dispatchId : String) (result : Json) : Outcome :=
  match g.dispatchAtTurn dispatchId with
  | none => .answered unknownDispatch
  | some dispatch =>
      if dispatch.status = .completed then .answered dispatchCompleted
      else if !g.resultStored result then .raised
      else if g.draining then .refused (continuationDraining dispatchId)
      else if g.sessionOp then .refused (continuationOpBusy dispatchId)
      else if g.activeTurn then .refused (continuationTurnBusy dispatchId)
      else
        match g.record with
        | none => .answered noActiveSession
        | some _ => routeGate g "Continue" fun message => .ran (g.engine message)

/-- The id of the wake that waits for a dispatch. -/
def dispatchWakeId (dispatchId : String) : String := "wake-" ++ dispatchId

/-- What `RuntimeIngress.continue_turn` does to the wake of its dispatch at the
end. -/
def settleDispatchWake (cfg : Config) (q : Queue) (wakeId : String) (now : Int) (out : Outcome) :
    Queue :=
  match out.result with
  | none => fail q wakeId cfg.wakerRetryAfter now
  | some r => if r.turnNumber.isSome then complete q wakeId else q

/-- `RuntimeIngress.continue_turn`. -/
def continueTurn (cfg : Config) (g : Gates) (q : Queue) (dispatchId : String) (result : Json) :
    Queue × Outcome :=
  match g.dispatchAtIngress dispatchId with
  | none => (q, .answered unknownDispatch)
  | some _ =>
      if !g.continueFree then (q, .refused otherInstance)
      else
        let wakeId := dispatchWakeId dispatchId
        let out := continueDispatch g dispatchId result
        (settleDispatchWake cfg (ready q wakeId g.now) wakeId g.now out, out)

/-- The operation a `session_op` payload asks for. -/
def sessionOpOf (payload : Payload) : Option SessionOp :=
  let model := payload.get "model"
  let sessionNumber := (payload.get "session_number").filter fun n =>
    match n with
    | .null => false
    | _ => true
  match payload.get "op" with
  | some (.str "new") => some (.new model)
  | some (.str "switch_model") =>
      (model.filter Json.truthy).map fun m =>
        .switchModel m ((payload.get "in_place").any Json.truthy)
  | some (.str "resume") => sessionNumber.map .resume
  | some (.str "branch") => sessionNumber.map .branch
  | _ => none

/-- `run_session_op`, with the delivery that `wake` makes of its result. -/
def runSessionOp (g : Gates) (payload : Payload) : Outcome :=
  if g.draining || g.activeTurn || g.sessionOp then .refused wakeBusy
  else
    match sessionOpOf payload with
    | none => .opDone none
    | some op =>
        match g.runOp op with
        | none => .raised
        | some r =>
            if r.reply = "A turn or session operation is in progress for this chat." ∨
                r.reply = wakeBusy.reply then .refused wakeBusy
            else .opDone (if r.reply ≠ "" ∨ r.notice.any (· ≠ "") then some r else none)

/-- The message of a wake; `none` is an exception of a prompt builder. -/
def userMessageOf (cfg : Config) (reason : String) (payload : Payload) : Option String :=
  if reason = "plan_task_update" then cfg.planTaskUpdateMessage payload
  else if reason = "plan_completed" then cfg.planCompletedMessage payload
  else
    match payload.get "user_message" with
    | some (.str s) => some s
    | _ =>
        some ("[system wake: " ++ reason ++ "]" ++
          if payload.entries = [] then "" else "\n" ++ cfg.dumps payload)

/-- `reason or "user_request"`. -/
def wakeReason (event : WakeEvent) : String :=
  if event.reason = "" then "user_request" else event.reason

/-- Where a wake goes once it holds the chat. -/
inductive Call where
  | raised
  | process (userMessage : String)
  | continueTurn (dispatchId : String) (result : Json)

/-- The tail of `wake`: a dispatch that is not completed is continued, every
other wake sends its message. -/
def callOf (cfg : Config) (g : Gates) (event : WakeEvent) : Call :=
  match userMessageOf cfg (wakeReason event) event.payload with
  | none => .raised
  | some userMessage =>
      if wakeReason event = "dispatch" then
        match event.payload.get "dispatch_id" with
        | some (.arr _) => .raised
        | some (.obj _) => .raised
        | some (.str dispatchId) =>
            match g.dispatchAtWake dispatchId with
            | none => .process userMessage
            | some dispatch =>
                if dispatch.status = .completed then .process userMessage
                else .continueTurn dispatchId
                  ((event.payload.get "result").getD (.str (dispatch.result.getD "")))
        | _ => .process userMessage
      else .process userMessage

/-- `RuntimeIngress.wake` for a queued event. -/
def wake (cfg : Config) (g : Gates) (q : Queue) (eventId : String) : Queue × Outcome :=
  match q.get eventId with
  | none => (q, .answered unknownWake)
  | some event =>
      if !g.chatFree then (q, .refused wakeBusy)
      else if wakeReason event = "session_op" then (q, runSessionOp g event.payload)
      else
        match callOf cfg g event with
        | .raised => (q, .raised)
        | .process userMessage => (q, process cfg g userMessage)
        | .continueTurn dispatchId result => continueTurn cfg g q dispatchId result

end Wake
end DiploidAgent
