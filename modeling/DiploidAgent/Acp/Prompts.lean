import DiploidAgent.Lib.Dict
import DiploidAgent.Lib.Runs

/-!
# Prompts and cancels on the ACP loop

A prompt registers itself under its session, waits for its response, for a cancel or for
a timeout, and takes its entries away when it returns.  A cancel that finds no prompt it
can cancel is remembered for its session.

A prompt that starts while a cancel is remembered returns before the part that cleans
up, whichever call the cancel was meant for; and the entry that a returning prompt takes
away is that of its session, not its own.  Every cancel hits the prompt it finds and
leaves no trace as long as no prompt starts with a remembered cancel and none returns
under the entry of another (`cancels_leave_no_trace`).
-/

namespace DiploidAgent
namespace Acp

open Runs

/-! ### Prompts -/

/-- The response of the server. -/
inductive Response where
  | error
  | result (stopReason : Option String)
deriving DecidableEq

structure PromptResult where
  reply : String
  stopReason : Option String
  cancelled : Bool
  timedOut : Bool
  isPartial : Bool
deriving DecidableEq

/-- How `_prompt` ends. -/
inductive Ending where
  | returned (result : PromptResult)
  | responseError
  | staleSession
  | sendError
deriving DecidableEq

/-- `_Prompt`, with the call it belongs to, how it ended, and the requests that
cancelled it. -/
structure Prompt where
  sessionId : String
  call : Nat
  cancelled : Bool
  timedOut : Bool
  cancelDone : Bool
  response : Option Response
  ending : Option Ending
  cancelledBy : List Nat
deriving DecidableEq

/-- A new prompt; the requests are those that are remembered for its session. -/
def Prompt.new (sessionId : String) (call : Nat) : Option (List Nat) → Prompt
  | none =>
      { sessionId := sessionId
        call := call
        cancelled := false
        timedOut := false
        cancelDone := false
        response := none
        ending := none
        cancelledBy := [] }
  | some requests =>
      { sessionId := sessionId
        call := call
        cancelled := true
        timedOut := false
        cancelDone := true
        response := none
        ending := some (.returned {
          reply := ""
          stopReason := none
          cancelled := true
          timedOut := false
          isPartial := true })
        cancelledBy := requests }

/-- Which way a prompt leaves: a response came, none came in the time that was left, the
request could not be sent, or the task was cancelled. -/
inductive Exit where
  | answered (reply : String)
  | unanswered (reply : String)
  | sendFailed
  | interrupted (reply : String)
deriving DecidableEq

/-- The result without a response. -/
def Prompt.timeoutResult (p : Prompt) (reply : String) : PromptResult :=
  { reply := reply
    stopReason := some "timeout"
    cancelled := p.cancelled
    timedOut := true
    isPartial := true }

/-- The result of a response. -/
def Prompt.answer (p : Prompt) (reply : String) (stopReason : Option String) : Ending :=
  if stopReason = none ∧ reply = "" then .staleSession
  else
    let stoppedEarly := stopReason = some "cancelled" ∨ stopReason = some "timeout"
    .returned {
      reply := reply
      stopReason := stopReason
      cancelled := p.cancelled
      timedOut := p.timedOut || stopReason = some "timeout"
      isPartial := p.cancelled || stoppedEarly || p.timedOut }

/-- How a prompt ends that leaves this way, if it can. -/
def Prompt.leave (p : Prompt) : Exit → Option Ending
  | .answered reply => p.response.map fun
      | .error => .responseError
      | .result stopReason => p.answer reply stopReason
  | .unanswered reply =>
      if p.response = none then some (.returned (p.timeoutResult reply)) else none
  | .sendFailed => some .sendError
  | .interrupted reply => some (.returned (p.timeoutResult reply))

/-! ### The loop -/

/-- What a cancel finds when it runs: the prompt in flight under its session, and the
calls for the session whose prompt has not started. -/
structure Request where
  prompt : Option Nat
  calls : List Nat
deriving DecidableEq

/-- The prompts by id, `_active_prompts`, `_pending`, `_pending_cancels` with the
requests that put the session there, the calls whose prompt has not started, the cancels
that ran, the sessions that the server was told to cancel, the prompts that left an entry
behind, and those whose entry another one took away. -/
structure State where
  nextId : Nat
  prompts : Dict Nat Prompt
  activePrompts : Dict String Nat
  pending : List Nat
  pendingCancels : Dict String (List Nat)
  nextCall : Nat
  waiting : Dict Nat String
  requests : List Request
  notified : List String
  traces : List Nat
  robbed : List Nat

def initial : State :=
  { nextId := 0
    prompts := Dict.empty
    activePrompts := Dict.empty
    pending := []
    pendingCancels := Dict.empty
    nextCall := 0
    waiting := Dict.empty
    requests := []
    notified := []
    traces := []
    robbed := [] }

namespace State

/-- The prompt has not returned. -/
def inFlight (s : State) (id : Nat) : Bool :=
  (s.prompts.get id).any fun p => p.ending.isNone

/-- A prompt returns; it leaves a trace when its session or its id is still registered. -/
def noteReturn (s : State) (id : Nat) (sessionId : String) : State :=
  if s.activePrompts.get sessionId = none ∧ id ∉ s.pending then s
  else { s with traces := s.traces ++ [id] }

end State

/-- The start of `_prompt`, up to its first wait. -/
def start (s : State) (call : Nat) (sessionId : String) : State :=
  let id := s.nextId + 1
  let s' : State :=
    { s with
      nextId := id
      waiting := s.waiting.erase call
      prompts := s.prompts.set id (.new sessionId call (s.pendingCancels.get sessionId))
      activePrompts := s.activePrompts.set sessionId id
      pending := s.pending ++ [id] }
  match s.pendingCancels.get sessionId with
  | none => s'
  | some _ =>
      -- The return of a prompt that was cancelled before it started.
      State.noteReturn { s' with
        pendingCancels := s.pendingCancels.erase sessionId
        notified := s.notified ++ [sessionId] } id sessionId

/-- What a cancel finds. -/
def findRequest (s : State) (sessionId : String) : Request :=
  { prompt := (s.activePrompts.get sessionId).filter s.inFlight
    calls := (s.waiting.entries.filter fun e => e.2 == sessionId).map Prod.fst }

/-- `_pending_cancels` with the session in it. -/
def remember (s : State) (sessionId : String) : Dict String (List Nat) :=
  s.pendingCancels.set sessionId
    ((s.pendingCancels.get sessionId).getD [] ++ [s.requests.length])

/-- `_do_cancel`. -/
def doCancel (s : State) (sessionId : String) : State :=
  match (s.activePrompts.get sessionId).bind fun id => (s.prompts.get id).map fun p => (id, p) with
  | none =>
      { s with
        requests := s.requests ++ [findRequest s sessionId]
        pendingCancels := remember s sessionId }
  | some (id, p) =>
      if p.cancelDone || p.cancelled then
        { s with
          requests := s.requests ++ [findRequest s sessionId]
          pendingCancels := remember s sessionId
          prompts := s.prompts.set id { p with
            cancelled := true
            cancelledBy := p.cancelledBy ++ [s.requests.length] } }
      else
        { s with
          requests := s.requests ++ [findRequest s sessionId]
          pendingCancels := s.pendingCancels.erase sessionId
          prompts := s.prompts.set id { p with
            cancelled := true
            cancelDone := true
            cancelledBy := p.cancelledBy ++ [s.requests.length] }
          notified := s.notified ++ [sessionId] }

/-- The `finally` of `_prompt`. -/
def finish (s : State) (id : Nat) (p : Prompt) (ending : Ending) : State :=
  let other := (s.activePrompts.get p.sessionId).filter (· ≠ id)
  State.noteReturn { s with
    prompts := s.prompts.set id { p with ending := some ending }
    activePrompts := s.activePrompts.erase p.sessionId
    pending := s.pending.filter (· ≠ id)
    robbed := s.robbed ++ other.toList } id p.sessionId

/-- A call begins; its prompt starts on the loop; a response is read; the soft timeout of
a prompt fires; a cancel runs; a prompt returns or raises. -/
inductive Op where
  | call (sessionId : String)
  | start (call : Nat)
  | respond (id : Nat) (response : Response)
  | softTimeout (id : Nat)
  | cancel (sessionId : String)
  | finish (id : Nat) (exit : Exit)
deriving DecidableEq

def step (s : State) : Op → Option State
  | .call sessionId =>
      some { s with
        nextCall := s.nextCall + 1
        waiting := s.waiting.set s.nextCall sessionId }
  | .start call => (s.waiting.get call).map (start s call)
  | .respond id response =>
      if id ∈ s.pending then
        (s.prompts.get id).map fun p =>
          { s with
            pending := s.pending.filter (· ≠ id)
            prompts := s.prompts.set id { p with response := p.response.or (some response) } }
      else none
  | .softTimeout id =>
      (s.prompts.get id).bind fun p =>
        if p.ending = none ∧ p.response = none ∧ p.cancelDone = false then
          some { s with
            prompts := s.prompts.set id { p with
              timedOut := true
              cancelDone := true }
            notified := s.notified ++ [p.sessionId] }
        else none
  | .cancel sessionId => some (doCancel s sessionId)
  | .finish id exit =>
      (s.prompts.get id).bind fun p =>
        if p.ending = none then (p.leave exit).map (finish s id p) else none

/-! ### What is claimed -/

/-- A request may have cancelled a prompt that was in flight when it ran, or, where none
was, the prompt of a call that was waiting. -/
def Meant (s : State) (request id : Nat) (p : Prompt) : Prop :=
  ∃ r, s.requests[request]? = some r ∧
    (r.prompt = some id ∨ r.prompt = none ∧ p.call ∈ r.calls)

structure Traceless (s : State) : Prop where
  hits : ∀ id p, s.prompts.get id = some p → ∀ request ∈ p.cancelledBy, Meant s request id p
  traces : s.traces = []
  robbed : s.robbed = []

/-- No prompt starts while a cancel is remembered for its session; no prompt returns
while another one is registered under its session. -/
def Regular (s : State) : Op → Prop
  | .start call => ∀ sessionId ∈ s.waiting.get call, s.pendingCancels.get sessionId = none
  | .finish id _ => ∀ p ∈ s.prompts.get id, ∀ other ∈ s.activePrompts.get p.sessionId, other = id
  | _ => True

instance (s : State) (op : Op) : Decidable (Regular s op) := by
  cases op <;> unfold Regular <;> infer_instance

/-! ### What every step keeps -/

/-- The ids in use have been given out, and a prompt is registered under its session. -/
structure Registered (s : State) : Prop where
  known : ∀ id p, s.prompts.get id = some p → id ≤ s.nextId
  session : ∀ sessionId id, s.activePrompts.get sessionId = some id →
    ∃ p, s.prompts.get id = some p ∧ p.sessionId = sessionId

/-- Prompts keep their session. -/
def KeepsSessions (s s' : State) : Prop :=
  ∀ id p, s.prompts.get id = some p → ∃ p', s'.prompts.get id = some p' ∧ p'.sessionId = p.sessionId

section Registration

variable {s s' : State} {id : Nat} {p p' : Prompt}

theorem registered_initial :
    Registered initial where
  known _ _ h := by cases h
  session _ _ h := by cases h

theorem keepsSessions_refl
    (hprompts : s'.prompts = s.prompts) :
    KeepsSessions s s' := by
  intro id p hp
  exact ⟨p, by rw [hprompts, hp], rfl⟩

/-- A prompt changes, and no other is registered than before. -/
theorem registered_update
    (h : Registered s) (hp : s.prompts.get id = some p)
    (hprompts : s'.prompts = s.prompts.set id p') (hsession : p'.sessionId = p.sessionId)
    (hnext : s'.nextId = s.nextId)
    (hactive : ∀ session i, s'.activePrompts.get session = some i →
      s.activePrompts.get session = some i) :
    Registered s' ∧ KeepsSessions s s' := by
  have hkeeps : KeepsSessions s s' := by
    intro i q hq
    rw [hprompts, Dict.get_set]
    split_ifs with heq
    · obtain rfl := heq
      obtain rfl := Option.some.inj (hp.symm.trans hq)
      exact ⟨p', rfl, hsession⟩
    · exact ⟨q, hq, rfl⟩
  refine ⟨⟨fun i q hq => ?_, fun session i hi => ?_⟩, hkeeps⟩
  · rw [hprompts, Dict.get_set] at hq
    rw [hnext]
    split_ifs at hq with heq
    · exact heq ▸ h.known id p hp
    · exact h.known i q hq
  · obtain ⟨q, hq, hqsession⟩ := h.session session i (hactive session i hi)
    obtain ⟨q', hq', hkept⟩ := hkeeps i q hq
    exact ⟨q', hq', hkept.trans hqsession⟩

theorem start_registers
    (s : State) (call : Nat) (sessionId : String) :
    (start s call sessionId).prompts =
        s.prompts.set (s.nextId + 1) (.new sessionId call (s.pendingCancels.get sessionId)) ∧
      (start s call sessionId).nextId = s.nextId + 1 ∧
      (start s call sessionId).activePrompts =
        s.activePrompts.set sessionId (s.nextId + 1) := by
  unfold start
  cases s.pendingCancels.get sessionId with
  | none => exact ⟨rfl, rfl, rfl⟩
  | some requests =>
      dsimp only [State.noteReturn]
      split_ifs <;> exact ⟨rfl, rfl, rfl⟩

theorem sessionId_new
    (sessionId : String) (call : Nat) (requests : Option (List Nat)) :
    (Prompt.new sessionId call requests).sessionId = sessionId := by
  cases requests <;> rfl

theorem registered_start
    (h : Registered s) (call : Nat) (sessionId : String) :
    Registered (start s call sessionId) ∧ KeepsSessions s (start s call sessionId) := by
  obtain ⟨hprompts, hnext, hactive⟩ := start_registers s call sessionId
  have hkeeps : KeepsSessions s (start s call sessionId) := by
    intro i q hq
    have hne : s.nextId + 1 ≠ i := fun heq => absurd (h.known i q hq) (by omega)
    exact ⟨q, by rw [hprompts, Dict.get_set_of_ne _ hne, hq], rfl⟩
  refine ⟨⟨fun i q hq => ?_, fun session i hi => ?_⟩, hkeeps⟩
  · rw [hprompts, Dict.get_set] at hq
    rw [hnext]
    split_ifs at hq with heq
    · exact Nat.le_of_eq heq.symm
    · exact Nat.le_succ_of_le (h.known i q hq)
  · rw [hactive, Dict.get_set] at hi
    split_ifs at hi with heq
    · obtain rfl := heq
      obtain rfl := Option.some.inj hi
      exact ⟨_, by rw [hprompts, Dict.get_set_self], sessionId_new _ _ _⟩
    · obtain ⟨q, hq, hqsession⟩ := h.session session i hi
      obtain ⟨q', hq', hkept⟩ := hkeeps i q hq
      exact ⟨q', hq', hkept.trans hqsession⟩

theorem registered_doCancel
    (h : Registered s) (sessionId : String) :
    Registered (doCancel s sessionId) ∧ KeepsSessions s (doCancel s sessionId) := by
  unfold doCancel
  split
  · exact ⟨⟨h.known, h.session⟩, keepsSessions_refl rfl⟩
  · rename_i id p hfound
    obtain ⟨i, _, hmap⟩ := Option.bind_eq_some_iff.mp hfound
    obtain ⟨q, hq, heq⟩ := Option.map_eq_some_iff.mp hmap
    obtain ⟨rfl, rfl⟩ := Prod.mk.inj heq
    split_ifs <;> exact registered_update h hq rfl rfl rfl fun _ _ hi => hi

theorem finish_registers
    (s : State) (id : Nat) (p : Prompt) (ending : Ending) :
    (finish s id p ending).prompts = s.prompts.set id { p with ending := some ending } ∧
      (finish s id p ending).nextId = s.nextId ∧
      (finish s id p ending).activePrompts = s.activePrompts.erase p.sessionId := by
  unfold finish State.noteReturn
  dsimp only
  split_ifs <;> exact ⟨rfl, rfl, rfl⟩

/-- No step registers a prompt under another session or changes one's session. -/
theorem registered_step
    {op : Op} (h : Registered s) (hstep : step s op = some s') :
    Registered s' ∧ KeepsSessions s s' := by
  cases op with
  | call sessionId =>
      obtain rfl := Option.some.inj hstep
      exact ⟨⟨h.known, h.session⟩, keepsSessions_refl rfl⟩
  | start call =>
      obtain ⟨sessionId, _, rfl⟩ := Option.map_eq_some_iff.mp hstep
      exact registered_start h call sessionId
  | respond id response =>
      simp only [step] at hstep
      split_ifs at hstep
      obtain ⟨p, hp, rfl⟩ := Option.map_eq_some_iff.mp hstep
      exact registered_update h hp rfl rfl rfl fun _ _ hi => hi
  | softTimeout id =>
      obtain ⟨p, hp, hstep⟩ := Option.bind_eq_some_iff.mp hstep
      split_ifs at hstep
      obtain rfl := Option.some.inj hstep
      exact registered_update h hp rfl rfl rfl fun _ _ hi => hi
  | cancel sessionId =>
      obtain rfl := Option.some.inj hstep
      exact registered_doCancel h sessionId
  | finish id exit =>
      obtain ⟨p, hp, hstep⟩ := Option.bind_eq_some_iff.mp hstep
      split_ifs at hstep
      obtain ⟨ending, _, rfl⟩ := Option.map_eq_some_iff.mp hstep
      obtain ⟨hprompts, hnext, hactive⟩ := finish_registers s id p ending
      refine registered_update h hp hprompts rfl hnext fun session i hi => ?_
      rw [hactive, Dict.get_erase] at hi
      split_ifs at hi
      exact hi

end Registration

/-! ### What a regular step keeps -/

/-- A registered prompt is in flight under its session. -/
structure Inv (s : State) : Prop where
  traceless : Traceless s
  live : ∀ sessionId id, s.activePrompts.get sessionId = some id →
    ∃ p, s.prompts.get id = some p ∧ p.sessionId = sessionId ∧ p.ending = none
  known : ∀ id p, s.prompts.get id = some p → id ≤ s.nextId

theorem inv_initial :
    Inv initial where
  traceless := ⟨(fun _ _ h => by cases h), rfl, rfl⟩
  live _ _ h := by cases h
  known _ _ h := by cases h

section Requests

variable {s s' : State} {request id : Nat} {p p' : Prompt}

/-- Requests are only added. -/
theorem Meant.grow
    (h : Meant s request id p) {more : List Request} (hrequests : s'.requests = s.requests ++ more)
    (hcall : p'.call = p.call) :
    Meant s' request id p' := by
  obtain ⟨r, hr, hmeant⟩ := h
  refine ⟨r, ?_, ?_⟩
  · rw [hrequests, List.getElem?_append_left (List.getElem?_eq_some_iff.mp hr).1]
    exact hr
  · rw [hcall]
    exact hmeant

theorem Meant.same
    (h : Meant s request id p) (hrequests : s'.requests = s.requests) (hcall : p'.call = p.call) :
    Meant s' request id p' := by
  have hmore : s'.requests = s.requests ++ [] := by rw [hrequests, List.append_nil]
  exact h.grow hmore hcall

end Requests

section Steps

variable {s s' : State} {id call : Nat} {sessionId : String} {p p' : Prompt}

/-- A prompt changes in what no other step goes by. -/
theorem inv_update
    (h : Inv s) (hp : s.prompts.get id = some p) (hsession : p'.sessionId = p.sessionId)
    (hcall : p'.call = p.call) (hending : p'.ending = p.ending)
    (hcancelled : p'.cancelledBy = p.cancelledBy) {pending : List Nat} {notified : List String} :
    Inv { s with
      prompts := s.prompts.set id p'
      pending := pending
      notified := notified } := by
  refine ⟨⟨?_, h.traceless.traces, h.traceless.robbed⟩, ?_, ?_⟩
  · intro i q hq request hrequest
    rw [Dict.get_set] at hq
    split_ifs at hq with heq
    · obtain rfl := heq
      obtain rfl := Option.some.inj hq
      rw [hcancelled] at hrequest
      exact (h.traceless.hits id p hp request hrequest).same rfl hcall
    · exact h.traceless.hits i q hq request hrequest
  · intro session i hactive
    obtain ⟨q, hq, hqsession, hqending⟩ := h.live session i hactive
    dsimp only
    rw [Dict.get_set]
    split_ifs with heq
    · obtain rfl := heq
      obtain rfl := Option.some.inj (hp.symm.trans hq)
      exact ⟨p', rfl, hsession.trans hqsession, hending.trans hqending⟩
    · exact ⟨q, hq, hqsession, hqending⟩
  · intro i q hq
    rw [Dict.get_set] at hq
    split_ifs at hq with heq
    · exact heq ▸ h.known id p hp
    · exact h.known i q hq

theorem start_of_none
    (hnone : s.pendingCancels.get sessionId = none) :
    start s call sessionId =
      { s with
        nextId := s.nextId + 1
        waiting := s.waiting.erase call
        prompts := s.prompts.set (s.nextId + 1) (.new sessionId call none)
        activePrompts := s.activePrompts.set sessionId (s.nextId + 1)
        pending := s.pending ++ [s.nextId + 1] } := by
  rw [start, hnone]

/-- A prompt that starts without a remembered cancel. -/
theorem inv_start
    (h : Inv s) (hnone : s.pendingCancels.get sessionId = none) :
    Inv (start s call sessionId) := by
  have hnew : s.prompts.get (s.nextId + 1) = none := by
    cases hp : s.prompts.get (s.nextId + 1) with
    | none => rfl
    | some p => exact absurd (h.known _ _ hp) (Nat.not_succ_le_self _)
  rw [start_of_none hnone]
  refine ⟨⟨?_, h.traceless.traces, h.traceless.robbed⟩, ?_, ?_⟩
  · intro i q hq request hrequest
    rw [Dict.get_set] at hq
    split_ifs at hq
    · obtain rfl := Option.some.inj hq
      cases hrequest
    · exact h.traceless.hits i q hq request hrequest
  · intro session i hactive
    dsimp only at hactive ⊢
    rw [Dict.get_set] at hactive
    split_ifs at hactive with heq
    · obtain rfl := heq
      obtain rfl := Option.some.inj hactive
      exact ⟨.new sessionId call none, Dict.get_set_self _ _ _, rfl, rfl⟩
    · obtain ⟨q, hq, hq'⟩ := h.live session i hactive
      have hne : s.nextId + 1 ≠ i := fun hi => by
        rw [← hi, hnew] at hq
        cases hq
      exact ⟨q, (Dict.get_set_of_ne _ hne _).trans hq, hq'⟩
  · intro i q hq
    rw [Dict.get_set] at hq
    split_ifs at hq with heq
    · exact Nat.le_of_eq heq.symm
    · exact Nat.le_succ_of_le (h.known i q hq)

/-- A prompt that starts with a remembered cancel leaves its entries behind. -/
theorem traces_start
    {requests : List Nat} (hsome : s.pendingCancels.get sessionId = some requests) :
    (start s call sessionId).traces ≠ [] := by
  have hactive : (s.activePrompts.set sessionId (s.nextId + 1)).get sessionId ≠ none := by
    rw [Dict.get_set_self]
    exact Option.some_ne_none _
  rw [start, hsome]
  dsimp only [State.noteReturn]
  rw [if_neg fun hleft => hactive hleft.1]
  exact List.append_ne_nil_of_right_ne_nil _ (List.cons_ne_nil _ _)

/-- A prompt in flight is cancelled by a request that found it. -/
theorem inv_cancelled
    (h : Inv s) (hp : s.prompts.get id = some p) (hsession : p'.sessionId = p.sessionId)
    (hcall : p'.call = p.call) (hending : p'.ending = p.ending)
    (hby : p'.cancelledBy = p.cancelledBy ++ [s.requests.length])
    {r : Request} (hr : r.prompt = some id)
    {pendingCancels : Dict String (List Nat)} {notified : List String} :
    Inv { s with
      requests := s.requests ++ [r]
      pendingCancels := pendingCancels
      prompts := s.prompts.set id p'
      notified := notified } := by
  refine ⟨⟨?_, h.traceless.traces, h.traceless.robbed⟩, ?_, ?_⟩
  · intro i q hq request hrequest
    dsimp only at hq
    rw [Dict.get_set] at hq
    split_ifs at hq with heq
    · obtain rfl := heq
      obtain rfl := Option.some.inj hq
      rw [hby] at hrequest
      rcases List.mem_append.mp hrequest with hold | hnew
      · exact (h.traceless.hits id p hp request hold).grow rfl hcall
      · obtain rfl := List.mem_singleton.mp hnew
        refine ⟨r, ?_, Or.inl hr⟩
        dsimp only
        rw [List.getElem?_append_right (Nat.le_refl _), Nat.sub_self]
        rfl
    · exact (h.traceless.hits i q hq request hrequest).grow rfl rfl
  · intro session i hi
    obtain ⟨q, hq, hqsession, hqending⟩ := h.live session i hi
    dsimp only
    rw [Dict.get_set]
    split_ifs with heq
    · obtain rfl := heq
      obtain rfl := Option.some.inj (hp.symm.trans hq)
      exact ⟨p', rfl, hsession.trans hqsession, hending.trans hqending⟩
    · exact ⟨q, hq, hqsession, hqending⟩
  · intro i q hq
    dsimp only at hq ⊢
    rw [Dict.get_set] at hq
    split_ifs at hq with heq
    · exact heq ▸ h.known id p hp
    · exact h.known i q hq

theorem inv_doCancel
    (h : Inv s) :
    Inv (doCancel s sessionId) := by
  unfold doCancel
  cases hactive : s.activePrompts.get sessionId with
  | none =>
      rw [Option.bind_none]
      refine ⟨⟨fun i q hq r hr => ?_, h.traceless.traces, h.traceless.robbed⟩, h.live, h.known⟩
      exact (h.traceless.hits i q hq r hr).grow rfl rfl
  | some id =>
      obtain ⟨p, hp, _, hending⟩ := h.live sessionId id hactive
      have hflying : (findRequest s sessionId).prompt = some id := by
        rw [findRequest, hactive, Option.filter_some, State.inFlight, hp, Option.any_some, hending]
        rfl
      rw [Option.bind_some, hp, Option.map_some]
      dsimp only
      split_ifs
      · refine inv_cancelled h hp ?_ ?_ ?_ ?_ hflying <;> rfl
      · refine inv_cancelled h hp ?_ ?_ ?_ ?_ hflying <;> rfl

theorem robbed_finish
    (ending : Ending) :
    (finish s id p ending).robbed =
      s.robbed ++ ((s.activePrompts.get p.sessionId).filter (· ≠ id)).toList := by
  unfold finish State.noteReturn
  dsimp only
  split_ifs <;> rfl

/-- After a return neither the session nor the id is registered. -/
theorem finish_eq
    (ending : Ending) :
    finish s id p ending =
      { s with
        prompts := s.prompts.set id { p with ending := some ending }
        activePrompts := s.activePrompts.erase p.sessionId
        pending := s.pending.filter (· ≠ id)
        robbed := s.robbed ++ ((s.activePrompts.get p.sessionId).filter (· ≠ id)).toList } := by
  unfold finish State.noteReturn
  dsimp only
  rw [if_pos]
  refine ⟨Dict.get_erase_self _ _, fun hmem => ?_⟩
  simp at hmem

/-- A prompt that returns when no other is registered under its session. -/
theorem inv_finish
    (h : Inv s) (hp : s.prompts.get id = some p)
    (hown : ∀ other ∈ s.activePrompts.get p.sessionId, other = id) (ending : Ending) :
    Inv (finish s id p ending) := by
  have hother : (s.activePrompts.get p.sessionId).filter (· ≠ id) = none := by
    rw [Option.filter_eq_none_iff]
    intro other hactive hne
    exact absurd (hown other hactive) (of_decide_eq_true hne)
  rw [finish_eq, hother]
  refine ⟨⟨?_, h.traceless.traces, ?_⟩, ?_, ?_⟩
  · intro i q hq request hrequest
    rw [Dict.get_set] at hq
    split_ifs at hq with heq
    · obtain rfl := heq
      obtain rfl := Option.some.inj hq
      exact (h.traceless.hits id p hp request hrequest).same rfl rfl
    · exact h.traceless.hits i q hq request hrequest
  · exact (List.append_nil _).trans h.traceless.robbed
  · intro session i hactive
    dsimp only at hactive ⊢
    rw [Dict.get_erase] at hactive
    split_ifs at hactive with hsession
    obtain ⟨q, hq, hqsession, hqending⟩ := h.live session i hactive
    have hne : id ≠ i := fun hi => by
      obtain rfl := hi
      obtain rfl := Option.some.inj (hp.symm.trans hq)
      exact hsession hqsession
    exact ⟨q, (Dict.get_set_of_ne _ hne _).trans hq, hqsession, hqending⟩
  · intro i q hq
    rw [Dict.get_set] at hq
    split_ifs at hq with heq
    · exact heq ▸ h.known id p hp
    · exact h.known i q hq

theorem inv_step
    {op : Op} (h : Inv s) (hreg : Regular s op) (hstep : step s op = some s') :
    Inv s' := by
  cases op with
  | call sessionId =>
      obtain rfl := Option.some.inj hstep
      exact ⟨⟨h.traceless.hits, h.traceless.traces, h.traceless.robbed⟩, h.live, h.known⟩
  | start call =>
      obtain ⟨sessionId, hwaiting, rfl⟩ := Option.map_eq_some_iff.mp hstep
      exact inv_start h (hreg sessionId hwaiting)
  | respond id response =>
      simp only [step] at hstep
      split_ifs at hstep
      obtain ⟨p, hp, rfl⟩ := Option.map_eq_some_iff.mp hstep
      refine inv_update h hp ?_ ?_ ?_ ?_ <;> rfl
  | softTimeout id =>
      obtain ⟨p, hp, hstep⟩ := Option.bind_eq_some_iff.mp hstep
      split_ifs at hstep
      obtain rfl := Option.some.inj hstep
      refine inv_update h hp ?_ ?_ ?_ ?_ <;> rfl
  | cancel sessionId =>
      obtain rfl := Option.some.inj hstep
      exact inv_doCancel h
  | finish id exit =>
      obtain ⟨p, hp, hstep⟩ := Option.bind_eq_some_iff.mp hstep
      split_ifs at hstep
      obtain ⟨ending, _, rfl⟩ := Option.map_eq_some_iff.mp hstep
      exact inv_finish h hp (hreg p hp) ending

/-- The step that goes wrong is seen at once. -/
theorem regular_of_traceless
    {op : Op} (hstep : step s op = some s') (h : Traceless s') :
    Regular s op := by
  cases op with
  | start call =>
      obtain ⟨sessionId, hwaiting, rfl⟩ := Option.map_eq_some_iff.mp hstep
      intro session hsession
      obtain rfl : sessionId = session := Option.some.inj (hwaiting.symm.trans hsession)
      cases hpending : s.pendingCancels.get sessionId with
      | none => rfl
      | some requests => exact absurd h.traces (traces_start hpending)
  | finish id exit =>
      obtain ⟨p, hp, hstep⟩ := Option.bind_eq_some_iff.mp hstep
      split_ifs at hstep
      obtain ⟨ending, _, rfl⟩ := Option.map_eq_some_iff.mp hstep
      intro q hq other hother
      obtain rfl : p = q := Option.some.inj (hp.symm.trans hq)
      have hrobbed := (List.append_eq_nil_iff.mp ((robbed_finish ending).symm.trans h.robbed)).2
      by_contra hne
      rw [hother, Option.filter_some, if_pos (decide_eq_true hne)] at hrobbed
      cases hrobbed
  | call _ => trivial
  | respond _ _ => trivial
  | softTimeout _ => trivial
  | cancel _ => trivial

end Steps

section Results

/-- **Cancels.**  As long as no prompt starts with a remembered cancel and none returns
under the entry of another, every cancel hits what it was meant for and every return is
clean; and the next step keeps this exactly when it meets the same condition. -/
theorem cancels_leave_no_trace
    (s : State) (h : Reach step Regular initial s) :
    Traceless s ∧ ∀ op s', step s op = some s' → (Traceless s' ↔ Regular s op) := by
  have hinv : Inv s := h.invariant inv_initial fun _ _ _ => inv_step
  refine ⟨hinv.traceless, fun op s' hstep => ⟨regular_of_traceless hstep, fun hreg => ?_⟩⟩
  exact (inv_step hinv hreg hstep).traceless

/-- A prompt is cancelled while it runs, returns, and a second one is answered. -/
def cancelledRun : List Op :=
  [.call "s-1", .start 0, .cancel "s-1", .respond 1 (.result (some "cancelled")),
    .finish 1 (.answered "so far"), .call "s-1", .start 1,
    .respond 2 (.result (some "end_turn")), .finish 2 (.answered "done")]

theorem cancels_leave_no_trace_cancelledRun :
    ∃ s, run step initial cancelledRun = some s ∧ Traceless s := by
  have hsome : (run step initial cancelledRun).isSome = true := by decide +kernel
  have hreg : Guarded step Regular initial cancelledRun :=
    guarded_of_checkRun (fun s op => decide (Regular s op)) (fun _ _ => of_decide_eq_true)
      (by decide +kernel)
  exact ⟨_, run_eq_getD hsome, (cancels_leave_no_trace _ (reach_of_run (run_eq_getD hsome) hreg)).1⟩

/-- A prompt is cancelled twice and returns; a second one is started. -/
def cancelledTwice : List Op :=
  [.call "s-1", .start 0, .cancel "s-1", .cancel "s-1", .respond 1 (.result (some "cancelled")),
    .finish 1 (.answered "so far"), .call "s-1", .start 1]

/-- The second cancel of the first prompt ends the second one, which leaves its entries
behind. -/
theorem old_cancel_hits_next_prompt :
    ∃ s p, run step initial cancelledTwice = some s ∧ s.prompts.get 2 = some p ∧
      p.cancelledBy = [1] ∧ p.ending.isSome = true ∧ ¬ Meant s 1 2 p ∧
      s.activePrompts.get "s-1" = some 2 ∧ s.pending = [2] ∧ ¬ Traceless s := by
  have hout : (run step initial cancelledTwice).map (fun s =>
      (s.prompts.get 2, s.activePrompts.get "s-1", s.pending, s.requests[1]?)) =
        some (some (.new "s-1" 1 (some [1])), some 2, [2],
          some { prompt := some 1, calls := [] }) := by
    decide +kernel
  have htraces : (run step initial cancelledTwice).map State.traces = some [2] := by
    decide +kernel
  obtain ⟨s, hrun, hs⟩ := Option.map_eq_some_iff.mp hout
  rw [hrun, Option.map_some] at htraces
  simp only [Prod.mk.injEq] at hs
  obtain ⟨hprompt, hactive, hpending, hrequest⟩ := hs
  refine ⟨s, _, hrun, hprompt, rfl, rfl, ?_, hactive, hpending, fun h => ?_⟩
  · rintro ⟨r, hr, hmeant⟩
    obtain rfl := Option.some.inj (hrequest.symm.trans hr)
    rcases hmeant with hmeant | hmeant
    · cases hmeant
    · cases hmeant.1
  · rw [h.traces] at htraces
    cases htraces

end Results

end Acp
end DiploidAgent
