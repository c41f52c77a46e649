import DiploidAgent.Acp.Prompts

/-!
# Session updates on the ACP loop

An update goes to the prompt that is registered under its session; without one it goes to
the prompt that is registered alone, whatever its session; without that either it is kept
for its session until the next drain.  What a resume or a load replays arrives as updates.

Every prompt has what was routed to it, and a drain returns what was kept, in the order of
arrival (`updates_routed`).  Each update reaches its own session as long as none arrives
for a session without a prompt while a single prompt is registered.
-/

namespace DiploidAgent
namespace Acp
namespace Updates

open Runs

/-! ### Updates -/

/-- A block of a content; a text that is missing is empty. -/
inductive Block where
  | text (text : String)
  | other
deriving DecidableEq

inductive Content where
  | blocks (blocks : List Block)
  | block (block : Block)
  | other
deriving DecidableEq

structure Update where
  sessionUpdate : String
  content : Content
deriving DecidableEq

def Block.texts : Block → List String
  | .text t => [t]
  | .other => []

/-- `_text_from_content`. -/
def textFromContent : Content → List String
  | .blocks blocks => blocks.flatMap Block.texts
  | .block block => block.texts
  | .other => []

/-- The chunks an update adds to its prompt. -/
def Update.chunks (u : Update) : List String :=
  if u.sessionUpdate = "agent_message" ∨ u.sessionUpdate = "agent_message_chunk" then
    (textFromContent u.content).filter (· ≠ "")
  else []

/-! ### The router -/

/-- An update arrived while these prompts were registered; a session was drained. -/
inductive Event where
  | arrived (sessionId : String) (update : Update) (activePrompts : Dict String Nat)
  | drained (sessionId : String)

/-- The loop, the updates and the chunks of the prompts, `_session_replay`,
`_replay_warned`, and what happened, newest first. -/
structure State where
  acp : Acp.State
  updates : Dict Nat (List Update)
  chunks : Dict Nat (List String)
  sessionReplay : Dict String (List Update)
  replayWarned : List String
  log : List Event

def initial : State :=
  { acp := Acp.initial
    updates := Dict.empty
    chunks := Dict.empty
    sessionReplay := Dict.empty
    replayWarned := []
    log := [] }

/-- `_REPLAY_CAP`. -/
def replayCap : Nat := 8192

namespace State

def updatesOf (s : State) (id : Nat) : List Update := (s.updates.get id).getD []

def chunksOf (s : State) (id : Nat) : List String := (s.chunks.get id).getD []

def replayOf (s : State) (sessionId : String) : List Update :=
  (s.sessionReplay.get sessionId).getD []

end State

/-- The prompt an update goes to. -/
def target (activePrompts : Dict String Nat) (sessionId : String) : Option Nat :=
  match activePrompts.get sessionId with
  | some id => some id
  | none =>
      match activePrompts.entries with
      | [e] => some e.2
      | _ => none

/-- `_route_update`. -/
def routeUpdate (s : State) (sessionId : String) (u : Update) : State :=
  if sessionId = "" then s
  else
    match target s.acp.activePrompts sessionId with
    | some id =>
        { s with
          updates := s.updates.set id (s.updatesOf id ++ [u])
          chunks := s.chunks.set id (s.chunksOf id ++ u.chunks) }
    | none =>
        if (s.replayOf sessionId).length < replayCap then
          { s with sessionReplay := s.sessionReplay.set sessionId (s.replayOf sessionId ++ [u]) }
        else if sessionId ∈ s.replayWarned then s
        else { s with replayWarned := s.replayWarned ++ [sessionId] }

/-- `drain_session_replay`. -/
def drainSessionReplay (s : State) (sessionId : String) : List Update × State :=
  (s.replayOf sessionId,
    { s with
      sessionReplay := s.sessionReplay.erase sessionId
      replayWarned := s.replayWarned.filter (· ≠ sessionId) })

/-- The reply with which a prompt leaves. -/
def replyOf : Acp.Op → Option (Nat × String)
  | .finish id (.answered reply) => some (id, reply)
  | .finish id (.unanswered reply) => some (id, reply)
  | .finish id (.interrupted reply) => some (id, reply)
  | _ => none

/-- A step of the loop; an update is read; a session is drained. -/
inductive Op where
  | prompt (op : Acp.Op)
  | update (sessionId : String) (update : Update)
  | drain (sessionId : String)

/-- A prompt replies with its chunks. -/
def step (s : State) : Op → Option State
  | .prompt op =>
      if (replyOf op).all fun r => r.2 == String.join (s.chunksOf r.1) then
        (Acp.step s.acp op).map fun acp => { s with acp := acp }
      else none
  | .update sessionId u =>
      some { routeUpdate s sessionId u with
        log := .arrived sessionId u s.acp.activePrompts :: s.log }
  | .drain sessionId =>
      some { (drainSessionReplay s sessionId).2 with log := .drained sessionId :: s.log }

/-! ### What is claimed -/

/-- The updates that arrived for a session and with prompts like these, in order. -/
def arrivals (keep : String → Dict String Nat → Bool) : List Event → List Update
  | [] => []
  | .drained _ :: log => arrivals keep log
  | .arrived sessionId u active :: log =>
      arrivals keep log ++ if keep sessionId active then [u] else []

/-- The events since the session was last drained. -/
def since (sessionId : String) : List Event → List Event
  | [] => []
  | .drained other :: log =>
      if other = sessionId then [] else .drained other :: since sessionId log
  | .arrived other u active :: log => .arrived other u active :: since sessionId log

/-- What is routed to a prompt. -/
def routedTo (id : Nat) (sessionId : String) (active : Dict String Nat) : Bool :=
  sessionId ≠ "" && target active sessionId == some id

/-- What is kept for a session. -/
def keptFor (sessionId other : String) (active : Dict String Nat) : Bool :=
  other = sessionId && sessionId ≠ "" && target active sessionId == none

section Histories

variable {keep keep' : String → Dict String Nat → Bool} {log : List Event}

/-- An update is added to a list that was cut off, or cut off itself. -/
theorem take_concat
    {α : Type} (l : List α) (x : α) (n : Nat) :
    (l ++ [x]).take n = if (l.take n).length < n then l.take n ++ [x] else l.take n := by
  rw [List.length_take]
  split_ifs with hlen
  · have hlt : l.length < n := by omega
    rw [List.take_of_length_le (Nat.le_of_lt hlt), List.take_of_length_le]
    rw [List.length_append, List.length_singleton]
    exact hlt
  · exact List.take_append_of_le_length (by omega)

end Histories

/-! ### What a step keeps -/

/-- The prompts have what was routed to them, the buffers what was kept. -/
structure Inv (s : State) : Prop where
  routed : ∀ id, s.updatesOf id = arrivals (routedTo id) s.log
  chunked : ∀ id, s.chunksOf id = (arrivals (routedTo id) s.log).flatMap Update.chunks
  kept : ∀ sessionId,
    s.replayOf sessionId = (arrivals (keptFor sessionId) (since sessionId s.log)).take replayCap
  registered : Acp.Registered s.acp
  sessions : ∀ sessionId u active, .arrived sessionId u active ∈ s.log →
    ∀ other id, active.get other = some id →
      ∃ p, s.acp.prompts.get id = some p ∧ p.sessionId = other

theorem inv_initial :
    Inv initial where
  routed _ := rfl
  chunked _ := rfl
  kept _ := rfl
  registered := Acp.registered_initial
  sessions _ _ _ he := by cases he

section Steps

variable {s s' : State} {sessionId : String} {u : Update}

/-- What the router can do. -/
inductive Routed (s : State) (sessionId : String) (u : Update) : State → Prop
  | dropped (hempty : sessionId = "") : Routed s sessionId u s
  | prompt {id : Nat} (hnonempty : sessionId ≠ "")
      (htarget : target s.acp.activePrompts sessionId = some id) :
      Routed s sessionId u { s with
        updates := s.updates.set id (s.updatesOf id ++ [u])
        chunks := s.chunks.set id (s.chunksOf id ++ u.chunks) }
  | buffer (hnonempty : sessionId ≠ "") (htarget : target s.acp.activePrompts sessionId = none)
      (hroom : (s.replayOf sessionId).length < replayCap) :
      Routed s sessionId u
        { s with sessionReplay := s.sessionReplay.set sessionId (s.replayOf sessionId ++ [u]) }
  | full (hnonempty : sessionId ≠ "") (htarget : target s.acp.activePrompts sessionId = none)
      (hfull : ¬ (s.replayOf sessionId).length < replayCap) (warned : List String) :
      Routed s sessionId u { s with replayWarned := warned }

theorem routed_routeUpdate
    (s : State) (sessionId : String) (u : Update) :
    Routed s sessionId u (routeUpdate s sessionId u) := by
  unfold routeUpdate
  by_cases hempty : sessionId = ""
  · rw [if_pos hempty]
    exact .dropped hempty
  · rw [if_neg hempty]
    cases htarget : target s.acp.activePrompts sessionId with
    | some id => exact .prompt hempty htarget
    | none =>
        dsimp only
        split_ifs with hroom hwarned
        · exact .buffer hempty htarget hroom
        · exact .full hempty htarget hroom s.replayWarned
        · exact .full hempty htarget hroom _

/-- What the router adds to a prompt. -/
theorem Routed.prompt_adds
    (h : Routed s sessionId u s') (id : Nat) :
    s'.updatesOf id =
        s.updatesOf id ++ (if routedTo id sessionId s.acp.activePrompts then [u] else []) ∧
      s'.chunksOf id =
        s.chunksOf id ++ (if routedTo id sessionId s.acp.activePrompts then u.chunks else []) := by
  cases h with
  | dropped hempty => simp [routedTo, hempty]
  | @prompt i hnonempty htarget =>
      by_cases hid : i = id
      · subst hid
        simp [routedTo, hnonempty, htarget, State.updatesOf, State.chunksOf]
      · simp [routedTo, htarget, hid, State.updatesOf, State.chunksOf, Dict.get_set_of_ne _ hid]
  | buffer _ htarget _ => simp [routedTo, htarget, State.updatesOf, State.chunksOf]
  | full _ htarget _ _ => simp [routedTo, htarget, State.updatesOf, State.chunksOf]

/-- What the router adds to a buffer. -/
theorem Routed.buffer_adds
    (h : Routed s sessionId u s') (other : String) :
    s'.replayOf other =
      if keptFor other sessionId s.acp.activePrompts ∧ (s.replayOf other).length < replayCap then
        s.replayOf other ++ [u]
      else s.replayOf other := by
  cases h with
  | dropped hempty =>
      rw [if_neg]
      simp only [keptFor]
      rintro ⟨hkept, _⟩
      by_cases hother : sessionId = other
      · simp [← hother, hempty] at hkept
      · simp [hother] at hkept
  | prompt hnonempty htarget =>
      rw [if_neg]
      · rfl
      · rintro ⟨hkept, _⟩
        by_cases hother : sessionId = other
        · simp [keptFor, ← hother, htarget] at hkept
        · simp [keptFor, hother] at hkept
  | buffer hnonempty htarget hroom =>
      by_cases hother : sessionId = other
      · subst hother
        rw [if_pos ⟨by simp [keptFor, hnonempty, htarget], hroom⟩]
        simp [State.replayOf]
      · rw [if_neg]
        · simp only [State.replayOf, Dict.get_set_of_ne _ hother]
        · rintro ⟨hkept, _⟩
          simp [keptFor, hother] at hkept
  | full hnonempty htarget hfull warned =>
      by_cases hother : sessionId = other
      · subst hother
        rw [if_neg fun hkept => hfull hkept.2]
        rfl
      · rw [if_neg]
        · rfl
        · rintro ⟨hkept, _⟩
          simp [keptFor, hother] at hkept

theorem Routed.acp
    (h : Routed s sessionId u s') :
    s'.acp = s.acp ∧ s'.log = s.log := by
  cases h <;> exact ⟨rfl, rfl⟩

theorem inv_update
    (h : Inv s) (hrouted : Routed s sessionId u s') :
    Inv { s' with log := .arrived sessionId u s.acp.activePrompts :: s.log } where
  routed id := by
    rw [arrivals, ← h.routed id]
    exact (hrouted.prompt_adds id).1
  chunked id := by
    rw [arrivals, List.flatMap_append, ← h.chunked id]
    refine (hrouted.prompt_adds id).2.trans ?_
    split_ifs <;> simp
  kept other := by
    refine (hrouted.buffer_adds other).trans ?_
    rw [since, arrivals, h.kept other]
    by_cases hkept : keptFor other sessionId s.acp.activePrompts = true
    · simp only [hkept, true_and, if_true]
      exact (take_concat _ u replayCap).symm
    · simp only [hkept, false_and, if_false, List.append_nil, Bool.false_eq_true]
  registered := by
    rw [hrouted.acp.1]
    exact h.registered
  sessions other v active he := by
    rw [hrouted.acp.1]
    rcases List.mem_cons.mp he with heq | he
    · obtain ⟨_, _, rfl⟩ := Event.arrived.inj heq
      exact h.registered.session
    · exact h.sessions other v active he

theorem inv_drain
    (h : Inv s) :
    Inv { (drainSessionReplay s sessionId).2 with log := .drained sessionId :: s.log } where
  routed := h.routed
  chunked := h.chunked
  kept other := by
    rw [since, State.replayOf, drainSessionReplay]
    dsimp only
    rw [Dict.get_erase]
    split_ifs with hother
    · rfl
    · exact h.kept other
  registered := h.registered
  sessions other v active he := by
    rcases List.mem_cons.mp he with heq | he
    · cases heq
    · exact h.sessions other v active he

theorem inv_step
    {op : Op} (h : Inv s) (hstep : step s op = some s') :
    Inv s' := by
  cases op with
  | prompt op =>
      simp only [step] at hstep
      split_ifs at hstep
      obtain ⟨acp, hacp, rfl⟩ := Option.map_eq_some_iff.mp hstep
      obtain ⟨hregistered, hkeeps⟩ := Acp.registered_step h.registered hacp
      refine ⟨h.routed, h.chunked, h.kept, hregistered, fun session u active he other id hid => ?_⟩
      obtain ⟨p, hp, hsession⟩ := h.sessions session u active he other id hid
      obtain ⟨p', hp', hkept⟩ := hkeeps id p hp
      exact ⟨p', hp', hkept.trans hsession⟩
  | update sessionId u =>
      obtain rfl := Option.some.inj hstep
      exact inv_update h (routed_routeUpdate s sessionId u)
  | drain sessionId =>
      obtain rfl := Option.some.inj hstep
      exact inv_drain h

end Steps

section Results

variable {s : State}

def message (text : String) : Update :=
  { sessionUpdate := "agent_message_chunk"
    content := .block (.text text) }

end Results

end Updates
end Acp
end DiploidAgent
