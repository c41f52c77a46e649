import DiploidAgent.Lib.Dict
import DiploidAgent.Lib.Runs

/-!
# Stopping a turn

The turns of all chats run their prompts on one client.  `stop` of a chat cancels the
session whose prompt was registered first, of whatever chat, and the ids that are
recorded for the chat; the cancels are posted to the loop of the client and run there
later.

As long as every `stop` finds its own chat's prompt registered first, or none at all, a
prompt is cancelled by its own chat only.  In a state of such a run a further `stop`
stays with its chat exactly when it finds the same (`stop_local_iff`).
-/

namespace DiploidAgent
namespace Turns

open Runs

/-! ### The model -/

structure ActiveTurn where
  sessionId : Option String
  stopped : Bool
deriving DecidableEq

/-- A registered prompt: the chat whose turn it belongs to, and the chats whose `stop`
cancelled it. -/
structure Prompt where
  owner : String
  cancelledBy : List String
deriving DecidableEq

/-- The active turns and active records by chat, `_active_prompts`, the chat that each
session was opened for, the cancels that wait on the loop, and the chats with a pending
auto-continue wake. -/
structure State where
  turns : Dict String ActiveTurn
  records : Dict String String
  prompts : Dict String Prompt
  sessions : Dict String String
  requests : List (String × String)
  continues : List String

def initial : State :=
  { turns := Dict.empty
    records := Dict.empty
    prompts := Dict.empty
    sessions := Dict.empty
    requests := []
    continues := [] }

structure ChatResult where
  reply : String
  notice : String
deriving DecidableEq

def notRunning : ChatResult :=
  { reply := "No running turn to stop."
    notice := "The agent is not currently working on a reply for this chat." }

def stopping : ChatResult :=
  { reply := "Stopping the current turn..."
    notice := "The agent will return a partial summary when it aborts." }

/-- `active_session_id`: the first registered prompt. -/
def activeSessionId (s : State) : Option String := s.prompts.keys.head?

/-- The candidates of `stop`; an empty id is none. -/
def candidates (s : State) (chat : String) (active : ActiveTurn) : List String :=
  (([activeSessionId s, active.sessionId, s.records.get chat].filterMap id).filter
    (· ≠ "")).eraseDups

/-- The sessions that `stop` cancels. -/
def stopCancels (s : State) (chat : String) : List String :=
  match s.turns.get chat with
  | none => []
  | some active => candidates s chat active

/-- `stop`. -/
def stop (s : State) (chat : String) : State × ChatResult :=
  match s.turns.get chat with
  | none => (s, notRunning)
  | some active =>
      match stopCancels s chat with
      | [] => ({ s with turns := s.turns.set chat { active with stopped := true } }, notRunning)
      | first :: _ =>
          ({ s with
            turns := s.turns.set chat { sessionId := some first, stopped := true }
            requests := s.requests ++ (stopCancels s chat).map fun id => (id, chat)
            continues := s.continues.filter (· ≠ chat) }, stopping)

/-- A cancel that runs on the loop: it hits the prompt that is registered. -/
def deliver (s : State) (id chat : String) : Dict String Prompt :=
  match s.prompts.get id with
  | none => s.prompts
  | some p => s.prompts.set id { p with cancelledBy := p.cancelledBy ++ [chat] }

/-- No prompt of the chat is registered. -/
def Idle (s : State) (chat : String) : Prop := ∀ p ∈ s.prompts.values, p.owner ≠ chat

instance (s : State) (chat : String) : Decidable (Idle s chat) :=
  List.decidableBAll _ _

/-- The session was opened for the chat. -/
def Owns (s : State) (chat id : String) : Prop := s.sessions.get id = some chat

instance (s : State) (chat id : String) : Decidable (Owns s chat id) :=
  inferInstanceAs (Decidable (_ = _))

/-- A turn begins; its prompt is registered under a session of the chat or a new one,
and returns; the id is reported to the turn and written to the record; the turn ends; a
`stop` comes; a cancel runs; a turn leaves an auto-continue wake behind. -/
inductive Op where
  | begins (chat : String) (id : Option String)
  | prompts (chat id : String)
  | returns (id : String)
  | reports (chat id : String)
  | records (chat id : String)
  | ends (chat : String)
  | stop (chat : String)
  | cancels
  | continues (chat : String)
deriving DecidableEq

def step (s : State) : Op → Option State
  | .begins chat id =>
      if s.turns.get chat = none ∧ ∀ i ∈ id, Owns s chat i then
        some { s with turns := s.turns.set chat { sessionId := id, stopped := false } }
      else none
  | .prompts chat id =>
      if (s.turns.get chat).isSome ∧ Idle s chat ∧ id ≠ "" ∧
          (Owns s chat id ∨ s.sessions.get id = none) then
        some { s with
          prompts := s.prompts.set id { owner := chat, cancelledBy := [] }
          sessions := s.sessions.set id chat }
      else none
  | .returns id => some { s with prompts := s.prompts.erase id }
  | .reports chat id =>
      if Owns s chat id then
        (s.turns.get chat).map fun active =>
          { s with turns := s.turns.set chat { active with sessionId := some id } }
      else none
  | .records chat id =>
      if Owns s chat id then some { s with records := s.records.set chat id } else none
  | .ends chat => if Idle s chat then some { s with turns := s.turns.erase chat } else none
  | .stop chat => some (stop s chat).1
  | .cancels =>
      match s.requests with
      | [] => none
      | (id, chat) :: requests =>
          some { s with
            prompts := deliver s id chat
            requests := requests }
  | .continues chat => some { s with continues := s.continues ++ [chat] }

/-! ### What is claimed -/

/-- A `stop` of a running turn finds no prompt registered, or its own chat's first. -/
def OwnFirst (s : State) : Op → Prop
  | .stop chat => (s.turns.get chat).isSome → ∀ p ∈ s.prompts.values.head?, p.owner = chat
  | _ => True

instance (s : State) (op : Op) : Decidable (OwnFirst s op) := by
  cases op <;> unfold OwnFirst <;> infer_instance

/-! ### What every step keeps -/

structure Inv (s : State) : Prop where
  named : ∀ id p, s.prompts.get id = some p → id ≠ ""
  owner : ∀ id p, s.prompts.get id = some p → Owns s p.owner id
  single : ∀ id p id' p', s.prompts.get id = some p → s.prompts.get id' = some p' →
    p.owner = p'.owner → id = id'
  running : ∀ id p, s.prompts.get id = some p → (s.turns.get p.owner).isSome
  turnIds : ∀ chat active id, s.turns.get chat = some active → active.sessionId = some id →
    Owns s chat id
  recordIds : ∀ chat id, s.records.get chat = some id → Owns s chat id
  requested : ∀ id chat, (id, chat) ∈ s.requests → Owns s chat id
  cancelled : ∀ id p, s.prompts.get id = some p → ∀ chat ∈ p.cancelledBy, chat = p.owner

theorem inv_initial :
    Inv initial where
  named _ _ h := by cases h
  owner _ _ h := by cases h
  single _ _ _ _ h := by cases h
  running _ _ h := by cases h
  turnIds _ _ _ h := by cases h
  recordIds _ _ h := by cases h
  requested _ _ h := by cases h
  cancelled _ _ h := by cases h

section Candidates

variable {s : State} {chat : String}

theorem mem_candidates
    {active : ActiveTurn} {id : String} :
    id ∈ candidates s chat active ↔
      (activeSessionId s = some id ∨ active.sessionId = some id ∨
        s.records.get chat = some id) ∧ id ≠ "" := by
  simp only [candidates, List.mem_eraseDups, List.mem_filter, List.mem_filterMap, List.mem_cons,
    List.not_mem_nil, or_false, decide_eq_true_eq]
  constructor
  · rintro ⟨⟨o, ho, rfl⟩, hne⟩
    rcases ho with ho | ho | ho
    · exact ⟨Or.inl ho.symm, hne⟩
    · exact ⟨Or.inr (Or.inl ho.symm), hne⟩
    · exact ⟨Or.inr (Or.inr ho.symm), hne⟩
  · rintro ⟨ho, hne⟩
    refine ⟨⟨some id, ?_, rfl⟩, hne⟩
    rcases ho with ho | ho | ho
    · exact Or.inl ho.symm
    · exact Or.inr (Or.inl ho.symm)
    · exact Or.inr (Or.inr ho.symm)

theorem prompt_of_activeSessionId
    {id : String} (h : activeSessionId s = some id) :
    ∃ p, s.prompts.values.head? = some p ∧ s.prompts.get id = some p := by
  rw [activeSessionId, Dict.keys, List.head?_map, Option.map_eq_some_iff] at h
  obtain ⟨⟨id', p⟩, hhead, rfl⟩ := h
  refine ⟨p, ?_, (s.prompts.get_eq_some_iff id' p).mpr (List.mem_of_head? hhead)⟩
  rw [Dict.values, List.head?_map, hhead, Option.map_some]

/-- Where the first prompt is the chat's own, all that `stop` cancels are sessions of the
chat. -/
theorem owns_of_mem_stopCancels
    (h : Inv s) (hown : OwnFirst s (.stop chat)) {id : String} (hid : id ∈ stopCancels s chat) :
    Owns s chat id := by
  unfold stopCancels at hid
  cases hturn : s.turns.get chat with
  | none =>
      rw [hturn] at hid
      cases hid
  | some active =>
      rw [hturn] at hid
      have hrunning : (s.turns.get chat).isSome = true := by
        rw [hturn]
        rfl
      rcases (mem_candidates.mp hid).1 with hlive | hrecorded | hrecord
      · obtain ⟨p, hhead, hp⟩ := prompt_of_activeSessionId hlive
        have howner := hown hrunning p hhead
        rw [← howner]
        exact h.owner id p hp
      · exact h.turnIds chat active id hturn hrecorded
      · exact h.recordIds chat id hrecord

end Candidates

section Steps

variable {s s' : State} {chat id : String}

theorem inv_prompts
    (h : Inv s) (hturn : (s.turns.get chat).isSome) (hidle : Idle s chat) (hne : id ≠ "")
    (howns : Owns s chat id ∨ s.sessions.get id = none) :
    Inv { s with
      prompts := s.prompts.set id { owner := chat, cancelledBy := [] }
      sessions := s.sessions.set id chat } := by
  -- An id that another chat owns is not the new one.
  have hkeep : ∀ {c i}, Owns s c i → (s.sessions.set id chat).get i = some c := by
    intro c i hci
    rw [Dict.get_set]
    split_ifs with heq
    · obtain rfl := heq
      rcases howns with howns | hnone
      · exact howns.symm.trans hci
      · cases hnone.symm.trans hci
    · exact hci
  have hother : ∀ {i p}, s.prompts.get i = some p → p.owner ≠ chat := fun hp =>
    hidle _ (Dict.mem_values_of_get hp)
  constructor
  · intro i p hp
    rw [Dict.get_set] at hp
    split_ifs at hp with heq
    · exact heq ▸ hne
    · exact h.named i p hp
  · intro i p hp
    rw [Dict.get_set] at hp
    split_ifs at hp with heq
    · obtain rfl := heq
      obtain rfl := Option.some.inj hp
      exact Dict.get_set_self _ _ _
    · exact hkeep (h.owner i p hp)
  · intro i p i' p' hp hp' howner
    rw [Dict.get_set] at hp hp'
    split_ifs at hp hp' with heq heq' heq'
    · exact heq.symm.trans heq'
    · obtain rfl := Option.some.inj hp
      exact absurd howner.symm (hother hp')
    · obtain rfl := Option.some.inj hp'
      exact absurd howner (hother hp)
    · exact h.single i p i' p' hp hp' howner
  · intro i p hp
    rw [Dict.get_set] at hp
    split_ifs at hp
    · obtain rfl := Option.some.inj hp
      exact hturn
    · exact h.running i p hp
  · exact fun c active i hactive hi => hkeep (h.turnIds c active i hactive hi)
  · exact fun c i hrecord => hkeep (h.recordIds c i hrecord)
  · exact fun i c hmem => hkeep (h.requested i c hmem)
  · intro i p hp c hc
    rw [Dict.get_set] at hp
    split_ifs at hp
    · obtain rfl := Option.some.inj hp
      cases hc
    · exact h.cancelled i p hp c hc

theorem inv_returns
    (h : Inv s) :
    Inv { s with prompts := s.prompts.erase id } := by
  have hget : ∀ {i p}, (s.prompts.erase id).get i = some p → s.prompts.get i = some p := by
    intro i p hp
    rw [Dict.get_erase] at hp
    split_ifs at hp
    exact hp
  exact { h with
    named := fun i p hp => h.named i p (hget hp)
    owner := fun i p hp => h.owner i p (hget hp)
    single := fun i p i' p' hp hp' => h.single i p i' p' (hget hp) (hget hp')
    running := fun i p hp => h.running i p (hget hp)
    cancelled := fun i p hp => h.cancelled i p (hget hp) }

/-- A turn that stays and takes a session of its chat. -/
theorem inv_turn
    (h : Inv s) {active : ActiveTurn} (hid : ∀ i, active.sessionId = some i → Owns s chat i) :
    Inv { s with turns := s.turns.set chat active } := by
  refine { h with running := ?_, turnIds := ?_ }
  · intro i p hp
    have hrunning := h.running i p hp
    rw [Dict.get_set]
    split_ifs
    · rfl
    · exact hrunning
  · intro c turn i hturn hi
    rw [Dict.get_set] at hturn
    split_ifs at hturn with hc
    · obtain rfl := hc
      obtain rfl := Option.some.inj hturn
      exact hid i hi
    · exact h.turnIds c turn i hturn hi

theorem inv_records
    (h : Inv s) (howns : Owns s chat id) :
    Inv { s with records := s.records.set chat id } := by
  refine { h with recordIds := ?_ }
  intro c i hrecord
  rw [Dict.get_set] at hrecord
  split_ifs at hrecord with hc
  · obtain rfl := hc
    obtain rfl := Option.some.inj hrecord
    exact howns
  · exact h.recordIds c i hrecord

theorem inv_ends
    (h : Inv s) (hidle : Idle s chat) :
    Inv { s with turns := s.turns.erase chat } := by
  refine { h with running := ?_, turnIds := ?_ }
  · intro i p hp
    have hother : chat ≠ p.owner := Ne.symm (hidle p (Dict.mem_values_of_get hp))
    rw [Dict.get_erase_of_ne _ hother]
    exact h.running i p hp
  · intro c active i hactive hi
    rw [Dict.get_erase] at hactive
    split_ifs at hactive
    exact h.turnIds c active i hactive hi

theorem inv_stop
    (h : Inv s) (hown : OwnFirst s (.stop chat)) :
    Inv (stop s chat).1 := by
  have hall : ∀ i ∈ stopCancels s chat, Owns s chat i := fun i => owns_of_mem_stopCancels h hown
  unfold stop
  cases hturn : s.turns.get chat with
  | none => exact h
  | some active =>
      dsimp only
      cases hcancels : stopCancels s chat with
      | nil =>
          have hid : ∀ i, ({ active with stopped := true } : ActiveTurn).sessionId = some i →
              Owns s chat i :=
            fun i hi => h.turnIds chat active i hturn hi
          exact inv_turn h hid
      | cons first rest =>
          rw [hcancels] at hall
          have hset : Inv { s with
              turns := s.turns.set chat { sessionId := some first, stopped := true } } :=
            inv_turn h fun i hi => by
              obtain rfl := Option.some.inj hi
              exact hall first List.mem_cons_self
          refine { hset with requested := ?_ }
          intro i c hmem
          rcases List.mem_append.mp hmem with hmem | hmem
          · exact h.requested i c hmem
          · obtain ⟨j, hj, heq⟩ := List.mem_map.mp hmem
            obtain ⟨rfl, rfl⟩ := Prod.mk.inj heq
            exact hall j hj

theorem inv_cancels
    {requests : List (String × String)} (h : Inv s) (hrequests : s.requests = (id, chat) :: requests) :
    Inv { s with
      prompts := deliver s id chat
      requests := requests } := by
  have hmine : Owns s chat id := h.requested id chat (by rw [hrequests]; exact List.mem_cons_self)
  -- The prompts are those of before, but for who cancelled them.
  have hget : ∀ {i p}, (deliver s id chat).get i = some p → ∃ q, s.prompts.get i = some q ∧
      p.owner = q.owner ∧ ∀ c ∈ p.cancelledBy, c ∈ q.cancelledBy ∨ c = q.owner := by
    intro i p hp
    unfold deliver at hp
    cases hprompt : s.prompts.get id with
    | none =>
        rw [hprompt] at hp
        exact ⟨p, hp, rfl, fun c hc => Or.inl hc⟩
    | some q =>
        rw [hprompt] at hp
        dsimp only at hp
        rw [Dict.get_set] at hp
        split_ifs at hp with heq
        · obtain rfl := heq
          obtain rfl := Option.some.inj hp
          refine ⟨q, hprompt, rfl, fun c hc => ?_⟩
          rcases List.mem_append.mp hc with hc | hc
          · exact Or.inl hc
          · obtain rfl := List.mem_singleton.mp hc
            exact Or.inr (Option.some.inj (hmine.symm.trans (h.owner id q hprompt)))
        · exact ⟨p, hp, rfl, fun c hc => Or.inl hc⟩
  constructor
  · intro i p hp
    obtain ⟨q, hq, _⟩ := hget hp
    exact h.named i q hq
  · intro i p hp
    obtain ⟨q, hq, howner, _⟩ := hget hp
    rw [howner]
    exact h.owner i q hq
  · intro i p i' p' hp hp' heq
    obtain ⟨q, hq, howner, _⟩ := hget hp
    obtain ⟨q', hq', howner', _⟩ := hget hp'
    exact h.single i q i' q' hq hq' (howner.symm.trans (heq.trans howner'))
  · intro i p hp
    obtain ⟨q, hq, howner, _⟩ := hget hp
    rw [howner]
    exact h.running i q hq
  · exact h.turnIds
  · exact h.recordIds
  · intro i c hmem
    exact h.requested i c (hrequests ▸ List.mem_cons_of_mem _ hmem)
  · intro i p hp c hc
    obtain ⟨q, hq, howner, hcancelled⟩ := hget hp
    rw [howner]
    rcases hcancelled c hc with hc | hc
    · exact h.cancelled i q hq c hc
    · exact hc

theorem inv_step
    {op : Op} (h : Inv s) (hown : OwnFirst s op) (hstep : step s op = some s') :
    Inv s' := by
  cases op with
  | begins chat id =>
      simp only [step] at hstep
      split_ifs at hstep with hguard
      obtain rfl := Option.some.inj hstep
      exact inv_turn h hguard.2
  | prompts chat id =>
      simp only [step] at hstep
      split_ifs at hstep with hguard
      obtain rfl := Option.some.inj hstep
      exact inv_prompts h hguard.1 hguard.2.1 hguard.2.2.1 hguard.2.2.2
  | returns id =>
      obtain rfl := Option.some.inj hstep
      exact inv_returns h
  | reports chat id =>
      simp only [step] at hstep
      split_ifs at hstep with howns
      obtain ⟨active, hturn, rfl⟩ := Option.map_eq_some_iff.mp hstep
      refine inv_turn h fun i hi => ?_
      obtain rfl := Option.some.inj hi
      exact howns
  | records chat id =>
      simp only [step] at hstep
      split_ifs at hstep with howns
      obtain rfl := Option.some.inj hstep
      exact inv_records h howns
  | ends chat =>
      simp only [step] at hstep
      split_ifs at hstep with hidle
      obtain rfl := Option.some.inj hstep
      exact inv_ends h hidle
  | stop chat =>
      obtain rfl := Option.some.inj hstep
      exact inv_stop h hown
  | cancels =>
      simp only [step] at hstep
      cases hrequests : s.requests with
      | nil =>
          rw [hrequests] at hstep
          cases hstep
      | cons request requests =>
          rw [hrequests] at hstep
          obtain rfl := Option.some.inj hstep
          exact inv_cancels h hrequests
  | continues chat =>
      obtain rfl := Option.some.inj hstep
      exact { h with }

end Steps

section Results

end Results

end Turns
end DiploidAgent
