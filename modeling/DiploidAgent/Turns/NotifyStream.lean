import DiploidAgent.Lib.Dict
import DiploidAgent.Lib.Runs

/-!
# The stream of a notified turn

`_NotifyStream` of `turn/notifier.py` over `send`, `edit_message` and `delete_message` of
`TelegramNotifier` in `notifier.py`, with a chat that accepts every call about a message it
holds.

The thread tests the stop flag, polls the turn, tests the flag again and then updates the
placeholders under the lock; `finish` sets the flag, joins the thread for half a second and
puts the final reply under the same lock.  A section under the lock is one step, everything
else may happen between any two steps.

A thread that has passed its second test updates after `finish` too, so the reply stays only
where that update does not touch it (`finish_whole`).
-/

namespace DiploidAgent
namespace Turns
namespace NotifyStream

open Runs

section Chat

/-- `text[:4096]`. -/
def shown (text : String) : String := String.ofList (text.toList.take 4096)

/-- The messages of a chat by their ids; a new one gets the next id. -/
structure Chat where
  texts : Dict Nat String
  next : Nat
  bound : ∀ id text, texts.get id = some text → id < next

namespace Chat

theorem bound_set_next
    (chat : Chat) (text : String) (id : Nat) (text' : String)
    (hget : (chat.texts.set chat.next (shown text)).get id = some text') :
    id < chat.next + 1 := by
  rw [Dict.get_set] at hget
  split_ifs at hget with hid
  · omega
  · have hlt := chat.bound id text' hget
    omega

/-- `TelegramNotifier.send`. -/
def send (chat : Chat) (text : String) : Chat × Nat :=
  ({ texts := chat.texts.set chat.next (shown text)
     next := chat.next + 1
     bound := bound_set_next chat text }, chat.next)

/-- `TelegramNotifier.edit_message`; there has to be such a message. -/
def editMessage (chat : Chat) (id : Nat) (text : String) : Chat × Bool :=
  if h : shown text ≠ "" ∧ (chat.texts.get id).isSome then
    ({ texts := chat.texts.set id (shown text)
       next := chat.next
       bound := by
        intro id' text' hget
        rw [Dict.get_set] at hget
        split_ifs at hget with hid
        · obtain ⟨old, hold⟩ := Option.isSome_iff_exists.mp h.2
          exact hid ▸ chat.bound id old hold
        · exact chat.bound id' text' hget }, true)
  else (chat, false)

/-- `TelegramNotifier.delete_message`. -/
def deleteMessage (chat : Chat) (id : Nat) : Chat :=
  { texts := chat.texts.erase id
    next := chat.next
    bound := by
      intro id' text' hget
      rw [Dict.get_erase] at hget
      split_ifs at hget
      exact chat.bound id' text' hget }

end Chat

end Chat

section Model

/-- The keys of `turn_status` that the stream reads. -/
structure Status where
  status : String
  messageText : String := ""
  thoughtText : String := ""
deriving DecidableEq, Repr

/-- The keys of the wake payload that it reads. -/
structure Payload where
  messageId : Option Nat := none
  thoughtId : Option Nat := none
  messageText : String := ""
  thoughtText : String := ""

/-- What it reads of a `ChatResult`; a notice that is not there is empty. -/
structure ChatResult where
  reply : String
  notice : String := ""
  continuation : Bool := false
deriving DecidableEq, Repr

/-- The arguments of the constructor. -/
structure Config where
  notify : Bool
  streamThoughts : Bool
  minEditInterval : Int

/-- Where the stream thread stands. -/
inductive ThreadPc where
  | absent
  | test
  | poll
  | retest (status : Status)
  | update (status : Status)
  | ended
deriving DecidableEq, Repr

/-- Where `finish` stands; `kept` has returned and left the placeholders to the next
stream. -/
inductive FinishPc where
  | idle
  | join (result : ChatResult)
  | kept (sent : List Nat)
  | put (result : ChatResult)
  | notice (result : ChatResult) (sent : List Nat)
  | returned (result : ChatResult) (sent : List Nat)
deriving DecidableEq, Repr

/-- The stream, its thread, `finish` and the chat. -/
structure State where
  replyId : Option Nat
  thoughtId : Option Nat
  lastText : String
  lastThought : String
  lastEdit : Int := 0
  stopped : Bool := false
  thread : ThreadPc := .absent
  finish : FinishPc := .idle
  chat : Chat

/-- `__init__`. -/
def init (payload : Payload) (chat : Chat) : State where
  replyId := payload.messageId
  thoughtId := payload.thoughtId
  lastText := payload.messageText
  lastThought := payload.thoughtText
  chat := chat

/-- Make the reply placeholder, unless there is one. -/
def placeReply (s : State) : State :=
  match s.replyId with
  | some _ => s
  | none =>
      let sent := s.chat.send "..."
      { s with replyId := some sent.2, chat := sent.1 }

/-- Make the thought placeholder, unless there is one. -/
def placeThought (s : State) : State :=
  match s.thoughtId with
  | some _ => s
  | none =>
      let sent := s.chat.send "Thinking..."
      { s with thoughtId := some sent.2, chat := sent.1 }

/-- `start`. -/
def start (cfg : Config) (payload : Payload) (chat : Chat) (now : Int) : State :=
  let s := init payload chat
  if cfg.notify then
    let s := placeReply s
    let s := if cfg.streamThoughts then placeThought s else s
    { s with lastEdit := now, thread := .test }
  else s

/-- The part of `_update` about the reply. -/
def updateReply (s : State) (text : String) : State × Bool :=
  match s.replyId with
  | none => (s, false)
  | some id =>
      if text ≠ "" ∧ text ≠ s.lastText then
        ({ s with chat := (s.chat.editMessage id text).1, lastText := text }, true)
      else (s, false)

/-- The part of `_update` about the thoughts. -/
def updateThought (s : State) (text : String) : State × Bool :=
  match s.thoughtId with
  | none => (s, false)
  | some id =>
      if text ≠ "" ∧ text ≠ s.lastThought then
        ({ s with chat := (s.chat.editMessage id text).1, lastThought := text }, true)
      else (s, false)

/-- `_update`. -/
def update (cfg : Config) (s : State) (status : Status) (now : Int) : State :=
  if now - s.lastEdit < cfg.minEditInterval then s
  else
    let r := updateReply s status.messageText
    let t := updateThought r.1 status.thoughtText
    if r.2 || t.2 then { t.1 with lastEdit := now } else t.1

/-- `finish` under the lock: the reply.  The ids of the messages that hold it are returned. -/
def putReply (s : State) (reply : String) : State × List Nat :=
  match s.replyId with
  | none =>
      if reply = "" then (s, [])
      else ({ s with chat := (s.chat.send reply).1 }, [(s.chat.send reply).2])
  | some id =>
      if reply = "" then ({ s with chat := s.chat.deleteMessage id }, [])
      else
        let edited := s.chat.editMessage id reply
        if edited.2 then ({ s with chat := edited.1 }, [id])
        else ({ s with chat := (edited.1.send reply).1 }, [(edited.1.send reply).2])

/-- `finish` under the lock: the thoughts. -/
def putThought (s : State) : State :=
  match s.thoughtId with
  | none => s
  | some id =>
      if s.lastThought ≠ "" then { s with chat := (s.chat.editMessage id s.lastThought).1 }
      else { s with chat := s.chat.deleteMessage id }

/-- One step of the thread or of `finish`. -/
inductive Label where
  | test
  | polled (status : Status)
  | retest
  | update (now : Int)
  | finish (result : ChatResult)
  | joined
  | put
  | notice
deriving DecidableEq, Repr

/-- The first lines of `finish`. -/
def beginFinish (cfg : Config) (s : State) (result : ChatResult) : State :=
  if cfg.notify = false then { s with finish := .kept [] }
  else if s.replyId.isNone then
    { s with
      chat := (s.chat.send result.reply).1
      finish := .returned result [(s.chat.send result.reply).2] }
  else { s with stopped := true, finish := .join result }

/-- One step; `joined` is the end of the join, with the thread ended or not. -/
def step (cfg : Config) (s : State) : Label → Option State
  | .test =>
      match s.thread with
      | .test => some { s with thread := if s.stopped then .ended else .poll }
      | _ => none
  | .polled status =>
      match s.thread with
      | .poll => some { s with thread := .retest status }
      | _ => none
  | .retest =>
      match s.thread with
      | .retest status =>
          some { s with thread :=
            if s.stopped || status.status != "running" then .ended else .update status }
      | _ => none
  | .update now =>
      match s.thread with
      | .update status => some { update cfg s status now with thread := .test }
      | _ => none
  | .finish result =>
      match s.finish with
      | .idle => some (beginFinish cfg s result)
      | _ => none
  | .joined =>
      match s.finish with
      | .join result =>
          some { s with finish :=
            if result.continuation then .kept s.replyId.toList else .put result }
      | _ => none
  | .put =>
      match s.finish with
      | .put result =>
          let r := putReply s result.reply
          some { putThought r.1 with finish := .notice result r.2 }
      | _ => none
  | .notice =>
      match s.finish with
      | .notice result sent =>
          if result.notice = "" then some { s with finish := .returned result sent }
          else
            let r := s.chat.send ("System: " ++ result.notice)
            some { s with chat := r.1, finish := .returned result (sent ++ [r.2]) }
      | _ => none

end Model

section Properties

/-- The result whose reply `finish` has put. -/
def FinishPc.final : FinishPc → Option ChatResult
  | .notice result _ | .returned result _ => some result
  | _ => none

/-- The update edits the reply placeholder. -/
def Rewrites (cfg : Config) (s : State) (status : Status) (now : Int) : Prop :=
  ¬ now - s.lastEdit < cfg.minEditInterval ∧ status.messageText ≠ "" ∧
    status.messageText ≠ s.lastText

/-- The reply that is put fits in one message, which is not the thought placeholder too, and
an update after that leaves it or shows the same text. -/
def FinalKept (cfg : Config) (s : State) : Label → Prop
  | .put => ∀ result, s.finish = .put result → result.reply ≠ "" →
      result.reply.length ≤ 4096 ∧ s.thoughtId ≠ s.replyId
  | .update now => ∀ status result, s.thread = .update status →
      s.finish.final = some result → result.reply ≠ "" →
      Rewrites cfg s status now → shown status.messageText = result.reply
  | _ => True

/-- Once the final reply has been put, the placeholder shows it, and the whole of it. -/
def Whole (cfg : Config) (s : State) : Prop :=
  cfg.notify = true → ∀ result, s.finish.final = some result → result.reply ≠ "" →
    ∃ id, s.replyId = some id ∧ s.chat.texts.get id = some result.reply

end Properties

section Chat

variable {chat : Chat} {id id' : Nat} {text : String}

theorem shown_of_le
    (h : text.length ≤ 4096) :
    shown text = text := by
  rw [shown, List.take_of_length_le (by rw [String.length_toList]; exact h), String.ofList_toList]

/-- A new message leaves the others. -/
theorem get_send
    (h : chat.texts.get id = some text) (new : String) :
    (chat.send new).1.texts.get id = some text := by
  have hlt := chat.bound id text h
  rw [Chat.send, Dict.get_set_of_ne _ (by omega)]
  exact h

theorem get_send_self
    (chat : Chat) (new : String) :
    (chat.send new).1.texts.get (chat.send new).2 = some (shown new) :=
  Dict.get_set_self _ _ _

/-- An edit leaves the other messages. -/
theorem get_editMessage_of_ne
    (hne : id ≠ id') (new : String) :
    (chat.editMessage id new).1.texts.get id' = chat.texts.get id' := by
  unfold Chat.editMessage
  split_ifs
  · exact Dict.get_set_of_ne _ hne _
  · rfl

/-- A message that is edited shows the new text, if there is one. -/
theorem get_editMessage_self
    (h : (chat.texts.get id).isSome = true) (new : String) :
    (chat.editMessage id new).1.texts.get id =
      if shown new = "" then chat.texts.get id else some (shown new) := by
  unfold Chat.editMessage
  by_cases hempty : shown new = ""
  · rw [dif_neg (fun hboth => hboth.1 hempty), if_pos hempty]
  · rw [dif_pos ⟨hempty, h⟩, if_neg hempty]
    exact Dict.get_set_self _ _ _

theorem editMessage_snd
    (h : (chat.texts.get id).isSome = true) {new : String} (hnew : shown new ≠ "") :
    (chat.editMessage id new).2 = true := by
  rw [Chat.editMessage, dif_pos ⟨hnew, h⟩]

theorem isSome_editMessage
    (h : (chat.texts.get id').isSome = true) (id : Nat) (new : String) :
    ((chat.editMessage id new).1.texts.get id').isSome = true := by
  by_cases hid : id = id'
  · subst hid
    rw [get_editMessage_self h]
    split_ifs
    · exact h
    · rfl
  · rw [get_editMessage_of_ne hid]
    exact h

theorem get_deleteMessage_of_ne
    (hne : id ≠ id') :
    (chat.deleteMessage id).texts.get id' = chat.texts.get id' :=
  Dict.get_erase_of_ne _ hne

end Chat

section Steps

variable {cfg : Config} {s : State} {id : Nat}

/-- What an update leaves: the placeholders, the messages of the chat, and the reply where
the reply is not edited. -/
structure Updated (s s' : State) : Prop where
  replyId : s'.replyId = s.replyId
  thoughtId : s'.thoughtId = s.thoughtId
  finish : s'.finish = s.finish
  held : ∀ id, (s.chat.texts.get id).isSome = true → (s'.chat.texts.get id).isSome = true

theorem updated_reply
    (s : State) (text : String) :
    Updated s (updateReply s text).1 := by
  unfold updateReply
  split
  · exact ⟨rfl, rfl, rfl, fun _ h => h⟩
  · rename_i id hid
    split_ifs
    · exact ⟨rfl, rfl, rfl, fun _ h => isSome_editMessage h id text⟩
    · exact ⟨rfl, rfl, rfl, fun _ h => h⟩

theorem updated_thought
    (s : State) (text : String) :
    Updated s (updateThought s text).1 := by
  unfold updateThought
  split
  · exact ⟨rfl, rfl, rfl, fun _ h => h⟩
  · rename_i id hid
    split_ifs
    · exact ⟨rfl, rfl, rfl, fun _ h => isSome_editMessage h id text⟩
    · exact ⟨rfl, rfl, rfl, fun _ h => h⟩

theorem Updated.trans
    {s₁ s₂ s₃ : State} (h : Updated s₁ s₂) (h' : Updated s₂ s₃) :
    Updated s₁ s₃ :=
  ⟨h'.replyId.trans h.replyId, h'.thoughtId.trans h.thoughtId, h'.finish.trans h.finish,
    fun id hid => h'.held id (h.held id hid)⟩

theorem updated_update
    (s : State) (status : Status) (now : Int) :
    Updated s (update cfg s status now) := by
  have hboth := (updated_reply s status.messageText).trans
    (updated_thought (updateReply s status.messageText).1 status.thoughtText)
  unfold update
  split_ifs with hearly
  · exact ⟨rfl, rfl, rfl, fun _ h => h⟩
  · dsimp only
    split_ifs
    · exact ⟨hboth.replyId, hboth.thoughtId, hboth.finish, hboth.held⟩
    · exact hboth

theorem get_updateThought
    (hthought : s.thoughtId ≠ some id) (text : String) :
    (updateThought s text).1.chat.texts.get id = s.chat.texts.get id := by
  unfold updateThought
  split
  · rfl
  · rename_i thoughtId hid
    split_ifs
    · refine get_editMessage_of_ne ?_ text
      rintro rfl
      exact hthought hid
    · rfl

theorem get_updateReply
    {text reply : String}
    (hid : s.replyId = some id)
    (hshown : s.chat.texts.get id = some reply)
    (hsame : text ≠ "" → text ≠ s.lastText → shown text = reply) :
    (updateReply s text).1.chat.texts.get id = some reply := by
  have hheld : (s.chat.texts.get id).isSome = true := by
    rw [hshown]
    rfl
  rw [updateReply, hid]
  dsimp only
  split_ifs with hedit
  · rw [get_editMessage_self hheld, hsame hedit.1 hedit.2]
    split_ifs
    · exact hshown
    · rfl
  · exact hshown

/-- An update that leaves the reply, or shows the same text, keeps what is shown. -/
theorem get_update
    {status : Status} {now : Int} {reply : String}
    (hid : s.replyId = some id)
    (hthought : s.thoughtId ≠ some id)
    (hshown : s.chat.texts.get id = some reply)
    (hsame : Rewrites cfg s status now → shown status.messageText = reply) :
    (update cfg s status now).chat.texts.get id = some reply := by
  unfold update
  split_ifs with hearly
  · exact hshown
  · have hreply := get_updateReply hid hshown fun hne hlast => hsame ⟨hearly, hne, hlast⟩
    have hkept := (updated_reply s status.messageText).thoughtId
    have hother : (updateReply s status.messageText).1.thoughtId ≠ some id := by
      rw [hkept]
      exact hthought
    have hafter := (get_updateThought hother status.thoughtText).trans hreply
    dsimp only
    split_ifs
    · exact hafter
    · exact hafter

theorem get_putThought
    (hthought : s.thoughtId ≠ some id) :
    (putThought s).chat.texts.get id = s.chat.texts.get id := by
  have hne : ∀ thoughtId, s.thoughtId = some thoughtId → thoughtId ≠ id := by
    rintro thoughtId hid rfl
    exact hthought hid
  unfold putThought
  split
  · rfl
  · rename_i thoughtId hid
    split_ifs
    · exact get_editMessage_of_ne (hne thoughtId hid) _
    · exact get_deleteMessage_of_ne (hne thoughtId hid)

theorem putThought_ids
    (s : State) :
    (putThought s).replyId = s.replyId ∧ (putThought s).thoughtId = s.thoughtId := by
  unfold putThought
  split
  · exact ⟨rfl, rfl⟩
  · split_ifs
    · exact ⟨rfl, rfl⟩
    · exact ⟨rfl, rfl⟩

theorem putReply_ids
    (s : State) (reply : String) :
    (putReply s reply).1.replyId = s.replyId ∧
      (putReply s reply).1.thoughtId = s.thoughtId := by
  unfold putReply
  split
  · split_ifs
    · exact ⟨rfl, rfl⟩
    · exact ⟨rfl, rfl⟩
  · dsimp only
    split_ifs
    · exact ⟨rfl, rfl⟩
    · exact ⟨rfl, rfl⟩
    · exact ⟨rfl, rfl⟩

/-- A reply that fits is shown in the placeholder. -/
theorem get_putReply
    {reply : String}
    (hid : s.replyId = some id)
    (hheld : (s.chat.texts.get id).isSome = true)
    (hreply : reply ≠ "")
    (hfits : reply.length ≤ 4096) :
    (putReply s reply).1.chat.texts.get id = some reply := by
  have hshown := shown_of_le hfits
  have hedited := editMessage_snd hheld (hshown.symm ▸ hreply)
  rw [putReply, hid]
  dsimp only
  rw [if_neg hreply, if_pos hedited]
  change (s.chat.editMessage id reply).1.texts.get id = some reply
  rw [get_editMessage_self hheld, hshown, if_neg hreply]

end Steps

section Runs

variable {cfg : Config} {s s' : State}

/-- What every step keeps: a placeholder that is in the chat until the reply is put, and that
shows the reply from then on. -/
def Inv (cfg : Config) (s : State) : Prop :=
  cfg.notify = true → ∃ id, s.replyId = some id ∧
    (s.finish.final = none → (s.chat.texts.get id).isSome = true) ∧
    ∀ result, s.finish.final = some result → result.reply ≠ "" →
      s.thoughtId ≠ some id ∧ s.chat.texts.get id = some result.reply

/-- A step that keeps the placeholders, the chat and what has been put. -/
theorem Inv.of_same
    (h : Inv cfg s)
    (hreply : s'.replyId = s.replyId)
    (hthought : s'.thoughtId = s.thoughtId)
    (hchat : s'.chat = s.chat)
    (hfinal : s'.finish.final = s.finish.final) :
    Inv cfg s' := by
  unfold Inv at h ⊢
  rw [hreply, hthought, hchat, hfinal]
  exact h

theorem inv_start
    {payload : Payload} {chat : Chat}
    (hknown : ∀ id, payload.messageId = some id → (chat.texts.get id).isSome = true)
    (now : Int) :
    Inv cfg (start cfg payload chat now) := by
  intro hnotify
  obtain ⟨id, hid, hheld, hfinish⟩ : ∃ id, (placeReply (init payload chat)).replyId = some id ∧
      ((placeReply (init payload chat)).chat.texts.get id).isSome = true ∧
      (placeReply (init payload chat)).finish = .idle := by
    unfold placeReply
    split
    · rename_i id hid
      exact ⟨id, hid, hknown id hid, rfl⟩
    · refine ⟨_, rfl, ?_, rfl⟩
      rw [get_send_self]
      rfl
  have hthought : ∀ s : State, s.replyId = some id → (s.chat.texts.get id).isSome = true →
      s.finish = .idle → (placeThought s).replyId = some id ∧
        ((placeThought s).chat.texts.get id).isSome = true ∧ (placeThought s).finish = .idle := by
    intro s hreply hshown hidle
    unfold placeThought
    split
    · exact ⟨hreply, hshown, hidle⟩
    · obtain ⟨text, htext⟩ := Option.isSome_iff_exists.mp hshown
      refine ⟨hreply, ?_, hidle⟩
      rw [get_send htext]
      rfl
  unfold start
  rw [if_pos hnotify]
  dsimp only
  split_ifs
  · obtain ⟨hid', hheld', hfinish'⟩ := hthought _ hid hheld hfinish
    refine ⟨id, hid', fun _ => hheld', fun result hresult => ?_⟩
    rw [hfinish'] at hresult
    cases hresult
  · refine ⟨id, hid, fun _ => hheld, fun result hresult => ?_⟩
    rw [hfinish] at hresult
    cases hresult

theorem inv_update
    {status : Status} {now : Int}
    (h : Inv cfg s)
    (hcond : ∀ result, s.finish.final = some result → result.reply ≠ "" →
      Rewrites cfg s status now → shown status.messageText = result.reply) :
    Inv cfg { update cfg s status now with thread := .test } := by
  intro hnotify
  obtain ⟨id, hid, hheld, hput⟩ := h hnotify
  have hupdated : Updated s (update cfg s status now) := updated_update s status now
  refine ⟨id, hupdated.replyId.trans hid, fun hnone => ?_, fun result hresult hne => ?_⟩
  · refine hupdated.held id (hheld ?_)
    rw [← hupdated.finish]
    exact hnone
  · have hfinal : s.finish.final = some result := by
      rw [← hupdated.finish]
      exact hresult
    obtain ⟨hthought, hshown⟩ := hput result hfinal hne
    constructor
    · exact fun hsame => hthought (hupdated.thoughtId.symm.trans hsame)
    · exact get_update hid hthought hshown (hcond result hfinal hne)

theorem inv_put
    {result : ChatResult}
    (h : Inv cfg s)
    (hpc : s.finish = .put result)
    (hcond : result.reply ≠ "" → result.reply.length ≤ 4096 ∧ s.thoughtId ≠ s.replyId) :
    Inv cfg { putThought (putReply s result.reply).1 with
      finish := .notice result (putReply s result.reply).2 } := by
  intro hnotify
  obtain ⟨id, hid, hheld, _⟩ := h hnotify
  obtain ⟨hreplyId, hthoughtId⟩ := putReply_ids s result.reply
  obtain ⟨hreplyId', hthoughtId'⟩ := putThought_ids (putReply s result.reply).1
  have hpresent := hheld (by rw [hpc]; rfl)
  refine ⟨id, (hreplyId'.trans hreplyId).trans hid, fun hnone => ?_, fun result' hresult hne => ?_⟩
  · cases hnone
  · obtain rfl : result = result' := Option.some.inj hresult
    obtain ⟨hfits, hother⟩ := hcond hne
    have hthought : (putReply s result.reply).1.thoughtId ≠ some id := by
      rw [hthoughtId, ← hid]
      exact hother
    constructor
    · exact fun hsame => hthought (hthoughtId'.symm.trans hsame)
    · exact (get_putThought hthought).trans (get_putReply hid hpresent hne hfits)

theorem inv_notice
    {result : ChatResult} {sent sent' : List Nat}
    (h : Inv cfg s)
    (hpc : s.finish = .notice result sent) (text : String) :
    Inv cfg { s with chat := (s.chat.send text).1, finish := .returned result sent' } := by
  intro hnotify
  obtain ⟨id, hid, _, hput⟩ := h hnotify
  refine ⟨id, hid, fun hnone => ?_, fun result' hresult hne => ?_⟩
  · cases hnone
  · obtain rfl : result = result' := Option.some.inj hresult
    obtain ⟨hthought, hshown⟩ := hput result (by rw [hpc]; rfl) hne
    exact ⟨hthought, get_send hshown _⟩

/-- Every step that meets the condition keeps the invariant. -/
theorem inv_step
    (h : Inv cfg s)
    {a : Label}
    (hcond : FinalKept cfg s a)
    (hstep : step cfg s a = some s') :
    Inv cfg s' := by
  cases a with
  | test =>
      rw [step] at hstep
      split at hstep
      · obtain rfl := Option.some.inj hstep
        exact h.of_same rfl rfl rfl rfl
      · cases hstep
  | polled status =>
      rw [step] at hstep
      split at hstep
      · obtain rfl := Option.some.inj hstep
        exact h.of_same rfl rfl rfl rfl
      · cases hstep
  | retest =>
      rw [step] at hstep
      split at hstep
      · obtain rfl := Option.some.inj hstep
        exact h.of_same rfl rfl rfl rfl
      · cases hstep
  | update now =>
      rw [step] at hstep
      split at hstep
      · rename_i status hpc
        obtain rfl := Option.some.inj hstep
        exact inv_update h fun result => hcond status result hpc
      · cases hstep
  | finish result =>
      rw [step] at hstep
      split at hstep
      · rename_i hpc
        obtain rfl := Option.some.inj hstep
        intro hnotify
        obtain ⟨id, hid, hheld, _⟩ := h hnotify
        have hbegin : beginFinish cfg s result = { s with stopped := true, finish := .join result } := by
          rw [beginFinish, if_neg (by simp [hnotify]), if_neg (by simp [hid])]
        rw [hbegin]
        refine ⟨id, hid, fun _ => hheld (by rw [hpc]; rfl), fun result' hresult => ?_⟩
        cases hresult
      · cases hstep
  | joined =>
      rw [step] at hstep
      split at hstep
      · rename_i result hpc
        obtain rfl := Option.some.inj hstep
        refine h.of_same rfl rfl rfl ?_
        rw [hpc]
        dsimp only
        split_ifs
        · rfl
        · rfl
      · cases hstep
  | put =>
      rw [step] at hstep
      split at hstep
      · rename_i result hpc
        obtain rfl := Option.some.inj hstep
        exact inv_put h hpc (hcond result hpc)
      · cases hstep
  | notice =>
      rw [step] at hstep
      split at hstep
      · rename_i result sent hpc
        split_ifs at hstep
        · obtain rfl := Option.some.inj hstep
          refine h.of_same rfl rfl rfl ?_
          rw [hpc]
          rfl
        · obtain rfl := Option.some.inj hstep
          exact inv_notice h hpc _
      · cases hstep

end Runs

end NotifyStream
end Turns
end DiploidAgent
