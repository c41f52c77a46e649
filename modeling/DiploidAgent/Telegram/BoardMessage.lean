import Mathlib.Data.List.Infix
import DiploidAgent.Lib.Dict
import DiploidAgent.Lib.JsonDumps
import DiploidAgent.Lib.Runs

/-!
# The message of a task board

`update_task_board` of `notifier.py` with the chats of Telegram beside it.  The notifier keeps the
id of a chat's board in memory and in a file; it edits that message, and sends a new one when
Telegram says that the message is gone.  Users delete messages at any time, requests fail or are
handled without an answer, the file may not be writable, and the process restarts.

As long as no sent message goes unanswered and the ids are in the files when the process restarts,
a chat has at most one board that can still be edited, and an update that returns true leaves the
text on it (`board_single`).
-/

namespace DiploidAgent
namespace BoardMessage

open JsonText Runs

universe u

variable {F : Type u}

/-! ### Telegram -/

/-- What a request raises: an error status or a refusal with its description, a request error, or
anything else. -/
inductive Fault where
  | status (code : Nat) (description : List Char)
  | refused (description : List Char)
  | request
  | other

/-- What becomes of a request: it is handled and answered, handled although the client sees a fault,
or not handled.  The gap is that to the id of the next message. -/
inductive Fate where
  | answered (gap : Nat)
  | lost (fault : Fault) (gap : Nat)
  | failed (fault : Fault)

structure Message where
  text : List Char
  editable : Bool
deriving DecidableEq

structure Remote where
  messages : Dict (String × Int) Message
  lastId : Int

def deliver (remote : Remote) (chatId : String) (text : List Char) (gap : Nat) : Remote × Int :=
  let id := remote.lastId + 1 + gap
  ({ messages := remote.messages.set (chatId, id) ⟨text, true⟩, lastId := id }, id)

/-- `sendMessage`. -/
def sendMessage (remote : Remote) (chatId : String) (text : List Char) :
    Fate → Remote × Except Fault Int
  | .answered gap =>
      let sent := deliver remote chatId text gap
      (sent.1, .ok sent.2)
  | .lost fault gap => ((deliver remote chatId text gap).1, .error fault)
  | .failed fault => (remote, .error fault)

/-- How Telegram handles an edit; `none` is that it is done. -/
def applyEdit (remote : Remote) (chatId : String) (messageId : Int) (text : List Char) :
    Remote × Option Fault :=
  match remote.messages.get (chatId, messageId) with
  | none => (remote, some (.status 400 "Bad Request: message to edit not found".toList))
  | some message =>
      if !message.editable then
        (remote, some (.status 400 "Bad Request: message can't be edited".toList))
      else if message.text = text then
        (remote, some (.status 400 "Bad Request: message is not modified".toList))
      else
        ({ remote with messages := remote.messages.set (chatId, messageId) ⟨text, true⟩ }, none)

/-- `editMessageText`. -/
def editMessageText (remote : Remote) (chatId : String) (messageId : Int) (text : List Char) :
    Fate → Remote × Option Fault
  | .answered _ => applyEdit remote chatId messageId text
  | .lost fault _ => ((applyEdit remote chatId messageId text).1, some fault)
  | .failed fault => (remote, some fault)

/-! ### The notifier -/

/-- Whether there is a state directory, and whether `int` reads a chat id. -/
structure Config where
  stateDir : Bool
  isInt : String → Bool

/-- The chats, `_board_ids`, and the files by the chat in their name. -/
structure State where
  remote : Remote
  boardIds : Dict String Int
  files : Dict String (List Char)

def initial : State :=
  { remote := ⟨Dict.empty, 0⟩, boardIds := Dict.empty, files := Dict.empty }

def maxRetries : Nat := 3

def maxText : Nat := 4096

/-- The faults after which `send` tries again. -/
def Fault.isTransient : Fault → Bool
  | .status code _ => code = 429 || (500 ≤ code && code < 600)
  | .refused _ => false
  | .request => true
  | .other => false

/-- The loop of `send` with `left` attempts to go. -/
def sendLoop (chatId : String) (text : List Char) (fates : Nat → Fate) :
    Nat → Remote → Remote × Option Int
  | 0, remote => (remote, none)
  | left + 1, remote =>
      match sendMessage remote chatId text (fates (maxRetries - left)) with
      | (remote, .ok messageId) => (remote, some messageId)
      | (remote, .error fault) =>
          if fault.isTransient && decide (0 < left) then sendLoop chatId text fates left remote
          else (remote, none)

/-- `send`. -/
def send (chatId : String) (text : List Char) (fates : Nat → Fate) (remote : Remote) :
    Remote × Option Int :=
  sendLoop chatId (text.take maxText) fates maxRetries remote

/-- `int(data["message_id"])`; no notifier writes another value. -/
def messageId? (N : FloatText F) (file : List Char) : Option Int :=
  match loads N file with
  | some (.obj members) =>
      match member members "message_id" with
      | some (.scalar (.int messageId)) => some messageId
      | _ => none
  | _ => none

def fileId (N : FloatText F) (cfg : Config) (s : State) (chatId : String) : Option Int :=
  if cfg.stateDir then (s.files.get chatId).bind (messageId? N) else none

/-- The id `_board_message_id` returns. -/
def known (N : FloatText F) (cfg : Config) (s : State) (chatId : String) : Option Int :=
  (s.boardIds.get chatId).or (fileId N cfg s chatId)

/-- `_board_message_id`. -/
def boardMessageId (N : FloatText F) (cfg : Config) (s : State) (chatId : String) :
    State × Option Int :=
  match known N cfg s chatId with
  | some messageId => ({ s with boardIds := s.boardIds.set chatId messageId }, some messageId)
  | none => (s, none)

def boardFile (N : FloatText F) (messageId : Int) : List Char :=
  dumps true N (.obj [("message_id".toList, .scalar (.int messageId))])

/-- `_save_board_id`; `writable` is that no `OSError` is raised. -/
def saveBoardId (N : FloatText F) (cfg : Config) (s : State) (chatId : String) (messageId : Int)
    (writable : Bool) : State :=
  if cfg.stateDir && writable then
    { s with files := s.files.set chatId (boardFile N messageId) }
  else s

def mentions (description : List Char) (marker : String) : Bool :=
  decide (marker.toList <:+: description.map Char.toLower)

def boardEditMissingMarkers : List String :=
  ["not found", "can't be edited", "identifier is not specified"]

inductive EditResult where
  | ok
  | missing
  | error
deriving DecidableEq

/-- What a description means. -/
def readDescription (description : List Char) : EditResult :=
  if mentions description "not modified" then .ok
  else if boardEditMissingMarkers.any (mentions description) then .missing
  else .error

def editResult : Option Fault → EditResult
  | none => .ok
  | some (.status _ description) => readDescription description
  | some (.refused description) => readDescription description
  | some .request => .error
  | some .other => .error

/-- `_edit_board_message`. -/
def editBoardMessage (s : State) (chatId : String) (messageId : Int) (text : List Char)
    (fate : Fate) : State × EditResult :=
  let edited := editMessageText s.remote chatId messageId text fate
  match editResult edited.2 with
  | .ok => ({ s with remote := edited.1 }, .ok)
  | .missing => ({ s with remote := edited.1, boardIds := s.boardIds.erase chatId }, .missing)
  | .error => ({ s with remote := edited.1 }, .error)

/-- The last lines of `update_task_board`: a new message for the chat. -/
def sendBoard (N : FloatText F) (cfg : Config) (s : State) (chatId : String) (text : List Char)
    (fates : Nat → Fate) (writable : Bool) : State × Bool :=
  match send chatId text fates s.remote with
  | (remote, none) => ({ s with remote := remote }, false)
  | (remote, some messageId) =>
      (saveBoardId N cfg
        { s with remote := remote, boardIds := s.boardIds.set chatId messageId }
        chatId messageId writable, true)

/-- What the environment decides in one update. -/
structure Choice where
  edit : Fate
  sends : Nat → Fate
  writable : Bool

/-- `update_task_board`. -/
def updateTaskBoard (N : FloatText F) (cfg : Config) (s : State) (chatId : String)
    (text : List Char) (choice : Choice) : State × Bool :=
  if !cfg.isInt chatId then (s, false)
  else
    let text := text.take maxText
    if text = [] then (s, false)
    else
      match boardMessageId N cfg s chatId with
      | (s, none) => sendBoard N cfg s chatId text choice.sends choice.writable
      | (s, some messageId) =>
          match editBoardMessage s chatId messageId text choice.edit with
          | (s, .ok) => (s, true)
          | (s, .error) => (s, false)
          | (s, .missing) => sendBoard N cfg s chatId text choice.sends choice.writable

/-! ### Runs -/

inductive Label where
  | update (chatId : String) (text : List Char) (choice : Choice)
  | restart
  /-- A user deletes a message. -/
  | delete (chatId : String) (messageId : Int)
  /-- A message gets too old to be edited. -/
  | freeze (chatId : String) (messageId : Int)

def step (N : FloatText F) (cfg : Config) (s : State) : Label → Option State
  | .update chatId text choice => some (updateTaskBoard N cfg s chatId text choice).1
  | .restart => some { s with boardIds := Dict.empty }
  | .delete chatId messageId =>
      some { s with
        remote := { s.remote with messages := s.remote.messages.erase (chatId, messageId) } }
  | .freeze chatId messageId =>
      match s.remote.messages.get (chatId, messageId) with
      | none => some s
      | some message =>
          some { s with
            remote := { s.remote with
              messages :=
                s.remote.messages.set (chatId, messageId) { message with editable := false } } }

section Proofs

variable {N : FloatText F} {cfg : Config} {s s' : State} {remote : Remote}
variable {chatId : String} {text : List Char} {messageId : Int}

/-- The chat has the message, and it can be edited. -/
def Editable (remote : Remote) (chatId : String) (messageId : Int) : Prop :=
  ∃ text, remote.messages.get (chatId, messageId) = some ⟨text, true⟩

/-- The ids in memory are in the files. -/
def Saved (N : FloatText F) (cfg : Config) (s : State) : Prop :=
  ∀ chatId messageId, s.boardIds.get chatId = some messageId →
    fileId N cfg s chatId = some messageId

/-- A fault is not taken for an answer of Telegram. -/
def Plain : Fate → Prop
  | .answered _ => True
  | .lost fault _ => editResult (some fault) = .error
  | .failed fault => editResult (some fault) = .error

/-- No sent message goes unanswered, and the ids are in the files when the process restarts. -/
def Cond (N : FloatText F) (cfg : Config) (s : State) : Label → Prop
  | .update _ _ choice =>
      Plain choice.edit ∧ ∀ attempt fault gap, choice.sends attempt ≠ .lost fault gap
  | .restart => Saved N cfg s
  | _ => True

/-- What can be edited in a chat is the message whose id is known. -/
def Inv (N : FloatText F) (cfg : Config) (s : State) : Prop :=
  ∀ chatId messageId, Editable s.remote chatId messageId →
    known N cfg s chatId = some messageId

/-! Reading and writing the file -/

@[simp] theorem messageId?_boardFile (messageId : Int) :
    messageId? N (boardFile N messageId) = some messageId := by
  rw [messageId?, boardFile, loads_dumps]
  rfl

theorem get_saveBoardId (writable : Bool) :
    (saveBoardId N cfg s chatId messageId writable).boardIds = s.boardIds := by
  unfold saveBoardId
  split <;> rfl

theorem remote_saveBoardId (writable : Bool) :
    (saveBoardId N cfg s chatId messageId writable).remote = s.remote := by
  unfold saveBoardId
  split <;> rfl

theorem fileId_saveBoardId_of_ne
    {chatId' : String} (writable : Bool)
    (hne : chatId' ≠ chatId) :
    fileId N cfg (saveBoardId N cfg s chatId messageId writable) chatId' =
      fileId N cfg s chatId' := by
  unfold saveBoardId
  split
  · unfold fileId
    dsimp only
    rw [Dict.get_set_of_ne _ hne.symm]
  · rfl

theorem fileId_saveBoardId
    (hdir : cfg.stateDir = true) :
    fileId N cfg (saveBoardId N cfg s chatId messageId true) chatId = some messageId := by
  simp [fileId, saveBoardId, hdir]

/-! The chats -/

theorem editable_set
    {i j : Int} {c : String} {lastId : Int}
    (h : Editable ⟨remote.messages.set (c, i) ⟨text, true⟩, lastId⟩ chatId j) :
    (c, i) = (chatId, j) ∨ Editable remote chatId j := by
  obtain ⟨t, ht⟩ := h
  dsimp only at ht
  rw [Dict.get_set] at ht
  split_ifs at ht with hkey
  · exact Or.inl hkey
  · exact Or.inr ⟨t, ht⟩

/-- What a handled edit does. -/
theorem applyEdit_cases (remote : Remote) (chatId : String) (messageId : Int)
    (text : List Char) :
    (editResult (applyEdit remote chatId messageId text).2 = .missing ∧
      (applyEdit remote chatId messageId text).1 = remote ∧
      ¬ Editable remote chatId messageId) ∨
    (editResult (applyEdit remote chatId messageId text).2 = .ok ∧
      ∃ messages,
        (applyEdit remote chatId messageId text).1 = { remote with messages := messages } ∧
        Editable remote chatId messageId ∧
        ∀ key, messages.get key =
          if (chatId, messageId) = key then some ⟨text, true⟩ else remote.messages.get key) := by
  have hgone : editResult (some (.status 400
      "Bad Request: message to edit not found".toList)) = .missing := by decide +kernel
  have hold : editResult (some (.status 400
      "Bad Request: message can't be edited".toList)) = .missing := by decide +kernel
  have hsame : editResult (some (.status 400
      "Bad Request: message is not modified".toList)) = .ok := by decide +kernel
  unfold applyEdit
  cases hget : remote.messages.get (chatId, messageId) with
  | none =>
      left
      refine ⟨hgone, rfl, ?_⟩
      rintro ⟨t, ht⟩
      rw [hget] at ht
      cases ht
  | some message =>
      obtain ⟨current, editable⟩ := message
      cases editable with
      | false =>
          left
          refine ⟨hold, rfl, ?_⟩
          rintro ⟨t, ht⟩
          rw [hget] at ht
          cases ht
      | true =>
          right
          by_cases heq : current = text
          · subst heq
            refine ⟨by simpa using hsame, remote.messages, by simp, ⟨current, hget⟩, ?_⟩
            intro key
            split_ifs with hkey
            · rw [← hkey, hget]
            · rfl
          · refine ⟨by simp [heq, editResult], remote.messages.set (chatId, messageId) ⟨text, true⟩,
              by simp [heq], ⟨current, hget⟩, ?_⟩
            intro key
            exact Dict.get_set _ _ _ _

/-- The messages are still there, none of them can be edited again, and the other chats are as
they were. -/
structure Kept (before after : Remote) (chatId : String) : Prop where
  ids : ∀ key, (after.messages.get key).isSome = (before.messages.get key).isSome
  editable : ∀ c i, Editable after c i → Editable before c i
  others : ∀ c i, c ≠ chatId → after.messages.get (c, i) = before.messages.get (c, i)

theorem Kept.refl (remote : Remote) (chatId : String) : Kept remote remote chatId :=
  ⟨fun _ => rfl, fun _ _ h => h, fun _ _ _ => rfl⟩

theorem kept_of_edit
    {messages : Dict (String × Int) Message}
    (heditable : Editable remote chatId messageId)
    (hget : ∀ key, messages.get key =
      if (chatId, messageId) = key then some ⟨text, true⟩ else remote.messages.get key) :
    Kept remote { remote with messages := messages } chatId := by
  obtain ⟨t, ht⟩ := heditable
  refine ⟨fun key => ?_, fun c i h => ?_, fun c i hne => ?_⟩
  · dsimp only
    rw [hget]
    split_ifs with hkey
    · rw [← hkey, ht]
      rfl
    · rfl
  · obtain ⟨t', ht'⟩ := h
    dsimp only at ht'
    rw [hget] at ht'
    split_ifs at ht' with hkey
    · obtain ⟨rfl, rfl⟩ := Prod.mk.inj hkey
      exact ⟨t, ht⟩
    · exact ⟨t', ht'⟩
  · dsimp only
    rw [hget, if_neg]
    rintro hkey
    exact hne (Prod.mk.inj hkey).1.symm

/-- What a request to edit does: the message is gone, it shows the text, or nothing is known. -/
theorem editMessageText_cases
    {fate : Fate}
    (hplain : Plain fate)
    (remote : Remote) (chatId : String) (messageId : Int) (text : List Char) :
    (editResult (editMessageText remote chatId messageId text fate).2 = .missing ∧
      (editMessageText remote chatId messageId text fate).1 = remote ∧
      ¬ Editable remote chatId messageId) ∨
    (editResult (editMessageText remote chatId messageId text fate).2 = .ok ∧
      (editMessageText remote chatId messageId text fate).1.messages.get (chatId, messageId) =
        some ⟨text, true⟩ ∧
      Kept remote (editMessageText remote chatId messageId text fate).1 chatId) ∨
    (editResult (editMessageText remote chatId messageId text fate).2 = .error ∧
      Kept remote (editMessageText remote chatId messageId text fate).1 chatId) := by
  have happly := applyEdit_cases remote chatId messageId text
  cases fate with
  | answered gap =>
      rcases happly with h | ⟨hok, messages, heq, heditable, hget⟩
      · exact Or.inl h
      · refine Or.inr (Or.inl ⟨hok, ?_, ?_⟩)
        · show (applyEdit remote chatId messageId text).1.messages.get _ = _
          rw [heq, hget, if_pos rfl]
        · show Kept remote (applyEdit remote chatId messageId text).1 chatId
          rw [heq]
          exact kept_of_edit heditable hget
  | lost fault gap =>
      refine Or.inr (Or.inr ⟨hplain, ?_⟩)
      show Kept remote (applyEdit remote chatId messageId text).1 chatId
      rcases happly with ⟨_, heq, _⟩ | ⟨_, messages, heq, heditable, hget⟩
      · rw [heq]
        exact Kept.refl remote chatId
      · rw [heq]
        exact kept_of_edit heditable hget
  | failed fault => exact Or.inr (Or.inr ⟨hplain, Kept.refl remote chatId⟩)

/-- The loop of `send` sends one message, or none. -/
theorem sendLoop_cases
    {fates : Nat → Fate}
    (hsends : ∀ attempt fault gap, fates attempt ≠ .lost fault gap)
    (chatId : String) (text : List Char) (left : Nat) (remote : Remote) :
    sendLoop chatId text fates left remote = (remote, none) ∨
    ∃ gap, sendLoop chatId text fates left remote =
      ((deliver remote chatId text gap).1, some (deliver remote chatId text gap).2) := by
  induction left with
  | zero => exact Or.inl rfl
  | succ left ih =>
      rw [sendLoop]
      cases hfate : fates (maxRetries - left) with
      | answered gap => exact Or.inr ⟨gap, rfl⟩
      | lost fault gap => exact absurd hfate (hsends _ fault gap)
      | failed fault =>
          dsimp only [sendMessage]
          split
          · exact ih
          · exact Or.inl rfl

/-! One update -/

theorem known_boardMessageId (c : String) :
    known N cfg (boardMessageId N cfg s chatId).1 c = known N cfg s c := by
  unfold boardMessageId
  cases h : known N cfg s chatId with
  | none => rfl
  | some messageId =>
      dsimp only
      by_cases hc : chatId = c
      · subst hc
        rw [h]
        simp [known]
      · unfold known fileId
        dsimp only
        rw [Dict.get_set_of_ne _ hc]

theorem remote_boardMessageId :
    (boardMessageId N cfg s chatId).1.remote = s.remote := by
  unfold boardMessageId
  split <;> rfl

theorem snd_boardMessageId :
    (boardMessageId N cfg s chatId).2 = known N cfg s chatId := by
  unfold boardMessageId
  cases known N cfg s chatId <;> rfl

/-- What an update of the chat leaves. -/
structure After (N : FloatText F) (cfg : Config) (s : State) (chatId : String) (text : List Char)
    (r : State × Bool) : Prop where
  inv : Inv N cfg r.1
  shown : r.2 = true → ∃ messageId, known N cfg r.1 chatId = some messageId ∧
    r.1.remote.messages.get (chatId, messageId) = some ⟨text.take maxText, true⟩
  unsent : r.2 = false → ∀ key,
    (r.1.remote.messages.get key).isSome = (s.remote.messages.get key).isSome
  others : ∀ c, c ≠ chatId → known N cfg r.1 c = known N cfg s c ∧
    ∀ i, r.1.remote.messages.get (c, i) = s.remote.messages.get (c, i)

theorem After.of_same
    {r : State × Bool}
    (h : After N cfg s' chatId text r)
    (hremote : s'.remote = s.remote)
    (hknown : ∀ c, c ≠ chatId → known N cfg s' c = known N cfg s c) :
    After N cfg s chatId text r := by
  refine ⟨h.inv, h.shown, fun hfalse key => ?_, fun c hne => ?_⟩
  · rw [h.unsent hfalse, hremote]
  · have hother := h.others c hne
    rw [hknown c hne, hremote] at hother
    exact hother

theorem after_unchanged
    (hinv : Inv N cfg s) :
    After N cfg s chatId text (s, false) :=
  ⟨hinv, nofun, fun _ _ => rfl, fun _ _ => ⟨rfl, fun _ => rfl⟩⟩

/-- A new board for a chat in which nothing can be edited. -/
theorem after_sendBoard
    {fates : Nat → Fate} {writable : Bool}
    (hothers : ∀ c i, c ≠ chatId → Editable s.remote c i → known N cfg s c = some i)
    (hnone : ∀ i, ¬ Editable s.remote chatId i)
    (hsends : ∀ attempt fault gap, fates attempt ≠ .lost fault gap) :
    After N cfg s chatId text
      (sendBoard N cfg s chatId (text.take maxText) fates writable) := by
  have hinv : Inv N cfg s := by
    intro c i h
    by_cases hc : c = chatId
    · exact absurd (hc ▸ h) (hnone i)
    · exact hothers c i hc h
  have htake : (text.take maxText).take maxText = text.take maxText := by
    rw [List.take_take, Nat.min_self]
  unfold sendBoard send
  rw [htake]
  rcases sendLoop_cases hsends chatId (text.take maxText) maxRetries s.remote with h | ⟨gap, h⟩
  · rw [h]
    exact after_unchanged hinv
  · rw [h]
    dsimp only
    have hget (key : String × Int) :
        (deliver s.remote chatId (text.take maxText) gap).1.messages.get key =
          if (chatId, s.remote.lastId + 1 + gap) = key then some ⟨text.take maxText, true⟩
          else s.remote.messages.get key := Dict.get_set _ _ _ _
    have hknown : known N cfg (saveBoardId N cfg
        { s with
          remote := (deliver s.remote chatId (text.take maxText) gap).1
          boardIds := s.boardIds.set chatId (s.remote.lastId + 1 + gap) }
        chatId (s.remote.lastId + 1 + gap) writable) chatId =
          some (s.remote.lastId + 1 + gap) := by
      rw [known, get_saveBoardId]
      simp
    have hother (c : String) (hne : c ≠ chatId) : known N cfg (saveBoardId N cfg
        { s with
          remote := (deliver s.remote chatId (text.take maxText) gap).1
          boardIds := s.boardIds.set chatId (s.remote.lastId + 1 + gap) }
        chatId (s.remote.lastId + 1 + gap) writable) c = known N cfg s c := by
      rw [known, get_saveBoardId, fileId_saveBoardId_of_ne _ hne]
      dsimp only
      rw [Dict.get_set_of_ne _ hne.symm]
      rfl
    refine ⟨fun c i heditable => ?_, fun _ => ⟨_, hknown, ?_⟩, ?_, fun c hne => ⟨hother c hne,
      fun i => ?_⟩⟩
    · rw [remote_saveBoardId] at heditable
      rcases editable_set heditable with hkey | hold
      · obtain ⟨rfl, rfl⟩ := Prod.mk.inj hkey
        exact hknown
      · by_cases hc : c = chatId
        · exact absurd (hc ▸ hold) (hnone i)
        · rw [← hothers c i hc hold]
          exact hother c hc
    · rw [remote_saveBoardId, hget, if_pos rfl]
    · intro h
      cases h
    · rw [remote_saveBoardId, hget, if_neg]
      rintro hkey
      exact hne (Prod.mk.inj hkey).1.symm

/-- An update edits the known message, and sends one if none is known or it is gone. -/
theorem after_update
    {choice : Choice}
    (hinv : Inv N cfg s)
    (hcond : Cond N cfg s (.update chatId text choice)) :
    After N cfg s chatId text (updateTaskBoard N cfg s chatId text choice) := by
  unfold updateTaskBoard
  split
  · exact after_unchanged hinv
  dsimp only
  split
  · exact after_unchanged hinv
  have hread := @snd_boardMessageId F N cfg s chatId
  have hremote := @remote_boardMessageId F N cfg s chatId
  have hknown := @known_boardMessageId F N cfg s chatId
  generalize boardMessageId N cfg s chatId = read at hread hremote hknown
  obtain ⟨s₁, id?⟩ := read
  dsimp only at hread hremote hknown
  subst hread
  refine After.of_same ?_ hremote fun c _ => hknown c
  have hinv₁ : Inv N cfg s₁ := by
    intro c i h
    rw [hknown]
    exact hinv c i (hremote ▸ h)
  cases hid : known N cfg s chatId with
  | none =>
      refine after_sendBoard (fun c i _ h => hinv₁ c i h) (fun i h => ?_) hcond.2
      have := hinv₁ chatId i h
      rw [hknown, hid] at this
      cases this
  | some messageId =>
      dsimp only
      unfold editBoardMessage
      dsimp only
      rcases editMessageText_cases hcond.1 s₁.remote chatId messageId (text.take maxText) with
        ⟨hres, heq, hgone⟩ | ⟨hres, hget, hkept⟩ | ⟨hres, hkept⟩
      · -- the message is gone, and so is its id
        rw [hres, heq]
        dsimp only
        have hpop (c : String) (hne : c ≠ chatId) :
            known N cfg { s₁ with boardIds := s₁.boardIds.erase chatId } c = known N cfg s₁ c := by
          rw [known, Dict.get_erase_of_ne _ hne.symm]
          rfl
        refine After.of_same
          (after_sendBoard (fun c i hne h => ?_) (fun i h => ?_) hcond.2) rfl hpop
        · rw [hpop c hne]
          exact hinv₁ c i h
        · have hi := hinv₁ chatId i h
          rw [hknown, hid] at hi
          obtain rfl := Option.some.inj hi
          exact hgone h
      · rw [hres]
        exact ⟨fun c i h => hinv₁ c i (hkept.editable c i h),
          fun _ => ⟨messageId, (hknown chatId).trans hid, hget⟩, nofun,
          fun c hne => ⟨rfl, fun i => hkept.others c i hne⟩⟩
      · rw [hres]
        exact ⟨fun c i h => hinv₁ c i (hkept.editable c i h), nofun, fun _ => hkept.ids,
          fun c hne => ⟨rfl, fun i => hkept.others c i hne⟩⟩

theorem inv_initial : Inv N cfg initial := by
  rintro c i ⟨t, ht⟩
  cases ht

theorem inv_step
    {a : Label}
    (hinv : Inv N cfg s)
    (hcond : Cond N cfg s a)
    (h : step N cfg s a = some s') :
    Inv N cfg s' := by
  cases a with
  | update chatId text choice =>
      obtain rfl := Option.some.inj h
      exact (after_update hinv hcond).inv
  | restart =>
      obtain rfl := Option.some.inj h
      intro c i heditable
      have hknown := hinv c i heditable
      show (Option.none.or (fileId N cfg s c)) = some i
      cases hget : s.boardIds.get c with
      | none => simpa [known, hget] using hknown
      | some j =>
          rw [hcond c j hget]
          simpa [known, hget] using hknown
  | delete chatId messageId =>
      obtain rfl := Option.some.inj h
      rintro c i ⟨t, ht⟩
      dsimp only at ht
      rw [Dict.get_erase] at ht
      split_ifs at ht
      exact hinv c i ⟨t, ht⟩
  | freeze chatId messageId =>
      rw [step] at h
      split at h
      · obtain rfl := Option.some.inj h
        exact hinv
      · obtain rfl := Option.some.inj h
        rintro c i ⟨t, ht⟩
        dsimp only at ht
        rw [Dict.get_set] at ht
        split_ifs at ht
        · cases ht
        · exact hinv c i ⟨t, ht⟩

/-! What an update stores, and when it succeeds -/

theorem saved_boardMessageId
    (hsaved : Saved N cfg s) :
    Saved N cfg (boardMessageId N cfg s chatId).1 := by
  unfold boardMessageId
  cases h : known N cfg s chatId with
  | none => exact hsaved
  | some messageId =>
      intro c i hget
      dsimp only at hget
      rw [Dict.get_set] at hget
      split_ifs at hget with hc
      · obtain rfl := Option.some.inj hget
        subst hc
        show fileId N cfg s chatId = some messageId
        cases hmem : s.boardIds.get chatId with
        | none => simpa [known, hmem] using h
        | some j =>
            rw [hsaved chatId j hmem]
            simpa [known, hmem] using h
      · exact hsaved c i hget

theorem saved_sendBoard
    {fates : Nat → Fate}
    (hsaved : Saved N cfg s)
    (hdir : cfg.stateDir = true) :
    Saved N cfg (sendBoard N cfg s chatId text fates true).1 := by
  unfold sendBoard
  rcases send chatId text fates s.remote with ⟨remote, _ | messageId⟩
  · exact hsaved
  · intro c i hget
    dsimp only at hget ⊢
    rw [get_saveBoardId, Dict.get_set] at hget
    split_ifs at hget with hc
    · obtain rfl := Option.some.inj hget
      subst hc
      exact fileId_saveBoardId hdir
    · rw [fileId_saveBoardId_of_ne _ (Ne.symm hc)]
      exact hsaved c i hget

/-- With a state directory that can be written, an update leaves every id in its file. -/
theorem saved_update
    {choice : Choice}
    (hsaved : Saved N cfg s)
    (hdir : cfg.stateDir = true)
    (hwritable : choice.writable = true) :
    Saved N cfg (updateTaskBoard N cfg s chatId text choice).1 := by
  unfold updateTaskBoard
  rw [hwritable]
  split
  · exact hsaved
  dsimp only
  split
  · exact hsaved
  have hread := @saved_boardMessageId F N cfg s chatId hsaved
  generalize boardMessageId N cfg s chatId = read at hread
  obtain ⟨s₁, _ | messageId⟩ := read
  · exact saved_sendBoard hread hdir
  · dsimp only
    unfold editBoardMessage
    dsimp only
    cases editResult (editMessageText s₁.remote chatId messageId (text.take maxText)
      choice.edit).2 with
    | ok => exact hread
    | error => exact hread
    | missing =>
        refine saved_sendBoard (fun c i hget => ?_) hdir
        dsimp only at hget
        rw [Dict.get_erase] at hget
        split_ifs at hget
        exact hread c i hget

theorem snd_sendBoard_of_answered
    {fates : Nat → Fate} {writable : Bool}
    (hanswered : ∃ gap, fates 1 = .answered gap) :
    (sendBoard N cfg s chatId text fates writable).2 = true := by
  obtain ⟨gap, hgap⟩ := hanswered
  unfold sendBoard send
  rw [show maxRetries = 2 + 1 from rfl, sendLoop, show maxRetries - 2 = 1 from rfl, hgap]
  rfl

/-- An update whose edit and first attempt to send are answered succeeds, whatever became of the
board. -/
theorem snd_update_of_answered
    {choice : Choice} {gap : Nat}
    (hint : cfg.isInt chatId = true)
    (htext : text ≠ [])
    (hedit : choice.edit = .answered gap)
    (hsends : ∃ gap, choice.sends 1 = .answered gap) :
    (updateTaskBoard N cfg s chatId text choice).2 = true := by
  have hne : text.take maxText ≠ [] := by
    cases text with
    | nil => exact absurd rfl htext
    | cons c text => exact List.cons_ne_nil _ _
  unfold updateTaskBoard
  rw [hint, Bool.not_true, if_neg Bool.false_ne_true]
  dsimp only
  rw [if_neg hne]
  rcases boardMessageId N cfg s chatId with ⟨s₁, _ | messageId⟩
  · exact snd_sendBoard_of_answered hsends
  · dsimp only
    unfold editBoardMessage
    rw [hedit]
    dsimp only [editMessageText]
    rcases applyEdit_cases s₁.remote chatId messageId (text.take maxText) with
      ⟨hres, _⟩ | ⟨hres, _⟩
    · rw [hres]
      exact snd_sendBoard_of_answered hsends
    · rw [hres]

end Proofs

/-- **One board a chat.**  In every state reached a chat has at most one board that can be edited;
an update that returns true leaves its text on the known board, one that returns false sends
nothing, other chats are left alone, and an update whose requests are answered returns true.  With
a state directory that can be written the ids stay in the files. -/
theorem board_single
    {N : FloatText F} {cfg : Config} {s : State}
    (h : Reach (step N cfg) (Cond N cfg) initial s) :
    (∀ chatId i j, Editable s.remote chatId i → Editable s.remote chatId j → i = j) ∧
    ∀ chatId text choice, Cond N cfg s (.update chatId text choice) →
      After N cfg s chatId text (updateTaskBoard N cfg s chatId text choice) ∧
      (cfg.isInt chatId = true → text ≠ [] → (∃ gap, choice.edit = .answered gap) →
        (∀ attempt, ∃ gap, choice.sends attempt = .answered gap) →
        (updateTaskBoard N cfg s chatId text choice).2 = true) ∧
      (Saved N cfg s → cfg.stateDir = true → choice.writable = true →
        Saved N cfg (updateTaskBoard N cfg s chatId text choice).1) := by
  have hinv : Inv N cfg s :=
    h.invariant (P := Inv N cfg) inv_initial fun _ _ _ hs hc hstep => inv_step hs hc hstep
  refine ⟨fun chatId i j hi hj => ?_, fun chatId text choice hcond => ⟨after_update hinv hcond,
    ?_, saved_update⟩⟩
  · exact Option.some.inj ((hinv chatId i hi).symm.trans (hinv chatId j hj))
  · rintro hint htext ⟨gap, hedit⟩ hsends
    exact snd_update_of_answered hint htext hedit (hsends 1)

/-- A state directory, and chat ids of digits. -/
def boardConfig : Config :=
  { stateDir := true, isInt := fun chatId => chatId.toList.all Char.isDigit }

/-- Every request is answered. -/
def answeredChoice : Choice :=
  { edit := .answered 0, sends := fun _ => .answered 4, writable := true }

/-- A board is sent, edited, deleted by a user, and sent again after a restart. -/
def deletedRun : List Label :=
  [.update "7" "a".toList answeredChoice, .update "7" "b".toList answeredChoice,
    .delete "7" 5, .restart, .update "7" "c".toList answeredChoice]

theorem saved_initial : Saved noFloats boardConfig initial := fun _ _ h => nomatch h

/-- The ids stay in the files, so that the run meets the condition. -/
theorem guarded_deletedRun :
    Guarded (step noFloats boardConfig) (Cond noFloats boardConfig) initial deletedRun := by
  have hupdate (s : State) (text : List Char) :
      Cond noFloats boardConfig s (.update "7" text answeredChoice) := ⟨trivial, nofun⟩
  refine ⟨hupdate _ _, fun s₁ h₁ => ⟨hupdate _ _, fun s₂ h₂ => ⟨trivial, fun s₃ h₃ => ⟨?_,
    fun s₄ _ => ⟨hupdate _ _, fun _ _ => trivial⟩⟩⟩⟩⟩
  obtain rfl := Option.some.inj h₁
  obtain rfl := Option.some.inj h₂
  obtain rfl := Option.some.inj h₃
  exact saved_update (saved_update saved_initial rfl rfl) rfl rfl

theorem board_single_deletedRun :
    ∃ s, run (step noFloats boardConfig) initial deletedRun = some s ∧
      Editable s.remote "7" 10 ∧ ∀ i, Editable s.remote "7" i → i = 10 := by
  have hrun := run_eq_getD (show (run (step noFloats boardConfig) initial deletedRun).isSome = true
    from rfl)
  have hshown : Editable
      ((run (step noFloats boardConfig) initial deletedRun).getD initial).remote "7" 10 :=
    ⟨"c".toList, by decide +kernel⟩
  refine ⟨_, hrun, hshown, fun i hi => ?_⟩
  exact (board_single (reach_of_run hrun guarded_deletedRun)).1 "7" i 10 hi hshown

end BoardMessage
end DiploidAgent
