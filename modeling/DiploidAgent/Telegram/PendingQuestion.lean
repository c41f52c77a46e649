import DiploidAgent.Lib.Dict
import DiploidAgent.Lib.JsonDumps
import DiploidAgent.Lib.Runs
import DiploidAgent.Telegram.Interactive

/-!
# The pending question of a chat

The last question that was asked is kept in a file with the id of its message.  A
press of a button carries the id of the message it was pressed on and the index of an
option; the handler looks the index up in the pending question and does not compare the
ids.

A press on the message of the pending question answers it with the label of the button.
A press on the message of an earlier question answers or drops the pending one, so that
presses are handled as they should be exactly as long as they are made on the pending
question (`press_honest_iff`).
-/

namespace DiploidAgent
namespace Telegram
namespace PendingQuestion

open JsonText Runs

variable {F : Type}

/-! ### The file -/

/-- `_load_pending_question`. -/
structure Pending where
  question : String
  options : List String
  cancellable : Bool
  cancelLabel : String
  messageId : Option Int
deriving DecidableEq

def idOrNull : Option Int → Value F
  | some n => .scalar (.int n)
  | none => .scalar .null

def idOrNull? : Value F → Option (Option Int)
  | .scalar (.int n) => some (some n)
  | .scalar .null => some none
  | _ => none

def members (chatId : Int) (b : AskBlock) (messageId : Option Int) :
    List (List Char × Value F) :=
  [("chat_id".toList, .scalar (.int chatId)),
    ("question".toList, .text b.question),
    ("options".toList, .arr (b.options.map .text)),
    ("cancellable".toList, .scalar (.bool b.cancellable)),
    ("cancel_label".toList, .text b.cancelLabel),
    ("message_id".toList, idOrNull messageId)]

/-- `_save_pending_question`. -/
def savePendingQuestion (N : FloatText F) (chatId : Int) (b : AskBlock) (messageId : Option Int) :
    List Char :=
  dumps true N (.obj (members chatId b messageId))

/-- A dict as a pending question.  No poller writes a dict without the members. -/
def Pending.ofMembers? (ms : List (List Char × Value F)) : Option Pending := do
  let options ← (← member ms "options").texts?
  if options = [] then none
  else
    let question ← (← member ms "question").text?
    let cancellable ← (← member ms "cancellable").bool?
    let cancelLabel ← (← member ms "cancel_label").text?
    let messageId ← idOrNull? (← member ms "message_id")
    some { question, options, cancellable, cancelLabel, messageId }

/-- `_load_pending_question`. -/
def loadPendingQuestion (N : FloatText F) (file : Option (List Char)) : Option Pending :=
  match file.bind (loads N) with
  | some (.obj ms) => Pending.ofMembers? ms
  | _ => none

def Pending.ofBlock (b : AskBlock) (messageId : Option Int) : Pending :=
  { question := b.question
    options := b.options
    cancellable := b.cancellable
    cancelLabel := b.cancelLabel
    messageId := messageId }

/-! ### Presses and messages -/

structure ChatInput where
  messageId : Int
  text : String
  replyTo : Option String
  replyToIsBot : Bool
  replyToMessageId : Option Int
  callbackQueryId : Option String
deriving DecidableEq

inductive Call where
  | answerCallbackQuery (id : String)
  | clearInlineKeyboard (messageId : Int)
  | editMessageText (messageId : Int) (text : String)
  | sendMessage (text : String)
  | deleteMessage (messageId : Int)
deriving DecidableEq

/-- What is left in the file, what was called, and the input that starts a turn. -/
structure Outcome where
  file : Option (List Char)
  calls : List Call
  turn : Option ChatInput
deriving DecidableEq

def answerText (question selected : String) : String :=
  "The user answered the question \"" ++ question ++ "\" by selecting: " ++ selected

/-- The input of an answer. -/
def Pending.answer (p : Pending) (messageId : Int) (selected : String) : ChatInput :=
  { messageId := messageId
    text := answerText p.question selected
    replyTo := some p.question
    replyToIsBot := true
    replyToMessageId := p.messageId
    callbackQueryId := none }

/-- The calls on the message of the question, if its id is known. -/
def onQuestion (p : Pending) (calls : Int → List Call) : List Call :=
  match p.messageId with
  | some n => if n ≠ 0 then calls n else []
  | none => []

/-- `_handle_ask_callback`. -/
def handleAskCallback (file : Option (List Char)) (pending : Option Pending)
    (messageId : Int) (data : List Char) (query : String) : Outcome :=
  match pending with
  | none =>
      { file := file
        calls := [.answerCallbackQuery query, .clearInlineKeyboard messageId]
        turn := none }
  | some p =>
      if p.cancellable && isAskCancelCallback data then
        { file := none
          calls := .answerCallbackQuery query :: onQuestion p fun n =>
            [.editMessageText n "Cancelled.", .clearInlineKeyboard n]
          turn := none }
      else
        let calls := .answerCallbackQuery query :: onQuestion p fun n => [.clearInlineKeyboard n]
        match parseAskCallbackIndex data with
        | none =>
            { file := none
              calls := calls
              turn := none }
        | some index =>
            { file := none
              calls := calls
              turn :=
                if 0 ≤ index then p.options[index.toNat]?.map (p.answer messageId) else none }

/-- The rest of `_maybe_answer_pending_question`: a message that is no press. -/
def handleMessage (file : Option (List Char)) (pending : Option Pending) (input : ChatInput) :
    Outcome :=
  match pending with
  | none =>
      { file := file
        calls := []
        turn := some input }
  | some p =>
      if p.cancellable && input.text == p.cancelLabel then
        { file := none
          calls := [.sendMessage "Cancelled.", .deleteMessage input.messageId]
          turn := none }
      else if input.text ∉ p.options then
        { file := none
          calls := []
          turn := some input }
      else
        { file := none
          calls := []
          turn := some (p.answer input.messageId input.text) }

/-! ### Runs -/

/-- The keyboards that were sent, by the id of their message, and the file. -/
structure State where
  sent : Dict Int (List Button)
  file : Option (List Char)

def initial : State :=
  { sent := Dict.empty
    file := none }

def State.pending (N : FloatText F) (s : State) : Option Pending := loadPendingQuestion N s.file

/-- The button in a row of a keyboard that was sent. -/
def State.button (s : State) (messageId : Int) (row : Nat) : Option Button :=
  (s.sent.get messageId).bind fun keyboard => keyboard[row]?

/-- What a press of a button does; `_parse_update` takes the id from the message of the
keyboard and the text from the data of the button. -/
def State.press (N : FloatText F) (s : State) (messageId : Int) (button : Button)
    (query : String) : Outcome :=
  handleAskCallback s.file (s.pending N) messageId button.callbackData query

/-- A question is sent as a new message, a button is pressed, a message comes, or the
poller starts again and drops the file. -/
inductive Op where
  | ask (messageId : Int) (b : AskBlock)
  | press (messageId : Int) (row : Nat) (query : String)
  | message (input : ChatInput)
  | restart

def step (N : FloatText F) (chatId : Int) (s : State) : Op → Option State
  | .ask messageId b =>
      if messageId ≠ 0 ∧ messageId ∉ s.sent.keys then
        some { sent := s.sent.set messageId b.keyboard
               file := some (savePendingQuestion N chatId b (some messageId)) }
      else none
  | .press messageId row query =>
      (s.button messageId row).map fun button =>
        { s with file := (s.press N messageId button query).file }
  | .message input => some { s with file := (handleMessage s.file (s.pending N) input).file }
  | .restart => some { s with file := none }

/-! ### What is claimed -/

/-- The pressed message is the message of the pending question. -/
def OwnPress (N : FloatText F) (s : State) (messageId : Int) : Prop :=
  ∃ p, s.pending N = some p ∧ p.messageId = some messageId

/-- A press produces an answer only on the pending question, the answer names the label of
the button, and every other press leaves the question as it is. -/
structure Honest (N : FloatText F) (s : State) (messageId : Int) (button : Button)
    (query : String) : Prop where
  names : ∀ input, (s.press N messageId button query).turn = some input →
    ∃ p, s.pending N = some p ∧ p.messageId = some messageId ∧
      input.text = answerText p.question button.text
  keeps : ¬ OwnPress N s messageId →
    (s.press N messageId button query).turn = none ∧
      loadPendingQuestion N (s.press N messageId button query).file = s.pending N

/-! ### The file is read back -/

section RoundTrip

variable {N : FloatText F}

theorem ofMembers_members
    (chatId : Int) (b : AskBlock) (messageId : Option Int) :
    Pending.ofMembers? (members chatId b messageId : List (List Char × Value F)) =
      some (Pending.ofBlock b messageId) := by
  have hoptions : member (members chatId b messageId : List (List Char × Value F)) "options" =
      some (.arr (b.options.map .text)) := rfl
  have hquestion : member (members chatId b messageId : List (List Char × Value F)) "question" =
      some (.text b.question) := rfl
  have hcancellable : member (members chatId b messageId : List (List Char × Value F))
      "cancellable" = some (.scalar (.bool b.cancellable)) := rfl
  have hlabel : member (members chatId b messageId : List (List Char × Value F))
      "cancel_label" = some (.text b.cancelLabel) := rfl
  have hid : member (members chatId b messageId : List (List Char × Value F)) "message_id" =
      some (idOrNull messageId) := rfl
  have hread : idOrNull? (idOrNull messageId : Value F) = some messageId := by
    cases messageId <;> rfl
  rw [Pending.ofMembers?, hoptions, hquestion, hcancellable, hlabel, hid]
  simp [hread, b.nonempty, Value.bool?, Pending.ofBlock]

/-- What is saved is loaded. -/
theorem load_save
    (chatId : Int) (b : AskBlock) (messageId : Option Int) :
    loadPendingQuestion N (some (savePendingQuestion N chatId b messageId)) =
      some (Pending.ofBlock b messageId) := by
  rw [loadPendingQuestion, Option.bind_some, savePendingQuestion, loads_dumps]
  exact ofMembers_members chatId b messageId

end RoundTrip

section Handler

variable {file : Option (List Char)} {p : Pending} {data : List Char} {messageId : Int}
  {query : String}

/-- A press leaves no question behind. -/
theorem file_of_pending :
    (handleAskCallback file (some p) messageId data query).file = none := by
  rw [handleAskCallback]
  split_ifs
  · rfl
  · split <;> rfl

/-- The button of an option selects it. -/
theorem turn_option
    (i : Nat) :
    (handleAskCallback file (some p) messageId (optionCallback i) query).turn =
      p.options[i]?.map (p.answer messageId) := by
  rw [handleAskCallback, isAskCancelCallback_option, Bool.and_false, parseAskCallbackIndex_option]
  dsimp only
  rw [if_neg Bool.false_ne_true, if_pos (Int.natCast_nonneg i), Int.toNat_natCast]

/-- The cancel button starts no turn. -/
theorem turn_cancel :
    (handleAskCallback file (some p) messageId cancelCallback query).turn = none := by
  have hindex : parseAskCallbackIndex cancelCallback = none := by decide
  rw [handleAskCallback, hindex]
  split_ifs <;> rfl

end Handler

section Steps

variable {N : FloatText F} {chatId : Int} {s s' : State}

/-- The message of the pending question carries the keyboard of its options. -/
def Shown (N : FloatText F) (s : State) : Prop :=
  ∀ p, s.pending N = some p → ∃ messageId b, p = Pending.ofBlock b (some messageId) ∧
    s.sent.get messageId = some b.keyboard

theorem shown_of_no_file
    (h : s.file = none) :
    Shown N s := by
  intro p hp
  rw [State.pending, h] at hp
  cases hp

theorem shown_step
    {op : Op} (h : Shown N s) (hstep : step N chatId s op = some s') :
    Shown N s' := by
  cases op with
  | ask messageId b =>
      simp only [step] at hstep
      split_ifs at hstep
      obtain rfl := Option.some.inj hstep
      intro p hp
      rw [State.pending, load_save] at hp
      exact ⟨messageId, b, (Option.some.inj hp).symm, Dict.get_set_self _ _ _⟩
  | press messageId row query =>
      obtain ⟨button, _, rfl⟩ := Option.map_eq_some_iff.mp hstep
      unfold State.press
      cases hp : s.pending N with
      | none => exact h
      | some p => exact shown_of_no_file file_of_pending
  | message input =>
      obtain rfl := Option.some.inj hstep
      cases hp : s.pending N with
      | none => exact h
      | some p =>
          refine shown_of_no_file ?_
          dsimp only
          rw [handleMessage]
          split_ifs <;> rfl
  | restart =>
      obtain rfl := Option.some.inj hstep
      exact shown_of_no_file rfl

end Steps

section Results

variable {N : FloatText F} {chatId : Int} {s : State} {messageId : Int} {row : Nat}
  {button : Button}

/-- A press on the pending question answers with the label, or cancels. -/
theorem own_press
    (hshown : Shown N s) (hbutton : s.button messageId row = some button)
    {p : Pending} (hp : s.pending N = some p) (hid : p.messageId = some messageId)
    (query : String) :
    (s.press N messageId button query).turn = some (p.answer messageId button.text) ∨
      button.callbackData = cancelCallback ∧
        (s.press N messageId button query).turn = none := by
  obtain ⟨messageId', b, rfl, hsent⟩ := hshown p hp
  obtain rfl : messageId' = messageId := Option.some.inj hid
  rw [State.button, hsent, Option.bind_some] at hbutton
  rw [State.press, hp]
  rcases button_cases hbutton with ⟨hdata, hopt⟩ | ⟨hdata, _⟩
  · left
    rw [hdata, turn_option]
    simp only [Pending.ofBlock, hopt, Option.map_some]
  · right
    rw [hdata, turn_cancel]
    exact ⟨rfl, rfl⟩

/-- **Answers.**  In every state that is reached, a press is handled as it should be
exactly when there is no pending question or it is made on the message of that
question. -/
theorem press_honest_iff
    (N : FloatText F) (chatId : Int) (s : State)
    (h : Reach (step N chatId) (fun _ _ => True) initial s)
    (messageId : Int) (row : Nat) (button : Button)
    (hbutton : s.button messageId row = some button) (query : String) :
    Honest N s messageId button query ↔
      ∀ p, s.pending N = some p → p.messageId = some messageId := by
  have hshown : Shown N s := h.invariant (shown_of_no_file rfl) fun _ _ _ hs _ => shown_step hs
  constructor
  · intro hhonest p hp
    by_contra hother
    have hforeign : ¬ OwnPress N s messageId := by
      rintro ⟨p', hp', hid⟩
      obtain rfl : p = p' := Option.some.inj (hp.symm.trans hp')
      exact hother hid
    -- Whatever was pressed, the question that is pending is gone.
    have hkept := (hhonest.keeps hforeign).2
    rw [State.press, hp, file_of_pending] at hkept
    cases hkept
  · intro hown
    cases hp : s.pending N with
    | none =>
        have hpress : s.press N messageId button query =
            handleAskCallback s.file none messageId button.callbackData query := by
          rw [State.press, hp]
        refine ⟨fun input hturn => ?_, fun _ => ?_⟩
        · rw [hpress] at hturn
          cases hturn
        · rw [hpress]
          exact ⟨rfl, rfl⟩
    | some p =>
        have hid := hown p hp
        refine ⟨fun input hturn => ⟨p, hp, hid, ?_⟩, fun hforeign => ?_⟩
        · rcases own_press hshown hbutton hp hid query with hanswer | ⟨_, hnone⟩
          · rw [hanswer] at hturn
            rw [← Option.some.inj hturn]
            rfl
          · rw [hnone] at hturn
            cases hturn
        · exact absurd ⟨p, hp, hid⟩ hforeign

def mergeQuestion : AskBlock :=
  { question := "Merge now?"
    options := ["Yes", "No"]
    cancellable := true
    cancelLabel := "Cancel"
    nonempty := by decide }

def branchQuestion : AskBlock :=
  { question := "What about the branch?"
    options := ["Delete", "Keep"]
    cancellable := true
    cancelLabel := "Cancel"
    nonempty := by decide }

/-- Two questions, one after the other. -/
def twoQuestions : List Op := [.ask 10 mergeQuestion, .ask 11 branchQuestion]

def asked : State := (run (step noFloats 1) initial twoQuestions).getD initial

theorem asked_reached :
    Reach (step noFloats 1) (fun _ _ => True) initial asked :=
  reach_run (by decide +kernel)

theorem pending_asked :
    asked.pending noFloats = some (Pending.ofBlock branchQuestion (some 11)) := by
  decide +kernel

theorem press_honest_asked :
    Honest noFloats asked 11 { text := "Keep", callbackData := optionCallback 1 } "q" := by
  refine (press_honest_iff noFloats 1 asked asked_reached 11 1 _ (by decide +kernel) "q").mpr ?_
  intro p hp
  obtain rfl := Option.some.inj (pending_asked.symm.trans hp)
  rfl

/-- The button "Yes" of the first question deletes the branch. -/
theorem superseded_press_answers :
    asked.button 10 0 = some { text := "Yes", callbackData := optionCallback 0 } ∧
      (asked.press noFloats 10 { text := "Yes", callbackData := optionCallback 0 } "q").turn.map
        ChatInput.text = some (answerText "What about the branch?" "Delete") ∧
      ¬ Honest noFloats asked 10 { text := "Yes", callbackData := optionCallback 0 } "q" := by
  refine ⟨by decide +kernel, by decide +kernel, fun h => ?_⟩
  have hforeign : ¬ OwnPress noFloats asked 10 := by
    rintro ⟨p, hp, hid⟩
    obtain rfl := Option.some.inj (pending_asked.symm.trans hp)
    cases hid
  have hturn := (h.keeps hforeign).1
  revert hturn
  decide +kernel

end Results

end PendingQuestion
end Telegram
end DiploidAgent
