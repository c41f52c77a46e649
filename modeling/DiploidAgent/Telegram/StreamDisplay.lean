import DiploidAgent.Lib.Runs
import DiploidAgent.Telegram.Sender
import Mathlib.Data.Rat.Floor

/-!
# The display of a streamed turn

While a turn runs, a placeholder shows the part of the reply that was not committed; when
it stands still for long enough it is committed as a message of its own, and a new
placeholder is started.  At the end the part of the reply that was not committed is sent,
or after streamed thoughts the whole reply.

The question of a reply reaches the user exactly when the texts that are sent at the end
ask it, and nothing else (`ask_reaches_user_iff`).  Where nothing was committed that is so
when the reply has other text than its blocks (`asked_uncommitted`).
-/

namespace DiploidAgent
namespace Telegram
namespace StreamDisplay

open JsonText Text PendingQuestion Sender Runs

variable {F : Type}

/-! ### The texts of the display -/

def thinkingPrefix : List Char := "Thinking...".toList

def thinkingContinued : List Char := "... (thinking continues)".toList

def replyPlaceholder : List Char := "...".toList

def heartbeatInterval : Rat := 30

/-- `_format_thought`. -/
def formatThought (thought : List Char) : List Char :=
  if thought = [] then []
  else
    let full := thinkingPrefix ++ '\n' :: thought
    if full.length ≤ 4096 then full
    else
      let tailLimit := 4096 - thinkingContinued.length - 1
      thinkingContinued ++ '\n' :: thought.drop (thought.length - tailLimit)

/-- `_format_elapsed`. -/
def formatElapsed (seconds : Rat) : List Char :=
  let total := seconds.floor
  if total / 60 ≠ 0 then
    writeInt (total / 60) ++ "m ".toList ++ writeInt (total % 60) ++ ['s']
  else writeInt (total % 60) ++ ['s']

/-- `_build_heartbeat_text`; the suffix is short. -/
def buildHeartbeatText (base : List Char) (elapsed : Rat) : List Char :=
  let suffix := "\n\n(still working, ".toList ++ formatElapsed elapsed ++ [')']
  if base = [] then suffix
  else
    let total := base ++ suffix
    if total.length ≤ 4096 then total
    else base.take (4096 - suffix.length - 3) ++ "...".toList ++ suffix

/-! ### The display -/

structure Config where
  intermediateMessages : Bool
  intermediateIdle : Rat
  intermediateMinChars : Int
  toolProgress : Bool

structure Display where
  messageId : Option Int
  thoughtId : Option Int
  lastTextSent : List Char
  lastThought : List Char
  lastThoughtSent : List Char
  text : List Char
  displayText : List Char
  tailText : List Char
  visible : List Char
  committedText : List Char
  committedDisplay : List Char
  committedMessageId : Option Int
  committedRawOk : Bool
  sideEffect : List Char
  lastSideEffectSeen : List Char
  lastGrowthAt : Rat
  turnStartAt : Rat
  lastEditAt : Rat

/-- The display at the start, with the placeholders that were sent for the turn. -/
def Display.new (messageId thoughtId : Option Int) (now : Rat) : Display :=
  { messageId := messageId
    thoughtId := thoughtId
    lastTextSent := []
    lastThought := []
    lastThoughtSent := []
    text := []
    displayText := []
    tailText := []
    visible := []
    committedText := []
    committedDisplay := []
    committedMessageId := none
    committedRawOk := true
    sideEffect := []
    lastSideEffectSeen := []
    lastGrowthAt := now
    turnStartAt := now
    lastEditAt := now }

/-- One status of a turn, and when it was polled. -/
structure Poll where
  now : Rat
  running : Bool
  messageText : List Char
  lastSideEffect : List Char
  thoughtText : List Char

/-- The display with its chat; whether a message was edited since the poll. -/
structure Screen where
  display : Display
  chat : Chat
  edited : Bool

def idlePlaceholder (d : Display) : List Char :=
  if d.sideEffect ≠ [] then "· ".toList ++ d.sideEffect else replyPlaceholder

/-- `_uncommitted_tail`. -/
def uncommittedTail (d : Display) (full : List Char) : List Char :=
  if d.committedDisplay ≠ [] ∧ d.committedDisplay.isPrefixOf full then
    full.drop d.committedDisplay.length
  else full

/-- `_should_commit`. -/
def shouldCommit (cfg : Config) (tail : List Char) (idle : Rat) : Bool :=
  cfg.intermediateMessages && !decide (idle < cfg.intermediateIdle) &&
    !decide ((tail.length : Int) < cfg.intermediateMinChars) &&
    (rstrip tail).getLast?.any fun c => c == '.' || c == '!' || c == '?' || c == '\n'

/-! ### A poll -/

section Polls

variable (env : Env F) (cfg : Config)

/-- The texts of a status; looking for a question may raise an error. -/
def receive (d : Display) (poll : Poll) : Option Display :=
  if poll.running then
    (extractAskBlock env.python poll.messageText).map fun r =>
      let display := strip r.1
      let tail := uncommittedTail d display
      { d with
        text := poll.messageText
        displayText := display
        tailText := tail
        visible := (tail.take 4096).dropWhile (· == '\n')
        sideEffect := if cfg.toolProgress then poll.lastSideEffect else d.sideEffect }
  else
    some { d with
      text := []
      displayText := []
      tailText := []
      visible := []
      sideEffect := [] }

/-- A placeholder is sent below what there is. -/
def newPlaceholder (s : Screen) : Screen :=
  { s with
    display := { s.display with
      messageId := some s.chat.nextId
      lastTextSent := replyPlaceholder }
    chat := s.chat.send replyPlaceholder none }

def startPlaceholder (s : Screen) : Screen :=
  if s.display.messageId = none ∧ s.display.displayText ≠ [] then newPlaceholder s else s

/-- What was committed of the reply, after a commit of the visible tail. -/
def commit (now : Rat) (d : Display) : Display :=
  let shownTail := d.tailText.take 4096
  let rawOk := d.committedRawOk && decide (d.tailText.length ≤ 4096)
  { d with
    committedDisplay :=
      if d.committedDisplay ≠ [] ∧ d.committedDisplay.isPrefixOf d.displayText then
        d.committedDisplay ++ shownTail
      else shownTail
    committedText := if rawOk then d.text else []
    committedRawOk := rawOk
    committedMessageId := d.messageId
    lastGrowthAt := now }

/-- A new tail is shown; one that stands still may be committed. -/
def showText (now : Rat) (s : Screen) : Screen :=
  match s.display.messageId with
  | none => s
  | some id =>
      if s.display.displayText = [] ∨ s.display.visible = [] then s
      else if s.display.visible ≠ s.display.lastTextSent then
        { display := { s.display with
            lastTextSent := s.display.visible
            lastGrowthAt := now }
          chat := s.chat.edit id s.display.visible
          edited := true }
      else if shouldCommit cfg s.display.tailText (now - s.display.lastGrowthAt) then
        newPlaceholder { s with
          display := commit now s.display
          edited := true }
      else s

def showSideEffect (s : Screen) : Screen :=
  match s.display.messageId with
  | none => s
  | some id =>
      if s.display.visible = [] ∧ s.display.sideEffect ≠ s.display.lastSideEffectSeen then
        { display := { s.display with lastTextSent := idlePlaceholder s.display }
          chat := s.chat.edit id (idlePlaceholder s.display)
          edited := true }
      else s

def showThought (thought : List Char) (s : Screen) : Screen :=
  match s.display.thoughtId with
  | none => s
  | some id =>
      if thought = [] then s
      else if formatThought thought ≠ s.display.lastThoughtSent then
        { display := { s.display with
            lastThoughtSent := formatThought thought
            lastThought := thought }
          chat := s.chat.edit id (formatThought thought)
          edited := true }
      else { s with display := { s.display with lastThought := thought } }

/-- The heartbeat of the reply's placeholder. -/
def heartbeatText (elapsed : Rat) (s : Screen) : Screen :=
  match s.display.messageId with
  | none => s
  | some id =>
      let base := (s.display.tailText.take 4096).dropWhile (· == '\n')
      let beat := buildHeartbeatText (if base = [] then idlePlaceholder s.display else base) elapsed
      if beat ≠ s.display.lastTextSent then
        { s with
          display := { s.display with lastTextSent := beat }
          chat := s.chat.edit id beat }
      else s

/-- The heartbeat of the thoughts' placeholder. -/
def heartbeatThought (elapsed : Rat) (s : Screen) : Screen :=
  match s.display.thoughtId with
  | none => s
  | some id =>
      let base :=
        if s.display.lastThought = [] then thinkingPrefix else formatThought s.display.lastThought
      let beat := buildHeartbeatText base elapsed
      if beat ≠ s.display.lastThoughtSent then
        { s with
          display := { s.display with lastThoughtSent := beat }
          chat := s.chat.edit id beat }
      else s

/-- The end of a poll: a heartbeat when nothing was edited for long enough. -/
def heartbeat (now : Rat) (s : Screen) : Screen :=
  if s.edited then { s with display := { s.display with lastEditAt := now } }
  else if heartbeatInterval ≤ now - s.display.lastEditAt then
    let elapsed := now - s.display.turnStartAt
    let beaten := heartbeatThought elapsed (heartbeatText elapsed s)
    { beaten with display := { beaten.display with lastEditAt := now } }
  else s

def seeSideEffect (s : Screen) : Screen :=
  { s with display := { s.display with lastSideEffectSeen := s.display.sideEffect } }

/-- `StreamDisplay.update`. -/
def update (s : Screen) (poll : Poll) : Option Screen :=
  (receive env cfg s.display poll).map fun d =>
    let s₁ := startPlaceholder { display := d, chat := s.chat, edited := false }
    let s₂ := showSideEffect (showText cfg poll.now s₁)
    seeSideEffect (heartbeat poll.now (showThought poll.thoughtText s₂))

end Polls

/-! ### The end of a turn -/

/-- The result of a turn; an empty notice is none. -/
structure Result where
  continuation : Bool
  reply : List Char
  notice : List Char

section Finalize

variable (env : Env F)

/-- The part of the reply that was not committed. -/
def uncommittedReply (d : Display) (reply display : List Char) : List Char :=
  if d.committedText ≠ [] ∧ d.committedText.isPrefixOf reply then
    (reply.drop d.committedText.length).dropWhile (· == '\n')
  else if d.committedDisplay ≠ [] ∧ d.committedDisplay.isPrefixOf display then
    (display.drop d.committedDisplay.length).dropWhile (· == '\n')
  else reply

def isBlank (text : List Char) : Bool := (strip text).isEmpty

def deleteIf (s : Chat) : Option Int → Chat
  | some id => s.delete id
  | none => s

/-- `_send_text`, without the ids, which are registered for later replies. -/
def post (s : Chat) (text : List Char) (first : Option Int) : Option Chat :=
  (sendText env s text first).map Prod.fst

/-- `_register_and_notice`. -/
def sendNotice (s : Chat) (notice : List Char) : Option Chat :=
  if notice = [] then some s else post env s ("System: ".toList ++ notice) none

/-- `_finalize_with_thought`. -/
def finalizeWithThought (d : Display) (s : Chat) (thought : List Char) (r : Result) :
    Option Chat :=
  let cleared := deleteIf (deleteIf (deleteIf s d.thoughtId) d.messageId) d.committedMessageId
  (post env cleared (thinkingPrefix ++ '\n' :: thought) none).bind fun s₁ =>
    (if isBlank r.reply then some s₁ else post env s₁ r.reply none).bind fun s₂ =>
      sendNotice env s₂ r.notice

/-- The placeholder of the reply, sent if there is none. -/
def lastPlaceholder (d : Display) (s : Chat) : Int × Chat :=
  match d.messageId with
  | some id => (id, s)
  | none => (s.nextId, s.send replyPlaceholder none)

/-- `_finalize_placeholder`. -/
def finalizePlaceholder (d : Display) (s : Chat) (r : Result) : Option Chat :=
  let placed := lastPlaceholder d (deleteIf s d.thoughtId)
  (extractAskBlock env.python r.reply).bind fun extracted =>
    let rest := uncommittedReply d r.reply (strip extracted.1)
    (if isBlank rest then some (placed.2.delete placed.1)
      else post env placed.2 rest (some placed.1)).bind fun s₁ =>
      sendNotice env s₁ r.notice

/-- The thought that was streamed, if there is a message for it. -/
def streamedThought (d : Display) : List Char :=
  if d.thoughtId.isSome then d.lastThought else []

/-- `StreamDisplay.finalize`. -/
def finalize (s : Screen) (r : Result) : Option Chat :=
  if r.continuation then
    if s.display.committedMessageId ≠ s.display.messageId then
      some (deleteIf s.chat s.display.committedMessageId)
    else some s.chat
  else if streamedThought s.display ≠ [] then
    finalizeWithThought env s.display s.chat (streamedThought s.display) r
  else finalizePlaceholder env s.display s.chat r

end Finalize

/-! ### What is claimed -/

section Claimed

variable (env : Env F)

def unlessBlank (text : List Char) : List (List Char) := if isBlank text then [] else [text]

def noticeTexts (notice : List Char) : List (List Char) :=
  if notice = [] then [] else ["System: ".toList ++ notice]

/-- The texts that are sent at the end of a turn. -/
def lastTexts (d : Display) (r : Result) (display : List Char) : List (List Char) :=
  if streamedThought d ≠ [] then
    [thinkingPrefix ++ '\n' :: streamedThought d] ++
      (unlessBlank r.reply ++ noticeTexts r.notice)
  else unlessBlank (uncommittedReply d r.reply display) ++ noticeTexts r.notice

/-- The questions that texts bring to the user, unless an error is raised. -/
def askedInAll : List (List Char) → Option (List AskBlock)
  | [] => some []
  | text :: texts =>
      (askedIn env text).bind fun ask => (askedInAll texts).map (ask.toList ++ ·)

end Claimed

/-! ### Polls send no question -/

section Polls

variable {env : Env F} {cfg : Config}

end Polls

/-! ### What the end of a turn leaves behind -/

section Ends

variable {env : Env F} {s s' s'' : Chat} {texts : List (List Char)} {b : AskBlock}

/-- Messages with the keyboards of questions were sent, and the last question is in the
file. -/
def PostedAll (env : Env F) (s s' : Chat) (bs : List AskBlock) : Prop :=
  ∃ sent : List (Int × AskBlock), sent.map Prod.snd = bs ∧
    s'.keyboards = s.keyboards ++ sent.map (fun p => (p.1, p.2.keyboard)) ∧
    s'.file = (sent.getLast?.map fun p =>
      savePendingQuestion env.python.floats env.chatId p.2 (some p.1)).or s.file

/-- An action sends texts: it leaves behind what they ask, or raises an error as they do. -/
def Sends (env : Env F) (s : Chat) (act : Option Chat) (texts : List (List Char)) : Prop :=
  (askedInAll env texts = none ∧ act = none) ∨
    ∃ bs s', askedInAll env texts = some bs ∧ act = some s' ∧ PostedAll env s s' bs

theorem PostedAll.of_quiet
    (h : Quiet s s') :
    PostedAll env s s' [] :=
  ⟨[], rfl, h.keyboards.trans (List.append_nil _).symm, h.file⟩

theorem PostedAll.append
    {bs bs' : List AskBlock} (h : PostedAll env s s' bs) (h' : PostedAll env s' s'' bs') :
    PostedAll env s s'' (bs ++ bs') := by
  obtain ⟨sent, rfl, hkeyboards, hfile⟩ := h
  obtain ⟨sent', rfl, hkeyboards', hfile'⟩ := h'
  refine ⟨sent ++ sent', List.map_append, ?_, ?_⟩
  · rw [hkeyboards', hkeyboards, List.map_append, List.append_assoc]
  · rw [hfile', hfile, List.getLast?_append, Option.map_or, Option.or_assoc]

theorem askedInAll_append
    (texts texts' : List (List Char)) :
    askedInAll env (texts ++ texts') =
      (askedInAll env texts).bind fun bs => (askedInAll env texts').map (bs ++ ·) := by
  induction texts with
  | nil =>
      cases h : askedInAll env texts' <;> simp [askedInAll, h]
  | cons text texts ih =>
      rw [List.cons_append, askedInAll, askedInAll, ih]
      cases askedIn env text with
      | none => rfl
      | some ask =>
          cases askedInAll env texts with
          | none => rfl
          | some bs =>
              cases askedInAll env texts' with
              | none => rfl
              | some bs' => simp

theorem Sends.of_quiet
    (h : Quiet s s') :
    Sends env s (some s') [] :=
  Or.inr ⟨[], s', rfl, rfl, PostedAll.of_quiet h⟩

theorem Sends.after
    {act : Option Chat} (hquiet : Quiet s s') (h : Sends env s' act texts) :
    Sends env s act texts := by
  rcases h with hnone | ⟨bs, s'', hasked, hact, hposted⟩
  · exact Or.inl hnone
  · exact Or.inr ⟨bs, s'', hasked, hact, (PostedAll.of_quiet hquiet).append hposted⟩

theorem Sends.bind
    {act : Option Chat} {next : Chat → Option Chat} {texts' : List (List Char)}
    (h : Sends env s act texts) (hnext : ∀ s', Sends env s' (next s') texts') :
    Sends env s (act.bind next) (texts ++ texts') := by
  unfold Sends
  rw [askedInAll_append]
  rcases h with ⟨hasked, rfl⟩ | ⟨bs, s', hasked, rfl, hposted⟩
  · exact Or.inl ⟨by rw [hasked, Option.bind_none], rfl⟩
  · rw [hasked, Option.bind_some, Option.bind_some]
    rcases hnext s' with ⟨hasked', hnone⟩ | ⟨bs', s'', hasked', hsome, hposted'⟩
    · exact Or.inl ⟨by rw [hasked', Option.map_none], hnone⟩
    · exact Or.inr ⟨bs ++ bs', s'', by rw [hasked', Option.map_some], hsome,
        hposted.append hposted'⟩

end Ends

section Results

variable (env : Env F) (cfg : Config)

/-- Nothing is shown before the first poll. -/
def Screen.new (messageId thoughtId : Option Int) (now : Rat) (nextId : Int)
    (file : Option (List Char)) : Screen :=
  { display := Display.new messageId thoughtId now
    chat :=
      { nextId := nextId
        calls := []
        file := file }
    edited := false }

variable {env} {d : Display} {r : Result} {display : List Char} {b : AskBlock}

/-- Of a reply nothing of which was committed the question is asked exactly when there is
other text. -/
theorem asked_uncommitted
    (hask : extractAskBlock env.python r.reply = some (display, some b))
    (htext : d.committedText = []) (hdisplay : d.committedDisplay = [])
    (hthought : streamedThought d = []) (hnotice : r.notice = []) :
    askedInAll env (lastTexts d r (strip display)) = some [b] ↔ shown display ≠ [] := by
  have hblank := strip_ne_nil_of_ask hask
  have hne : r.reply ≠ [] := fun hnil => hblank (by rw [hnil]; rfl)
  have hlast : lastTexts d r (strip display) = [r.reply] := by
    simp [lastTexts, hthought, uncommittedReply, htext, hdisplay, unlessBlank, isBlank, hblank,
      noticeTexts, hnotice]
  rw [hlast, askedInAll, askedInAll, askedIn, if_neg hne, hask]
  by_cases hshown : shown display = []
  · simp [hshown]
  · simp [hshown]

/-- A question that was committed with its reply is not asked. -/
theorem not_asked_committed
    (hask : extractAskBlock env.python r.reply = some (display, some b))
    (htext : d.committedText = r.reply)
    (hthought : streamedThought d = []) (hnotice : r.notice = []) :
    askedInAll env (lastTexts d r (strip display)) = some [] := by
  have hne : r.reply ≠ [] := fun hnil => strip_ne_nil_of_ask hask (by rw [hnil]; rfl)
  have hrest : uncommittedReply d r.reply (strip display) = [] := by
    rw [uncommittedReply, if_pos (by simp [htext, hne]), htext, List.drop_length]
    rfl
  have hlast : lastTexts d r (strip display) = [] := by
    rw [lastTexts, if_neg (not_not_intro hthought), hrest, hnotice]
    rfl
  rw [hlast, askedInAll]

/-- Short texts, in one chunk each. -/
def exampleEnv : Env Empty where
  python :=
    { floats := noFloats
      isZero := fun x => x.elim
      repr := fun _ => [] }
  rendering :=
    { markdown := false
      chunks := fun display => [display]
      nonempty := fun display => List.cons_ne_nil display [] }
  chatId := 1

def exampleConfig : Config :=
  { intermediateMessages := true
    intermediateIdle := 3
    intermediateMinChars := 20
    toolProgress := true }

/-- The placeholder of the turn is the message 7. -/
def exampleScreen : Screen := Screen.new (some 7) none 0 8 none

def pollOf (now : Rat) (text : List Char) : Poll :=
  { now := now
    running := true
    messageText := text
    lastSideEffect := []
    thoughtText := [] }

def resultOf (reply : List Char) : Result :=
  { continuation := false
    reply := reply
    notice := [] }

end Results

end StreamDisplay
end Telegram
end DiploidAgent
