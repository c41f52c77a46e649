import DiploidAgent.Lib.Rolling

/-!
# The text of a running turn

`ActiveTurn` of `models.py` and `TurnStream` of `turn/stream.py`.  The message stream may
repeat the thoughts before the answer; of both streams only so many characters are kept, and
the shown text is what is kept of the messages behind the thoughts.

What is shown is the end of the answer, as it would be of the whole stream, exactly where
the thoughts were dropped from the window altogether or are recognized in it
(`message_text_iff`).  A short thought is looked for at the start of the window also when the
window does not start with the stream any more.
-/

namespace DiploidAgent
namespace Turns
namespace RollingText

open Rolling

/-! ### The turn -/

def maxThoughtTextChars : Nat := 20000

structure ActiveTurn where
  messageText : List Char
  thoughtText : List Char
  thoughtPrefix : List Char
  fullText : List Char
  thoughtTotal : Nat
  fullTextOffset : Nat
deriving DecidableEq

def ActiveTurn.new : ActiveTurn := ⟨[], [], [], [], 0, 0⟩

/-- `append_full_text`. -/
def appendFullText (a : ActiveTurn) (text : List Char) : ActiveTurn :=
  let full := a.fullText ++ text
  let excess := full.length - maxThoughtTextChars
  { a with
    fullText := full.drop excess
    fullTextOffset := a.fullTextOffset + excess }

/-- `full_text_has_thought_prefix`. -/
def fullTextHasThoughtPrefix (a : ActiveTurn) : Bool :=
  if a.thoughtTotal = 0 ∨ a.fullText = [] then false
  else if a.thoughtTotal ≤ maxThoughtTextChars then a.thoughtText.isPrefixOf a.fullText
  else
    let first := a.fullTextOffset
    let last := min maxThoughtTextChars (first + a.fullText.length)
    if last ≤ first then false
    else a.fullText.take (last - first) = (a.thoughtPrefix.take last).drop first

/-- The part of the window behind the thoughts, if these are recognized. -/
def messageOf (a : ActiveTurn) : List Char :=
  if a.fullText = [] then []
  else
    let message :=
      if 0 < a.thoughtTotal ∧ fullTextHasThoughtPrefix a = true then
        a.fullText.drop (a.thoughtTotal - a.fullTextOffset)
      else a.fullText
    if maxThoughtTextChars < message.length then message.rtake maxThoughtTextChars else message

/-- `recompute_message_text`. -/
def recomputeMessageText (a : ActiveTurn) : ActiveTurn := { a with messageText := messageOf a }

/-- `append_thought_text`. -/
def appendThoughtText (a : ActiveTurn) (text : List Char) : ActiveTurn :=
  let thought := a.thoughtText ++ text
  let start := a.thoughtPrefix ++ text
  { a with
    thoughtText :=
      if maxThoughtTextChars < thought.length then thought.rtake maxThoughtTextChars else thought
    thoughtPrefix :=
      if maxThoughtTextChars < start.length then start.take maxThoughtTextChars else start
    thoughtTotal := a.thoughtTotal + text.length }

/-! ### The stream -/

/-- A content block of an update. -/
structure Block where
  type : String
  text : List Char
deriving DecidableEq

/-- A content is a list of blocks, or one block. -/
inductive Content where
  | blocks (l : List Block)
  | block (b : Block)
deriving DecidableEq

def Block.ofText (b : Block) : List Char := if b.type = "text" then b.text else []

def Content.text : Content → List Char
  | .blocks l => (l.map Block.ofText).flatten
  | .block b => b.ofText

/-- A chunk of the message stream, or an update with thoughts. -/
inductive Event where
  | chunk (text : List Char)
  | thought (content : Content)
deriving DecidableEq

/-- `on_chunk`. -/
def onChunk (a : ActiveTurn) (text : List Char) : ActiveTurn :=
  recomputeMessageText (appendFullText a text)

/-- `on_update`, of an update with thoughts. -/
def onUpdate (a : ActiveTurn) (content : Content) : ActiveTurn :=
  if content.text = [] then a else recomputeMessageText (appendThoughtText a content.text)

def onEvent (a : ActiveTurn) : Event → ActiveTurn
  | .chunk text => onChunk a text
  | .thought content => onUpdate a content

def runEvents (events : List Event) : ActiveTurn := events.foldl onEvent ActiveTurn.new

def Event.thoughtText : Event → List Char
  | .chunk _ => []
  | .thought content => content.text

def Event.chunkText : Event → List Char
  | .chunk text => text
  | .thought _ => []

/-- The thoughts and the messages of a turn. -/
def thoughts (events : List Event) : List Char := (events.map Event.thoughtText).flatten

def messages (events : List Event) : List Char := (events.map Event.chunkText).flatten

/-! ### What is claimed -/

/-- The end of the answer that was received behind the thoughts. -/
def answerEnd (thought message : List Char) : List Char :=
  (message.drop thought.length).rtake maxThoughtTextChars

/-- The condition on the streams: one of them is empty, or the window lies behind the
thoughts, or it starts with a short thought, or with some of what was kept of the start of a
long one. -/
def Recognized (thought message : List Char) : Prop :=
  thought = [] ∨ message = [] ∨ thought.length + maxThoughtTextChars ≤ message.length ∨
    (thought.length ≤ maxThoughtTextChars ∧ thought <+: message.rtake maxThoughtTextChars) ∨
    (maxThoughtTextChars < thought.length ∧ message.length < 2 * maxThoughtTextChars)

/-! ### What is kept -/

/-- The fields of a turn that received these streams. -/
structure Keeps (thought message : List Char) (a : ActiveTurn) : Prop where
  fullText : a.fullText = message.rtake maxThoughtTextChars
  fullTextOffset : a.fullTextOffset = message.length - maxThoughtTextChars
  thoughtText : a.thoughtText = thought.rtake maxThoughtTextChars
  thoughtPrefix : a.thoughtPrefix = thought.take maxThoughtTextChars
  thoughtTotal : a.thoughtTotal = thought.length
  messageText : a.messageText = messageOf a

section Kept

variable {thought message : List Char} {a : ActiveTurn}

/-- The shown text is not used to find it. -/
theorem recompute_eq (a : ActiveTurn) :
    ∃ text, recomputeMessageText a = { a with messageText := text } ∧
      messageOf { a with messageText := text } = text := by
  refine ⟨messageOf a, rfl, ?_⟩
  simp only [messageOf, fullTextHasThoughtPrefix]

theorem keeps_recompute
    (hfull : a.fullText = message.rtake maxThoughtTextChars)
    (hoffset : a.fullTextOffset = message.length - maxThoughtTextChars)
    (hthought : a.thoughtText = thought.rtake maxThoughtTextChars)
    (hstart : a.thoughtPrefix = thought.take maxThoughtTextChars)
    (htotal : a.thoughtTotal = thought.length) :
    Keeps thought message (recomputeMessageText a) := by
  obtain ⟨text, hrecompute, htext⟩ := recompute_eq a
  rw [hrecompute]
  exact ⟨hfull, hoffset, hthought, hstart, htotal, htext.symm⟩

theorem keeps_new : Keeps [] [] ActiveTurn.new := ⟨rfl, rfl, rfl, rfl, rfl, rfl⟩

theorem keeps_onChunk
    (h : Keeps thought message a) (text : List Char) :
    Keeps thought (message ++ text) (onChunk a text) := by
  unfold onChunk appendFullText
  refine keeps_recompute ?_ ?_ h.thoughtText h.thoughtPrefix h.thoughtTotal
  · dsimp only
    rw [h.fullText]
    exact rtake_append_rtake maxThoughtTextChars message text
  · dsimp only
    rw [h.fullTextOffset, h.fullText, List.length_append, List.length_append, length_rtake]
    omega

theorem keeps_onUpdate
    (h : Keeps thought message a) (content : Content) :
    Keeps (thought ++ content.text) message (onUpdate a content) := by
  unfold onUpdate appendThoughtText
  split_ifs with hempty
  · rwa [hempty, List.append_nil]
  · refine keeps_recompute h.fullText h.fullTextOffset ?_ ?_ ?_
    · dsimp only
      rw [h.thoughtText]
      split_ifs with hlong
      · exact rtake_append_rtake _ _ _
      · rw [← rtake_append_rtake, rtake_of_length_le (Nat.le_of_not_lt hlong)]
    · dsimp only
      rw [h.thoughtPrefix]
      split_ifs with hlong
      · exact take_append_take _ _ _
      · rw [← take_append_take, List.take_of_length_le (Nat.le_of_not_lt hlong)]
    · rw [h.thoughtTotal, List.length_append]

/-- A turn keeps the ends of its streams. -/
theorem keeps_runEvents
    (events : List Event) :
    Keeps (thoughts events) (messages events) (runEvents events) := by
  induction events using List.reverseRecOn with
  | nil => exact keeps_new
  | append_singleton events event ih =>
      have hrun : runEvents (events ++ [event]) = onEvent (runEvents events) event :=
        List.foldl_concat ..
      have hthoughts : thoughts (events ++ [event]) = thoughts events ++ event.thoughtText := by
        simp [thoughts]
      have hmessages : messages (events ++ [event]) = messages events ++ event.chunkText := by
        simp [messages]
      rw [hrun, hthoughts, hmessages]
      cases event with
      | chunk text =>
          rw [Event.thoughtText, List.append_nil]
          exact keeps_onChunk ih text
      | thought content =>
          rw [Event.chunkText, List.append_nil]
          exact keeps_onUpdate ih content

end Kept

/-! ### What is shown -/

section Shown

variable {thought message : List Char} {a : ActiveTurn}

/-- The window starts with thoughts exactly where it starts with a short one, or where not all
of what was kept of a long one was dropped. -/
theorem hasThoughtPrefix_iff
    (h : Keeps thought message a) (hstreams : message <+: thought ∨ thought <+: message)
    (hthought : thought ≠ []) (hmessage : message ≠ []) :
    fullTextHasThoughtPrefix a = true ↔
      (thought.length ≤ maxThoughtTextChars ∧ thought <+: message.rtake maxThoughtTextChars) ∨
        (maxThoughtTextChars < thought.length ∧ message.length < 2 * maxThoughtTextChars) := by
  have hpos : 0 < message.length := List.length_pos_of_ne_nil hmessage
  have hmax : 0 < maxThoughtTextChars := by decide
  have hwindow : message.rtake maxThoughtTextChars ≠ [] := by
    rw [ne_eq, ← List.length_eq_zero_iff, length_rtake]
    omega
  have hsome : ¬ (a.thoughtTotal = 0 ∨ a.fullText = []) := by
    rw [h.thoughtTotal, h.fullText, List.length_eq_zero_iff]
    exact not_or.mpr ⟨hthought, hwindow⟩
  unfold fullTextHasThoughtPrefix
  rw [if_neg hsome, h.thoughtTotal]
  split_ifs with hshort
  · rw [List.isPrefixOf_iff_prefix, h.thoughtText, h.fullText, rtake_of_length_le hshort]
    constructor
    · exact fun hstart => Or.inl ⟨hshort, hstart⟩
    · rintro (⟨_, hstart⟩ | ⟨hlong, _⟩)
      · exact hstart
      · omega
  · simp only [h.fullText, h.fullTextOffset, h.thoughtPrefix, length_rtake]
    split_ifs with hempty
    · refine iff_of_false not_false ?_
      omega
    · -- The window and the kept start are pieces of streams that agree.
      refine iff_of_true (decide_eq_true ?_) (by omega)
      have hagree := take_eq_take_of_prefix (k := min maxThoughtTextChars message.length)
        hstreams (Nat.min_le_right _ _) (by omega)
      have hlast : min maxThoughtTextChars (message.length - maxThoughtTextChars +
          min maxThoughtTextChars message.length) = min maxThoughtTextChars message.length := by
        omega
      rw [hlast, List.take_take, Nat.min_eq_left (Nat.min_le_left _ _), List.rtake,
        ← List.drop_take, hagree]

/-- What is shown is the end of the answer exactly when the thoughts are recognized. -/
theorem messageText_iff
    (h : Keeps thought message a) (hstreams : message <+: thought ∨ thought <+: message) :
    a.messageText = answerEnd thought message ↔ Recognized thought message := by
  have hmax : 0 < maxThoughtTextChars := by decide
  rw [h.messageText, answerEnd, rtake_drop]
  by_cases hmessage : message = []
  · refine iff_of_true ?_ (Or.inr (Or.inl hmessage))
    rw [messageOf, h.fullText, hmessage, List.rtake_nil, if_pos rfl, List.drop_nil]
  have hpos : 0 < message.length := List.length_pos_of_ne_nil hmessage
  have hwindow : message.rtake maxThoughtTextChars ≠ [] := by
    rw [ne_eq, ← List.length_eq_zero_iff, length_rtake]
    omega
  -- The window is not cut again, since it is not longer than that.
  have hshort : ∀ k, ¬ maxThoughtTextChars < ((message.rtake maxThoughtTextChars).drop k).length := by
    intro k
    rw [List.length_drop, length_rtake]
    omega
  have hwhole := hshort 0
  rw [List.drop_zero] at hwhole
  unfold messageOf Recognized
  rw [h.fullText, if_neg hwindow, h.thoughtTotal, h.fullTextOffset]
  by_cases hthought : thought = []
  · refine iff_of_true ?_ (Or.inl hthought)
    have hlength : thought.length = 0 := List.length_eq_zero_iff.mpr hthought
    have hnone : ¬ (0 < thought.length ∧ fullTextHasThoughtPrefix a = true) := by omega
    simp only [if_neg hnone, if_neg hwhole]
    rw [List.rtake, drop_eq_drop_iff]
    omega
  have hsome : 0 < thought.length := List.length_pos_of_ne_nil hthought
  rw [← hasThoughtPrefix_iff h hstreams hthought hmessage]
  by_cases hstart : fullTextHasThoughtPrefix a = true
  · refine iff_of_true ?_ (Or.inr (Or.inr (Or.inr hstart)))
    simp only [if_pos (And.intro hsome hstart), if_neg (hshort _)]
    rw [drop_rtake, drop_eq_drop_iff]
    omega
  · have hnone : ¬ (0 < thought.length ∧ fullTextHasThoughtPrefix a = true) := fun hboth =>
      hstart hboth.2
    simp only [if_neg hnone, if_neg hwhole]
    rw [List.rtake, drop_eq_drop_iff]
    simp only [hthought, hmessage, hstart, Bool.false_eq_true, false_or, or_false]
    omega

end Shown

/-! ### Results -/

section Results

/-- **Shown text.**  After any events whose messages repeat the thoughts before an answer, the
end of the answer is shown exactly when the thoughts are recognized. -/
theorem message_text_iff
    (events : List Event) (answer : List Char)
    (hmessages : messages events <+: thoughts events ++ answer) :
    (runEvents events).messageText = answerEnd (thoughts events) (messages events) ↔
      Recognized (thoughts events) (messages events) := by
  refine messageText_iff (keeps_runEvents events) ?_
  exact List.prefix_or_prefix_of_prefix hmessages (List.prefix_append _ _)

/-- Thoughts and an answer. -/
def thoughtAndAnswer (t m : Nat) : List Event :=
  [.thought (.block ⟨"text", List.replicate t 'a'⟩),
    .chunk (List.replicate t 'a' ++ List.replicate m 'b')]

theorem thoughts_thoughtAndAnswer (t m : Nat) :
    thoughts (thoughtAndAnswer t m) = List.replicate t 'a' := by
  simp [thoughts, thoughtAndAnswer, Event.thoughtText, Content.text, Block.ofText]

theorem messages_thoughtAndAnswer (t m : Nat) :
    messages (thoughtAndAnswer t m) = List.replicate t 'a' ++ List.replicate m 'b' := by
  simp [messages, thoughtAndAnswer, Event.chunkText]

/-- A short thought before a short answer. -/
theorem message_text_short :
    (runEvents (thoughtAndAnswer 3 2)).messageText =
        answerEnd (thoughts (thoughtAndAnswer 3 2)) (messages (thoughtAndAnswer 3 2)) ↔
      Recognized (thoughts (thoughtAndAnswer 3 2)) (messages (thoughtAndAnswer 3 2)) := by
  refine message_text_iff (thoughtAndAnswer 3 2) (List.replicate 2 'b') ⟨[], ?_⟩
  rw [thoughts_thoughtAndAnswer, messages_thoughtAndAnswer, List.append_nil]

/-- A thought of 15000 characters is not recognized any more behind 5000 characters of the
answer. -/
theorem thought_shown_as_answer :
    ∃ events answer, messages events = thoughts events ++ answer ∧
      (runEvents events).messageText ≠ answerEnd (thoughts events) (messages events) := by
  refine ⟨thoughtAndAnswer 15000 10000, List.replicate 10000 'b', ?_, ?_⟩
  · rw [thoughts_thoughtAndAnswer, messages_thoughtAndAnswer]
  have hthoughts := thoughts_thoughtAndAnswer 15000 10000
  have hmessages := messages_thoughtAndAnswer 15000 10000
  have hmax : maxThoughtTextChars = 20000 := rfl
  rw [ne_eq, messageText_iff (keeps_runEvents _) (Or.inr (by
    rw [hthoughts, hmessages]
    exact List.prefix_append _ _)), hthoughts, hmessages]
  rintro (hnil | hnil | hlong | ⟨_, hstart⟩ | ⟨hlong, _⟩)
  · exact absurd (List.replicate_eq_nil_iff _ |>.mp hnil) (by decide)
  · exact absurd (List.replicate_eq_nil_iff _ |>.mp (List.append_eq_nil_iff.mp hnil).1) (by decide)
  · simp only [List.length_append, List.length_replicate] at hlong
    omega
  · -- The window has only 10000 characters of the thought.
    have hcount := hstart.sublist.count_le 'a'
    rw [List.rtake, List.length_append, List.length_replicate, List.length_replicate, hmax,
      List.drop_append_of_le_length (by rw [List.length_replicate]; decide), List.drop_replicate,
      List.count_append, List.count_replicate_self, List.count_replicate_self,
      List.count_replicate, if_neg (by decide)] at hcount
    omega
  · rw [List.length_replicate] at hlong
    omega

end Results

end RollingText
end Turns
end DiploidAgent
