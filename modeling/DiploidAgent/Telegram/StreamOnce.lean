import DiploidAgent.Lib.Board
import DiploidAgent.Lib.Seams
import DiploidAgent.Telegram.StreamDisplay

/-!
# A streamed reply is shown once

While a reply is streamed the display commits what stands still and shows the rest in its
placeholder; at the end the rest is sent.  What was committed and what is sent at the end
spell the stripped reply (`shown_once`): the raw and the stripped text of the last commit
end at the same place of the reply, whatever the polls and the commits were.

A text that is committed above the limit of a message is committed in part; from then on only
the stripped text counts.
-/

namespace DiploidAgent
namespace Telegram
namespace StreamOnce

open Text Sender StreamDisplay Seams Runs

variable {F : Type}

/-! ### The messages of a chat -/

abbrev Messages := List (Int × List Char)

/-- What a call does to the messages. -/
def apply (b : Messages) : Call → Messages
  | .send id text _ => b ++ [(id, text)]
  | .edit id text => Board.edit id text b
  | .delete id => Board.delete id b

/-- The messages after the calls of the chat. -/
def board (start : Messages) (s : Chat) : Messages := s.calls.foldl apply start

/-- The message of the placeholder that the turn starts with, if it has one. -/
def opening (messageId : Option Int) (text : List Char) : Messages :=
  messageId.toList.map fun id => (id, text)

/-- The messages that were committed: all but the placeholder. -/
def committed (start : Messages) (s : Screen) : Messages :=
  (board start s.chat).filter fun m => some m.1 ≠ s.display.messageId

/-- What the end of the turn sends of a reply without a question. -/
def replyTexts (d : Display) (reply : List Char) : List (List Char) :=
  unlessBlank (uncommittedReply d reply (strip reply))

section Delivery

variable (env : Env F)

/-- The messages in which a text arrives, unless an error is raised. -/
def delivered (text : List Char) : Option (List (List Char)) :=
  if text = [] then some []
  else
    (extractAskBlock env.python text).map fun r =>
      if shown r.1 = [] then [] else env.rendering.chunks (shown r.1)

def deliveredAll : List (List Char) → Option (List (List Char))
  | [] => some []
  | text :: texts =>
      (delivered env text).bind fun ms => (deliveredAll texts).map (ms ++ ·)

/-- The committed messages and the text that is sent at the end spell the stripped reply; the
chat holds the committed messages and then those in which the text and the notice arrive. -/
structure ShownOnce (start : Messages) (s : Screen) (r : Result) : Prop where
  spelled : Spells isSpace (Board.texts (committed start s) ++ replyTexts s.display r.reply)
    (strip r.reply)
  ended : (finalize env s r).map (fun s' => Board.texts (board start s')) =
    (deliveredAll env (replyTexts s.display r.reply ++ noticeTexts r.notice)).map
      (Board.texts (committed start s) ++ ·)

end Delivery

/-! ### Calls -/

section Calls

variable {start : Messages} {s : Chat}

@[simp] theorem board_send (start : Messages) (s : Chat) (text : List Char)
    (keyboard : Option (List Button)) :
    board start (s.send text keyboard) = board start s ++ [(s.nextId, text)] := by
  simp [board, Chat.send, apply]

@[simp] theorem board_edit (start : Messages) (s : Chat) (id : Int) (text : List Char) :
    board start (s.edit id text) = Board.edit id text (board start s) := by
  simp [board, Chat.edit, apply]

@[simp] theorem board_delete (start : Messages) (s : Chat) (id : Int) :
    board start (s.delete id) = Board.delete id (board start s) := by
  simp [board, Chat.delete, apply]

end Calls

/-! ### The placeholder -/

/-- The messages are those that were committed and the placeholder, which shows the text that
was sent last. -/
structure Placed (start M : Messages) (s : Screen) : Prop where
  split : ∃ text, board start s.chat = M ++ opening s.display.messageId text ∧
    (s.display.lastTextSent ≠ [] → text = s.display.lastTextSent)
  fresh : ∀ m ∈ board start s.chat, m.1 < s.chat.nextId
  nodup : ((board start s.chat).map Prod.fst).Nodup

namespace Placed

variable {start M : Messages} {s s' : Screen}

theorem of_same (h : Placed start M s) (hchat : s'.chat = s.chat)
    (hid : s'.display.messageId = s.display.messageId)
    (hlast : s'.display.lastTextSent = s.display.lastTextSent) : Placed start M s' where
  split := by
    rw [hchat, hid, hlast]
    exact h.split
  fresh := by
    rw [hchat]
    exact h.fresh
  nodup := by
    rw [hchat]
    exact h.nodup

theorem not_committed (h : Placed start M s) {id : Int} (hid : s.display.messageId = some id) :
    id ∉ M.map Prod.fst := by
  obtain ⟨text, hboard, _⟩ := h.split
  have hnodup := h.nodup
  rw [hboard, hid, List.map_append] at hnodup
  exact fun hmem => (List.nodup_append.mp hnodup).2.2 id hmem id (by simp [opening]) rfl

/-- The placeholder is edited. -/
theorem edit (h : Placed start M s) {id : Int} (hid : s.display.messageId = some id)
    {text : List Char} (hchat : s'.chat = s.chat.edit id text)
    (hid' : s'.display.messageId = some id) (hlast : s'.display.lastTextSent = text) :
    Placed start M s' where
  split := by
    obtain ⟨old, hboard, _⟩ := h.split
    refine ⟨text, ?_, fun _ => hlast.symm⟩
    rw [hchat, board_edit, hboard, hid, hid']
    exact Board.edit_concat (h.not_committed hid) old text
  fresh := by
    intro m hm
    rw [hchat, board_edit] at hm
    have hkey : m.1 ∈ (board start s.chat).map Prod.fst := by
      rw [← Board.keys_edit id text]
      exact List.mem_map_of_mem hm
    obtain ⟨m', hm', heq⟩ := List.mem_map.mp hkey
    rw [hchat, ← heq]
    exact h.fresh m' hm'
  nodup := by
    rw [hchat, board_edit, Board.keys_edit]
    exact h.nodup

theorem concat_fresh (h : Placed start M s) (text : List Char) :
    (∀ m ∈ board start s.chat ++ [(s.chat.nextId, text)], m.1 < s.chat.nextId + 1) ∧
      ((board start s.chat ++ [(s.chat.nextId, text)]).map Prod.fst).Nodup := by
  constructor
  · intro m hm
    rcases List.mem_append.mp hm with hm | hm
    · have hlt := h.fresh m hm
      omega
    · rw [List.mem_singleton.mp hm]
      omega
  · rw [List.map_append, List.nodup_append]
    refine ⟨h.nodup, List.nodup_singleton _, fun id hid id' hid' => ?_⟩
    obtain ⟨m, hm, rfl⟩ := List.mem_map.mp hid
    have hlt := h.fresh m hm
    rw [List.map_singleton, List.mem_singleton] at hid'
    omega

/-- A first placeholder is sent. -/
theorem first (h : Placed start M s) (hid : s.display.messageId = none) :
    Placed start M (newPlaceholder s) where
  split := by
    obtain ⟨text, hboard, _⟩ := h.split
    rw [hid] at hboard
    refine ⟨replyPlaceholder, ?_, fun _ => rfl⟩
    rw [newPlaceholder, board_send, hboard]
    simp [opening]
  fresh := by
    rw [newPlaceholder, board_send]
    exact (h.concat_fresh replyPlaceholder).1
  nodup := by
    rw [newPlaceholder, board_send]
    exact (h.concat_fresh replyPlaceholder).2

/-- The placeholder becomes a message of its own. -/
theorem next (h : Placed start M s) {id : Int} (hid : s.display.messageId = some id)
    {text : List Char} (htext : text ≠ []) (hlast : s.display.lastTextSent = text)
    (hchat : s'.chat = s.chat) : Placed start (M ++ [(id, text)]) (newPlaceholder s') where
  split := by
    obtain ⟨old, hboard, hold⟩ := h.split
    obtain rfl : old = text := (hold (by rw [hlast]; exact htext)).trans hlast
    rw [hid] at hboard
    refine ⟨replyPlaceholder, ?_, fun _ => rfl⟩
    rw [newPlaceholder, board_send, hchat, hboard]
    rfl
  fresh := by
    rw [newPlaceholder, board_send, hchat]
    exact (h.concat_fresh replyPlaceholder).1
  nodup := by
    rw [newPlaceholder, board_send, hchat]
    exact (h.concat_fresh replyPlaceholder).2

/-- The committed messages are those before the placeholder. -/
theorem committed_eq (h : Placed start M s) : committed start s = M := by
  obtain ⟨text, hboard, _⟩ := h.split
  unfold committed
  rw [hboard, List.filter_append]
  cases hid : s.display.messageId with
  | none => simp [opening]
  | some id =>
      have hnot := h.not_committed hid
      have hkept : M.filter (fun m => decide (some m.1 ≠ some id)) = M := by
        refine List.filter_eq_self.mpr fun m hm => decide_eq_true fun heq => hnot ?_
        rw [← Option.some.inj heq]
        exact List.mem_map_of_mem hm
      rw [hkept]
      simp [opening]

end Placed

/-! ### What was committed -/

theorem isSpace_newline {c : Char} (h : (c == '\n') = true) : isSpace c = true := by
  rw [beq_iff_eq.mp h]
  decide

/-- The committed messages spell what the display has of them, and that is a beginning of the
stripped text; the raw text that was committed, if there is one, is the same when stripped. -/
structure Told (p : List Char) (M : Messages) (d : Display) : Prop where
  spells : Spells isSpace (Board.texts M) d.committedDisplay
  within : d.committedDisplay <+: strip p
  raw : d.committedText ≠ [] → d.committedText <+: p ∧ strip d.committedText = d.committedDisplay
  nothing : d.committedDisplay = [] → M = [] ∧ d.committedText = []
  thoughtless : d.thoughtId = none

/-- The display after it received a text. -/
structure Received (p : List Char) (d : Display) : Prop where
  text : d.text = p
  displayText : d.displayText = strip p
  tailText : d.tailText = (strip p).drop d.committedDisplay.length
  visible : d.visible = (d.tailText.take 4096).dropWhile (· == '\n')

section Commits

variable {p : List Char} {M : Messages} {d : Display}

theorem Told.of_same {d' : Display} (h : Told p M d)
    (htext : d'.committedText = d.committedText)
    (hdisplay : d'.committedDisplay = d.committedDisplay) (hid : d'.thoughtId = d.thoughtId) :
    Told p M d' where
  spells := by
    rw [hdisplay]
    exact h.spells
  within := by
    rw [hdisplay]
    exact h.within
  raw := by
    rw [htext, hdisplay]
    exact h.raw
  nothing := by
    rw [hdisplay, htext]
    exact h.nothing
  thoughtless := hid.trans h.thoughtless

/-- The text grows. -/
theorem Told.grow {p' : List Char} (h : Told p M d) (hp : p <+: p') : Told p' M d where
  spells := h.spells
  within := h.within.trans (trim_mono hp)
  raw := fun hne => ⟨(h.raw hne).1.trans hp, (h.raw hne).2⟩
  nothing := h.nothing
  thoughtless := h.thoughtless

theorem uncommittedTail_eq {full : List Char} (h : d.committedDisplay <+: full) :
    uncommittedTail d full = full.drop d.committedDisplay.length := by
  unfold uncommittedTail
  split
  · rfl
  · next hnot =>
      have hnil : d.committedDisplay = [] := by
        by_contra hne
        exact hnot ⟨hne, List.isPrefixOf_iff_prefix.mpr h⟩
      rw [hnil]
      rfl

/-- A commit adds the visible tail. -/
theorem Told.commit (h : Told p M d) (hr : Received p d) (hvisible : d.visible ≠ []) (id : Int)
    (now : Rat) : Told p (M ++ [(id, d.visible)]) (commit now d) := by
  have hshown : (StreamDisplay.commit now d).committedDisplay =
      d.committedDisplay ++ d.tailText.take 4096 := by
    unfold StreamDisplay.commit
    dsimp only
    split
    · rfl
    · next hnot =>
        have hnil : d.committedDisplay = [] := by
          by_contra hne
          refine hnot ⟨hne, List.isPrefixOf_iff_prefix.mpr ?_⟩
          rw [hr.displayText]
          exact h.within
        rw [hnil]
        rfl
  have hsplit : d.committedDisplay ++ d.tailText = strip p := by
    obtain ⟨rest, hrest⟩ := h.within
    rw [hr.tailText, ← hrest, List.drop_left]
  refine ⟨?_, ?_, fun hne => ?_, fun hnil => ?_, h.thoughtless⟩
  · rw [hshown, Board.texts_append]
    refine h.spells.append (spells_single ?_)
    rw [hr.visible]
    exact trim_dropWhile _ fun c => isSpace_newline
  · rw [hshown, ← hsplit]
    exact (List.prefix_append_right_inj _).mpr (List.take_prefix _ _)
  · -- the raw text is kept only when the whole tail was shown
    unfold StreamDisplay.commit at hne
    dsimp only at hne
    split at hne
    · next hraw =>
        rw [Bool.and_eq_true, decide_eq_true_eq] at hraw
        have htext : (StreamDisplay.commit now d).committedText = p := by
          unfold StreamDisplay.commit
          rw [← hr.text]
          exact if_pos (by rw [hraw.1, decide_eq_true hraw.2]; rfl)
        rw [htext, hshown, List.take_of_length_le hraw.2]
        exact ⟨List.prefix_rfl, hsplit.symm⟩
    · exact absurd rfl hne
  · rw [hshown, List.append_eq_nil_iff] at hnil
    rw [hr.visible, hnil.2] at hvisible
    exact absurd rfl hvisible

end Commits

/-! ### Polls -/

/-- The messages and what the display has of them. -/
structure Streams (start : Messages) (p : List Char) (M : Messages) (s : Screen) : Prop where
  placed : Placed start M s
  told : Told p M s.display

section Polls

variable {start M : Messages} {p : List Char} {s : Screen}

namespace Streams

theorem of_same {s' : Screen} (h : Streams start p M s) (hchat : s'.chat = s.chat)
    (hid : s'.display.messageId = s.display.messageId)
    (hlast : s'.display.lastTextSent = s.display.lastTextSent)
    (htext : s'.display.committedText = s.display.committedText)
    (hdisplay : s'.display.committedDisplay = s.display.committedDisplay)
    (hthought : s'.display.thoughtId = s.display.thoughtId) : Streams start p M s' :=
  ⟨h.placed.of_same hchat hid hlast, h.told.of_same htext hdisplay hthought⟩

/-- The placeholder gets another text. -/
theorem edit {s' : Screen} (h : Streams start p M s) {id : Int}
    (hid : s.display.messageId = some id) {text : List Char}
    (hchat : s'.chat = s.chat.edit id text)
    (hid' : s'.display.messageId = some id) (hlast : s'.display.lastTextSent = text)
    (htext : s'.display.committedText = s.display.committedText)
    (hdisplay : s'.display.committedDisplay = s.display.committedDisplay)
    (hthought : s'.display.thoughtId = s.display.thoughtId) : Streams start p M s' :=
  ⟨h.placed.edit hid hchat hid' hlast, h.told.of_same htext hdisplay hthought⟩

theorem startPlaceholder (h : Streams start p M s) :
    Streams start p M (startPlaceholder s) := by
  unfold StreamDisplay.startPlaceholder
  split
  · next hnone => exact ⟨h.placed.first hnone.1, h.told.of_same rfl rfl rfl⟩
  · exact h

/-- What stands still is committed, or nothing is. -/
theorem showText (cfg : Config) (h : Streams start p M s) (hr : Received p s.display)
    (now : Rat) :
    ∃ M', Streams start p M' (showText cfg now s) := by
  unfold StreamDisplay.showText
  split
  · exact ⟨M, h⟩
  · next id hid =>
      split
      · exact ⟨M, h⟩
      · next hshown =>
          rw [not_or] at hshown
          split
          · exact ⟨M, h.edit hid rfl hid rfl rfl rfl rfl⟩
          · next hsame =>
              rw [ne_eq, not_not] at hsame
              split
              · refine ⟨M ++ [(id, s.display.visible)], ?_, ?_⟩
                · exact h.placed.next hid hshown.2 hsame.symm rfl
                · exact (h.told.commit hr hshown.2 id now).of_same rfl rfl rfl
              · exact ⟨M, h⟩

theorem showSideEffect (h : Streams start p M s) :
    Streams start p M (showSideEffect s) := by
  unfold StreamDisplay.showSideEffect
  split
  · exact h
  · next id hid =>
      split
      · exact h.edit hid rfl hid rfl rfl rfl rfl
      · exact h

theorem showThought (h : Streams start p M s) (thought : List Char) :
    Streams start p M (showThought thought s) := by
  unfold StreamDisplay.showThought
  rw [h.told.thoughtless]
  exact h

/-- Another text is shown only when it is not there already. -/
theorem edit_ite (h : Streams start p M s) {id : Int} (hid : s.display.messageId = some id)
    (beat : List Char) :
    Streams start p M (
      if beat ≠ s.display.lastTextSent then
        { s with
          display := { s.display with lastTextSent := beat }
          chat := s.chat.edit id beat }
      else s) := by
  split
  · exact h.edit hid rfl hid rfl rfl rfl rfl
  · exact h

theorem heartbeatText (h : Streams start p M s) (elapsed : Rat) :
    Streams start p M (heartbeatText elapsed s) := by
  unfold StreamDisplay.heartbeatText
  split
  · exact h
  · next id hid => exact h.edit_ite hid _

theorem heartbeatThought (h : Streams start p M s) (elapsed : Rat) :
    Streams start p M (heartbeatThought elapsed s) := by
  unfold StreamDisplay.heartbeatThought
  rw [h.told.thoughtless]
  exact h

theorem heartbeat (h : Streams start p M s) (now : Rat) :
    Streams start p M (heartbeat now s) := by
  unfold StreamDisplay.heartbeat
  split
  · exact h.of_same rfl rfl rfl rfl rfl rfl
  · split
    · exact ((h.heartbeatText _).heartbeatThought _).of_same rfl rfl rfl rfl rfl rfl
    · exact h

end Streams

theorem received_startPlaceholder (h : Received p s.display) :
    Received p (startPlaceholder s).display := by
  unfold startPlaceholder
  split
  · exact ⟨h.text, h.displayText, h.tailText, h.visible⟩
  · exact h

theorem extractAskBlock_of_no_fence {P : Python F} {text : List Char}
    (h : findFence "ask".toList true text = none) :
    extractAskBlock P text = some (text, none) := by
  rw [extractAskBlock, h]

variable (env : Env F) (cfg : Config)

/-- A text that goes on is received. -/
theorem receive_running {d : Display} {poll : Poll} (h : Told p M d)
    (hrunning : poll.running = true) (hgrow : p <+: poll.messageText)
    (hfence : findFence "ask".toList true poll.messageText = none) :
    ∃ d', receive env cfg d poll = some d' ∧ Received poll.messageText d' ∧
      Told poll.messageText M d' ∧ d'.messageId = d.messageId ∧
      d'.lastTextSent = d.lastTextSent := by
  unfold receive
  rw [if_pos hrunning, extractAskBlock_of_no_fence hfence]
  have hgrown := h.grow hgrow
  refine ⟨_, rfl, ⟨rfl, rfl, uncommittedTail_eq hgrown.within, rfl⟩, ?_, rfl, rfl⟩
  exact hgrown.of_same rfl rfl rfl

/-- A poll of a text that goes on. -/
theorem streams_update {poll : Poll} (h : Streams start p M s)
    (hrunning : poll.running = true) (hgrow : p <+: poll.messageText)
    (hfence : findFence "ask".toList true poll.messageText = none) :
    ∃ s' M', update env cfg s poll = some s' ∧ Streams start poll.messageText M' s' := by
  obtain ⟨d, hreceive, hr, htold, hid, hlast⟩ :=
    receive_running env cfg h.told hrunning hgrow hfence
  have hreceived : Streams start poll.messageText M
      { display := d
        chat := s.chat
        edited := false } := ⟨h.placed.of_same rfl hid hlast, htold⟩
  obtain ⟨M', hshown⟩ := hreceived.startPlaceholder.showText cfg
    (received_startPlaceholder hr) poll.now
  refine ⟨_, M', by rw [update, hreceive]; rfl, ?_⟩
  exact ((hshown.showSideEffect.showThought poll.thoughtText).heartbeat poll.now).of_same
    rfl rfl rfl rfl rfl rfl

/-- The polls of a growing text. -/
theorem streams_run (polls : List Poll) (h : Streams start p M s)
    (hpolls : ∀ poll ∈ polls, poll.running = true ∧
      findFence "ask".toList true poll.messageText = none)
    (hfirst : ∀ poll ∈ polls, p <+: poll.messageText)
    (hgrow : polls.Pairwise fun poll poll' => poll.messageText <+: poll'.messageText) :
    ∃ s' M' p', run (update env cfg) s polls = some s' ∧ Streams start p' M' s' ∧
      (p' = p ∨ ∃ poll ∈ polls, p' = poll.messageText) := by
  induction polls generalizing s p M with
  | nil => exact ⟨s, M, p, rfl, h, Or.inl rfl⟩
  | cons poll polls ih =>
      rw [List.pairwise_cons] at hgrow
      have hpoll := hpolls poll List.mem_cons_self
      obtain ⟨s₁, M₁, hupdate, hstreams⟩ := streams_update env cfg h hpoll.1
        (hfirst poll List.mem_cons_self) hpoll.2
      obtain ⟨s', M', p', hrun, hend, hlast⟩ := ih hstreams
        (fun later hlater => hpolls later (List.mem_cons_of_mem _ hlater)) hgrow.1 hgrow.2
      refine ⟨s', M', p', run_cons_eq_some.mpr ⟨s₁, hupdate, hrun⟩, hend, Or.inr ?_⟩
      rcases hlast with rfl | ⟨later, hlater, rfl⟩
      · exact ⟨poll, List.mem_cons_self, rfl⟩
      · exact ⟨later, List.mem_cons_of_mem _ hlater, rfl⟩

end Polls

/-! ### The end -/

section Ends

variable {p reply : List Char} {M : Messages} {d : Display}

/-- A text that is not sent because it is blank is not missed. -/
theorem spells_unlessBlank {m t : List Char} (h : strip m = strip t) :
    Spells isSpace (unlessBlank m) t := by
  unfold unlessBlank isBlank
  split
  · next hblank =>
      rw [List.isEmpty_iff] at hblank
      exact trim_eq_nil_iff.mp (h.symm.trans hblank)
  · exact spells_single h

theorem strip_dropNewlines (l : List Char) :
    strip (l.dropWhile (· == '\n')) = strip l :=
  trim_dropWhile l fun _ => isSpace_newline

/-- The committed messages and the rest of the reply spell it. -/
theorem Told.spelled (h : Told p M d) (hp : p <+: reply) :
    Spells isSpace (Board.texts M ++ replyTexts d reply) (strip reply) := by
  unfold replyTexts uncommittedReply
  split
  · next hraw =>
      -- the raw text that was committed, and what follows it
      obtain ⟨htext, hdisplay⟩ := h.raw hraw.1
      obtain ⟨rest, rfl⟩ := htext.trans hp
      have hne : strip d.committedText ≠ [] := by
        rw [hdisplay]
        exact fun hnil => hraw.1 (h.nothing hnil).2
      obtain ⟨w, hw, happend⟩ := trim_append rest hne
      have hsplit : strip (d.committedText ++ rest) =
          d.committedDisplay ++ (w ++ rest).rdropWhile isSpace := by
        rw [← hdisplay]
        exact happend
      have hrest : strip ((w ++ rest).rdropWhile isSpace) = strip rest :=
        (trim_rdropWhile _).trans (trim_blank_append rest hw)
      rw [hsplit, List.drop_left]
      exact h.spells.append
        (spells_unlessBlank ((strip_dropNewlines rest).trans hrest.symm))
  · next hraw =>
      have htext : d.committedText = [] := by
        by_contra hne
        exact hraw ⟨hne, List.isPrefixOf_iff_prefix.mpr ((h.raw hne).1.trans hp)⟩
      split
      · -- the stripped text that was committed, and what follows it
        obtain ⟨rest, hrest⟩ := h.within.trans (trim_mono hp)
        have hsplit : strip reply = d.committedDisplay ++ rest := hrest.symm
        rw [hsplit, List.drop_left]
        exact h.spells.append (spells_unlessBlank (strip_dropNewlines rest))
      · next hdisplay =>
          have hnil : d.committedDisplay = [] := by
            by_contra hne
            exact hdisplay ⟨hne, List.isPrefixOf_iff_prefix.mpr (h.within.trans (trim_mono hp))⟩
          rw [(h.nothing hnil).1]
          exact spells_unlessBlank (strip_strip reply).symm

end Ends

section Sends

variable {env : Env F} {start M : Messages} {s : Chat}

/-- The chunks are sent as messages of their own. -/
theorem texts_sendChunks (ask : Option AskBlock) (chunks : List (List Char)) :
    Board.texts (board start (sendChunks env ask s none chunks).1) =
      Board.texts (board start s) ++ chunks := by
  induction chunks generalizing s with
  | nil => exact (List.append_nil _).symm
  | cons chunk rest ih =>
      cases rest with
      | nil =>
          have hlast : board start (sendLast env ask s chunk) =
              board start s ++ [(s.nextId, chunk)] := by
            cases ask with
            | none => exact board_send start s chunk none
            | some b => exact board_send start s chunk (some b.keyboard)
          rw [sendChunks, hlast, Board.texts_append]
          rfl
      | cons next rest =>
          rw [sendChunks, ih, board_send, Board.texts_append, List.append_assoc]
          rfl

/-- A text arrives below what there is. -/
theorem texts_post (text : List Char) :
    (post env s text none).map (fun s' => Board.texts (board start s')) =
      (delivered env text).map (Board.texts (board start s) ++ ·) := by
  unfold post sendText delivered
  split
  · simp
  · rw [Option.map_map, Option.map_map, Option.map_map]
    refine congrArg (Option.map · _) (funext fun r => ?_)
    simp only [Function.comp_apply, deliver]
    exact texts_sendChunks r.2 _

/-- A text arrives in place of the placeholder. -/
theorem texts_post_placeholder (env : Env F) {id : Int} {old : List Char}
    (hboard : board start s = M ++ [(id, old)]) (hid : id ∉ M.map Prod.fst) {text : List Char}
    (htext : text ≠ []) :
    (post env s text (some id)).map (fun s' => Board.texts (board start s')) =
      (delivered env text).map (Board.texts M ++ ·) := by
  have hdeleted : board start (s.delete id) = M := by
    rw [board_delete, hboard, Board.delete_concat hid]
  unfold post sendText delivered
  rw [if_neg htext, if_neg htext, Option.map_map, Option.map_map, Option.map_map]
  refine congrArg (Option.map · _) (funext fun r => ?_)
  simp only [Function.comp_apply, deliver]
  generalize (if shown r.1 = [] then [] else env.rendering.chunks (shown r.1)) = chunks
  split
  · rw [texts_sendChunks, hdeleted]
  · next hedit =>
      cases chunks with
      | nil => simp at hedit
      | cons chunk rest =>
          rw [sendChunks, texts_sendChunks, board_edit, hboard, Board.edit_concat hid,
            Board.texts_append, List.append_assoc]
          rfl

theorem texts_sendNotice (notice : List Char) :
    (sendNotice env s notice).map (fun s' => Board.texts (board start s')) =
      (deliveredAll env (noticeTexts notice)).map (Board.texts (board start s) ++ ·) := by
  unfold sendNotice noticeTexts
  split
  · simp [deliveredAll]
  · rw [texts_post, deliveredAll, deliveredAll]
    cases delivered env ("System: ".toList ++ notice) <;> simp

end Sends

section Results

variable (env : Env F) (cfg : Config)

/-- The end of a turn without thoughts. -/
theorem ended_of_placed {start M : Messages} {s : Screen} (h : Placed start M s)
    (hthought : s.display.thoughtId = none) {r : Result} (hfinal : r.continuation = false)
    (hfence : findFence "ask".toList true r.reply = none) :
    (finalize env s r).map (fun s' => Board.texts (board start s')) =
      (deliveredAll env (replyTexts s.display r.reply ++ noticeTexts r.notice)).map
        (Board.texts M ++ ·) := by
  obtain ⟨id, chat, old, hplaced, hboard, hid⟩ : ∃ id chat old,
      lastPlaceholder s.display s.chat = (id, chat) ∧ board start chat = M ++ [(id, old)] ∧
        id ∉ M.map Prod.fst := by
    obtain ⟨text, hsplit, _⟩ := h.split
    unfold lastPlaceholder
    cases hid : s.display.messageId with
    | some id =>
        rw [hid] at hsplit
        exact ⟨id, s.chat, text, rfl, hsplit, h.not_committed hid⟩
    | none =>
        rw [hid] at hsplit
        have hsent : board start s.chat = M := hsplit.trans (List.append_nil M)
        refine ⟨s.chat.nextId, _, replyPlaceholder, rfl, by rw [board_send, hsent], fun hmem => ?_⟩
        obtain ⟨m, hm, heq⟩ := List.mem_map.mp hmem
        have hlt := h.fresh m (hsent ▸ hm)
        omega
  have hstreamed : streamedThought s.display = [] := by
    unfold streamedThought
    rw [hthought]
    rfl
  have hend : finalize env s r =
      (if isBlank (uncommittedReply s.display r.reply (strip r.reply)) then
        some (chat.delete id)
      else post env chat (uncommittedReply s.display r.reply (strip r.reply)) (some id)).bind
        fun s₁ => sendNotice env s₁ r.notice := by
    unfold finalize finalizePlaceholder
    rw [if_neg (by simp [hfinal]), if_neg (not_not_intro hstreamed), hthought,
      extractAskBlock_of_no_fence hfence, Option.bind_some]
    dsimp only [deleteIf]
    rw [hplaced]
  rw [hend]
  unfold replyTexts unlessBlank
  split
  · rw [Option.bind_some, texts_sendNotice, board_delete, hboard, Board.delete_concat hid]
    rfl
  · next hblank =>
      have hne : uncommittedReply s.display r.reply (strip r.reply) ≠ [] := by
        intro hnil
        rw [hnil] at hblank
        exact hblank rfl
      have hpost := texts_post_placeholder env hboard hid hne
      rw [List.singleton_append, deliveredAll]
      generalize uncommittedReply s.display r.reply (strip r.reply) = rest at hpost ⊢
      cases hsent : post env chat rest (some id) with
      | none =>
          rw [hsent, Option.map_none, eq_comm, Option.map_eq_none_iff] at hpost
          rw [hpost]
          rfl
      | some s₁ =>
          rw [hsent, Option.map_some, eq_comm, Option.map_eq_some_iff] at hpost
          obtain ⟨ms, hms, htexts⟩ := hpost
          rw [hms, Option.bind_some, Option.bind_some, texts_sendNotice, ← htexts, Option.map_map]
          refine congrArg (Option.map · _) (funext fun ns => ?_)
          exact List.append_assoc _ _ _

/-- Nothing is shown at the start but the placeholder. -/
theorem streams_new (messageId : Option Int) (text : List Char) (now : Rat) (nextId : Int)
    (file : Option (List Char)) (hid : ∀ id, messageId = some id → id < nextId) :
    Streams (opening messageId text) [] [] (Screen.new messageId none now nextId file) where
  placed :=
    { split := ⟨text, rfl, fun hne => absurd rfl hne⟩
      fresh := by
        intro m hm
        obtain ⟨id, hmem, rfl⟩ := List.mem_map.mp hm
        exact hid id (Option.mem_toList.mp hmem)
      nodup := by
        cases messageId with
        | none => exact List.nodup_nil
        | some id => exact List.nodup_singleton id }
  told :=
    { spells := fun _ hc => absurd hc List.not_mem_nil
      within := List.nil_prefix
      raw := fun hne => absurd rfl hne
      nothing := fun _ => ⟨rfl, rfl⟩
      thoughtless := rfl }

/-- **Streaming.**  Polls of a reply that grows commit beginnings of it, and the end sends the
rest: together they are the reply, once. -/
theorem shown_once (messageId : Option Int) (text : List Char) (now : Rat) (nextId : Int)
    (file : Option (List Char)) (hid : ∀ id, messageId = some id → id < nextId)
    (r : Result) (hfinal : r.continuation = false)
    (hfence : ∀ p, p <+: r.reply → findFence "ask".toList true p = none)
    (polls : List Poll)
    (hpolls : ∀ poll ∈ polls, poll.running = true ∧ poll.messageText <+: r.reply)
    (hgrow : polls.Pairwise fun poll poll' => poll.messageText <+: poll'.messageText) :
    ∃ s, run (update env cfg) (Screen.new messageId none now nextId file) polls = some s ∧
      ShownOnce env (opening messageId text) s r := by
  have hnew := streams_new messageId text now nextId file hid
  obtain ⟨s, M, p, hrun, hstreams, hlast⟩ := streams_run env cfg polls hnew
    (fun poll hpoll => ⟨(hpolls poll hpoll).1, hfence _ (hpolls poll hpoll).2⟩)
    (fun _ _ => List.nil_prefix) hgrow
  have hp : p <+: r.reply := by
    rcases hlast with rfl | ⟨poll, hpoll, rfl⟩
    · exact List.nil_prefix
    · exact (hpolls poll hpoll).2
  refine ⟨s, hrun, ?_, ?_⟩
  · rw [hstreams.placed.committed_eq]
    exact hstreams.told.spelled hp
  · rw [hstreams.placed.committed_eq]
    exact ended_of_placed env hstreams.placed hstreams.told.thoughtless hfinal
      (hfence _ List.prefix_rfl)

/-- A reply whose first sentence stands still. -/
def twoParts : List Char := "The first part is here. And the second.\n".toList

def twoPartPolls : List Poll :=
  [pollOf 1 (twoParts.take 23), pollOf 5 (twoParts.take 23), pollOf 6 (twoParts.take 30)]

theorem shown_once_twoParts :
    ∃ s, run (update exampleEnv exampleConfig) exampleScreen twoPartPolls = some s ∧
      Board.texts (committed (opening (some 7) replyPlaceholder) s) = [twoParts.take 23] ∧
      ShownOnce exampleEnv (opening (some 7) replyPlaceholder) s (resultOf twoParts) := by
  have hmark : ¬ "```ask".toList <:+: twoParts := by decide +kernel
  obtain ⟨s, hrun, hshown⟩ := shown_once exampleEnv exampleConfig (some 7) replyPlaceholder 0 8 none
    (by decide) (resultOf twoParts) rfl
    (fun p hp => findFence_eq_none true fun h => hmark (h.trans hp.isInfix))
    twoPartPolls (by decide +kernel) (by decide +kernel)
  have hcommitted : (run (update exampleEnv exampleConfig) exampleScreen twoPartPolls).map
      (fun s => Board.texts (committed (opening (some 7) replyPlaceholder) s)) =
        some [twoParts.take 23] := by
    decide +kernel
  have hrun' : run (update exampleEnv exampleConfig) exampleScreen twoPartPolls = some s := hrun
  rw [hrun'] at hcommitted
  exact ⟨s, hrun, Option.some.inj hcommitted, hshown⟩

end Results

end StreamOnce
end Telegram
end DiploidAgent
