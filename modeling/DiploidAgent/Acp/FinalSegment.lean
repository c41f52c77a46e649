import DiploidAgent.Acp.Updates
import DiploidAgent.Turns.RollingText
import Mathlib.Algebra.GroupWithZero.Nat

/-!
# The final segment of a reply

`final_segment_reply` of `models.py`: the reply is cut behind what was said before the last
tool call.  The chunks of a prompt are collected by the router, all of them, while of its
updates only the last ones are kept; the characters behind the last tool call are counted in
the updates and taken from the end of the reply.

As long as that tool call is among the kept updates, the segment is what was said after it
(`finalSegment_eq_said`).
-/

namespace DiploidAgent
namespace Acp
namespace FinalSegment

open Runs Updates
open Turns.RollingText (ActiveTurn maxThoughtTextChars)

/-! ### The segment -/

/-- `_PROMPT_UPDATES_MAXLEN`. -/
def promptUpdatesMaxlen : Nat := 256

/-- What the deque of a prompt keeps of its updates. -/
def kept (updates : List Update) : List Update := updates.rtake promptUpdatesMaxlen

def isTool (u : Update) : Bool :=
  u.sessionUpdate = "tool_call" ∨ u.sessionUpdate = "tool_call_update"

def isMessage (u : Update) : Bool :=
  u.sessionUpdate = "agent_message" ∨ u.sessionUpdate = "agent_message_chunk"

/-- The loop that looks for the last tool call; `i` is the index of the next update. -/
def lastToolFrom (i : Nat) (last : Option Nat) : List Update → Option Nat
  | [] => last
  | u :: updates => lastToolFrom (i + 1) (if isTool u then some i else last) updates

def blockChars : Block → Nat
  | .text t => t.length
  | .other => 0

def contentChars : Content → Nat
  | .blocks blocks => (blocks.map blockChars).sum
  | .block block => blockChars block
  | .other => 0

/-- `seg_chars`. -/
def segChars (updates : List Update) : Nat :=
  ((updates.filter isMessage).map fun u => contentChars u.content).sum

/-- `reply[-n:]`. -/
def lastChars (n : Nat) (reply : String) : String := String.ofList (reply.toList.rtake n)

/-- `final_segment_reply`. -/
def finalSegmentReply (updates : List Update) (reply : String) : Option String :=
  match lastToolFrom 0 none updates with
  | none => none
  | some lastTool =>
      let n := segChars (updates.drop (lastTool + 1))
      if n = 0 ∨ reply = "" then none
      else some (if n < reply.length then lastChars n reply else reply)

/-- `final_reply_text`. -/
def finalReplyText (a : ActiveTurn) (reply : List Char) : List Char :=
  if a.thoughtTotal = 0 then reply
  else
    let thought := if a.thoughtTotal ≤ maxThoughtTextChars then a.thoughtText else a.thoughtPrefix
    if thought ≠ [] ∧ thought <+: reply then
      (reply.drop a.thoughtTotal).dropWhile (· = '\n')
    else reply

/-- What a prompt was told in some of its updates. -/
def said (updates : List Update) : String := String.join (updates.flatMap Update.chunks)

/-! ### The count and the chunks -/

section Count

variable {u tool : Update} {before after updates : List Update}

/-- A leading part of the reply is taken off, if any. -/
theorem finalReplyText_eq_drop
    (a : ActiveTurn) (reply : List Char) :
    ∃ k, finalReplyText a reply = reply.drop k := by
  unfold finalReplyText
  by_cases hzero : a.thoughtTotal = 0
  · exact ⟨0, if_pos hzero⟩
  · rw [if_neg hzero]
    generalize (if a.thoughtTotal ≤ maxThoughtTextChars then a.thoughtText else a.thoughtPrefix) =
      thought
    dsimp only
    split_ifs
    · obtain ⟨front, hfront⟩ := List.dropWhile_suffix (· = '\n') (l := reply.drop a.thoughtTotal)
      refine ⟨a.thoughtTotal + front.length, ?_⟩
      rw [← List.drop_drop]
      conv_rhs => rw [← hfront]
      exact List.drop_left.symm
    · exact ⟨0, rfl⟩

theorem length_join
    (texts : List String) :
    (String.join texts).length = (texts.map String.length).sum := by
  induction texts with
  | nil => rfl
  | cons t texts ih =>
      rw [String.join_cons, String.length_append, ih]
      rfl

/-- Empty chunks are left out, and count nothing. -/
theorem sum_length_filter
    (texts : List String) :
    ((texts.filter (· ≠ "")).map String.length).sum = (texts.map String.length).sum := by
  induction texts with
  | nil => rfl
  | cons t texts ih =>
      by_cases ht : t = ""
      · rw [List.filter_cons_of_neg (by simpa using ht), ih, ht]
        simp
      · rw [List.filter_cons_of_pos (by simpa using ht), List.map_cons, List.map_cons,
          List.sum_cons, List.sum_cons, ih]

/-- Both decoders read the same characters. -/
theorem sum_length_textFromContent
    (content : Content) :
    ((textFromContent content).map String.length).sum = contentChars content := by
  have hblock : ∀ block : Block, (block.texts.map String.length).sum = blockChars block := by
    intro block
    cases block with
    | text t => simp [Block.texts, blockChars]
    | other => rfl
  cases content with
  | blocks blocks =>
      induction blocks with
      | nil => rfl
      | cons block blocks ih =>
          have hcons : textFromContent (.blocks (block :: blocks)) =
              block.texts ++ textFromContent (.blocks blocks) := rfl
          rw [hcons, List.map_append, List.sum_append, ih, hblock]
          rfl
  | block block => exact hblock block
  | other => rfl

theorem sum_length_chunks
    (u : Update) :
    (u.chunks.map String.length).sum = if isMessage u then contentChars u.content else 0 := by
  unfold Update.chunks isMessage
  by_cases hmessage : u.sessionUpdate = "agent_message" ∨ u.sessionUpdate = "agent_message_chunk"
  · rw [if_pos hmessage, if_pos (by simpa using hmessage), sum_length_filter,
      sum_length_textFromContent]
  · rw [if_neg hmessage, if_neg (by simpa using hmessage)]
    rfl

/-- What is counted in the updates is as long as what was said in them. -/
theorem length_said
    (updates : List Update) :
    (said updates).length = segChars updates := by
  rw [said, length_join]
  induction updates with
  | nil => rfl
  | cons u updates ih =>
      rw [List.flatMap_cons, List.map_append, List.sum_append, ih, sum_length_chunks]
      unfold segChars
      by_cases hmessage : isMessage u = true
      · rw [if_pos hmessage, List.filter_cons_of_pos hmessage, List.map_cons, List.sum_cons]
      · rw [if_neg hmessage, List.filter_cons_of_neg hmessage, Nat.zero_add]

theorem chunks_of_isTool
    (h : isTool tool = true) :
    tool.chunks = [] := by
  refine if_neg ?_
  rintro (hkind | hkind) <;> simp [isTool, hkind] at h

theorem lastToolFrom_of_none
    (h : ∀ u ∈ updates, isTool u = false) (i : Nat) (last : Option Nat) :
    lastToolFrom i last updates = last := by
  induction updates generalizing i with
  | nil => rfl
  | cons u updates ih =>
      obtain ⟨hu, hrest⟩ := List.forall_mem_cons.mp h
      rw [lastToolFrom, if_neg (by simp [hu]), ih hrest]

/-- The loop ends with the index of the last tool call. -/
theorem lastToolFrom_append
    (htool : isTool tool = true) (hafter : ∀ u ∈ after, isTool u = false)
    (i : Nat) (last : Option Nat) :
    lastToolFrom i last (before ++ tool :: after) = some (i + before.length) := by
  induction before generalizing i last with
  | nil =>
      rw [List.nil_append, lastToolFrom, if_pos htool, lastToolFrom_of_none hafter]
      rfl
  | cons u before ih =>
      rw [List.cons_append, lastToolFrom, ih, List.length_cons]
      congr 1
      omega

end Count

/-! ### The segment of a prompt -/

section Segment

variable {s : Updates.State} {tool : Update} {before after : List Update} {reply : String}

/-- The end of a reply that ends with the characters behind the last tool call. -/
theorem finalSegmentReply_of_suffix
    (htool : isTool tool = true) (hafter : ∀ u ∈ after, isTool u = false)
    (front : List Char) (hreply : reply.toList = front ++ (said after).toList) :
    finalSegmentReply (before ++ tool :: after) reply =
      if said after = "" then none else some (said after) := by
  have hdrop : (before ++ tool :: after).drop (0 + before.length + 1) = after := by
    rw [Nat.zero_add, List.append_cons]
    exact List.drop_left' (by simp)
  have hlength : reply.length = front.length + (said after).length := by
    rw [← String.length_toList, hreply, List.length_append, String.length_toList]
  unfold finalSegmentReply
  rw [lastToolFrom_append htool hafter]
  dsimp only
  rw [hdrop, ← length_said]
  by_cases hempty : said after = ""
  · rw [if_pos hempty, if_pos (Or.inl (by rw [hempty]; rfl))]
  · have hpos : (said after).length ≠ 0 := fun h => hempty (String.length_eq_zero_iff.mp h)
    have hsome : reply ≠ "" := by
      rintro rfl
      simp at hlength
      omega
    rw [if_neg hempty, if_neg (not_or.mpr ⟨hpos, hsome⟩)]
    congr 1
    split_ifs with hlt
    · rw [lastChars, hreply, List.rtake, List.length_append, String.length_toList,
        Nat.add_sub_cancel, List.drop_left, String.ofList_toList]
    · have hfront : front = [] := List.length_eq_zero_iff.mp (by omega)
      rw [hfront, List.nil_append] at hreply
      exact String.toList_inj.mp hreply

/-- **The final segment.**  Of a prompt in a run, whose reply lost at most characters from
before its last tool call, the segment is what was said after that call. -/
theorem finalSegment_eq_said
    (h : Reach Updates.step (fun _ _ => True) Updates.initial s) (id : Nat)
    (hupdates : s.updatesOf id = before ++ tool :: after)
    (htool : isTool tool = true) (hafter : ∀ u ∈ after, isTool u = false)
    (hkept : tool :: after <:+ kept (s.updatesOf id))
    (k : Nat) (hk : k ≤ (said before).length)
    (hreply : reply.toList = (String.join (s.chunksOf id)).toList.drop k) :
    finalSegmentReply (kept (s.updatesOf id)) reply =
      if said after = "" then none else some (said after) := by
  have hinv : Updates.Inv s :=
    h.invariant Updates.inv_initial fun _ _ _ hinv _ hstep => Updates.inv_step hinv hstep
  have hchunks : String.join (s.chunksOf id) = said before ++ said after := by
    rw [hinv.chunked, ← hinv.routed, hupdates, List.flatMap_append, List.flatMap_cons,
      chunks_of_isTool htool, List.nil_append, String.join_append]
    rfl
  obtain ⟨front, hfront⟩ := hkept
  rw [← hfront]
  refine finalSegmentReply_of_suffix htool hafter ((said before).toList.drop k) ?_
  rw [hreply, hchunks, String.toList_append, List.drop_append_of_le_length]
  rwa [String.length_toList]

def toolCall : Update :=
  { sessionUpdate := "tool_call"
    content := .other }

/-- A prompt that speaks before and after a tool call. -/
def narrated : List Updates.Op :=
  [.prompt (.call "s-1"), .prompt (.start 0), .update "s-1" (message "Working on it. "),
    .update "s-1" toolCall, .update "s-1" (message "All done.")]

theorem finalSegment_eq_said_narrated :
    ∃ s, run Updates.step Updates.initial narrated = some s ∧
      finalSegmentReply (kept (s.updatesOf 1)) "Working on it. All done." =
        some "All done." := by
  have hout : (run Updates.step Updates.initial narrated).map
      (fun s => (s.updatesOf 1, s.chunksOf 1)) =
      some ([message "Working on it. ", toolCall, message "All done."],
        ["Working on it. ", "All done."]) := by
    decide +kernel
  obtain ⟨s, hrun, hs⟩ := Option.map_eq_some_iff.mp hout
  obtain ⟨hupdates, hchunks⟩ := Prod.mk.inj hs
  have hreach : Reach Updates.step (fun _ _ => True) Updates.initial s := by
    have hsome : (run Updates.step Updates.initial narrated).isSome = true := by rw [hrun]; rfl
    have hget := reach_run hsome
    rwa [hrun] at hget
  refine ⟨s, hrun, ?_⟩
  have hupdates' : s.updatesOf 1 =
      [message "Working on it. "] ++ toolCall :: [message "All done."] := hupdates
  have hsegment : finalSegmentReply (kept (s.updatesOf 1)) "Working on it. All done." =
      if said [message "All done."] = "" then none else some (said [message "All done."]) :=
    finalSegment_eq_said hreach 1 hupdates' rfl (by decide) (by rw [hupdates]; decide) 0
      (Nat.zero_le _) (by rw [hchunks]; decide +kernel)
  exact hsegment.trans (by decide +kernel)

end Segment

end FinalSegment
end Acp
end DiploidAgent
