import DiploidAgent.Lib.Dict
import DiploidAgent.Turns.FollowUp

/-!
# Prompt slots

The tail of `_assemble_prompt` of `context/builder.py`, after the plugins have filled the
slots: `_apply_prompt_blocks`, `_render_slots` and the wake budget with
`_trim_slots_to_budget`.  A block that a plugin put in its slot is in the prompt when the
slot is rendered at all and still holds it at the end (`renderSlots_of_keeps`).
-/

namespace DiploidAgent
namespace Context

open Turns.FollowUp (RehydrationReason SoulMode)

abbrev Slots := Dict String (List String)

/-! ### The tables -/

/-- `SOUL_SLOTS`. -/
def soulSlots : List String :=
  ["self_narrative", "self_state", "body", "authorship", "wake", "bridge", "mesh", "promoted"]

/-- `PROMPT_REQUIRED_SLOTS`. -/
def promptRequiredSlots : List String := ["identity", "system_notice", "user", "continuation"]

/-- `PROTECTED_SLOTS`. -/
def protectedSlots : List String := promptRequiredSlots ++ soulSlots

/-- `COMPACT_REASONS`. -/
def compactReasons : List RehydrationReason := [.fresh, .restart, .timeout, .transportError]

/-- `PROMPT_SLOT_ORDER`. -/
def promptSlotOrder : List String :=
  ["identity", "self_narrative", "system_notice", "memory", "promoted", "recall",
    "chat_memory", "persistent_memory", "bridge", "checkpoint", "wake", "working_memory",
    "body", "self_state", "authorship", "mesh", "metrics", "cron", "skills", "continuation",
    "user"]

/-- `WAKE_TRIM_STEPS`. -/
def wakeTrimSteps : List (List String) :=
  [["metrics"], ["memory", "chat_memory", "persistent_memory"],
    ["recall", "working_memory", "checkpoint"]]

/-! ### Allow, deny and caps -/

/-- `PromptBlocksConfig`. -/
structure PromptBlocksConfig where
  allow : List String := []
  deny : List String := []
  caps : Dict String Int := Dict.empty

/-- `text[:limit]`; a negative limit counts from the end. -/
def upTo (text : List Char) (limit : Int) : List Char :=
  if 0 ≤ limit then text.take limit.toNat else text.take (text.length - limit.natAbs)

/-- `str.rfind`. -/
def rfind (needle : List Char) : List Char → Option Nat
  | [] => if needle = [] then some 0 else none
  | c :: cs =>
      match rfind needle cs with
      | some i => some (i + 1)
      | none => if needle.isPrefixOf (c :: cs) then some 0 else none

/-- `_trim_to_section`. -/
def trimToSection (text : List Char) (limit : Int) : List Char :=
  if text.length ≤ limit then text
  else
    let candidate := upTo text limit
    let lastBlank := (rfind ['\n', '\n'] candidate).filter (0 < ·)
    let lastNewline := (rfind ['\n'] candidate).filter (0 < ·)
    match lastBlank, lastNewline with
    | some lastBlank, _ => text.take lastBlank
    | none, some lastNewline => text.take lastNewline
    | none, none => candidate

/-- The parts of a slot as one text. -/
def joinParts (parts : List String) : String := "\n\n".intercalate parts

/-- `slot in allowed`; a required slot is never denied. -/
def allowedSlot (pb : PromptBlocksConfig) (force : List String) (slot : String) : Bool :=
  (pb.allow.isEmpty || slot ∈ pb.allow || slot ∈ force || slot ∈ promptRequiredSlots) &&
    !(decide (slot ∈ pb.deny) && !decide (slot ∈ promptRequiredSlots))

/-- What the lists and the caps leave of a slot. -/
def limitedParts (pb : PromptBlocksConfig) (force : List String) (slot : String)
    (parts : List String) : Option (List String) :=
  if allowedSlot pb force slot then
    match pb.caps.get slot with
    | none => some parts
    | some cap =>
        let joined := (joinParts parts).toList
        if parts ≠ [] ∧ cap < joined.length then
          let trimmed := trimToSection joined cap
          if trimmed = [] then none else some [String.ofList trimmed]
        else some parts
  else none

/-- One slot of `_apply_prompt_blocks`. -/
def limitSlot (pb : PromptBlocksConfig) (force : List String) (slots : Slots) (slot : String) :
    Slots :=
  match slots.get slot with
  | none => slots
  | some parts =>
      match limitedParts pb force slot parts with
      | none => slots.erase slot
      | some parts' => slots.set slot parts'

/-- `_apply_prompt_blocks`. -/
def applyPromptBlocks (pb : PromptBlocksConfig) (force : List String) (slots : Slots) : Slots :=
  if pb.allow.isEmpty && pb.deny.isEmpty && pb.caps.entries.isEmpty then slots
  else slots.keys.foldl (limitSlot pb force) slots

/-! ### Rendering -/

/-- The parts of the prompt in the order of the slots. -/
def renderParts (slots : Slots) : List String :=
  promptSlotOrder.flatMap fun slot => (slots.get slot).getD []

/-- `_render_slots`. -/
def renderSlots (slots : Slots) : String := joinParts (renderParts slots)

/-- `_format_system_notice` of parts that are not empty. -/
def formatSystemNotice (parts : List String) (compact : Bool) : String :=
  if compact then " ".intercalate parts else "## System notice\n\n" ++ joinParts parts

/-- `estimate_prompt_tokens`, with the characters per token of the record. -/
def estimatePromptTokens (charsPerToken : ℚ) (prompt : String) : Int :=
  Turns.FollowUp.truncate (prompt.length / charsPerToken)

/-! ### The wake budget -/

/-- `slots[slot] = []` for the slots of a list. -/
def clearSlots (names : List String) (slots : Slots) : Slots :=
  slots.mapValues fun slot parts => if slot ∈ names then [] else parts

/-- The loop over `WAKE_TRIM_STEPS`, and whether a step made the prompt fit. -/
def trimSteps (fits : Slots → Bool) : List (List String) → Slots → Bool × Slots
  | [], slots => (false, slots)
  | names :: rest, slots =>
      let slots' := clearSlots (names.filter (· ∉ protectedSlots)) slots
      if fits slots' then (true, slots') else trimSteps fits rest slots'

/-- `_trim_slots_to_budget`. -/
def trimSlotsToBudget (fits : Slots → Bool) (slots : Slots) : Slots :=
  if fits slots then slots
  else
    match trimSteps fits wakeTrimSteps slots with
    | (true, slots') => slots'
    | (false, slots') => clearSlots (slots'.keys.filter (· ∉ promptRequiredSlots)) slots'

/-- The beginning of the line of the wake budget. -/
def wakeLineStart : String := "[Wake context budget:"

/-- The wake budget of a prompt, and how `_wake_context_budget_line` goes on. -/
structure WakeBudget where
  budget : Int
  line : Int → String

/-- The wake budget of `_assemble_prompt`. -/
def applyWakeBudget (wake : WakeBudget) (charsPerToken : ℚ) (systemParts : List String)
    (slots : Slots) : Slots :=
  let tokens := fun slots => estimatePromptTokens charsPerToken (renderSlots slots)
  let systemParts := systemParts ++ [wakeLineStart ++ wake.line (tokens slots)]
  let slots := slots.set "system_notice" [formatSystemNotice systemParts true]
  if tokens slots ≤ wake.budget then slots
  else
    let slots := trimSlotsToBudget (fun slots => tokens slots ≤ wake.budget) slots
    -- the line that was added last is written again
    let systemParts := systemParts.dropLast ++ [wakeLineStart ++ wake.line (tokens slots)]
    slots.set "system_notice" [formatSystemNotice systemParts true]

/-! ### The slots of a prompt -/

/-- What a prompt is put together from besides the blocks of the plugins. -/
structure PromptParts where
  identity : String
  formatted : String
  systemParts : List String := []
  contextBudgetLine : String := ""
  memory : Option String := none
  promoted : Option String := none
  recalled : Option String := none
  chatMemory : Option String := none
  metricsContext : Option String := none
  continuation : List String := []
  skillContext : Option String := none
  charsPerToken : ℚ := 4
  wakeLine : Int → String := fun _ => ""

/-- `system_parts`. -/
def PromptParts.system (parts : PromptParts) (compact : Bool) : List String :=
  if compact then parts.systemParts ++ [parts.contextBudgetLine] else parts.systemParts

/-- The slots as the plugins find them. -/
def PromptParts.slots (parts : PromptParts) (compact : Bool) : Slots where
  entries := [
    ("identity", [parts.identity]),
    ("self_narrative", []),
    ("system_notice",
      if parts.system compact = [] then []
      else [formatSystemNotice (parts.system compact) compact]),
    ("memory", parts.memory.toList),
    ("promoted", parts.promoted.toList),
    ("recall", parts.recalled.toList),
    ("chat_memory", parts.chatMemory.toList),
    ("persistent_memory", []),
    ("wake", []),
    ("working_memory", []),
    ("body", []),
    ("self_state", []),
    ("authorship", []),
    ("mesh", []),
    ("metrics", []),
    ("skills", []),
    ("continuation", []),
    ("user", [parts.formatted])]
  nodup_keys := by simp

/-- `slots[slot].append`. -/
def appendTo (slot : String) (new : List String) (slots : Slots) : Slots :=
  slots.set slot ((slots.get slot).getD [] ++ new)

/-- What is added after the plugins. -/
def addContexts (parts : PromptParts) (slots : Slots) : Slots :=
  appendTo "skills" parts.skillContext.toList
    (appendTo "continuation" parts.continuation
      (appendTo "metrics" parts.metricsContext.toList slots))

/-- The slots of the prompt, from those that the plugins filled. -/
def finishSlots (pb : PromptBlocksConfig) (parts : PromptParts) (force : List String)
    (compact : Bool) (wake : Option WakeBudget) (filled : Slots) : Slots :=
  let slots := applyPromptBlocks pb force (addContexts parts filled)
  match wake with
  | none => slots
  | some wake =>
      if compact then applyWakeBudget wake parts.charsPerToken (parts.system compact) slots
      else slots

/-! ### What is in the prompt -/

/-- A text is in another. -/
def Within (block text : String) : Prop := block.toList <:+: text.toList

/-- The slot is rendered, and one of its parts has the block. -/
def Keeps (slots : Slots) (slot block : String) : Prop :=
  slot ∈ promptSlotOrder ∧ ∃ part ∈ (slots.get slot).getD [], Within block part

section Rendering

variable {block text : String} {parts : List String} {slot : String} {slots : Slots}

theorem Within.trans
    {inner : String}
    (h : Within inner block)
    (h' : Within block text) :
    Within inner text :=
  List.IsInfix.trans h h'

/-- A part is in the joined text. -/
theorem within_joinParts
    (h : block ∈ parts) :
    Within block (joinParts parts) := by
  induction parts with
  | nil => cases h
  | cons p ps ih =>
      cases ps with
      | nil =>
          obtain rfl := List.mem_singleton.mp h
          rw [joinParts, String.intercalate_singleton]
          exact List.infix_rfl
      | cons p' ps =>
          have hcons : joinParts (p :: p' :: ps) = p ++ "\n\n" ++ joinParts (p' :: ps) :=
            String.intercalate_cons_of_ne_nil (List.cons_ne_nil _ _)
          rw [hcons, Within, String.toList_append, String.toList_append]
          rcases List.mem_cons.mp h with rfl | h
          · rw [List.append_assoc]
            exact (List.prefix_append _ _).isInfix
          · exact List.IsInfix.trans (ih h) (List.suffix_append _ _).isInfix

/-- A block that its slot keeps is in the prompt. -/
theorem renderSlots_of_keeps
    (h : Keeps slots slot block) :
    Within block (renderSlots slots) := by
  obtain ⟨horder, part, hpart, hin⟩ := h
  exact hin.trans (within_joinParts (List.mem_flatMap.mpr ⟨slot, horder, hpart⟩))

end Rendering

section Limits

variable {pb : PromptBlocksConfig} {force : List String} {slot k : String} {slots : Slots}

theorem get_limitSlot :
    (limitSlot pb force slots slot).get k =
      if slot = k then (slots.get slot).bind (limitedParts pb force slot) else slots.get k := by
  unfold limitSlot
  cases hget : slots.get slot with
  | none =>
      split_ifs with hk
      · subst hk
        exact hget
      · rfl
  | some parts =>
      rw [Option.bind_some]
      dsimp only
      cases limitedParts pb force slot parts with
      | none => exact slots.get_erase slot k
      | some parts' => exact slots.get_set slot k parts'

/-- Without lists and caps a slot stays as it is. -/
theorem limitedParts_of_empty
    (hallow : pb.allow.isEmpty = true)
    (hdeny : pb.deny.isEmpty = true)
    (hcaps : pb.caps.entries.isEmpty = true)
    (parts : List String) :
    limitedParts pb force slot parts = some parts := by
  have hcap : pb.caps.get slot = none := by
    rw [Dict.get_eq_none_iff, Dict.keys, List.isEmpty_iff.mp hcaps]
    exact List.not_mem_nil
  have hallowed : allowedSlot pb force slot = true := by
    simp [allowedSlot, hallow, List.isEmpty_iff.mp hdeny]
  rw [limitedParts, if_pos hallowed, hcap]

/-- Each slot is limited on its own. -/
theorem get_applyPromptBlocks :
    (applyPromptBlocks pb force slots).get k =
      (slots.get k).bind (limitedParts pb force k) := by
  unfold applyPromptBlocks
  split_ifs with hempty
  · rw [Bool.and_eq_true, Bool.and_eq_true] at hempty
    cases hget : slots.get k with
    | none => rfl
    | some parts =>
        rw [Option.bind_some, limitedParts_of_empty hempty.1.1 hempty.1.2 hempty.2]
  · have hfold := Dict.get_foldl_update (f := limitSlot pb force)
      (g := fun k parts => parts.bind (limitedParts pb force k))
      (fun d k k' => get_limitSlot) slots.nodup_keys slots k
    refine hfold.trans ?_
    split_ifs with hk
    · rfl
    · rw [(slots.get_eq_none_iff k).mpr hk]
      rfl

theorem mem_appendTo
    {new : List String} {part : String}
    (h : part ∈ (slots.get k).getD []) :
    part ∈ ((appendTo slot new slots).get k).getD [] := by
  rw [appendTo, Dict.get_set]
  split_ifs with hk
  · subst hk
    exact List.mem_append_left _ h
  · exact h

/-- A part of a slot that the lists and caps let through is kept where there is no wake
budget. -/
theorem keeps_finishSlots
    (parts : PromptParts)
    (compact : Bool)
    {part : String}
    (hslot : slot ∈ promptSlotOrder)
    (hpart : part ∈ (slots.get slot).getD [])
    (hlimits : ∀ parts, limitedParts pb force slot parts = some parts) :
    Keeps (finishSlots pb parts force compact none slots) slot part := by
  refine ⟨hslot, part, ?_, List.infix_rfl⟩
  rw [finishSlots, get_applyPromptBlocks]
  have hin : part ∈ ((addContexts parts slots).get slot).getD [] :=
    mem_appendTo (mem_appendTo (mem_appendTo hpart))
  cases hget : (addContexts parts slots).get slot with
  | none =>
      rw [hget] at hin
      cases hin
  | some held =>
      rw [hget] at hin
      rw [Option.bind_some, hlimits]
      exact hin

end Limits

end Context
end DiploidAgent
