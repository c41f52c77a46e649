import DiploidAgent.Context.PromptSlots

/-!
# The policy of the prompt blocks

The lists and caps of `prompt_blocks` against the prompt that `_assemble_prompt` renders.
`_apply_prompt_blocks` cuts the slots before the wake budget empties some of them and writes
the system notice again, with a line of its own behind it.

The lists hold for every prompt, and so do the caps and the required slots but for a notice
that is written again (`finishSlots_policy`).
-/

namespace DiploidAgent
namespace Context
namespace BlockPolicy

/-! ### The policy -/

/-- The text of a slot. -/
def slotText (slots : Slots) (slot : String) : String := joinParts ((slots.get slot).getD [])

/-- The lists do not let the slot through. -/
def LeftOut (pb : PromptBlocksConfig) (slot : String) : Prop :=
  slot ∈ pb.deny ∨ pb.allow ≠ [] ∧ slot ∉ pb.allow

/-- The wake budget writes the system notice again. -/
def Rewrites (compact : Bool) (wake : Option WakeBudget) : Prop :=
  compact = true ∧ wake.isSome = true

/-- Some slots that are not required were emptied. -/
def Emptied (slots slots' : Slots) : Prop :=
  ∀ slot, slots'.get slot = slots.get slot ∨
    slot ∉ promptRequiredSlots ∧ slots'.get slot = (slots.get slot).map fun _ => []

/-! ### Texts that are cut -/

section Texts

variable {text : List Char} {parts front back : List String} {slot : String} {slots : Slots}

theorem le_length_of_rfind
    {w l : List Char} {i : Nat}
    (h : rfind w l = some i) :
    i ≤ l.length := by
  induction l generalizing i with
  | nil =>
      rw [rfind] at h
      split_ifs at h
      rw [← Option.some.inj h]
      exact Nat.zero_le _
  | cons c l ih =>
      rw [rfind] at h
      cases hrest : rfind w l with
      | some j =>
          rw [hrest] at h
          obtain rfl : j + 1 = i := Option.some.inj h
          exact Nat.succ_le_succ (ih hrest)
      | none =>
          rw [hrest] at h
          dsimp only at h
          split_ifs at h
          rw [← Option.some.inj h]
          exact Nat.zero_le _

theorem length_trimToSection_le
    (text : List Char) (limit : Nat) :
    (trimToSection text limit).length ≤ limit := by
  have hupTo : upTo text limit = text.take limit := if_pos (Int.natCast_nonneg limit)
  have hbreak : ∀ w i, (rfind w (text.take limit)).filter (0 < ·) = some i → i ≤ limit := by
    intro w i hi
    have hlength := le_length_of_rfind (Option.filter_eq_some_iff.mp hi).1
    rw [List.length_take] at hlength
    omega
  unfold trimToSection
  by_cases hle : (text.length : Int) ≤ limit
  · rw [if_pos hle]
    omega
  · rw [if_neg hle, hupTo]
    dsimp only
    split
    next i hi =>
      have hi := hbreak _ i hi
      rw [List.length_take]
      omega
    next i _ hi =>
      have hi := hbreak _ i hi
      rw [List.length_take]
      omega
    next =>
      rw [List.length_take]
      omega

theorem within_joinParts_append :
    Within (joinParts parts) (joinParts (front ++ parts ++ back)) := by
  have hempty : ∀ text : String, Within "" text := fun text => List.nil_infix
  -- a part more on either side is put in with a separator
  have hback : Within (joinParts parts) (joinParts (parts ++ back)) := by
    by_cases hparts : parts = []
    · rw [hparts]
      exact hempty _
    · by_cases hnil : back = []
      · rw [hnil, List.append_nil]
        exact List.infix_rfl
      · rw [joinParts, joinParts, String.intercalate_append_of_ne_nil hparts hnil, Within,
          String.toList_append, String.toList_append, List.append_assoc]
        exact (List.prefix_append _ _).isInfix
  rw [List.append_assoc]
  refine hback.trans ?_
  by_cases hnil : front = []
  · rw [hnil]
    exact List.infix_rfl
  · by_cases hrest : parts ++ back = []
    · rw [hrest]
      exact hempty _
    · rw [joinParts, joinParts, String.intercalate_append_of_ne_nil hnil hrest, Within,
        String.toList_append]
      exact (List.suffix_append _ _).isInfix

/-- The text of a rendered slot is in the prompt. -/
theorem within_renderSlots
    (slots : Slots) (h : slot ∈ promptSlotOrder) :
    Within (slotText slots slot) (renderSlots slots) := by
  obtain ⟨before, after, horder⟩ := List.append_of_mem h
  rw [renderSlots, renderParts, horder, List.flatMap_append, List.flatMap_cons,
    ← List.append_assoc]
  exact within_joinParts_append

theorem mem_promptSlotOrder_of_required
    (h : slot ∈ promptRequiredSlots) :
    slot ∈ promptSlotOrder := by
  have hall : promptRequiredSlots ⊆ promptSlotOrder := by decide
  exact hall h

end Texts

/-! ### Lists and caps -/

section Limits

variable {pb : PromptBlocksConfig} {force : List String} {slot : String}
  {parts parts' : List String}

theorem limitedParts_of_leftOut
    (hout : LeftOut pb slot) (hrequired : slot ∉ promptRequiredSlots) (hforce : slot ∉ force) :
    limitedParts pb force slot parts = none := by
  refine if_neg ?_
  rw [allowedSlot]
  rcases hout with hdeny | ⟨hallow, hnot⟩
  · simp [hdeny, hrequired]
  · simp [hallow, hnot, hrequired, hforce]

theorem limitedParts_of_required
    (hrequired : slot ∈ promptRequiredSlots) (hcap : pb.caps.get slot = none) :
    limitedParts pb force slot parts = some parts := by
  have hallowed : allowedSlot pb force slot = true := by simp [allowedSlot, hrequired]
  rw [limitedParts, if_pos hallowed, hcap]

/-- What is left of a slot is no longer than its cap. -/
theorem length_limitedParts_le
    {cap : Int} (hcap : pb.caps.get slot = some cap) (hpos : 0 ≤ cap)
    (h : limitedParts pb force slot parts = some parts') :
    ((joinParts parts').length : Int) ≤ cap := by
  obtain ⟨limit, rfl⟩ := Int.eq_ofNat_of_zero_le hpos
  rw [limitedParts, hcap] at h
  split_ifs at h
  dsimp only at h
  split_ifs at h with hlong hempty
  · obtain rfl := Option.some.inj h
    have hlength := length_trimToSection_le (joinParts parts).toList limit
    rw [joinParts, String.intercalate_singleton, String.length_ofList]
    omega
  · obtain rfl := Option.some.inj h
    rw [not_and_or, not_not] at hlong
    rcases hlong with hnil | hle
    · rw [hnil]
      exact hpos
    · rw [String.length_toList] at hle
      omega

end Limits

/-! ### The wake budget -/

section Wake

variable {slots slots' slots'' : Slots} {names : List String} {slot : String}

theorem Emptied.refl (slots : Slots) : Emptied slots slots := fun _ => Or.inl rfl

theorem Emptied.trans
    (h : Emptied slots slots') (h' : Emptied slots' slots'') :
    Emptied slots slots'' := by
  intro slot
  rcases h' slot with hget' | ⟨hnot, hget'⟩
  · rw [hget']
    exact h slot
  · refine Or.inr ⟨hnot, ?_⟩
    rcases h slot with hget | ⟨-, hget⟩
    · rw [hget', hget]
    · rw [hget', hget, Option.map_map]
      rfl

theorem emptied_clearSlots
    (hnames : ∀ slot ∈ names, slot ∉ promptRequiredSlots) :
    Emptied slots (clearSlots names slots) := by
  intro slot
  rw [clearSlots, Dict.get_mapValues]
  by_cases hin : slot ∈ names
  · refine Or.inr ⟨hnames slot hin, ?_⟩
    simp [hin]
  · refine Or.inl ?_
    simp [hin]

theorem emptied_trimSteps
    (fits : Slots → Bool) (steps : List (List String)) (slots : Slots) :
    Emptied slots (trimSteps fits steps slots).2 := by
  induction steps generalizing slots with
  | nil => exact Emptied.refl slots
  | cons names steps ih =>
      have hstep : Emptied slots (clearSlots (names.filter (· ∉ protectedSlots)) slots) := by
        refine emptied_clearSlots ?_
        intro slot hslot hrequired
        exact of_decide_eq_true (List.mem_filter.mp hslot).2 (List.mem_append_left _ hrequired)
      rw [trimSteps]
      split_ifs
      · exact hstep
      · exact hstep.trans (ih _)

/-- Trimming empties slots that are not required, and changes no other. -/
theorem emptied_trimSlotsToBudget
    (fits : Slots → Bool) (slots : Slots) :
    Emptied slots (trimSlotsToBudget fits slots) := by
  have hsteps := emptied_trimSteps fits wakeTrimSteps slots
  rw [trimSlotsToBudget]
  split_ifs
  · exact Emptied.refl slots
  · generalize trimSteps fits wakeTrimSteps slots = trimmed at hsteps
    obtain ⟨fitted, slots'⟩ := trimmed
    cases fitted with
    | true => exact hsteps
    | false =>
        refine hsteps.trans (emptied_clearSlots ?_)
        intro slot hslot
        exact of_decide_eq_true (List.mem_filter.mp hslot).2

/-- The wake line stands behind the other parts of the notice. -/
theorem formatSystemNotice_append
    {systemParts : List String} (hne : systemParts ≠ []) (line : String) :
    formatSystemNotice (systemParts ++ [line]) true =
      formatSystemNotice systemParts true ++ " " ++ line := by
  rw [formatSystemNotice, if_pos rfl, formatSystemNotice, if_pos rfl,
    String.intercalate_append_of_ne_nil hne (List.cons_ne_nil _ _), String.intercalate_singleton]

theorem get_applyWakeBudget_of_ne
    (wake : WakeBudget) (charsPerToken : ℚ) (systemParts : List String) (slots : Slots)
    (hslot : slot ≠ "system_notice") :
    (applyWakeBudget wake charsPerToken systemParts slots).get slot = slots.get slot ∨
      slot ∉ promptRequiredSlots ∧
        (applyWakeBudget wake charsPerToken systemParts slots).get slot =
          (slots.get slot).map fun _ => [] := by
  have htrim : ∀ fits notice,
      (trimSlotsToBudget fits (slots.set "system_notice" notice)).get slot = slots.get slot ∨
        slot ∉ promptRequiredSlots ∧
          (trimSlotsToBudget fits (slots.set "system_notice" notice)).get slot =
            (slots.get slot).map fun _ => [] := by
    intro fits notice
    rw [← Dict.get_set_of_ne slots hslot.symm notice]
    exact emptied_trimSlotsToBudget fits (slots.set "system_notice" notice) slot
  rw [applyWakeBudget]
  dsimp only
  split_ifs
  · exact Or.inl (Dict.get_set_of_ne _ hslot.symm _)
  · rw [Dict.get_set_of_ne _ hslot.symm]
    exact htrim _ _

/-- The notice is that of the parts given, with a wake line. -/
theorem notice_applyWakeBudget
    (wake : WakeBudget) (charsPerToken : ℚ) (systemParts : List String) (slots : Slots) :
    ∃ tokens, (applyWakeBudget wake charsPerToken systemParts slots).get "system_notice" =
      some [formatSystemNotice (systemParts ++ [wakeLineStart ++ wake.line tokens]) true] := by
  rw [applyWakeBudget]
  dsimp only
  split_ifs
  · exact ⟨_, Dict.get_set_self _ _ _⟩
  · rw [List.dropLast_concat]
    exact ⟨_, Dict.get_set_self _ _ _⟩

end Wake

/-! ### The prompt -/

section Prompt

variable {pb : PromptBlocksConfig} {parts : PromptParts} {force : List String} {compact : Bool}
  {wake : Option WakeBudget} {filled : Slots} {slot : String}

/-- A slot that is not written again is as the lists and the caps left it, or emptied. -/
theorem get_finishSlots
    (pb : PromptBlocksConfig) (parts : PromptParts) (force : List String) (filled : Slots)
    (hslot : slot = "system_notice" → ¬ Rewrites compact wake) :
    (finishSlots pb parts force compact wake filled).get slot =
        ((addContexts parts filled).get slot).bind (limitedParts pb force slot) ∨
      slot ∉ promptRequiredSlots ∧
        (finishSlots pb parts force compact wake filled).get slot =
          (((addContexts parts filled).get slot).bind (limitedParts pb force slot)).map
            fun _ => [] := by
  rw [← get_applyPromptBlocks]
  cases wake with
  | none => exact Or.inl rfl
  | some wake =>
      cases compact with
      | false => exact Or.inl rfl
      | true =>
          have hne : slot ≠ "system_notice" := fun heq => hslot heq ⟨rfl, rfl⟩
          exact get_applyWakeBudget_of_ne wake _ _ _ hne

theorem notice_finishSlots
    (pb : PromptBlocksConfig) (parts : PromptParts) (force : List String) (filled : Slots)
    (wake : WakeBudget) :
    ∃ tokens, (finishSlots pb parts force true (some wake) filled).get "system_notice" =
      some [formatSystemNotice (parts.system true) true ++ " " ++
        (wakeLineStart ++ wake.line tokens)] := by
  have hne : parts.system true ≠ [] := by simp [PromptParts.system]
  obtain ⟨tokens, hnotice⟩ := notice_applyWakeBudget wake parts.charsPerToken
    (parts.system true) (applyPromptBlocks pb force (addContexts parts filled))
  refine ⟨tokens, ?_⟩
  rw [← formatSystemNotice_append hne]
  exact hnotice

/-- **The policy of the blocks.**  In the prompt that is rendered a slot is no longer than
its cap and a required slot without a cap is as it was, but for a system notice that the wake
budget writes again; a slot that the lists leave out gives nothing.  The notice of the
assembler, where it had the slot to itself, stands before the wake line. -/
theorem finishSlots_policy (pb : PromptBlocksConfig) (parts : PromptParts) (force : List String)
    (compact : Bool) (wake : Option WakeBudget) (filled : Slots) :
    (∀ slot cap, pb.caps.get slot = some cap → 0 ≤ cap →
      (slot = "system_notice" → ¬ Rewrites compact wake) →
      ((slotText (finishSlots pb parts force compact wake filled) slot).length : Int) ≤ cap) ∧
    (∀ slot, LeftOut pb slot → slot ∉ promptRequiredSlots → slot ∉ force →
      ((finishSlots pb parts force compact wake filled).get slot).getD [] = []) ∧
    (∀ slot ∈ promptRequiredSlots, pb.caps.get slot = none →
      (slot = "system_notice" → ¬ Rewrites compact wake) →
      (finishSlots pb parts force compact wake filled).get slot =
          (addContexts parts filled).get slot ∧
        Within (slotText (addContexts parts filled) slot)
          (renderSlots (finishSlots pb parts force compact wake filled))) ∧
    (∀ budget, wake = some budget → compact = true → pb.caps.get "system_notice" = none →
      (addContexts parts filled).get "system_notice" =
        some [formatSystemNotice (parts.system true) true] →
      ∃ tokens, Within
        (slotText (addContexts parts filled) "system_notice" ++ " " ++
          (wakeLineStart ++ budget.line tokens))
        (renderSlots (finishSlots pb parts force compact wake filled))) := by
  refine ⟨?_, ?_, ?_, ?_⟩
  · intro slot cap hcap hpos hslot
    have hlength : ∀ limited,
        ((addContexts parts filled).get slot).bind (limitedParts pb force slot) = limited →
        ((joinParts (limited.getD [])).length : Int) ≤ cap := by
      intro limited hlimited
      cases limited with
      | none => exact hpos
      | some parts' =>
          obtain ⟨held, -, hheld⟩ := Option.bind_eq_some_iff.mp hlimited
          exact length_limitedParts_le hcap hpos hheld
    rw [slotText]
    rcases get_finishSlots pb parts force filled hslot
      with hget | ⟨-, hget⟩
    · rw [hget]
      exact hlength _ rfl
    · rw [hget]
      cases ((addContexts parts filled).get slot).bind (limitedParts pb force slot) with
      | none => exact hpos
      | some parts' => exact hpos
  · intro slot hout hrequired hforce
    have hslot : slot = "system_notice" → ¬ Rewrites compact wake := by
      rintro rfl
      exact absurd (by decide) hrequired
    have hnone : ((addContexts parts filled).get slot).bind (limitedParts pb force slot) =
        none := by
      rw [Option.bind_eq_none_iff]
      exact fun held _ => limitedParts_of_leftOut hout hrequired hforce
    rcases get_finishSlots pb parts force filled hslot
      with hget | ⟨-, hget⟩
    · rw [hget, hnone]
      rfl
    · rw [hget, hnone]
      rfl
  · intro slot hrequired hcap hslot
    have hlimited : ((addContexts parts filled).get slot).bind (limitedParts pb force slot) =
        (addContexts parts filled).get slot := by
      cases hheld : (addContexts parts filled).get slot with
      | none => rfl
      | some held => exact limitedParts_of_required hrequired hcap
    have hget : (finishSlots pb parts force compact wake filled).get slot =
        (addContexts parts filled).get slot := by
      rcases get_finishSlots pb parts force filled hslot
        with hget | ⟨hnot, -⟩
      · rw [hget, hlimited]
      · exact absurd hrequired hnot
    refine ⟨hget, ?_⟩
    have hwithin := within_renderSlots (finishSlots pb parts force compact wake filled)
      (mem_promptSlotOrder_of_required hrequired)
    rwa [slotText, hget] at hwithin
  · rintro budget rfl rfl - hnotice
    obtain ⟨tokens, hget⟩ := notice_finishSlots pb parts force filled budget
    refine ⟨tokens, ?_⟩
    have hnotice_required : "system_notice" ∈ promptSlotOrder := by decide
    have hwithin := within_renderSlots
      (finishSlots pb parts force true (some budget) filled) hnotice_required
    rw [slotText, hget] at hwithin
    rw [slotText, hnotice]
    simpa [joinParts] using hwithin

/-- A prompt with a notice of its own. -/
def noticed : PromptParts :=
  { identity := "Me."
    formatted := "Hello."
    contextBudgetLine := "[Context: ok]"
    memory := some "abc" }

def wideBudget : WakeBudget where
  budget := 100
  line := fun _ => " ok]"

def caps (slot : String) (cap : Int) : PromptBlocksConfig :=
  { caps := Dict.empty.set slot cap }

/-- A required slot without a cap that is not as it was, a slot that is longer than a negative
cap, and a notice that is written again past its cap. -/
theorem finishSlots_noticed :
    ((addContexts noticed (noticed.slots true)).get "system_notice" = some ["[Context: ok]"] ∧
      ({} : PromptBlocksConfig).caps.get "system_notice" = none ∧
      (finishSlots {} noticed [] true (some wideBudget) (noticed.slots true)).get
        "system_notice" = some ["[Context: ok] [Wake context budget: ok]"]) ∧
    ((caps "memory" (-1)).caps.get "memory" = some (-1) ∧
      slotText (finishSlots (caps "memory" (-1)) noticed [] true none (noticed.slots true))
        "memory" = "ab") ∧
    ((caps "system_notice" 5).caps.get "system_notice" = some 5 ∧
      slotText (finishSlots (caps "system_notice" 5) noticed [] true (some wideBudget)
        (noticed.slots true)) "system_notice" = "[Context: ok] [Wake context budget: ok]") := by
  have hnotice : ∀ pb, (finishSlots pb noticed [] true (some wideBudget)
      (noticed.slots true)).get "system_notice" =
      some ["[Context: ok] [Wake context budget: ok]"] := by
    intro pb
    obtain ⟨tokens, hget⟩ := notice_finishSlots pb noticed [] (noticed.slots true) wideBudget
    have htext : formatSystemNotice (noticed.system true) true ++ " " ++
        (wakeLineStart ++ " ok]") = "[Context: ok] [Wake context budget: ok]" := by decide
    exact hget.trans (congrArg (fun text => some [text]) htext)
  refine ⟨⟨by decide, rfl, hnotice _⟩, ⟨rfl, ?_⟩, rfl, ?_⟩
  · decide +kernel
  · rw [slotText, hnotice, Option.getD_some, joinParts, String.intercalate_singleton]

end Prompt

end BlockPolicy
end Context
end DiploidAgent
