import DiploidAgent.Lib.Text

/-!
# Questions with buttons

A question of the agent, the inline keyboard that is shown with it, and what the
callback data of a button says.
-/

namespace DiploidAgent
namespace Telegram

open Text

/-- A question, its options, and a cancel button. -/
structure AskBlock where
  question : String
  options : List String
  cancellable : Bool
  cancelLabel : String
  nonempty : options ≠ []
deriving DecidableEq

structure Button where
  text : String
  callbackData : List Char
deriving DecidableEq

def callbackPrefix : List Char := "ask_".toList

/-- The callback data of an option. -/
def optionCallback (i : Nat) : List Char := callbackPrefix ++ Nat.toDigits 10 i

def cancelCallback : List Char := callbackPrefix ++ "cancel".toList

/-- The buttons of the options from the `i`-th on. -/
def optionButtons (cancel : Option String) : Nat → List String → List Button
  | _, [] => []
  | i, opt :: opts =>
      { text := opt
        callbackData := if cancel = some opt then cancelCallback else optionCallback i } ::
        optionButtons cancel (i + 1) opts

/-- `build_inline_keyboard`; an empty label is no label. -/
def buildInlineKeyboard (options : List String) (cancel : Option String) : List Button :=
  let cancel := cancel.filter (· ≠ "")
  let rows := optionButtons cancel 0 options
  match cancel with
  | none => rows
  | some label =>
      if label ∈ options then rows
      else rows ++ [{ text := label, callbackData := cancelCallback }]

/-- `is_ask_cancel_callback`. -/
def isAskCancelCallback (data : List Char) : Bool := data == cancelCallback

/-- `parse_ask_callback_index`. -/
def parseAskCallbackIndex (data : List Char) : Option Int :=
  if callbackPrefix.isPrefixOf data then
    let tail := data.drop callbackPrefix.length
    if tail = "cancel".toList then none else intOf tail
  else none

/-- The keyboard that is sent with a block. -/
def AskBlock.keyboard (b : AskBlock) : List Button :=
  buildInlineKeyboard b.options (if b.cancellable then some b.cancelLabel else none)

section Callbacks

theorem optionCallback_ne_cancel
    (i : Nat) :
    optionCallback i ≠ cancelCallback := by
  intro h
  have htail : Nat.toDigits 10 i = "cancel".toList := List.append_cancel_left h
  have hdigit : ('c' : Char).isDigit = true :=
    Nat.isDigit_of_mem_toDigits (b := 10) (n := i) (by omega) (by omega)
      (htail ▸ (by decide : 'c' ∈ "cancel".toList))
  cases hdigit

theorem isAskCancelCallback_option
    (i : Nat) :
    isAskCancelCallback (optionCallback i) = false :=
  beq_false_of_ne (optionCallback_ne_cancel i)

/-- The index of an option is read back. -/
theorem parseAskCallbackIndex_option
    (i : Nat) :
    parseAskCallbackIndex (optionCallback i) = some (i : Int) := by
  have hprefix : callbackPrefix.isPrefixOf (optionCallback i) = true :=
    List.isPrefixOf_iff_prefix.mpr (List.prefix_append _ _)
  have htail : (optionCallback i).drop callbackPrefix.length = Nat.toDigits 10 i :=
    List.drop_left
  have hcancel : Nat.toDigits 10 i ≠ "cancel".toList := fun h =>
    optionCallback_ne_cancel i (by rw [optionCallback, h, cancelCallback])
  rw [parseAskCallbackIndex, if_pos hprefix, htail]
  dsimp only
  rw [if_neg hcancel, intOf_toDigits]

end Callbacks

section Keyboards

variable {cancel : Option String}

theorem optionButtons_get
    (options : List String) (i row : Nat) :
    (optionButtons cancel i options)[row]? = options[row]?.map fun opt =>
      { text := opt
        callbackData := if cancel = some opt then cancelCallback else optionCallback (i + row) } := by
  induction options generalizing i row with
  | nil => rfl
  | cons opt opts ih =>
      cases row with
      | zero => rfl
      | succ row =>
          rw [optionButtons, List.getElem?_cons_succ, List.getElem?_cons_succ, ih]
          have hindex : i + 1 + row = i + (row + 1) := by omega
          rw [hindex]

/-- A button of a keyboard is the option of its row, or it cancels. -/
theorem button_cases
    {options : List String} {row : Nat} {button : Button}
    (h : (buildInlineKeyboard options cancel)[row]? = some button) :
    (button.callbackData = optionCallback row ∧ options[row]? = some button.text) ∨
      (button.callbackData = cancelCallback ∧ cancel = some button.text) := by
  have hrow : ∀ c : Option String, (∀ opt, c = some opt → cancel = some opt) →
      (optionButtons c 0 options)[row]? = some button →
      (button.callbackData = optionCallback row ∧ options[row]? = some button.text) ∨
        (button.callbackData = cancelCallback ∧ cancel = some button.text) := by
    intro c hc hget
    rw [optionButtons_get, Option.map_eq_some_iff] at hget
    obtain ⟨opt, hopt, rfl⟩ := hget
    dsimp only
    rw [Nat.zero_add]
    split_ifs with hcancel
    · exact Or.inr ⟨rfl, hc opt hcancel⟩
    · exact Or.inl ⟨rfl, hopt⟩
  unfold buildInlineKeyboard at h
  cases hlabel : cancel.filter (· ≠ "") with
  | none =>
      rw [hlabel] at h
      exact hrow none (fun _ hc => by cases hc) h
  | some label =>
      have hcancel : cancel = some label := (Option.filter_eq_some_iff.mp hlabel).1
      have hlabels : ∀ opt, some label = some opt → cancel = some opt := fun opt hc =>
        hcancel.trans hc
      rw [hlabel] at h
      dsimp only at h
      split_ifs at h
      · exact hrow _ hlabels h
      · rw [List.getElem?_append] at h
        split_ifs at h with hlt
        · exact hrow _ hlabels h
        · obtain rfl : button = { text := label, callbackData := cancelCallback } :=
            List.mem_singleton.mp (List.mem_of_getElem? h)
          exact Or.inr ⟨rfl, hcancel⟩

end Keyboards

end Telegram
end DiploidAgent
