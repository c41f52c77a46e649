import DiploidAgent.Lib.Text

/-!
# The words of a text

`str.split` without an argument cuts a text at its white space.  The words hold all other
characters, and joined with blanks they hold no more than these.
-/

namespace DiploidAgent
namespace Words

open Text (isSpace)

/-- `str.split` without an argument. -/
def words (text : List Char) : List (List Char) := (text.splitOnP isSpace).filter (· ≠ [])

/-- The characters that are no white space. -/
def visible (text : List Char) : List Char := text.filter fun c => !isSpace c

def joinWords (ws : List (List Char)) : List Char := [' '].intercalate ws

section Visible

variable {l l' text : List Char}

@[simp] theorem visible_append : visible (l ++ l') = visible l ++ visible l' :=
  List.filter_append l l'

theorem visible_eq_nil_iff : visible text = [] ↔ ∀ c ∈ text, isSpace c = true := by
  rw [visible, List.filter_eq_nil_iff]
  simp

theorem visible_of_space {c : Char} (hc : isSpace c = true) : visible (c :: text) = visible text :=
  List.filter_cons_of_neg (by simp [hc])

theorem visible_of_not_space {c : Char} (hc : isSpace c = false) :
    visible (c :: text) = c :: visible text := List.filter_cons_of_pos (by simp [hc])

theorem visible_joinWords (ws : List (List Char)) :
    visible (joinWords ws) = (ws.map visible).flatten := by
  induction ws with
  | nil => rfl
  | cons w ws ih =>
      cases ws with
      | nil => simp [joinWords]
      | cons w' ws =>
          have hblank : visible [' '] = [] := rfl
          rw [joinWords, List.intercalate_cons_cons, visible_append, visible_append, hblank,
            List.append_nil]
          exact congrArg (visible w ++ ·) ih

/-- The pieces hold what is no white space. -/
theorem flatten_splitOnP (text : List Char) :
    (text.splitOnP isSpace).flatten = visible text := by
  induction text with
  | nil => rfl
  | cons c text ih =>
      rw [List.splitOnP_cons_eq_if_modifyHead]
      split
      next hc => rw [List.flatten_cons, List.nil_append, ih, visible_of_space hc]
      next hc =>
        rw [visible_of_not_space (Bool.eq_false_iff.mpr hc), ← ih]
        cases hpieces : text.splitOnP isSpace with
        | nil => exact absurd hpieces (List.splitOnP_ne_nil _ _)
        | cons piece pieces => rfl

theorem flatten_filter_ne_nil (ls : List (List Char)) :
    (ls.filter (· ≠ [])).flatten = ls.flatten := by
  induction ls with
  | nil => rfl
  | cons l ls ih =>
      by_cases hl : l = []
      · rw [List.filter_cons_of_neg (by simpa using hl), ih, hl]
        rfl
      · rw [List.filter_cons_of_pos (by simpa using hl), List.flatten_cons, ih,
          List.flatten_cons]

theorem flatten_words (text : List Char) : (words text).flatten = visible text := by
  rw [words, flatten_filter_ne_nil, flatten_splitOnP]

theorem visible_visible (text : List Char) : visible (visible text) = visible text :=
  List.filter_filter.trans (by simp [visible])

/-- The words keep what is visible. -/
theorem visible_joinWords_words (text : List Char) :
    visible (joinWords (words text)) = visible text := by
  have hflatten : ∀ ls : List (List Char), (ls.map visible).flatten = visible ls.flatten := by
    intro ls
    induction ls with
    | nil => rfl
    | cons l ls ih => rw [List.map_cons, List.flatten_cons, ih, List.flatten_cons, visible_append]
  rw [visible_joinWords, hflatten, flatten_words, visible_visible]

theorem words_eq_nil_of_space (h : ∀ c ∈ text, isSpace c = true) : words text = [] := by
  rw [words, List.filter_eq_nil_iff]
  intro w hw
  have hnil := (visible_eq_nil_iff.mpr h).symm.trans (flatten_splitOnP text).symm
  simpa using List.flatten_eq_nil_iff.mp hnil.symm w hw

/-- White space at the end does not count. -/
theorem words_append_space (h : ∀ c ∈ l', isSpace c = true) : words (l ++ l') = words l := by
  cases l' with
  | nil => rw [List.append_nil]
  | cons c l' =>
      obtain ⟨hc, hl'⟩ := List.forall_mem_cons.mp h
      have hrest := words_eq_nil_of_space hl'
      unfold words at hrest ⊢
      rw [List.splitOnP_append_cons l l' hc, List.filter_append, hrest, List.append_nil]

end Visible

end Words
end DiploidAgent
