import Mathlib.Data.List.Basic
import Mathlib.Tactic.Common

/-!
# A board of messages

Messages stand on a board in the order they were posted; one of them can be given another
text or taken down.  What is done to the last message leaves those before it as they are
when their keys are others.
-/

namespace DiploidAgent
namespace Board

universe u v

variable {κ : Type u} {τ : Type v}

/-- The texts in the order of the messages. -/
def texts (b : List (κ × τ)) : List τ := b.map Prod.snd

@[simp] theorem texts_append (b b' : List (κ × τ)) :
    texts (b ++ b') = texts b ++ texts b' :=
  List.map_append

variable [DecidableEq κ]

/-- The message gets another text. -/
def edit (k : κ) (t : τ) (b : List (κ × τ)) : List (κ × τ) :=
  b.map fun m => if m.1 = k then (k, t) else m

/-- The message is taken down. -/
def delete (k : κ) (b : List (κ × τ)) : List (κ × τ) := b.filter fun m => m.1 ≠ k

section Rules

variable {k : κ} {b : List (κ × τ)}

theorem keys_edit (k : κ) (t : τ) (b : List (κ × τ)) :
    (edit k t b).map Prod.fst = b.map Prod.fst := by
  rw [edit, List.map_map]
  refine List.map_congr_left fun m _ => ?_
  rw [Function.comp_apply]
  split
  · next h => exact h.symm
  · rfl

theorem edit_of_not_mem (h : k ∉ b.map Prod.fst) (t : τ) :
    edit k t b = b := by
  refine (List.map_congr_left fun m hm => ?_).trans (List.map_id b)
  exact if_neg fun heq => h (List.mem_map.mpr ⟨m, hm, heq⟩)

theorem delete_of_not_mem (h : k ∉ b.map Prod.fst) :
    delete k b = b := by
  refine List.filter_eq_self.mpr fun m hm => decide_eq_true fun heq => ?_
  exact h (List.mem_map.mpr ⟨m, hm, heq⟩)

theorem edit_concat (h : k ∉ b.map Prod.fst) (t t' : τ) :
    edit k t' (b ++ [(k, t)]) = b ++ [(k, t')] := by
  have hlast : edit k t' [(k, t)] = [(k, t')] := by simp [edit]
  rw [edit, List.map_append]
  exact congrArg₂ (· ++ ·) (edit_of_not_mem h t') hlast

theorem delete_concat (h : k ∉ b.map Prod.fst) (t : τ) :
    delete k (b ++ [(k, t)]) = b := by
  have hlast : delete k [(k, t)] = [] := by simp [delete]
  rw [delete, List.filter_append]
  exact (congrArg₂ (· ++ ·) (delete_of_not_mem h) hlast).trans (List.append_nil b)

end Rules

end Board
end DiploidAgent
