import Mathlib.Algebra.Order.Group.Defs
import Mathlib.Algebra.Order.Group.Unbundled.Basic
import Mathlib.Data.List.Count
import Mathlib.Tactic.Abel

/-!
# Counts in sliding windows

Entries with times, of which those of a kind are counted: after a time, or in a half-open
window.  What is dropped before a cutoff is not missed after it.  When each new entry finds
fewer than `n` of its kind in the window that ends at its own time, every window holds at
most `n` of them, in whatever order the entries were made.
-/

namespace DiploidAgent
namespace Windows

universe u v

variable {ε : Type u} {τ : Type v}

section Counts

variable [LinearOrder τ] (time : ε → τ) (kind : ε → Bool)

/-- How many entries of the kind are later. -/
def after (x : τ) (l : List ε) : Nat := l.countP fun e => kind e && decide (x < time e)

/-- How many entries of the kind are in the window. -/
def within (x y : τ) (l : List ε) : Nat :=
  l.countP fun e => kind e && decide (x < time e) && decide (time e ≤ y)

/-- The entries after a cutoff. -/
def prune (cutoff : τ) (l : List ε) : List ε := l.filter fun e => decide (cutoff < time e)

variable {time kind}

@[simp] theorem after_append (x : τ) (l l' : List ε) :
    after time kind x (l ++ l') = after time kind x l + after time kind x l' :=
  List.countP_append

theorem after_anti {x y : τ} (h : x ≤ y) (l : List ε) :
    after time kind y l ≤ after time kind x l := by
  refine List.countP_mono_left fun e _ he => ?_
  simp only [Bool.and_eq_true, decide_eq_true_eq] at he ⊢
  exact ⟨he.1, lt_of_le_of_lt h he.2⟩

/-- An entry of another kind is not counted. -/
theorem after_singleton_of_not_kind {e : ε} (h : kind e = false) (x : τ) :
    after time kind x [e] = 0 := by
  simp [after, h]

/-- What was dropped is not missed. -/
theorem after_prune {cutoff x : τ} (h : cutoff ≤ x) (l : List ε) :
    after time kind x (prune time cutoff l) = after time kind x l := by
  rw [after, prune, List.countP_filter]
  refine List.countP_congr fun e _ => ?_
  simp only [Bool.and_eq_true, decide_eq_true_eq]
  exact ⟨fun he => he.1, fun he => ⟨he, lt_of_le_of_lt h he.2⟩⟩

theorem within_le_after {x y z : τ} (h : z ≤ x) (l : List ε) :
    within time kind x y l ≤ after time kind z l := by
  refine List.countP_mono_left fun e _ he => ?_
  simp only [Bool.and_eq_true, decide_eq_true_eq] at he ⊢
  exact ⟨he.1.1, lt_of_le_of_lt h he.1.2⟩

end Counts

section Bounds

variable [AddCommGroup τ] [LinearOrder τ] {time : ε → τ} {kind : ε → Bool}

variable (time kind) in
/-- No window of the length holds more than `n` entries of the kind. -/
def Bounded (length : τ) (n : Nat) (l : List ε) : Prop :=
  ∀ x, within time kind x (x + length) l ≤ n

variable [IsOrderedAddMonoid τ]

/-- A new entry that finds fewer than `n` of its kind in the window before it. -/
theorem bounded_concat {length : τ} {n : Nat} {l : List ε} {e : ε}
    (h : Bounded time kind length n l)
    (hnew : kind e = true → after time kind (time e - length) l < n) :
    Bounded time kind length n (l ++ [e]) := by
  intro x
  rw [within, List.countP_append, List.countP_singleton]
  split
  · next he =>
      -- the window holds the new entry, so it does not begin before the entry's own window
      simp only [Bool.and_eq_true, decide_eq_true_eq] at he
      have hstart : time e - length ≤ x := sub_le_iff_le_add.mpr he.2
      have hfew := hnew he.1.1
      have hold : within time kind x (x + length) l ≤ after time kind (time e - length) l :=
        within_le_after hstart l
      exact Nat.succ_le_of_lt (Nat.lt_of_le_of_lt hold hfew)
  · exact h x

end Bounds

end Windows
end DiploidAgent
