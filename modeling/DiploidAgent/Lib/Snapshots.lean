import Mathlib.Tactic.Common

/-!
# A capped history of snapshots

Every change takes a snapshot at the end of a history, whose oldest entry is dropped when
there are more than `cap`; the last entry shows what is in force.  Going back `k` steps
restores the entry `k` before the last one, drops what came after it and takes a snapshot
of what was restored.

Going back undoes the last `k` changes while their snapshots are kept (`back_of_kept`), and
going back twice is going back by the sum (`back_back`).
-/

namespace DiploidAgent
namespace Snapshots

universe u v

variable {α : Type u}

/-- A snapshot is taken. -/
def push (cap : Nat) (h : List α) (x : α) : List α :=
  if cap < (h ++ [x]).length then (h ++ [x]).tail else h ++ [x]

/-- The entry `k` before the last one, and the history after going back to it. -/
def back (cap : Nat) (h : List α) (k : Nat) : Option (α × List α) :=
  if h.length < k + 1 then none
  else
    h[h.length - (k + 1)]?.map fun x =>
      (x, push cap (h.take (h.length - (k + 1))) x)

/-- The history has an entry with `k` after it. -/
def Kept (h : List α) (x : α) (k : Nat) : Prop :=
  ∃ older newer, h = older ++ x :: newer ∧ newer.length = k

section Rules

variable {cap k : Nat} {h h' : List α} {x y : α}

theorem push_of_lt
    (hlen : h.length < cap) :
    push cap h x = h ++ [x] := by
  refine if_neg ?_
  rw [List.length_append, List.length_singleton]
  omega

theorem length_push_le
    (hlen : h.length ≤ cap) :
    (push cap h x).length ≤ cap := by
  unfold push
  split_ifs with hover
  · rw [List.length_tail, List.length_append, List.length_singleton]
    omega
  · omega

theorem push_eq_concat
    (hcap : 0 < cap) (h : List α) (x : α) :
    ∃ older, push cap h x = older ++ [x] := by
  unfold push
  split_ifs with hover
  · cases h with
    | nil =>
        rw [List.nil_append, List.length_singleton] at hover
        omega
    | cons a rest => exact ⟨rest, rfl⟩
  · exact ⟨h, rfl⟩

theorem map_push
    {β : Type v} (f : α → β) (cap : Nat) (h : List α) (x : α) :
    (push cap h x).map f = push cap (h.map f) (f x) := by
  unfold push
  simp only [List.length_append, List.length_map, List.length_singleton]
  split_ifs
  · rw [List.map_tail, List.map_append, List.map_singleton]
  · rw [List.map_append, List.map_singleton]

theorem mem_push
    (hmem : y ∈ push cap h x) :
    y ∈ h ∨ y = x := by
  have hconcat : y ∈ h ++ [x] := by
    unfold push at hmem
    split_ifs at hmem
    · exact List.mem_of_mem_tail hmem
    · exact hmem
  rcases List.mem_append.mp hconcat with hold | hnew
  · exact Or.inl hold
  · exact Or.inr (List.mem_singleton.mp hnew)

/-- What was just taken is the last entry. -/
theorem kept_push_self
    (hcap : 0 < cap) (h : List α) (x : α) :
    Kept (push cap h x) x 0 := by
  obtain ⟨older, heq⟩ := push_eq_concat hcap h x
  exact ⟨older, [], heq, rfl⟩

/-- A further snapshot drops an entry only when there are `cap` with it. -/
theorem kept_push
    (hkept : Kept h x k) (hlen : h.length ≤ cap) (hk : k + 2 ≤ cap) (y : α) :
    Kept (push cap h y) x (k + 1) := by
  obtain ⟨older, newer, rfl, rfl⟩ := hkept
  unfold push
  split_ifs with hover
  · cases older with
    | nil =>
        simp only [List.nil_append, List.length_append, List.length_cons, List.length_nil] at hover
        omega
    | cons a older => exact ⟨older, newer ++ [y], by simp, by simp⟩
  · exact ⟨older, newer ++ [y], by simp, by simp⟩

/-- **Undo.**  Going back `k` steps restores what has `k` entries after it. -/
theorem back_of_kept
    (hkept : Kept h x k) :
    ∃ h', back cap h k = some (x, h') := by
  obtain ⟨older, newer, rfl, rfl⟩ := hkept
  have hlen : (older ++ x :: newer).length - (newer.length + 1) = older.length := by
    rw [List.length_append, List.length_cons]
    omega
  refine ⟨push cap older x, ?_⟩
  rw [back, if_neg, hlen, List.getElem?_append_right (Nat.le_refl _), Nat.sub_self,
    List.take_left']
  · rfl
  · rfl
  · rw [List.length_append, List.length_cons]
    omega

theorem back_eq_some
    {r : α × List α} (hback : back cap h k = some r) :
    ∃ hk : h.length - (k + 1) < h.length, k + 1 ≤ h.length ∧ r.1 = h[h.length - (k + 1)] ∧
      r.2 = push cap (h.take (h.length - (k + 1))) r.1 := by
  unfold back at hback
  split_ifs at hback with hshort
  have hk : h.length - (k + 1) < h.length := by omega
  rw [List.getElem?_eq_getElem hk, Option.map_some] at hback
  obtain rfl := Option.some.inj hback
  exact ⟨hk, Nat.le_of_not_lt hshort, rfl, rfl⟩

/-- **Going back twice.** -/
theorem back_back
    {a b : Nat} {r : α × List α} (hlen : h.length ≤ cap) (hb : 0 < b)
    (hback : back cap h a = some r) :
    back cap r.2 b = back cap h (a + b) := by
  obtain ⟨hk, hle, hfirst, hsecond⟩ := back_eq_some hback
  have htake : (h.take (h.length - (a + 1))).length = h.length - (a + 1) := by
    rw [List.length_take]
    omega
  have hpush : r.2 = h.take (h.length - (a + 1)) ++ [r.1] := by
    rw [hsecond]
    refine push_of_lt ?_
    rw [htake]
    omega
  have hlength : r.2.length = h.length - a := by
    rw [hpush, List.length_append, htake, List.length_singleton]
    omega
  unfold back
  by_cases hshort : h.length < a + b + 1
  · rw [if_pos hshort, if_pos]
    omega
  · have hindex : r.2.length - (b + 1) = h.length - (a + b + 1) := by omega
    have hless : h.length - (a + b + 1) < (h.take (h.length - (a + 1))).length := by omega
    rw [if_neg hshort, if_neg (by omega), hindex, hpush, List.getElem?_append_left hless,
      List.take_append_of_le_length (Nat.le_of_lt hless), List.take_take, List.getElem?_take]
    have hmin : min (h.length - (a + b + 1)) (h.length - (a + 1)) = h.length - (a + b + 1) := by
      omega
    rw [hmin, if_pos (by omega)]

end Rules

end Snapshots
end DiploidAgent
