import Mathlib.Data.List.DropRight
import Mathlib.Tactic.Common

/-!
# The ends of a stream

Of a stream that grows at its end only the last or the first `n` elements are kept.  Both
are told by what was kept before and what came: nothing that was dropped is missed.
-/

namespace DiploidAgent
namespace Rolling

universe u

variable {α : Type u} {n : Nat} {l m : List α}

@[simp] theorem length_rtake (n : Nat) (l : List α) : (l.rtake n).length = min n l.length := by
  rw [List.rtake, List.length_drop]
  omega

theorem rtake_of_length_le (h : l.length ≤ n) : l.rtake n = l := by
  rw [List.rtake, Nat.sub_eq_zero_of_le h, List.drop_zero]

/-- The last elements are those of what was kept and what came. -/
theorem rtake_append_rtake (n : Nat) (l m : List α) :
    (l.rtake n ++ m).rtake n = (l ++ m).rtake n := by
  have hsplit : l ++ m = l.take (l.length - n) ++ (l.rtake n ++ m) := by
    rw [List.rtake, ← List.append_assoc, List.take_append_drop]
  have hkept : (l ++ m).length - n =
      (l.take (l.length - n)).length + ((l.rtake n ++ m).length - n) := by
    simp only [List.length_append, length_rtake, List.length_take]
    omega
  calc (l.rtake n ++ m).rtake n
      _ = (l.take (l.length - n) ++ (l.rtake n ++ m)).drop ((l ++ m).length - n) := by
        rw [hkept, List.drop_length_add_append, List.rtake]
      _ = (l ++ m).rtake n := by rw [← hsplit, List.rtake]

/-- The first elements are those of what was kept and what came. -/
theorem take_append_take (n : Nat) (l m : List α) :
    (l.take n ++ m).take n = (l ++ m).take n := by
  rw [List.take_append, List.take_append, List.take_take, Nat.min_self, List.length_take]
  rcases Nat.le_total n l.length with hle | hle
  · rw [Nat.min_eq_left hle, Nat.sub_eq_zero_of_le hle, Nat.sub_self]
  · rw [Nat.min_eq_right hle]

/-- What is dropped of the last elements is dropped of the stream. -/
theorem drop_rtake (n k : Nat) (l : List α) :
    (l.rtake n).drop k = l.drop (l.length - n + k) := by
  rw [List.rtake, List.drop_drop]

theorem rtake_drop (n k : Nat) (l : List α) :
    (l.drop k).rtake n = l.drop (k + (l.length - k - n)) := by
  rw [List.rtake, List.drop_drop, List.length_drop]

/-- Two ends of a stream are the same when they are of the same length. -/
theorem drop_eq_drop_iff {i j : Nat} (l : List α) :
    l.drop i = l.drop j ↔ l.length - i = l.length - j := by
  constructor
  · intro h
    rw [← List.length_drop, ← List.length_drop, h]
  · intro h
    rcases Nat.lt_or_ge i l.length with hi | hi
    · obtain rfl : i = j := by omega
      rfl
    · rw [List.drop_eq_nil_of_le hi, List.drop_eq_nil_of_le (by omega)]

/-- Streams of which one continues the other agree as far as both go. -/
theorem take_eq_take_of_prefix {k : Nat} (h : l <+: m ∨ m <+: l) (hl : k ≤ l.length)
    (hm : k ≤ m.length) :
    l.take k = m.take k := by
  rcases h with ⟨t, rfl⟩ | ⟨t, rfl⟩
  · rw [List.take_append_of_le_length hl]
  · rw [List.take_append_of_le_length hm]

end Rolling
end DiploidAgent
