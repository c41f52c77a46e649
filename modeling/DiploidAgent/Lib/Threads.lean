import Mathlib.Algebra.BigOperators.Group.List.Basic
import Mathlib.Algebra.Order.Ring.Int
import Mathlib.Tactic.Common

/-!
# Tables of threads

Threads are numbered in the order they are created in and never leave the table, so a
table is a list.  A step of a thread replaces its entry, and a new thread is appended.
Every thread has a rank, the number of steps it has left at most; the rules say how the
sum of the ranks changes.
-/

namespace DiploidAgent
namespace Threads

universe u v

variable {τ : Type u} {β : Type v} {ts : List τ} {t u : τ} {i j : Nat}

/-- What is in the table after the entry of a thread was replaced. -/
theorem of_getElem?_set
    (h : (ts.set i t)[j]? = some u) :
    (j = i ∧ u = t) ∨ (j ≠ i ∧ ts[j]? = some u) := by
  rcases eq_or_ne j i with rfl | hij
  · have hlt : j < ts.length := by
      have hlen := (List.getElem?_eq_some_iff.mp h).1
      rwa [List.length_set] at hlen
    rw [List.getElem?_set_self hlt] at h
    exact Or.inl ⟨rfl, (Option.some.inj h).symm⟩
  · rw [List.getElem?_set_ne hij.symm] at h
    exact Or.inr ⟨hij, h⟩

theorem getElem?_set_of_some
    (h : ts[i]? = some u) :
    (ts.set i t)[i]? = some t :=
  List.getElem?_set_self (List.getElem?_eq_some_iff.mp h).1

/-- What is in the table after a thread was created. -/
theorem of_getElem?_concat
    (h : (ts ++ [t])[j]? = some u) :
    (j = ts.length ∧ u = t) ∨ (j < ts.length ∧ ts[j]? = some u) := by
  rcases Nat.lt_trichotomy j ts.length with hlt | rfl | hgt
  · rw [List.getElem?_append_left hlt] at h
    exact Or.inr ⟨hlt, h⟩
  · rw [List.getElem?_concat_length] at h
    exact Or.inl ⟨rfl, (Option.some.inj h).symm⟩
  · have hlen := (List.getElem?_eq_some_iff.mp h).1
    rw [List.length_append, List.length_singleton] at hlen
    omega

theorem getElem?_concat_of_some
    (h : ts[j]? = some u) :
    (ts ++ [t])[j]? = some u := by
  rw [List.getElem?_append_left (List.getElem?_eq_some_iff.mp h).1]
  exact h

/-- The steps the threads of a table have left at most. -/
def left (rank : τ → Nat) (ts : List τ) : Nat := (ts.map rank).sum

theorem left_set
    (rank : τ → Nat)
    (h : ts[i]? = some u) :
    left rank (ts.set i t) + rank u = left rank ts + rank t := by
  induction ts generalizing i with
  | nil => cases h
  | cons x ts ih =>
      unfold left at ih ⊢
      cases i with
      | zero =>
          obtain rfl : x = u := Option.some.inj h
          simp only [List.set_cons_zero, List.map_cons, List.sum_cons]
          omega
      | succ i =>
          have hrest := ih (i := i) h
          simp only [List.set_cons_succ, List.map_cons, List.sum_cons]
          omega

theorem left_concat
    (rank : τ → Nat) (ts : List τ) (t : τ) :
    left rank (ts ++ [t]) = left rank ts + rank t := by
  simp [left]

/-- What the threads of a table hold, when one of them holds something else. -/
theorem flatMap_set
    (held : τ → List β)
    (h : ts[i]? = some u) :
    ((ts.set i t).flatMap held ++ held u).Perm (ts.flatMap held ++ held t) := by
  induction ts generalizing i with
  | nil => cases h
  | cons x ts ih =>
      cases i with
      | zero =>
          obtain rfl : x = u := Option.some.inj h
          simp only [List.set_cons_zero, List.flatMap_cons, List.append_assoc]
          have hswap : (ts.flatMap held ++ held x).Perm (held x ++ ts.flatMap held) :=
            List.perm_append_comm
          have hback : (ts.flatMap held ++ held t).Perm (held t ++ ts.flatMap held) :=
            List.perm_append_comm
          refine (List.Perm.append_left _ hswap).trans ?_
          rw [← List.append_assoc]
          refine (List.Perm.append_right _ List.perm_append_comm).trans ?_
          rw [List.append_assoc]
          exact List.Perm.append_left _ hback.symm
      | succ i =>
          simp only [List.set_cons_succ, List.flatMap_cons, List.append_assoc]
          exact List.Perm.append_left _ (ih h)

end Threads
end DiploidAgent
