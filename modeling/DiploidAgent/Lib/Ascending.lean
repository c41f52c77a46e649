import Mathlib.Data.List.Basic
import Mathlib.Tactic.Common

/-!
# Stretches of an ascending log

A log of ascending numbers is read from a position on.  What stands behind the position is
a filter of the log; these rules say what comes next and how the stretch already read grows.
-/

namespace DiploidAgent
namespace Ascending

variable {log : List Nat} {c r : Nat} {t : List Nat}

/-- The rest of an ascending log from `c` on begins with `r`: nothing lies between. -/
theorem lt_of_filter_eq_cons
    (hlog : log.Pairwise (· < ·))
    (h : log.filter (c ≤ ·) = r :: t) {id : Nat} (hid : id ∈ log) (hlt : id < r) :
    id < c := by
  by_contra hge
  have hmem : id ∈ log.filter (c ≤ ·) :=
    List.mem_filter.mpr ⟨hid, decide_eq_true (Nat.le_of_not_lt hge)⟩
  have hsorted := hlog.filter (c ≤ ·)
  rw [h] at hmem hsorted
  rcases List.mem_cons.mp hmem with rfl | htail
  · exact Nat.lt_irrefl _ hlt
  · exact Nat.lt_asymm hlt ((List.pairwise_cons.mp hsorted).1 id htail)

theorem head_of_filter_eq_cons
    (h : log.filter (c ≤ ·) = r :: t) :
    r ∈ log ∧ c ≤ r := by
  have hmem : r ∈ log.filter (c ≤ ·) := by
    rw [h]
    exact List.mem_cons_self
  have hboth := List.mem_filter.mp hmem
  exact ⟨hboth.1, of_decide_eq_true hboth.2⟩

/-- Behind its first element the rest goes on from there. -/
theorem filter_succ
    (hlog : log.Pairwise (· < ·))
    (h : log.filter (c ≤ ·) = r :: t) :
    log.filter (r + 1 ≤ ·) = t := by
  have hsorted := hlog.filter (c ≤ ·)
  have hcr := (head_of_filter_eq_cons h).2
  have htwice : log.filter (r + 1 ≤ ·) = (log.filter (c ≤ ·)).filter (r + 1 ≤ ·) := by
    rw [List.filter_filter]
    refine List.filter_congr fun id _ => ?_
    rw [← Bool.decide_and]
    exact decide_eq_decide.mpr ⟨fun hle => ⟨hle, by omega⟩, And.left⟩
  rw [h] at hsorted htwice
  rw [htwice, List.filter_cons_of_neg (by simp), List.filter_eq_self]
  intro id hid
  exact decide_eq_true ((List.pairwise_cons.mp hsorted).1 id hid)

/-- A stretch of an ascending log grows by the next element. -/
theorem filter_between_succ
    (hlog : log.Pairwise (· < ·))
    (h : log.filter (c ≤ ·) = r :: t) {base : Nat} (hbase : base ≤ c) :
    log.filter (fun id => base ≤ id && id < r + 1) =
      log.filter (fun id => base ≤ id && id < c) ++ [r] := by
  induction log with
  | nil => cases h
  | cons x log ih =>
      rw [List.pairwise_cons] at hlog
      by_cases hx : c ≤ x
      · have hkeep : (x :: log).filter (c ≤ ·) = x :: log.filter (c ≤ ·) :=
          List.filter_cons_of_pos (by simpa using hx)
        obtain ⟨rfl, rfl⟩ := List.cons.inj (hkeep.symm.trans h)
        -- behind the first element from `c` on all are larger than it
        have hnone : ∀ b, b ≤ x + 1 → log.filter (fun id => base ≤ id && id < b) = [] := by
          intro b hb
          rw [List.filter_eq_nil_iff]
          intro id hid
          have hlt := hlog.1 id hid
          simp only [Bool.and_eq_true, decide_eq_true_eq, not_and]
          omega
        rw [List.filter_cons_of_pos, List.filter_cons_of_neg, hnone _ (Nat.le_refl _),
          hnone c (by omega)]
        · rfl
        · simp only [Bool.and_eq_true, decide_eq_true_eq, not_and]
          omega
        · simp only [Bool.and_eq_true, decide_eq_true_eq]
          omega
      · have hdrop : (x :: log).filter (c ≤ ·) = log.filter (c ≤ ·) :=
          List.filter_cons_of_neg (by simpa using hx)
        rw [hdrop] at h
        have hr : r ∈ log := (head_of_filter_eq_cons h).1
        have hxr := hlog.1 r hr
        have hrest := ih hlog.2 h
        by_cases hbx : base ≤ x
        · rw [List.filter_cons_of_pos, List.filter_cons_of_pos, hrest, List.cons_append]
          · simp only [Bool.and_eq_true, decide_eq_true_eq]
            omega
          · simp only [Bool.and_eq_true, decide_eq_true_eq]
            omega
        · rw [List.filter_cons_of_neg, List.filter_cons_of_neg, hrest]
          · simp only [Bool.and_eq_true, decide_eq_true_eq, not_and]
            omega
          · simp only [Bool.and_eq_true, decide_eq_true_eq, not_and]
            omega

end Ascending
end DiploidAgent
