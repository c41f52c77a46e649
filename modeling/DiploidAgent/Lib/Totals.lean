import DiploidAgent.Lib.Dict
import Mathlib.Algebra.Order.BigOperators.Group.List
import Mathlib.Algebra.Order.Ring.Int

/-!
# Totals over a dictionary

Every value of a dictionary has a weight.  The rules say how the total of the weights
changes when an entry is assigned, removed, filtered out or rewritten.  A count is the
total of the weights 0 and 1.  The total of a list is the sum of its totals by keys.
-/

namespace DiploidAgent

universe u v

section Entries

variable {κ : Type u} {ν : Type v} {w : ν → Int}

def entriesTotal (w : ν → Int) (l : List (κ × ν)) : Int :=
  (l.map fun e => w e.2).sum

theorem entriesTotal_cons
    (e : κ × ν) (l : List (κ × ν)) :
    entriesTotal w (e :: l) = w e.2 + entriesTotal w l :=
  List.sum_cons

theorem entriesTotal_filter_add
    (p : κ × ν → Bool) (l : List (κ × ν)) :
    entriesTotal w (l.filter p) + entriesTotal w (l.filter fun e => !p e) = entriesTotal w l := by
  induction l with
  | nil => rfl
  | cons e l ih =>
      cases hp : p e with
      | true =>
          rw [List.filter_cons_of_pos hp, List.filter_cons_of_neg (by simp [hp]),
            entriesTotal_cons, entriesTotal_cons]
          omega
      | false =>
          rw [List.filter_cons_of_neg (by simp [hp]), List.filter_cons_of_pos (by simp [hp]),
            entriesTotal_cons, entriesTotal_cons]
          omega

theorem entriesTotal_nonneg
    {l : List (κ × ν)}
    (h : ∀ e ∈ l, 0 ≤ w e.2) :
    0 ≤ entriesTotal w l := by
  refine List.sum_nonneg fun x hx => ?_
  obtain ⟨e, he, rfl⟩ := List.mem_map.mp hx
  exact h e he

theorem entriesTotal_nonpos
    {l : List (κ × ν)}
    (h : ∀ e ∈ l, w e.2 ≤ 0) :
    entriesTotal w l ≤ 0 := by
  induction l with
  | nil => exact le_rfl
  | cons e l ih =>
      obtain ⟨hhead, hrest⟩ := List.forall_mem_cons.mp h
      have htail := ih hrest
      rw [entriesTotal_cons]
      omega

variable [DecidableEq κ]

/-- The value that was assigned before is taken out of the total. -/
theorem entriesTotal_putEntry
    (k : κ) (v : ν) (l : List (κ × ν)) :
    entriesTotal w (putEntry k v l) + (lookupEntry k l).elim 0 w = entriesTotal w l + w v := by
  induction l with
  | nil => simp [putEntry, lookupEntry, entriesTotal]
  | cons e l ih =>
      by_cases hk : e.1 = k
      · rw [putEntry, lookupEntry, if_pos hk, if_pos hk, entriesTotal_cons, entriesTotal_cons,
          Option.elim_some]
        dsimp only
        omega
      · rw [putEntry, lookupEntry, if_neg hk, if_neg hk, entriesTotal_cons, entriesTotal_cons]
        omega

theorem entriesTotal_filter_ne
    (k : κ) {l : List (κ × ν)}
    (hnd : (l.map Prod.fst).Nodup) :
    entriesTotal w (l.filter fun e => e.1 != k) + (lookupEntry k l).elim 0 w =
      entriesTotal w l := by
  induction l with
  | nil => simp [lookupEntry, entriesTotal]
  | cons e l ih =>
      rw [List.map_cons, List.nodup_cons] at hnd
      have hrest := ih hnd.2
      by_cases hk : e.1 = k
      · have hnone : lookupEntry k l = none := by
          rw [lookupEntry_eq_none_iff, ← hk]
          exact hnd.1
        rw [hnone, Option.elim_none, add_zero] at hrest
        rw [List.filter_cons_of_neg (by simp [hk]), lookupEntry, if_pos hk, entriesTotal_cons,
          Option.elim_some, hrest]
        omega
      · rw [List.filter_cons_of_pos (by simp [hk]), lookupEntry, if_neg hk, entriesTotal_cons,
          entriesTotal_cons]
        omega

end Entries

section Fibers

variable {α : Type u} {κ : Type v} {M : Type*} [DecidableEq κ] [AddCommMonoid M]

/-- The total by keys, of a list whose elements all have one of the keys. -/
theorem sum_fibers
    {keys : List κ}
    (hnd : keys.Nodup)
    (key : α → κ)
    (w : α → M)
    {l : List α}
    (h : ∀ a ∈ l, key a ∈ keys) :
    (keys.map fun k => ((l.filter fun a => key a = k).map w).sum).sum = (l.map w).sum := by
  induction l with
  | nil => simp
  | cons a l ih =>
      obtain ⟨hhead, hrest⟩ := List.forall_mem_cons.mp h
      have hone : ∀ k, (((a :: l).filter fun a => key a = k).map w).sum =
          (if k = key a then w a else 0) + ((l.filter fun a => key a = k).map w).sum := by
        intro k
        by_cases hk : key a = k
        · rw [List.filter_cons_of_pos (by simp [hk]), List.map_cons, List.sum_cons,
            if_pos hk.symm]
        · rw [List.filter_cons_of_neg (by simp [hk]), if_neg (fun h => hk h.symm), zero_add]
      have hadd : (keys.map fun k => if k = key a then w a else 0).sum = w a := by
        rw [List.sum_map_eq_nsmul_single (key a) _ (fun k hk _ => if_neg hk),
          List.count_eq_one_of_mem hnd hhead, one_nsmul, if_pos rfl]
      simp only [hone]
      rw [List.sum_map_add, hadd, ih hrest, List.map_cons, List.sum_cons]

end Fibers

namespace Dict

variable {κ : Type u} {ν : Type v} {w : ν → Int} {d : Dict κ ν}

/-- The sum of the weights of the values. -/
def total (w : ν → Int) (d : Dict κ ν) : Int := entriesTotal w d.entries

theorem total_mapValues
    {f : κ → ν → ν}
    (h : ∀ k v, w (f k v) = w v) :
    total w (d.mapValues f) = total w d := by
  unfold total entriesTotal mapValues
  rw [List.map_map]
  exact congrArg List.sum (List.map_congr_left fun e _ => h e.1 e.2)

/-- The sum over the chosen values is a total. -/
theorem total_select
    (p : ν → Bool) (f : ν → Int) :
    total (fun v => if p v then f v else 0) d = ((d.values.filter p).map f).sum := by
  unfold total values
  induction d.entries with
  | nil => rfl
  | cons e l ih =>
      rw [entriesTotal_cons, ih, List.map_cons]
      cases hp : p e.2 with
      | true =>
          rw [if_pos rfl, List.filter_cons_of_pos hp, List.map_cons, List.sum_cons]
      | false =>
          rw [if_neg Bool.false_ne_true, List.filter_cons_of_neg (by simp [hp]), zero_add]

/-- The number of the chosen values is a total. -/
theorem total_count
    (p : ν → Bool) :
    total (fun v => if p v then 1 else 0) d = ((d.values.filter p).length : Int) := by
  rw [total_select, List.map_const', List.sum_replicate]
  simp

variable [DecidableEq κ]

theorem total_set
    (k : κ) (v : ν) :
    total w (d.set k v) + (d.get k).elim 0 w = total w d + w v :=
  entriesTotal_putEntry k v d.entries

theorem total_erase
    (k : κ) :
    total w (d.erase k) + (d.get k).elim 0 w = total w d :=
  entriesTotal_filter_ne k d.nodup_keys

/-- Filtering out entries of nonnegative weight. -/
theorem total_filter_le
    (p : κ × ν → Bool)
    (h : ∀ k v, d.get k = some v → p (k, v) = false → 0 ≤ w v) :
    total w (d.filter p) ≤ total w d := by
  have hsplit : total w (d.filter p) + entriesTotal w (d.entries.filter fun e => !p e) =
      total w d := entriesTotal_filter_add p d.entries
  have hrest : 0 ≤ entriesTotal w (d.entries.filter fun e => !p e) := by
    refine entriesTotal_nonneg fun e he => ?_
    obtain ⟨hmem, hout⟩ := List.mem_filter.mp he
    exact h e.1 e.2 ((d.get_eq_some_iff e.1 e.2).mpr hmem) (by simpa using hout)
  omega

/-- Filtering out entries whose weight is not positive. -/
theorem le_total_filter
    (p : κ × ν → Bool)
    (h : ∀ k v, d.get k = some v → p (k, v) = false → w v ≤ 0) :
    total w d ≤ total w (d.filter p) := by
  have hsplit : total w (d.filter p) + entriesTotal w (d.entries.filter fun e => !p e) =
      total w d := entriesTotal_filter_add p d.entries
  have hrest : entriesTotal w (d.entries.filter fun e => !p e) ≤ 0 := by
    refine entriesTotal_nonpos fun e he => ?_
    obtain ⟨hmem, hout⟩ := List.mem_filter.mp he
    exact h e.1 e.2 ((d.get_eq_some_iff e.1 e.2).mpr hmem) (by simpa using hout)
  omega

theorem total_eq_zero
    (h : ∀ k v, d.get k = some v → w v = 0) :
    total w d = 0 := by
  refine List.sum_eq_zero fun x hx => ?_
  obtain ⟨e, he, rfl⟩ := List.mem_map.mp hx
  exact h e.1 e.2 ((d.get_eq_some_iff e.1 e.2).mpr he)

end Dict

end DiploidAgent
