import Mathlib.Data.List.Nodup
import Mathlib.Data.List.Sort
import Mathlib.Tactic.Common

/-!
# Keeping the newest entries of a list

A list is ranked by a key, oldest first, entries of one age in their old order,
and all but the last `cap` of the ranking are given up.  The ranking is the
stable merge sort of the core library.

`mem_newest_iff` says which entries survive without mentioning the sort: those
with fewer than `cap` others ranked after them.
-/

namespace DiploidAgent
namespace Retention

universe u v

variable {α : Type u} {κ : Type v} [LinearOrder κ]

section Defs

variable (key : α → κ) (cap : Nat)

/-- The entries oldest first; those of one age keep their order. -/
def byAge (l : List α) : List α := l.mergeSort fun a b => decide (key a ≤ key b)

/-- What is given up of the list. -/
def surplus (l : List α) : List α := (byAge key l).take (l.length - cap)

/-- What is kept of the list. -/
def newest (l : List α) : List α := (byAge key l).drop (l.length - cap)

/-- How many entries are ranked after `d`: the newer ones, and those of its age
that stand behind it. -/
def rankedAfter [DecidableEq α] (d : α) : List α → Nat
  | [] => 0
  | a :: l =>
      if a = d then l.countP fun b => key d ≤ key b
      else rankedAfter d l + if key d < key a then 1 else 0

end Defs

section Ranking

variable {key : α → κ} {cap : Nat} {l : List α} {a b d : α}

theorem perm_byAge (key : α → κ) (l : List α) :
    (byAge key l).Perm l :=
  List.mergeSort_perm l _

@[simp] theorem mem_byAge (key : α → κ) :
    a ∈ byAge key l ↔ a ∈ l :=
  (perm_byAge key l).mem_iff

@[simp] theorem length_byAge (key : α → κ) (l : List α) :
    (byAge key l).length = l.length :=
  (perm_byAge key l).length_eq

theorem le_trans_key (a b c : α)
    (hab : decide (key a ≤ key b) = true) (hbc : decide (key b ≤ key c) = true) :
    decide (key a ≤ key c) = true := by
  rw [decide_eq_true_eq] at *
  exact hab.trans hbc

theorem le_total_key (a b : α) :
    (decide (key a ≤ key b) || decide (key b ≤ key a)) = true := by
  simpa using le_total (key a) (key b)

theorem pairwise_byAge (key : α → κ) (l : List α) :
    (byAge key l).Pairwise fun a b => key a ≤ key b := by
  have h : (byAge key l).Pairwise fun a b => decide (key a ≤ key b) = true :=
    List.pairwise_mergeSort le_trans_key le_total_key l
  exact h.imp fun hle => by simpa using hle

/-- Two entries in the order of their age keep it. -/
theorem pair_byAge
    (hle : key a ≤ key b) (h : [a, b].Sublist l) :
    [a, b].Sublist (byAge key l) :=
  List.pair_sublist_mergeSort le_trans_key le_total_key (by simpa using hle) h

theorem surplus_append_newest (key : α → κ) (cap : Nat) (l : List α) :
    surplus key cap l ++ newest key cap l = byAge key l :=
  List.take_append_drop _ _

theorem length_newest_le :
    (newest key cap l).length ≤ cap := by
  rw [newest, List.length_drop, length_byAge]
  omega

theorem mem_surplus_or_newest :
    a ∈ l ↔ a ∈ surplus key cap l ∨ a ∈ newest key cap l := by
  rw [← List.mem_append, surplus_append_newest, mem_byAge]

theorem mem_newest_of_length_le
    (hcap : l.length ≤ cap) (ha : a ∈ l) :
    a ∈ newest key cap l := by
  rw [newest, Nat.sub_eq_zero_of_le hcap, List.drop_zero, mem_byAge]
  exact ha

/-- Nothing given up is newer than anything kept. -/
theorem key_le_of_surplus
    (ha : a ∈ surplus key cap l) (hb : b ∈ newest key cap l) :
    key a ≤ key b := by
  have h := pairwise_byAge key l
  rw [← surplus_append_newest key cap l, List.pairwise_append] at h
  exact h.2.2 a ha b hb

/-- In a list without repetitions no entry is both given up and kept. -/
theorem disjoint_surplus_newest
    (hnd : l.Nodup) :
    List.Disjoint (surplus key cap l) (newest key cap l) := by
  have h : (byAge key l).Nodup := (perm_byAge key _).nodup_iff.mpr hnd
  rw [← surplus_append_newest key cap l] at h
  exact List.disjoint_of_nodup_append h

variable {pre post before after : List α}

/-- The second of a pair in a list stands behind the first. -/
theorem mem_after_of_pair
    (hd : d ∉ before) (h : [d, b].Sublist (before ++ d :: after)) :
    b ∈ after := by
  induction before with
  | nil =>
      rw [List.nil_append, List.cons_sublist_cons, List.singleton_sublist] at h
      exact h
  | cons a before ih =>
      rw [List.mem_cons, not_or] at hd
      exact ih hd.2 (h.of_cons_of_ne hd.1)

/-- The first of a pair in a list stands in front of the second. -/
theorem mem_before_of_pair
    (hd : d ∉ after) (hne : b ≠ d) (h : [b, d].Sublist (before ++ d :: after)) :
    b ∈ before := by
  induction before with
  | nil =>
      have hrest : [b, d].Sublist after := h.of_cons_of_ne hne
      exact absurd (hrest.subset (by simp)) hd
  | cons a before ih =>
      by_cases hba : b = a
      · exact hba ▸ List.mem_cons_self
      · exact List.mem_cons_of_mem _ (ih (h.of_cons_of_ne hba))

/-- What the ranking puts behind `d`. -/
theorem perm_after
    (hnd : (pre ++ d :: post).Nodup)
    (hsort : byAge key (pre ++ d :: post) = before ++ d :: after) :
    after.Perm ((pre.filter fun b => key d < key b) ++ post.filter fun b => key d ≤ key b) := by
  have hsorted := pairwise_byAge key (pre ++ d :: post)
  have hndSort : (byAge key (pre ++ d :: post)).Nodup := (perm_byAge key _).nodup_iff.mpr hnd
  have hmem : ∀ b, b ∈ before ++ d :: after ↔ b ∈ pre ++ d :: post := by
    intro b
    rw [← hsort, mem_byAge]
  have hpair : ∀ x y, key x ≤ key y → [x, y].Sublist (pre ++ d :: post) →
      [x, y].Sublist (before ++ d :: after) := fun x y hle hsub => hsort ▸ pair_byAge hle hsub
  rw [hsort] at hsorted hndSort
  obtain ⟨-, hndTail, hapart⟩ := List.nodup_append'.mp hndSort
  obtain ⟨hdAfter, hndAfter⟩ := List.nodup_cons.mp hndTail
  have hdBefore : d ∉ before := fun h => hapart h List.mem_cons_self
  obtain ⟨hndPre, hndPost, hdisj⟩ := List.nodup_append'.mp hnd
  obtain ⟨hdPost, hndPost⟩ := List.nodup_cons.mp hndPost
  have hdPre : d ∉ pre := fun h => hdisj h List.mem_cons_self
  obtain ⟨-, htail, hbefore⟩ := List.pairwise_append.mp hsorted
  have hafter := (List.pairwise_cons.mp htail).1
  have hndTwo : ((pre.filter fun b => key d < key b) ++
      post.filter fun b => key d ≤ key b).Nodup := by
    refine List.nodup_append'.mpr ⟨hndPre.filter _, hndPost.filter _, ?_⟩
    intro b hb hb'
    exact hdisj (List.mem_of_mem_filter hb) (List.mem_cons_of_mem _ (List.mem_of_mem_filter hb'))
  refine (List.perm_ext_iff_of_nodup hndAfter hndTwo).mpr fun b => ?_
  rw [List.mem_append, List.mem_filter, List.mem_filter, decide_eq_true_eq, decide_eq_true_eq]
  constructor
  · intro hb
    have hle : key d ≤ key b := hafter b hb
    have hne : b ≠ d := fun h => hdAfter (h ▸ hb)
    have hin : b ∈ pre ++ d :: post :=
      (hmem b).mp (List.mem_append_right _ (List.mem_cons_of_mem _ hb))
    rcases List.mem_append.mp hin with hpre | hpost
    · refine Or.inl ⟨hpre, lt_of_not_ge fun hge => ?_⟩
      -- an entry of the same age in front of `d` stays in front
      have hsub : [b, d].Sublist (pre ++ d :: post) :=
        (List.singleton_sublist.mpr hpre).append (List.singleton_sublist.mpr List.mem_cons_self)
      have hfront := mem_before_of_pair hdAfter hne (hpair b d hge hsub)
      exact hapart hfront (List.mem_cons_of_mem _ hb)
    · exact Or.inr ⟨(List.mem_cons.mp hpost).resolve_left hne, hle⟩
  · rintro (⟨hpre, hlt⟩ | ⟨hpost, hle⟩)
    · have hin := (hmem b).mpr (List.mem_append_left _ hpre)
      rcases List.mem_append.mp hin with hfront | hrest
      · exact absurd (hbefore b hfront d List.mem_cons_self) (not_le_of_gt hlt)
      · exact (List.mem_cons.mp hrest).resolve_left fun h => hdPre (h ▸ hpre)
    · have hsub : [d, b].Sublist (pre ++ d :: post) :=
        List.sublist_append_of_sublist_right
          (List.cons_sublist_cons.mpr (List.singleton_sublist.mpr hpost))
      exact mem_after_of_pair hdBefore (hpair d b hle hsub)

variable [DecidableEq α]

/-- The rank counts the newer entries in front of `d` and those at least as new
behind it. -/
theorem rankedAfter_split
    (hpre : d ∉ pre) :
    rankedAfter key d (pre ++ d :: post) =
      (pre.filter fun b => key d < key b).length +
        (post.filter fun b => key d ≤ key b).length := by
  induction pre with
  | nil => simp [rankedAfter, List.countP_eq_length_filter]
  | cons a pre ih =>
      rw [List.mem_cons, not_or] at hpre
      rw [List.cons_append, rankedAfter, if_neg (Ne.symm hpre.1), ih hpre.2]
      by_cases hnewer : key d < key a
      · rw [if_pos hnewer, List.filter_cons_of_pos (by simpa using hnewer), List.length_cons]
        omega
      · rw [if_neg hnewer, List.filter_cons_of_neg (by simpa using hnewer)]
        rfl

/-- An entry is kept exactly when fewer than `cap` others are ranked after it. -/
theorem mem_newest_iff
    (hnd : l.Nodup) (hd : d ∈ l) :
    d ∈ newest key cap l ↔ rankedAfter key d l < cap := by
  obtain ⟨pre, post, rfl⟩ := List.append_of_mem hd
  obtain ⟨before, after, hsort⟩ := List.append_of_mem ((mem_byAge key).mpr hd)
  have hpre : d ∉ pre := fun h => (List.nodup_append'.mp hnd).2.2 h List.mem_cons_self
  have hrank : rankedAfter key d (pre ++ d :: post) = after.length := by
    rw [rankedAfter_split hpre, (perm_after hnd hsort).length_eq, List.length_append]
  have hlen : (pre ++ d :: post).length = before.length + after.length + 1 := by
    rw [← length_byAge key, hsort, List.length_append, List.length_cons]
    omega
  have hndSort : (before ++ d :: after).Nodup := hsort ▸ (perm_byAge key _).nodup_iff.mpr hnd
  have hbefore : d ∉ before := fun h => (List.nodup_append'.mp hndSort).2.2 h List.mem_cons_self
  have hafter : d ∉ after := (List.nodup_cons.mp (List.nodup_append'.mp hndSort).2.1).1
  rw [newest, hsort, hlen, hrank]
  by_cases hle : before.length + after.length + 1 - cap ≤ before.length
  · rw [List.drop_append_of_le_length hle]
    refine iff_of_true (List.mem_append_right _ List.mem_cons_self) ?_
    omega
  · refine iff_of_false (fun h => hafter ?_) (by omega)
    rw [List.drop_append, List.drop_eq_nil_of_le (by omega), List.nil_append] at h
    obtain ⟨k, hk⟩ : ∃ k, before.length + after.length + 1 - cap - before.length = k + 1 :=
      ⟨before.length + after.length - cap - before.length, by omega⟩
    rw [hk, List.drop_succ_cons] at h
    exact List.mem_of_mem_drop h

end Ranking

end Retention
end DiploidAgent
