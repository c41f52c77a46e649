import Mathlib.Logic.Function.Basic
import Mathlib.Data.List.Nodup
import Mathlib.Tactic.Common

/-!
# In-place sweeps until nothing changes

A finite list of nodes carries labels in a map.  One sweep visits the nodes in
list order and replaces the label of each by `next` of the *current* map, so a
node sees the labels already replaced in the same sweep.  The sweep is repeated
while it changed something.

The three rules below are what a caller needs: an invariant kept by a single
visit holds of the final labels (`iterate_invariant`), the final labels are
settled (`iterate_settled`), and a measure that drops at every visit that
changes a label bounds the number of sweeps (`iterate_isSome`).
-/

namespace DiploidAgent
namespace Sweep

universe u v w

variable {ι : Type u} {κ : Type v} {L : Type w} [DecidableEq κ]

section Defs

variable (key : ι → κ) (next : (κ → L) → ι → L)

/-- Replace the label of one node. -/
def visit (m : κ → L) (x : ι) : κ → L :=
  Function.update m (key x) (next m x)

/-- The labels after one sweep. -/
def sweep : (κ → L) → List ι → (κ → L)
  | m, [] => m
  | m, x :: xs => sweep (visit key next m x) xs

/-- Whether the sweep replaces some label by a different one. -/
def changes [DecidableEq L] : (κ → L) → List ι → Bool
  | _, [] => false
  | m, x :: xs =>
      decide (next m x ≠ m (key x)) || changes (visit key next m x) xs

/-- Sweep until nothing changes; `none` when the fuel runs out first. -/
def iterate [DecidableEq L] : Nat → (κ → L) → List ι → Option (κ → L)
  | 0, _, _ => none
  | n + 1, m, xs =>
      if changes key next m xs then iterate n (sweep key next m xs) xs
      else some (sweep key next m xs)

/-- No node would get a different label. -/
def Settled (m : κ → L) (xs : List ι) : Prop :=
  ∀ x, x ∈ xs → next m x = m (key x)

end Defs

variable {key : ι → κ} {next : (κ → L) → ι → L}

theorem visit_of_next_eq
    {m : κ → L} {x : ι}
    (h : next m x = m (key x)) :
    visit key next m x = m := by
  simp [visit, h]

@[simp] theorem visit_self
    (m : κ → L) (x : ι) :
    visit key next m x (key x) = next m x := by
  simp [visit]

theorem visit_of_ne
    (m : κ → L) {x : ι} {k : κ}
    (h : k ≠ key x) :
    visit key next m x k = m k := by
  simp [visit, h]

/-- A sweep leaves the label of a key that no visited node has. -/
theorem sweep_of_notMem
    {k : κ} {xs : List ι}
    (h : ∀ x, x ∈ xs → key x ≠ k)
    (m : κ → L) :
    sweep key next m xs k = m k := by
  induction xs generalizing m with
  | nil => rfl
  | cons x xs ih =>
      have hx : k ≠ key x := fun hk => h x (by simp) hk.symm
      rw [sweep, ih (fun y hy => h y (List.mem_cons_of_mem _ hy)), visit_of_ne _ hx]

/-- What a single visit keeps, a sweep keeps. -/
theorem sweep_invariant
    {P : (κ → L) → Prop} {xs : List ι}
    (hvisit : ∀ m x, x ∈ xs → P m → P (visit key next m x))
    {m : κ → L}
    (hm : P m) :
    P (sweep key next m xs) := by
  induction xs generalizing m with
  | nil => exact hm
  | cons x xs ih =>
      exact ih (fun m' y hy => hvisit m' y (List.mem_cons_of_mem _ hy))
        (hvisit m x (by simp) hm)

/-- The rule for one sweep whose invariant also speaks of the items already
visited and of those to come; the nodes are the images of the items. -/
theorem sweep_prefix
    {τ : Type u} {f : τ → ι} {P : (κ → L) → List τ → List τ → Prop} {all : List τ}
    (hvisit : ∀ m us t vs, all = us ++ t :: vs → P m us (t :: vs) →
      P (visit key next m (f t)) (us ++ [t]) vs)
    {us vs : List τ} {m : κ → L}
    (hall : all = us ++ vs)
    (hm : P m us vs) :
    P (sweep key next m (vs.map f)) all [] := by
  induction vs generalizing us m with
  | nil =>
      rw [List.append_nil] at hall
      rw [hall]
      exact hm
  | cons t vs ih =>
      have hnext := hvisit m us t vs hall hm
      exact ih (by simpa using hall) hnext

variable [DecidableEq L]

/-- A sweep that changes nothing was settled before it. -/
theorem settled_of_changes_eq_false
    {m : κ → L} {xs : List ι}
    (h : changes key next m xs = false) :
    sweep key next m xs = m ∧ Settled key next m xs := by
  induction xs with
  | nil => exact ⟨rfl, fun _ hx => by simp at hx⟩
  | cons x xs ih =>
      simp only [changes, Bool.or_eq_false_iff, decide_eq_false_iff_not, not_not] at h
      have hv : visit key next m x = m := visit_of_next_eq h.1
      rw [hv] at h
      obtain ⟨hs, hsettled⟩ := ih h.2
      refine ⟨by rw [sweep, hv, hs], ?_⟩
      intro y hy
      rcases List.mem_cons.mp hy with rfl | hy
      · exact h.1
      · exact hsettled y hy

/-- What a single visit keeps holds of the final labels. -/
theorem iterate_invariant
    {P : (κ → L) → Prop} {xs : List ι}
    (hvisit : ∀ m x, x ∈ xs → P m → P (visit key next m x))
    {n : Nat} {m m' : κ → L}
    (hm : P m)
    (h : iterate key next n m xs = some m') :
    P m' := by
  induction n generalizing m with
  | zero => simp [iterate] at h
  | succ n ih =>
      have hsweep := sweep_invariant hvisit hm
      rw [iterate] at h
      split at h
      · exact ih hsweep h
      · obtain rfl := Option.some.inj h
        exact hsweep

/-- What the first sweep establishes and a single visit keeps holds of the final
labels. -/
theorem iterate_of_first_sweep
    {P : (κ → L) → Prop} {xs : List ι}
    (hvisit : ∀ m x, x ∈ xs → P m → P (visit key next m x))
    {n : Nat} {m m' : κ → L}
    (hfirst : P (sweep key next m xs))
    (h : iterate key next n m xs = some m') :
    P m' := by
  cases n with
  | zero => simp [iterate] at h
  | succ n =>
      rw [iterate] at h
      split at h
      · exact iterate_invariant hvisit hfirst h
      · obtain rfl := Option.some.inj h
        exact hfirst

/-- The final labels are settled. -/
theorem iterate_settled
    {n : Nat} {m m' : κ → L} {xs : List ι}
    (h : iterate key next n m xs = some m') :
    Settled key next m' xs := by
  induction n generalizing m with
  | zero => simp [iterate] at h
  | succ n ih =>
      rw [iterate] at h
      split at h
      · exact ih h
      · rename_i hc
        obtain ⟨hs, hsettled⟩ := settled_of_changes_eq_false (by simpa using hc)
        obtain rfl := Option.some.inj h
        rw [hs]
        exact hsettled

/-- More fuel does not change the result. -/
theorem iterate_mono
    {n k : Nat} {m m' : κ → L} {xs : List ι}
    (h : iterate key next n m xs = some m') :
    iterate key next (n + k) m xs = some m' := by
  induction n generalizing m with
  | zero => simp [iterate] at h
  | succ n ih =>
      rw [Nat.succ_add, iterate]
      rw [iterate] at h
      split at h
      · rename_i hc
        rw [if_pos hc]
        exact ih h
      · rename_i hc
        rw [if_neg hc]
        exact h

/-- A sweep does not raise a measure that every changing visit lowers, and
lowers it when it changes something. -/
theorem sweep_measure
    (P : (κ → L) → Prop) (μ : (κ → L) → Nat) {xs : List ι}
    (hvisit : ∀ m x, x ∈ xs → P m → P (visit key next m x))
    (hlt : ∀ m x, x ∈ xs → P m → next m x ≠ m (key x) →
      μ (visit key next m x) < μ m)
    {m : κ → L}
    (hm : P m) :
    μ (sweep key next m xs) + (if changes key next m xs then 1 else 0) ≤ μ m := by
  induction xs generalizing m with
  | nil => simp [sweep, changes]
  | cons x xs ih =>
      have hrest := ih (fun m' y hy => hvisit m' y (List.mem_cons_of_mem _ hy))
        (fun m' y hy => hlt m' y (List.mem_cons_of_mem _ hy))
        (hvisit m x (by simp) hm)
      by_cases hx : next m x = m (key x)
      · rw [visit_of_next_eq hx] at hrest
        simpa [sweep, changes, hx, visit_of_next_eq hx] using hrest
      · have hdrop := hlt m x (by simp) hm hx
        have hle : μ (sweep key next (visit key next m x) xs) ≤
            μ (visit key next m x) := Nat.le_trans (Nat.le_add_right _ _) hrest
        simp only [sweep, changes, ne_eq, hx, not_false_eq_true, decide_true,
          Bool.true_or, if_true]
        omega

/-- A measure that drops at every visit that changes a label bounds the number
of sweeps. -/
theorem iterate_isSome
    (P : (κ → L) → Prop) (μ : (κ → L) → Nat) {xs : List ι}
    (hvisit : ∀ m x, x ∈ xs → P m → P (visit key next m x))
    (hlt : ∀ m x, x ∈ xs → P m → next m x ≠ m (key x) →
      μ (visit key next m x) < μ m)
    {n : Nat} {m : κ → L}
    (hm : P m)
    (hn : μ m < n) :
    ∃ m', iterate key next n m xs = some m' := by
  induction n generalizing m with
  | zero => omega
  | succ n ih =>
      have hdrop := sweep_measure P μ hvisit hlt hm
      rw [iterate]
      by_cases hc : changes key next m xs = true
      · rw [if_pos hc]
        rw [if_pos hc] at hdrop
        exact ih (sweep_invariant hvisit hm) (by omega)
      · rw [if_neg hc]
        exact ⟨_, rfl⟩

end Sweep
end DiploidAgent
