import Mathlib.Data.List.Infix
import Mathlib.Tactic.Common

/-!
# Occurrences of a word

The positions where a word stands in a list.  A search from left to right goes on behind
what it has found; of a word that cannot overlap itself it finds every occurrence.
-/

namespace DiploidAgent
namespace Occurrences

universe u

variable {α : Type u}

/-- The word stands at a position. -/
def At (w l : List α) (i : Nat) : Prop := w <+: l.drop i

/-- The word stands there, and nowhere behind. -/
def LastAt (w l : List α) (i : Nat) : Prop := At w l i ∧ ∀ j, At w l j → j ≤ i

/-- Two occurrences never overlap. -/
def Unbordered (w : List α) : Prop := ∀ k, 0 < k → k < w.length → ¬ w.drop k <+: w

instance [DecidableEq α] (w l : List α) (i : Nat) : Decidable (At w l i) :=
  inferInstanceAs (Decidable (w <+: l.drop i))

section Positions

variable {w l : List α} {i j : Nat}

@[simp] theorem at_cons_succ {a : α} : At w (a :: l) (i + 1) ↔ At w l i := Iff.rfl

theorem at_nil (h : w ≠ []) : ¬ At w [] i := by
  intro hat
  rw [At, List.drop_nil] at hat
  exact h (List.prefix_nil.mp hat)

theorem At.le (hne : w ≠ []) (h : At w l i) : i + w.length ≤ l.length := by
  have hlen : w.length ≤ l.length - i := by
    simpa only [List.length_drop] using h.length_le
  have hpos : 0 < w.length := List.length_pos_iff.mpr hne
  omega

/-- Of two occurrences the second starts behind the first one. -/
theorem At.add_le (hw : Unbordered w) (hi : At w l i) (hj : At w l j) (hlt : i < j) :
    i + w.length ≤ j := by
  by_contra hover
  refine hw (j - i) (by omega) (by omega) ?_
  have hshort : w.drop (j - i) <+: l.drop j := by
    obtain ⟨rest, hrest⟩ := hi
    refine ⟨rest, ?_⟩
    have hdrop := congrArg (List.drop (j - i)) hrest
    rw [List.drop_append_of_le_length (by omega), List.drop_drop] at hdrop
    rw [hdrop]
    congr 1
    omega
  exact List.prefix_of_prefix_length_le hshort hj (by simp)

theorem LastAt.eq (hi : LastAt w l i) (hj : LastAt w l j) : i = j :=
  Nat.le_antisymm (hj.2 i hi.1) (hi.2 j hj.1)

end Positions

/-! ### The search -/

variable [DecidableEq α]

/-- The occurrences that a search finds; `skip` elements belong to the one before. -/
def findFrom (w : List α) : Nat → Nat → List α → List Nat
  | _, _, [] => []
  | skip + 1, i, _ :: l => findFrom w skip (i + 1) l
  | 0, i, a :: l =>
      if w.isPrefixOf (a :: l) then i :: findFrom w (w.length - 1) (i + 1) l
      else findFrom w 0 (i + 1) l

/-- `re.finditer` of a word. -/
def finditer (w l : List α) : List Nat := findFrom w 0 0 l

variable {w : List α}

/-- The search finds the occurrences behind what is skipped. -/
theorem mem_findFrom (hne : w ≠ []) (hw : Unbordered w) (l : List α) (skip i j : Nat)
    (hskip : ∀ k, At w l k → skip ≤ k) :
    j ∈ findFrom w skip i l ↔ ∃ k, At w l k ∧ j = i + k := by
  induction l generalizing skip i with
  | nil =>
      refine ⟨fun h => ?_, fun ⟨k, hk, _⟩ => absurd hk (at_nil hne)⟩
      cases skip <;> cases h
  | cons a l ih =>
      cases skip with
      | succ skip =>
          have hrest : ∀ k, At w l k → skip ≤ k := fun k hk =>
            Nat.le_of_succ_le_succ (hskip (k + 1) hk)
          rw [findFrom, ih skip (i + 1) hrest]
          constructor
          · rintro ⟨k, hk, rfl⟩
            exact ⟨k + 1, hk, by omega⟩
          · rintro ⟨k, hk, rfl⟩
            cases k with
            | zero => exact absurd (hskip 0 hk) (by omega)
            | succ k => exact ⟨k, hk, by omega⟩
      | zero =>
          rw [findFrom]
          split
          next hhead =>
            have hzero : At w (a :: l) 0 := List.isPrefixOf_iff_prefix.mp hhead
            have hrest : ∀ k, At w l k → w.length - 1 ≤ k := fun k hk => by
              have hbehind := hzero.add_le hw (j := k + 1) hk (Nat.succ_pos k)
              omega
            rw [List.mem_cons, ih (w.length - 1) (i + 1) hrest]
            constructor
            · rintro (rfl | ⟨k, hk, rfl⟩)
              · exact ⟨0, hzero, rfl⟩
              · exact ⟨k + 1, hk, by omega⟩
            · rintro ⟨k, hk, rfl⟩
              cases k with
              | zero => exact Or.inl rfl
              | succ k => exact Or.inr ⟨k, hk, by omega⟩
          next hhead =>
            rw [ih 0 (i + 1) fun k _ => Nat.zero_le k]
            constructor
            · rintro ⟨k, hk, rfl⟩
              exact ⟨k + 1, hk, by omega⟩
            · rintro ⟨k, hk, rfl⟩
              cases k with
              | zero => exact absurd (List.isPrefixOf_iff_prefix.mpr hk) hhead
              | succ k => exact ⟨k, hk, by omega⟩

theorem mem_finditer (hne : w ≠ []) (hw : Unbordered w) {l : List α} {j : Nat} :
    j ∈ finditer w l ↔ At w l j := by
  rw [finditer, mem_findFrom hne hw l 0 0 j fun k _ => Nat.zero_le k]
  simp

theorem pairwise_findFrom (l : List α) (skip i : Nat) :
    (findFrom w skip i l).Pairwise (· < ·) ∧ ∀ j ∈ findFrom w skip i l, i ≤ j := by
  induction l generalizing skip i with
  | nil => cases skip <;> simp [findFrom]
  | cons a l ih =>
      have hlater := fun skip => (ih skip (i + 1)).2
      cases skip with
      | succ skip =>
          exact ⟨(ih skip (i + 1)).1, fun j hj => (Nat.le_succ i).trans (hlater skip j hj)⟩
      | zero =>
          rw [findFrom]
          split
          · refine ⟨List.pairwise_cons.mpr ⟨hlater _, (ih _ (i + 1)).1⟩, ?_⟩
            exact List.forall_mem_cons.mpr ⟨le_refl i, fun j hj =>
              (Nat.le_succ i).trans (hlater _ j hj)⟩
          · exact ⟨(ih 0 (i + 1)).1, fun j hj => (Nat.le_succ i).trans (hlater 0 j hj)⟩

/-- The occurrences are found from left to right. -/
theorem pairwise_finditer (w l : List α) : (finditer w l).Pairwise (· < ·) :=
  (pairwise_findFrom l 0 0).1

end Occurrences
end DiploidAgent
