import DiploidAgent.Lib.Rolling

/-!
# First occurrences

A loop over a list that keeps an element when its key counts and was not seen before.  What
it keeps has different keys, all of those that count, in the order of their first elements.
-/

namespace DiploidAgent
namespace Firsts

universe u v

variable {α : Type u} {κ : Type v} [DecidableEq κ]

/-- The elements whose keys count and were not seen, the first of each key. -/
def firsts (key : α → κ) (counts : κ → Bool) : List κ → List α → List α
  | _, [] => []
  | seen, a :: l =>
      if counts (key a) ∧ key a ∉ seen then a :: firsts key counts (key a :: seen) l
      else firsts key counts seen l

section Keys

variable {key : α → κ} {counts : κ → Bool}

theorem firsts_sublist (seen : List κ) (l : List α) : (firsts key counts seen l).Sublist l := by
  induction l generalizing seen with
  | nil => exact List.Sublist.refl _
  | cons a l ih =>
      rw [firsts]
      split
      · exact (ih _).cons_cons a
      · exact (ih seen).cons a

theorem map_firsts [BEq κ] [LawfulBEq κ] (seen : List κ) (l : List α) :
    (firsts key counts seen l).map key =
      ((l.map key).filter fun k => counts k && decide (k ∉ seen)).eraseDups := by
  induction l generalizing seen with
  | nil => rfl
  | cons a l ih =>
      rw [firsts, List.map_cons]
      split
      next h =>
        rw [List.filter_cons_of_pos (by simpa using h), List.eraseDups_cons, List.map_cons, ih,
          List.filter_filter]
        congr 3
        funext k
        by_cases hk : k = key a <;> simp [hk, Bool.and_comm]
      next h => rw [List.filter_cons_of_neg (by simpa using h), ih]

theorem mem_map_firsts {seen : List κ} {l : List α} {k : κ} :
    k ∈ (firsts key counts seen l).map key ↔ k ∈ l.map key ∧ counts k ∧ k ∉ seen := by
  induction l generalizing seen with
  | nil => simp [firsts]
  | cons a l ih =>
      rw [firsts]
      split
      next h =>
        rw [List.map_cons, List.mem_cons, ih, List.map_cons, List.mem_cons, List.mem_cons]
        constructor
        · rintro (rfl | ⟨hk, hcounts, hseen⟩)
          · exact ⟨Or.inl rfl, h⟩
          · exact ⟨Or.inr hk, hcounts, fun hmem => hseen (Or.inr hmem)⟩
        · rintro ⟨rfl | hk, hcounts, hseen⟩
          · exact Or.inl rfl
          · by_cases heq : k = key a
            · exact Or.inl heq
            · exact Or.inr ⟨hk, hcounts, fun hmem => hmem.elim heq hseen⟩
      next h =>
        rw [ih, List.map_cons, List.mem_cons]
        constructor
        · exact fun ⟨hk, hrest⟩ => ⟨Or.inr hk, hrest⟩
        · rintro ⟨rfl | hk, hrest⟩
          · exact absurd hrest h
          · exact ⟨hk, hrest⟩

theorem nodup_map_firsts (seen : List κ) (l : List α) :
    ((firsts key counts seen l).map key).Nodup := by
  induction l generalizing seen with
  | nil => exact List.nodup_nil
  | cons a l ih =>
      rw [firsts]
      split
      next h =>
        refine List.nodup_cons.mpr ⟨fun hmem => ?_, ih _⟩
        exact (mem_map_firsts.mp hmem).2.2 List.mem_cons_self
      next => exact ih seen

/-- A key is found where it is found without the loop. -/
theorem find_firsts {seen : List κ} {k : κ} (hk : counts k = true) (hseen : k ∉ seen)
    (l : List α) :
    (firsts key counts seen l).find? (fun a => key a = k) = l.find? fun a => key a = k := by
  induction l generalizing seen with
  | nil => rfl
  | cons a l ih =>
      rw [firsts]
      by_cases ha : key a = k
      · rw [if_pos ⟨ha ▸ hk, ha ▸ hseen⟩, List.find?_cons_of_pos (by simpa using ha),
          List.find?_cons_of_pos (by simpa using ha)]
      · rw [List.find?_cons_of_neg (by simpa using ha)]
        split
        · rw [List.find?_cons_of_neg (by simpa using ha),
            ih fun hmem => (List.mem_cons.mp hmem).elim (fun h => ha h.symm) hseen]
        · exact ih hseen

end Keys

/-- What is no more among the last elements has that many behind it. -/
theorem exists_of_notMem_rtake {l : List α} {a : α} {n : Nat} (ha : a ∈ l)
    (hout : a ∉ l.rtake n) : ∃ older newer, l = older ++ a :: newer ∧ n ≤ newer.length := by
  obtain ⟨older, newer, rfl⟩ := List.append_of_mem ha
  refine ⟨older, newer, rfl, ?_⟩
  by_contra hshort
  refine hout ?_
  have hle : (older ++ a :: newer).length - n ≤ older.length := by
    rw [List.length_append, List.length_cons]
    omega
  rw [List.rtake, List.drop_append_of_le_length hle]
  exact List.mem_append_right _ List.mem_cons_self

end Firsts
end DiploidAgent
