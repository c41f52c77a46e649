import Mathlib.Data.List.DropRight
import Mathlib.Tactic.Common

/-!
# A text in pieces

Pieces spell a text when they stand in it in their order, and what lies between them, before
the first and after the last one is blank; what is blank at the ends of a piece does not
count.  So nothing of the text is missing and nothing is there twice.
-/

namespace DiploidAgent
namespace Seams

universe u

variable {α : Type u} (p : α → Bool)

/-- The list without what is blank at its ends. -/
def trim (l : List α) : List α := (l.dropWhile p).rdropWhile p

/-- The pieces, one after the other, with blanks around each. -/
def Spells : List (List α) → List α → Prop
  | [], t => ∀ c ∈ t, p c = true
  | m :: ms, t => ∃ gap rest, (∀ c ∈ gap, p c = true) ∧ t = gap ++ (trim p m ++ rest) ∧
      Spells ms rest

variable {p}

/-! ### Trimming -/

section Trim

variable {l w : List α}

theorem rdropWhile_append (l l' : List α) :
    (l ++ l').rdropWhile p =
      if l'.rdropWhile p = [] then l.rdropWhile p else l ++ l'.rdropWhile p := by
  simp only [List.rdropWhile, List.reverse_append, List.dropWhile_append,
    List.reverse_eq_nil_iff, List.isEmpty_iff]
  split_ifs <;> simp

theorem trim_eq_nil_iff :
    trim p l = [] ↔ ∀ c ∈ l, p c = true := by
  unfold trim
  rw [List.rdropWhile_eq_nil_iff, ← List.dropWhile_eq_nil_iff, List.dropWhile_idempotent,
    List.dropWhile_eq_nil_iff]

/-- Blanks before the list do not count. -/
theorem trim_blank_append (l : List α) (hw : ∀ c ∈ w, p c = true) :
    trim p (w ++ l) = trim p l := by
  rw [trim, List.dropWhile_append_of_pos hw, trim]

/-- Blanks after the list do not count. -/
theorem trim_append_blank (l : List α) (hw : ∀ c ∈ w, p c = true) :
    trim p (l ++ w) = trim p l := by
  unfold trim
  rw [List.dropWhile_append]
  split
  · next hl =>
      rw [List.isEmpty_iff.mp hl, List.dropWhile_eq_nil_iff.mpr hw]
  · rw [rdropWhile_append, if_pos (List.rdropWhile_eq_nil_iff.mpr hw)]

theorem trim_dropWhile {q : α → Bool} (l : List α) (hq : ∀ c, q c = true → p c = true) :
    trim p (l.dropWhile q) = trim p l := by
  have hblank : ∀ c ∈ l.takeWhile q, p c = true := fun c hc => hq c (List.mem_takeWhile_imp hc)
  calc trim p (l.dropWhile q)
      _ = trim p (l.takeWhile q ++ l.dropWhile q) := (trim_blank_append _ hblank).symm
      _ = trim p l := by rw [List.takeWhile_append_dropWhile]

theorem trim_rdropWhile (l : List α) :
    trim p (l.rdropWhile p) = trim p l := by
  have hblank : ∀ c ∈ l.rtakeWhile p, p c = true := fun c hc => List.mem_rtakeWhile_imp hc
  calc trim p (l.rdropWhile p)
      _ = trim p (l.rdropWhile p ++ l.rtakeWhile p) := (trim_append_blank _ hblank).symm
      _ = trim p l := by rw [List.rdropWhile_append_rtakeWhile]

theorem exists_trim (l : List α) :
    ∃ before after, (∀ c ∈ before, p c = true) ∧ (∀ c ∈ after, p c = true) ∧
      l = before ++ (trim p l ++ after) := by
  refine ⟨l.takeWhile p, (l.dropWhile p).rtakeWhile p, fun c hc => List.mem_takeWhile_imp hc,
    fun c hc => List.mem_rtakeWhile_imp hc, ?_⟩
  rw [trim, List.rdropWhile_append_rtakeWhile, List.takeWhile_append_dropWhile]

/-- A list that goes on keeps what it was trimmed to. -/
theorem trim_append (l' : List α) (h : trim p l ≠ []) :
    ∃ w, (∀ c ∈ w, p c = true) ∧ trim p (l ++ l') = trim p l ++ (w ++ l').rdropWhile p := by
  have hne : ¬ (l.dropWhile p).isEmpty = true := by
    intro hnil
    rw [trim, List.isEmpty_iff.mp hnil] at h
    exact h rfl
  refine ⟨(l.dropWhile p).rtakeWhile p, fun c hc => List.mem_rtakeWhile_imp hc, ?_⟩
  have hsplit : (l ++ l').dropWhile p =
      trim p l ++ ((l.dropWhile p).rtakeWhile p ++ l') := by
    rw [List.dropWhile_append, if_neg hne, trim, ← List.append_assoc,
      List.rdropWhile_append_rtakeWhile]
  rw [trim, hsplit, rdropWhile_append]
  split
  · next hnil =>
      rw [hnil, List.append_nil, trim, List.rdropWhile_idempotent]
  · rfl

/-- What a list was trimmed to stands at the start of what a longer one is trimmed to. -/
theorem trim_mono {l' : List α} (h : l <+: l') : trim p l <+: trim p l' := by
  obtain ⟨more, rfl⟩ := h
  by_cases hnil : trim p l = []
  · rw [hnil]
    exact List.nil_prefix
  · obtain ⟨w, _, happend⟩ := trim_append more hnil
    rw [happend]
    exact List.prefix_append _ _

end Trim

/-! ### Spelling -/

section Spelling

variable {ms ms' : List (List α)} {t t' : List α}

theorem Spells.gap {w : List α} (hw : ∀ c ∈ w, p c = true) (h : Spells p ms t) :
    Spells p ms (w ++ t) := by
  cases ms with
  | nil => exact fun c hc => (List.mem_append.mp hc).elim (hw c) (h c)
  | cons m ms =>
      obtain ⟨gap, rest, hgap, rfl, hrest⟩ := h
      refine ⟨w ++ gap, rest, fun c hc => ?_, (List.append_assoc _ _ _).symm, hrest⟩
      exact (List.mem_append.mp hc).elim (hw c) (hgap c)

/-- One text after the other. -/
theorem Spells.append (h : Spells p ms t) (h' : Spells p ms' t') :
    Spells p (ms ++ ms') (t ++ t') := by
  induction ms generalizing t with
  | nil => exact h'.gap h
  | cons m ms ih =>
      obtain ⟨gap, rest, hgap, rfl, hrest⟩ := h
      refine ⟨gap, rest ++ t', hgap, ?_, ih hrest⟩
      simp only [List.append_assoc]

/-- A piece spells what has the same text between its blanks. -/
theorem spells_single {m : List α} (h : trim p m = trim p t) : Spells p [m] t := by
  obtain ⟨before, after, hbefore, hafter, ht⟩ := exists_trim (p := p) t
  exact ⟨before, after, hbefore, by rw [h]; exact ht, hafter⟩

end Spelling

end Seams
end DiploidAgent
