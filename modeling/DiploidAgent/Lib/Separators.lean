import Mathlib.Data.List.Infix
import Mathlib.Tactic.Common

/-!
# Texts with separators

A text is split at every separator of several characters, from the left to the right.
Pieces that are joined by the separator come back when none of them holds it, and none does
together with what starts the next separator.
-/

namespace DiploidAgent
namespace Separators

universe u

variable {α : Type u} [DecidableEq α]

/-- What stands before the first separator, and behind it. -/
def cutAt (sep : List α) : List α → Option (List α × List α)
  | [] => none
  | c :: rest =>
      if sep.isPrefixOf (c :: rest) then some ([], (c :: rest).drop sep.length)
      else (cutAt sep rest).map fun r => (c :: r.1, r.2)

def splitRounds (sep : List α) : Nat → List α → List (List α)
  | 0, text => [text]
  | n + 1, text =>
      match cutAt sep text with
      | none => [text]
      | some (before, after) => before :: splitRounds sep n after

/-- `text.split(sep)`. -/
def split (sep text : List α) : List (List α) := splitRounds sep text.length text

section Joined

omit [DecidableEq α] in
/-- The last pieces stand at the end. -/
theorem intercalate_suffix (sep : List α) {pieces all : List (List α)} (h : pieces <:+ all) :
    sep.intercalate pieces <:+ sep.intercalate all := by
  obtain ⟨front, rfl⟩ := h
  induction front with
  | nil => exact List.suffix_rfl
  | cons piece front ih =>
      rw [List.cons_append]
      rcases List.eq_nil_or_concat (front ++ pieces) with hnil | ⟨_, _, hne⟩
      · rw [hnil] at ih ⊢
        exact (List.suffix_nil.mp ih) ▸ List.nil_suffix
      · have hmore : front ++ pieces ≠ [] := hne ▸ by simp
        rw [List.intercalate_cons_of_ne_nil hmore]
        exact ih.trans (List.suffix_append _ _)

omit [DecidableEq α] in
/-- The first and the last piece stand outside. -/
theorem intercalate_frame (sep : α) (first last : List α) (pieces : List (List α)) :
    [sep].intercalate (first :: (pieces ++ [last])) =
      first ++ [sep].intercalate ([] :: (pieces ++ [[]])) ++ last := by
  have hlast : ∀ first : List α, [sep].intercalate (first :: (pieces ++ [last])) =
      [sep].intercalate (first :: (pieces ++ [[]])) ++ last := by
    induction pieces with
    | nil => simp
    | cons piece pieces ih =>
        intro first
        rw [List.cons_append, List.intercalate_cons_cons, ih piece, List.cons_append,
          List.intercalate_cons_cons]
        simp only [List.append_assoc]
  rw [hlast first]
  cases pieces with
  | nil => simp
  | cons piece pieces => simp [List.intercalate_cons_cons]

end Joined

section Infixes

variable {sep l l' : List α}

omit [DecidableEq α] in
/-- A separator does not reach into what does not hold its last element. -/
theorem infix_of_append_right
    (h : sep <:+: l ++ l') (hlast : ∀ c ∈ sep.getLast?, c ∉ l') (hsep : sep ≠ []) :
    sep <:+: l := by
  obtain ⟨a, b, hab⟩ := h
  rcases List.append_eq_append_iff.mp hab with ⟨t, rfl, _⟩ | ⟨t, ht, rfl⟩
  · exact ⟨a, t, rfl⟩
  · rcases List.eq_nil_or_concat t with rfl | ⟨t', c, rfl⟩
    · exact ⟨a, [], by rw [List.append_nil] at ht ⊢; exact ht⟩
    · have hc : c ∈ sep.getLast? := by
        have hend := congrArg List.getLast? ht
        rw [List.getLast?_append_of_ne_nil _ hsep, List.concat_eq_append, ← List.append_assoc,
          List.getLast?_concat] at hend
        exact hend
      exact absurd (by simp) (hlast c hc)

omit [DecidableEq α] in
/-- A separator does not start in what does not hold its first element. -/
theorem infix_of_append_left
    (h : sep <:+: l ++ l') (hhead : ∀ c ∈ sep.head?, c ∉ l) (hsep : sep ≠ []) :
    sep <:+: l' := by
  rw [← List.reverse_infix] at h ⊢
  rw [List.reverse_append] at h
  refine infix_of_append_right h (fun c hc => ?_) (by simpa using hsep)
  rw [List.getLast?_reverse] at hc
  simpa using hhead c hc

omit [DecidableEq α] in
/-- Without its last element a separator does not complete another one. -/
theorem infix_append_dropLast_iff (hsep : sep ≠ []) (hlast : ∀ c ∈ sep.getLast?, c ∉ sep.dropLast) :
    sep <:+: l ++ sep.dropLast ↔ sep <:+: l :=
  ⟨fun h => infix_of_append_right h hlast hsep, fun h => h.trans (List.prefix_append _ _).isInfix⟩

omit [DecidableEq α] in
/-- A separator of one character cuts no word that does not hold it. -/
theorem infix_append_cons_iff {w : List α} {sep : α} (hsep : sep ∉ w) (l l' : List α) :
    w <:+: l ++ sep :: l' ↔ w <:+: l ∨ w <:+: l' := by
  constructor
  · rintro ⟨a, b, hab⟩
    rw [List.append_assoc] at hab
    rcases List.append_eq_append_iff.mp hab with ⟨t, rfl, ht⟩ | ⟨t, rfl, ht⟩
    · rcases List.append_eq_append_iff.mp ht with ⟨t', rfl, _⟩ | ⟨t', hw, _⟩
      · exact Or.inl ⟨a, t', by rw [List.append_assoc]⟩
      · cases t' with
        | nil =>
            rw [List.append_nil] at hw
            exact Or.inl ⟨a, [], by rw [hw, List.append_nil]⟩
        | cons c t' =>
            obtain rfl : sep = c := by simp_all
            exact absurd (hw ▸ by simp) hsep
    · cases t with
      | nil =>
          cases w with
          | nil => exact Or.inl List.nil_infix
          | cons c w =>
              obtain rfl : sep = c := by simpa using congrArg List.head? ht
              exact absurd List.mem_cons_self hsep
      | cons c t =>
          have hrest : l' = t ++ (w ++ b) := (List.cons.inj ht).2
          exact Or.inr ⟨t, b, by rw [hrest, List.append_assoc]⟩
  · rintro (h | h)
    · exact h.trans (List.prefix_append _ _).isInfix
    · exact h.trans ((List.suffix_cons _ _).trans (List.suffix_append _ _)).isInfix

omit [DecidableEq α] in
theorem infix_cons_iff_of_notMem {w : List α} {sep : α} (hsep : sep ∉ w) (hne : w ≠ [])
    (l : List α) :
    w <:+: sep :: l ↔ w <:+: l := by
  simpa [hne] using infix_append_cons_iff hsep [] l

omit [DecidableEq α] in
/-- What is joined by such a separator holds the words of the pieces. -/
theorem infix_intercalate_iff {w : List α} {sep : α} (hsep : sep ∉ w) (hne : w ≠ [])
    (pieces : List (List α)) :
    w <:+: [sep].intercalate pieces ↔ ∃ piece ∈ pieces, w <:+: piece := by
  induction pieces with
  | nil => simpa using hne
  | cons piece pieces ih =>
      cases pieces with
      | nil => simp
      | cons next pieces =>
          rw [List.intercalate_cons_cons, List.append_assoc, List.singleton_append,
            infix_append_cons_iff hsep, ih]
          simp

end Infixes

section Splitting

variable {sep text piece : List α}

theorem cutAt_eq_none
    (h : ¬ sep <:+: text) :
    cutAt sep text = none := by
  induction text with
  | nil => rfl
  | cons c rest ih =>
      rw [cutAt, if_neg fun hstart => h (List.isPrefixOf_iff_prefix.mp hstart).isInfix,
        ih fun hin => h (hin.trans (List.suffix_cons c rest).isInfix)]
      rfl

/-- The first separator is the one behind a piece that does not hold one. -/
theorem cutAt_append
    (hsep : sep ≠ []) (h : ¬ sep <:+: piece ++ sep.dropLast) (rest : List α) :
    cutAt sep (piece ++ (sep ++ rest)) = some (piece, rest) := by
  induction piece with
  | nil =>
      obtain ⟨c, sep', rfl⟩ := List.exists_cons_of_ne_nil hsep
      rw [List.nil_append, List.cons_append, cutAt, if_pos, ← List.cons_append, List.drop_left]
      exact List.isPrefixOf_iff_prefix.mpr ⟨rest, rfl⟩
  | cons c piece ih =>
      have hnot : ¬ sep <+: c :: (piece ++ (sep ++ rest)) := by
        intro hstart
        have hall : c :: piece ++ sep.dropLast <+: c :: (piece ++ (sep ++ rest)) := by
          refine ⟨sep.getLast hsep :: rest, ?_⟩
          rw [List.append_assoc, List.append_cons sep.dropLast, List.dropLast_append_getLast]
          rfl
        have hpos := List.length_pos_of_ne_nil hsep
        refine h (List.prefix_of_prefix_length_le hstart hall ?_).isInfix
        rw [List.length_append, List.length_cons, List.length_dropLast]
        omega
      have hlater := ih fun hin => h (hin.trans (List.suffix_cons c _).isInfix)
      rw [List.cons_append, cutAt, if_neg fun hstart => hnot (List.isPrefixOf_iff_prefix.mp hstart),
        hlater]
      rfl

/-- The first separator is where a search finds it. -/
theorem cutAt_eq_some_iff (hsep : sep ≠ []) {before after : List α} :
    cutAt sep text = some (before, after) ↔
      text = before ++ (sep ++ after) ∧ ¬ sep <:+: before ++ sep.dropLast := by
  constructor
  · intro h
    induction text generalizing before after with
    | nil => cases h
    | cons c rest ih =>
        rw [cutAt] at h
        split at h
        next hstart =>
          obtain ⟨tail, htail⟩ := List.isPrefixOf_iff_prefix.mp hstart
          obtain ⟨rfl, rfl⟩ := Prod.mk.inj (Option.some.inj h)
          refine ⟨?_, fun hin => ?_⟩
          · rw [← htail, List.drop_left, List.nil_append]
          · have hlen := hin.length_le
            have hpos := List.length_pos_of_ne_nil hsep
            rw [List.nil_append, List.length_dropLast] at hlen
            omega
        next hstart =>
          obtain ⟨⟨before', after'⟩, hrest, heq⟩ := Option.map_eq_some_iff.mp h
          obtain ⟨rfl, rfl⟩ := Prod.mk.inj heq
          obtain ⟨rfl, hnot⟩ := ih hrest
          refine ⟨rfl, fun hin => ?_⟩
          rcases List.infix_cons_iff.mp hin with hheads | hlater
          · refine hstart (List.isPrefixOf_iff_prefix.mpr (hheads.trans ?_))
            refine List.cons_prefix_cons.mpr ⟨rfl, ?_⟩
            exact List.prefix_append_right_inj before' |>.mpr
              ((List.dropLast_prefix sep).trans (List.prefix_append sep after'))
          · exact hnot hlater
  · rintro ⟨rfl, hnot⟩
    exact cutAt_append hsep hnot after

theorem cutAt_eq_none_iff (hsep : sep ≠ []) : cutAt sep text = none ↔ ¬ sep <:+: text := by
  constructor
  · rintro hnone ⟨a, b, rfl⟩
    induction a with
    | nil =>
        obtain ⟨c, sep', rfl⟩ := List.exists_cons_of_ne_nil hsep
        rw [List.nil_append, List.cons_append, cutAt, if_pos] at hnone
        · cases hnone
        · exact List.isPrefixOf_iff_prefix.mpr ⟨b, rfl⟩
    | cons c a ih =>
        rw [List.cons_append, List.cons_append, cutAt] at hnone
        split at hnone
        · cases hnone
        · exact ih (Option.map_eq_none_iff.mp hnone)
  · exact cutAt_eq_none

end Splitting

end Separators
end DiploidAgent
