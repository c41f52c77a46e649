import Mathlib.Data.List.Nodup
import Mathlib.Data.List.Perm.Basic
import Mathlib.Tactic.Common

/-!
# Overlays of keyed lists

A list of items is laid over a base: an item takes the place of the base's item of its key, and
the items whose keys the base does not have stand behind it.  A list that was built so can be
brought to another overlay without the base, by dropping the items of the old keys that are
not new ones and replacing the others in their places.

This gives the overlay of the base exactly when no item of the base is lost, the keys that
are added are different, and those that stay come first (`relay_overlay_iff`).
-/

namespace DiploidAgent
namespace Overlays

universe u v

variable {α : Type u} {κ : Type v} [DecidableEq κ] (key : α → κ)

/-- The first new item of the key of an item, or else the item. -/
def pick (new : List α) (x : α) : α := (new.find? fun y => key y = key x).getD x

/-- The items whose keys are not in a list. -/
def added (list new : List α) : List α := new.filter fun y => key y ∉ list.map key

/-- The new items over a base. -/
def overlay (base new : List α) : List α := base.map (pick key new) ++ added key base new

/-- The new items in a list that has items of the old keys. -/
def relay (old : List κ) (list new : List α) : List α :=
  (list.filter fun x => key x ∉ old ∨ key x ∈ new.map key).map (pick key new) ++
    added key list new

/-- The base keeps its items from one overlay to the next, and what is added keeps its
order. -/
structure Extends (base old new : List α) : Prop where
  kept : ∀ x ∈ base, key x ∈ old.map key → key x ∈ new.map key
  once : ((added key base new).map key).Nodup
  order : ((added key base old).map key).filter (· ∈ new.map key) ++
      ((added key base new).map key).filter (· ∉ old.map key) = (added key base new).map key

section Rules

variable {key} {base old new l l' t : List α} {x y : α}

variable (key) in
theorem key_pick (new : List α) (x : α) :
    key (pick key new x) = key x := by
  rw [pick]
  cases hfind : new.find? fun y => key y = key x with
  | none => rfl
  | some y => exact of_decide_eq_true (List.find?_some hfind :)

theorem pick_of_notMem
    (h : key x ∉ new.map key) :
    pick key new x = x := by
  have hnone : (new.find? fun y => key y = key x) = none := by
    rw [List.find?_eq_none]
    intro y hy heq
    exact h (List.mem_map.mpr ⟨y, hy, of_decide_eq_true heq⟩)
  rw [pick, hnone]
  rfl

theorem pick_mem
    (h : key x ∈ new.map key) :
    pick key new x ∈ new := by
  obtain ⟨y, hy, hkey⟩ := List.mem_map.mp h
  rw [pick]
  cases hfind : new.find? fun y => key y = key x with
  | none => exact absurd (decide_eq_true hkey) (List.find?_eq_none.mp hfind y hy)
  | some z => exact List.mem_of_find?_eq_some hfind

/-- The item that is picked depends on the key only. -/
theorem pick_pick
    (h : key x ∈ new.map key) :
    pick key new (pick key old x) = pick key new x := by
  obtain ⟨y, hy, hkey⟩ := List.mem_map.mp h
  have hsome : (new.find? fun y => key y = key x).isSome = true := by
    rw [List.find?_isSome]
    exact ⟨y, hy, decide_eq_true hkey⟩
  obtain ⟨z, hz⟩ := Option.isSome_iff_exists.mp hsome
  have hpick : pick key new x = z := by rw [pick, hz, Option.getD_some]
  rw [hpick, pick, key_pick key, hz, Option.getD_some]

theorem map_key_pick :
    (l.map (pick key new)).map key = l.map key := by
  rw [List.map_map]
  exact List.map_congr_left fun x _ => key_pick key new x

theorem mem_added :
    y ∈ added key l new ↔ y ∈ new ∧ key y ∉ l.map key := by
  simp [added]

theorem map_key_added :
    (added key l new).map key = (new.map key).filter (· ∉ l.map key) := by
  rw [added, List.filter_map]
  rfl

theorem map_key_overlay :
    (overlay key base new).map key = base.map key ++ (added key base new).map key := by
  rw [overlay, List.map_append, map_key_pick]

/-- Without new items the overlay is the base. -/
theorem overlay_nil :
    overlay key base [] = base := by
  have hpick : base.map (pick key []) = base := List.map_id' base
  rw [overlay, hpick]
  exact List.append_nil base

/-- What is added to an overlay is new for the base and was not in the old items. -/
theorem map_key_added_overlay :
    (added key (overlay key base old) new).map key =
      ((added key base new).map key).filter (· ∉ old.map key) := by
  rw [map_key_added, map_key_added, map_key_overlay, map_key_added, List.filter_filter]
  refine List.filter_congr fun k _ => ?_
  rw [← Bool.decide_and, decide_eq_decide, List.mem_append, List.mem_filter,
    decide_eq_true_eq]
  tauto

omit [DecidableEq κ] in
/-- Items of a list with different keys are known by them. -/
theorem eq_of_map_key_eq
    (ht : (t.map key).Nodup) (hl : ∀ x ∈ l, x ∈ t) (hl' : ∀ x ∈ l', x ∈ t)
    (h : l.map key = l'.map key) :
    l = l' := by
  induction l generalizing l' with
  | nil => exact (List.map_eq_nil_iff.mp h.symm).symm
  | cons x l ih =>
      cases l' with
      | nil => cases h
      | cons y l' =>
          obtain ⟨hx, hrest⟩ := List.forall_mem_cons.mp hl
          obtain ⟨hy, hrest'⟩ := List.forall_mem_cons.mp hl'
          obtain ⟨hkey, hkeys⟩ := List.cons.inj h
          rw [List.inj_on_of_nodup_map ht hx hy hkey, ih hrest hrest' hkeys]

/-- An item of the base whose key is lost is in no list that is brought on. -/
theorem notMem_relay
    (hold : key x ∈ old.map key) (hnew : key x ∉ new.map key) (list : List α) :
    key x ∉ (relay key (old.map key) list new).map key := by
  rw [relay, List.map_append, map_key_pick, List.mem_append, not_or]
  constructor
  · intro hin
    obtain ⟨y, hy, hkey⟩ := List.mem_map.mp hin
    have hfilter := of_decide_eq_true (List.mem_filter.mp hy).2
    rw [hkey] at hfilter
    exact hfilter.elim (absurd hold) hnew
  · intro hin
    obtain ⟨y, hy, hkey⟩ := List.mem_map.mp hin
    exact hnew (hkey ▸ List.mem_map_of_mem (mem_added.mp hy).1)

/-- The base's part of a list that is brought on, when no item of the base is lost. -/
theorem relay_base
    (h : ∀ x ∈ base, key x ∈ old.map key → key x ∈ new.map key) :
    ((base.map (pick key old)).filter fun x => key x ∉ old.map key ∨ key x ∈ new.map key).map
      (pick key new) = base.map (pick key new) := by
  have hfilter : ((base.map (pick key old)).filter
      fun x => key x ∉ old.map key ∨ key x ∈ new.map key) = base.map (pick key old) := by
    rw [List.filter_eq_self]
    intro y hy
    obtain ⟨x, hx, rfl⟩ := List.mem_map.mp hy
    rw [key_pick key, decide_eq_true_eq, ← imp_iff_not_or]
    exact h x hx
  rw [hfilter, List.map_map]
  refine List.map_congr_left fun x hx => ?_
  by_cases hnew : key x ∈ new.map key
  · exact pick_pick hnew
  · have hold : key x ∉ old.map key := fun hold => hnew (h x hx hold)
    rw [Function.comp_apply, pick_of_notMem hold]

/-- The keys of what stays of the added items. -/
theorem map_key_relay_added :
    (((added key base old).filter fun x => key x ∉ old.map key ∨ key x ∈ new.map key).map
      (pick key new)).map key = ((added key base old).map key).filter (· ∈ new.map key) := by
  rw [map_key_pick, List.filter_map]
  congr 1
  refine List.filter_congr fun x hx => ?_
  have hold : key x ∈ old.map key := List.mem_map_of_mem (mem_added.mp hx).1
  simp [hold]

/-- Bringing an overlay to the new items gives their overlay with different keys exactly
when it extends the old one. -/
theorem relay_overlay_iff
    (hbase : (base.map key).Nodup) :
    relay key (old.map key) (overlay key base old) new = overlay key base new ∧
        ((overlay key base new).map key).Nodup ↔
      Extends key base old new := by
  have hparts : ∀ (hkept : ∀ x ∈ base, key x ∈ old.map key → key x ∈ new.map key),
      relay key (old.map key) (overlay key base old) new = base.map (pick key new) ++
        (((added key base old).filter fun x => key x ∉ old.map key ∨ key x ∈ new.map key).map
          (pick key new) ++ added key (overlay key base old) new) := by
    intro hkept
    rw [relay, ← List.append_assoc, ← relay_base hkept, ← List.map_append, ← List.filter_append]
    rfl
  have hnew : overlay key base new = base.map (pick key new) ++ added key base new := rfl
  constructor
  · rintro ⟨hrelay, hnodup⟩
    rw [map_key_overlay] at hnodup
    have hkept : ∀ x ∈ base, key x ∈ old.map key → key x ∈ new.map key := by
      intro x hx hold
      by_contra hlost
      refine notMem_relay hold hlost (overlay key base old) ?_
      rw [hrelay, map_key_overlay]
      exact List.mem_append_left _ (List.mem_map_of_mem hx)
    rw [hparts hkept, hnew] at hrelay
    have hkeys := congrArg (List.map key) (List.append_cancel_left hrelay)
    rw [List.map_append, map_key_relay_added, map_key_added_overlay] at hkeys
    exact ⟨hkept, (List.nodup_append.mp hnodup).2.1, hkeys⟩
  · intro h
    constructor
    · rw [hparts h.kept, hnew]
      congr 1
      refine eq_of_map_key_eq h.once ?_ (fun x hx => hx) ?_
      · intro x hx
        rcases List.mem_append.mp hx with hx | hx
        · obtain ⟨y, hy, rfl⟩ := List.mem_map.mp hx
          obtain ⟨hadded, hfilter⟩ := List.mem_filter.mp hy
          obtain ⟨hold, hout⟩ := mem_added.mp hadded
          have hnew : key y ∈ new.map key :=
            (of_decide_eq_true hfilter).resolve_left fun hnot =>
              hnot (List.mem_map_of_mem hold)
          rw [mem_added, key_pick key]
          exact ⟨pick_mem hnew, hout⟩
        · obtain ⟨hnew, hout⟩ := mem_added.mp hx
          rw [map_key_overlay, List.mem_append, not_or] at hout
          exact mem_added.mpr ⟨hnew, hout.1⟩
      · rw [List.map_append, map_key_relay_added, map_key_added_overlay]
        exact h.order
    · rw [map_key_overlay, List.nodup_append]
      refine ⟨hbase, h.once, ?_⟩
      rintro k hk k' hk' rfl
      obtain ⟨y, hy, rfl⟩ := List.mem_map.mp hk'
      exact (mem_added.mp hy).2 hk

end Rules

end Overlays
end DiploidAgent
