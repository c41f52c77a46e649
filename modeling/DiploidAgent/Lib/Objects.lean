import Mathlib.Tactic.Common

/-!
# Objects and references

Objects are numbered in the order they are created in, and a reference is the number of
an object.  A list of references is read through the heap; creating objects leaves what
could be read before, and changing one object in place leaves the lists without it.
-/

namespace DiploidAgent
namespace Objects

universe u

/-- The objects below `size` exist. -/
structure Heap (ω : Type u) where
  get : Nat → ω
  size : Nat

variable {ω : Type u}

namespace Heap

/-- What a list of references shows. -/
def read (h : Heap ω) (refs : List Nat) : List ω := refs.map h.get

/-- An object is changed in place. -/
def update (h : Heap ω) (r : Nat) (x : ω) : Heap ω :=
  { h with get := fun r' => if r' = r then x else h.get r' }

/-- New objects are created. -/
def alloc (h : Heap ω) (xs : List ω) : Heap ω where
  get r := if r < h.size then h.get r else (xs[r - h.size]?).getD (h.get r)
  size := h.size + xs.length

/-- The references to the objects that are created. -/
def fresh (h : Heap ω) (xs : List ω) : List Nat := List.range' h.size xs.length

/-- All references are to objects that exist. -/
def Holds (h : Heap ω) (refs : List Nat) : Prop := ∀ r ∈ refs, r < h.size

section Rules

variable {h : Heap ω} {refs : List Nat} {xs : List ω} {r : Nat} {x : ω}

@[simp] theorem size_alloc : (h.alloc xs).size = h.size + xs.length := rfl

theorem get_update_of_ne
    {r' : Nat} (hne : r' ≠ r) :
    (h.update r x).get r' = h.get r' :=
  if_neg hne

theorem get_alloc_of_lt
    (hr : r < h.size) :
    (h.alloc xs).get r = h.get r :=
  if_pos hr

theorem Holds.alloc
    (hrefs : h.Holds refs) (xs : List ω) :
    (h.alloc xs).Holds refs :=
  fun r hr => Nat.lt_of_lt_of_le (hrefs r hr) (Nat.le_add_right _ _)

theorem holds_fresh : (h.alloc xs).Holds (h.fresh xs) := by
  intro r hr
  obtain ⟨i, hi, rfl⟩ := List.mem_range'.mp hr
  rw [size_alloc]
  omega

/-- What is created was not there. -/
theorem size_le_of_mem_fresh
    (hr : r ∈ h.fresh xs) :
    h.size ≤ r := by
  obtain ⟨i, _, rfl⟩ := List.mem_range'.mp hr
  omega

theorem read_update_of_not_mem
    (hr : r ∉ refs) :
    (h.update r x).read refs = h.read refs := by
  refine List.map_congr_left fun r' hr' => get_update_of_ne ?_
  rintro rfl
  exact hr hr'

theorem read_alloc
    (hrefs : h.Holds refs) :
    (h.alloc xs).read refs = h.read refs :=
  List.map_congr_left fun r hr => get_alloc_of_lt (hrefs r hr)

/-- The new objects are what they were created with. -/
theorem read_fresh : (h.alloc xs).read (h.fresh xs) = xs := by
  refine List.ext_getElem? fun i => ?_
  rw [read, List.getElem?_map, fresh]
  by_cases hi : i < xs.length
  · rw [List.getElem?_range' hi, Option.map_some, List.getElem?_eq_getElem hi]
    have hget : (h.alloc xs).get (h.size + 1 * i) = xs[i] := by
      have hold : ¬h.size + 1 * i < h.size := by omega
      have hindex : h.size + 1 * i - h.size = i := by omega
      simp only [alloc, if_neg hold, hindex, List.getElem?_eq_getElem hi, Option.getD_some]
    rw [hget]
  · have hlen : xs.length ≤ i := Nat.le_of_not_lt hi
    rw [List.getElem?_eq_none hlen, List.getElem?_eq_none, Option.map_none]
    rw [List.length_range']
    exact hlen

end Rules

end Heap
end Objects
end DiploidAgent
