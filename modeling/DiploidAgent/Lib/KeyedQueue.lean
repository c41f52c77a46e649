import Mathlib.Data.List.Basic
import Mathlib.Tactic.Common

/-!
# A queue of items with keys

Every item has a key.  A reader takes the first item whose key it wants and leaves the others
where they are, so an item may leave from the middle.

Whatever the readers want, the items of one key leave in the order they came in: what has left
and what still waits are, in this order, what was put in (`Conserved`).
-/

namespace DiploidAgent
namespace KeyedQueue

universe u v

variable {κ : Type u} {ι : Type v}

/-- The first item that is wanted, and the queue without it. -/
def takeFirst (wants : κ → Bool) (q : List (κ × ι)) : Option ((κ × ι) × List (κ × ι)) :=
  (q.findIdx? fun x => wants x.1).bind fun i => q[i]?.map fun x => (x, q.eraseIdx i)

section Take

variable {wants : κ → Bool} {q rest : List (κ × ι)} {x : κ × ι}

/-- What is taken stands behind items that are not wanted. -/
theorem takeFirst_eq_some
    (h : takeFirst wants q = some (x, rest)) :
    ∃ before after, q = before ++ x :: after ∧ rest = before ++ after ∧
      wants x.1 = true ∧ ∀ y ∈ before, wants y.1 = false := by
  obtain ⟨i, hfind, hmap⟩ := Option.bind_eq_some_iff.mp h
  obtain ⟨y, hget, heq⟩ := Option.map_eq_some_iff.mp hmap
  obtain ⟨rfl, rfl⟩ := Prod.mk.inj heq
  obtain ⟨hlt, hwanted, hbefore⟩ := List.findIdx?_eq_some_iff_getElem.mp hfind
  obtain ⟨_, hx⟩ := List.getElem?_eq_some_iff.mp hget
  refine ⟨q.take i, q.drop (i + 1), ?_, List.eraseIdx_eq_take_drop_succ q i, ?_, ?_⟩
  · rw [← hx, ← List.drop_eq_getElem_cons hlt, List.take_append_drop]
  · rw [← hx]
    exact hwanted
  · intro z hz
    obtain ⟨j, hj, rfl⟩ := List.mem_iff_getElem.mp hz
    rw [List.length_take] at hj
    rw [List.getElem_take]
    simpa using hbefore j (by omega)

end Take

section Keys

variable [DecidableEq κ] {wants : κ → Bool} {sent taken q rest : List (κ × ι)} {x : κ × ι}

/-- The items of a key. -/
def ofKey (k : κ) (q : List (κ × ι)) : List (κ × ι) := q.filter fun x => x.1 = k

@[simp] theorem ofKey_append (k : κ) (q q' : List (κ × ι)) :
    ofKey k (q ++ q') = ofKey k q ++ ofKey k q' :=
  List.filter_append _ _

@[simp] theorem ofKey_cons (k : κ) (x : κ × ι) (q : List (κ × ι)) :
    ofKey k (x :: q) = ofKey k [x] ++ ofKey k q :=
  List.filter_append [x] q

/-- What is taken is the first item of its key. -/
theorem ofKey_takeFirst
    (h : takeFirst wants q = some (x, rest)) (k : κ) :
    ofKey k q = ofKey k [x] ++ ofKey k rest := by
  obtain ⟨before, after, rfl, rfl, hwanted, hbefore⟩ := takeFirst_eq_some h
  rw [ofKey_append, ofKey_cons, ofKey_append]
  by_cases hk : x.1 = k
  · have hnone : ofKey k before = [] := by
      rw [ofKey, List.filter_eq_nil_iff]
      intro y hy hkey
      have hy' := hbefore y hy
      rw [of_decide_eq_true hkey, ← hk, hwanted] at hy'
      cases hy'
    rw [hnone, List.nil_append, List.nil_append]
  · have hother : ofKey k [x] = [] := by
      rw [ofKey, List.filter_eq_nil_iff]
      intro y hy hkey
      rw [List.mem_singleton.mp hy] at hkey
      exact hk (of_decide_eq_true hkey)
    rw [hother, List.nil_append, List.nil_append]

/-- What was put in is what has left and what waits, key by key and in order. -/
def Conserved (sent taken q : List (κ × ι)) : Prop :=
  ∀ k, ofKey k sent = ofKey k taken ++ ofKey k q

theorem conserved_nil : Conserved ([] : List (κ × ι)) [] [] := fun _ => rfl

theorem Conserved.put
    (h : Conserved sent taken q) (x : κ × ι) :
    Conserved (sent ++ [x]) taken (q ++ [x]) := by
  intro k
  rw [ofKey_append, ofKey_append, h k, List.append_assoc]

theorem Conserved.take
    (h : Conserved sent taken q) (htake : takeFirst wants q = some (x, rest)) :
    Conserved sent (taken ++ [x]) rest := by
  intro k
  rw [h k, ofKey_append, ofKey_takeFirst htake k, List.append_assoc]

end Keys

end KeyedQueue
end DiploidAgent
