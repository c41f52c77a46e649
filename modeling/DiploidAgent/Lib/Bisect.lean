import Mathlib.Tactic.Common

/-!
# Search by halving

The last number that passes a test which holds up to some point and fails behind it.
-/

namespace DiploidAgent
namespace Bisect

variable {fits : Nat → Bool} {n lo hi : Nat}

/-- `while lo < hi`, with the middle rounded up; the fuel is the length of the interval. -/
def bisect (fits : Nat → Bool) : Nat → Nat → Nat → Nat
  | 0, lo, _ => lo
  | n + 1, lo, hi =>
      if lo < hi then
        if fits ((lo + hi + 1) / 2) then bisect fits n ((lo + hi + 1) / 2) hi
        else bisect fits n lo ((lo + hi + 1) / 2 - 1)
      else lo

theorem bisect_le
    (h : lo ≤ hi) :
    bisect fits n lo hi ≤ hi := by
  induction n generalizing lo hi with
  | zero => exact h
  | succ n ih =>
      unfold bisect
      split_ifs with hlt hfits
      · exact ih (by omega)
      · have hmid := @ih lo ((lo + hi + 1) / 2 - 1) (by omega)
        omega
      · exact h

/-- The number that is found passes, if the first one does. -/
theorem bisect_fits
    (h : fits lo = true) :
    fits (bisect fits n lo hi) = true := by
  induction n generalizing lo hi with
  | zero => exact h
  | succ n ih =>
      unfold bisect
      split_ifs with hlt hfits
      · exact ih hfits
      · exact ih h
      · exact h

/-- No larger number of the interval passes. -/
theorem le_bisect_of_fits
    {k : Nat}
    (hfuel : hi - lo ≤ n)
    (hmono : ∀ i j, i ≤ j → fits j = true → fits i = true)
    (hk : k ≤ hi) (hfits : fits k = true) :
    k ≤ bisect fits n lo hi := by
  induction n generalizing lo hi with
  | zero =>
      unfold bisect
      omega
  | succ n ih =>
      unfold bisect
      split_ifs with hlt hmid
      · exact ih (by omega) hk
      · refine ih (by omega) ?_
        by_contra hbeyond
        exact hmid (hmono _ k (by omega) hfits)
      · omega

end Bisect
end DiploidAgent
