import Mathlib.Data.List.DropRight
import Mathlib.Tactic.Common

/-!
# Readers of a growing log

A log only grows, its entries carry consecutive numbers, and only its tail is kept.  A
reader asks for what stands after the last number it received.  It misses nothing as
long as the tail reaches back to that number (`Follows.read`), and it can tell from
the first number of the tail whether it does.
-/

namespace DiploidAgent
namespace Follow

universe u

variable {α : Type u} {seq : α → Int}

/-! ### Consecutive numbers -/

/-- The entries are numbered from the number after `n` on. -/
def Numbered (seq : α → Int) : Int → List α → Prop
  | _, [] => True
  | n, e :: l => seq e = n + 1 ∧ Numbered seq (n + 1) l

section Numbers

variable {n : Int} {l : List α}

theorem Numbered.concat
    {e : α} (h : Numbered seq n l) (he : seq e = n + l.length + 1) :
    Numbered seq n (l ++ [e]) := by
  induction l generalizing n with
  | nil =>
      refine ⟨?_, trivial⟩
      simpa using he
  | cons d l ih =>
      refine ⟨h.1, ih h.2 ?_⟩
      rw [he, List.length_cons]
      omega

theorem Numbered.drop
    (h : Numbered seq n l) {i : Nat} (hi : i ≤ l.length) :
    Numbered seq (n + i) (l.drop i) := by
  induction i generalizing n l with
  | zero => simpa using h
  | succ i ih =>
      cases l with
      | nil => cases hi
      | cons d l =>
          have hrest := ih h.2 (Nat.le_of_succ_le_succ hi)
          rw [List.drop_succ_cons]
          have hshift : n + 1 + (i : Int) = n + ((i + 1 : Nat) : Int) := by omega
          rwa [hshift] at hrest

theorem Numbered.take
    (h : Numbered seq n l) (i : Nat) :
    Numbered seq n (l.take i) := by
  induction i generalizing n l with
  | zero => trivial
  | succ i ih =>
      cases l with
      | nil => trivial
      | cons d l => exact ⟨h.1, ih h.2⟩

theorem Numbered.lt
    (h : Numbered seq n l) {e : α} (he : e ∈ l) :
    n < seq e := by
  induction l generalizing n with
  | nil => cases he
  | cons d l ih =>
      rcases List.mem_cons.mp he with rfl | he
      · rw [h.1]
        omega
      · have hlater := ih h.2 he
        omega

/-- No number is used twice. -/
theorem Numbered.increasing
    (h : Numbered seq n l) :
    l.Pairwise fun e e' => seq e < seq e' := by
  induction l generalizing n with
  | nil => exact List.Pairwise.nil
  | cons d l ih =>
      refine List.Pairwise.cons (fun e he => ?_) (ih h.2)
      rw [h.1]
      exact h.2.lt he

/-- The entries after a number are a tail. -/
theorem Numbered.filter_lt
    (h : Numbered seq n l) (k : Int) :
    l.filter (fun e => decide (k < seq e)) = l.drop (k - n).toNat := by
  induction l generalizing n with
  | nil => simp
  | cons d l ih =>
      by_cases hk : k < seq d
      · have hall : ∀ e ∈ d :: l, decide (k < seq e) = true := by
          intro e he
          rcases List.mem_cons.mp he with rfl | he
          · exact decide_eq_true hk
          · have hlater := h.2.lt he
            rw [← h.1] at hlater
            exact decide_eq_true (by omega)
        have hnone : (k - n).toNat = 0 := by
          rw [h.1] at hk
          omega
        rw [List.filter_eq_self.mpr hall, hnone, List.drop_zero]
      · have hshift : (k - n).toNat = (k - (n + 1)).toNat + 1 := by
          rw [h.1] at hk
          omega
        rw [List.filter_cons_of_neg (by simpa using hk), ih h.2, hshift, List.drop_succ_cons]

theorem Numbered.getLast?
    (h : Numbered seq n l) {e : α} (he : l.getLast? = some e) :
    seq e = n + l.length := by
  induction l generalizing n with
  | nil => cases he
  | cons d l ih =>
      cases l with
      | nil =>
          obtain rfl : d = e := Option.some.inj he
          rw [h.1]
          rfl
      | cons d' l =>
          have hlast := ih h.2 (by simpa using he)
          rw [hlast, List.length_cons (a := d)]
          omega

end Numbers

/-! ### The kept tail -/

section Tail

variable {cap : Nat} {l : List α}

/-- A bounded queue keeps the tail of what was put in. -/
theorem rtake_concat
    (e : α) :
    (l.rtake cap ++ [e]).rtake cap = (l ++ [e]).rtake cap := by
  simp only [List.rtake, List.length_append, List.length_drop, List.length_cons,
    List.length_nil]
  rw [← List.drop_append_of_le_length (by omega), List.drop_drop]
  congr 1
  omega

theorem getLast?_rtake
    (hcap : 0 < cap) :
    (l.rtake cap).getLast? = l.getLast? := by
  rw [List.rtake, List.getLast?_drop]
  split_ifs with hlen
  · obtain rfl : l = [] := List.length_eq_zero_iff.mp (by omega)
    rfl
  · rfl

theorem rtake_append
    {l' : List α} (hle : l'.length ≤ cap) (h : l'.length = cap ∨ l = []) :
    (l ++ l').rtake cap = l' := by
  rcases h with hlen | rfl
  · rw [List.rtake, List.length_append, hlen, Nat.add_sub_cancel, List.drop_left]
  · rw [List.nil_append, List.rtake, Nat.sub_eq_zero_of_le hle, List.drop_zero]

end Tail

/-! ### Readers -/

/-- A reader has received, in order, entries among the first `position` of the log, and
all of them unless it was `told` of a gap. -/
structure Follows (log received : List α) (position : Nat) (told : Bool) : Prop where
  within : position ≤ log.length
  inOrder : received.Sublist (log.take position)
  complete : told = false → received = log.take position

section Readers

variable {log received : List α} {position : Nat} {told : Bool}

theorem follows_start
    (log : List α) :
    Follows log [] 0 false :=
  ⟨Nat.zero_le _, List.nil_sublist _, fun _ => rfl⟩

/-- What is appended to the log stays to be received. -/
theorem Follows.grow
    (h : Follows log received position told) (more : List α) :
    Follows (log ++ more) received position told where
  within := by
    rw [List.length_append]
    exact Nat.le_add_right_of_le h.within
  inOrder := by
    rw [List.take_append_of_le_length h.within]
    exact h.inOrder
  complete := by
    rw [List.take_append_of_le_length h.within]
    exact h.complete

/-- The entries received so far and a reply are again a beginning of the log. -/
theorem take_add_reply
    (log : List α) (start limit : Nat) :
    log.take (start + ((log.drop start).take limit).length) =
      log.take start ++ (log.drop start).take limit := by
  rw [List.take_add, List.length_take]
  congr 1
  rw [List.take_eq_take_iff]
  omega

/-- A reply from `start` on; the reader is told when that is not where it stood. -/
theorem Follows.read
    (h : Follows log received position told)
    {start : Nat} (limit : Nat) {told' : Bool}
    (hfrom : position ≤ start) (hto : start ≤ log.length)
    (htold : told' = false → told = false ∧ start = position) :
    Follows log (received ++ (log.drop start).take limit)
      (start + ((log.drop start).take limit).length) told' where
  within := by
    rw [List.length_take, List.length_drop]
    omega
  inOrder := by
    rw [take_add_reply]
    exact (h.inOrder.trans (List.take_sublist_take_left hfrom)).append (List.Sublist.refl _)
  complete hnot := by
    obtain ⟨hnot, rfl⟩ := htold hnot
    rw [take_add_reply, h.complete hnot]

/-- A reply is empty only at the end of the log. -/
theorem reply_empty
    {start limit : Nat} (hlimit : 0 < limit) (h : (log.drop start).take limit = []) :
    log.length ≤ start := by
  rcases List.take_eq_nil_iff.mp h with hzero | hnil
  · omega
  · exact List.drop_eq_nil_iff.mp hnil

end Readers

end Follow
end DiploidAgent
