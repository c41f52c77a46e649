import Mathlib

/-!
# One announcement for every recorded outcome

A ledger holds what is recorded about each key, the announcements made so far
and, for each actor, the announcement it still owes.  An actor may record an
outcome for a key that has none, and then owes an announcement that agrees with
it; posting pays the debt.

Along such steps every recorded outcome stays (`Step.outcome_stays`) and has
exactly one announcement, made or owed (`Step.balanced`).
-/

namespace DiploidAgent

universe u v w

/-- Recorded outcomes, announcements made, and announcements owed by each
actor. -/
structure Ledger (κ : Type u) (O : Type v) (ε : Type w) where
  outcome : κ → Option O
  posted : List ε
  owed : List (Option ε)

namespace Ledger

variable {κ : Type u} {O : Type v} {ε : Type w} [DecidableEq κ]

section Defs

variable (key : ε → κ) (agrees : ε → O → Prop)

/-- One step of the actors. -/
inductive Step : Ledger κ O ε → Ledger κ O ε → Prop
  | same (l : Ledger κ O ε) : Step l l
  | grow (l : Ledger κ O ε) : Step l { l with owed := l.owed ++ [none] }
  | record {l : Ledger κ O ε} {j : Nat} {e : ε} {o : O}
      (hfree : l.outcome (key e) = none) (hidle : l.owed[j]? = some none) (h : agrees e o) :
      Step l { l with
        outcome := Function.update l.outcome (key e) (some o)
        owed := l.owed.set j (some e) }
  | post {l : Ledger κ O ε} {j : Nat} {e : ε} (h : l.owed[j]? = some (some e)) :
      Step l { l with posted := l.posted ++ [e], owed := l.owed.set j none }

/-- The announcement has been made or is owed. -/
def Issued (l : Ledger κ O ε) (e : ε) : Prop :=
  e ∈ l.posted ∨ some e ∈ l.owed

/-- One when an actor owes an announcement for the key. -/
def weight (k : κ) : Option ε → Nat
  | none => 0
  | some e => if key e = k then 1 else 0

/-- How many announcements for a key have been made. -/
def postedCount (l : Ledger κ O ε) (k : κ) : Nat :=
  l.posted.countP fun e => key e = k

/-- How many announcements for a key are owed. -/
def owedCount (l : Ledger κ O ε) (k : κ) : Nat :=
  (l.owed.map (weight key k)).sum

/-- Every recorded outcome has exactly one announcement, made or owed, and
every announcement agrees with what is recorded. -/
structure Balanced (l : Ledger κ O ε) : Prop where
  count : ∀ k, l.postedCount key k + l.owedCount key k = if (l.outcome k).isSome then 1 else 0
  agrees : ∀ e, l.Issued e → ∃ o, l.outcome (key e) = some o ∧ agrees e o

end Defs

variable {key : ε → κ} {agrees : ε → O → Prop} {l l' : Ledger κ O ε}

/-- Changing one entry of a list moves the sum by the difference. -/
theorem sum_map_set
    {α : Type w} (f : α → Nat) {xs : List α} {j : Nat} {a : α} (b : α)
    (h : xs[j]? = some a) :
    ((xs.set j b).map f).sum + f a = (xs.map f).sum + f b := by
  induction xs generalizing j with
  | nil => simp at h
  | cons x xs ih =>
      cases j with
      | zero =>
          simp only [List.getElem?_cons_zero, Option.some.injEq] at h
          subst h
          simp only [List.set_cons_zero, List.map_cons, List.sum_cons]
          omega
      | succ j =>
          simp only [List.getElem?_cons_succ] at h
          have htail := ih h
          simp only [List.set_cons_succ, List.map_cons, List.sum_cons]
          omega

/-- A step forgets no outcome. -/
theorem Step.outcome_stays
    {k : κ} {o : O}
    (h : Step key agrees l l')
    (hk : l.outcome k = some o) :
    l'.outcome k = some o := by
  cases h with
  | same => exact hk
  | grow => exact hk
  | record hfree _ _ =>
      dsimp only
      rw [Function.update_of_ne, hk]
      rintro rfl
      rw [hfree] at hk
      cases hk
  | post _ => exact hk

omit [DecidableEq κ] in
theorem issued_of_mem_set
    {j : Nat} {e : ε} {x : Option ε}
    (h : some e ∈ l.owed.set j x) :
    some e ∈ l.owed ∨ x = some e := by
  rcases List.mem_or_eq_of_mem_set h with h | h
  · exact Or.inl h
  · exact Or.inr h.symm

/-- A step keeps the books balanced. -/
theorem Step.balanced
    (h : Step key agrees l l')
    (hb : Balanced key agrees l) :
    Balanced key agrees l' := by
  cases h with
  | same => exact hb
  | grow =>
      refine ⟨fun k => ?_, fun e he => hb.agrees e ?_⟩
      · have hcount := hb.count k
        simpa [postedCount, owedCount, weight] using hcount
      · rcases he with he | he
        · exact Or.inl he
        · exact Or.inr (by simpa using he)
  | @record j e o hfree hidle ho =>
      refine ⟨fun k => ?_, fun e' he' => ?_⟩
      · have hcount := hb.count k
        have hsum := sum_map_set (weight key k) (some e) hidle
        simp only [postedCount, owedCount, weight] at hcount hsum ⊢
        rcases eq_or_ne k (key e) with rfl | hne
        · simp only [hfree, Option.isSome_none, Bool.false_eq_true, if_false] at hcount
          simp only [if_true] at hsum
          simp only [Function.update_self, Option.isSome_some, if_true]
          omega
        · simp only [Function.update_of_ne hne]
          rw [if_neg (Ne.symm hne)] at hsum
          omega
      · have hold : l.Issued e' ∨ e' = e := by
          rcases he' with he' | he'
          · exact Or.inl (Or.inl he')
          · rcases issued_of_mem_set he' with he' | he'
            · exact Or.inl (Or.inr he')
            · exact Or.inr (Option.some.inj he').symm
        dsimp only
        rcases hold with hold | rfl
        · obtain ⟨o', hk, ha⟩ := hb.agrees e' hold
          have hne : key e' ≠ key e := by
            intro heq
            rw [heq, hfree] at hk
            cases hk
          exact ⟨o', by rw [Function.update_of_ne hne, hk], ha⟩
        · exact ⟨o, by simp, ho⟩
  | @post j e hdue =>
      refine ⟨fun k => ?_, fun e' he' => hb.agrees e' ?_⟩
      · have hcount := hb.count k
        have hsum := sum_map_set (weight key k) none hdue
        simp only [postedCount, owedCount, List.countP_append, List.countP_singleton,
          decide_eq_true_eq, weight] at hcount hsum ⊢
        omega
      · rcases he' with he' | he'
        · rcases List.mem_append.mp he' with he' | he'
          · exact Or.inl he'
          · obtain rfl := List.mem_singleton.mp he'
            exact Or.inr (List.mem_of_getElem? hdue)
        · rcases issued_of_mem_set he' with he' | he'
          · exact Or.inr he'
          · cases he'

end Ledger
end DiploidAgent
