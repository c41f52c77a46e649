import Mathlib.Data.List.Induction
import Mathlib.Tactic.Common
import DiploidAgent.Lib.Dict

/-!
# Loaders that skip malformed lines

A loader goes through the lines of a file.  A line holds a record, or it fails with an error
that the loader catches, and is skipped, or with one that it does not catch, and loading fails.

A loader gives the records of a file, as if the other lines were not there, exactly when no
line fails (`loadLines_eq_iff`).
-/

namespace DiploidAgent
namespace LineLoader

universe u

variable {ε κ ρ τ lin : Type u}

/-- What a loader makes of a line. -/
inductive Outcome (ε ρ : Type u) where
  | skipped
  | record (r : ρ)
  | failed (e : ε)

/-- `try` around a line. -/
def attempt (catches : ε → Bool) : Except ε ρ → Outcome ε ρ
  | .ok r => .record r
  | .error e => if catches e then .skipped else .failed e

/-- What follows behind the `try`, where nothing is caught. -/
def Outcome.andThen {ρ' : Type u} (o : Outcome ε ρ) (f : ρ → Except ε ρ') : Outcome ε ρ' :=
  match o with
  | .skipped => .skipped
  | .failed e => .failed e
  | .record r =>
      match f r with
      | .ok r' => .record r'
      | .error e => .failed e

def Outcome.record? : Outcome ε ρ → Option ρ
  | .record r => some r
  | _ => none

/-- The loop over the lines. -/
def loadLines (put : τ → ρ → τ) : τ → List (Outcome ε ρ) → Except ε τ
  | t, [] => .ok t
  | t, .skipped :: rest => loadLines put t rest
  | t, .record r :: rest => loadLines put (put t r) rest
  | _, .failed e :: _ => .error e

section Loops

variable {put : τ → ρ → τ} {t : τ} {os : List (Outcome ε ρ)}

/-- The loop fails at the first line that does. -/
theorem loadLines_eq_ok_iff
    (t' : τ) :
    loadLines put t os = .ok t' ↔
      (∀ e, Outcome.failed e ∉ os) ∧ t' = (os.filterMap Outcome.record?).foldl put t := by
  induction os generalizing t with
  | nil => simp [loadLines, eq_comm]
  | cons o os ih =>
      cases o with
      | skipped => simp [loadLines, ih, List.filterMap_cons, Outcome.record?]
      | record r => simp [loadLines, ih, Outcome.record?]
      | failed e =>
          refine iff_of_false (fun h => by cases h) fun h => h.1 e List.mem_cons_self

/-- A loader of lines, and the records that the lines hold. -/
theorem loadLines_eq_iff
    {outcome : lin → Outcome ε ρ} {holds : lin → Option ρ}
    (hholds : ∀ line r, outcome line = .record r ↔ holds line = some r)
    (t : τ) (lines : List lin) :
    loadLines put t (lines.map outcome) = .ok ((lines.filterMap holds).foldl put t) ↔
      ∀ line ∈ lines, ∀ e, outcome line ≠ .failed e := by
  have hrecords : ∀ line, (outcome line).record? = holds line := by
    intro line
    cases hline : outcome line with
    | record r => exact ((hholds line r).mp hline).symm
    | _ =>
        refine (Option.eq_none_iff_forall_ne_some.mpr fun r hr => ?_).symm
        rw [(hholds line r).mpr hr] at hline
        cases hline
  have hfold : (lines.map outcome).filterMap Outcome.record? = lines.filterMap holds := by
    rw [List.filterMap_map]
    exact List.filterMap_congr fun line _ => hrecords line
  rw [loadLines_eq_ok_iff, hfold]
  simp only [List.mem_map, and_true]
  exact ⟨fun h line hline e he => h e ⟨line, hline, he⟩,
    fun h e ⟨line, hline, he⟩ => h line hline e he⟩

/-- A loader that loads at all gives the records. -/
theorem loadLines_of_ok
    {outcome : lin → Outcome ε ρ} {lines : List lin} {t' : τ}
    (h : loadLines put t (lines.map outcome) = .ok t') :
    ∀ line ∈ lines, ∀ e, outcome line ≠ .failed e := by
  intro line hline e he
  exact ((loadLines_eq_ok_iff t').mp h).1 e (List.mem_map.mpr ⟨line, hline, he⟩)

end Loops

section Attempts

variable {catches : ε → Bool} {x : Except ε ρ}

theorem attempt_eq_record_iff
    {r : ρ} :
    attempt catches x = .record r ↔ x = .ok r := by
  cases x with
  | ok r' => simp [attempt]
  | error e =>
      unfold attempt
      cases hcatches : catches e <;> simp [hcatches]

theorem attempt_failed_iff :
    (∃ e, attempt catches x = .failed e) ↔ ∃ e, x = .error e ∧ catches e = false := by
  cases x with
  | ok r => simp [attempt]
  | error e =>
      unfold attempt
      cases hcatches : catches e <;> simp [hcatches]

theorem andThen_eq_record_iff
    {ρ' : Type u} {o : Outcome ε ρ} {f : ρ → Except ε ρ'} {r' : ρ'} :
    o.andThen f = .record r' ↔ ∃ r, o = .record r ∧ f r = .ok r' := by
  cases o with
  | record r =>
      unfold Outcome.andThen
      dsimp only
      cases hf : f r <;> simp [hf]
  | _ => simp [Outcome.andThen]

theorem andThen_failed_iff
    {ρ' : Type u} {o : Outcome ε ρ} {f : ρ → Except ε ρ'} :
    (∃ e, o.andThen f = .failed e) ↔
      (∃ e, o = .failed e) ∨ ∃ r e, o = .record r ∧ f r = .error e := by
  cases o with
  | record r =>
      unfold Outcome.andThen
      dsimp only
      cases hf : f r <;> simp [hf]
  | _ => simp [Outcome.andThen]

end Attempts

section Tables

variable [DecidableEq κ]

/-- The records in the order of their lines, the last one of a key in the place of the first. -/
def tableOf (l : List (κ × ρ)) : Dict κ ρ := l.foldl (fun m e => m.set e.1 e.2) Dict.empty

/-- The last record of a key wins. -/
theorem get_tableOf
    (l : List (κ × ρ)) (k : κ) :
    (tableOf l).get k = (l.reverse.find? fun e => e.1 = k).map Prod.snd := by
  unfold tableOf
  induction l using List.reverseRecOn with
  | nil => rfl
  | append_singleton l e ih =>
      rw [List.foldl_append, List.foldl_cons, List.foldl_nil, Dict.get_set, ih,
        List.reverse_append, List.reverse_singleton, List.singleton_append, List.find?_cons]
      by_cases hk : e.1 = k <;> simp [hk]

end Tables

end LineLoader
end DiploidAgent
