import Mathlib.Data.List.Infix
import Mathlib.Tactic.Common

/-!
# Histories of a total step function

What a list of labels leads to is their fold.  A condition on a label and the state it is
taken in holds throughout a list when it holds of every label there; what such steps keep is
kept to the end.
-/

namespace DiploidAgent
namespace Histories

universe u v

variable {σ : Type u} {α : Type v}

/-- The condition holds of every label, in the state it is taken in. -/
def Throughout (step : σ → α → σ) (cond : σ → α → Prop) (s : σ) (as : List α) : Prop :=
  ∀ before a, before ++ [a] <+: as → cond (before.foldl step s) a

section Rules

variable {step : σ → α → σ} {cond : σ → α → Prop} {s : σ} {as : List α}

theorem Throughout.earlier
    (h : Throughout step cond s as) {earlier : List α} (hearlier : earlier <+: as) :
    Throughout step cond s earlier :=
  fun before a hbefore => h before a (hbefore.trans hearlier)

/-- What the steps keep holds at the end. -/
theorem Throughout.keeps
    {P : σ → Prop} (h : Throughout step cond s as) (hstart : P s)
    (hstep : ∀ t a, P t → cond t a → P (step t a)) :
    P (as.foldl step s) := by
  induction as using List.reverseRecOn with
  | nil => exact hstart
  | append_singleton as a ih =>
      rw [List.foldl_append, List.foldl_cons, List.foldl_nil]
      exact hstep _ a (ih (h.earlier (List.prefix_append as [a]))) (h as a List.prefix_rfl)

end Rules

end Histories
end DiploidAgent
