import Mathlib.Logic.Relation
import Mathlib.Tactic.Common

/-!
# Runs of a deterministic step function

A system is given by a partial step function `step : σ → α → Option σ`: the
label carries everything the environment decides (which thread moves, what the
clock shows, what a call returns), so that one label leads to at most one
state.  `run` executes a list of labels and is what a concrete schedule is
evaluated with; `Reach` is reachability through steps that all meet a
condition, and carries the invariant rule.
-/

namespace DiploidAgent
namespace Runs

universe u v

variable {σ : Type u} {α : Type v}

/-- Execute a list of labels; `none` as soon as a label is not enabled. -/
def run (step : σ → α → Option σ) : σ → List α → Option σ
  | s, [] => some s
  | s, a :: as => (step s a).bind fun s' => run step s' as

/-- One enabled step whose label meets `cond` in the state it is taken in. -/
def GuardedStep (step : σ → α → Option σ) (cond : σ → α → Prop) (s s' : σ) : Prop :=
  ∃ a, cond s a ∧ step s a = some s'

/-- Reachability through steps that all meet `cond`. -/
def Reach (step : σ → α → Option σ) (cond : σ → α → Prop) : σ → σ → Prop :=
  Relation.ReflTransGen (GuardedStep step cond)

/-- The labels of a run all meet `cond`, each in the state it is taken in. -/
def Guarded (step : σ → α → Option σ) (cond : σ → α → Prop) : σ → List α → Prop
  | _, [] => True
  | s, a :: as => cond s a ∧ ∀ s', step s a = some s' → Guarded step cond s' as

section Rules

variable {step : σ → α → Option σ} {cond : σ → α → Prop}

@[simp] theorem run_nil (s : σ) : run step s [] = some s := rfl

theorem run_cons_eq_some {s s' : σ} {a : α} {as : List α} :
    run step s (a :: as) = some s' ↔
      ∃ t, step s a = some t ∧ run step t as = some s' := by
  simp [run, Option.bind_eq_some_iff]

theorem run_append_eq_some {s s' : σ} {as bs : List α} :
    run step s (as ++ bs) = some s' ↔
      ∃ t, run step s as = some t ∧ run step t bs = some s' := by
  induction as generalizing s with
  | nil => simp
  | cons a as ih =>
      rw [List.cons_append, run_cons_eq_some]
      constructor
      · rintro ⟨t, ht, hrun⟩
        obtain ⟨u, hu, hbs⟩ := ih.mp hrun
        exact ⟨u, run_cons_eq_some.mpr ⟨t, ht, hu⟩, hbs⟩
      · rintro ⟨u, hu, hbs⟩
        obtain ⟨t, ht, htu⟩ := run_cons_eq_some.mp hu
        exact ⟨t, ht, ih.mpr ⟨u, htu, hbs⟩⟩

theorem Reach.refl (s : σ) : Reach step cond s s :=
  Relation.ReflTransGen.refl

theorem Reach.next {s₀ s s' : σ} {a : α}
    (h : Reach step cond s₀ s) (hc : cond s a) (hs : step s a = some s') :
    Reach step cond s₀ s' :=
  h.tail ⟨a, hc, hs⟩

theorem Reach.trans {s₀ s s' : σ}
    (h : Reach step cond s₀ s) (h' : Reach step cond s s') :
    Reach step cond s₀ s' :=
  Relation.ReflTransGen.trans h h'

/-- A weaker condition allows more runs. -/
theorem Reach.mono {cond' : σ → α → Prop} {s s' : σ}
    (h : Reach step cond s s') (hweaker : ∀ s a, cond s a → cond' s a) :
    Reach step cond' s s' := by
  induction h with
  | refl => exact Reach.refl s
  | tail _ hlast ih =>
      obtain ⟨a, hc, hs⟩ := hlast
      exact ih.next (hweaker _ a hc) hs

/-- The invariant rule: what holds at the start and is kept by every step that
meets the condition holds in every state reached. -/
theorem Reach.invariant {P : σ → Prop} {s₀ s : σ}
    (h : Reach step cond s₀ s)
    (hstart : P s₀)
    (hstep : ∀ s a s', P s → cond s a → step s a = some s' → P s') :
    P s := by
  induction h with
  | refl => exact hstart
  | tail _ hlast ih =>
      obtain ⟨a, hc, hs⟩ := hlast
      exact hstep _ a _ ih hc hs

/-- A relation to the start that every step extends holds at the end. -/
theorem Reach.relation {R P : σ → Prop} {s₀ s : σ}
    (h : Reach step cond s₀ s)
    (hinv : P s₀)
    (hkeep : ∀ s a s', P s → cond s a → step s a = some s' → P s')
    (hstart : R s₀)
    (hstep : ∀ s a s', P s → R s → cond s a → step s a = some s' → R s') :
    R s := by
  have hboth : P s ∧ R s := by
    induction h with
    | refl => exact ⟨hinv, hstart⟩
    | tail _ hlast ih =>
        obtain ⟨a, hc, hs⟩ := hlast
        exact ⟨hkeep _ a _ ih.1 hc hs, hstep _ a _ ih.1 ih.2 hc hs⟩
  exact hboth.2

/-- A run all of whose labels meet the condition reaches its last state. -/
theorem reach_of_run {s s' : σ} {as : List α}
    (hrun : run step s as = some s') (hg : Guarded step cond s as) :
    Reach step cond s s' := by
  induction as generalizing s with
  | nil =>
      obtain rfl : s = s' := by simpa using hrun
      exact Reach.refl s
  | cons a as ih =>
      obtain ⟨t, ht, hrest⟩ := run_cons_eq_some.mp hrun
      have hfirst : Reach step cond s t := (Reach.refl s).next hg.1 ht
      exact hfirst.trans (ih hrest (hg.2 t ht))

/-- A run whose labels all pass a check. -/
def checkRun (step : σ → α → Option σ) (check : σ → α → Bool) : σ → List α → Bool
  | _, [] => true
  | s, a :: as => check s a && (step s a).all fun s' => checkRun step check s' as

theorem guarded_of_checkRun (check : σ → α → Bool) {s : σ} {as : List α}
    (hcheck : ∀ s a, check s a = true → cond s a)
    (h : checkRun step check s as = true) :
    Guarded step cond s as := by
  induction as generalizing s with
  | nil => trivial
  | cons a as ih =>
      rw [checkRun, Bool.and_eq_true] at h
      refine ⟨hcheck s a h.1, fun s' hs => ih ?_⟩
      simpa [hs] using h.2

/-- Without a condition every run reaches its last state. -/
theorem reach_of_run_free {s s' : σ} {as : List α}
    (hrun : run step s as = some s') :
    Reach step (fun _ _ => True) s s' := by
  refine reach_of_run hrun ?_
  induction as generalizing s with
  | nil => trivial
  | cons a as ih =>
      refine ⟨trivial, fun t ht => ih ?_⟩
      obtain ⟨t', ht', hrest⟩ := run_cons_eq_some.mp hrun
      obtain rfl : t' = t := Option.some.inj (ht'.symm.trans ht)
      exact hrest

/-- The last state of a run that goes through. -/
theorem run_eq_getD {s : σ} {as : List α}
    (h : (run step s as).isSome = true) :
    run step s as = some ((run step s as).getD s) := by
  obtain ⟨t, ht⟩ := Option.isSome_iff_exists.mp h
  rw [ht, Option.getD_some]

/-- The last state of a run that goes through is reached. -/
theorem reach_run {s : σ} {as : List α}
    (h : (run step s as).isSome = true) :
    Reach step (fun _ _ => True) s ((run step s as).getD s) :=
  reach_of_run_free (run_eq_getD h)

end Rules

end Runs
end DiploidAgent
