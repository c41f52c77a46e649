import Mathlib.Data.List.Basic

/-!
# Code that asks and may raise

An action asks questions, one after the other, and ends with a value or raises.  The answer to a
question depends on how many were asked before it: that is any run against any other side.

`Meets x ok bad` is a specification: when `x` ends, its value and what it asked and was answered
satisfy `ok`; when it raises, the questions asked by then satisfy `bad`.  The rules follow the
code: `Meets.pure`, `Meets.orRaise`, `Meets.ask`, `Meets.bind` and `Meets.each`.
-/

namespace DiploidAgent
namespace Asking

universe u

variable {Q A α β : Type u}

/-- From the questions asked so far to the outcome, none when it raises, and the questions asked
by then. -/
def Action (Q : Type u) (α : Type u) : Type u := List Q → Option α × List Q

instance : Monad (Action Q) where
  pure a := fun asked => (some a, asked)
  bind x f := fun asked =>
    match x asked with
    | (some a, asked) => f a asked
    | (none, asked) => (none, asked)

/-- Raises where there is no value. -/
def orRaise (v : Option α) : Action Q α := fun asked => (v, asked)

/-- Asks one question. -/
def ask (answers : Nat → A) (q : Q) : Action Q A :=
  fun asked => (some (answers asked.length), asked ++ [q])

/-- The action for every item, in their order. -/
def each (f : α → Action Q β) : List α → Action Q (List β)
  | [] => pure []
  | a :: as => do
      let b ← f a
      let bs ← each f as
      pure (b :: bs)

/-- What was asked, and the answers from the `n`th on. -/
def Answers (answers : Nat → A) (n : Nat) (log : List (Q × A)) : Prop :=
  log.map Prod.snd = (List.range' n log.length).map answers

theorem answers_append
    {answers : Nat → A} {n : Nat} {log log' : List (Q × A)}
    (h : Answers answers n log) (h' : Answers answers (n + log.length) log') :
    Answers answers n (log ++ log') := by
  unfold Answers at *
  rw [List.map_append, h, h', List.length_append, ← List.map_append, List.range'_append_1]

/-- `x` meets a specification. -/
def Meets (answers : Nat → A) (x : Action Q α) (ok : α → List (Q × A) → Prop)
    (bad : List Q → Prop) : Prop :=
  ∀ asked,
    (∃ a log, x asked = (some a, asked ++ log.map Prod.fst) ∧
      Answers answers asked.length log ∧ ok a log) ∨
    (∃ asked', x asked = (none, asked') ∧ asked <+: asked' ∧ bad asked')

section Rules

variable {answers : Nat → A} {x : Action Q α} {f : α → Action Q β}
  {ok ok' : α → List (Q × A) → Prop} {okf : β → List (Q × A) → Prop} {bad bad' : List Q → Prop}

theorem Meets.mono
    (h : Meets answers x ok bad)
    (hok : ∀ a log, ok a log → ok' a log)
    (hbad : ∀ asked, bad asked → bad' asked) :
    Meets answers x ok' bad' := by
  intro asked
  rcases h asked with ⟨a, log, hrun, hlog, ha⟩ | ⟨asked', hrun, hle, hbad'⟩
  · exact Or.inl ⟨a, log, hrun, hlog, hok a log ha⟩
  · exact Or.inr ⟨asked', hrun, hle, hbad asked' hbad'⟩

theorem Meets.pure
    {a : α} (h : ok a []) :
    Meets answers (pure a : Action Q α) ok bad := by
  intro asked
  refine Or.inl ⟨a, [], ?_, rfl, h⟩
  rw [List.map_nil, List.append_nil]
  rfl

theorem Meets.bind
    (hx : Meets answers x ok bad)
    (hf : ∀ a log, ok a log → Meets answers (f a) (fun b log' => okf b (log ++ log')) bad) :
    Meets answers (x >>= f) okf bad := by
  intro asked
  have hbind : (x >>= f) asked =
      match x asked with
      | (some a, asked) => f a asked
      | (none, asked) => (none, asked) := rfl
  rcases hx asked with ⟨a, log, hrun, hlog, hok⟩ | ⟨asked', hrun, hle, hbad⟩
  · rw [hbind, hrun]
    dsimp only
    have hlen : (asked ++ log.map Prod.fst).length = asked.length + log.length := by simp
    rcases hf a log hok (asked ++ log.map Prod.fst) with
      ⟨b, log', hrun', hlog', hok'⟩ | ⟨asked', hrun', hle, hbad⟩
    · rw [hlen] at hlog'
      refine Or.inl ⟨b, log ++ log', ?_, answers_append hlog hlog', hok'⟩
      rw [hrun', List.map_append, List.append_assoc]
    · exact Or.inr ⟨asked', hrun', (List.prefix_append _ _).trans hle, hbad⟩
  · rw [hbind, hrun]
    exact Or.inr ⟨asked', rfl, hle, hbad⟩

theorem Meets.orRaise
    {v : Option α}
    (hsome : ∀ a, v = some a → Meets answers (f a) okf bad)
    (hnone : v = none → ∀ asked, bad asked) :
    Meets answers (orRaise v >>= f) okf bad := by
  intro asked
  cases v with
  | none => exact Or.inr ⟨asked, rfl, List.prefix_rfl, hnone rfl asked⟩
  | some a => exact hsome a rfl asked

/-- What raises after an answer may blame the answer. -/
theorem Meets.ask
    {q : Q} {g : A → Action Q β}
    (hg : ∀ a, Meets answers (g a) (fun b log => okf b ((q, a) :: log))
      (fun asked => (∃ n < asked.length, answers n = a) → bad asked)) :
    Meets answers (ask answers q >>= g) okf bad := by
  intro asked
  have hbind : (Asking.ask answers q >>= g) asked =
      g (answers asked.length) (asked ++ [q]) := rfl
  rw [hbind]
  have hlen : (asked ++ [q]).length = asked.length + 1 := by simp
  rcases hg (answers asked.length) (asked ++ [q]) with
    ⟨b, log, hrun, hlog, hok⟩ | ⟨asked', hrun, hle, hbad⟩
  · refine Or.inl ⟨b, (q, answers asked.length) :: log, ?_, ?_, hok⟩
    · rw [hrun, List.map_cons, List.append_assoc, List.singleton_append]
    · rw [hlen] at hlog
      exact @answers_append Q A answers asked.length [(q, answers asked.length)] log rfl hlog
  · have hlt : asked.length < asked'.length := by
      have hge := hle.length_le
      omega
    exact Or.inr ⟨asked', hrun, (List.prefix_append _ _).trans hle,
      hbad ⟨asked.length, hlt, rfl⟩⟩

/-- A specification of the item goes to the list of the items. -/
theorem Meets.each
    {okItem : α → β → List (Q × A) → Prop}
    {as : List α}
    (hf : ∀ a ∈ as, Meets answers (f a) (okItem a) bad) :
    Meets answers (each f as)
      (fun bs log => ∃ runs : List (β × List (Q × A)),
        bs = runs.map Prod.fst ∧ log = (runs.map Prod.snd).flatten ∧
          List.Forall₂ (fun a run => okItem a run.1 run.2) as runs) bad := by
  induction as with
  | nil => exact Meets.pure ⟨[], rfl, rfl, List.Forall₂.nil⟩
  | cons a as ih =>
      refine Meets.bind (hf a List.mem_cons_self) fun b log hok => ?_
      refine Meets.bind (ih fun a' ha' => hf a' (List.mem_cons_of_mem _ ha')) fun bs log' hoks => ?_
      obtain ⟨runs, rfl, rfl, hall⟩ := hoks
      refine Meets.pure ⟨(b, log) :: runs, rfl, ?_, List.Forall₂.cons hok hall⟩
      rw [List.append_nil, List.map_cons, List.flatten_cons]

end Rules

end Asking
end DiploidAgent
