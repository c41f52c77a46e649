import Mathlib.Algebra.Order.Ring.Rat
import DiploidAgent.Lib.Dict
import DiploidAgent.Lib.Runs

/-!
# Requests and responses on the ACP transport

A request registers a future in the pending map and sends its line; the reader pops the
future that a response names and resolves it; a sweep fails whatever is pending.  Calls,
prompts and the reader take turns on the loop, while the watchdog, a restart and the death
of the child come from other threads.

A future is resolved at most once, with the first response that names it or by a sweep, in
every run.  That a sweep leaves nothing behind needs more: the sweeps that come from
another thread begin before the generation is marked terminated, and a prompt registers
itself without asking whether the transport accepts requests.  As long as such a sweep
begins only when no call is accepted any more, and no prompt starts after it, everything
registered before a sweep is settled and nothing is registered after it
(`requests_matched`).
-/

namespace DiploidAgent
namespace Acp
namespace Requests

open Runs

/-! ### Messages -/

/-- The `id` of a message. -/
inductive RpcId where
  | number (q : Rat)
  | bool (b : Bool)
  | other
deriving DecidableEq

/-- The key of `_pending` that an id equals; a boolean equals 0 or 1. -/
def RpcId.key : RpcId → Option Nat
  | .number q => if q.den = 1 ∧ 0 ≤ q.num then some q.num.toNat else none
  | .bool b => some b.toNat
  | .other => none

/-- A response: the error, or the result. -/
structure Response where
  id : RpcId
  body : Except String String
deriving DecidableEq

/-- A line of the agent's stdout. -/
inductive Message where
  | malformed
  | request (id : RpcId) (method : String)
  | notification (method : String)
  | response (r : Response)
deriving DecidableEq

/-! ### Futures -/

/-- What a future is resolved with: a response, or the error of a sweep. -/
inductive Outcome where
  | answered (r : Response)
  | swept
deriving DecidableEq

inductive Future where
  | unresolved
  | resolved (o : Outcome)
  | cancelled
deriving DecidableEq

def Future.outcome : Future → Option Outcome
  | .unresolved => none
  | .resolved o => some o
  | .cancelled => none

/-- A request: its future, and whether the call or the prompt that made it is over. -/
structure Request where
  future : Future
  ended : Bool
deriving DecidableEq

/-- What happened to requests. -/
inductive Event where
  | registered (id : Nat)
  | received (r : Response)
  | resolved (id : Nat) (o : Outcome)
deriving DecidableEq

/-- The responses that carry an id and came after its request was registered, in order; the
newest event comes first in a log. -/
def answers (id : Nat) : List Event → List Response
  | [] => []
  | .registered j :: log => if j = id then [] else answers id log
  | .received r :: log =>
      if r.id.key = some id then answers id log ++ [r] else answers id log
  | .resolved _ _ :: log => answers id log

/-- What the future of a request was resolved with. -/
def resolutions (id : Nat) : List Event → List Outcome
  | [] => []
  | .registered _ :: log => resolutions id log
  | .received _ :: log => resolutions id log
  | .resolved j o :: log => if j = id then o :: resolutions id log else resolutions id log

theorem key_of_mem_answers
    {id : Nat} {r : Response} {log : List Event} (h : r ∈ answers id log) :
    r.id.key = some id := by
  induction log with
  | nil => cases h
  | cons e log ih =>
      cases e with
      | registered j =>
          simp only [answers] at h
          split_ifs at h
          · cases h
          · exact ih h
      | received r' =>
          simp only [answers] at h
          split_ifs at h with hkey
          · rcases List.mem_append.mp h with h | h
            · exact ih h
            · obtain rfl := List.mem_singleton.mp h
              exact hkey
          · exact ih h
      | resolved j o => exact ih h

/-- A further response does not change which one was the first. -/
theorem head?_answers_received
    {id : Nat} {r r' : Response} {log : List Event} (h : (answers id log).head? = some r) :
    (answers id (.received r' :: log)).head? = some r := by
  simp only [answers]
  split_ifs
  · rw [List.head?_append, h, Option.some_or]
  · exact h

theorem head?_answers_registered
    {id j : Nat} {r : Response} {log : List Event} (hne : j ≠ id)
    (h : (answers id log).head? = some r) :
    (answers id (.registered j :: log)).head? = some r := by
  rw [answers, if_neg hne]
  exact h

/-! ### The transport -/

/-- What the loop is at: a call between its check and its registration, the reader between
taking a future and resolving it, or a sweep that runs on the loop. -/
inductive Loop where
  | idle
  | checked
  | popped (id : Nat) (r : Response)
  | sweeping
deriving DecidableEq

/-- `_next_id`, the requests, `_pending`, the loop, the futures that the sweep under way
has left to look at, whether a sweep ended in this generation, the requests that were
registered after one, `_terminated`, whether the process is gone, whether the reader is
done, and what happened. -/
structure State where
  nextId : Nat
  requests : Dict Nat Request
  pending : List Nat
  loop : Loop
  sweep : Option (List Nat)
  swept : Bool
  late : List Nat
  terminated : Bool
  childDown : Bool
  readerDone : Bool
  log : List Event

/-- A generation that has just begun. -/
def initial : State :=
  { nextId := 0
    requests := Dict.empty
    pending := []
    loop := .idle
    sweep := none
    swept := false
    late := []
    terminated := false
    childDown := false
    readerDone := false
    log := [] }

namespace State

/-- `_check_accepting`. -/
def accepting (s : State) : Bool := !s.terminated && !s.childDown && !s.readerDone

def outcome (s : State) (id : Nat) : Option Outcome :=
  (s.requests.get id).bind fun q => q.future.outcome

/-- The future is resolved, unless it is done. -/
def resolve (s : State) (id : Nat) (o : Outcome) : State :=
  match s.requests.get id with
  | none => s
  | some q =>
      if q.future = .unresolved then
        { s with
          requests := s.requests.set id { q with future := .resolved o }
          log := .resolved id o :: s.log }
      else s

/-- A request takes its id and registers its future. -/
def register (s : State) (ended : Bool) : State :=
  { s with
    nextId := s.nextId + 1
    requests := s.requests.set (s.nextId + 1) {
      future := .unresolved
      ended := ended }
    pending := s.pending ++ [s.nextId + 1]
    loop := .idle
    late := if s.swept then s.late ++ [s.nextId + 1] else s.late
    log := .registered (s.nextId + 1) :: s.log }

/-- The future of a call that ran out of time is cancelled, unless it is done. -/
def cancelFuture (s : State) (id : Nat) : State :=
  match s.requests.get id with
  | none => s
  | some q =>
      if q.future = .unresolved then
        { s with requests := s.requests.set id { q with future := .cancelled } }
      else s

/-- A call or a prompt ends, with or without a response, and takes its entry away. -/
def finish (s : State) (id : Nat) : State :=
  match s.requests.get id with
  | none => s
  | some q =>
      { s with
        requests := s.requests.set id { q with ended := true }
        pending := s.pending.filter (· ≠ id) }

/-- The reader takes the future that a response names, if there is one. -/
def receive (s : State) (r : Response) : State :=
  let s' := { s with log := .received r :: s.log }
  match r.id.key with
  | none => s'
  | some id =>
      if id ∈ s.pending then
        { s' with
          pending := s.pending.filter (· ≠ id)
          loop := .popped id r }
      else s'

/-- `_reader`, for a line. -/
def read (s : State) : Message → State
  | .malformed => s
  | .request _ _ => s
  | .notification _ => s
  | .response r => s.receive r

/-- `_unblock_inflight` begins: it lists what is pending. -/
def beginSweep (s : State) (loop : Loop) : State :=
  { s with
    loop := loop
    sweep := some s.pending }

/-- `_unblock_inflight` ends: the pending map is cleared. -/
def endSweep (s : State) : State :=
  { s with
    pending := []
    loop := if s.loop = .sweeping then .idle else s.loop
    sweep := none
    swept := true }

/-- `_start_transport`, up to `_terminated = False`. -/
def nextGeneration (s : State) : State :=
  { s with
    swept := false
    terminated := false
    childDown := false
    readerDone := false }

end State

/-- On the loop: a call checks and registers; a prompt registers, and returns at once when
a cancel was remembered for its session; a call or a prompt ends, or the future it waits
for is cancelled; the reader reads a line, and resolves what it took; close sweeps a
terminated generation; the reader ends, and the end of the reader or of the stderr drain
fails the transport.  On other threads: a sweep by the watchdog or a restart, its further
steps, `_terminated`, the end of the process, and the next generation. -/
inductive Op where
  | check
  | register
  | prompt (remembered : Bool)
  | cancelFuture (id : Nat)
  | finish (id : Nat)
  | line (m : Message)
  | deliver
  | closeSweep
  | readerEnds
  | taskDone
  | unblock
  | sweepNext
  | sweepEnd
  | terminate
  | exit
  | nextGeneration
deriving DecidableEq

def step (s : State) : Op → Option State
  | .check =>
      if s.loop = .idle then
        if s.accepting then some { s with loop := .checked } else some s
      else none
  | .register => if s.loop = .checked then some (s.register false) else none
  | .prompt remembered => if s.loop = .idle then some (s.register remembered) else none
  | .cancelFuture id => if s.loop = .idle then some (s.cancelFuture id) else none
  | .finish id => if s.loop = .idle then some (s.finish id) else none
  | .line m => if s.loop = .idle ∧ !s.readerDone then some (s.read m) else none
  | .deliver =>
      match s.loop with
      | .popped id r => some { s.resolve id (.answered r) with loop := .idle }
      | _ => none
  | .closeSweep =>
      if s.loop = .idle ∧ s.sweep = none ∧ s.terminated then some (s.beginSweep .sweeping)
      else none
  | .readerEnds => if s.loop = .idle then some { s with readerDone := true } else none
  | .taskDone =>
      if s.loop = .idle ∧ s.sweep = none then
        if s.childDown then some s
        else some (State.beginSweep { s with terminated := true } .sweeping)
      else none
  | .unblock => if s.sweep = none then some (s.beginSweep s.loop) else none
  | .sweepNext =>
      match s.sweep with
      | some (id :: rest) => some { s.resolve id .swept with sweep := some rest }
      | _ => none
  | .sweepEnd => if s.sweep = some [] then some s.endSweep else none
  | .terminate => some { s with terminated := true }
  | .exit => some { s with childDown := true }
  | .nextGeneration =>
      if s.loop = .idle ∧ s.sweep = none then some s.nextGeneration else none

/-! ### Futures and responses -/

/-- What the log says of a request is what its future says, the first response is the one
it got, and a request that is still pending has had none. -/
structure Matching (s : State) : Prop where
  known : ∀ id, s.nextId < id → s.requests.get id = none
  told : ∀ id, resolutions id s.log = (s.outcome id).toList
  first : ∀ id r, .answered r ∈ resolutions id s.log → (answers id s.log).head? = some r
  unanswered : ∀ id ∈ s.pending, answers id s.log = []
  hand : ∀ id r, s.loop = .popped id r → (answers id s.log).head? = some r

theorem matching_initial : Matching initial where
  known _ _ := rfl
  told _ := rfl
  first _ _ h := by cases h
  unanswered _ h := by cases h
  hand _ _ h := by cases h

section Matching

variable {s s' : State} {id : Nat}

/-- A step that resolves, registers and receives nothing. -/
theorem matching_same
    (h : Matching s) (hnext : s'.nextId = s.nextId) (hrequests : s'.requests = s.requests)
    (hlog : s'.log = s.log) (hpending : s'.pending ⊆ s.pending)
    (hloop : ∀ id r, s'.loop = .popped id r → s.loop = .popped id r) :
    Matching s' where
  known := by
    rw [hnext, hrequests]
    exact h.known
  told := by
    intro id
    rw [hlog, h.told, State.outcome, State.outcome, hrequests]
  first := by
    rw [hlog]
    exact h.first
  unanswered id hid := by
    rw [hlog]
    exact h.unanswered id (hpending hid)
  hand id r hpopped := by
    rw [hlog]
    exact h.hand id r (hloop id r hpopped)

/-- A request is rewritten, and its future says the same as before. -/
theorem matching_set
    {q q' : Request} {pending : List Nat} (h : Matching s) (hq : s.requests.get id = some q)
    (hsame : q'.future.outcome = q.future.outcome) (hpending : pending ⊆ s.pending) :
    Matching { s with
      requests := s.requests.set id q'
      pending := pending } where
  known j hj := by
    rcases eq_or_ne id j with rfl | hne
    · rw [h.known id hj] at hq
      cases hq
    · exact (s.requests.get_set_of_ne hne q').trans (h.known j hj)
  told j := by
    rcases eq_or_ne id j with rfl | hne
    · have htold := h.told id
      rw [State.outcome, hq] at htold
      rw [State.outcome, Dict.get_set_self, htold]
      exact congrArg Option.toList hsame.symm
    · have htold := h.told j
      rw [State.outcome] at htold ⊢
      rwa [Dict.get_set_of_ne _ hne]
  first := h.first
  unanswered j hj := h.unanswered j (hpending hj)
  hand := h.hand

theorem matching_resolve
    {o : Outcome} (h : Matching s)
    (hfirst : ∀ r, o = .answered r → (answers id s.log).head? = some r) :
    Matching (s.resolve id o) := by
  unfold State.resolve
  cases hq : s.requests.get id with
  | none => exact h
  | some q =>
      dsimp only
      split_ifs with hfuture
      · have hnone : resolutions id s.log = [] := by
          rw [h.told, State.outcome, hq, Option.bind_some, hfuture]
          rfl
        refine ⟨fun j hj => ?_, fun j => ?_, fun j r hr => ?_, h.unanswered, h.hand⟩
        · rcases eq_or_ne id j with rfl | hne
          · rw [h.known id hj] at hq
            cases hq
          · exact (s.requests.get_set_of_ne hne _).trans (h.known j hj)
        · rcases eq_or_ne id j with rfl | hne
          · rw [resolutions, if_pos rfl, hnone, State.outcome, Dict.get_set_self]
            rfl
          · rw [resolutions, if_neg hne, h.told, State.outcome, State.outcome,
              Dict.get_set_of_ne _ hne]
        · rcases eq_or_ne id j with rfl | hne
          · rw [resolutions, if_pos rfl, hnone, List.mem_singleton] at hr
            exact hfirst r hr.symm
          · rw [resolutions, if_neg hne] at hr
            exact h.first j r hr
      · exact h

theorem matching_register
    (h : Matching s) (ended : Bool) :
    Matching (s.register ended) := by
  have hnew : s.requests.get (s.nextId + 1) = none := h.known _ (Nat.lt_succ_self _)
  refine ⟨fun j hj => ?_, fun j => ?_, fun j r hr => ?_, fun j hj => ?_, fun j r hpopped => ?_⟩
  · have hlt : s.nextId + 1 < j := hj
    refine (s.requests.get_set_of_ne (Nat.ne_of_lt hlt) _).trans (h.known j ?_)
    omega
  · have htold := h.told j
    rcases eq_or_ne (s.nextId + 1) j with rfl | hne
    · rw [State.outcome, hnew] at htold
      rw [State.outcome, State.register, Dict.get_set_self]
      exact htold
    · rw [State.outcome] at htold
      rw [State.outcome, State.register, Dict.get_set_of_ne _ hne]
      exact htold
  · have hr : .answered r ∈ resolutions j s.log := hr
    rcases eq_or_ne (s.nextId + 1) j with rfl | hne
    · rw [h.told, State.outcome, hnew] at hr
      cases hr
    · exact head?_answers_registered hne (h.first j r hr)
  · change answers j (.registered (s.nextId + 1) :: s.log) = []
    rw [answers]
    split_ifs with hid
    · rfl
    · rcases List.mem_append.mp hj with hj | hj
      · exact h.unanswered j hj
      · exact absurd (List.mem_singleton.mp hj).symm hid
  · cases hpopped

theorem matching_cancelFuture
    (h : Matching s) (id : Nat) :
    Matching (s.cancelFuture id) := by
  unfold State.cancelFuture
  cases hq : s.requests.get id with
  | none => exact h
  | some q =>
      dsimp only
      split_ifs with hfuture
      · refine matching_set h hq ?_ (List.Subset.refl _)
        rw [hfuture]
        rfl
      · exact h

theorem matching_finish
    (h : Matching s) (id : Nat) :
    Matching (s.finish id) := by
  unfold State.finish
  cases hq : s.requests.get id with
  | none => exact h
  | some q => exact matching_set h hq rfl (List.filter_subset_self _)

/-- A response that names no pending request is noted and nothing else. -/
theorem receive_of_not_pending
    {r : Response} (h : ∀ id, r.id.key = some id → id ∉ s.pending) :
    s.receive r = { s with log := .received r :: s.log } := by
  unfold State.receive
  cases hkey : r.id.key with
  | none => rfl
  | some id => exact if_neg (h id hkey)

theorem receive_of_pending
    {r : Response} (hkey : r.id.key = some id) (h : id ∈ s.pending) :
    s.receive r = { s with
      pending := s.pending.filter (· ≠ id)
      loop := .popped id r
      log := .received r :: s.log } := by
  unfold State.receive
  rw [hkey]
  exact if_pos h

theorem matching_receive
    (h : Matching s) (hloop : ∀ id r, s.loop ≠ .popped id r) (r : Response) :
    Matching (s.receive r) := by
  have hfirst : ∀ j r', .answered r' ∈ resolutions j s.log →
      (answers j (.received r :: s.log)).head? = some r' :=
    fun j r' hr' => head?_answers_received (h.first j r' hr')
  have hother : ∀ j ∈ s.pending, r.id.key ≠ some j → answers j (.received r :: s.log) = [] := by
    intro j hj hne
    rw [answers, if_neg hne]
    exact h.unanswered j hj
  by_cases hpending : ∃ id, r.id.key = some id ∧ id ∈ s.pending
  · obtain ⟨id, hkey, hid⟩ := hpending
    rw [receive_of_pending hkey hid]
    refine ⟨h.known, h.told, hfirst, fun j hj => ?_, fun j r' hpopped => ?_⟩
    · obtain ⟨hj, hne⟩ := List.mem_filter.mp hj
      refine hother j hj ?_
      rw [hkey]
      rintro ⟨⟩
      exact of_decide_eq_true hne rfl
    · cases hpopped
      change (answers id (.received r :: s.log)).head? = some r
      rw [answers, if_pos hkey, h.unanswered id hid]
      rfl
  · have hunknown : ∀ id, r.id.key = some id → id ∉ s.pending :=
      fun id hkey hid => hpending ⟨id, hkey, hid⟩
    rw [receive_of_not_pending hunknown]
    refine ⟨h.known, h.told, hfirst, fun j hj => ?_, fun j r' hpopped => ?_⟩
    · exact hother j hj fun hkey => hunknown j hkey hj
    · exact absurd hpopped (hloop j r')

theorem not_popped_of_idle
    (h : s.loop = .idle) (id : Nat) (r : Response) :
    s.loop ≠ .popped id r := by
  rw [h]
  rintro ⟨⟩

theorem matching_beginSweep
    {loop : Loop} (h : Matching s)
    (hloop : ∀ id r, loop = .popped id r → s.loop = .popped id r) :
    Matching (s.beginSweep loop) :=
  matching_same h rfl rfl rfl (List.Subset.refl _) hloop

theorem matching_step
    {op : Op} (h : Matching s) (hstep : step s op = some s') :
    Matching s' := by
  have hsub : s.pending ⊆ s.pending := List.Subset.refl _
  cases op with
  | check =>
      simp only [step] at hstep
      split_ifs at hstep
      · obtain rfl := Option.some.inj hstep
        exact matching_same h rfl rfl rfl hsub fun _ _ hpopped => by cases hpopped
      · obtain rfl := Option.some.inj hstep
        exact h
  | register =>
      simp only [step] at hstep
      split_ifs at hstep
      obtain rfl := Option.some.inj hstep
      exact matching_register h false
  | prompt remembered =>
      simp only [step] at hstep
      split_ifs at hstep
      obtain rfl := Option.some.inj hstep
      exact matching_register h remembered
  | cancelFuture id =>
      simp only [step] at hstep
      split_ifs at hstep
      obtain rfl := Option.some.inj hstep
      exact matching_cancelFuture h id
  | finish id =>
      simp only [step] at hstep
      split_ifs at hstep
      obtain rfl := Option.some.inj hstep
      exact matching_finish h id
  | line m =>
      simp only [step] at hstep
      split_ifs at hstep with hidle
      obtain rfl := Option.some.inj hstep
      cases m with
      | malformed => exact h
      | request id method => exact h
      | notification method => exact h
      | response r => exact matching_receive h (not_popped_of_idle hidle.1) r
  | deliver =>
      simp only [step] at hstep
      split at hstep
      · rename_i id r hpopped
        obtain rfl := Option.some.inj hstep
        have hresolved : Matching (s.resolve id (.answered r)) := by
          refine matching_resolve h fun r' hr' => ?_
          cases hr'
          exact h.hand id r hpopped
        refine matching_same hresolved rfl rfl rfl (List.Subset.refl _) ?_
        exact fun _ _ hpopped => by cases hpopped
      · cases hstep
  | closeSweep =>
      simp only [step] at hstep
      split_ifs at hstep
      obtain rfl := Option.some.inj hstep
      exact matching_beginSweep h fun _ _ hpopped => by cases hpopped
  | readerEnds =>
      simp only [step] at hstep
      split_ifs at hstep
      obtain rfl := Option.some.inj hstep
      exact matching_same h rfl rfl rfl hsub fun _ _ hpopped => hpopped
  | taskDone =>
      simp only [step] at hstep
      split_ifs at hstep
      · obtain rfl := Option.some.inj hstep
        exact h
      · obtain rfl := Option.some.inj hstep
        have hterminated : Matching { s with terminated := true } :=
          matching_same h rfl rfl rfl hsub fun _ _ hpopped => hpopped
        exact matching_beginSweep hterminated fun _ _ hpopped => by cases hpopped
  | unblock =>
      simp only [step] at hstep
      split_ifs at hstep
      obtain rfl := Option.some.inj hstep
      exact matching_beginSweep h fun _ _ hpopped => hpopped
  | sweepNext =>
      simp only [step] at hstep
      split at hstep
      · rename_i id rest hsweep
        obtain rfl := Option.some.inj hstep
        have hresolved : Matching (s.resolve id .swept) :=
          matching_resolve h fun r hr => by cases hr
        exact matching_same hresolved rfl rfl rfl (List.Subset.refl _) fun _ _ hpopped => hpopped
      · cases hstep
  | sweepEnd =>
      simp only [step] at hstep
      split_ifs at hstep
      obtain rfl := Option.some.inj hstep
      refine matching_same h rfl rfl rfl (List.nil_subset _) fun id r hpopped => ?_
      simp only [State.endSweep] at hpopped
      split_ifs at hpopped
      exact hpopped
  | terminate =>
      obtain rfl := Option.some.inj hstep
      exact matching_same h rfl rfl rfl hsub fun _ _ hpopped => hpopped
  | exit =>
      obtain rfl := Option.some.inj hstep
      exact matching_same h rfl rfl rfl hsub fun _ _ hpopped => hpopped
  | nextGeneration =>
      simp only [step] at hstep
      split_ifs at hstep
      obtain rfl := Option.some.inj hstep
      exact matching_same h rfl rfl rfl hsub fun _ _ hpopped => hpopped

end Matching

/-! ### Sweeps -/

/-- A request is still waiting: its future is unresolved, its call is not over, and the
reader does not hold its response. -/
def State.Waits (s : State) (id : Nat) : Prop :=
  ∃ q, s.requests.get id = some q ∧ q.future = .unresolved ∧ q.ended = false ∧
    ∀ r, s.loop ≠ .popped id r

/-- A sweep from another thread begins when no call is accepted and none is between its
check and its registration; no prompt starts once a sweep of the generation has begun. -/
def Regular (s : State) : Op → Prop
  | .prompt _ => s.swept = false ∧ s.sweep = none
  | .unblock => s.accepting = false ∧ s.loop ≠ .checked
  | _ => True

/-- Whoever waits is pending, and is yet to be looked at by the sweep under way; once a
generation was swept nobody waits; and from the beginning of a sweep on no call is
accepted. -/
structure Settling (s : State) : Prop where
  late : s.late = []
  waiting : ∀ id, s.Waits id → id ∈ s.pending
  closed : s.swept = true ∨ s.sweep ≠ none → s.accepting = false ∧ s.loop ≠ .checked
  left : ∀ rest, s.sweep = some rest → ∀ id, s.Waits id → id ∈ rest
  settled : s.swept = true → ∀ id, ¬s.Waits id

theorem not_waits_initial (id : Nat) :
    ¬initial.Waits id := by
  rintro ⟨q, hq, -⟩
  cases hq

theorem settling_initial : Settling initial where
  late := rfl
  waiting id hwaits := absurd hwaits (not_waits_initial id)
  closed h := by rcases h with h | h <;> simp [initial] at h
  left _ h := by cases h
  settled _ id := not_waits_initial id

section Settling

variable {s s' : State} {id : Nat}

theorem State.Waits.same
    (h : s'.Waits id) (hrequests : s'.requests = s.requests)
    (hloop : ∀ r, s.loop = .popped id r → s'.loop = .popped id r) :
    s.Waits id := by
  obtain ⟨q, hq, hfuture, hended, hpopped⟩ := h
  exact ⟨q, hrequests ▸ hq, hfuture, hended, fun r hr => hpopped r (hloop r hr)⟩

/-- A step that registers nothing and leaves the sweep where it is. -/
theorem settling_of_fewer
    (h : Settling s) (hlate : s'.late = s.late) (hswept : s'.swept = s.swept)
    (hsweep : s'.sweep = s.sweep) (haccepting : s'.accepting = true → s.accepting = true)
    (hloop : s'.loop = .checked → s.loop = .checked ∨ s.accepting = true)
    (hwaits : ∀ id, s'.Waits id → s.Waits id)
    (hpending : ∀ id, s'.Waits id → id ∈ s.pending → id ∈ s'.pending) :
    Settling s' where
  late := hlate.trans h.late
  waiting id hid := hpending id hid (h.waiting id (hwaits id hid))
  closed hclosed := by
    rw [hswept, hsweep] at hclosed
    obtain ⟨hnot, hchecked⟩ := h.closed hclosed
    refine ⟨?_, fun hloop' => ?_⟩
    · rw [Bool.eq_false_iff]
      exact fun haccepting' => Bool.eq_false_iff.mp hnot (haccepting haccepting')
    · rcases hloop hloop' with hloop' | haccepting'
      · exact hchecked hloop'
      · exact Bool.eq_false_iff.mp hnot haccepting'
  left rest hrest id hid := h.left rest (hsweep ▸ hrest) id (hwaits id hid)
  settled hs id hid := h.settled (hswept ▸ hs) id (hwaits id hid)

/-- A request is rewritten so that it does not wait. -/
theorem waits_of_set
    {q : Request} {j : Nat} (h : s'.Waits j)
    (hrequests : s'.requests = s.requests.set id q) (hloop : s'.loop = s.loop)
    (hq : q.future ≠ .unresolved ∨ q.ended = true) :
    j ≠ id ∧ s.Waits j := by
  obtain ⟨q', hq', hfuture, hended, hpopped⟩ := h
  rw [hrequests] at hq'
  rcases eq_or_ne id j with rfl | hne
  · rw [Dict.get_set_self] at hq'
    obtain rfl := Option.some.inj hq'
    rcases hq with hq | hq
    · exact absurd hfuture hq
    · rw [hended] at hq
      cases hq
  · rw [Dict.get_set_of_ne _ hne] at hq'
    exact ⟨hne.symm, q', hq', hfuture, hended, hloop ▸ hpopped⟩

theorem settling_set
    {q : Request} {pending : List Nat} (h : Settling s)
    (hq : q.future ≠ .unresolved ∨ q.ended = true)
    (hpending : ∀ j, j ≠ id → j ∈ s.pending → j ∈ pending) :
    Settling { s with
      requests := s.requests.set id q
      pending := pending } :=
  settling_of_fewer h rfl rfl rfl (fun h' => h') Or.inl
    (fun _ hj => (waits_of_set hj rfl rfl hq).2)
    fun j hj hmem => hpending j (waits_of_set hj rfl rfl hq).1 hmem

theorem settling_cancelFuture
    (h : Settling s) (id : Nat) :
    Settling (s.cancelFuture id) := by
  unfold State.cancelFuture
  cases s.requests.get id with
  | none => exact h
  | some q =>
      dsimp only
      split_ifs
      · refine settling_set h (Or.inl ?_) fun _ _ hj => hj
        rintro ⟨⟩
      · exact h

theorem settling_finish
    (h : Settling s) (id : Nat) :
    Settling (s.finish id) := by
  unfold State.finish
  cases s.requests.get id with
  | none => exact h
  | some q =>
      exact settling_set h (Or.inr rfl) fun j hne hj =>
        List.mem_filter.mpr ⟨hj, decide_eq_true hne⟩

/-- A future that is unresolved after another one was resolved was so before. -/
theorem unresolved_of_resolve
    {o : Outcome} {j : Nat} {q : Request} (hq : (s.resolve id o).requests.get j = some q)
    (hfuture : q.future = .unresolved) :
    j ≠ id ∧ s.requests.get j = some q := by
  unfold State.resolve at hq
  cases hid : s.requests.get id with
  | none =>
      rw [hid] at hq
      refine ⟨?_, hq⟩
      rintro rfl
      rw [hid] at hq
      cases hq
  | some q' =>
      rw [hid] at hq
      dsimp only at hq
      split_ifs at hq with hfuture'
      · rcases eq_or_ne id j with rfl | hne
        · rw [Dict.get_set_self] at hq
          obtain rfl := Option.some.inj hq
          cases hfuture
        · rw [Dict.get_set_of_ne _ hne] at hq
          exact ⟨hne.symm, hq⟩
      · refine ⟨?_, hq⟩
        rintro rfl
        obtain rfl : q' = q := Option.some.inj (hid.symm.trans hq)
        exact hfuture' hfuture

/-- Resolving a future writes the requests and the log, and nothing else. -/
theorem resolve_frame
    (s : State) (id : Nat) (o : Outcome) :
    ∃ requests log, s.resolve id o = { s with
      requests := requests
      log := log } := by
  unfold State.resolve
  split
  · exact ⟨_, _, rfl⟩
  · split_ifs
    · exact ⟨_, _, rfl⟩
    · exact ⟨_, _, rfl⟩

/-- The reader resolves the future it took. -/
theorem settling_deliver
    {r : Response} (h : Settling s) (hpopped : s.loop = .popped id r) :
    Settling { s.resolve id (.answered r) with loop := .idle } := by
  have hwaits : ∀ j, State.Waits { s.resolve id (.answered r) with loop := .idle } j →
      s.Waits j := by
    rintro j ⟨q, hq, hfuture, hended, -⟩
    obtain ⟨hne, hq⟩ := unresolved_of_resolve hq hfuture
    refine ⟨q, hq, hfuture, hended, fun r' hr' => ?_⟩
    rw [hpopped] at hr'
    cases hr'
    exact hne rfl
  obtain ⟨requests, log, hframe⟩ := resolve_frame s id (.answered r)
  rw [hframe] at hwaits ⊢
  exact settling_of_fewer h rfl rfl rfl (fun h' => h') (fun h' => by cases h') hwaits
    fun _ _ hj => hj

/-- Whoever waits is in the part of the list that the sweep has left. -/
theorem settling_sweepNext
    {rest : List Nat} (h : Settling s) (hsweep : s.sweep = some (id :: rest)) :
    Settling { s.resolve id .swept with sweep := some rest } := by
  have hwaits : ∀ j, State.Waits { s.resolve id .swept with sweep := some rest } j →
      j ≠ id ∧ s.Waits j := by
    rintro j ⟨q, hq, hfuture, hended, hpopped⟩
    obtain ⟨hne, hq⟩ := unresolved_of_resolve hq hfuture
    obtain ⟨requests, log, hframe⟩ := resolve_frame s id .swept
    rw [hframe] at hpopped
    exact ⟨hne, q, hq, hfuture, hended, hpopped⟩
  obtain ⟨requests, log, hframe⟩ := resolve_frame s id .swept
  rw [hframe] at hwaits ⊢
  have hclosed := h.closed (Or.inr (by rw [hsweep]; rintro ⟨⟩))
  refine ⟨h.late, fun j hj => h.waiting j (hwaits j hj).2, fun _ => hclosed, ?_, ?_⟩
  · intro rest' hrest' j hj
    obtain rfl := Option.some.inj hrest'
    obtain ⟨hne, hj⟩ := hwaits j hj
    exact (List.mem_cons.mp (h.left _ hsweep j hj)).resolve_left hne
  · exact fun hs j hj => h.settled hs j (hwaits j hj).2

/-- A sweep that ends has looked at everybody who waited. -/
theorem settling_endSweep
    (h : Settling s) (hsweep : s.sweep = some []) :
    Settling s.endSweep := by
  have hnone : ∀ j, ¬s.endSweep.Waits j := by
    intro j hj
    have hold : s.Waits j := by
      refine hj.same rfl fun r hr => ?_
      rw [State.endSweep, if_neg]
      · exact hr
      · rw [hr]
        rintro ⟨⟩
    cases h.left [] hsweep j hold
  obtain ⟨haccepting, hchecked⟩ := h.closed (Or.inr (by rw [hsweep]; rintro ⟨⟩))
  refine ⟨h.late, fun j hj => absurd hj (hnone j), fun _ => ⟨haccepting, fun hloop => ?_⟩, ?_,
    fun _ => hnone⟩
  · simp only [State.endSweep] at hloop
    split_ifs at hloop
    exact hchecked hloop
  · rintro _ ⟨⟩

/-- A sweep begins on a generation that accepts no call. -/
theorem settling_beginSweep
    {loop : Loop} (h : Settling s) (haccepting : s.accepting = false)
    (hchecked : loop ≠ .checked) (hwaits : ∀ j, (s.beginSweep loop).Waits j → s.Waits j) :
    Settling (s.beginSweep loop) where
  late := h.late
  waiting j hj := h.waiting j (hwaits j hj)
  closed _ := ⟨haccepting, hchecked⟩
  left rest hrest j hj := by
    obtain rfl := Option.some.inj hrest
    exact h.waiting j (hwaits j hj)
  settled hs j hj := h.settled hs j (hwaits j hj)

/-- Nothing is registered on a generation whose sweep has begun. -/
theorem settling_register
    (h : Settling s) (hswept : s.swept = false) (hsweep : s.sweep = none)
    (hloop : ∀ id r, s.loop ≠ .popped id r) (ended : Bool) :
    Settling (s.register ended) where
  late := by
    rw [State.register, hswept, if_neg (by decide)]
    exact h.late
  waiting j hj := by
    obtain ⟨q, hq, hfuture, hended, -⟩ := hj
    rcases eq_or_ne (s.nextId + 1) j with rfl | hne
    · exact List.mem_append_right _ (List.mem_singleton_self _)
    · rw [State.register, Dict.get_set_of_ne _ hne] at hq
      exact List.mem_append_left _ (h.waiting j ⟨q, hq, hfuture, hended, hloop j⟩)
  closed hclosed := by
    rcases hclosed with hs | hs
    · rw [State.register, hswept] at hs
      cases hs
    · exact absurd hsweep hs
  left rest hrest := by
    rw [State.register, hsweep] at hrest
    cases hrest
  settled hs := by
    rw [State.register, hswept] at hs
    cases hs

theorem settling_receive
    (h : Settling s) (hloop : s.loop = .idle) (r : Response) :
    Settling (s.receive r) := by
  by_cases hpending : ∃ id, r.id.key = some id ∧ id ∈ s.pending
  · obtain ⟨id, hkey, hid⟩ := hpending
    rw [receive_of_pending hkey hid]
    refine settling_of_fewer h rfl rfl rfl (fun h' => h') (fun h' => by cases h') ?_ ?_
    · exact fun j hj => hj.same rfl fun r' hr' => absurd hr' (not_popped_of_idle hloop j r')
    · rintro j ⟨q, -, -, -, hpopped⟩ hj
      refine List.mem_filter.mpr ⟨hj, decide_eq_true ?_⟩
      rintro rfl
      exact hpopped r rfl
  · rw [receive_of_not_pending fun id hkey hid => hpending ⟨id, hkey, hid⟩]
    exact settling_of_fewer h rfl rfl rfl (fun h' => h') Or.inl (fun _ hj => hj)
      fun _ _ hj => hj

theorem settling_step
    {op : Op} (h : Settling s) (hregular : Regular s op) (hstep : step s op = some s') :
    Settling s' := by
  cases op with
  | check =>
      simp only [step] at hstep
      split_ifs at hstep with hloop haccepting
      · obtain rfl := Option.some.inj hstep
        refine settling_of_fewer h rfl rfl rfl (fun h' => h') (fun _ => Or.inr haccepting) ?_ ?_
        · exact fun j hj => hj.same rfl fun r hr => absurd hr (not_popped_of_idle hloop j r)
        · exact fun _ _ hj => hj
      · obtain rfl := Option.some.inj hstep
        exact h
  | register =>
      simp only [step] at hstep
      split_ifs at hstep with hloop
      obtain rfl := Option.some.inj hstep
      have hopen : ¬(s.swept = true ∨ s.sweep ≠ none) :=
        fun hclosed => (h.closed hclosed).2 hloop
      rw [not_or, Bool.not_eq_true, not_not] at hopen
      refine settling_register h hopen.1 hopen.2 (fun id r hr => ?_) false
      rw [hloop] at hr
      cases hr
  | prompt remembered =>
      simp only [step] at hstep
      split_ifs at hstep with hloop
      obtain rfl := Option.some.inj hstep
      exact settling_register h hregular.1 hregular.2 (not_popped_of_idle hloop) remembered
  | cancelFuture id =>
      simp only [step] at hstep
      split_ifs at hstep
      obtain rfl := Option.some.inj hstep
      exact settling_cancelFuture h id
  | finish id =>
      simp only [step] at hstep
      split_ifs at hstep
      obtain rfl := Option.some.inj hstep
      exact settling_finish h id
  | line m =>
      simp only [step] at hstep
      split_ifs at hstep with hidle
      obtain rfl := Option.some.inj hstep
      cases m with
      | malformed => exact h
      | request id method => exact h
      | notification method => exact h
      | response r => exact settling_receive h hidle.1 r
  | deliver =>
      simp only [step] at hstep
      split at hstep
      · rename_i id r hpopped
        obtain rfl := Option.some.inj hstep
        exact settling_deliver h hpopped
      · cases hstep
  | closeSweep =>
      simp only [step] at hstep
      split_ifs at hstep with hcond
      obtain rfl := Option.some.inj hstep
      refine settling_beginSweep h ?_ (by rintro ⟨⟩) fun j hj => ?_
      · simp [State.accepting, hcond.2.2]
      · exact hj.same rfl fun r hr => absurd hr (not_popped_of_idle hcond.1 j r)
  | readerEnds =>
      simp only [step] at hstep
      split_ifs at hstep
      obtain rfl := Option.some.inj hstep
      refine settling_of_fewer h rfl rfl rfl (fun h' => ?_) Or.inl (fun _ hj => hj)
        fun _ _ hj => hj
      simp [State.accepting] at h'
  | taskDone =>
      simp only [step] at hstep
      split_ifs at hstep with hcond
      · obtain rfl := Option.some.inj hstep
        exact h
      · obtain rfl := Option.some.inj hstep
        have hterminated : Settling { s with terminated := true } := by
          refine settling_of_fewer h rfl rfl rfl (fun h' => ?_) Or.inl (fun _ hj => hj)
            fun _ _ hj => hj
          simp [State.accepting] at h'
        refine settling_beginSweep hterminated (by simp [State.accepting]) (by rintro ⟨⟩) ?_
        exact fun j hj => hj.same rfl fun r hr => absurd hr (not_popped_of_idle hcond.1 j r)
  | unblock =>
      simp only [step] at hstep
      split_ifs at hstep
      obtain rfl := Option.some.inj hstep
      exact settling_beginSweep h hregular.1 hregular.2 fun _ hj => hj
  | sweepNext =>
      simp only [step] at hstep
      split at hstep
      · rename_i id rest hsweep
        obtain rfl := Option.some.inj hstep
        exact settling_sweepNext h hsweep
      · cases hstep
  | sweepEnd =>
      simp only [step] at hstep
      split_ifs at hstep with hsweep
      obtain rfl := Option.some.inj hstep
      exact settling_endSweep h hsweep
  | terminate =>
      obtain rfl := Option.some.inj hstep
      refine settling_of_fewer h rfl rfl rfl (fun h' => ?_) Or.inl (fun _ hj => hj)
        fun _ _ hj => hj
      simp [State.accepting] at h'
  | exit =>
      obtain rfl := Option.some.inj hstep
      refine settling_of_fewer h rfl rfl rfl (fun h' => ?_) Or.inl (fun _ hj => hj)
        fun _ _ hj => hj
      simp [State.accepting] at h'
  | nextGeneration =>
      simp only [step] at hstep
      split_ifs at hstep with hcond
      obtain rfl := Option.some.inj hstep
      refine ⟨h.late, h.waiting, fun hclosed => ?_, fun rest hrest => ?_, fun hs => ?_⟩
      · rcases hclosed with hs | hs
        · cases hs
        · exact absurd hcond.2 hs
      · have hnone : s.sweep = some rest := hrest
        rw [hcond.2] at hnone
        cases hnone
      · cases hs

end Settling

section Results

/-- Responses match their requests: a future is resolved at most once, with the first
response that carries the id of its request or by a sweep; once its generation was swept no
request waits, and none was registered after that. -/
structure Matched (s : State) : Prop where
  once : ∀ id, (resolutions id s.log).length ≤ 1
  first : ∀ id r, .answered r ∈ resolutions id s.log →
    r.id.key = some id ∧ (answers id s.log).head? = some r
  settled : s.swept = true → ∀ id, ¬s.Waits id
  late : s.late = []

/-- **Requests and responses.**  In every run whose sweeps from other threads begin when no
call is accepted, and in which no prompt starts on a swept generation, the responses match
the requests, and a response that names no pending request changes nothing. -/
theorem requests_matched
    (s : State) (h : Reach step Regular initial s) :
    Matched s ∧
      ∀ r s', (∀ id, r.id.key = some id → id ∉ s.pending) →
        step s (.line (.response r)) = some s' →
          s' = { s with log := .received r :: s.log } := by
  have hmatching : Matching s :=
    h.invariant matching_initial fun _ _ _ hinv _ hstep => matching_step hinv hstep
  have hsettling : Settling s :=
    h.invariant settling_initial fun _ _ _ hinv hregular hstep =>
      settling_step hinv hregular hstep
  refine ⟨⟨fun id => ?_, fun id r hr => ?_, hsettling.settled, hsettling.late⟩, ?_⟩
  · rw [hmatching.told]
    cases s.outcome id with
    | none => decide
    | some o => exact Nat.le_refl 1
  · have hhead := hmatching.first id r hr
    exact ⟨key_of_mem_answers (List.mem_of_mem_head? (by rw [hhead]; rfl)), hhead⟩
  · intro r s' hunknown hstep
    simp only [step] at hstep
    split_ifs at hstep
    obtain rfl := Option.some.inj hstep
    exact receive_of_not_pending hunknown

/-- The answer of the server to request `n`. -/
def reply (n : Nat) : Message :=
  .response {
    id := .number n
    body := .ok "" }

/-- Two calls are answered in the other order, the second answer comes twice and one has
an unknown id; a third call waits when the reader ends. -/
def sweptRun : List Op :=
  [.check, .register, .check, .register, .line (reply 2), .deliver, .line (reply 2),
    .line (reply 7), .line .malformed, .line (reply 1), .deliver, .finish 1, .finish 2,
    .check, .register, .readerEnds, .taskDone, .sweepNext, .sweepEnd, .check]

theorem requests_matched_sweptRun :
    ∃ s, run step initial sweptRun = some s ∧ s.swept = true ∧ s.outcome 3 = some .swept ∧
      Matched s := by
  have hout : (run step initial sweptRun).map (fun s => (s.swept, s.outcome 3)) =
      some (true, some .swept) := by
    decide +kernel
  obtain ⟨s, hrun, hs⟩ := Option.map_eq_some_iff.mp hout
  have hguarded : Guarded step Regular initial sweptRun := by
    simp only [sweptRun, Guarded, Regular]
    simp
  simp only [Prod.mk.injEq] at hs
  exact ⟨s, hrun, hs.1, hs.2, (requests_matched s (reach_of_run hrun hguarded)).1⟩

/-- The watchdog sweeps before it kills: a call that is registered meanwhile is dropped, and
one that comes after the sweep waits for an answer that nobody will bring. -/
def lateRun : List Op :=
  [.check, .register, .unblock, .check, .register, .sweepNext, .sweepEnd, .check, .register,
    .terminate]

theorem unsettled_lateRun :
    ∃ s, run step initial lateRun = some s ∧ s.Waits 2 ∧ s.late = [3] ∧ ¬Matched s := by
  have hout : (run step initial lateRun).map
      (fun s => (s.swept, s.late, s.requests.get 2, s.loop)) =
      some (true, [3], some { future := .unresolved, ended := false }, .idle) := by
    decide +kernel
  obtain ⟨s, hrun, hs⟩ := Option.map_eq_some_iff.mp hout
  simp only [Prod.mk.injEq] at hs
  obtain ⟨hswept, hlate, hrequest, hloop⟩ := hs
  have hwaits : s.Waits 2 := ⟨_, hrequest, rfl, rfl, not_popped_of_idle hloop 2⟩
  exact ⟨s, hrun, hwaits, hlate, fun hmatched => hmatched.settled hswept 2 hwaits⟩

end Results

end Requests
end Acp
end DiploidAgent
