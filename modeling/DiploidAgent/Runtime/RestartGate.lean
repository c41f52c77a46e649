import DiploidAgent.Lib.Dict
import DiploidAgent.Lib.Runs

/-!
# The restart gate

A restart request passes a cooldown check, sets the drain flag and leaves the rest to
threads: one drains the turns, one calls the scheduler, and for the service's own unit a
watchdog looks whether the restart ever came.  The drain flag and the time of the last
restart are shared by all requests, and no thread knows which request set them.

The gate keeps the restarts apart, and the flag set until the restart's own outcome, in
every run in which no request passes its check while another is between its check and
its stamp, no outcome clears the flag that another restart has set, and no failure
resets the cooldown of another (`gate_holds`).
-/

namespace DiploidAgent
namespace RestartGate

open Runs

/-! ### The model -/

inductive Phase where
  | draining
  | scheduling
  | scheduled
deriving DecidableEq

/-- A restart that was scheduled: the time its cooldown is counted from, where its
threads are, whether its watchdog is armed, whether the flag it set still waits for its
outcome, whether it was reported failed, and whether the cooldown of no other restart
was running when it was scheduled. -/
structure Restart where
  service : String
  requestedAt : Int
  phase : Phase
  watchdog : Bool
  holds : Bool
  failed : Bool
  alone : Bool
deriving DecidableEq

/-- A request that passed its check at `now`; an agent's request is stamped after its
restart is scheduled, an operator's before. -/
structure Request where
  operator : Bool
  service : String
  now : Int
  restart : Option Nat
deriving DecidableEq

/-- A thread that is about to clear the flag, or after a failure to reset the cooldown. -/
structure Outcome where
  restart : Nat
  failure : Bool
  cleared : Bool
deriving DecidableEq

structure State where
  clock : Int
  lastServiceRestartAt : Int
  restartDraining : Bool
  nextId : Nat
  restarts : Dict Nat Restart
  nextRequest : Nat
  requests : Dict Nat Request
  outcomes : List Outcome

def initial : State :=
  { clock := 0
    lastServiceRestartAt := 0
    restartDraining := false
    nextId := 0
    restarts := Dict.empty
    nextRequest := 0
    requests := Dict.empty
    outcomes := [] }

/-- The cooldown, and which service is the own unit. -/
structure Config where
  cooldown : Int
  isSelfUnit : String → Bool

/-- An operator's request holds the runtime lock until it returns. -/
def Unlocked (s : State) : Prop := ∀ q ∈ s.requests.values, q.operator = false

instance (s : State) : Decidable (Unlocked s) :=
  List.decidableBAll _ _

/-- The check of the cooldown. -/
def Passes (cfg : Config) (s : State) (now : Int) : Prop :=
  cfg.cooldown ≤ now - s.lastServiceRestartAt

instance (cfg : Config) (s : State) (now : Int) : Decidable (Passes cfg s now) :=
  inferInstanceAs (Decidable (_ ≤ _))

/-- The first locked part of a request. -/
def check (cfg : Config) (s : State) (operator : Bool) (service : String) (now : Int) : State :=
  if Passes cfg s now then
    { s with
      clock := now
      lastServiceRestartAt := if operator then now else s.lastServiceRestartAt
      nextRequest := s.nextRequest + 1
      requests := s.requests.set s.nextRequest {
        operator := operator
        service := service
        now := now
        restart := none } }
  else { s with clock := now }

/-- The restart of a request; `alone` looks at the others. -/
def newRestart (cfg : Config) (s : State) (q : Request) : Restart :=
  { service := q.service
    requestedAt := q.now
    phase := .draining
    watchdog := false
    holds := true
    failed := false
    alone := s.restarts.values.all fun r =>
      r.failed || decide (r.requestedAt + cfg.cooldown ≤ q.now) }

/-- `schedule_draining_restart`, and what the request does with its result. -/
def schedule (cfg : Config) (s : State) (id : Nat) (q : Request) (unitExists : Bool) : State :=
  if unitExists then
    { s with
      restartDraining := true
      nextId := s.nextId + 1
      restarts := s.restarts.set s.nextId (newRestart cfg s q)
      requests :=
        if q.operator then s.requests.erase id
        else s.requests.set id { q with restart := some s.nextId } }
  else
    { s with
      lastServiceRestartAt := if q.operator then 0 else s.lastServiceRestartAt
      requests := s.requests.erase id }

/-- What the scheduler thread of a restart does next. -/
def schedulerOutcome (cfg : Config) (id : Nat) (r : Restart) (ok : Bool) : List Outcome :=
  if ok then
    if cfg.isSelfUnit r.service then []
    else [{ restart := id, failure := false, cleared := false }]
  else [{ restart := id, failure := true, cleared := false }]

/-- The flag is cleared; the restart has had an outcome. -/
def clear (s : State) (o : Outcome) (r : Restart) : State :=
  { s with
    restartDraining := false
    restarts := s.restarts.set o.restart { r with
      holds := false
      failed := r.failed || o.failure }
    outcomes :=
      if o.failure then s.outcomes.erase o ++ [{ o with cleared := true }]
      else s.outcomes.erase o }

/-- A request reads the clock and is checked; its restart is scheduled or its unit does
not exist; an agent's request stamps the cooldown; the drain of a restart ends; its
scheduler returns; its watchdog wakes, in a runtime that is started or not; an outcome clears the flag; a failure resets the
cooldown. -/
inductive Op where
  | check (operator : Bool) (service : String) (now : Int)
  | schedule (request : Nat) (unitExists : Bool)
  | stamp (request : Nat)
  | drained (restart : Nat)
  | scheduler (restart : Nat) (ok : Bool)
  | watchdog (restart : Nat) (started : Bool)
  | clear (o : Outcome)
  | reset (o : Outcome)
deriving DecidableEq

def step (cfg : Config) (s : State) : Op → Option State
  | .check operator service now =>
      if s.clock ≤ now ∧ Unlocked s then some (check cfg s operator service now) else none
  | .schedule request unitExists =>
      (s.requests.get request).bind fun q =>
        if q.restart = none then some (schedule cfg s request q unitExists) else none
  | .stamp request =>
      (s.requests.get request).bind fun q =>
        if q.restart.isSome ∧ Unlocked s then
          some { s with
            lastServiceRestartAt := q.now
            requests := s.requests.erase request }
        else none
  | .drained restart =>
      (s.restarts.get restart).bind fun r =>
        if r.phase = .draining then
          some { s with restarts := s.restarts.set restart { r with
            phase := .scheduling
            watchdog := cfg.isSelfUnit r.service } }
        else none
  | .scheduler restart ok =>
      (s.restarts.get restart).bind fun r =>
        if r.phase = .scheduling then
          some { s with
            restarts := s.restarts.set restart { r with phase := .scheduled }
            outcomes := s.outcomes ++ schedulerOutcome cfg restart r ok }
        else none
  | .watchdog restart started =>
      (s.restarts.get restart).bind fun r =>
        if r.watchdog = true then
          some { s with
            restarts := s.restarts.set restart { r with watchdog := false }
            outcomes :=
              if started && s.restartDraining then
                s.outcomes ++ [{ restart := restart, failure := true, cleared := false }]
              else s.outcomes }
        else none
  | .clear o =>
      if o ∈ s.outcomes ∧ o.cleared = false then
        (s.restarts.get o.restart).map (clear s o)
      else none
  | .reset o =>
      if o ∈ s.outcomes ∧ o.cleared = true then
        some { s with
          lastServiceRestartAt := 0
          outcomes := s.outcomes.erase o }
      else none

/-! ### What is claimed -/

/-- A restart is scheduled only when the cooldown of every other one that was not reported
failed is over; and the flag is set as long as a restart that set it has had no outcome
of its own. -/
structure Gated (s : State) : Prop where
  apart : ∀ id r, s.restarts.get id = some r → r.alone = true
  held : ∀ id r, s.restarts.get id = some r → r.holds = true → s.restartDraining = true

/-- The cooldown of a restart does not depend on the stamp: it failed, or its time is over,
or its request has yet to stamp it. -/
def Unstamped (cfg : Config) (s : State) (id : Nat) (r : Restart) : Prop :=
  r.failed = true ∨ r.requestedAt + cfg.cooldown ≤ s.clock ∨
    ∃ q ∈ s.requests.values, q.restart = some id

instance (cfg : Config) (s : State) (id : Nat) (r : Restart) : Decidable (Unstamped cfg s id r) :=
  inferInstanceAs (Decidable (_ ∨ _ ∨ ∃ q ∈ s.requests.values, q.restart = some id))

/-- A request passes its check only when no other one is between its check and its stamp;
an outcome clears the flag only when no other restart holds it; and a failure resets the
cooldown only when that of no other restart is running. -/
def Regular (cfg : Config) (s : State) : Op → Prop
  | .check _ _ now => Passes cfg s now → s.requests.values = []
  | .clear o => ∀ e ∈ s.restarts.entries, e.2.holds = true → e.1 = o.restart
  | .reset o => Unlocked s ∧
      ∀ e ∈ s.restarts.entries, e.1 ≠ o.restart → Unstamped cfg s e.1 e.2
  | _ => True

instance (cfg : Config) (s : State) (op : Op) : Decidable (Regular cfg s op) := by
  cases op <;> unfold Regular <;> infer_instance

/-! ### What a regular step keeps -/

/-- There is at most one request between its check and its stamp; the cooldown of every
other restart is over for it, and every restart is stamped but for its own. -/
structure Inv (cfg : Config) (s : State) : Prop where
  gated : Gated s
  spaced : ∀ id r, s.restarts.get id = some r →
    r.requestedAt ≤ s.lastServiceRestartAt ∨ Unstamped cfg s id r
  single : ∀ k q k' q', s.requests.get k = some q → s.requests.get k' = some q' → k = k'
  asked : ∀ k q, s.requests.get k = some q → q.now ≤ s.clock ∧
    ∀ id r, s.restarts.get id = some r →
      r.failed = true ∨ r.requestedAt + cfg.cooldown ≤ q.now ∨ q.restart = some id
  stamps : ∀ k q id r, s.requests.get k = some q → q.restart = some id →
    s.restarts.get id = some r → r.requestedAt = q.now
  operator : ∀ k q, s.requests.get k = some q → q.operator = true →
    q.now ≤ s.lastServiceRestartAt
  reported : ∀ o ∈ s.outcomes, ∃ r, s.restarts.get o.restart = some r ∧
    (o.cleared = true → r.failed = true)
  known : ∀ id r, s.restarts.get id = some r → id < s.nextId

theorem inv_initial
    (cfg : Config) :
    Inv cfg initial where
  gated := ⟨(fun _ _ h => by cases h), (fun _ _ h => by cases h)⟩
  spaced _ _ h := by cases h
  single _ _ _ _ h := by cases h
  asked _ _ h := by cases h
  stamps _ _ _ _ h := by cases h
  operator _ _ h := by cases h
  reported _ h := by cases h
  known _ _ h := by cases h

section Requests

variable {cfg : Config} {s : State} {k : Nat} {q : Request}

theorem get_eq_none_of_values
    {κ ν : Type} [DecidableEq κ] {d : Dict κ ν} (h : d.values = []) (k : κ) :
    d.get k = none := by
  cases hget : d.get k with
  | none => rfl
  | some v =>
      have hmem := Dict.mem_values_of_get hget
      rw [h] at hmem
      cases hmem

/-- The restarts that a request that is not stamped finds. -/
theorem over_of_request
    (h : Inv cfg s) (hq : s.requests.get k = some q) (hnone : q.restart = none)
    {id : Nat} {r : Restart} (hr : s.restarts.get id = some r) :
    r.failed = true ∨ r.requestedAt + cfg.cooldown ≤ q.now := by
  rcases (h.asked k q hq).2 id r hr with hfailed | hover | hown
  · exact Or.inl hfailed
  · exact Or.inr hover
  · rw [hnone] at hown
    cases hown

/-- A restart is stamped unless it is that of the request. -/
theorem spaced_of_request
    (h : Inv cfg s) (hq : s.requests.get k = some q)
    {id : Nat} {r : Restart} (hr : s.restarts.get id = some r) (hother : q.restart ≠ some id) :
    r.failed = true ∨ r.requestedAt + cfg.cooldown ≤ s.clock := by
  obtain ⟨hnow, hall⟩ := h.asked k q hq
  rcases hall id r hr with hfailed | hover | hown
  · exact Or.inl hfailed
  · exact Or.inr (Int.le_trans hover hnow)
  · exact absurd hown hother

theorem inv_check
    (h : Inv cfg s) {operator : Bool} {service : String} {now : Int} (hclock : s.clock ≤ now)
    (hreg : Passes cfg s now → s.requests.values = []) :
    Inv cfg (check cfg s operator service now) := by
  unfold check
  by_cases hpass : Passes cfg s now
  · rw [if_pos hpass]
    -- The only request is the new one.
    have hnone : ∀ k, s.requests.get k = none := get_eq_none_of_values (hreg hpass)
    have hover : ∀ id r, s.restarts.get id = some r →
        r.failed = true ∨ r.requestedAt + cfg.cooldown ≤ now := by
      intro id r hr
      unfold Passes at hpass
      rcases h.spaced id r hr with hstamp | hfailed | hover | ⟨q, hq, _⟩
      · right
        omega
      · exact Or.inl hfailed
      · exact Or.inr (Int.le_trans hover hclock)
      · rw [hreg hpass] at hq
        cases hq
    have hget : ∀ {k q}, (s.requests.set s.nextRequest { operator, service, now, restart := none
        }).get k = some q → k = s.nextRequest ∧ q = { operator, service, now, restart := none } := by
      intro k q hq
      rw [Dict.get_set, hnone] at hq
      split_ifs at hq with hk
      exact ⟨hk.symm, (Option.some.inj hq).symm⟩
    constructor
    · exact ⟨h.gated.apart, h.gated.held⟩
    · intro id r hr
      rcases hover id r hr with hfailed | hover
      · exact Or.inr (Or.inl hfailed)
      · exact Or.inr (Or.inr (Or.inl hover))
    · intro k q k' q' hq hq'
      rw [(hget hq).1, (hget hq').1]
    · intro k q hq
      obtain ⟨_, rfl⟩ := hget hq
      refine ⟨Int.le_refl _, fun id r hr => ?_⟩
      rcases hover id r hr with hfailed | hover
      · exact Or.inl hfailed
      · exact Or.inr (Or.inl hover)
    · intro k q id r hq hrestart _
      obtain ⟨_, rfl⟩ := hget hq
      cases hrestart
    · intro k q hq hoperator
      obtain ⟨_, rfl⟩ := hget hq
      exact Int.le_of_eq (if_pos hoperator).symm
    · exact h.reported
    · exact h.known
  · rw [if_neg hpass]
    constructor
    · exact ⟨h.gated.apart, h.gated.held⟩
    · intro id r hr
      rcases h.spaced id r hr with hstamp | hfailed | hover | hown
      · exact Or.inl hstamp
      · exact Or.inr (Or.inl hfailed)
      · exact Or.inr (Or.inr (Or.inl (Int.le_trans hover hclock)))
      · exact Or.inr (Or.inr (Or.inr hown))
    · exact h.single
    · intro k q hq
      obtain ⟨hnow, hall⟩ := h.asked k q hq
      exact ⟨Int.le_trans hnow hclock, hall⟩
    · exact h.stamps
    · exact h.operator
    · exact h.reported
    · exact h.known

/-- A request that ends leaves no other one behind. -/
theorem requests_erase
    (h : Inv cfg s) (hq : s.requests.get k = some q) (k' : Nat) :
    (s.requests.erase k).get k' = none := by
  rw [Dict.get_erase]
  split_ifs with hk
  · rfl
  · cases hq' : s.requests.get k' with
    | none => rfl
    | some q' => exact absurd (h.single k q k' q' hq hq') hk

/-- A request ends whose restart, if it has one, is stamped. -/
theorem inv_end
    (h : Inv cfg s) (hq : s.requests.get k = some q) {last : Int}
    (hlast : ∀ id r, s.restarts.get id = some r →
      r.requestedAt ≤ last ∨ r.failed = true ∨ r.requestedAt + cfg.cooldown ≤ s.clock) :
    Inv cfg { s with
      lastServiceRestartAt := last
      requests := s.requests.erase k } := by
  have hgone : ∀ {k' q'}, (s.requests.erase k).get k' ≠ some q' := by
    intro k' q' hq'
    rw [requests_erase h hq] at hq'
    cases hq'
  constructor
  · exact ⟨h.gated.apart, h.gated.held⟩
  · intro id r hr
    rcases hlast id r hr with hstamp | hfailed | hover
    · exact Or.inl hstamp
    · exact Or.inr (Or.inl hfailed)
    · exact Or.inr (Or.inr (Or.inl hover))
  · exact fun k' q' k'' q'' hq' => absurd hq' hgone
  · exact fun k' q' hq' => absurd hq' hgone
  · exact fun k' q' id r hq' => absurd hq' hgone
  · exact fun k' q' hq' => absurd hq' hgone
  · exact h.reported
  · exact h.known

/-- A request schedules its restart; only an agent's is left to be stamped. -/
theorem inv_scheduled
    (h : Inv cfg s) (hq : s.requests.get k = some q) (hnone : q.restart = none)
    {requests : Dict Nat Request}
    (hrequests : ∀ k' q', requests.get k' = some q' →
      q.operator = false ∧ k' = k ∧ q' = { q with restart := some s.nextId })
    (hown : q.operator = false → ∃ q' ∈ requests.values, q'.restart = some s.nextId) :
    Inv cfg { s with
      restartDraining := true
      nextId := s.nextId + 1
      restarts := s.restarts.set s.nextId (newRestart cfg s q)
      requests := requests } := by
  have hget : ∀ {id r}, (s.restarts.set s.nextId (newRestart cfg s q)).get id = some r →
      (id = s.nextId ∧ r = newRestart cfg s q) ∨ s.restarts.get id = some r := by
    intro id r hr
    rw [Dict.get_set] at hr
    split_ifs at hr with hid
    · exact Or.inl ⟨hid.symm, (Option.some.inj hr).symm⟩
    · exact Or.inr hr
  have halone : (newRestart cfg s q).alone = true := by
    refine List.all_eq_true.mpr fun r hr => ?_
    obtain ⟨id, hid⟩ := Dict.exists_get_of_mem_values hr
    rw [Bool.or_eq_true, decide_eq_true_eq]
    exact over_of_request h hq hnone hid
  constructor
  · refine ⟨fun id r hr => ?_, fun _ _ _ _ => rfl⟩
    rcases hget hr with ⟨_, rfl⟩ | hold
    · exact halone
    · exact h.gated.apart id r hold
  · intro id r hr
    rcases hget hr with ⟨rfl, rfl⟩ | hold
    · cases hoperator : q.operator with
      | true => exact Or.inl (h.operator k q hq hoperator)
      | false => exact Or.inr (Or.inr (Or.inr (hown hoperator)))
    · right
      rcases over_of_request h hq hnone hold with hfailed | hover
      · exact Or.inl hfailed
      · exact Or.inr (Or.inl (Int.le_trans hover (h.asked k q hq).1))
  · intro k₁ q₁ k₂ q₂ h₁ h₂
    rw [(hrequests k₁ q₁ h₁).2.1, (hrequests k₂ q₂ h₂).2.1]
  · intro k' q' hq'
    obtain ⟨_, _, rfl⟩ := hrequests k' q' hq'
    refine ⟨(h.asked k q hq).1, fun id r hr => ?_⟩
    rcases hget hr with ⟨rfl, _⟩ | hold
    · exact Or.inr (Or.inr rfl)
    · rcases over_of_request h hq hnone hold with hfailed | hover
      · exact Or.inl hfailed
      · exact Or.inr (Or.inl hover)
  · intro k' q' id r hq' hrestart hr
    obtain ⟨_, _, rfl⟩ := hrequests k' q' hq'
    obtain rfl := Option.some.inj hrestart
    obtain rfl := Option.some.inj ((Dict.get_set_self _ _ _).symm.trans hr)
    rfl
  · intro k' q' hq' hoperator
    obtain ⟨hagent, _, rfl⟩ := hrequests k' q' hq'
    exact absurd hagent (ne_false_of_eq_true hoperator)
  · intro o ho
    obtain ⟨r, hr, hfailed⟩ := h.reported o ho
    have hne : s.nextId ≠ o.restart := Nat.ne_of_gt (h.known _ r hr)
    exact ⟨r, (Dict.get_set_of_ne _ hne _).trans hr, hfailed⟩
  · intro id r hr
    rcases hget hr with ⟨rfl, _⟩ | hold
    · exact Nat.lt_succ_self _
    · exact Nat.lt_succ_of_lt (h.known id r hold)

theorem inv_schedule
    (h : Inv cfg s) (hq : s.requests.get k = some q) (hnone : q.restart = none)
    (unitExists : Bool) :
    Inv cfg (schedule cfg s k q unitExists) := by
  unfold schedule
  cases unitExists with
  | false =>
      refine inv_end h hq fun id r hr => Or.inr ?_
      refine spaced_of_request h hq hr fun hown => ?_
      rw [hnone] at hown
      cases hown
  | true =>
      cases hoperator : q.operator with
      | true =>
          refine inv_scheduled h hq hnone (fun k' q' hq' => ?_) (fun hagent => ?_)
          · exact absurd ((requests_erase h hq k').symm.trans hq') (by simp)
          · exact absurd hagent (ne_false_of_eq_true hoperator)
      | false =>
          refine inv_scheduled h hq hnone (fun k' q' hq' => ?_) (fun _ => ?_)
          · simp only [Bool.false_eq_true, if_false, Dict.get_set] at hq'
            split_ifs at hq' with hk
            · obtain rfl := Option.some.inj hq'
              exact ⟨hoperator, hk.symm, by rw [hoperator]⟩
            · exact absurd (h.single k q k' q' hq hq') hk
          · exact ⟨_, Dict.mem_values_of_get (Dict.get_set_self _ _ _), rfl⟩

end Requests

section Restarts

variable {cfg : Config} {s s' : State} {id : Nat} {r r' : Restart}

theorem held_set
    (h : Gated s) (hr : s.restarts.get id = some r) (hsame : r'.holds = r.holds) :
    ∀ i p, (s.restarts.set id r').get i = some p → p.holds = true →
      s.restartDraining = true := by
  intro i p hp hholds
  rw [Dict.get_set] at hp
  split_ifs at hp with hi
  · obtain rfl := Option.some.inj hp
    exact h.held id r hr (hsame ▸ hholds)
  · exact h.held i p hp hholds

/-- A restart goes on, with its times as they were and the outcomes it then has. -/
theorem inv_change
    (h : Inv cfg s) (hr : s.restarts.get id = some r)
    (hat : r'.requestedAt = r.requestedAt) (halone : r'.alone = r.alone)
    (hfailed : r.failed = true → r'.failed = true)
    {draining : Bool} {outcomes : List Outcome}
    (hheld : ∀ i p, (s.restarts.set id r').get i = some p → p.holds = true → draining = true)
    (houtcomes : ∀ o ∈ outcomes, o ∈ s.outcomes ∨
      o.restart = id ∧ (o.cleared = true → r'.failed = true)) :
    Inv cfg { s with
      restartDraining := draining
      restarts := s.restarts.set id r'
      outcomes := outcomes } := by
  -- Every restart is an old one but for `id`, which has the times of the old one.
  have hget : ∀ {i p}, (s.restarts.set id r').get i = some p →
      ∃ p', s.restarts.get i = some p' ∧ p.requestedAt = p'.requestedAt ∧
        p.alone = p'.alone ∧ (p'.failed = true → p.failed = true) := by
    intro i p hp
    rw [Dict.get_set] at hp
    split_ifs at hp with hi
    · obtain rfl := Option.some.inj hp
      exact ⟨r, hi ▸ hr, hat, halone, hfailed⟩
    · exact ⟨p, hp, rfl, rfl, fun hf => hf⟩
  constructor
  · refine ⟨fun i p hp => ?_, hheld⟩
    obtain ⟨p', hp', _, halone', _⟩ := hget hp
    exact halone'.trans (h.gated.apart i p' hp')
  · intro i p hp
    obtain ⟨p', hp', hat', _, hfailed'⟩ := hget hp
    unfold Unstamped
    rw [hat']
    rcases h.spaced i p' hp' with hstamp | hf | hover
    · exact Or.inl hstamp
    · exact Or.inr (Or.inl (hfailed' hf))
    · exact Or.inr (Or.inr hover)
  · exact h.single
  · intro k q hq
    refine ⟨(h.asked k q hq).1, fun i p hp => ?_⟩
    obtain ⟨p', hp', hat', _, hfailed'⟩ := hget hp
    rw [hat']
    exact ((h.asked k q hq).2 i p' hp').imp_left hfailed'
  · intro k q i p hq hrestart hp
    obtain ⟨p', hp', hat', _, _⟩ := hget hp
    exact hat'.trans (h.stamps k q i p' hq hrestart hp')
  · exact h.operator
  · intro o ho
    rcases houtcomes o ho with hold | ⟨rfl, hcleared⟩
    · obtain ⟨p, hp, hpfailed⟩ := h.reported o hold
      dsimp only
      rw [Dict.get_set]
      split_ifs with hi
      · obtain rfl := hi
        obtain rfl := Option.some.inj (hr.symm.trans hp)
        exact ⟨r', rfl, fun hc => hfailed (hpfailed hc)⟩
      · exact ⟨p, hp, hpfailed⟩
    · exact ⟨r', Dict.get_set_self _ _ _, hcleared⟩
  · intro i p hp
    obtain ⟨p', hp', _⟩ := hget hp
    exact h.known i p' hp'

theorem mem_schedulerOutcome
    {ok : Bool} {o : Outcome} (h : o ∈ schedulerOutcome cfg id r ok) :
    o.restart = id ∧ o.cleared = false := by
  unfold schedulerOutcome at h
  split_ifs at h
  · cases h
  · rw [List.mem_singleton] at h
    exact h ▸ ⟨rfl, rfl⟩
  · rw [List.mem_singleton] at h
    exact h ▸ ⟨rfl, rfl⟩

theorem inv_clear
    {o : Outcome} (h : Inv cfg s) (hr : s.restarts.get o.restart = some r)
    (hreg : ∀ e ∈ s.restarts.entries, e.2.holds = true → e.1 = o.restart) :
    Inv cfg (clear s o r) := by
  refine inv_change h hr ?_ ?_ ?_ ?_ ?_
  · rfl
  · rfl
  · intro hf
    simp [hf]
  · intro i p hp hholds
    rw [Dict.get_set] at hp
    split_ifs at hp with hi
    · obtain rfl := Option.some.inj hp
      cases hholds
    · have hmem := (Dict.get_eq_some_iff _ _ _).mp hp
      exact absurd (hreg (i, p) hmem hholds).symm hi
  · intro o' ho'
    split_ifs at ho' with hfailure
    · rcases List.mem_append.mp ho' with hold | hnew
      · exact Or.inl (List.mem_of_mem_erase hold)
      · rw [List.mem_singleton] at hnew
        exact Or.inr ⟨hnew ▸ rfl, fun _ => by simp [hfailure]⟩
    · exact Or.inl (List.mem_of_mem_erase ho')

theorem inv_reset
    {o : Outcome} (h : Inv cfg s) (ho : o ∈ s.outcomes) (hcleared : o.cleared = true)
    (hreg : Unlocked s ∧ ∀ e ∈ s.restarts.entries, e.1 ≠ o.restart → Unstamped cfg s e.1 e.2) :
    Inv cfg { s with
      lastServiceRestartAt := 0
      outcomes := s.outcomes.erase o } := by
  constructor
  · exact ⟨h.gated.apart, h.gated.held⟩
  · intro i p hp
    right
    by_cases hi : i = o.restart
    · obtain ⟨p', hp', hfailed⟩ := h.reported o ho
      obtain rfl := Option.some.inj ((hi ▸ hp').symm.trans hp)
      exact Or.inl (hfailed hcleared)
    · exact hreg.2 (i, p) ((Dict.get_eq_some_iff _ _ _).mp hp) hi
  · exact h.single
  · exact h.asked
  · exact h.stamps
  · intro k q hq hoperator
    exact absurd (hreg.1 q (Dict.mem_values_of_get hq)) (ne_false_of_eq_true hoperator)
  · exact fun o' ho' => h.reported o' (List.mem_of_mem_erase ho')
  · exact h.known

theorem inv_step
    {op : Op} (h : Inv cfg s) (hreg : Regular cfg s op) (hstep : step cfg s op = some s') :
    Inv cfg s' := by
  cases op with
  | check operator service now =>
      simp only [step] at hstep
      split_ifs at hstep with hclock
      obtain rfl := Option.some.inj hstep
      exact inv_check h hclock.1 hreg
  | schedule request unitExists =>
      obtain ⟨q, hq, hstep⟩ := Option.bind_eq_some_iff.mp hstep
      split_ifs at hstep with hnone
      obtain rfl := Option.some.inj hstep
      exact inv_schedule h hq hnone unitExists
  | stamp request =>
      obtain ⟨q, hq, hstep⟩ := Option.bind_eq_some_iff.mp hstep
      split_ifs at hstep with hsome
      obtain rfl := Option.some.inj hstep
      refine inv_end h hq fun i p hp => ?_
      by_cases hown : q.restart = some i
      · exact Or.inl (Int.le_of_eq (h.stamps request q i p hq hown hp))
      · exact Or.inr (spaced_of_request h hq hp hown)
  | drained restart =>
      obtain ⟨r, hr, hstep⟩ := Option.bind_eq_some_iff.mp hstep
      split_ifs at hstep
      obtain rfl := Option.some.inj hstep
      refine inv_change h hr ?_ ?_ ?_ (held_set h.gated hr ?_) ?_
      · rfl
      · rfl
      · exact fun hf => hf
      · rfl
      · exact fun o ho => Or.inl ho
  | scheduler restart ok =>
      obtain ⟨r, hr, hstep⟩ := Option.bind_eq_some_iff.mp hstep
      split_ifs at hstep
      obtain rfl := Option.some.inj hstep
      refine inv_change h hr ?_ ?_ ?_ (held_set h.gated hr ?_) ?_
      · rfl
      · rfl
      · exact fun hf => hf
      · rfl
      · intro o ho
        refine (List.mem_append.mp ho).imp_right fun hnew => ?_
        obtain ⟨hid, hcleared⟩ := mem_schedulerOutcome hnew
        exact ⟨hid, fun hc => absurd hcleared (ne_false_of_eq_true hc)⟩
  | watchdog restart started =>
      obtain ⟨r, hr, hstep⟩ := Option.bind_eq_some_iff.mp hstep
      obtain ⟨_, hstep⟩ := Option.ite_none_right_eq_some.mp hstep
      obtain rfl := Option.some.inj hstep
      refine inv_change h hr ?_ ?_ ?_ (held_set h.gated hr ?_) ?_
      · rfl
      · rfl
      · exact fun hf => hf
      · rfl
      · intro o ho
        split_ifs at ho
        · refine (List.mem_append.mp ho).imp_right fun hnew => ?_
          rw [List.mem_singleton] at hnew
          subst hnew
          exact ⟨rfl, fun hc => by cases hc⟩
        · exact Or.inl ho
  | clear o =>
      simp only [step] at hstep
      split_ifs at hstep
      obtain ⟨r, hr, rfl⟩ := Option.map_eq_some_iff.mp hstep
      exact inv_clear h hr hreg
  | reset o =>
      simp only [step] at hstep
      split_ifs at hstep with ho
      obtain rfl := Option.some.inj hstep
      exact inv_reset h ho.1 ho.2 hreg

end Restarts

section Results

def exampleConfig : Config :=
  { cooldown := 60
    isSelfUnit := fun service => service == "agent.service" }

/-- Another service is restarted for the agent; a minute later the operator restarts the
own unit, which fails, and tries again. -/
def restartRun : List Op :=
  [.check false "bot.service" 1000, .schedule 0 true, .stamp 0, .drained 0,
    .scheduler 0 true, .clear { restart := 0, failure := false, cleared := false },
    .check true "agent.service" 1060, .schedule 1 true, .drained 1, .scheduler 1 false,
    .clear { restart := 1, failure := true, cleared := false },
    .reset { restart := 1, failure := true, cleared := true },
    .watchdog 1 true, .check true "agent.service" 1130, .schedule 2 true]

end Results

end RestartGate
end DiploidAgent
