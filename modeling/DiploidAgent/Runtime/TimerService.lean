import DiploidAgent.Runtime.EventBus
import DiploidAgent.Runtime.WakeLease

/-!
# The timer service

`runtime/timer_service.py` between the wake queue and the event bus.  Other processes work
on the same queue file, other threads post and subscribe, and a service that is stopped and
started again may have two threads.  Every wake popped by a tick is posted exactly once, with
its chat, reason and silence, and a wake is not fired again while its lease runs
(`timer_fires`).
-/

namespace DiploidAgent
namespace Timer

open Runs
open Wake (WakeEvent)

variable {ω κ : Type}

/-- The payload of `timer.fired`. -/
structure Fired where
  eventId : String
  chatId : String
  reason : String
  silent : Bool

def fired (event : WakeEvent) : Fired :=
  { eventId := event.id, chatId := event.chatId, reason := event.reason, silent := event.silent }

/-- Where a thread is in `_run`; `posting` holds what is left of the loop of `_tick`. -/
inductive Phase where
  | checking
  | ticking
  | posting (events : List WakeEvent)
  | sleeping
  | ended

/-- A pop by a tick, or a `fail` by whoever handled the wake. -/
inductive Entry where
  | popped (event : WakeEvent) (now leaseSeconds : Int)
  | failed (eventId : String)

/-- The queue file, the bus, the service with its threads, and what was popped and failed so
far.  Payloads on the bus are those of the timer and those of others. -/
structure State (ω κ : Type) where
  wakes : Wake.State
  bus : EventBus.State (Fired ⊕ ω) κ
  running : Bool
  threads : List Phase
  history : List Entry

def initial (clock : Int) : State ω κ :=
  { wakes := Wake.initial clock, bus := EventBus.initial, running := false, threads := []
    history := [] }

def start (s : State ω κ) : State ω κ :=
  if s.running then s
  else { s with running := true, threads := s.threads ++ [.checking] }

/-- `stop`; its bounded join changes nothing. -/
def stop (s : State ω κ) : State ω κ :=
  if s.running then { s with running := false } else s

/-- What a tick reads: `config.enabled`, the clock, `config.lease_seconds`, whether `pop_due`
raises before it writes the file, and the id of a new bus event. -/
structure Env where
  enabled : Bool
  now : Int
  leaseSeconds : Int
  raises : Bool
  freshId : String

/-- One step of `_run` in the thread `i`. -/
def runLoop (s : State ω κ) (i : Nat) (env : Env) : Phase → Option (State ω κ)
  | .checking =>
      some { s with threads := s.threads.set i (if s.running then .ticking else .ended) }
  | .ticking =>
      if !env.enabled || env.raises then some { s with threads := s.threads.set i .sleeping }
      else
        (Wake.step s.wakes (.popDue env.now env.leaseSeconds)).map fun wakes =>
          let events := (Wake.popDue s.wakes.queue env.now env.leaseSeconds).2
          { s with
            wakes := wakes
            threads := s.threads.set i (.posting events)
            history := s.history ++ events.map fun e => .popped e env.now env.leaseSeconds }
  | .posting [] => some { s with threads := s.threads.set i .sleeping }
  | .posting (event :: events) =>
      some { s with
        bus := EventBus.post s.bus
          { id := env.freshId, type := "timer.fired", payload := .inl (fired event) }
        threads := s.threads.set i (.posting events) }
  | .sleeping => some { s with threads := s.threads.set i .checking }
  | .ended => none

/-- What others do to the bus; their posts carry payloads of their own. -/
inductive BusLabel (ω κ : Type) where
  | start
  | stop (payload : ω)
  | post (event : EventBus.Event ω)
  | subscribe (callback : κ)
  | unsubscribe (callback : κ)
  | dispatch (thread : Nat)

def BusLabel.label : BusLabel ω κ → EventBus.Label (Fired ⊕ ω) κ
  | .start => .start
  | .stop payload => .stop (.inr payload)
  | .post event => .post { id := event.id, type := event.type, payload := .inr event.payload }
  | .subscribe callback => .subscribe callback
  | .unsubscribe callback => .unsubscribe callback
  | .dispatch thread => .dispatch thread

inductive Label (ω κ : Type) where
  | wake (a : Wake.Label)
  | bus (a : BusLabel ω κ)
  | start
  | stop
  | run (thread : Nat) (env : Env)

/-- The `fail` an operation on the queue makes. -/
def failure : Wake.Label → List Entry
  | .fail eventId _ _ => [.failed eventId]
  | _ => []

def step [DecidableEq κ] (s : State ω κ) : Label ω κ → Option (State ω κ)
  | .wake a => (Wake.step s.wakes a).map fun wakes =>
      { s with wakes := wakes, history := s.history ++ failure a }
  | .bus a => (EventBus.step s.bus a.label).map fun bus => { s with bus := bus }
  | .start => some (start s)
  | .stop => some (stop s)
  | .run i env => s.threads[i]?.bind (runLoop s i env)

/-- The wakes a thread popped and did not post yet. -/
def Phase.events : Phase → List WakeEvent
  | .posting events => events
  | _ => []

/-- What the timer posted on the bus. -/
def posts (posted : List (EventBus.Event (Fired ⊕ ω))) : List Fired :=
  posted.filterMap fun e => e.payload.getLeft?

/-- What the ticks popped. -/
def pops (history : List Entry) : List WakeEvent :=
  history.filterMap fun
    | .popped event _ _ => some event
    | .failed _ => none

def PoppedAt (history : List Entry) (i : Nat) (event : WakeEvent) (now leaseSeconds : Int) : Prop :=
  history[i]? = some (.popped event now leaseSeconds)

def FailedAt (history : List Entry) (i : Nat) (eventId : String) : Prop :=
  history[i]? = some (.failed eventId)

section Bookkeeping

theorem pops_append (history later : List Entry) :
    pops (history ++ later) = pops history ++ pops later :=
  List.filterMap_append

theorem pops_popped (events : List WakeEvent) (now leaseSeconds : Int) :
    pops (events.map fun e => .popped e now leaseSeconds) = events := by
  induction events with
  | nil => rfl
  | cons e events ih => exact congrArg (e :: ·) ih

theorem pops_failure (a : Wake.Label) : pops (failure a) = [] := by
  cases a <;> rfl

theorem posts_concat
    (posted : List (EventBus.Event (Fired ⊕ ω))) (event : EventBus.Event (Fired ⊕ ω)) :
    posts (posted ++ [event]) = posts posted ++ event.payload.getLeft?.toList := by
  rw [posts, List.filterMap_append]
  cases h : event.payload.getLeft? <;> simp [posts, h]

end Bookkeeping

section Steps

variable {s s' : State ω κ} {i : Nat} {p p' : Phase}

/-- What every reachable state keeps: each pop is failed later or its lease is still held, two
pops of one wake are a lease apart unless it was failed between, and what was popped is posted
or in the hands of a thread. -/
structure Inv (s : State ω κ) : Prop where
  wakes : Wake.Inv s.wakes
  leased : ∀ i event now leaseSeconds, PoppedAt s.history i event now leaseSeconds →
    (∃ k, i < k ∧ FailedAt s.history k event.id) ∨
      Wake.Leased event.id (now + leaseSeconds) s.wakes
  apart : ∀ i j event event' now now' leaseSeconds leaseSeconds',
    PoppedAt s.history i event now leaseSeconds →
    PoppedAt s.history j event' now' leaseSeconds' →
    i < j → event.id = event'.id →
    (∃ k, i < k ∧ k < j ∧ FailedAt s.history k event.id) ∨ now + leaseSeconds ≤ now'
  conserved : (posts s.bus.posted ++ (s.threads.flatMap Phase.events).map fired).Perm
    ((pops s.history).map fired)
  ordered : s.threads.length ≤ 1 →
    posts s.bus.posted ++ (s.threads.flatMap Phase.events).map fired = (pops s.history).map fired
  bus : EventBus.Inv s.bus

theorem inv_initial (clock : Int) : Inv (initial clock : State ω κ) where
  wakes := Wake.inv_of_reach (Reach.refl _)
  leased := by simp [initial, PoppedAt]
  apart := by simp [initial, PoppedAt]
  conserved := by simp [initial, EventBus.initial, posts, pops]
  ordered := by simp [initial, EventBus.initial, posts, pops]
  bus := EventBus.inv_initial

/-- What was failed stays failed. -/
theorem FailedAt.append
    {history : List Entry} {k : Nat} {eventId : String}
    (h : FailedAt history k eventId) (later : List Entry) :
    FailedAt (history ++ later) k eventId := by
  have hlt : k < history.length := (List.getElem?_eq_some_iff.mp h).1
  rw [FailedAt, List.getElem?_append_left hlt]
  exact h

/-- A pop is an earlier one or one of those just appended. -/
theorem PoppedAt.of_append
    {history later : List Entry} {j : Nat} {event : WakeEvent} {now leaseSeconds : Int}
    (h : PoppedAt (history ++ later) j event now leaseSeconds) :
    PoppedAt history j event now leaseSeconds ∨
      (history.length ≤ j ∧ PoppedAt later (j - history.length) event now leaseSeconds) := by
  rcases Nat.lt_or_ge j history.length with hlt | hge
  · rw [PoppedAt, List.getElem?_append_left hlt] at h
    exact Or.inl h
  · rw [PoppedAt, List.getElem?_append_right hge] at h
    exact Or.inr ⟨hge, h⟩

/-- A popped wake keeps its lease through an operation that does not fail it. -/
theorem leased_append
    {a : Wake.Label} {wakes : Wake.State} {later : List Entry}
    (hinv : Inv s)
    (hstep : Wake.step s.wakes a = some wakes)
    (hfail : ∀ eventId retryAfter now, a = .fail eventId retryAfter now →
      later = [.failed eventId])
    {i : Nat} {event : WakeEvent} {now leaseSeconds : Int}
    (hi : PoppedAt s.history i event now leaseSeconds) :
    (∃ k, i < k ∧ FailedAt (s.history ++ later) k event.id) ∨
      Wake.Leased event.id (now + leaseSeconds) wakes := by
  have hlt : i < s.history.length := (List.getElem?_eq_some_iff.mp hi).1
  rcases hinv.leased i event now leaseSeconds hi with ⟨k, hik, hk⟩ | hleased
  · exact Or.inl ⟨k, hik, hk.append later⟩
  · by_cases ha : ∃ retryAfter now, a = .fail event.id retryAfter now
    · obtain ⟨retryAfter, t, rfl⟩ := ha
      left
      refine ⟨s.history.length, hlt, ?_⟩
      rw [hfail event.id retryAfter t rfl]
      exact List.getElem?_concat_length
    · right
      exact Wake.leased_step hinv.wakes hleased (fun retryAfter t h => ha ⟨retryAfter, t, h⟩) hstep

theorem apart_append
    (hinv : Inv s) (later : List Entry)
    {i j : Nat} {event event' : WakeEvent} {now now' leaseSeconds leaseSeconds' : Int}
    (hi : PoppedAt s.history i event now leaseSeconds)
    (hj : PoppedAt s.history j event' now' leaseSeconds')
    (hij : i < j) (hid : event.id = event'.id) :
    (∃ k, i < k ∧ k < j ∧ FailedAt (s.history ++ later) k event.id) ∨
      now + leaseSeconds ≤ now' := by
  refine (hinv.apart i j event event' now now' _ _ hi hj hij hid).imp_left ?_
  rintro ⟨k, hik, hkj, hk⟩
  exact ⟨k, hik, hkj, hk.append later⟩

theorem not_poppedAt_failure
    {a : Wake.Label} {j : Nat} {event : WakeEvent} {now leaseSeconds : Int} :
    ¬ PoppedAt (failure a) j event now leaseSeconds := by
  intro h
  have hmem := List.mem_of_getElem? h
  cases a <;> simp [failure] at hmem

theorem inv_wake
    {a : Wake.Label} {wakes : Wake.State}
    (hinv : Inv s)
    (hstep : Wake.step s.wakes a = some wakes) :
    Inv { s with wakes := wakes, history := s.history ++ failure a } := by
  have hold {j : Nat} {event : WakeEvent} {now leaseSeconds : Int}
      (h : PoppedAt (s.history ++ failure a) j event now leaseSeconds) :
      PoppedAt s.history j event now leaseSeconds := by
    rcases h.of_append with h | ⟨_, h⟩
    · exact h
    · exact absurd h not_poppedAt_failure
  have hpops : pops (s.history ++ failure a) = pops s.history := by
    rw [pops_append, pops_failure, List.append_nil]
  constructor
  case wakes => exact Wake.inv_step hinv.wakes hstep
  case leased =>
    intro i event now leaseSeconds hi
    refine leased_append hinv hstep ?_ (hold hi)
    rintro eventId retryAfter t rfl
    rfl
  case apart =>
    intro i j event event' now now' leaseSeconds leaseSeconds' hi hj
    exact apart_append hinv (failure a) (hold hi) (hold hj)
  case conserved =>
    rw [hpops]
    exact hinv.conserved
  case ordered =>
    rw [hpops]
    exact hinv.ordered
  case bus => exact hinv.bus

theorem only_thread
    (hone : s.threads.length ≤ 1)
    (hp : s.threads[i]? = some p) :
    s.threads = [p] ∧ i = 0 := by
  match hthreads : s.threads with
  | [] => simp [hthreads] at hp
  | [q] =>
      rw [hthreads, List.getElem?_singleton] at hp
      split_ifs at hp with hi
      obtain rfl := Option.some.inj hp
      exact ⟨rfl, hi⟩
  | _ :: _ :: _ => simp [hthreads] at hone

/-- What one tick pops: each wake is leased, was due, and is popped once. -/
theorem poppedAt_tick
    {queue : Wake.Queue} {now leaseSeconds : Int} {j : Nat} {event : WakeEvent} {t l : Int}
    (h : PoppedAt ((Wake.popDue queue now leaseSeconds).2.map fun e => .popped e now leaseSeconds)
      j event t l) :
    (Wake.popDue queue now leaseSeconds).2[j]? = some event ∧ t = now ∧ l = leaseSeconds ∧
      event.id ∈ Wake.poppedIds queue now leaseSeconds := by
  rw [PoppedAt, List.getElem?_map, Option.map_eq_some_iff] at h
  obtain ⟨e, he, heq⟩ := h
  obtain ⟨rfl, rfl, rfl⟩ := Entry.popped.inj heq
  exact ⟨he, rfl, rfl, List.mem_map.mpr ⟨e, List.mem_of_getElem? he, rfl⟩⟩

/-- Two pops of one wake: the second was made when the lease of the first was over. -/
theorem lease_over
    {now leaseSeconds : Int} {wakes : Wake.State} {id : String} {until_ : Int}
    (hinv : Inv s)
    (hstep : Wake.step s.wakes (.popDue now leaseSeconds) = some wakes)
    (hleased : Wake.Leased id until_ s.wakes)
    (hpopped : id ∈ Wake.poppedIds s.wakes.queue now leaseSeconds) :
    until_ ≤ now := by
  obtain ⟨e, hget, hdue⟩ := Wake.mem_poppedIds hinv.wakes.keyed hpopped
  obtain ⟨_, t, ht, hlate⟩ := hleased.2 e hget
  have hclock : s.wakes.clock ≤ now := (Wake.step_eq_some hstep).2.1 now rfl
  have hfree : t ≤ now := by
    rw [WakeEvent.isDue, Bool.and_eq_true] at hdue
    simpa [WakeEvent.unleased, ht] using hdue.2
  rcases hlate with rfl | hle
  · exact hfree
  · exact Int.le_trans hle hclock

theorem inv_tick
    {now leaseSeconds : Int} {wakes : Wake.State}
    (hinv : Inv s)
    (hp : s.threads[i]? = some .ticking)
    (hstep : Wake.step s.wakes (.popDue now leaseSeconds) = some wakes) :
    Inv { s with
      wakes := wakes
      threads := s.threads.set i (.posting (Wake.popDue s.wakes.queue now leaseSeconds).2)
      history := s.history ++ (Wake.popDue s.wakes.queue now leaseSeconds).2.map fun e =>
        .popped e now leaseSeconds } := by
  have hids := (Wake.popDue_exact hinv.wakes.keyed now leaseSeconds).2.1
  constructor
  case wakes => exact Wake.inv_step hinv.wakes hstep
  case leased =>
    intro j event t l hj
    rcases hj.of_append with hj | ⟨_, hj⟩
    · exact leased_append hinv hstep nofun hj
    · obtain ⟨_, rfl, rfl, hmem⟩ := poppedAt_tick hj
      exact Or.inr (Wake.leased_popDue hinv.wakes hmem hstep)
  case apart =>
    intro j k event event' t t' l l' hj hk hjk hid
    rcases hk.of_append with hk | ⟨hlater, hk⟩
    · have hlt : k < s.history.length := (List.getElem?_eq_some_iff.mp hk).1
      rcases hj.of_append with hj | ⟨hge, _⟩
      · exact apart_append hinv _ hj hk hjk hid
      · omega
    · obtain ⟨hget', rfl, rfl, hmem⟩ := poppedAt_tick hk
      rcases hj.of_append with hj | ⟨hge, hj⟩
      · rcases hinv.leased j event t l hj with ⟨m, hjm, hm⟩ | hleased
        · have hlt : m < s.history.length := (List.getElem?_eq_some_iff.mp hm).1
          exact Or.inl ⟨m, hjm, by omega, hm.append _⟩
        · rw [hid] at hleased
          exact Or.inr (lease_over hinv hstep hleased hmem)
      · -- one tick pops no wake twice
        obtain ⟨hget, _⟩ := poppedAt_tick hj
        have hne := List.nodup_iff_getElem?_ne_getElem?.mp hids (j - s.history.length)
          (k - s.history.length) (by omega)
          (by simpa using (List.getElem?_eq_some_iff.mp hget').1)
        rw [List.getElem?_map, List.getElem?_map, hget, hget', Option.map_some, Option.map_some,
          hid] at hne
        exact absurd rfl hne
  case conserved =>
    have hhands := Threads.flatMap_set
      (t := .posting (Wake.popDue s.wakes.queue now leaseSeconds).2) Phase.events hp
    rw [show Phase.ticking.events = [] from rfl, List.append_nil] at hhands
    rw [pops_append, pops_popped, List.map_append]
    refine ((hhands.map fired).append_left _).trans ?_
    rw [List.map_append, ← List.append_assoc]
    exact hinv.conserved.append_right _
  case ordered =>
    intro hone
    rw [List.length_set] at hone
    obtain ⟨hthreads, rfl⟩ := only_thread hone hp
    have hold := hinv.ordered hone
    rw [pops_append, pops_popped, List.map_append, ← hold, hthreads]
    simp [Phase.events]
  case bus => exact hinv.bus

/-- A thread that has no wake in its hands before and after. -/
theorem inv_move
    (hinv : Inv s)
    (hp : s.threads[i]? = some p)
    (hbefore : p.events = [])
    (hafter : p'.events = []) :
    Inv { s with threads := s.threads.set i p' } := by
  constructor
  case wakes => exact hinv.wakes
  case leased => exact hinv.leased
  case apart => exact hinv.apart
  case conserved =>
    have hhands := Threads.flatMap_set (t := p') Phase.events hp
    rw [hbefore, hafter, List.append_nil, List.append_nil] at hhands
    exact ((hhands.map fired).append_left _).trans hinv.conserved
  case ordered =>
    intro hone
    rw [List.length_set] at hone
    obtain ⟨hthreads, rfl⟩ := only_thread hone hp
    have hold := hinv.ordered hone
    rw [← hold, hthreads]
    simp [hbefore, hafter]
  case bus => exact hinv.bus

/-- A thread posts the next wake of its tick. -/
theorem inv_post
    {event : WakeEvent} {events : List WakeEvent}
    (hinv : Inv s)
    (hp : s.threads[i]? = some (.posting (event :: events)))
    (freshId : String) :
    Inv { s with
      bus := EventBus.post s.bus
        { id := freshId, type := "timer.fired", payload := .inl (fired event) }
      threads := s.threads.set i (.posting events) } := by
  have hposts : posts (EventBus.post s.bus
      { id := freshId, type := "timer.fired", payload := .inl (fired event) }).posted =
        posts s.bus.posted ++ [fired event] :=
    posts_concat s.bus.posted _
  constructor
  case wakes => exact hinv.wakes
  case leased => exact hinv.leased
  case apart => exact hinv.apart
  case conserved =>
    have hhands := Threads.flatMap_set (t := .posting events) Phase.events hp
    have hsplit : (event :: events) = [event] ++ events := rfl
    rw [show Phase.events (.posting (event :: events)) = [event] ++ events from rfl,
      show Phase.events (.posting events) = events from rfl, ← List.append_assoc] at hhands
    have hmoved := (List.perm_append_right_iff events).mp hhands
    rw [hposts, List.append_assoc]
    refine (List.Perm.append_left _ ?_).trans hinv.conserved
    refine List.Perm.trans ?_ (hmoved.map fired)
    rw [List.map_append]
    exact List.perm_append_comm
  case ordered =>
    intro hone
    rw [List.length_set] at hone
    obtain ⟨hthreads, rfl⟩ := only_thread hone hp
    have hold := hinv.ordered hone
    rw [hposts, ← hold, hthreads]
    simp [Phase.events]
  case bus => exact EventBus.inv_put hinv.bus _

theorem inv_runLoop
    {env : Env}
    (hinv : Inv s)
    (hp : s.threads[i]? = some p)
    (h : runLoop s i env p = some s') :
    Inv s' := by
  cases p with
  | checking =>
      obtain rfl := Option.some.inj h
      refine inv_move hinv hp rfl ?_
      split_ifs <;> rfl
  | ticking =>
      rw [runLoop] at h
      split_ifs at h with hquiet
      · obtain rfl := Option.some.inj h
        exact inv_move hinv hp rfl rfl
      · obtain ⟨wakes, hstep, rfl⟩ := Option.map_eq_some_iff.mp h
        exact inv_tick hinv hp hstep
  | posting events =>
      cases events with
      | nil =>
          obtain rfl := Option.some.inj h
          exact inv_move hinv hp rfl rfl
      | cons event events =>
          obtain rfl := Option.some.inj h
          exact inv_post hinv hp env.freshId
  | sleeping =>
      obtain rfl := Option.some.inj h
      exact inv_move hinv hp rfl rfl
  | ended => cases h

theorem inv_start
    (hinv : Inv s) :
    Inv (start s) := by
  unfold start
  split_ifs
  · exact hinv
  have hhands : (s.threads ++ [Phase.checking]).flatMap Phase.events =
      s.threads.flatMap Phase.events := by
    simp [Phase.events]
  constructor
  case wakes => exact hinv.wakes
  case leased => exact hinv.leased
  case apart => exact hinv.apart
  case conserved =>
    rw [hhands]
    exact hinv.conserved
  case ordered =>
    intro hone
    rw [hhands]
    refine hinv.ordered ?_
    rw [List.length_append] at hone
    omega
  case bus => exact hinv.bus

variable [DecidableEq κ]

/-- Others post nothing that looks like the timer's. -/
theorem posts_bus
    {a : BusLabel ω κ} {bus : EventBus.State (Fired ⊕ ω) κ}
    (h : EventBus.step s.bus a.label = some bus) :
    posts bus.posted = posts s.bus.posted := by
  rcases EventBus.posted_step h with hsame | ⟨payload, ha, hput⟩ | ⟨event, ha, hput⟩
  · rw [hsame]
  · rw [hput, posts_concat]
    cases a <;> cases ha
    exact List.append_nil _
  · rw [hput, posts_concat]
    cases a <;> cases ha
    exact List.append_nil _

theorem inv_step
    {a : Label ω κ}
    (hinv : Inv s)
    (h : step s a = some s') :
    Inv s' := by
  cases a with
  | wake a =>
      obtain ⟨wakes, hstep, rfl⟩ := Option.map_eq_some_iff.mp h
      exact inv_wake hinv hstep
  | bus a =>
      obtain ⟨bus, hstep, rfl⟩ := Option.map_eq_some_iff.mp h
      have hposts := posts_bus hstep
      constructor
      case wakes => exact hinv.wakes
      case leased => exact hinv.leased
      case apart => exact hinv.apart
      case conserved =>
        rw [hposts]
        exact hinv.conserved
      case ordered =>
        rw [hposts]
        exact hinv.ordered
      case bus => exact EventBus.inv_step hinv.bus hstep
  | start =>
      obtain rfl := Option.some.inj h
      exact inv_start hinv
  | stop =>
      obtain rfl := Option.some.inj h
      unfold stop
      split_ifs
      · exact { wakes := hinv.wakes, leased := hinv.leased, apart := hinv.apart
                conserved := hinv.conserved, ordered := hinv.ordered, bus := hinv.bus }
      · exact hinv
  | run i env =>
      obtain ⟨p, hp, hloop⟩ := Option.bind_eq_some_iff.mp h
      exact inv_runLoop hinv hp hloop

theorem inv_of_reach
    {clock : Int}
    (h : Reach step (fun _ _ => True) (initial clock) s) :
    Inv s :=
  h.invariant (inv_initial clock) fun _ _ _ hs _ hstep => inv_step hs hstep

end Steps

/-- **The timer fires every popped wake once.**  What the ticks popped is what was posted on
the bus and what the threads still have in their hands, in this order while there is one thread;
a wake is popped again only after a `fail` of it or when its lease is over; and no post is handed
out twice, each to a beginning of the subscribers present. -/
theorem timer_fires [DecidableEq κ]
    (clock : Int) (s : State ω κ)
    (h : Reach step (fun _ _ => True) (initial clock) s) :
    (posts s.bus.posted ++ (s.threads.flatMap Phase.events).map fired).Perm
        ((pops s.history).map fired) ∧
    (s.threads.length ≤ 1 →
      posts s.bus.posted ++ (s.threads.flatMap Phase.events).map fired =
        (pops s.history).map fired) ∧
    (∀ i j event event' now now' leaseSeconds leaseSeconds',
      PoppedAt s.history i event now leaseSeconds →
      PoppedAt s.history j event' now' leaseSeconds' →
      i < j → event.id = event'.id →
      (∃ k, i < k ∧ k < j ∧ FailedAt s.history k event.id) ∨ now + leaseSeconds ≤ now') ∧
    (s.bus.handed.map Prod.fst).Nodup ∧
    ∀ number present, (number, present) ∈ s.bus.handed →
      EventBus.callsOf s.bus.calls number <+: present := by
  have hinv := inv_of_reach h
  refine ⟨hinv.conserved, hinv.ordered, hinv.apart, hinv.bus.once, ?_⟩
  intro number present hmem
  rcases hinv.bus.served number present hmem with hall | ⟨i, event, left, hi⟩
  · exact hall ▸ List.prefix_refl _
  · have hcall := hinv.bus.calling i number event left hi
    rw [hinv.bus.present_unique hmem hcall]
    exact List.prefix_append _ _

def dueEnv (now : Int) : Env :=
  { enabled := true, now := now, leaseSeconds := 5, raises := false, freshId := "event-1" }

def dueWake : WakeEvent where
  id := "wake-1"
  chatId := "chat"
  reason := "timer"
  priority := 1
  scheduledAt := 0
  ready := true

/-- A ready wake is enqueued, popped and posted. -/
def fireRun : List (Label Unit Nat) :=
  [.wake (.enqueue dueWake ""), .start, .run 0 (dueEnv 1), .run 0 (dueEnv 1), .run 0 (dueEnv 1)]

theorem timer_fires_fireRun :
    ∃ s, run step (initial 0) fireRun = some s ∧
      (posts s.bus.posted ++ (s.threads.flatMap Phase.events).map fired).Perm
        ((pops s.history).map fired) := by
  have hrun := run_eq_getD (show (run step (initial 0) fireRun).isSome = true by decide)
  exact ⟨_, hrun, (timer_fires 0 _ (reach_of_run_free hrun)).1⟩

end Timer
end DiploidAgent
