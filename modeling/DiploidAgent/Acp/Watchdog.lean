import Mathlib.Algebra.Order.Ring.Rat
import DiploidAgent.Lib.Runs
import DiploidAgent.Lib.Threads

/-!
# The watchdog of the ACP transport

A check looks at the transport under its lock and names the process and the generation it
finds stalled.  The recovery waits for the lifecycle lock, looks again under both locks,
unblocks the callers and kills what it finds in the process slot; generations and
processes change hands under the lifecycle lock alone.

In between the child may exit, calls may complete and the transport may be replaced.  What
is killed is nevertheless the process that was observed, in the generation it was observed
in, after the stall was found to last (`kills_only_stalled`).
-/

namespace DiploidAgent
namespace Acp
namespace Watchdog

open Runs Threads

/-! ### The transport as the watchdog sees it -/

inductive Trigger where
  | procDead
  | inflightDeadline
  | controlDeadline
deriving DecidableEq, Repr

/-- The calls under way: whether `_inflight_future` is done, if it is there,
`_inflight_deadline`, `_last_request_at`, `_last_control_call_deadline`, which is 0 when
there is none, whether there are pending requests and active prompts, and
`_last_stdout_at`. -/
structure Calls where
  inflight : Option Bool := none
  inflightDeadline : Rat := 0
  lastRequestAt : Rat := 0
  lastControlCallDeadline : Rat := 0
  pending : Bool := false
  activePrompts : Bool := false
  lastStdoutAt : Rat := 0
deriving DecidableEq

/-- `_watchdog_timeout` and `_silence_warn_after`. -/
structure Config where
  watchdogTimeout : Rat
  silenceWarnAfter : Rat

/-- What a check or a recovery reads: the clock, the calls and the processes that have a
return code. -/
structure View where
  now : Rat
  calls : Calls
  exited : List Nat
deriving DecidableEq

/-- What recovery is told. -/
structure Observed where
  trigger : Trigger
  proc : Option Nat
  generation : Nat
deriving DecidableEq

/-- A control call is over its deadline. -/
def controlOverdue (cfg : Config) (v : View) : Bool :=
  v.calls.pending && !v.calls.activePrompts &&
    if v.calls.lastControlCallDeadline ≠ 0 then v.calls.lastControlCallDeadline < v.now
    else cfg.watchdogTimeout < v.now - v.calls.lastRequestAt

/-- `_still_stalled`. -/
def stillStalled (cfg : Config) (v : View) (proc : Option Nat) : Trigger → Bool
  | .procDead => proc.any fun p => decide (p ∈ v.exited)
  | .inflightDeadline => v.calls.inflight == some false && decide (v.calls.inflightDeadline < v.now)
  | .controlDeadline => controlOverdue cfg v

/-- The trigger that a check finds. -/
def judge (cfg : Config) (v : View) (proc : Option Nat) : Option Trigger :=
  if v.calls.inflight ≠ some false then none
  else if proc.any fun p => decide (p ∈ v.exited) then some .procDead
  else if v.calls.inflightDeadline < v.now then some .inflightDeadline
  else if controlOverdue cfg v then some .controlDeadline
  else none

/-- A prompt has been silent for so long that a warning is due. -/
def silent (cfg : Config) (v : View) (lastSilenceWarn : Rat) : Bool :=
  v.calls.inflight == some false && v.calls.activePrompts &&
    decide (0 < cfg.silenceWarnAfter ∧ 0 < v.calls.lastStdoutAt ∧
      cfg.silenceWarnAfter ≤ v.now - v.calls.lastStdoutAt ∧
      cfg.silenceWarnAfter ≤ v.now - lastSilenceWarn)

/-! ### Threads -/

/-- Where a watchdog thread is: between two checks, before the lifecycle lock, behind it,
after its second look, and after the callers were unblocked. -/
inductive Pc where
  | sleeping
  | waiting (o : Observed)
  | locked (o : Observed)
  | confirmed (o : Observed) (again : View)
  | unblocked (o : Observed) (again : View)
deriving DecidableEq

/-- The thread that holds the lifecycle lock: a watchdog, or one that starts, closes or
restarts the transport. -/
inductive Holder where
  | watchdog (i : Nat)
  | other (t : Nat)
deriving DecidableEq

/-- A process that was killed, in which generation, and what the recovery went by. -/
structure Kill where
  proc : Nat
  generation : Nat
  observed : Observed
  again : View
deriving DecidableEq

structure State where
  now : Rat
  calls : Calls
  generation : Nat
  nextProc : Nat
  proc : Option Nat
  exited : List Nat
  transportHealthy : Bool
  initialized : Bool
  terminated : Bool
  lifecycleLock : Option Holder
  running : Bool
  lastSilenceWarn : Rat
  silences : Nat
  threads : List Pc
  kills : List Kill

def initial : State :=
  { now := 0
    calls := {}
    generation := 0
    nextProc := 0
    proc := none
    exited := []
    transportHealthy := false
    initialized := false
    terminated := false
    lifecycleLock := none
    running := false
    lastSilenceWarn := 0
    silences := 0
    threads := []
    kills := [] }

namespace State

def view (s : State) : View :=
  { now := s.now
    calls := s.calls
    exited := s.exited }

def setPc (s : State) (i : Nat) (pc : Pc) : State :=
  { s with threads := s.threads.set i pc }

/-- A recovery ends. -/
def leave (s : State) (i : Nat) : State :=
  { s with
    lifecycleLock := none
    threads := s.threads.set i .sleeping }

end State

/-- `check`, up to the lifecycle lock. -/
def check (cfg : Config) (s : State) (i : Nat) : State :=
  if !s.running then s
  else
    match judge cfg s.view s.proc with
    | some trigger =>
        s.setPc i (.waiting {
          trigger := trigger
          proc := s.proc
          generation := s.generation })
    | none =>
        if silent cfg s.view s.lastSilenceWarn then
          { s with
            lastSilenceWarn := s.now
            silences := s.silences + 1 }
        else s

/-- The first part of `_stall_recovery_inner`. -/
def recheck (cfg : Config) (s : State) (i : Nat) (o : Observed) : State :=
  if s.generation ≠ o.generation ∨ s.proc ≠ o.proc then s.leave i
  else if !stillStalled cfg s.view o.proc o.trigger then s.leave i
  else s.setPc i (.confirmed o s.view)

/-- The last part of `_stall_recovery_inner`. -/
def killProcess (s : State) (i : Nat) (o : Observed) (again : View) : State :=
  let s' := { s with
    transportHealthy := false
    initialized := false }
  match s.proc with
  | none => s'.leave i
  | some p =>
      if p ∈ s.exited then s'.leave i
      else
        State.leave { s' with
          terminated := true
          kills := s.kills ++ [{
            proc := p
            generation := s.generation
            observed := o
            again := again }] } i

/-- A watchdog checks, takes the lifecycle lock, looks again, unblocks the callers, kills,
or its recovery raises an error; another thread takes the lifecycle lock or lets it go, and
with it begins a generation, spawns or drops a process, marks the transport ready, or
starts and stops watchdogs; a call begins, proceeds or completes; a process exits; time
passes. -/
inductive Op where
  | check (i : Nat)
  | acquire (i : Nat)
  | recheck (i : Nat)
  | unblock (i : Nat)
  | kill (i : Nat)
  | fail (i : Nat)
  | lock (t : Nat)
  | unlock (t : Nat)
  | nextGeneration (t : Nat)
  | spawn (t : Nat)
  | dropProcess (t : Nat)
  | ready (t : Nat)
  | startWatchdog
  | stopWatchdog
  | calls (calls : Calls)
  | exit (p : Nat)
  | tick (dt : Rat)
deriving DecidableEq

/-- A step of the thread that holds the lifecycle lock. -/
def holding (s : State) (t : Nat) (s' : State) : Option State :=
  if s.lifecycleLock = some (.other t) then some s' else none

def step (cfg : Config) (s : State) : Op → Option State
  | .check i => if s.threads[i]? = some .sleeping then some (check cfg s i) else none
  | .acquire i =>
      match s.threads[i]? with
      | some (.waiting o) =>
          if s.lifecycleLock = none then
            some { s.setPc i (.locked o) with lifecycleLock := some (.watchdog i) }
          else none
      | _ => none
  | .recheck i =>
      match s.threads[i]? with
      | some (.locked o) => some (recheck cfg s i o)
      | _ => none
  | .unblock i =>
      match s.threads[i]? with
      | some (.confirmed o again) =>
          some { s.setPc i (.unblocked o again) with
            calls := { s.calls with
              inflight := s.calls.inflight.map fun _ => true
              pending := false } }
      | _ => none
  | .kill i =>
      match s.threads[i]? with
      | some (.unblocked o again) => some (killProcess s i o again)
      | _ => none
  | .fail i => if s.lifecycleLock = some (.watchdog i) then some (s.leave i) else none
  | .lock t =>
      if s.lifecycleLock = none then some { s with lifecycleLock := some (.other t) } else none
  | .unlock t => holding s t { s with lifecycleLock := none }
  | .nextGeneration t => holding s t { s with generation := s.generation + 1 }
  | .spawn t =>
      holding s t { s with
        nextProc := s.nextProc + 1
        proc := some s.nextProc
        terminated := false }
  | .dropProcess t =>
      holding s t { s with
        proc := none
        transportHealthy := false
        initialized := false
        terminated := true }
  | .ready t =>
      holding s t { s with
        transportHealthy := true
        initialized := true }
  | .startWatchdog =>
      some { s with
        running := true
        threads := s.threads ++ [.sleeping] }
  | .stopWatchdog => some { s with running := false }
  | .calls calls => some { s with calls := calls }
  | .exit p => some { s with exited := s.exited ++ [p] }
  | .tick dt => if 0 ≤ dt then some { s with now := s.now + dt } else none

/-! ### What a step keeps -/

/-- The second look found what the first one had, still stalled. -/
def Confirmed (cfg : Config) (s : State) (o : Observed) (again : View) : Prop :=
  s.proc = o.proc ∧ s.generation = o.generation ∧
    stillStalled cfg again o.proc o.trigger = true

/-- What the place of a thread says about the transport. -/
def Pc.Holds (cfg : Config) (s : State) (i : Nat) : Pc → Prop
  | .sleeping => True
  | .waiting _ => True
  | .locked _ => s.lifecycleLock = some (.watchdog i)
  | .confirmed o again => s.lifecycleLock = some (.watchdog i) ∧ Confirmed cfg s o again
  | .unblocked o again => s.lifecycleLock = some (.watchdog i) ∧ Confirmed cfg s o again

/-- The process killed was the one observed, in its generation, and the stall lasted. -/
structure Kill.Stalled (cfg : Config) (k : Kill) : Prop where
  proc : k.observed.proc = some k.proc
  generation : k.generation = k.observed.generation
  stalled : stillStalled cfg k.again k.observed.proc k.observed.trigger = true

structure Inv (cfg : Config) (s : State) : Prop where
  threads : ∀ i (pc : Pc), s.threads[i]? = some pc → pc.Holds cfg s i
  kills : ∀ k ∈ s.kills, k.Stalled cfg

theorem inv_initial (cfg : Config) :
    Inv cfg initial where
  threads _ _ h := by cases h
  kills _ h := by cases h

section Steps

variable {cfg : Config} {s s' : State} {i : Nat}

/-- What is said of a thread stays true while the lock, the process and the generation
stay. -/
theorem Pc.Holds.same
    {pc : Pc} (h : pc.Holds cfg s i) (hlock : s'.lifecycleLock = s.lifecycleLock)
    (hproc : s'.proc = s.proc) (hgeneration : s'.generation = s.generation) :
    pc.Holds cfg s' i := by
  cases pc with
  | sleeping => trivial
  | waiting o => trivial
  | locked o => exact hlock.trans h
  | confirmed o again =>
      exact ⟨hlock.trans h.1, hproc.trans h.2.1, hgeneration.trans h.2.2.1, h.2.2.2⟩
  | unblocked o again =>
      exact ⟨hlock.trans h.1, hproc.trans h.2.1, hgeneration.trans h.2.2.1, h.2.2.2⟩

/-- Of a thread that does not hold the lock nothing is said. -/
theorem Pc.Holds.free
    {pc : Pc} (h : pc.Holds cfg s i) (hlock : s.lifecycleLock ≠ some (.watchdog i)) :
    pc.Holds cfg s' i := by
  cases pc with
  | sleeping => trivial
  | waiting o => trivial
  | locked o => exact absurd h hlock
  | confirmed o again => exact absurd h.1 hlock
  | unblocked o again => exact absurd h.1 hlock

/-- A step that touches neither the threads nor what is said of them. -/
theorem inv_same
    (h : Inv cfg s) (hthreads : s'.threads = s.threads) (hkills : s'.kills = s.kills)
    (hlock : s'.lifecycleLock = s.lifecycleLock) (hproc : s'.proc = s.proc)
    (hgeneration : s'.generation = s.generation) :
    Inv cfg s' where
  threads j pc hpc := (h.threads j pc (hthreads ▸ hpc)).same hlock hproc hgeneration
  kills := hkills ▸ h.kills

/-- A step of a thread that holds the lifecycle lock and is no watchdog. -/
theorem inv_holding
    {t : Nat} {s'' : State} (h : Inv cfg s) (hstep : holding s t s' = some s'')
    (hthreads : s'.threads = s.threads) (hkills : s'.kills = s.kills) :
    Inv cfg s'' := by
  unfold holding at hstep
  split_ifs at hstep with hlock
  obtain rfl := Option.some.inj hstep
  refine ⟨fun j pc hpc => ?_, hkills ▸ h.kills⟩
  refine (h.threads j pc (hthreads ▸ hpc)).free ?_
  rw [hlock]
  rintro ⟨⟩

/-- A watchdog moves on; of the others the same is said as before. -/
theorem inv_move
    {pc : Pc} (h : Inv cfg s) (hthreads : s'.threads = s.threads.set i pc)
    (hpc : pc.Holds cfg s' i) (hkills : ∀ k ∈ s'.kills, k.Stalled cfg)
    (hothers : ∀ j, j ≠ i → ∀ pc' : Pc, pc'.Holds cfg s j → pc'.Holds cfg s' j) :
    Inv cfg s' where
  threads j pc' hj := by
    rw [hthreads] at hj
    rcases of_getElem?_set hj with ⟨rfl, rfl⟩ | ⟨hne, hj⟩
    · exact hpc
    · exact hothers j hne pc' (h.threads j pc' hj)
  kills := hkills

theorem inv_setPc
    {pc : Pc} (h : Inv cfg s) (hpc : pc.Holds cfg s i) :
    Inv cfg (s.setPc i pc) := by
  refine inv_move h rfl (hpc.same rfl rfl rfl) h.kills ?_
  exact fun _ _ _ hold => hold.same rfl rfl rfl

/-- Only the holder of the lock lets it go. -/
theorem inv_leave
    (h : Inv cfg s) (hlock : s.lifecycleLock = some (.watchdog i)) :
    Inv cfg (s.leave i) := by
  refine inv_move h rfl trivial h.kills fun j hne pc hold => hold.free ?_
  rw [hlock]
  rintro ⟨⟩
  exact hne rfl

theorem inv_check
    (h : Inv cfg s) (i : Nat) :
    Inv cfg (check cfg s i) := by
  unfold check
  cases s.running with
  | false => exact h
  | true =>
      rw [if_neg (by decide)]
      cases judge cfg s.view s.proc with
      | some trigger => exact inv_setPc h trivial
      | none =>
          dsimp only
          split_ifs
          · exact inv_same h rfl rfl rfl rfl rfl
          · exact h

theorem inv_acquire
    {o : Observed} (h : Inv cfg s) (hlock : s.lifecycleLock = none) :
    Inv cfg { s.setPc i (.locked o) with lifecycleLock := some (.watchdog i) } := by
  refine inv_move h rfl rfl h.kills fun j _ pc hold => hold.free ?_
  rw [hlock]
  rintro ⟨⟩

theorem inv_recheck
    {o : Observed} (h : Inv cfg s) (hlock : s.lifecycleLock = some (.watchdog i)) :
    Inv cfg (recheck cfg s i o) := by
  unfold recheck
  split_ifs with hstale hcleared
  · exact inv_leave h hlock
  · exact inv_leave h hlock
  · rw [not_or, not_not, not_not] at hstale
    have hstalled : stillStalled cfg s.view o.proc o.trigger = true := by simpa using hcleared
    exact inv_setPc h ⟨hlock, hstale.2, hstale.1, hstalled⟩

/-- What is killed is what the second look confirmed. -/
theorem inv_kill
    {o : Observed} {again : View} (h : Inv cfg s)
    (hlock : s.lifecycleLock = some (.watchdog i)) (hconfirmed : Confirmed cfg s o again) :
    Inv cfg (killProcess s i o again) := by
  obtain ⟨hproc, hgeneration, hstalled⟩ := hconfirmed
  unfold killProcess
  dsimp only
  split
  · exact inv_leave (inv_same h rfl rfl rfl rfl rfl) hlock
  · rename_i p hp
    split_ifs
    · exact inv_leave (inv_same h rfl rfl rfl rfl rfl) hlock
    · refine inv_leave ⟨fun j pc hpc => (h.threads j pc hpc).same rfl rfl rfl, ?_⟩ hlock
      intro k hk
      rcases List.mem_append.mp hk with hk | hk
      · exact h.kills k hk
      · obtain rfl := List.mem_singleton.mp hk
        exact ⟨hproc.symm.trans hp, hgeneration, hstalled⟩

theorem inv_step
    {op : Op} (h : Inv cfg s) (hstep : step cfg s op = some s') :
    Inv cfg s' := by
  cases op with
  | check i =>
      simp only [step] at hstep
      split_ifs at hstep
      obtain rfl := Option.some.inj hstep
      exact inv_check h i
  | acquire i =>
      simp only [step] at hstep
      split at hstep
      · split_ifs at hstep with hlock
        obtain rfl := Option.some.inj hstep
        exact inv_acquire h hlock
      · cases hstep
  | recheck i =>
      simp only [step] at hstep
      split at hstep
      · rename_i o hpc
        obtain rfl := Option.some.inj hstep
        exact inv_recheck h (h.threads i _ hpc)
      · cases hstep
  | unblock i =>
      simp only [step] at hstep
      split at hstep
      · rename_i o again hpc
        obtain rfl := Option.some.inj hstep
        have hholds : Pc.Holds cfg s i (.confirmed o again) := h.threads i _ hpc
        have hmoved : Inv cfg (s.setPc i (.unblocked o again)) := inv_setPc h hholds
        exact inv_same hmoved rfl rfl rfl rfl rfl
      · cases hstep
  | kill i =>
      simp only [step] at hstep
      split at hstep
      · rename_i o again hpc
        obtain rfl := Option.some.inj hstep
        obtain ⟨hlock, hconfirmed⟩ := h.threads i _ hpc
        exact inv_kill h hlock hconfirmed
      · cases hstep
  | fail i =>
      simp only [step] at hstep
      split_ifs at hstep with hlock
      obtain rfl := Option.some.inj hstep
      exact inv_leave h hlock
  | lock t =>
      simp only [step] at hstep
      split_ifs at hstep with hlock
      obtain rfl := Option.some.inj hstep
      refine ⟨fun j pc hpc => (h.threads j pc hpc).free ?_, h.kills⟩
      rw [hlock]
      rintro ⟨⟩
  | unlock t => exact inv_holding h hstep rfl rfl
  | nextGeneration t => exact inv_holding h hstep rfl rfl
  | spawn t => exact inv_holding h hstep rfl rfl
  | dropProcess t => exact inv_holding h hstep rfl rfl
  | ready t => exact inv_holding h hstep rfl rfl
  | startWatchdog =>
      obtain rfl := Option.some.inj hstep
      refine ⟨fun j pc hpc => ?_, h.kills⟩
      rcases of_getElem?_concat hpc with ⟨_, rfl⟩ | ⟨_, hold⟩
      · trivial
      · exact (h.threads j pc hold).same rfl rfl rfl
  | stopWatchdog =>
      obtain rfl := Option.some.inj hstep
      exact inv_same h rfl rfl rfl rfl rfl
  | calls calls =>
      obtain rfl := Option.some.inj hstep
      exact inv_same h rfl rfl rfl rfl rfl
  | exit p =>
      obtain rfl := Option.some.inj hstep
      exact inv_same h rfl rfl rfl rfl rfl
  | tick dt =>
      simp only [step] at hstep
      split_ifs at hstep
      obtain rfl := Option.some.inj hstep
      exact inv_same h rfl rfl rfl rfl rfl

end Steps

section Results

/-- **Recovery.**  In every run, what the watchdog kills is the process it had observed, in
the generation it had observed, and the stall of its trigger lasted when it looked again. -/
theorem kills_only_stalled
    (cfg : Config) (s : State) (h : Reach (step cfg) (fun _ _ => True) initial s) :
    ∀ k ∈ s.kills, k.Stalled cfg := by
  have hinv : Inv cfg s :=
    h.invariant (inv_initial cfg) fun _ _ _ hinv _ hstep => inv_step hinv hstep
  exact hinv.kills

/-- 120 s without an answer, a warning after 600 s of silence. -/
def defaults : Config :=
  { watchdogTimeout := 120
    silenceWarnAfter := 600 }

/-- A control call is 5 s over its deadline. -/
def overdue : Calls :=
  { inflight := some false
    inflightDeadline := 1000
    lastControlCallDeadline := 120
    pending := true }

/-- Two watchdogs find a call stalled; while the first recovers the transport, the second
waits, and the transport is replaced before it gets the lock. -/
def stalledRun : List Op :=
  [.lock 0, .nextGeneration 0, .spawn 0, .ready 0, .unlock 0, .startWatchdog, .startWatchdog,
    .calls overdue, .tick 125, .check 0, .check 1, .acquire 0, .recheck 0, .unblock 0, .kill 0,
    .exit 0, .lock 1, .dropProcess 1, .nextGeneration 1, .spawn 1, .ready 1, .unlock 1,
    .calls overdue, .acquire 1, .recheck 1]

theorem kills_only_stalled_stalledRun :
    ∃ s, run (step defaults) initial stalledRun = some s ∧ s.kills.length = 1 ∧
      s.proc = some 1 ∧ ∀ k ∈ s.kills, k.Stalled defaults := by
  have hout : (run (step defaults) initial stalledRun).map (fun s => (s.kills.length, s.proc)) =
      some (1, some 1) := by
    decide +kernel
  obtain ⟨s, hrun, hs⟩ := Option.map_eq_some_iff.mp hout
  simp only [Prod.mk.injEq] at hs
  exact ⟨s, hrun, hs.1, hs.2, kills_only_stalled _ _ (reach_of_run_free hrun)⟩

end Results

end Watchdog
end Acp
end DiploidAgent
