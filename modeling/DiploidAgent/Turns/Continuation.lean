import Mathlib.Logic.Function.Basic
import DiploidAgent.Runtime.DispatchStore

/-!
# A dispatch and its continuation

One dispatch of one chat: its status in the dispatch store, its event in the wake queue,
`wake` and `continue_turn` of `runtime/ingress.py` with the gates of `turn/dispatch.py`, and
`_handle_timer_fired`, which runs on the one thread of the event bus.

`wake` looks the event up, takes the chat and then reads the dispatch; one that it finds
completed or gone becomes an ordinary turn with the raw payload.  As long as no wake reads
such a dispatch, no status check is outdated when the turn is registered, no exception
comes between a recorded turn and `dispatch_store.complete`, and no late status replaces
`COMPLETED`, a dispatch has at most one recorded turn (`one_continuation`).
-/

namespace DiploidAgent
namespace Turns
namespace Continuation

open Runs
open Dispatches (DispatchStatus DispatchStore Sound)

/-! ### The model -/

/-- A dispatch that is there and not completed: the status check of `wake`, and that of
`continue_turn`. -/
def continuable : Option DispatchStatus → Bool
  | none => false
  | some .completed => false
  | some _ => true

/-- `WakeEvent`; a lease is a time that may have passed. -/
structure Wake where
  ready : Bool
  leased : Bool
deriving DecidableEq

/-- `WakeQueue.ready`. -/
def armed (w : Option Wake) : Option Wake :=
  w.map fun w => if w.ready then w else
    { ready := true
      leased := false }

/-- A lease that expires, and `WakeQueue.fail`. -/
def unleased (w : Option Wake) : Option Wake := w.map fun w => { w with leased := false }

/-- The thread of the event bus, and those of the callers. -/
inductive Thread where
  | bus
  | manual (n : Nat)
deriving DecidableEq

/-- The ordinary turn of a wake, another message of the chat, the `continue_turn` of a
wake, and a manual one. -/
inductive Kind where
  | raw
  | user
  | nested
  | manual
deriving DecidableEq

namespace Kind

def continues : Kind → Bool
  | .nested => true
  | .manual => true
  | _ => false

def ofWake : Kind → Bool
  | .raw => true
  | .nested => true
  | _ => false

def ofDispatch : Kind → Bool
  | .user => false
  | _ => true

end Kind

/-- A reply with a turn number, one without (among `_WAKE_RETRY_REPLIES` or not), or an
exception. -/
inductive Outcome where
  | numbered
  | unnumbered (retry : Bool)
  | raised
deriving DecidableEq

/-- What `RuntimeIngress.continue_turn` tells the wake queue. -/
def settleWake (o : Outcome) (w : Option Wake) : Option Wake :=
  match o with
  | .numbered => none
  | .unnumbered _ => w
  | .raised => unleased w

/-- What `_handle_timer_fired` tells the wake queue. -/
def handleWake (o : Outcome) (w : Option Wake) : Option Wake :=
  match o with
  | .numbered => none
  | .unnumbered false => none
  | .unnumbered true => unleased w
  | .raised => unleased w

/-- Where a turn is: from the call over the chat's lock file (`acquired`, `holding`), the
status check and the other gates to the registered turn, its record, and the way to
`_cleanup_turn`. -/
inductive Stage where
  | called
  | entering
  | acquired
  | holding
  | checked
  | gated
  | turn
  | recorded
  | closing (o : Outcome)
deriving DecidableEq

/-- Where a thread is; `fired`, `found` and `waking` are `wake` before it has read the
dispatch, `leaving` is its `finally`, and `left` is back in `_handle_timer_fired`. -/
inductive Pc where
  | idle
  | fired
  | found
  | waking
  | work (kind : Kind) (stage : Stage)
  | ended (kind : Kind) (o : Outcome)
  | settled (kind : Kind) (o : Outcome)
  | leaving (o : Outcome)
  | left (o : Outcome)
deriving DecidableEq

/-- Where a thread goes from `continue_turn`, or from another message. -/
def back : Kind → Outcome → Pc
  | .nested, o => .leaving o
  | _, _ => .idle

/-- In a hook that may release the runtime lock. -/
def Pc.inHook : Pc → Bool
  | .work k .checked => k.continues
  | .work _ .gated => true
  | .work _ .recorded => true
  | _ => false

/-- The dispatch (none once it is evicted), its wake event (none once it is completed), the
`timer.fired` events on the bus, the holder of the chat and of the runtime lock, whether
`_active_turns` has an entry, and the threads; then how many turns were recorded for the
dispatch, whether a continuation has completed it, and whether a turn was started from the
wake after that. -/
structure State where
  dispatch : Option DispatchStatus
  wake : Option Wake
  fired : Nat
  chat : Option Thread
  lock : Option Thread
  activeTurn : Bool
  pc : Thread → Pc
  recorded : Nat
  continued : Bool
  late : Bool

/-- After `TurnDispatch.dispatch`. -/
def initial : State :=
  { dispatch := some .pending
    wake := some {
      ready := false
      leased := false }
    fired := 0
    chat := none
    lock := none
    activeTurn := false
    pc := fun _ => .idle
    recorded := 0
    continued := false
    late := false }

namespace State

def setPc (s : State) (t : Thread) (pc : Pc) : State :=
  { s with pc := Function.update s.pc t pc }

/-- The thread goes on with the runtime lock. -/
def locked (s : State) (t : Thread) (pc : Pc) : State := { s.setPc t pc with lock := some t }

/-- The thread goes on without it. -/
def unlocked (s : State) (t : Thread) (pc : Pc) : State := { s.setPc t pc with lock := none }

/-- `InstanceManager.acquire` succeeds: the chat is free, or held by the same thread. -/
def chatFree (s : State) (t : Thread) : Bool := s.chat.isNone || s.chat = some t

end State

inductive Label where
  /-- `_complete_subagent_task` stores its result, with a final status or none -/
  | finish (status : Option DispatchStatus)
  /-- and makes the wake ready -/
  | ready
  | evict
  | pop
  | expire
  /-- the bus takes a `timer.fired` event -/
  | take
  | lookup
  | takeChat
  | read
  | call (n : Nat)
  | message (n : Nat)
  /-- `dispatch_store.get` of `RuntimeIngress.continue_turn` -/
  | find (t : Thread)
  | acquire (t : Thread)
  /-- `continue_turn` makes the wake ready -/
  | arm (t : Thread)
  | check (t : Thread)
  | yieldHook (t : Thread)
  | returnHook (t : Thread)
  | gate (t : Thread)
  | refuse (t : Thread) (o : Outcome)
  | register (t : Thread)
  /-- the engine call comes back without an outcome -/
  | giveUp (t : Thread)
  | record (t : Thread)
  /-- `after_result` -/
  | complete (t : Thread)
  | cleanup (t : Thread)
  | raise (t : Thread)
  | settle (t : Thread)
  | release (t : Thread)
  | handle
deriving DecidableEq

/-- An exception; one in a hook reaches the turn with the lock taken again. -/
def raiseAt (s : State) (t : Thread) : Option State :=
  match s.pc t with
  | .work k .checked => if s.lock = some t then some (s.unlocked t (.ended k .raised)) else none
  | .work k .gated => if s.lock = some t then some (s.unlocked t (.ended k .raised)) else none
  | .work k .turn => some (s.setPc t (.work k (.closing .raised)))
  | .work k .recorded =>
      if s.lock = some t then some (s.unlocked t (.work k (.closing .raised))) else none
  | .ended k .numbered => some (s.setPc t (.ended k .raised))
  | _ => none

/-- A gate, the budget or a plugin answers in place of the turn; an ordinary turn may
answer with the number of the interrupted one. -/
def refuseAt (s : State) (t : Thread) (o : Outcome) : Option State :=
  match s.pc t with
  | .work k .checked =>
      if s.lock = some t ∧ o ≠ .raised ∧ (k.continues → o ≠ .numbered) then
        some (s.unlocked t (.ended k o))
      else none
  | .work k .gated =>
      if s.lock = some t ∧ o ≠ .raised ∧ (k.continues → o ≠ .numbered) then
        some (s.unlocked t (.ended k o))
      else none
  | _ => none

/-- `release` gives the chat up, whoever holds it by now. -/
def releaseAt (s : State) (t : Thread) : Option State :=
  match s.pc t with
  | .settled k o => some { s.setPc t (back k o) with chat := none }
  | .leaving o => some { s.setPc t (.left o) with chat := none }
  | _ => none

/-- What `after_result` does: a continuation completes the dispatch if it is still there. -/
def completed (s : State) (k : Kind) : State :=
  if k.continues then
    { s with
      dispatch := s.dispatch.map fun _ => .completed
      continued := true }
  else s

/-- One step of a thread, of the subagent's end, of the stores or of the clock. -/
def step (s : State) : Label → Option State
  | .finish status =>
      match status with
      | some .pending => none
      | some .completed => none
      | _ => some { s with dispatch := s.dispatch.map fun old => status.getD old }
  | .ready => some { s with wake := armed s.wake }
  | .evict =>
      match s.dispatch with
      | some status => if status.isTerminal then some { s with dispatch := none } else none
      | none => none
  | .pop =>
      match s.wake with
      | some w =>
          if w.ready ∧ ¬ w.leased then
            some { s with
              wake := some { w with leased := true }
              fired := s.fired + 1 }
          else none
      | none => none
  | .expire => some { s with wake := unleased s.wake }
  | .take =>
      if s.pc .bus = .idle ∧ 0 < s.fired then
        some { s.setPc .bus .fired with fired := s.fired - 1 }
      else none
  | .lookup =>
      match s.pc .bus with
      | .fired =>
          some (s.setPc .bus (if s.wake.isSome then .found else .left (.unnumbered false)))
      | _ => none
  | .takeChat =>
      match s.pc .bus with
      | .found =>
          if s.chatFree .bus then some { s.setPc .bus .waking with chat := some .bus }
          else some (s.setPc .bus (.left (.unnumbered true)))
      | _ => none
  | .read =>
      match s.pc .bus with
      | .waking =>
          some (s.setPc .bus
            (if continuable s.dispatch then .work .nested .called else .work .raw .holding))
      | _ => none
  | .call n =>
      if s.pc (.manual n) = .idle then some (s.setPc (.manual n) (.work .manual .called))
      else none
  | .message n =>
      if s.pc (.manual n) = .idle then some (s.setPc (.manual n) (.work .user .entering))
      else none
  | .find t =>
      match s.pc t with
      | .work k .called =>
          some (s.setPc t
            (if s.dispatch.isSome then .work k .entering else back k (.unnumbered false)))
      | _ => none
  | .acquire t =>
      match s.pc t with
      | .work k .entering =>
          if s.chatFree t then
            some { s.setPc t (.work k (if k.continues then .acquired else .holding)) with
              chat := some t }
          else some (s.setPc t (back k (.unnumbered true)))
      | _ => none
  | .arm t =>
      match s.pc t with
      | .work k .acquired => some { s.setPc t (.work k .holding) with wake := armed s.wake }
      | _ => none
  | .check t =>
      match s.pc t with
      | .work k .holding =>
          if s.lock = none then
            some (if k.continues && !continuable s.dispatch then
              s.setPc t (.ended k (.unnumbered false)) else s.locked t (.work k .checked))
          else none
      | _ => none
  | .yieldHook t =>
      if (s.pc t).inHook ∧ s.lock = some t then some { s with lock := none } else none
  | .returnHook t =>
      if (s.pc t).inHook ∧ s.lock = none then some { s with lock := some t } else none
  | .gate t =>
      match s.pc t with
      | .work k .checked =>
          if s.lock = some t ∧ s.activeTurn = false then some (s.setPc t (.work k .gated))
          else none
      | _ => none
  | .refuse t o => refuseAt s t o
  | .register t =>
      match s.pc t with
      | .work k .gated =>
          if s.lock = some t then
            some { s.unlocked t (.work k .turn) with
              activeTurn := true
              late := s.late || (k.ofWake && s.continued) }
          else none
      | _ => none
  | .giveUp t =>
      match s.pc t with
      | .work k .turn => some (s.setPc t (.work k (.closing (.unnumbered false))))
      | _ => none
  | .record t =>
      match s.pc t with
      | .work k .turn =>
          if s.lock = none then
            some { s.locked t (.work k .recorded) with
              recorded := if k.ofDispatch then s.recorded + 1 else s.recorded }
          else none
      | _ => none
  | .complete t =>
      match s.pc t with
      | .work k .recorded =>
          if s.lock = some t then
            some (completed (s.unlocked t (.work k (.closing .numbered))) k)
          else none
      | _ => none
  | .cleanup t =>
      match s.pc t with
      | .work k (.closing o) =>
          if s.lock = none then some { s.setPc t (.ended k o) with activeTurn := false }
          else none
      | _ => none
  | .raise t => raiseAt s t
  | .settle t =>
      match s.pc t with
      | .ended .raw o => some (s.setPc t (.leaving o))
      | .ended k o =>
          some { s.setPc t (.settled k o) with
            wake := if k.continues then settleWake o s.wake else s.wake }
      | _ => none
  | .release t => releaseAt s t
  | .handle =>
      match s.pc .bus with
      | .left o => some { s.setPc .bus .idle with wake := handleWake o s.wake }
      | _ => none

/-! ### The dispatch store behind it -/

/-- The status of a dispatch in the store. -/
def statusIn (store : DispatchStore) (id : String) : Option DispatchStatus :=
  (store.dispatches.get id).map (·.status)

section Store

variable {store store' : DispatchStore} {now : Int} {id : String} {d : Dispatches.Dispatch}
  {s : State}

theorem written_of_target {call : Dispatches.Call}
    (hstore : Sound store) (hd : store.dispatches.get id = some d)
    (htarget : call.target? = some id) :
    call.written d = call.write d := by
  rw [Dispatches.Call.written, htarget, hstore.keyed id d hd, if_pos rfl]

/-- Beside what a call of the store writes to a dispatch, its sweep is an eviction. -/
theorem sweep_simulated {call : Dispatches.Call}
    (hstore : Sound store) (hcall : Dispatches.step store (now, call) = some store')
    (hd : store.dispatches.get id = some d) (hview : s.dispatch = some (call.written d).status) :
    ∃ ls, run step s ls = some { s with dispatch := statusIn store' id } := by
  have hkept : statusIn store' id = some (call.written d).status →
      ∃ ls, run step s ls = some { s with dispatch := statusIn store' id } := by
    intro hstatus
    refine ⟨[], ?_⟩
    rw [hstatus, ← hview]
    rfl
  rcases Dispatches.step_cases hstore hcall with ⟨rfl, hnone⟩ | ⟨m, rfl, hm, hwritten, -⟩
  · apply hkept
    rw [Dispatches.written_of_untargeted hstore hnone hd]
    simp [statusIn, hd]
  · have hbefore := hwritten id d hd
    cases hget : (Dispatches.evictTerminal now m).get id with
    | some d' =>
        apply hkept
        have hafter := ((Dispatches.get_evictTerminal hm).mp hget).1
        rw [hbefore] at hafter
        rw [Option.some.inj hafter]
        exact congrArg (Option.map (·.status)) hget
    | none =>
        have hgone : statusIn (Dispatches.save now m) id = none := by
          show ((Dispatches.evictTerminal now m).get id).map (·.status) = none
          rw [hget]
          rfl
        have hterminal : (call.written d).status.isTerminal = true := by
          by_contra hpending
          have hstays : (Dispatches.evictTerminal now m).get id = some (call.written d) :=
            (Dispatches.get_evictTerminal hm).mpr
              ⟨hbefore, fun hterminal => absurd hterminal hpending⟩
          rw [hget] at hstays
          cases hstays
        refine ⟨[.evict], ?_⟩
        simp [run, step, hview, hterminal, hgone]

/-- `set_result` with the final status of a subagent. -/
theorem setResult_simulated {status : Option DispatchStatus} {result : String}
    {summary stopReason path : Option String} {finishedAt : Option Int}
    {cancelled isPartial timedOut : Bool}
    (hstore : Sound store)
    (hcall : Dispatches.step store (now, .setResult id result summary finishedAt status stopReason
      cancelled isPartial timedOut path) = some store')
    (hd : store.dispatches.get id = some d) (hview : s.dispatch = some d.status)
    (hstatus : status ≠ some .pending ∧ status ≠ some .completed) :
    ∃ ls, run step s (.finish status :: ls) = some { s with dispatch := statusIn store' id } := by
  have hfinish : step s (.finish status) =
      some { s with dispatch := some (status.getD d.status) } := by
    simp only [step]
    split
    · exact absurd rfl hstatus.1
    · exact absurd rfl hstatus.2
    · rw [hview]
      rfl
  obtain ⟨ls, hls⟩ := sweep_simulated (s := { s with dispatch := some (status.getD d.status) })
    hstore hcall hd (by
      rw [written_of_target hstore hd rfl]
      cases hold : d.status <;> simp [Dispatches.Call.write, hold])
  exact ⟨ls, run_cons_eq_some.mpr ⟨_, hfinish, hls⟩⟩

/-- `complete`, as `after_result` of a continuation calls it. -/
theorem complete_simulated {k : Kind} {result : String}
    (hk : k.continues = true) (hstore : Sound store)
    (hcall : Dispatches.step store (now, .complete id result) = some store')
    (hd : store.dispatches.get id = some d) (hview : s.dispatch = some d.status) :
    ∃ ls, run step (completed s k) ls =
      some { completed s k with dispatch := statusIn store' id } := by
  refine sweep_simulated hstore hcall hd ?_
  rw [written_of_target hstore hd rfl, completed, if_pos hk, hview]
  rfl

/-- A call about another dispatch. -/
theorem other_simulated {call : Dispatches.Call}
    (hstore : Sound store) (hcall : Dispatches.step store (now, call) = some store')
    (hd : store.dispatches.get id = some d) (hview : s.dispatch = some d.status)
    (hother : call.target? ≠ some id) :
    ∃ ls, run step s ls = some { s with dispatch := statusIn store' id } := by
  refine sweep_simulated hstore hcall hd ?_
  rw [Dispatches.Call.written, if_neg (by rwa [hstore.keyed id d hd])]
  exact hview

end Store

/-! ### The condition -/

/-- What a thread has to do with the dispatch: nothing, the ordinary turn of a wake, a
registered continuation, or one whose turn is recorded and that has not completed it. -/
inductive Phase where
  | outside
  | raw
  | turn
  | recorded
deriving DecidableEq

def Pc.phase : Pc → Phase
  | .work .raw _ => .raw
  | .work .user _ => .outside
  | .work _ .turn => .turn
  | .work _ .recorded => .recorded
  | _ => .outside

def Pc.running (pc : Pc) : Bool := pc.phase = .turn || pc.phase = .recorded

/-- A wake reads the dispatch while it can be continued; what the status check found still
holds when the turn is registered, and no other turn of the dispatch runs by then; no
exception comes between a recorded turn and `after_result`; and the subagent's final status
does not replace `COMPLETED`. -/
def Steady (s : State) : Label → Prop
  | .read => continuable s.dispatch = true
  | .register t =>
      ∀ k, s.pc t = .work k .gated → k.continues = true →
        continuable s.dispatch = true ∧ ∀ u, (s.pc u).running = false
  | .raise t => (s.pc t).phase ≠ .recorded
  | .finish status => status.isSome = true → s.dispatch ≠ some .completed
  | _ => True

/-! ### What a step does -/

/-- The steps under the condition, by what they do to the threads' phases, the dispatch and
the counts. -/
inductive Effect (s : State) : State → Prop
  | quiet {t : Thread} {pc : Pc} {wake : Option Wake} {fired : Nat} {chat lock : Option Thread}
      {activeTurn : Bool}
      (hphase : pc.phase = (s.pc t).phase) :
      Effect s { s with
        wake := wake
        fired := fired
        chat := chat
        lock := lock
        activeTurn := activeTurn
        pc := Function.update s.pc t pc }
  | status {dispatch : Option DispatchStatus}
      (hclosed : continuable dispatch = true → continuable s.dispatch = true) :
      Effect s { s with dispatch := dispatch }
  | raw {s' : State} {t : Thread}
      (hphase : (s.pc t).phase = .raw) :
      Effect s s'
  | register {t : Thread} {pc : Pc} {k : Kind} {lock : Option Thread} {activeTurn : Bool}
      (hphase : pc.phase = .turn) (hopen : continuable s.dispatch = true)
      (hfree : ∀ u, (s.pc u).running = false) :
      Effect s { s with
        lock := lock
        activeTurn := activeTurn
        pc := Function.update s.pc t pc
        late := s.late || (k.ofWake && s.continued) }
  | fail {t : Thread} {pc : Pc} {lock : Option Thread}
      (hbefore : (s.pc t).phase = .turn) (hphase : pc.phase = .outside) :
      Effect s { s with
        lock := lock
        pc := Function.update s.pc t pc }
  | record {t : Thread} {pc : Pc} {lock : Option Thread}
      (hbefore : (s.pc t).phase = .turn) (hphase : pc.phase = .recorded) :
      Effect s { s with
        lock := lock
        pc := Function.update s.pc t pc
        recorded := s.recorded + 1 }
  | complete {t : Thread} {pc : Pc} {lock : Option Thread}
      (hbefore : (s.pc t).phase = .recorded) (hphase : pc.phase = .outside) :
      Effect s { s with
        dispatch := s.dispatch.map fun _ => .completed
        lock := lock
        pc := Function.update s.pc t pc
        continued := true }

section Steps

variable {s s' : State} {l : Label} {t : Thread} {k : Kind} {o : Outcome}

@[simp] theorem phase_back (k : Kind) (o : Outcome) : (back k o).phase = .outside := by
  cases k <;> rfl

/-- Outside of a registered turn, the kind alone decides the phase. -/
theorem phase_stage {a b : Stage}
    (ha : a ≠ .turn ∧ a ≠ .recorded) (hb : b ≠ .turn ∧ b ≠ .recorded) :
    (Pc.work k b).phase = (Pc.work k a).phase := by
  obtain ⟨hturn, hrecorded⟩ := ha
  obtain ⟨hturn', hrecorded'⟩ := hb
  cases k <;> cases a <;> cases b <;> first
    | rfl
    | contradiction

/-- A turn that is not registered leaves. -/
theorem phase_leave {a : Stage} {pc : Pc}
    (ha : a ≠ .turn ∧ a ≠ .recorded) (hpc : pc.phase = .outside) :
    (Pc.work k a).phase = .raw ∨ pc.phase = (Pc.work k a).phase := by
  obtain ⟨hturn, hrecorded⟩ := ha
  rw [hpc]
  cases k with
  | raw => exact .inl rfl
  | _ => cases a <;> first
    | exact .inr rfl
    | contradiction

section Moves

variable {pc : Pc} {wake : Option Wake} {fired : Nat} {chat lock : Option Thread}
  {activeTurn : Bool}

/-- A thread goes on within its phase, or it is the ordinary turn of a wake. -/
theorem effect_move (h : (s.pc t).phase = .raw ∨ pc.phase = (s.pc t).phase) :
    Effect s { s with
      wake := wake
      fired := fired
      chat := chat
      lock := lock
      activeTurn := activeTurn
      pc := Function.update s.pc t pc } := by
  rcases h with hraw | hphase
  · exact .raw hraw
  · exact .quiet hphase

/-- The threads stay where they are. -/
theorem effect_stores :
    Effect s { s with
      wake := wake
      fired := fired
      chat := chat
      lock := lock
      activeTurn := activeTurn } := by
  have hquiet : Effect s { s with
      wake := wake
      fired := fired
      chat := chat
      lock := lock
      activeTurn := activeTurn
      pc := Function.update s.pc .bus (s.pc .bus) } := .quiet rfl
  rw [Function.update_eq_self] at hquiet
  exact hquiet

end Moves

theorem effect_raise (h : raiseAt s t = some s') (hcond : (s.pc t).phase ≠ .recorded) :
    Effect s s' := by
  unfold raiseAt at h
  split at h
  · rename_i k hpc
    split at h
    · cases h
      exact effect_move (by rw [hpc]; exact phase_leave (by decide) rfl)
    · cases h
  · rename_i k hpc
    split at h
    · cases h
      exact effect_move (by rw [hpc]; exact phase_leave (by decide) rfl)
    · cases h
  · rename_i k hpc
    cases h
    cases k with
    | raw => exact .raw (by rw [hpc]; rfl)
    | user => exact .quiet (by rw [hpc]; rfl)
    | nested => exact .fail (by rw [hpc]; rfl) rfl
    | manual => exact .fail (by rw [hpc]; rfl) rfl
  · rename_i k hpc
    split at h
    · cases h
      cases k with
      | raw => exact .raw (by rw [hpc]; rfl)
      | user => exact .quiet (by rw [hpc]; rfl)
      | nested => exact absurd (by rw [hpc]; rfl) hcond
      | manual => exact absurd (by rw [hpc]; rfl) hcond
    · cases h
  · rename_i k hpc
    cases h
    exact .quiet (by rw [hpc]; rfl)
  · cases h

theorem effect_refuse (h : refuseAt s t o = some s') : Effect s s' := by
  unfold refuseAt at h
  split at h
  · rename_i k hpc
    split at h
    · cases h
      exact effect_move (by rw [hpc]; exact phase_leave (by decide) rfl)
    · cases h
  · rename_i k hpc
    split at h
    · cases h
      exact effect_move (by rw [hpc]; exact phase_leave (by decide) rfl)
    · cases h
  · cases h

theorem effect_release (h : releaseAt s t = some s') : Effect s s' := by
  unfold releaseAt at h
  split at h
  · rename_i k o hpc
    cases h
    exact .quiet (by rw [hpc]; exact phase_back k o)
  · rename_i o hpc
    cases h
    exact .quiet (by rw [hpc]; rfl)
  · cases h

theorem effect_of_step (h : step s l = some s') (hcond : Steady s l) : Effect s s' := by
  cases l with
  | finish status =>
      have hset : s' = { s with dispatch := s.dispatch.map fun old => status.getD old } := by
        simp only [step] at h
        split at h
        · cases h
        · cases h
        · exact (Option.some.inj h).symm
      rw [hset]
      refine .status fun hopen => ?_
      cases hdispatch : s.dispatch with
      | none =>
          rw [hdispatch] at hopen
          exact hopen
      | some old =>
          cases status with
          | none =>
              rw [hdispatch] at hopen
              exact hopen
          | some status =>
              have hne := hcond rfl
              rw [hdispatch] at hne
              cases old <;> first
                | rfl
                | exact absurd rfl hne
  | ready =>
      cases h
      exact effect_stores
  | evict =>
      simp only [step] at h
      split at h
      · split at h
        · cases h
          exact .status fun hopen => by cases hopen
        · cases h
      · cases h
  | pop =>
      simp only [step] at h
      split at h
      · split at h
        · cases h
          exact effect_stores
        · cases h
      · cases h
  | expire =>
      cases h
      exact effect_stores
  | take =>
      simp only [step] at h
      split at h
      · rename_i hpc
        cases h
        exact .quiet (by rw [hpc.1]; rfl)
      · cases h
  | lookup =>
      simp only [step] at h
      split at h
      · rename_i hpc
        cases h
        refine .quiet ?_
        rw [hpc]
        split <;> rfl
      · cases h
  | takeChat =>
      simp only [step] at h
      split at h
      · rename_i hpc
        split at h
        · cases h
          exact .quiet (by rw [hpc]; rfl)
        · cases h
          exact .quiet (by rw [hpc]; rfl)
      · cases h
  | read =>
      simp only [step] at h
      split at h
      · rename_i hpc
        have hopen : continuable s.dispatch = true := hcond
        rw [if_pos hopen] at h
        cases h
        exact .quiet (by rw [hpc]; rfl)
      · cases h
  | call n =>
      simp only [step] at h
      split at h
      · rename_i hpc
        cases h
        exact .quiet (by rw [hpc]; rfl)
      · cases h
  | message n =>
      simp only [step] at h
      split at h
      · rename_i hpc
        cases h
        exact .quiet (by rw [hpc]; rfl)
      · cases h
  | find t =>
      simp only [step] at h
      split at h
      · rename_i k hpc
        cases h
        refine effect_move ?_
        rw [hpc]
        split
        · exact .inr (phase_stage (by decide) (by decide))
        · exact phase_leave (by decide) (phase_back _ _)
      · cases h
  | acquire t =>
      simp only [step] at h
      split at h
      · rename_i k hpc
        split at h
        · cases h
          refine .quiet ?_
          rw [hpc]
          refine phase_stage (by decide) ?_
          split <;> decide
        · cases h
          exact effect_move (by rw [hpc]; exact phase_leave (by decide) (phase_back _ _))
      · cases h
  | arm t =>
      simp only [step] at h
      split at h
      · rename_i k hpc
        cases h
        exact .quiet (by rw [hpc]; exact phase_stage (by decide) (by decide))
      · cases h
  | check t =>
      simp only [step] at h
      split at h
      · rename_i k hpc
        split at h
        · cases h
          split
          · exact effect_move (by rw [hpc]; exact phase_leave (by decide) rfl)
          · exact .quiet (by rw [hpc]; exact phase_stage (by decide) (by decide))
        · cases h
      · cases h
  | yieldHook t =>
      simp only [step] at h
      split at h
      · cases h
        exact effect_stores
      · cases h
  | returnHook t =>
      simp only [step] at h
      split at h
      · cases h
        exact effect_stores
      · cases h
  | gate t =>
      simp only [step] at h
      split at h
      · rename_i k hpc
        split at h
        · cases h
          exact .quiet (by rw [hpc]; exact phase_stage (by decide) (by decide))
        · cases h
      · cases h
  | refuse t o => exact effect_refuse h
  | register t =>
      simp only [step] at h
      split at h
      · rename_i k hpc
        split at h
        · cases h
          cases k with
          | raw => exact .raw (by rw [hpc]; rfl)
          | user =>
              have hlate : (s.late || (Kind.user.ofWake && s.continued)) = s.late := by
                simp [Kind.ofWake]
              rw [hlate]
              exact .quiet (by rw [hpc]; rfl)
          | nested =>
              obtain ⟨hopen, hfree⟩ := hcond .nested hpc rfl
              exact .register rfl hopen hfree
          | manual =>
              obtain ⟨hopen, hfree⟩ := hcond .manual hpc rfl
              exact .register rfl hopen hfree
        · cases h
      · cases h
  | giveUp t =>
      simp only [step] at h
      split at h
      · rename_i k hpc
        cases h
        cases k with
        | raw => exact .raw (by rw [hpc]; rfl)
        | user => exact .quiet (by rw [hpc]; rfl)
        | nested => exact .fail (by rw [hpc]; rfl) rfl
        | manual => exact .fail (by rw [hpc]; rfl) rfl
      · cases h
  | record t =>
      simp only [step] at h
      split at h
      · rename_i k hpc
        split at h
        · cases h
          cases k with
          | raw => exact .raw (by rw [hpc]; rfl)
          | user => exact .quiet (by rw [hpc]; rfl)
          | nested => exact .record (by rw [hpc]; rfl) rfl
          | manual => exact .record (by rw [hpc]; rfl) rfl
        · cases h
      · cases h
  | complete t =>
      simp only [step] at h
      split at h
      · rename_i k hpc
        split at h
        · cases h
          cases k with
          | raw => exact .raw (by rw [hpc]; rfl)
          | user => exact .quiet (by rw [hpc]; rfl)
          | nested => exact .complete (by rw [hpc]; rfl) rfl
          | manual => exact .complete (by rw [hpc]; rfl) rfl
        · cases h
      · cases h
  | cleanup t =>
      simp only [step] at h
      split at h
      · rename_i k o hpc
        split at h
        · cases h
          refine effect_move ?_
          rw [hpc]
          exact phase_leave ⟨by simp, by simp⟩ rfl
        · cases h
      · cases h
  | raise t => exact effect_raise h hcond
  | settle t =>
      simp only [step] at h
      split at h
      · rename_i o hpc
        cases h
        exact .quiet (by rw [hpc]; rfl)
      · rename_i k o _ hpc
        cases h
        exact .quiet (by rw [hpc]; rfl)
      · cases h
  | release t => exact effect_release h
  | handle =>
      simp only [step] at h
      split at h
      · rename_i o hpc
        cases h
        exact .quiet (by rw [hpc]; rfl)
      · cases h

end Steps

/-! ### The invariant -/

/-- No thread is in a turn of the dispatch. -/
def Free (pc : Thread → Pc) : Prop := ∀ u, (pc u).phase = .outside

/-- One thread is, at the given phase. -/
def Only (pc : Thread → Pc) (t : Thread) (p : Phase) : Prop :=
  (pc t).phase = p ∧ ∀ u, u ≠ t → (pc u).phase = .outside

/-- The life of a dispatch under the condition. -/
inductive Progress (s : State) : Prop
  | waiting
      (hfree : Free s.pc) (hrecorded : s.recorded = 0) (hcontinued : s.continued = false) :
      Progress s
  | running (t : Thread)
      (honly : Only s.pc t .turn) (hrecorded : s.recorded = 0)
      (hcontinued : s.continued = false) :
      Progress s
  | recorded (t : Thread)
      (honly : Only s.pc t .recorded) (hrecorded : s.recorded = 1)
      (hcontinued : s.continued = false) :
      Progress s
  | done
      (hfree : Free s.pc) (hrecorded : s.recorded = 1) (hcontinued : s.continued = true)
      (hclosed : continuable s.dispatch = false) :
      Progress s

structure Inv (s : State) : Prop where
  progress : Progress s
  onTime : s.late = false

section Phases

variable {pcs : Thread → Pc} {t u : Thread} {pc : Pc} {p q : Phase}

theorem phase_update_of_same (h : pc.phase = (pcs t).phase) (u : Thread) :
    (Function.update pcs t pc u).phase = (pcs u).phase := by
  by_cases hu : u = t
  · rw [hu, Function.update_self, h]
  · rw [Function.update_of_ne hu]

theorem Free.same (h : Free pcs) (hphase : pc.phase = (pcs t).phase) :
    Free (Function.update pcs t pc) := by
  intro u
  rw [phase_update_of_same hphase]
  exact h u

theorem Only.same (h : Only pcs u p) (hphase : pc.phase = (pcs t).phase) :
    Only (Function.update pcs t pc) u p := by
  constructor
  · rw [phase_update_of_same hphase]
    exact h.1
  · intro v hv
    rw [phase_update_of_same hphase]
    exact h.2 v hv

theorem Free.enter (h : Free pcs) (hphase : pc.phase = p) :
    Only (Function.update pcs t pc) t p := by
  constructor
  · rw [Function.update_self]
    exact hphase
  · intro u hu
    rw [Function.update_of_ne hu]
    exact h u

theorem Only.go (h : Only pcs t p) (hphase : pc.phase = q) :
    Only (Function.update pcs t pc) t q := by
  constructor
  · rw [Function.update_self]
    exact hphase
  · intro u hu
    rw [Function.update_of_ne hu]
    exact h.2 u hu

theorem Only.leave (h : Only pcs t p) (hphase : pc.phase = .outside) :
    Free (Function.update pcs t pc) := by
  intro u
  by_cases hu : u = t
  · rw [hu, Function.update_self, hphase]
  · rw [Function.update_of_ne hu]
    exact h.2 u hu

theorem Free.absurd {P : Prop} (h : Free pcs) (ht : (pcs t).phase = p) (hp : p ≠ .outside) :
    P :=
  (hp (ht.symm.trans (h t))).elim

/-- A thread that is inside is the one that is. -/
theorem Only.eq (h : Only pcs t p) (hu : (pcs u).phase = q) (hq : q ≠ .outside) :
    u = t ∧ q = p := by
  have hut : u = t := by
    by_contra hne
    exact hq (hu.symm.trans (h.2 u hne))
  refine ⟨hut, ?_⟩
  rw [← hu, hut]
  exact h.1

end Phases

section Invariant

variable {s s' : State} {l : Label} {t : Thread}

theorem inv_initial : Inv initial :=
  { progress := .waiting (fun _ => rfl) rfl rfl
    onTime := rfl }

theorem Progress.free_of_raw (h : Progress s) : (s.pc t).phase ≠ .raw := by
  intro hraw
  cases h with
  | waiting hfree => exact hfree.absurd hraw (by decide)
  | running u honly => exact absurd (honly.eq hraw (by decide)).2 (by decide)
  | recorded u honly => exact absurd (honly.eq hraw (by decide)).2 (by decide)
  | done hfree => exact hfree.absurd hraw (by decide)

/-- With the dispatch open and no turn running, nothing has happened yet. -/
theorem Progress.waiting_of_open
    (h : Progress s) (hopen : continuable s.dispatch = true)
    (hrunning : ∀ u, (s.pc u).running = false) :
    Free s.pc ∧ s.recorded = 0 ∧ s.continued = false := by
  have hno : ∀ {u p}, (s.pc u).phase = p → p = .turn ∨ p = .recorded → False := by
    intro u p hp hcase
    have hu := hrunning u
    rw [Pc.running, hp] at hu
    rcases hcase with rfl | rfl <;> cases hu
  cases h with
  | waiting hfree hrecorded hcontinued => exact ⟨hfree, hrecorded, hcontinued⟩
  | running u honly => exact (hno honly.1 (.inl rfl)).elim
  | recorded u honly => exact (hno honly.1 (.inr rfl)).elim
  | done _ _ _ hclosed => exact absurd (hopen.symm.trans hclosed) (by decide)

/-- The registered turn is the one that runs. -/
theorem Progress.of_turn (h : Progress s) (ht : (s.pc t).phase = .turn) :
    Only s.pc t .turn ∧ s.recorded = 0 ∧ s.continued = false := by
  cases h with
  | waiting hfree => exact hfree.absurd ht (by decide)
  | running u honly hrecorded hcontinued =>
      obtain ⟨rfl, -⟩ := honly.eq ht (by decide)
      exact ⟨honly, hrecorded, hcontinued⟩
  | recorded u honly => exact absurd (honly.eq ht (by decide)).2 (by decide)
  | done hfree => exact hfree.absurd ht (by decide)

theorem Progress.of_recorded (h : Progress s) (ht : (s.pc t).phase = .recorded) :
    Only s.pc t .recorded ∧ s.recorded = 1 ∧ s.continued = false := by
  cases h with
  | waiting hfree => exact hfree.absurd ht (by decide)
  | running u honly => exact absurd (honly.eq ht (by decide)).2 (by decide)
  | recorded u honly hrecorded hcontinued =>
      obtain ⟨rfl, -⟩ := honly.eq ht (by decide)
      exact ⟨honly, hrecorded, hcontinued⟩
  | done hfree => exact hfree.absurd ht (by decide)

theorem continuable_map_completed (d : Option DispatchStatus) :
    continuable (d.map fun _ => .completed) = false := by
  cases d <;> rfl

theorem Effect.inv (h : Effect s s') (hinv : Inv s) : Inv s' := by
  obtain ⟨hprogress, honTime⟩ := hinv
  cases h with
  | quiet hphase =>
      refine ⟨?_, honTime⟩
      cases hprogress with
      | waiting hfree hrecorded hcontinued =>
          exact .waiting (hfree.same hphase) hrecorded hcontinued
      | running t honly hrecorded hcontinued =>
          exact .running t (honly.same hphase) hrecorded hcontinued
      | recorded t honly hrecorded hcontinued =>
          exact .recorded t (honly.same hphase) hrecorded hcontinued
      | done hfree hrecorded hcontinued hclosed =>
          exact .done (hfree.same hphase) hrecorded hcontinued hclosed
  | status hopen =>
      refine ⟨?_, honTime⟩
      cases hprogress with
      | waiting hfree hrecorded hcontinued => exact .waiting hfree hrecorded hcontinued
      | running t honly hrecorded hcontinued => exact .running t honly hrecorded hcontinued
      | recorded t honly hrecorded hcontinued => exact .recorded t honly hrecorded hcontinued
      | done hfree hrecorded hcontinued hclosed =>
          refine .done hfree hrecorded hcontinued (Bool.eq_false_iff.mpr fun hd => ?_)
          exact absurd ((hopen hd).symm.trans hclosed) (by decide)
  | raw hraw => exact absurd hraw hprogress.free_of_raw
  | @register t pc k lock activeTurn hphase hopen hrunning =>
      obtain ⟨hfree, hrecorded, hcontinued⟩ := hprogress.waiting_of_open hopen hrunning
      refine ⟨.running t (hfree.enter hphase) hrecorded hcontinued, ?_⟩
      simp [honTime, hcontinued]
  | fail hbefore hphase =>
      obtain ⟨honly, hrecorded, hcontinued⟩ := hprogress.of_turn hbefore
      exact ⟨.waiting (honly.leave hphase) hrecorded hcontinued, honTime⟩
  | @record t pc lock hbefore hphase =>
      obtain ⟨honly, hrecorded, hcontinued⟩ := hprogress.of_turn hbefore
      refine ⟨.recorded t (honly.go hphase) ?_ hcontinued, honTime⟩
      simp [hrecorded]
  | complete hbefore hphase =>
      obtain ⟨honly, hrecorded, hcontinued⟩ := hprogress.of_recorded hbefore
      refine ⟨.done (honly.leave hphase) hrecorded rfl ?_, honTime⟩
      exact continuable_map_completed s.dispatch

theorem inv_step (h : Inv s) (hcond : Steady s l) (hstep : step s l = some s') : Inv s' :=
  (effect_of_step hstep hcond).inv h

theorem Progress.recorded_le (h : Progress s) : s.recorded ≤ 1 := by
  cases h <;> omega

end Invariant

/-! ### The main result -/

/-- In a run whose steps meet the condition a dispatch has at most one recorded turn, and no
turn is started from its wake once a continuation has completed it. -/
theorem one_continuation {s : State} (h : Reach step Steady initial s) :
    s.recorded ≤ 1 ∧ s.late = false := by
  have hinv : Inv s := h.invariant inv_initial fun _ _ _ => inv_step
  exact ⟨hinv.progress.recorded_le, hinv.onTime⟩

/-- A wake whose event is popped, up to the gates of its continuation. -/
def popped : List Label :=
  [.finish (some .timeout), .ready, .pop, .take, .lookup, .takeChat, .read, .find .bus,
    .acquire .bus, .arm .bus, .check .bus, .gate .bus]

/-- The rest of it; the lease runs out before it is over, and the second `timer.fired`
finds the event gone. -/
def continuedOnce : List Label :=
  [.record .bus, .expire, .pop, .complete .bus, .cleanup .bus, .settle .bus, .release .bus,
    .release .bus, .handle, .take, .lookup, .handle]

/-- The condition, for steps other than a registration or an exception. -/
def steadyStep (s : State) : Label → Bool
  | .read => continuable s.dispatch
  | .register _ => false
  | .raise _ => false
  | .finish status => status.isNone || s.dispatch ≠ some .completed
  | _ => true

theorem steady_of_steadyStep (s : State) (l : Label) (h : steadyStep s l = true) :
    Steady s l := by
  cases l with
  | read => exact h
  | finish status =>
      intro hstatus
      cases status with
      | none => cases hstatus
      | some status => simpa [steadyStep] using h
  | register t => cases h
  | raise t => cases h
  | _ => trivial

/-- The wake's continuation is past its gates, and registered. -/
def poppedState : State := (run step initial popped).getD initial

def registeredState : State := (step poppedState (.register .bus)).getD poppedState

theorem reach_registeredState : Reach step Steady initial registeredState := by
  have hrun : run step initial popped = some poppedState := run_eq_getD (by decide)
  have hreach : Reach step Steady initial poppedState :=
    reach_of_run hrun (guarded_of_checkRun steadyStep steady_of_steadyStep (by decide))
  have hfree : ∀ u, (poppedState.pc u).running = false := by
    intro u
    cases u <;> rfl
  have hsteady : Steady poppedState (.register .bus) := by
    intro k _ _
    exact ⟨by rfl, hfree⟩
  exact hreach.next hsteady rfl

theorem one_continuation_popped :
    ∃ s, run step registeredState continuedOnce = some s ∧ s.pc .bus = .idle ∧
      (s.recorded ≤ 1 ∧ s.late = false) := by
  have hsome : (run step registeredState continuedOnce).isSome = true := by decide
  have hrest : Reach step Steady registeredState
      ((run step registeredState continuedOnce).getD registeredState) :=
    reach_of_run (run_eq_getD hsome)
      (guarded_of_checkRun steadyStep steady_of_steadyStep (by decide))
  exact ⟨_, run_eq_getD hsome, by rfl, one_continuation (reach_registeredState.trans hrest)⟩

/-- A continuation from its call to its end. -/
def continuation (t : Thread) : List Label :=
  [.find t, .acquire t, .arm t, .check t, .gate t, .register t, .record t, .complete t,
    .cleanup t, .settle t, .release t]

/-- A manual continuation between the lookup of the wake and its taking of the chat. -/
def manualInWake : List Label :=
  [.ready, .pop, .take, .lookup, .call 0] ++ continuation (.manual 0) ++
    [.takeChat, .read, .check .bus, .gate .bus, .register .bus, .record .bus]

/-- An exception between the record of the turn and `after_result`. -/
def raisedAfterRecord : List Label :=
  [.call 0, .find (.manual 0), .acquire (.manual 0), .arm (.manual 0), .check (.manual 0),
    .gate (.manual 0), .register (.manual 0), .record (.manual 0), .raise (.manual 0),
    .cleanup (.manual 0), .settle (.manual 0), .release (.manual 0), .call 0] ++
    continuation (.manual 0)

/-- A subagent that times out after its dispatch was continued by hand. -/
def lateTimeout : List Label :=
  .call 0 :: continuation (.manual 0) ++
    .finish (some .timeout) :: .call 0 :: continuation (.manual 0)

/-- A wake that is refused gives up the chat for the call that has taken it since, and a
second call continues the dispatch while the first is in a hook. -/
def checkedTooEarly : List Label :=
  [.ready, .pop, .take, .lookup, .takeChat, .read, .find .bus, .acquire .bus, .arm .bus,
    .check .bus, .refuse .bus (.unnumbered false), .settle .bus, .release .bus,
    .call 0, .find (.manual 0), .acquire (.manual 0), .release .bus,
    .arm (.manual 0), .check (.manual 0), .yieldHook (.manual 0), .call 1] ++
    continuation (.manual 1) ++
    [.returnHook (.manual 0), .gate (.manual 0), .register (.manual 0), .record (.manual 0)]

/-- Each run leaves out one part of the condition, and ends with two recorded turns; in the
first the second of them is started from the wake after the dispatch was completed. -/
theorem continued_twice :
    (run step initial manualInWake).map (fun s => (s.recorded, s.late)) = some (2, true) ∧
      (run step initial raisedAfterRecord).map (·.recorded) = some 2 ∧
      (run step initial lateTimeout).map (·.recorded) = some 2 ∧
      (run step initial checkedTooEarly).map (·.recorded) = some 2 := by
  decide

end Continuation
end Turns
end DiploidAgent
