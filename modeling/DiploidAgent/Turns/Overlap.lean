import Mathlib.Logic.Function.Basic
import DiploidAgent.Lib.Runs

/-!
# Turns and session operations of one chat

`process` and `continue_turn` look at `_session_ops` and `_active_turns` when they begin
and register the turn after their hooks and the prompt; a hook may release the runtime lock
in between (`call_engine_unlocked`).  A session operation marks the chat right after its
check.

As long as no call passes its gate while another one is in a hook that has released the
lock, turns and operations exclude each other and every turn is registered for the active
record; a call that passes then overlaps with the other (`turns_exclusive`).
-/

namespace DiploidAgent
namespace Turns
namespace Overlap

open Runs

/-! ### The model -/

inductive TurnKind where
  | process
  | continueTurn
deriving DecidableEq

inductive SessionOp where
  | newSession
  | switchModel
  | resumeSession
  | branchSession
deriving DecidableEq

/-- Where a call is.  `gated` is a turn past its gate that holds the lock, `yielded` one
whose hook has released it; both remember the record that was active at the gate. -/
inductive Pc where
  | idle
  /-- `run_session_op` between its own check and the operation -/
  | prechecked (op : SessionOp)
  | gated (record : Option Nat)
  | yielded (record : Option Nat)
  /-- the turn is registered and its engine call runs -/
  | turn (record : Option Nat)
  /-- after `_finalize_turn`, before `_cleanup_turn` -/
  | finalized (record : Option Nat)
  | op (op : SessionOp)
  /-- a session operation in `_call_unlocked` -/
  | opYielded (op : SessionOp)
deriving DecidableEq

namespace Pc

/-- Past the busy gate and not finished. -/
def past : Pc → Bool
  | .idle => false
  | .prechecked _ => false
  | .gated _ => true
  | .yielded _ => true
  | .turn _ => true
  | .finalized _ => true
  | .op _ => true
  | .opYielded _ => true

/-- Between registration and cleanup. -/
def registered : Pc → Bool
  | .turn _ => true
  | .finalized _ => true
  | _ => false

/-- Inside `_hold_session_op`. -/
def inOp : Pc → Bool
  | .op _ => true
  | .opYielded _ => true
  | _ => false

/-- Holding the runtime lock. -/
def locked : Pc → Bool
  | .gated _ => true
  | .op _ => true
  | _ => false

/-- The record of a turn that is not registered yet. -/
def chosen : Pc → Option (Option Nat)
  | .gated r => some r
  | .yielded r => some r
  | _ => none

end Pc

/-- The runtime lock, `_restart_draining`, `_active_turns` and `_session_ops` of the chat,
its active record, the number of records, and for each registered turn its record beside
the one that was active then. -/
structure State where
  lock : Option Nat
  draining : Bool
  activeTurn : Option Nat
  sessionOp : Bool
  active : Option Nat
  records : Nat
  pc : Nat → Pc
  registrations : List (Option Nat × Option Nat)

/-- A chat with some records, of which one may be active. -/
def initial (active : Option Nat) (records : Nat) : State :=
  { lock := none
    draining := false
    activeTurn := none
    sessionOp := false
    active := active
    records := records
    pc := fun _ => .idle
    registrations := [] }

namespace State

def setPc (s : State) (t : Nat) (pc : Pc) : State :=
  { s with pc := Function.update s.pc t pc }

/-- The call goes on with the lock. -/
def acquire (s : State) (t : Nat) (pc : Pc) : State := { s.setPc t pc with lock := some t }

/-- The call goes on without it. -/
def release (s : State) (t : Nat) (pc : Pc) : State := { s.setPc t pc with lock := none }

/-- The gate of a turn. -/
def turnOpen (s : State) (kind : TurnKind) : Bool :=
  !s.draining && !s.sessionOp && s.activeTurn.isNone &&
    (kind = .process || s.active.isSome)

/-- `_session_op_busy`, and the draining check of `switch_model`. -/
def opOpen (s : State) (op : SessionOp) : Bool :=
  s.activeTurn.isNone && !s.sessionOp && !(op = .switchModel && s.draining)

/-- A record becomes the active one; none is a new record. -/
def activate (s : State) : Option Nat → Option State
  | none => some { s with
      active := some s.records
      records := s.records + 1 }
  | some r => if r < s.records then some { s with active := some r } else none

end State

inductive Label where
  | enterTurn (t : Nat) (kind : TurnKind)
  /-- a hook of the turn calls `call_engine_unlocked` -/
  | yieldHook (t : Nat)
  | returnHook (t : Nat)
  /-- the turn ends before it is registered -/
  | abandon (t : Nat)
  | register (t : Nat)
  | finalize (t : Nat) (isNew : Bool)
  | cleanup (t : Nat)
  /-- `run_session_op` up to the operation -/
  | precheck (t : Nat) (op : SessionOp)
  | enterOp (t : Nat) (op : SessionOp)
  | yieldOp (t : Nat)
  | returnOp (t : Nat)
  | activate (t : Nat) (record : Option Nat)
  | leaveOp (t : Nat)
  | drain (draining : Bool)
deriving DecidableEq

/-- One step of a call, or a change of the draining flag.  A turn reads the active record
right behind its gate; without one `continue_turn` ends there. -/
def step (s : State) : Label → Option State
  | .enterTurn t kind =>
      if s.pc t = .idle ∧ s.lock = none then
        some (if s.turnOpen kind then s.acquire t (.gated s.active) else s)
      else none
  | .yieldHook t =>
      match s.pc t with
      | .gated r => some (s.release t (.yielded r))
      | _ => none
  | .returnHook t =>
      match s.pc t with
      | .yielded r => if s.lock = none then some (s.acquire t (.gated r)) else none
      | _ => none
  | .abandon t =>
      match s.pc t with
      | .gated _ => some (s.release t .idle)
      | _ => none
  | .register t =>
      match s.pc t with
      | .gated r =>
          some { s.release t (.turn r) with
            activeTurn := some t
            registrations := s.registrations ++ [(r, s.active)] }
      | _ => none
  | .finalize t isNew =>
      match s.pc t with
      | .turn r =>
          if s.lock = none then
            (s.activate (if isNew then none else r)).map fun s => s.setPc t (.finalized r)
          else none
      | _ => none
  | .cleanup t =>
      if (s.pc t).registered ∧ s.lock = none then
        some { s.setPc t .idle with activeTurn := none }
      else none
  | .precheck t op =>
      if s.pc t = .idle ∧ s.lock = none then
        some (if !s.draining && s.activeTurn.isNone && !s.sessionOp then s.setPc t (.prechecked op)
          else s)
      else none
  | .enterOp t op =>
      if (s.pc t = .idle ∨ s.pc t = .prechecked op) ∧ s.lock = none then
        some (if s.opOpen op then { s.acquire t (.op op) with sessionOp := true }
          else s.setPc t .idle)
      else none
  | .yieldOp t =>
      match s.pc t with
      | .op o => some (s.release t (.opYielded o))
      | _ => none
  | .returnOp t =>
      match s.pc t with
      | .opYielded o => if s.lock = none then some (s.acquire t (.op o)) else none
      | _ => none
  | .activate t record =>
      match s.pc t with
      | .op _ => s.activate record
      | _ => none
  | .leaveOp t =>
      match s.pc t with
      | .op _ => some { s.release t .idle with sessionOp := false }
      | _ => none
  | .drain draining => some { s with draining := draining }

/-! ### The property and the condition -/

/-- At most one call is past its gate. -/
def Exclusive (s : State) : Prop :=
  ∀ t u, (s.pc t).past = true → (s.pc u).past = true → t = u

/-- Every turn was registered for the record that was active then. -/
def ForActive (s : State) : Prop := ∀ e ∈ s.registrations, e.1 = e.2

/-- The call passes its gate. -/
def Passes (s : State) : Label → Bool
  | .enterTurn _ kind => s.turnOpen kind
  | .enterOp _ op => s.opOpen op
  | _ => false

/-- No call passes its gate while another is in a hook that has released the lock. -/
def Alone (s : State) (l : Label) : Prop :=
  Passes s l = true → ∀ t r, s.pc t ≠ .yielded r

/-! ### What a step does -/

/-- The steps that go through. -/
inductive Moved (s : State) : Label → State → Prop
  | enterTurn {t : Nat} {kind : TurnKind}
      (hpc : s.pc t = .idle) (hlock : s.lock = none) (hopen : s.turnOpen kind = true) :
      Moved s (.enterTurn t kind) (s.acquire t (.gated s.active))
  | refused {l : Label}
      (hpasses : Passes s l = false) :
      Moved s l s
  | yieldHook {t : Nat} {r : Option Nat}
      (hpc : s.pc t = .gated r) :
      Moved s (.yieldHook t) (s.release t (.yielded r))
  | returnHook {t : Nat} {r : Option Nat}
      (hpc : s.pc t = .yielded r) (hlock : s.lock = none) :
      Moved s (.returnHook t) (s.acquire t (.gated r))
  | abandon {t : Nat} {r : Option Nat}
      (hpc : s.pc t = .gated r) :
      Moved s (.abandon t) (s.release t .idle)
  | register {t : Nat} {r : Option Nat}
      (hpc : s.pc t = .gated r) :
      Moved s (.register t) { s.release t (.turn r) with
        activeTurn := some t
        registrations := s.registrations ++ [(r, s.active)] }
  | finalize {t : Nat} {isNew : Bool} {r active : Option Nat} {records : Nat}
      (hpc : s.pc t = .turn r) :
      Moved s (.finalize t isNew) { s.setPc t (.finalized r) with
        active := active
        records := records }
  | cleanup {t : Nat}
      (hpc : (s.pc t).registered = true) :
      Moved s (.cleanup t) { s.setPc t .idle with activeTurn := none }
  | precheck {t : Nat} {op : SessionOp}
      (hpc : s.pc t = .idle) :
      Moved s (.precheck t op) (s.setPc t (.prechecked op))
  | enterOp {t : Nat} {op : SessionOp}
      (hpc : (s.pc t).past = false) (hlock : s.lock = none) (hopen : s.opOpen op = true) :
      Moved s (.enterOp t op) { s.acquire t (.op op) with sessionOp := true }
  | refusedOp {t : Nat} {op : SessionOp}
      (hpc : (s.pc t).past = false) (hclosed : s.opOpen op = false) :
      Moved s (.enterOp t op) (s.setPc t .idle)
  | yieldOp {t : Nat} {op : SessionOp}
      (hpc : s.pc t = .op op) :
      Moved s (.yieldOp t) (s.release t (.opYielded op))
  | returnOp {t : Nat} {op : SessionOp}
      (hpc : s.pc t = .opYielded op) (hlock : s.lock = none) :
      Moved s (.returnOp t) (s.acquire t (.op op))
  | activate {t : Nat} {op : SessionOp} {record active : Option Nat} {records : Nat}
      (hpc : s.pc t = .op op) :
      Moved s (.activate t record) { s with
        active := active
        records := records }
  | leaveOp {t : Nat} {op : SessionOp}
      (hpc : s.pc t = .op op) :
      Moved s (.leaveOp t) { s.release t .idle with sessionOp := false }
  | drain {draining : Bool} :
      Moved s (.drain draining) { s with draining := draining }

section Steps

variable {s s' : State} {l : Label}

theorem frame_activate {record : Option Nat} (h : s.activate record = some s') :
    ∃ active records, s' = { s with
      active := active
      records := records } := by
  unfold State.activate at h
  split at h
  · cases h
    exact ⟨_, _, rfl⟩
  · split at h
    · cases h
      exact ⟨_, s.records, rfl⟩
    · cases h

theorem moved_of_step (h : step s l = some s') : Moved s l s' := by
  cases l with
  | enterTurn t kind =>
      simp only [step] at h
      split at h
      · rename_i hpc
        by_cases hopen : s.turnOpen kind = true
        · rw [if_pos hopen] at h
          cases h
          exact .enterTurn hpc.1 hpc.2 hopen
        · rw [if_neg hopen] at h
          cases h
          exact .refused (Bool.eq_false_iff.mpr hopen)
      · cases h
  | yieldHook t =>
      simp only [step] at h
      split at h
      · cases h
        exact .yieldHook (by assumption)
      · cases h
  | returnHook t =>
      simp only [step] at h
      split at h
      · split at h
        · cases h
          exact .returnHook (by assumption) (by assumption)
        · cases h
      · cases h
  | abandon t =>
      simp only [step] at h
      split at h
      · cases h
        exact .abandon (by assumption)
      · cases h
  | register t =>
      simp only [step] at h
      split at h
      · cases h
        exact .register (by assumption)
      · cases h
  | finalize t isNew =>
      simp only [step] at h
      split at h
      · rename_i r hpc
        split at h
        · obtain ⟨s'', hactivate, rfl⟩ := Option.map_eq_some_iff.mp h
          obtain ⟨active, records, rfl⟩ := frame_activate hactivate
          exact .finalize hpc
        · cases h
      · cases h
  | cleanup t =>
      simp only [step] at h
      split at h
      · rename_i hpc
        cases h
        exact .cleanup hpc.1
      · cases h
  | precheck t op =>
      simp only [step] at h
      split at h
      · rename_i hpc
        split at h
        · cases h
          exact .precheck hpc.1
        · cases h
          exact .refused rfl
      · cases h
  | enterOp t op =>
      simp only [step] at h
      split at h
      · rename_i hpc
        have hpast : (s.pc t).past = false := by
          rcases hpc.1 with hpc' | hpc' <;> rw [hpc'] <;> rfl
        by_cases hopen : s.opOpen op = true
        · rw [if_pos hopen] at h
          cases h
          exact .enterOp hpast hpc.2 hopen
        · rw [if_neg hopen] at h
          cases h
          exact .refusedOp hpast (Bool.eq_false_iff.mpr hopen)
      · cases h
  | yieldOp t =>
      simp only [step] at h
      split at h
      · cases h
        exact .yieldOp (by assumption)
      · cases h
  | returnOp t =>
      simp only [step] at h
      split at h
      · split at h
        · cases h
          exact .returnOp (by assumption) (by assumption)
        · cases h
      · cases h
  | activate t record =>
      simp only [step] at h
      split at h
      · obtain ⟨active, records, rfl⟩ := frame_activate h
        exact .activate (by assumption)
      · cases h
  | leaveOp t =>
      simp only [step] at h
      split at h
      · cases h
        exact .leaveOp (by assumption)
      · cases h
  | drain draining =>
      cases h
      exact .drain

end Steps

/-! ### The invariant -/

/-- What the flags and the lock say about a call that is at `pc`. -/
structure Pc.Fits (s : State) (t : Nat) (pc : Pc) : Prop where
  turn : pc.registered = true → s.activeTurn = some t
  op : pc.inOp = true → s.sessionOp = true
  lock : pc.locked = true → s.lock = some t
  chosen : ∀ r, pc.chosen = some r → r = s.active

structure Inv (s : State) : Prop where
  exclusive : Exclusive s
  fits : ∀ t, (s.pc t).Fits s t
  forActive : ForActive s

section Invariant

variable {s s' : State} {t : Nat} {pc : Pc}

/-- The flags and the lock say nothing about a call that is outside. -/
theorem fits_of_not_past (h : pc.past = false) : pc.Fits s t := by
  have hout : pc.registered = false ∧ pc.inOp = false ∧ pc.locked = false ∧ pc.chosen = none := by
    cases pc <;> first
      | exact ⟨rfl, rfl, rfl, rfl⟩
      | cases h
  obtain ⟨hturn, hop, hlock, hchosen⟩ := hout
  exact ⟨by simp [hturn], by simp [hop], by simp [hlock], by simp [hchosen]⟩

theorem fits_gated {r : Option Nat} (hlock : s.lock = some t) (hr : r = s.active) :
    (Pc.gated r).Fits s t := by
  constructor <;> simp [Pc.registered, Pc.inOp, Pc.chosen, hlock, hr]

theorem fits_yielded {r : Option Nat} (hr : r = s.active) : (Pc.yielded r).Fits s t := by
  constructor <;> simp [Pc.registered, Pc.inOp, Pc.locked, Pc.chosen, hr]

theorem fits_turn {r : Option Nat} (hturn : s.activeTurn = some t) : (Pc.turn r).Fits s t := by
  constructor <;> simp [Pc.inOp, Pc.locked, Pc.chosen, hturn]

theorem fits_finalized {r : Option Nat} (hturn : s.activeTurn = some t) :
    (Pc.finalized r).Fits s t := by
  constructor <;> simp [Pc.inOp, Pc.locked, Pc.chosen, hturn]

theorem fits_op {o : SessionOp} (hop : s.sessionOp = true) (hlock : s.lock = some t) :
    (Pc.op o).Fits s t := by
  constructor <;> simp [Pc.registered, Pc.chosen, hop, hlock]

theorem fits_opYielded {o : SessionOp} (hop : s.sessionOp = true) :
    (Pc.opYielded o).Fits s t := by
  constructor <;> simp [Pc.registered, Pc.locked, Pc.chosen, hop]

/-- When all the others are outside, only one call has to be looked at. -/
theorem inv_of_alone
    (halone : ∀ u, u ≠ t → (s.pc u).past = false) (hfits : (s.pc t).Fits s t)
    (hactive : ForActive s) :
    Inv s := by
  have hall : ∀ u, (s.pc u).past = true → u = t := by
    intro u hu
    by_contra hne
    rw [halone u hne] at hu
    cases hu
  refine ⟨fun u v hu hv => (hall u hu).trans (hall v hv).symm, ?_, hactive⟩
  intro u
  by_cases hu : u = t
  · rw [hu]
    exact hfits
  · exact fits_of_not_past (halone u hu)

@[simp] theorem pc_setPc_self (s : State) (t : Nat) (pc : Pc) : (s.setPc t pc).pc t = pc := by
  simp [State.setPc]

theorem pc_setPc_of_ne (s : State) {t u : Nat} (h : u ≠ t) (pc : Pc) :
    (s.setPc t pc).pc u = s.pc u := by
  simp [State.setPc, h]

/-- A call comes in while all are outside. -/
theorem inv_of_free
    (hfree : ∀ u, (s.pc u).past = false) (hpc : s'.pc = Function.update s.pc t pc)
    (hfits : pc.Fits s' t) (hactive : ForActive s') :
    Inv s' := by
  refine inv_of_alone (t := t) ?_ ?_ hactive
  · intro u hu
    rw [hpc, Function.update_of_ne hu]
    exact hfree u
  · rw [hpc, Function.update_self]
    exact hfits

/-- The others are outside when one call is past its gate. -/
theorem Inv.alone (h : Inv s) (ht : (s.pc t).past = true) :
    ∀ u, u ≠ t → (s.pc u).past = false := by
  intro u hu
  by_contra hpast
  exact hu (h.exclusive u t (by simpa using hpast) ht)

/-- A call that is past its gate goes on. -/
theorem Inv.move
    (h : Inv s) (ht : (s.pc t).past = true) (hpc : s'.pc = Function.update s.pc t pc)
    (hfits : pc.Fits s' t) (hactive : ForActive s') :
    Inv s' := by
  have halone := h.alone ht
  refine inv_of_alone (t := t) ?_ ?_ hactive
  · intro u hu
    rw [hpc, Function.update_of_ne hu]
    exact halone u hu
  · rw [hpc, Function.update_self]
    exact hfits

/-- A call goes on outside, or leaves without a trace. -/
theorem Inv.stay
    (h : Inv s) (hpc : pc.past = false) :
    Inv (s.setPc t pc) := by
  have hpast : ∀ u, ((s.setPc t pc).pc u).past = true →
      u ≠ t ∧ (s.setPc t pc).pc u = s.pc u := by
    intro u hu
    by_cases hut : u = t
    · rw [hut, pc_setPc_self, hpc] at hu
      cases hu
    · exact ⟨hut, pc_setPc_of_ne s hut pc⟩
  refine ⟨?_, ?_, h.forActive⟩
  · intro u v hu hv
    rw [(hpast u hu).2] at hu
    rw [(hpast v hv).2] at hv
    exact h.exclusive u v hu hv
  · intro u
    by_cases hut : u = t
    · rw [hut, pc_setPc_self]
      exact fits_of_not_past hpc
    · rw [pc_setPc_of_ne s hut]
      exact ⟨(h.fits u).turn, (h.fits u).op, (h.fits u).lock, (h.fits u).chosen⟩

/-- A call that passes a gate with no call in a released hook has the chat for itself. -/
theorem Inv.free
    (h : Inv s) (hlock : s.lock = none) (hturn : s.activeTurn = none)
    (hop : s.sessionOp = false) (hhook : ∀ u r, s.pc u ≠ .yielded r) :
    ∀ u, (s.pc u).past = false := by
  intro u
  have hfits := h.fits u
  rw [Bool.eq_false_iff]
  intro hpast
  have hnot : (s.pc u).locked = false ∧ (s.pc u).registered = false ∧ (s.pc u).inOp = false := by
    refine ⟨?_, ?_, ?_⟩ <;> rw [Bool.eq_false_iff] <;> intro hin
    · exact absurd (hlock.symm.trans (hfits.lock hin)) (by simp)
    · exact absurd (hturn.symm.trans (hfits.turn hin)) (by simp)
    · exact absurd (hop.symm.trans (hfits.op hin)) (by simp)
  cases hpc : s.pc u with
  | yielded r => exact hhook u r hpc
  | _ => simp [hpc, Pc.past, Pc.locked, Pc.registered, Pc.inOp] at hpast hnot

/-- The gates that a call passes. -/
theorem closed_of_passes {l : Label} (h : Passes s l = true) :
    s.activeTurn = none ∧ s.sessionOp = false := by
  cases l with
  | enterTurn t kind =>
      simp only [Passes, State.turnOpen, Bool.and_eq_true, Bool.not_eq_true',
        Option.isNone_iff_eq_none] at h
      exact ⟨h.1.2, h.1.1.2⟩
  | enterOp t op =>
      simp only [Passes, State.opOpen, Bool.and_eq_true, Bool.not_eq_true',
        Option.isNone_iff_eq_none] at h
      exact ⟨h.1.1, h.1.2⟩
  | _ => cases h

theorem inv_initial (active : Option Nat) (records : Nat) : Inv (initial active records) :=
  { exclusive := fun t u h => by cases h
    fits := fun t => fits_of_not_past rfl
    forActive := fun e h => by cases h }

/-- A step that meets the condition keeps the invariant. -/
theorem inv_step {l : Label} (h : Inv s) (hcond : Alone s l) (hstep : step s l = some s') :
    Inv s' := by
  cases moved_of_step hstep with
  | @enterTurn t kind hpc hlock hopen =>
      obtain ⟨hturn, hop⟩ := closed_of_passes (l := .enterTurn t kind) hopen
      have hfree := h.free hlock hturn hop (hcond hopen)
      exact inv_of_free hfree rfl (fits_gated rfl rfl) h.forActive
  | refused => exact h
  | @yieldHook t r hpc =>
      have hr := (h.fits t).chosen r (by rw [hpc]; rfl)
      exact h.move (by rw [hpc]; rfl) rfl (fits_yielded hr) h.forActive
  | @returnHook t r hpc hlock =>
      have hr := (h.fits t).chosen r (by rw [hpc]; rfl)
      exact h.move (by rw [hpc]; rfl) rfl (fits_gated rfl hr) h.forActive
  | @abandon t r hpc =>
      exact h.move (by rw [hpc]; rfl) rfl (fits_of_not_past rfl) h.forActive
  | @register t r hpc =>
      have hr := (h.fits t).chosen r (by rw [hpc]; rfl)
      refine h.move (by rw [hpc]; rfl) rfl (fits_turn rfl) ?_
      intro e he
      rcases List.mem_append.mp he with hold | hnew
      · exact h.forActive e hold
      · rw [List.mem_singleton.mp hnew]
        exact hr
  | @finalize t isNew r active records hpc =>
      have hturn := (h.fits t).turn (by rw [hpc]; rfl)
      exact h.move (by rw [hpc]; rfl) rfl (fits_finalized hturn) h.forActive
  | @cleanup t hpc =>
      have hpast : (s.pc t).past = true := by
        cases ht : s.pc t <;> first
          | rfl
          | (rw [ht] at hpc; cases hpc)
      exact h.move hpast rfl (fits_of_not_past rfl) h.forActive
  | precheck => exact h.stay rfl
  | @enterOp t op hpc hlock hopen =>
      obtain ⟨hturn, hop⟩ := closed_of_passes (l := .enterOp t op) hopen
      have hfree := h.free hlock hturn hop (hcond hopen)
      exact inv_of_free hfree rfl (fits_op rfl rfl) h.forActive
  | refusedOp => exact h.stay rfl
  | @yieldOp t op hpc =>
      have hop := (h.fits t).op (by rw [hpc]; rfl)
      exact h.move (by rw [hpc]; rfl) rfl (fits_opYielded hop) h.forActive
  | @returnOp t op hpc hlock =>
      have hop := (h.fits t).op (by rw [hpc]; rfl)
      exact h.move (by rw [hpc]; rfl) rfl (fits_op hop rfl) h.forActive
  | @activate t op record active records hpc =>
      have hfits := h.fits t
      have hop := hfits.op (by rw [hpc]; rfl)
      have hlock := hfits.lock (by rw [hpc]; rfl)
      have hstays : s.pc = Function.update s.pc t (.op op) := by
        rw [← hpc, Function.update_eq_self]
      exact h.move (by rw [hpc]; rfl) hstays (fits_op hop hlock) h.forActive
  | @leaveOp t op hpc =>
      exact h.move (by rw [hpc]; rfl) rfl (fits_of_not_past rfl) h.forActive
  | drain =>
      refine ⟨h.exclusive, fun t => ?_, h.forActive⟩
      exact ⟨(h.fits t).turn, (h.fits t).op, (h.fits t).lock, (h.fits t).chosen⟩

/-- A call that passes its gate while another is in a released hook overlaps with it. -/
theorem not_exclusive_of_passes
    {l : Label} (hstep : step s l = some s') (hcond : ¬ Alone s l) :
    ¬ Exclusive s' := by
  obtain ⟨hpasses, u, r, hu⟩ : Passes s l = true ∧ ∃ u r, s.pc u = .yielded r := by
    simpa [Alone] using hcond
  have hoverlap : ∀ {t : Nat} {pc : Pc}, (s.pc t).past = false → pc.past = true →
      s'.pc = Function.update s.pc t pc → ¬ Exclusive s' := by
    intro t pc ht hpc hs' hexclusive
    have hut : u ≠ t := by
      intro hut
      rw [← hut, hu] at ht
      cases ht
    refine hut (hexclusive u t ?_ ?_)
    · rw [hs', Function.update_of_ne hut, hu]
      rfl
    · rw [hs', Function.update_self]
      exact hpc
  cases moved_of_step hstep with
  | @enterTurn t kind hpc hlock hopen => exact hoverlap (by rw [hpc]; rfl) rfl rfl
  | refused hno => exact absurd (hpasses.symm.trans hno) (by simp)
  | @enterOp t op hpc hlock hopen => exact hoverlap hpc rfl rfl
  | refusedOp hpc hno => exact absurd (hpasses.symm.trans hno) (by simp)
  | _ => cases hpasses

end Invariant

/-! ### The main result -/

/-- In a run in which no call passes its gate while another is in a hook that has released
the lock, turns and session operations never overlap and every turn is registered for the
active record; and the first step that does otherwise makes two calls overlap. -/
theorem turns_exclusive
    {active : Option Nat} {records : Nat} {s : State}
    (h : Reach step Alone (initial active records) s) :
    (Exclusive s ∧ ForActive s) ∧
      ∀ l s', step s l = some s' → ((Exclusive s' ∧ ForActive s') ↔ Alone s l) := by
  have hinv : Inv s := h.invariant (inv_initial active records) fun _ _ _ => inv_step
  refine ⟨⟨hinv.exclusive, hinv.forActive⟩, fun l s' hstep => ⟨?_, ?_⟩⟩
  · rintro ⟨hexclusive, -⟩
    by_contra hcond
    exact not_exclusive_of_passes hstep hcond hexclusive
  · intro hcond
    have hinv' := inv_step hinv hcond hstep
    exact ⟨hinv'.exclusive, hinv'.forActive⟩

/-- A turn whose hook calls the engine, and a session operation that comes after its
registration and is refused. -/
def hookedTurn : List Label :=
  [.yieldHook 0, .returnHook 0, .register 0, .precheck 1 .newSession, .enterOp 1 .newSession]

/-- The state before `hookedTurn`: the turn is past its gate. -/
def gatedState : State := (initial (some 0) 1).acquire 0 (.gated (some 0))

theorem turns_exclusive_hookedTurn :
    ∃ s, run step gatedState hookedTurn = some s ∧ s.activeTurn = some 0 ∧ Exclusive s := by
  have hfirst : Reach step Alone (initial (some 0) 1) gatedState :=
    (Reach.refl _).next (a := .enterTurn 0 .process) (fun _ t r h => by cases h) rfl
  have hsome : (run step gatedState hookedTurn).isSome = true := by decide
  have hrest : Reach step Alone gatedState ((run step gatedState hookedTurn).getD gatedState) := by
    refine reach_of_run (run_eq_getD hsome) (guarded_of_checkRun (fun s l => !Passes s l) ?_ ?_)
    · intro s l hcheck hpasses
      rw [hpasses] at hcheck
      cases hcheck
    · decide
  exact ⟨_, run_eq_getD hsome, by decide, (turns_exclusive (hfirst.trans hrest)).1.1⟩

/-- A new session while the hook of a turn has released the lock. -/
def sessionInHook : List Label := [.enterTurn 0 .process, .yieldHook 0, .enterOp 1 .newSession]

/-- The turn and the operation are both past their gates, and when the operation is over
the turn is registered for the record that it replaced. -/
theorem op_inside_turn :
    (run step (initial (some 0) 1) sessionInHook).map
        (fun s => ((s.pc 0).past, (s.pc 1).past)) = some (true, true) ∧
      (run step (initial (some 0) 1) (sessionInHook ++
        [.activate 1 none, .leaveOp 1, .returnHook 0, .register 0])).map
          (·.registrations) = some [(some 0, some 1)] := by
  decide

end Overlap
end Turns
end DiploidAgent
