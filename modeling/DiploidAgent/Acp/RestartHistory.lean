import Mathlib.Data.List.Infix
import Mathlib.Data.Rat.Defs
import Mathlib.Algebra.Order.Ring.Rat
import Mathlib.Logic.Function.Basic
import Mathlib.Tactic.Linarith
import DiploidAgent.Lib.Runs
import DiploidAgent.Lib.Windows

/-!
# The restart backoff

`AcpRestartHistory` of `acp_client/lifecycle.py`, and the two calls that `restart_transport`
and a change of the MCP servers make to it: one that checks the budget of a bucket and one
that records the restart.  The watchdog only records.

A restart counts from its recording, under the time that `record` takes: nothing refuses it
any more.  What follows, and the lock around it, is left out.  Times are seconds of a clock
that does not go back.

The check and the recording are two calls.  As long as none of a bucket passes the check
while another of the bucket is between the two, no window holds more restarts than the
bucket's maximum, across process restarts too (`backoff_holds`).
-/

namespace DiploidAgent
namespace Acp
namespace RestartHistory

open Runs Windows

/-! ### The history -/

inductive Bucket where
  | transportError
  | mcpChange
  | userRestart
deriving DecidableEq

/-- `_categorize_restart_reason`. -/
def categorizeRestartReason : Option String → Bucket
  | none => .transportError
  | some reason =>
      if reason = "mcp_change" then .mcpChange
      else if "user".toList <:+: (reason.toList.map Char.toLower) ∨
          "/".toList <+: reason.toList then
        .userRestart
      else .transportError

structure Entry where
  timestamp : Rat
  reason : Bucket
deriving DecidableEq

/-- The entry is of the bucket. -/
def Entry.isOf (b : Bucket) (e : Entry) : Bool := e.reason = b

/-- The settings of the client, each as it is given. -/
structure Config where
  restartBackoffWindow : Rat
  maxRestarts : Int
  maxMcpRestarts : Int
  maxUserRestarts : Int

namespace Config

/-- `_max_restarts_by_reason`. -/
def maxOf (cfg : Config) : Bucket → Nat
  | .transportError => cfg.maxRestarts.toNat
  | .mcpChange => cfg.maxMcpRestarts.toNat
  | .userRestart => cfg.maxUserRestarts.toNat

/-- `_window`. -/
def window (cfg : Config) : Rat := max 1 cfg.restartBackoffWindow

end Config

/-- `_history`, and the file. -/
structure History where
  entries : List Entry
  file : List Entry

namespace History

/-- `_prune`. -/
def pruned (cfg : Config) (h : History) (now : Rat) : History :=
  { h with entries := prune Entry.timestamp (now - cfg.window) h.entries }

/-- `record`, after its `time.time()`. -/
def record (cfg : Config) (h : History) (now : Rat) (b : Bucket) : History :=
  let entries := (h.pruned cfg now).entries ++ [{
    timestamp := now
    reason := b }]
  { entries := entries
    file := entries }

/-- `count` of a bucket in the pruned history. -/
def count (h : History) (b : Bucket) : Nat := h.entries.countP (Entry.isOf b)

/-- Whether `check` lets the restart pass. -/
def allows (cfg : Config) (h : History) (now : Rat) (b : Bucket) : Bool :=
  cfg.maxOf b = 0 || (h.pruned cfg now).count b < cfg.maxOf b

/-- What `check` leaves. -/
def checked (cfg : Config) (h : History) (now : Rat) (b : Bucket) : History :=
  if cfg.maxOf b = 0 then h else h.pruned cfg now

/-- `_load` in a new process. -/
def load (cfg : Config) (file : List Entry) (now : Rat) : History :=
  let entries :=
    prune Entry.timestamp (now - cfg.window) (file.filter fun e => decide (0 < e.timestamp))
  { entries := entries
    file := entries }

end History

/-! ### The threads -/

/-- Where a thread stands: past the check, or past the `time.time()` of `record`; the flag
says that it was let past a check. -/
inductive Pc where
  | idle
  | passed (b : Bucket)
  | stamped (b : Bucket) (now : Rat) (checks : Bool)

/-- Between a check that let it pass and its recording, in the bucket. -/
def Pc.pending (b : Bucket) : Pc → Bool
  | .idle => false
  | .passed b' => b' = b
  | .stamped b' _ checks => b' = b && checks

structure State where
  clock : Rat
  history : History
  pcs : Nat → Pc
  restarts : List Entry

/-- A new process; the file is what others left. -/
def initial (cfg : Config) (now : Rat) (file : List Entry) : State where
  clock := now
  history := .load cfg file now
  pcs := fun _ => .idle
  restarts := []

/-- The calls of the threads, the clock, and a restart of the process. -/
inductive Op where
  | tick (dt : Rat)
  | check (t : Nat) (reason : Option String)
  | stamp (t : Nat)
  | watchdog (t : Nat)
  | append (t : Nat)
  | restartProcess

def State.setPc (s : State) (t : Nat) (pc : Pc) : State :=
  { s with pcs := Function.update s.pcs t pc }

@[simp] theorem pcs_setPc_self (s : State) (t : Nat) (pc : Pc) : (s.setPc t pc).pcs t = pc := by
  simp [State.setPc]

theorem pcs_setPc_of_ne (s : State) {t u : Nat} (pc : Pc) (h : u ≠ t) :
    (s.setPc t pc).pcs u = s.pcs u := by
  simp [State.setPc, h]

/-- What the append of a stamped entry does. -/
def State.appended (s : State) (cfg : Config) (t : Nat) (b : Bucket) (now : Rat)
    (checks : Bool) : State where
  clock := s.clock
  history := s.history.record cfg now b
  pcs := Function.update s.pcs t .idle
  restarts :=
    if checks then
      s.restarts ++ [{
        timestamp := now
        reason := b }]
    else s.restarts

def step (cfg : Config) (s : State) : Op → Option State
  | .tick dt => if 0 ≤ dt then some { s with clock := s.clock + dt } else none
  | .check t reason =>
      match s.pcs t with
      | .idle =>
          let b := categorizeRestartReason reason
          let s' := { s with history := s.history.checked cfg s.clock b }
          some (if s.history.allows cfg s.clock b then s'.setPc t (.passed b) else s')
      | _ => none
  | .stamp t =>
      match s.pcs t with
      | .passed b => some (s.setPc t (.stamped b s.clock true))
      | _ => none
  | .watchdog t =>
      match s.pcs t with
      | .idle => some (s.setPc t (.stamped .transportError s.clock false))
      | _ => none
  | .append t =>
      match s.pcs t with
      | .stamped b now checks => some (s.appended cfg t b now checks)
      | _ => none
  | .restartProcess =>
      some { s with
        history := .load cfg s.history.file s.clock
        pcs := fun _ => .idle }

/-! ### The bound -/

/-- None passes the check of a bucket while another is between its own check of the bucket
and its recording. -/
def Alone (cfg : Config) (s : State) : Op → Prop
  | .check _ reason =>
      s.history.allows cfg s.clock (categorizeRestartReason reason) = true →
        ∀ u, (s.pcs u).pending (categorizeRestartReason reason) = false
  | _ => True

/-- The restarts of a bucket after a time. -/
abbrev recent (b : Bucket) (x : Rat) (l : List Entry) : Nat :=
  after Entry.timestamp (Entry.isOf b) x l

/-- What a thread's place says about the restarts of its bucket. -/
def Pc.Holds (cfg : Config) (s : State) : Pc → Prop
  | .idle => True
  | .passed b => 0 < cfg.maxOf b → recent b (s.clock - cfg.window) s.restarts < cfg.maxOf b
  | .stamped b now checks =>
      0 < now ∧ now ≤ s.clock ∧
        (checks = true → 0 < cfg.maxOf b →
          recent b (now - cfg.window) s.restarts < cfg.maxOf b)

/-- The restarts of the window that ends now are in the history and in the file, those who
are past a check found room, and the bound holds. -/
structure Inv (cfg : Config) (s : State) : Prop where
  positive : 0 < s.clock ∧ ∀ e ∈ s.restarts, 0 < e.timestamp
  kept : ∀ b x, s.clock - cfg.window ≤ x →
    recent b x s.restarts ≤ recent b x s.history.entries
  saved : ∀ b x, s.clock - cfg.window ≤ x → recent b x s.restarts ≤ recent b x s.history.file
  threads : ∀ t, (s.pcs t).Holds cfg s
  alone : ∀ t u b, (s.pcs t).pending b = true → (s.pcs u).pending b = true → t = u
  bounded : ∀ b, 0 < cfg.maxOf b →
    Bounded Entry.timestamp (Entry.isOf b) cfg.window (cfg.maxOf b) s.restarts

section Steps

variable {cfg : Config} {s s' : State} {t : Nat}

/-! ### The history's operations -/

theorem count_pruned (h : History) (now : Rat) (b : Bucket) :
    (h.pruned cfg now).count b = recent b (now - cfg.window) h.entries := by
  rw [History.count, History.pruned, prune, List.countP_filter]
  rfl

theorem recent_pruned {h : History} {now x : Rat} (b : Bucket) (hx : now - cfg.window ≤ x) :
    recent b x (h.pruned cfg now).entries = recent b x h.entries :=
  after_prune hx h.entries

theorem recent_checked {h : History} {now x : Rat} (b b' : Bucket) (hx : now - cfg.window ≤ x) :
    recent b x (h.checked cfg now b').entries = recent b x h.entries := by
  unfold History.checked
  split
  · rfl
  · exact recent_pruned b hx

theorem file_checked (h : History) (now : Rat) (b : Bucket) :
    (h.checked cfg now b).file = h.file := by
  unfold History.checked
  split <;> rfl

/-- A check that lets a restart pass found room for it. -/
theorem room_of_allows {h : History} {now : Rat} {b : Bucket}
    (hallows : h.allows cfg now b = true) (hpositive : 0 < cfg.maxOf b) :
    recent b (now - cfg.window) h.entries < cfg.maxOf b := by
  rw [History.allows, count_pruned, Bool.or_eq_true, decide_eq_true_eq,
    decide_eq_true_eq] at hallows
  exact hallows.resolve_left (Nat.ne_of_gt hpositive)

/-- What a new process reads back of the restarts of the window. -/
theorem recent_load {file : List Entry} {now x : Rat} (b : Bucket) (hx : now - cfg.window ≤ x)
    {restarts : List Entry} (hpositive : ∀ e ∈ restarts, 0 < e.timestamp)
    (h : ∀ y, now - cfg.window ≤ y → recent b y restarts ≤ recent b y file) :
    recent b x restarts ≤ recent b x (History.load cfg file now).entries := by
  have hfile : recent b x (History.load cfg file now).entries =
      recent b x (file.filter fun e => decide (0 < e.timestamp)) := after_prune hx _
  rw [hfile]
  -- no restart is dropped with the entries of no time
  rcases le_or_gt 0 x with hzero | hzero
  · have hsame : recent b x (file.filter fun e => decide (0 < e.timestamp)) = recent b x file :=
      after_prune hzero file
    rw [hsame]
    exact h x hx
  · have hall : recent b x restarts = recent b 0 restarts := by
      refine List.countP_congr fun e he => ?_
      have hpos := hpositive e he
      simp only [Bool.and_eq_true, decide_eq_true_eq]
      exact ⟨fun hk => ⟨hk.1, hpos⟩, fun hk => ⟨hk.1, hzero.trans hpos⟩⟩
    have hsame : recent b 0 (file.filter fun e => decide (0 < e.timestamp)) = recent b 0 file :=
      after_prune le_rfl file
    calc
      recent b x restarts = recent b 0 restarts := hall
      _ ≤ recent b 0 file := h 0 (hx.trans hzero.le)
      _ = recent b 0 (file.filter fun e => decide (0 < e.timestamp)) := hsame.symm
      _ ≤ recent b x (file.filter fun e => decide (0 < e.timestamp)) := after_anti hzero.le _

/-! ### What the steps keep -/

theorem Pc.Holds.mono {pc : Pc} (h : pc.Holds cfg s) (hclock : s.clock ≤ s'.clock)
    (hrestarts : s'.restarts = s.restarts) : pc.Holds cfg s' := by
  cases pc with
  | idle => trivial
  | passed b =>
      intro hpositive
      rw [hrestarts]
      exact lt_of_le_of_lt (after_anti (sub_le_sub_right hclock _) _) (h hpositive)
  | stamped b now checks =>
      refine ⟨h.1, h.2.1.trans hclock, ?_⟩
      rw [hrestarts]
      exact h.2.2

theorem inv_setPc {pc : Pc} (h : Inv cfg s) (hpc : pc.Holds cfg s)
    (halone : ∀ b, pc.pending b = true → ∀ u, u ≠ t → (s.pcs u).pending b = false) :
    Inv cfg (s.setPc t pc) := by
  refine ⟨h.positive, h.kept, h.saved, fun u => ?_, fun u v b hu hv => ?_, h.bounded⟩
  · by_cases hut : u = t
    · rw [hut, pcs_setPc_self]
      exact hpc
    · rw [pcs_setPc_of_ne s pc hut]
      exact h.threads u
  · by_cases hut : u = t
    · by_cases hvt : v = t
      · rw [hut, hvt]
      · rw [hut, pcs_setPc_self] at hu
        rw [pcs_setPc_of_ne s pc hvt, halone b hu v hvt] at hv
        cases hv
    · rw [pcs_setPc_of_ne s pc hut] at hu
      by_cases hvt : v = t
      · rw [hvt, pcs_setPc_self] at hv
        rw [halone b hv u hut] at hu
        cases hu
      · rw [pcs_setPc_of_ne s pc hvt] at hv
        exact h.alone u v b hu hv

/-- A place of a thread that is in the bucket already, or in none. -/
theorem inv_move {pc : Pc} (h : Inv cfg s) (hpc : pc.Holds cfg s)
    (hpending : ∀ b, pc.pending b = true → (s.pcs t).pending b = true) :
    Inv cfg (s.setPc t pc) := by
  refine inv_setPc h hpc fun b hb u hut => ?_
  rw [← Bool.not_eq_true]
  exact fun hu => hut (h.alone u t b hu (hpending b hb))

theorem inv_tick {dt : Rat} (h : Inv cfg s) (hdt : 0 ≤ dt) :
    Inv cfg { s with clock := s.clock + dt } := by
  have hclock : s.clock ≤ s.clock + dt := le_add_of_nonneg_right hdt
  have hstart : s.clock - cfg.window ≤ s.clock + dt - cfg.window := sub_le_sub_right hclock _
  exact ⟨⟨lt_of_lt_of_le h.positive.1 hclock, h.positive.2⟩,
    fun b x hx => h.kept b x (hstart.trans hx), fun b x hx => h.saved b x (hstart.trans hx),
    fun u => (h.threads u).mono hclock rfl, h.alone, h.bounded⟩

theorem inv_checked (h : Inv cfg s) (b : Bucket) :
    Inv cfg { s with history := s.history.checked cfg s.clock b } := by
  refine ⟨h.positive, fun b' x hx => ?_, fun b' x hx => ?_, h.threads, h.alone, h.bounded⟩
  · rw [recent_checked b' b hx]
    exact h.kept b' x hx
  · rw [file_checked]
    exact h.saved b' x hx

theorem inv_restartProcess (h : Inv cfg s) :
    Inv cfg { s with
      history := .load cfg s.history.file s.clock
      pcs := fun _ => .idle } := by
  have hload : ∀ b x, s.clock - cfg.window ≤ x →
      recent b x s.restarts ≤ recent b x (History.load cfg s.history.file s.clock).entries :=
    fun b x hx => recent_load b hx h.positive.2 (h.saved b)
  refine ⟨h.positive, hload, hload, fun _ => trivial, fun u v b hu _ => ?_, h.bounded⟩
  cases hu

section Append

variable {b : Bucket} {now : Rat} {checks : Bool}

theorem pcs_appended_self (s : State) :
    (s.appended cfg t b now checks).pcs t = .idle :=
  Function.update_self t _ s.pcs

theorem pcs_appended_of_ne (s : State) {u : Nat} (h : u ≠ t) :
    (s.appended cfg t b now checks).pcs u = s.pcs u :=
  Function.update_of_ne h _ s.pcs

theorem recent_record (h : History) {x : Rat} (b' : Bucket) (hx : now - cfg.window ≤ x) :
    recent b' x (h.record cfg now b).entries =
      recent b' x h.entries + recent b' x [{
        timestamp := now
        reason := b }] := by
  have hsplit : recent b' x (h.record cfg now b).entries =
      recent b' x (h.pruned cfg now).entries + recent b' x [{
        timestamp := now
        reason := b }] := after_append x _ _
  rw [hsplit, recent_pruned b' hx]

/-- The restarts, with the one that is recorded. -/
theorem recent_appended (s : State) (b' : Bucket) (x : Rat) :
    recent b' x (s.appended cfg t b now checks).restarts ≤
      recent b' x s.restarts + recent b' x [{
        timestamp := now
        reason := b }] := by
  cases checks with
  | true => exact le_of_eq (after_append x _ _)
  | false => exact Nat.le_add_right _ _

theorem inv_append (h : Inv cfg s) (hpc : s.pcs t = .stamped b now checks) :
    Inv cfg (s.appended cfg t b now checks) := by
  obtain ⟨hnow, hpast, hroom⟩ : (Pc.stamped b now checks).Holds cfg s := hpc ▸ h.threads t
  have hentries : ∀ b' x, s.clock - cfg.window ≤ x →
      recent b' x (s.appended cfg t b now checks).restarts ≤
        recent b' x (s.history.record cfg now b).entries := by
    intro b' x hx
    rw [recent_record s.history b' ((sub_le_sub_right hpast _).trans hx)]
    exact (recent_appended s b' x).trans (Nat.add_le_add_right (h.kept b' x hx) _)
  refine ⟨⟨h.positive.1, fun e he => ?_⟩, hentries, hentries, fun u => ?_, fun u v b' hu hv => ?_,
    fun b' hb' => ?_⟩
  · unfold State.appended at he
    split at he
    · rcases List.mem_append.mp he with he | he
      · exact h.positive.2 e he
      · rw [List.mem_singleton.mp he]
        exact hnow
    · exact h.positive.2 e he
  · -- the other threads that wait in the bucket do so for the watchdog
    by_cases hut : u = t
    · rw [hut, pcs_appended_self]
      trivial
    · have hother := h.threads u
      have hsame : ∀ b' x, (s.pcs u).pending b' = true →
          recent b' x (s.appended cfg t b now checks).restarts = recent b' x s.restarts := by
        intro b' x hpending
        unfold State.appended
        cases checks with
        | false => rfl
        | true =>
            have hne : b ≠ b' := by
              rintro rfl
              exact hut (h.alone u t b hpending (by rw [hpc]; simp [Pc.pending]))
            have hnone : recent b' x [{
                timestamp := now
                reason := b }] = 0 :=
              after_singleton_of_not_kind (by simp [Entry.isOf, hne]) x
            exact (after_append x _ _).trans ((congrArg _ hnone).trans (Nat.add_zero _))
      rw [pcs_appended_of_ne s hut]
      cases hpcu : s.pcs u with
      | idle => trivial
      | passed b' =>
          intro hb'
          rw [hpcu] at hother hsame
          rw [hsame b' _ (by simp [Pc.pending])]
          exact hother hb'
      | stamped b' now' checks' =>
          rw [hpcu] at hother hsame
          refine ⟨hother.1, hother.2.1, fun hchecks hb' => ?_⟩
          rw [hsame b' _ (by simp [Pc.pending, hchecks])]
          exact hother.2.2 hchecks hb'
  · by_cases hut : u = t
    · rw [hut, pcs_appended_self] at hu
      cases hu
    · by_cases hvt : v = t
      · rw [hvt, pcs_appended_self] at hv
        cases hv
      · rw [pcs_appended_of_ne s hut] at hu
        rw [pcs_appended_of_ne s hvt] at hv
        exact h.alone u v b' hu hv
  · unfold State.appended
    cases checks with
    | false => exact h.bounded b' hb'
    | true =>
        refine bounded_concat (h.bounded b' hb') fun hkind => ?_
        have hb : b = b' := by simpa [Entry.isOf] using hkind
        subst hb
        exact hroom rfl hb'

end Append

theorem inv_step {op : Op} (h : Inv cfg s) (halone : Alone cfg s op)
    (hstep : step cfg s op = some s') : Inv cfg s' := by
  cases op with
  | tick dt =>
      simp only [step] at hstep
      split_ifs at hstep with hdt
      obtain rfl := Option.some.inj hstep
      exact inv_tick h hdt
  | check t reason =>
      simp only [step] at hstep
      split at hstep
      · obtain rfl := Option.some.inj hstep
        have hchecked := inv_checked h (categorizeRestartReason reason)
        split
        · next hallows =>
            refine inv_setPc hchecked (fun hpositive => ?_) fun b hb u _ => ?_
            · refine lt_of_le_of_lt (h.kept _ _ le_rfl) ?_
              exact room_of_allows hallows hpositive
            · obtain rfl : categorizeRestartReason reason = b := by simpa [Pc.pending] using hb
              exact halone hallows u
        · exact hchecked
      · cases hstep
  | stamp t =>
      simp only [step] at hstep
      split at hstep
      · next b hpc =>
          obtain rfl := Option.some.inj hstep
          have hroom : (Pc.passed b).Holds cfg s := hpc ▸ h.threads t
          refine inv_move h ⟨h.positive.1, le_rfl, fun _ => hroom⟩ fun b' hb' => ?_
          rw [hpc]
          simpa [Pc.pending] using hb'
      · cases hstep
  | watchdog t =>
      simp only [step] at hstep
      split at hstep
      · obtain rfl := Option.some.inj hstep
        refine inv_move h ⟨h.positive.1, le_rfl, fun hchecks => ?_⟩ fun b' hb' => ?_
        · cases hchecks
        · simp [Pc.pending] at hb'
      · cases hstep
  | append t =>
      simp only [step] at hstep
      split at hstep
      · next b now checks hpc =>
          obtain rfl := Option.some.inj hstep
          exact inv_append h hpc
      · cases hstep
  | restartProcess =>
      obtain rfl := Option.some.inj hstep
      exact inv_restartProcess h

end Steps

theorem inv_initial (cfg : Config) {now : Rat} (hnow : 0 < now) (file : List Entry) :
    Inv cfg (initial cfg now file) where
  positive := ⟨hnow, fun e he => by cases he⟩
  kept := fun _ _ _ => Nat.zero_le _
  saved := fun _ _ _ => Nat.zero_le _
  threads := fun _ => trivial
  alone := fun u v b hu _ => by cases hu
  bounded := fun _ _ _ => Nat.zero_le _

/-- One restart of each bucket in 300 s. -/
def exampleConfig : Config where
  restartBackoffWindow := 300
  maxRestarts := 1
  maxMcpRestarts := 1
  maxUserRestarts := 1

end RestartHistory
end Acp
end DiploidAgent
