import DiploidAgent.Lib.Ascending
import DiploidAgent.Lib.Runs

/-!
# The update offset of the Telegram poller

The poller asks for updates from its offset on and moves the offset past each update before
it looks at it; the server keeps updates until a call with a higher offset confirms them.
Calls fail or lose their answer, handlers raise, the poller is stopped inside a batch, and
its process may die at any moment and start without an offset.  The updates handled in one
life of the process are a stretch of the server's log, none left out and none twice; nothing
is confirmed that was not handled; and a death brings at most one batch back
(`updates_handled`).
-/

namespace DiploidAgent
namespace Telegram
namespace UpdateOffset

open Runs

/-- The server with all updates it ever received and what is confirmed to it; the poller with
its offset and the rest of the batch it goes through; and what was handled in earlier lives and
in this one, which began at `base`. -/
structure State where
  log : List Nat
  confirmed : Nat
  offset : Option Nat
  batch : Option (List Nat)
  past : List Nat
  life : List Nat
  base : Nat

def initial : State :=
  { log := [], confirmed := 0, offset := none, batch := none, past := [], life := [], base := 0 }

/-- `limit` of the call. -/
def limit : Nat := 100

/-- What is confirmed by a call: everything below its offset. -/
def confirm (s : State) : Nat := max s.confirmed (s.offset.getD 0)

/-- The earliest updates not confirmed, at most `limit` of them. -/
def answers (s : State) (batch : List Nat) : Bool :=
  batch.isPrefixOf (s.log.filter (confirm s ≤ ·)) && batch.length ≤ limit

/-- `_handle_update`: the offset is moved first, whatever the rest of it does. -/
def handleUpdate (s : State) (updateId : Nat) : State :=
  { s with offset := some (max (s.offset.getD 0) (updateId + 1)), life := s.life ++ [updateId] }

inductive Label where
  /-- The server receives an update. -/
  | arrive (updateId : Nat)
  /-- `getUpdates` returns. -/
  | answered (batch : List Nat)
  /-- `getUpdates` reaches the server and its answer gets lost. -/
  | unanswered
  /-- The next update of the batch; an exception ends the batch. -/
  | handle (raised : Bool)
  /-- The loop over the batch ends, behind its last update or at `_stop`. -/
  | leave
  /-- The process dies and another one starts. -/
  | restart

def step (s : State) : Label → Option State
  | .arrive updateId =>
      if s.log.all (· < updateId) then some { s with log := s.log ++ [updateId] } else none
  | .answered batch =>
      if s.batch.isNone && answers s batch then
        some { s with confirmed := confirm s, batch := some batch }
      else none
  | .unanswered => if s.batch.isNone then some { s with confirmed := confirm s } else none
  | .handle raised =>
      match s.batch with
      | some (updateId :: rest) =>
          let s := handleUpdate s updateId
          some { s with batch := if raised then none else some rest }
      | _ => none
  | .leave => if s.batch.isSome then some { s with batch := none } else none
  | .restart =>
      some { s with
        offset := none, batch := none, past := s.past ++ s.life, life := [], base := s.confirmed }

/-- Where the next update to handle is looked for. -/
def State.next (s : State) : Nat := s.offset.getD s.confirmed

/-- What every reachable state keeps. -/
structure Inv (s : State) : Prop where
  ascending : s.log.Pairwise (· < ·)
  started : s.base ≤ s.confirmed
  confirmed : s.confirmed ≤ s.next
  -- the position is behind an update of the log, or at its beginning
  reached : ∀ id, (∀ x ∈ s.log, x < id) → s.next ≤ id
  fresh : s.offset = none → s.base = s.confirmed
  life : s.life = s.log.filter fun id => s.base ≤ id && id < s.next
  handled : ∀ id ∈ s.log, id < s.next → id ∈ s.past ++ s.life
  batch : ∀ rest, s.batch = some rest → rest <+: s.log.filter (s.next ≤ ·)
  again : (s.life.filter (s.confirmed ≤ ·)).length + (s.batch.getD []).length ≤ limit

section Steps

variable {s s' : State}

theorem inv_initial : Inv initial where
  ascending := List.Pairwise.nil
  started := Nat.le_refl 0
  confirmed := Nat.le_refl 0
  reached := fun id _ => Nat.zero_le id
  fresh := fun _ => rfl
  life := rfl
  handled := by simp [initial]
  batch := nofun
  again := Nat.zero_le _

/-- A call confirms nothing that is still to be handled. -/
theorem confirm_le
    (hinv : Inv s) :
    s.confirmed ≤ confirm s ∧ confirm s ≤ s.next := by
  refine ⟨Nat.le_max_left _ _, Nat.max_le.mpr ⟨hinv.confirmed, ?_⟩⟩
  unfold State.next
  cases s.offset with
  | none => exact Nat.zero_le _
  | some o => exact Nat.le_refl o

theorem inv_arrive
    {updateId : Nat}
    (hinv : Inv s)
    (hnew : ∀ x ∈ s.log, x < updateId) :
    Inv { s with log := s.log ++ [updateId] } := by
  have hnext : s.next ≤ updateId := hinv.reached updateId hnew
  constructor
  case ascending =>
    rw [List.pairwise_append]
    exact ⟨hinv.ascending, List.pairwise_singleton _ _, by simpa using hnew⟩
  case started => exact hinv.started
  case confirmed => exact hinv.confirmed
  case reached => exact fun id hid => hinv.reached id fun x hx => hid x (by simp [hx])
  case fresh => exact hinv.fresh
  case life =>
    show s.life = (s.log ++ [updateId]).filter fun id => s.base ≤ id && id < s.next
    have hlater : ¬ updateId < s.next := Nat.not_lt.mpr hnext
    rw [List.filter_append, ← hinv.life]
    simp [hlater]
  case handled =>
    intro id hid hlt
    rcases List.mem_append.mp hid with hid | hid
    · exact hinv.handled id hid hlt
    · obtain rfl := List.mem_singleton.mp hid
      exact absurd hlt (Nat.not_lt.mpr hnext)
  case batch =>
    intro rest hrest
    show rest <+: (s.log ++ [updateId]).filter (s.next ≤ ·)
    rw [List.filter_append]
    exact (hinv.batch rest hrest).trans (List.prefix_append _ _)
  case again => exact hinv.again

/-- A call that reached the server, answered or not. -/
theorem inv_confirm
    {batch : Option (List Nat)}
    (hinv : Inv s)
    (hbatch : ∀ rest, batch = some rest →
      rest <+: s.log.filter (confirm s ≤ ·) ∧ rest.length ≤ limit) :
    Inv { s with confirmed := confirm s, batch := batch } := by
  have hle := confirm_le hinv
  have hnext : ({ s with confirmed := confirm s, batch := batch } : State).next = s.next ∧
      confirm s = s.next := by
    cases ho : s.offset with
    | none => simp [State.next, confirm, ho]
    | some o =>
        have hupper := hinv.confirmed
        simp only [State.next, ho, Option.getD_some] at hupper
        simp [State.next, confirm, ho, hupper]
  constructor
  case ascending => exact hinv.ascending
  case started => exact Nat.le_trans hinv.started hle.1
  case confirmed =>
    rw [hnext.1]
    exact hle.2
  case reached =>
    rw [hnext.1]
    exact hinv.reached
  case fresh =>
    intro ho
    have hsame : confirm s = s.confirmed := by
      have ho' : s.offset = none := ho
      simp [confirm, ho']
    exact (hinv.fresh ho).trans hsame.symm
  case life =>
    rw [hnext.1]
    exact hinv.life
  case handled =>
    rw [hnext.1]
    exact hinv.handled
  case batch =>
    intro rest hrest
    rw [hnext.1, ← hnext.2]
    exact (hbatch rest hrest).1
  case again =>
    -- what was handled lies below the offset of this call
    have hnone : s.life.filter (confirm s ≤ ·) = [] := by
      rw [List.filter_eq_nil_iff]
      intro id hid
      rw [hinv.life] at hid
      have hlt := (List.mem_filter.mp hid).2
      rw [hnext.2]
      simp only [Bool.and_eq_true, decide_eq_true_eq] at hlt ⊢
      omega
    show (s.life.filter (confirm s ≤ ·)).length + (batch.getD []).length ≤ limit
    rw [hnone, List.length_nil, Nat.zero_add]
    cases batch with
    | none => exact Nat.zero_le _
    | some rest => exact (hbatch rest rfl).2

theorem inv_leave
    (hinv : Inv s) :
    Inv { s with batch := none } where
  ascending := hinv.ascending
  started := hinv.started
  confirmed := hinv.confirmed
  reached := hinv.reached
  fresh := hinv.fresh
  life := hinv.life
  handled := hinv.handled
  batch := nofun
  again := Nat.le_trans (Nat.add_le_add_left (Nat.zero_le _) _) hinv.again

/-- The next update of the batch is handled. -/
theorem inv_handleUpdate
    {updateId : Nat} {rest : List Nat}
    (hinv : Inv s)
    (hbatch : s.batch = some (updateId :: rest)) :
    Inv { handleUpdate s updateId with batch := some rest } := by
  obtain ⟨later, hlater⟩ := hinv.batch _ hbatch
  have hfilter : s.log.filter (s.next ≤ ·) = updateId :: (rest ++ later) := hlater.symm
  obtain ⟨hmem, hle⟩ := Ascending.head_of_filter_eq_cons hfilter
  have hnext : ({ handleUpdate s updateId with batch := some rest } : State).next =
      updateId + 1 := by
    have hbelow : s.offset.getD 0 ≤ updateId + 1 := by
      unfold State.next at hle
      cases ho : s.offset with
      | none => exact Nat.zero_le _
      | some o =>
          rw [ho] at hle
          exact Nat.le_succ_of_le hle
    exact Nat.max_eq_right hbelow
  have hbase : s.base ≤ s.next := Nat.le_trans hinv.started hinv.confirmed
  constructor
  case ascending => exact hinv.ascending
  case started => exact hinv.started
  case confirmed =>
    rw [hnext]
    have hconfirmed := hinv.confirmed
    show s.confirmed ≤ updateId + 1
    omega
  case reached =>
    intro id hid
    rw [hnext]
    exact hid updateId hmem
  case fresh => nofun
  case life =>
    rw [hnext]
    show s.life ++ [updateId] = s.log.filter fun id => s.base ≤ id && id < updateId + 1
    rw [Ascending.filter_between_succ hinv.ascending hfilter hbase, ← hinv.life]
  case handled =>
    intro id hid hlt
    rw [hnext] at hlt
    show id ∈ s.past ++ (s.life ++ [updateId])
    rw [← List.append_assoc, List.mem_append, List.mem_singleton]
    rcases Nat.lt_or_ge id updateId with hid' | hge
    · have hbelow := Ascending.lt_of_filter_eq_cons hinv.ascending hfilter hid hid'
      exact Or.inl (hinv.handled id hid hbelow)
    · exact Or.inr (by omega)
  case batch =>
    rintro rest' hrest
    obtain rfl := Option.some.inj hrest
    rw [hnext]
    show rest <+: s.log.filter (updateId + 1 ≤ ·)
    rw [Ascending.filter_succ hinv.ascending hfilter]
    exact List.prefix_append _ _
  case again =>
    have hagain := hinv.again
    rw [hbatch, Option.getD_some, List.length_cons] at hagain
    show ((s.life ++ [updateId]).filter (s.confirmed ≤ ·)).length + rest.length ≤ limit
    have hone : ([updateId].filter (s.confirmed ≤ ·)).length ≤ 1 := List.length_filter_le _ _
    rw [List.filter_append, List.length_append]
    omega

theorem inv_restart
    (hinv : Inv s) :
    Inv { s with
      offset := none, batch := none, past := s.past ++ s.life, life := []
      base := s.confirmed } where
  ascending := hinv.ascending
  started := Nat.le_refl _
  confirmed := Nat.le_refl _
  reached := fun id hid => Nat.le_trans hinv.confirmed (hinv.reached id hid)
  fresh := fun _ => rfl
  life := by
    symm
    rw [List.filter_eq_nil_iff]
    intro id _
    simp only [State.next, Option.getD_none, Bool.and_eq_true, decide_eq_true_eq, not_and]
    exact fun hle hlt => absurd (of_decide_eq_true hlt) (Nat.not_lt.mpr hle)
  handled := by
    intro id hid hlt
    rw [List.append_nil]
    exact hinv.handled id hid (Nat.lt_of_lt_of_le hlt hinv.confirmed)
  batch := nofun
  again := Nat.zero_le _

theorem inv_step
    {a : Label}
    (hinv : Inv s)
    (h : step s a = some s') :
    Inv s' := by
  cases a with
  | arrive updateId =>
      rw [step] at h
      split_ifs at h with hnew
      obtain rfl := Option.some.inj h
      exact inv_arrive hinv (by simpa using hnew)
  | answered batch =>
      rw [step] at h
      split_ifs at h with hguard
      obtain rfl := Option.some.inj h
      rw [Bool.and_eq_true, answers, Bool.and_eq_true] at hguard
      refine inv_confirm hinv fun rest hrest => ?_
      obtain rfl := Option.some.inj hrest
      exact ⟨List.isPrefixOf_iff_prefix.mp hguard.2.1, of_decide_eq_true hguard.2.2⟩
  | unanswered =>
      rw [step] at h
      split_ifs at h with hidle
      obtain rfl := Option.some.inj h
      have hnone : s.batch = none := Option.isNone_iff_eq_none.mp hidle
      have hkeep : ({ s with confirmed := confirm s } : State) =
          { s with confirmed := confirm s, batch := none } := by
        rw [hnone]
      rw [hkeep]
      exact inv_confirm hinv nofun
  | handle raised =>
      rw [step] at h
      split at h
      case h_1 updateId rest hbatch =>
        obtain rfl := Option.some.inj h
        have hnext := inv_handleUpdate hinv hbatch
        cases raised with
        | false => exact hnext
        | true => exact inv_leave (s := { handleUpdate s updateId with batch := some rest }) hnext
      case h_2 => cases h
  | leave =>
      rw [step] at h
      split_ifs at h
      obtain rfl := Option.some.inj h
      exact inv_leave hinv
  | restart =>
      obtain rfl := Option.some.inj h
      exact inv_restart hinv

theorem inv_of_reach
    (h : Reach step (fun _ _ => True) initial s) :
    Inv s :=
  h.invariant inv_initial fun _ _ _ hs _ hstep => inv_step hs hstep

/-- One step confirms no less, and what it handles was not confirmed. -/
theorem handled_step
    {a : Label}
    (hinv : Inv s)
    (h : step s a = some s') :
    s.confirmed ≤ s'.confirmed ∧
      ∃ more, s'.past ++ s'.life = s.past ++ s.life ++ more ∧ ∀ id ∈ more, s.confirmed ≤ id := by
  have hnone : ∃ more, s.past ++ s.life = s.past ++ s.life ++ more ∧
      ∀ id ∈ more, s.confirmed ≤ id :=
    ⟨[], (List.append_nil _).symm, nofun⟩
  cases a with
  | arrive updateId =>
      rw [step] at h
      split_ifs at h
      obtain rfl := Option.some.inj h
      exact ⟨Nat.le_refl _, hnone⟩
  | answered batch =>
      rw [step] at h
      split_ifs at h
      obtain rfl := Option.some.inj h
      exact ⟨(confirm_le hinv).1, hnone⟩
  | unanswered =>
      rw [step] at h
      split_ifs at h
      obtain rfl := Option.some.inj h
      exact ⟨(confirm_le hinv).1, hnone⟩
  | handle raised =>
      rw [step] at h
      split at h
      case h_1 updateId rest hbatch =>
        obtain rfl := Option.some.inj h
        refine ⟨Nat.le_refl _, [updateId], (List.append_assoc _ _ _).symm, ?_⟩
        intro id hid
        obtain rfl := List.mem_singleton.mp hid
        obtain ⟨later, hlater⟩ := hinv.batch _ hbatch
        exact Nat.le_trans hinv.confirmed (Ascending.head_of_filter_eq_cons hlater.symm).2
      case h_2 => cases h
  | leave =>
      rw [step] at h
      split_ifs at h
      obtain rfl := Option.some.inj h
      exact ⟨Nat.le_refl _, hnone⟩
  | restart =>
      obtain rfl := Option.some.inj h
      exact ⟨Nat.le_refl _, [], by simp, nofun⟩

/-- What is confirmed is not handled again. -/
theorem handled_reach
    {t : State}
    (hinv : Inv s)
    (h : Reach step (fun _ _ => True) s t) :
    ∃ more, t.past ++ t.life = s.past ++ s.life ++ more ∧ ∀ id ∈ more, s.confirmed ≤ id := by
  have hkeep : Inv t ∧ s.confirmed ≤ t.confirmed ∧
      ∃ more, t.past ++ t.life = s.past ++ s.life ++ more ∧ ∀ id ∈ more, s.confirmed ≤ id := by
    refine h.invariant (P := fun t => Inv t ∧ s.confirmed ≤ t.confirmed ∧
      ∃ more, t.past ++ t.life = s.past ++ s.life ++ more ∧ ∀ id ∈ more, s.confirmed ≤ id)
      ⟨hinv, Nat.le_refl _, [], (List.append_nil _).symm, nofun⟩ ?_
    rintro t a t' ⟨ht, hle, more, hmore, hids⟩ _ hstep
    obtain ⟨hle', last, hlast, hlastIds⟩ := handled_step ht hstep
    refine ⟨inv_step ht hstep, Nat.le_trans hle hle', more ++ last, ?_, ?_⟩
    · rw [hlast, hmore, List.append_assoc]
    · intro id hid
      rcases List.mem_append.mp hid with hid | hid
      · exact hids id hid
      · exact Nat.le_trans hle (hlastIds id hid)
  exact hkeep.2.2

end Steps

/-- **Every update is handled, and once in a life of the poller.**  In the log's order this life
has handled all updates from its beginning to its offset; what is confirmed was handled and is
not handled again; and if the poller dies now, at most one batch comes again. -/
theorem updates_handled
    (s : State)
    (h : Reach step (fun _ _ => True) initial s) :
    (s.log.Pairwise (· < ·) ∧
      s.life = s.log.filter fun id => s.base ≤ id && id < s.next) ∧
    (∀ id ∈ s.log, id < s.confirmed → id ∈ s.past ++ s.life) ∧
    (∀ t, Reach step (fun _ _ => True) s t →
      ∃ more, t.past ++ t.life = s.past ++ s.life ++ more ∧ ∀ id ∈ more, s.confirmed ≤ id) ∧
    (s.life.filter (s.confirmed ≤ ·)).length ≤ limit := by
  have hinv := inv_of_reach h
  refine ⟨⟨hinv.ascending, hinv.life⟩, ?_, fun t ht => handled_reach hinv ht, ?_⟩
  · exact fun id hid hlt => hinv.handled id hid (Nat.lt_of_lt_of_le hlt hinv.confirmed)
  · exact Nat.le_trans (Nat.le_add_right _ _) hinv.again

/-- The second of three updates raises; the process dies behind it. -/
def raisedRun : List Label :=
  [.arrive 7, .arrive 8, .answered [7, 8], .arrive 9, .handle false, .handle true, .restart,
    .answered [7, 8, 9], .handle false]

theorem updates_handled_raisedRun :
    ∃ s, run step initial raisedRun = some s ∧
      s.life = s.log.filter fun id => s.base ≤ id && id < s.next := by
  have hrun := run_eq_getD (show (run step initial raisedRun).isSome = true by decide)
  exact ⟨_, hrun, (updates_handled _ (reach_of_run_free hrun)).1.2⟩

end UpdateOffset
end Telegram
end DiploidAgent
