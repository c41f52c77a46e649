import DiploidAgent.Runtime.WakeLease

/-!
# Merged task updates reach a wake

The timer handlers on top of the queue: `pop_due` fires the events it pops, a
handler takes a fired event, `wake()` reads its payload, the turn runs, and the
event is completed or failed.  Merges from other threads come at any time.

The log keeps what `merge_into_ready` absorbed and what `wake()` read, the newest
entry first.  `Owed` are the absorbed elements that no wake of the event has read
since; they are all still stored as long as nothing is merged into an event whose
turn is running.
-/

namespace DiploidAgent
namespace Wake

open Runs

/-- The elements of `payload["tasks"]`. -/
def taskList (p : Payload) : List Json := (tasksOf p).getD []

/-- What was absorbed into an event, and what a wake of an event read. -/
inductive Entry where
  | absorbed (eventId : String) (tasks : List Json)
  | read (eventId : String) (tasks : List Json)

/-- Where a timer handler stands: it has taken a fired event, its wake found the
event and the turn runs, or its wake found nothing. -/
inductive HandlerPc where
  | idle
  | fired (eventId : String)
  | turn (eventId : String)
  | missing (eventId : String)
deriving DecidableEq, Repr

/-- The queue, the fired events no handler has taken, the handlers, and the
log. -/
structure Handling where
  base : State
  fired : List String
  handler : Nat → HandlerPc
  log : List Entry

def Handling.initial (clock : Int) : Handling :=
  { base := Wake.initial clock, fired := [], handler := fun _ => .idle, log := [] }

/-- The operations other threads call: everything but `complete` and the
cancellations. -/
def Label.isUpdate : Label → Bool
  | .enqueue _ _ => true
  | .ready _ _ => true
  | .merge _ _ _ => true
  | .popDue _ _ => true
  | .fail _ _ _ => true
  | _ => false

/-- One step of the queue's callers and of the handlers. -/
inductive HandlerLabel where
  | queue (a : Label)
  | take (handler : Nat) (eventId : String)
  | read (handler : Nat)
  | complete (handler : Nat)
  | fail (handler : Nat) (retryAfter now : Int)

/-- The ids a queue operation fires. -/
def firedBy (q : Queue) : Label → List String
  | .popDue now leaseSeconds => poppedIds q now leaseSeconds
  | _ => []

/-- The log entry of a merge that returned True. -/
def absorbedBy (q : Queue) : Label → List Entry
  | .merge event key now =>
      match mergeTarget q event key now with
      | none => []
      | some target =>
          if (mergeIntoReady q event key now).2 then
            [.absorbed target.id (taskList event.payload)]
          else []
  | _ => []

def Handling.setHandler (s : Handling) (h : Nat) (pc : HandlerPc) : Handling :=
  { s with handler := Function.update s.handler h pc }

/-- The event a handler is about to complete or fail. -/
def HandlerPc.ending : HandlerPc → Option String
  | .turn eventId => some eventId
  | .missing eventId => some eventId
  | _ => none

/-- One step. -/
def stepHandling (s : Handling) : HandlerLabel → Option Handling
  | .queue a =>
      if a.isUpdate then
        (step s.base a).map fun base =>
          { s with
            base := base
            fired := s.fired ++ firedBy s.base.queue a
            log := absorbedBy s.base.queue a ++ s.log }
      else none
  | .take h eventId =>
      match s.handler h with
      | .idle =>
          if s.fired.contains eventId then
            some ({ s with fired := s.fired.erase eventId }.setHandler h (.fired eventId))
          else none
      | _ => none
  | .read h =>
      match s.handler h with
      | .fired eventId =>
          match s.base.queue.get eventId with
          | none => some (s.setHandler h (.missing eventId))
          | some event =>
              some ({ s with log := .read eventId (taskList event.payload) :: s.log }.setHandler h
                (.turn eventId))
      | _ => none
  | .complete h =>
      (s.handler h).ending.bind fun eventId =>
        (step s.base (.complete eventId)).map fun base =>
          { s with base := base }.setHandler h .idle
  | .fail h retryAfter now =>
      (s.handler h).ending.bind fun eventId =>
        (step s.base (.fail eventId retryAfter now)).map fun base =>
          { s with base := base }.setHandler h .idle

section Owed

/-- The element was absorbed into the event and no wake of the event has read
it since. -/
def Owed : List Entry → String → Json → Prop
  | [], _, _ => False
  | .absorbed eventId tasks :: log, id, x => (eventId = id ∧ x ∈ tasks) ∨ Owed log id x
  | .read eventId tasks :: log, id, x => ¬ (eventId = id ∧ x ∈ tasks) ∧ Owed log id x

theorem owed_of_split
    {pre post : List Entry} {id : String} {xs : List Json} {x : Json}
    (hx : x ∈ xs)
    (hunread : ∀ ys, Entry.read id ys ∈ pre → x ∉ ys) :
    Owed (pre ++ .absorbed id xs :: post) id x := by
  induction pre with
  | nil => exact Or.inl ⟨rfl, hx⟩
  | cons e pre ih =>
      have hrest := ih fun ys hys => hunread ys (List.mem_cons_of_mem _ hys)
      cases e with
      | absorbed eventId tasks => exact Or.inr hrest
      | read eventId tasks =>
          refine ⟨?_, hrest⟩
          rintro ⟨rfl, hmem⟩
          exact hunread tasks (by simp) hmem

/-- The element is in the payload of the stored event. -/
def Stored (q : Queue) (id : String) (x : Json) : Prop :=
  ∃ e, q.get id = some e ∧ x ∈ taskList e.payload

theorem taskList_mergePayload
    {p p' r : Payload}
    (h : mergePayload p p' = some r) :
    taskList r = taskList p ++ taskList p' := by
  unfold mergePayload at h
  split at h
  · rename_i ts us hts hus
    obtain rfl := Option.some.inj h
    simp only [taskList, hts, hus, Option.getD_some]
    simp [tasksOf, Json.toList]
  · cases h

variable {q : Queue} {id : String} {x : Json}

/-- The operations of the other threads take no element out of a payload. -/
theorem stored_apply
    {a : Label}
    (hupdate : a.isUpdate = true)
    (hkeyed : Keyed q)
    (hfresh : a.enqueued ≠ some id)
    (h : Stored q id x) :
    Stored (apply q a) id x := by
  obtain ⟨e, hget, hx⟩ := h
  have hchange := change_of_apply hkeyed hget hfresh
  generalize hnew : (apply q a).get id = e' at hchange
  cases hchange with
  | kept => exact ⟨e, hnew, hx⟩
  | merged _ hpayload =>
      refine ⟨_, hnew, ?_⟩
      dsimp only
      rw [taskList_mergePayload hpayload]
      exact List.mem_append_left _ hx
  | readied now _ => exact ⟨_, hnew, hx⟩
  | leased _ _ => exact ⟨_, hnew, hx⟩
  | failed _ => exact ⟨_, hnew, hx⟩
  | completed ha =>
      subst ha
      cases hupdate
  | cancelled _ hkind _ _ =>
      rcases hkind with ⟨chatId, rfl⟩ | ⟨chatId, reason, rfl⟩ | ⟨before, reason, rfl⟩ <;>
        cases hupdate

/-- What a merge reported as absorbed is stored. -/
theorem stored_absorbedBy
    {a : Label}
    (h : Owed (absorbedBy q a) id x) :
    (∃ event key now target, a = .merge event key now ∧
      mergeTarget q event key now = some target ∧ target.id = id) ∧
    Stored (apply q a) id x := by
  cases a with
  | merge event key now =>
      simp only [absorbedBy] at h
      cases htarget : mergeTarget q event key now with
      | none =>
          rw [htarget] at h
          cases h
      | some target =>
          rw [htarget] at h
          dsimp only at h
          split_ifs at h with hmerged
          · rcases h with ⟨hid, hx⟩ | h
            · refine ⟨⟨event, key, now, target, rfl, htarget, hid⟩, ?_⟩
              simp only [mergeIntoReady, htarget] at hmerged
              cases hpayload : mergePayload target.payload event.payload with
              | none =>
                  rw [hpayload] at hmerged
                  cases hmerged
              | some payload =>
                  refine ⟨{ target with payload := payload }, ?_, ?_⟩
                  · subst hid
                    simp only [apply, mergeIntoReady, htarget, hpayload]
                    exact Dict.get_set_self _ _ _
                  · dsimp only
                    rw [taskList_mergePayload hpayload]
                    exact List.mem_append_right _ hx
            · cases h
          · cases h
  | _ => cases h

theorem owed_append
    {new log : List Entry}
    (h : Owed (new ++ log) id x) :
    Owed new id x ∨ Owed log id x := by
  induction new with
  | nil => exact Or.inr h
  | cons e new ih =>
      cases e with
      | absorbed eventId tasks =>
          rcases h with h | h
          · exact Or.inl (Or.inl h)
          · exact (ih h).imp_left Or.inr
      | read eventId tasks => exact (ih h.2).imp_left fun hnew => ⟨h.1, hnew⟩

end Owed

section Invariant

/-- The condition: nothing is merged into an event that a wake has read and
whose turn is not over. -/
def Settled (s : Handling) : HandlerLabel → Prop
  | .queue (.merge event key now) =>
      ∀ target, mergeTarget s.base.queue event key now = some target →
        ∀ h, s.handler h ≠ .turn target.id
  | _ => True

/-- `stored`: what no wake has read yet is stored; `seen`: a running turn has read
all that was absorbed into its event. -/
structure HandlingInv (s : Handling) : Prop where
  base : Inv s.base
  stored : ∀ id x, Owed s.log id x → Stored s.base.queue id x
  seen : ∀ h id x, s.handler h = .turn id → ¬ Owed s.log id x
  fired : ∀ id, id ∈ s.fired → id ∈ s.base.used
  taken : ∀ h id, s.handler h = .fired id → id ∈ s.base.used
  missing : ∀ h id, s.handler h = .missing id →
    id ∈ s.base.used ∧ s.base.queue.get id = none

variable {s s' : Handling}

theorem not_enqueued_of_used
    {base base' : State} {a : Label} {id : String}
    (hstep : step base a = some base')
    (hid : id ∈ base.used) :
    a.enqueued ≠ some id :=
  fun h => (step_eq_some hstep).2.2 id h hid

theorem used_step
    {base base' : State} {a : Label} {id : String}
    (hstep : step base a = some base')
    (hid : id ∈ base.used) :
    id ∈ base'.used := by
  obtain ⟨rfl, _, _⟩ := step_eq_some hstep
  exact List.mem_append_right _ hid

theorem Stored.used
    {base : State} {id : String} {x : Json}
    (hinv : Inv base)
    (h : Stored base.queue id x) :
    id ∈ base.used := by
  obtain ⟨e, hget, _⟩ := h
  exact hinv.used id (by rw [hget]; simp)

theorem handlingInv_queue
    {a : Label}
    (hinv : HandlingInv s)
    (hsettled : Settled s (.queue a))
    (hstep : stepHandling s (.queue a) = some s') :
    HandlingInv s' := by
  simp only [stepHandling] at hstep
  split_ifs at hstep with hupdate
  obtain ⟨base, hbase, rfl⟩ := Option.map_eq_some_iff.mp hstep
  have hqueue : base.queue = apply s.base.queue a := by
    rw [(step_eq_some hbase).1]
  refine ⟨inv_step hinv.base hbase, fun id x hx => ?_, fun h id x hpc hx => ?_, fun id hid => ?_,
    fun h id hpc => used_step hbase (hinv.taken h id hpc), fun h id hpc => ?_⟩
  · rw [hqueue]
    rcases owed_append hx with hx | hx
    · exact (stored_absorbedBy hx).2
    · have hold := hinv.stored id x hx
      exact stored_apply hupdate hinv.base.keyed
        (not_enqueued_of_used hbase (hold.used hinv.base)) hold
  · rcases owed_append hx with hx | hx
    · obtain ⟨event, key, now, target, rfl, htarget, rfl⟩ :=
        (stored_absorbedBy hx).1
      exact hsettled target htarget h hpc
    · exact hinv.seen h id x hpc hx
  · rcases List.mem_append.mp hid with hid | hid
    · exact used_step hbase (hinv.fired id hid)
    · cases a with
      | popDue now leaseSeconds =>
          obtain ⟨e, hget, _⟩ := mem_poppedIds hinv.base.keyed hid
          exact used_step hbase (hinv.base.used id (by rw [hget]; simp))
      | _ => cases hid
  · obtain ⟨hused, hnone⟩ := hinv.missing h id hpc
    refine ⟨used_step hbase hused, ?_⟩
    dsimp only
    rw [hqueue]
    exact get_apply_none hinv.base.keyed hnone (not_enqueued_of_used hbase hused)

theorem handler_setHandler
    {h u : Nat} {pc : HandlerPc} :
    (s.setHandler h pc).handler u = if u = h then pc else s.handler u := by
  simp [Handling.setHandler, Function.update_apply]

theorem handlingInv_take
    {h : Nat} {eventId : String}
    (hinv : HandlingInv s)
    (hstep : stepHandling s (.take h eventId) = some s') :
    HandlingInv s' := by
  simp only [stepHandling] at hstep
  split at hstep
  · split_ifs at hstep with hfired
    obtain rfl := Option.some.inj hstep
    have hmem : eventId ∈ s.fired := by simpa using hfired
    refine ⟨hinv.base, hinv.stored, fun u id x hpc => ?_,
      fun id hid => hinv.fired id (List.mem_of_mem_erase hid), fun u id hpc => ?_,
      fun u id hpc => ?_⟩
    · rw [handler_setHandler] at hpc
      split_ifs at hpc
      exact hinv.seen u id x hpc
    · rw [handler_setHandler] at hpc
      split_ifs at hpc
      · obtain rfl := HandlerPc.fired.inj hpc
        exact hinv.fired eventId hmem
      · exact hinv.taken u id hpc
    · rw [handler_setHandler] at hpc
      split_ifs at hpc
      exact hinv.missing u id hpc
  · cases hstep

theorem handlingInv_read
    {h : Nat}
    (hinv : HandlingInv s)
    (hstep : stepHandling s (.read h) = some s') :
    HandlingInv s' := by
  simp only [stepHandling] at hstep
  split at hstep
  · rename_i eventId hpc
    have hused := hinv.taken h eventId hpc
    split at hstep
    · rename_i hnone
      obtain rfl := Option.some.inj hstep
      refine ⟨hinv.base, hinv.stored, fun u id x hpc' => ?_, hinv.fired, fun u id hpc' => ?_,
        fun u id hpc' => ?_⟩
      · rw [handler_setHandler] at hpc'
        split_ifs at hpc'
        exact hinv.seen u id x hpc'
      · rw [handler_setHandler] at hpc'
        split_ifs at hpc'
        exact hinv.taken u id hpc'
      · rw [handler_setHandler] at hpc'
        split_ifs at hpc'
        · obtain rfl := HandlerPc.missing.inj hpc'
          exact ⟨hused, hnone⟩
        · exact hinv.missing u id hpc'
    · rename_i event hget
      obtain rfl := Option.some.inj hstep
      refine ⟨hinv.base, fun id x hx => hinv.stored id x hx.2, fun u id x hpc' hx => ?_,
        hinv.fired, fun u id hpc' => ?_, fun u id hpc' => ?_⟩
      · rw [handler_setHandler] at hpc'
        split_ifs at hpc'
        · obtain rfl := HandlerPc.turn.inj hpc'
          obtain ⟨e, hget', hmem⟩ := hinv.stored eventId x hx.2
          obtain rfl := Option.some.inj (hget.symm.trans hget')
          exact hx.1 ⟨rfl, hmem⟩
        · exact hinv.seen u id x hpc' hx.2
      · rw [handler_setHandler] at hpc'
        split_ifs at hpc'
        exact hinv.taken u id hpc'
      · rw [handler_setHandler] at hpc'
        split_ifs at hpc'
        exact hinv.missing u id hpc'
  · cases hstep

/-- A handler that is about to end its event owes nothing of it. -/
theorem not_owed_of_ending
    {h : Nat} {eventId : String} {x : Json}
    (hinv : HandlingInv s)
    (hend : (s.handler h).ending = some eventId) :
    ¬ Owed s.log eventId x := by
  cases hpc : s.handler h with
  | idle =>
      rw [hpc] at hend
      cases hend
  | fired id =>
      rw [hpc] at hend
      cases hend
  | turn id =>
      rw [hpc] at hend
      obtain rfl := Option.some.inj hend
      exact hinv.seen h id x hpc
  | missing id =>
      rw [hpc] at hend
      obtain rfl := Option.some.inj hend
      intro hx
      obtain ⟨e, hget, _⟩ := hinv.stored id x hx
      rw [(hinv.missing h id hpc).2] at hget
      cases hget

/-- Ending an event: the other events keep what they store. -/
theorem handlingInv_end
    {h : Nat} {a : Label} {base : State}
    (hinv : HandlingInv s)
    (hbase : step s.base a = some base)
    (hstored : ∀ id x, Owed s.log id x → Stored s.base.queue id x →
      Stored base.queue id x) :
    HandlingInv (({ s with base := base } : Handling).setHandler h .idle) := by
  have hqueue : base.queue = apply s.base.queue a := by
    rw [(step_eq_some hbase).1]
  refine ⟨inv_step hinv.base hbase, fun id x hx => hstored id x hx (hinv.stored id x hx),
    fun u id x hpc => ?_, fun id hid => used_step hbase (hinv.fired id hid), fun u id hpc => ?_,
    fun u id hpc => ?_⟩
  · rw [handler_setHandler] at hpc
    split_ifs at hpc
    exact hinv.seen u id x hpc
  · rw [handler_setHandler] at hpc
    split_ifs at hpc
    exact used_step hbase (hinv.taken u id hpc)
  · rw [handler_setHandler] at hpc
    split_ifs at hpc
    obtain ⟨hused, hnone⟩ := hinv.missing u id hpc
    refine ⟨used_step hbase hused, ?_⟩
    simp only [Handling.setHandler, hqueue]
    exact get_apply_none hinv.base.keyed hnone (not_enqueued_of_used hbase hused)

theorem handlingInv_step
    {a : HandlerLabel}
    (hinv : HandlingInv s)
    (hsettled : Settled s a)
    (hstep : stepHandling s a = some s') :
    HandlingInv s' := by
  cases a with
  | queue a => exact handlingInv_queue hinv hsettled hstep
  | take h eventId => exact handlingInv_take hinv hstep
  | read h => exact handlingInv_read hinv hstep
  | complete h =>
      obtain ⟨eventId, hend, hstep⟩ := Option.bind_eq_some_iff.mp hstep
      obtain ⟨base, hbase, rfl⟩ := Option.map_eq_some_iff.mp hstep
      refine handlingInv_end hinv hbase fun id x hx hst => ?_
      obtain ⟨e, hget, hmem⟩ := hst
      have hne : eventId ≠ id := by
        rintro rfl
        exact not_owed_of_ending hinv hend hx
      refine ⟨e, ?_, hmem⟩
      rw [(step_eq_some hbase).1]
      dsimp only [apply]
      rw [get_complete, if_neg hne, hget]
  | fail h retryAfter now =>
      obtain ⟨eventId, hend, hstep⟩ := Option.bind_eq_some_iff.mp hstep
      obtain ⟨base, hbase, rfl⟩ := Option.map_eq_some_iff.mp hstep
      refine handlingInv_end hinv hbase fun id x hx hst => ?_
      rw [(step_eq_some hbase).1]
      exact stored_apply rfl hinv.base.keyed (by simp [Label.enqueued]) hst

end Invariant

/-- Every element that was absorbed into an event is in the payload a later wake
of the event read, or is still stored. -/
def NoUpdateLost (s : Handling) : Prop :=
  ∀ after before eventId tasks, s.log = after ++ .absorbed eventId tasks :: before →
    ∀ x, x ∈ tasks →
      (∃ ys, Entry.read eventId ys ∈ after ∧ x ∈ ys) ∨ Stored s.base.queue eventId x

/-- **No wake task update is lost.** -/
theorem wake_update_not_lost
    (clock : Int) (s : Handling)
    (h : Reach stepHandling Settled (Handling.initial clock) s) :
    NoUpdateLost s := by
  have hinit : HandlingInv (Handling.initial clock) := by
    refine ⟨inv_of_reach (Reach.refl _), fun _ _ hx => (by cases hx), fun _ _ _ hpc => (by cases hpc),
      fun _ hid => (by simp [Handling.initial] at hid), fun _ _ hpc => (by cases hpc),
      fun _ _ hpc => (by cases hpc)⟩
  have hinv : HandlingInv s := h.invariant hinit fun _ _ _ hs hc hstep =>
    handlingInv_step hs hc hstep
  intro after before eventId tasks hlog x hx
  by_cases hread : ∃ ys, Entry.read eventId ys ∈ after ∧ x ∈ ys
  · exact Or.inl hread
  · refine Or.inr (hinv.stored eventId x ?_)
    rw [hlog]
    refine owed_of_split hx fun ys hys hmem => hread ⟨ys, hys, hmem⟩

/-- A plan update with one task. -/
def planUpdate (task : String) (createdAt : Int) : WakeEvent where
  id := ""
  chatId := "chat"
  reason := "plan_task_update"
  priority := 1
  scheduledAt := createdAt
  createdAt := createdAt
  ready := true
  payload := (Dict.empty.set "plan_id" (.str "plan-1")).set "tasks" (.arr [.str task])

/-- The wake of the first update reads it; the second is merged. -/
def mergedRun : List HandlerLabel :=
  [.queue (.enqueue (planUpdate "a" 0) "wake-1"), .queue (.merge (planUpdate "b" 1) "plan-1" 1),
    .queue (.popDue 1 5), .take 0 "wake-1", .read 0, .complete 0]

theorem wake_update_not_lost_mergedRun :
    ∃ s, run stepHandling (Handling.initial 0) mergedRun = some s ∧ NoUpdateLost s := by
  have hrun := run_eq_getD
    (show (run stepHandling (Handling.initial 0) mergedRun).isSome = true by decide)
  refine ⟨_, hrun, wake_update_not_lost 0 _ (reach_of_run hrun ?_)⟩
  refine ⟨trivial, fun s₁ h₁ => ⟨?_, fun s₂ _ => ⟨trivial, fun s₃ _ => ⟨trivial, fun s₄ _ =>
    ⟨trivial, fun s₅ _ => ⟨trivial, fun _ _ => trivial⟩⟩⟩⟩⟩⟩
  obtain rfl := Option.some.inj h₁
  exact fun _ _ _ hpc => by cases hpc

/-- The turn runs longer than its lease and the second update is merged before
it is completed. -/
def lateMergeRun : List HandlerLabel :=
  [.queue (.enqueue (planUpdate "a" 0) "wake-1"), .queue (.popDue 0 5), .take 0 "wake-1", .read 0,
    .queue (.merge (planUpdate "b" 6) "plan-1" 6), .complete 0]

/-- The second update was reported as absorbed and is neither read nor stored. -/
theorem wake_update_lost :
    ¬ ∀ s, Reach stepHandling (fun _ _ => True) (Handling.initial 0) s → NoUpdateLost s := by
  intro h
  have hreach := reach_run
    (show (run stepHandling (Handling.initial 0) lateMergeRun).isSome = true by decide)
  rcases h _ hreach [] [.read "wake-1" [.str "a"]] "wake-1" [.str "b"] rfl (.str "b") (by simp) with
    ⟨ys, hys, _⟩ | ⟨e, hget, _⟩
  · cases hys
  · cases hget

end Wake
end DiploidAgent
