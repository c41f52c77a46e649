import DiploidAgent.Lib.Runs
import DiploidAgent.Runtime.WakeQueue

/-!
# Leases of the wake queue

Any number of processes call the nine operations of the queue in any order;
their clock never goes back and every enqueued event has a fresh id.  A popped
event keeps its lease until it is failed or the lease runs out
(`lease_kept`), an event goes away by `complete` or by a cancellation made while
it was ready and unleased (`removed_by`), and `pop_due` pops exactly the due
events in order.
-/

namespace DiploidAgent
namespace Wake

open Runs

/-- One operation on the queue, with its arguments and its clock. -/
inductive Label where
  | enqueue (event : WakeEvent) (freshId : String)
  | ready (eventId : String) (now : Int)
  | merge (event : WakeEvent) (key : String) (now : Int)
  | popDue (now leaseSeconds : Int)
  | complete (eventId : String)
  | fail (eventId : String) (retryAfter now : Int)
  | cancelEvent (eventId : String) (chatId : Option String) (now : Int)
  | cancel (chatId reason : Option String) (now : Int)
  | cancelOlderThan (before : Int) (reason : Option String) (now : Int)

/-- The queue after an operation. -/
def apply (q : Queue) : Label → Queue
  | .enqueue event freshId => enqueue q event freshId
  | .ready eventId now => ready q eventId now
  | .merge event key now => (mergeIntoReady q event key now).1
  | .popDue now leaseSeconds => (popDue q now leaseSeconds).1
  | .complete eventId => complete q eventId
  | .fail eventId retryAfter now => fail q eventId retryAfter now
  | .cancelEvent eventId chatId now => cancelEvent q eventId chatId now
  | .cancel chatId reason now => cancel q chatId reason now
  | .cancelOlderThan before reason now => cancelOlderThan q before reason now

/-- The clock an operation reads. -/
def Label.time : Label → Option Int
  | .enqueue _ _ => none
  | .ready _ now => some now
  | .merge _ _ now => some now
  | .popDue now _ => some now
  | .complete _ => none
  | .fail _ _ now => some now
  | .cancelEvent _ _ now => some now
  | .cancel _ _ now => some now
  | .cancelOlderThan _ _ now => some now

/-- The id an operation uses up. -/
def Label.enqueued : Label → Option String
  | .enqueue event freshId => some (event.withId freshId).id
  | _ => none

/-- The backing file, the clock, and the ids enqueued so far. -/
structure State where
  queue : Queue
  clock : Int
  used : List String

def initial (clock : Int) : State := { queue := Dict.empty, clock := clock, used := [] }

/-- One operation: the clock is monotone, enqueued ids are fresh. -/
def step (s : State) (a : Label) : Option State :=
  if a.time.all (fun now => s.clock ≤ now) && a.enqueued.all (fun id => !s.used.contains id) then
    some { queue := apply s.queue a
           clock := a.time.getD s.clock
           used := a.enqueued.toList ++ s.used }
  else none

/-- The ids `pop_due` returns. -/
def poppedIds (q : Queue) (now leaseSeconds : Int) : List String :=
  (popDue q now leaseSeconds).2.map WakeEvent.id

section Frame

variable {q : Queue} {id : String} {e : WakeEvent}

/-- What one operation does to a stored event. -/
inductive Change (a : Label) (id : String) (e : WakeEvent) : Option WakeEvent → Prop
  | kept : Change a id e (some e)
  | merged {event : WakeEvent} {key : String} {now : Int} {payload : Payload}
      (ha : a = .merge event key now)
      (hpayload : mergePayload e.payload event.payload = some payload) :
      Change a id e (some { e with payload := payload })
  | readied (now : Int) (hready : e.ready = false) :
      Change a id e (some { e with ready := true, scheduledAt := now, leasedUntil := none })
  | leased {now leaseSeconds : Int} (ha : a = .popDue now leaseSeconds)
      (hdue : e.isDue now = true) : Change a id e (some (e.lease (now + leaseSeconds)))
  | failed {retryAfter now : Int} (ha : a = .fail id retryAfter now) :
      Change a id e (some { e with
        attempts := e.attempts + 1
        scheduledAt := now + retryAfter
        leasedUntil := none })
  | completed (ha : a = .complete id) : Change a id e none
  | cancelled {now : Int} (ha : a.time = some now)
      (hkind : (∃ chatId, a = .cancelEvent id chatId now) ∨
        (∃ chatId reason, a = .cancel chatId reason now) ∨
        ∃ before reason, a = .cancelOlderThan before reason now)
      (hready : e.ready = true) (hfree : e.unleased now = true) : Change a id e none

/-- The event is filtered out or stays. -/
theorem change_filter
    {a : Label} {p : WakeEvent → Bool}
    (hcancel : p e = false → Change a id e none) :
    Change a id e ((some e).filter p) := by
  rw [Option.filter_some]
  split_ifs with hp
  · exact .kept
  · exact hcancel (by simpa using hp)

/-- One operation other than an enqueue under this id. -/
theorem change_of_apply
    {a : Label}
    (hkeyed : Keyed q)
    (hget : q.get id = some e)
    (hfresh : a.enqueued ≠ some id) :
    Change a id e ((apply q a).get id) := by
  cases a with
  | enqueue event freshId =>
      have hne : (event.withId freshId).id ≠ id := fun h => hfresh (congrArg some h)
      rw [apply, get_enqueue, if_neg hne, hget]
      exact .kept
  | ready eventId now =>
      rw [apply, get_ready, hget]
      split_ifs with hid
      · cases hr : e.ready with
        | true =>
            simp only [Option.map_some, hr, if_true]
            exact .kept
        | false =>
            simp only [Option.map_some, hr]
            exact .readied now hr
      · exact .kept
  | merge event key now =>
      rw [apply]
      rcases get_mergeIntoReady q id event key now with
        hsame | ⟨target, payload, htarget, hid, hpayload, hnew⟩
      · rw [hsame, hget]
        exact .kept
      · have hstored := (mergeTarget_eq_some hkeyed htarget).1
        rw [hid, hget] at hstored
        obtain rfl := Option.some.inj hstored
        rw [hnew]
        exact .merged rfl hpayload
  | popDue now leaseSeconds =>
      rw [apply, get_popDue, hget, Option.map_some]
      split_ifs with hdue
      · exact .leased rfl hdue
      · exact .kept
  | complete eventId =>
      rw [apply, get_complete]
      split_ifs with hid
      · exact .completed (by rw [hid])
      · rw [hget]
        exact .kept
  | fail eventId retryAfter now =>
      rw [apply, get_fail, hget]
      split_ifs with hid
      · exact .failed (by rw [hid])
      · exact .kept
  | cancelEvent eventId chatId now =>
      rw [apply, get_cancelEvent, hget]
      refine change_filter fun hp => ?_
      simp only [cancelsEvent, Bool.not_eq_false', Bool.and_eq_true, beq_iff_eq] at hp
      exact .cancelled rfl (Or.inl ⟨chatId, by rw [hp.1.1.1]⟩) hp.1.1.2 hp.2
  | cancel chatId reason now =>
      rw [apply, get_cancel, hget]
      refine change_filter fun hp => ?_
      simp only [cancels, Bool.not_eq_false', Bool.and_eq_true] at hp
      exact .cancelled rfl (Or.inr (Or.inl ⟨chatId, reason, rfl⟩)) hp.1.1.1 hp.2
  | cancelOlderThan before reason now =>
      rw [apply, get_cancelOlderThan, hget]
      refine change_filter fun hp => ?_
      simp only [cancelsOlder, Bool.not_eq_false', Bool.and_eq_true] at hp
      exact .cancelled rfl (Or.inr (Or.inr ⟨before, reason, rfl⟩)) hp.1.1.1 hp.2

/-- An operation stores no event under an id that had none, but for an
enqueue. -/
theorem get_apply_none
    {a : Label}
    (hkeyed : Keyed q)
    (hget : q.get id = none)
    (hfresh : a.enqueued ≠ some id) :
    (apply q a).get id = none := by
  cases a with
  | enqueue event freshId =>
      have hne : (event.withId freshId).id ≠ id := fun h => hfresh (congrArg some h)
      rw [apply, get_enqueue, if_neg hne, hget]
  | ready eventId now => simp [apply, get_ready, hget]
  | merge event key now =>
      rw [apply]
      rcases get_mergeIntoReady q id event key now with
        hsame | ⟨target, payload, htarget, hid, _, _⟩
      · rw [hsame, hget]
      · have hstored := (mergeTarget_eq_some hkeyed htarget).1
        rw [hid, hget] at hstored
        cases hstored
  | popDue now leaseSeconds => simp [apply, get_popDue, hget]
  | complete eventId => simp [apply, get_complete, hget]
  | fail eventId retryAfter now => simp [apply, get_fail, hget]
  | cancelEvent eventId chatId now => simp [apply, get_cancelEvent, hget]
  | cancel chatId reason now => simp [apply, get_cancel, hget]
  | cancelOlderThan before reason now => simp [apply, get_cancelOlderThan, hget]

/-- An operation never changes the id of an event. -/
theorem Change.id_eq
    {a : Label} {e' : WakeEvent}
    (h : Change a id e (some e')) :
    e'.id = e.id := by
  cases h <;> rfl

theorem keyed_apply
    {a : Label}
    (hkeyed : Keyed q) :
    Keyed (apply q a) := by
  intro id e' hget'
  by_cases hfresh : a.enqueued = some id
  · cases a with
    | enqueue event freshId =>
        have hid : (event.withId freshId).id = id := Option.some.inj hfresh
        rw [apply, get_enqueue, if_pos hid] at hget'
        obtain rfl := Option.some.inj hget'
        exact hid
    | _ => cases hfresh
  · cases hget : q.get id with
    | none =>
        rw [get_apply_none hkeyed hget hfresh] at hget'
        cases hget'
    | some e =>
        have hchange := change_of_apply hkeyed hget hfresh
        rw [hget'] at hchange
        rw [hchange.id_eq]
        exact hkeyed id e hget

end Frame

section Runs

variable {s s' : State} {id : String}

/-- What every reachable queue keeps. -/
structure Inv (s : State) : Prop where
  keyed : Keyed s.queue
  used : ∀ id, s.queue.get id ≠ none → id ∈ s.used

theorem step_eq_some
    {a : Label}
    (h : step s a = some s') :
    s' = ⟨apply s.queue a, a.time.getD s.clock, a.enqueued.toList ++ s.used⟩ ∧
      (∀ now, a.time = some now → s.clock ≤ now) ∧
      ∀ id, a.enqueued = some id → id ∉ s.used := by
  unfold step at h
  split_ifs at h with hguard
  obtain rfl := Option.some.inj h
  rw [Bool.and_eq_true] at hguard
  refine ⟨rfl, fun now hnow => ?_, fun id hid => ?_⟩
  · simpa [hnow] using hguard.1
  · simpa [hid] using hguard.2

theorem clock_le
    {a : Label}
    (h : step s a = some s') :
    s.clock ≤ s'.clock := by
  obtain ⟨rfl, htime, _⟩ := step_eq_some h
  cases ht : a.time with
  | none => simp
  | some now => simpa using htime now ht

theorem inv_step
    {a : Label}
    (hinv : Inv s)
    (h : step s a = some s') :
    Inv s' := by
  obtain ⟨rfl, _, hfresh⟩ := step_eq_some h
  refine ⟨keyed_apply hinv.keyed, fun id hne => ?_⟩
  by_cases hid : a.enqueued = some id
  · simp [hid]
  · refine List.mem_append_right _ (hinv.used id fun hnone => hne ?_)
    exact get_apply_none hinv.keyed hnone hid

theorem inv_of_reach
    {clock : Int}
    (h : Reach step (fun _ _ => True) (initial clock) s) :
    Inv s := by
  refine h.invariant ⟨fun _ _ hget => ?_, fun _ hne => ?_⟩ fun _ _ _ hs _ hstep => inv_step hs hstep
  · simp [initial] at hget
  · simp [initial] at hne

theorem inv_run
    {as : List Label}
    (hinv : Inv s)
    (h : run step s as = some s') :
    Inv s' := by
  induction as generalizing s with
  | nil =>
      obtain rfl := Option.some.inj h
      exact hinv
  | cons a as ih =>
      obtain ⟨t, ht, hrest⟩ := run_cons_eq_some.mp h
      exact ih (inv_step hinv ht) hrest

/-- A popped event is stored, ready, due and unleased. -/
theorem mem_poppedIds
    {now leaseSeconds : Int}
    (hkeyed : Keyed s.queue)
    (h : id ∈ poppedIds s.queue now leaseSeconds) :
    ∃ e, s.queue.get id = some e ∧ e.isDue now = true := by
  obtain ⟨e', he', rfl⟩ := List.mem_map.mp h
  obtain ⟨e, he, rfl⟩ := List.mem_map.mp he'
  rw [List.mem_insertionSort] at he
  obtain ⟨hvalue, hdue⟩ := List.mem_filter.mp he
  obtain ⟨k, hk⟩ := Dict.exists_get_of_mem_values hvalue
  refine ⟨e, ?_, hdue⟩
  rw [lease_id, hkeyed k e hk]
  exact hk

/-- The event is gone, or it is ready under a lease that ends at `until_` unless
that moment has passed. -/
def Leased (id : String) (until_ : Int) (s : State) : Prop :=
  id ∈ s.used ∧ ∀ e, s.queue.get id = some e →
    e.ready = true ∧ ∃ t, e.leasedUntil = some t ∧ (t = until_ ∨ until_ ≤ s.clock)

/-- One operation other than a `fail` of the event keeps its lease. -/
theorem leased_step
    {a : Label} {until_ : Int}
    (hinv : Inv s)
    (hl : Leased id until_ s)
    (hnofail : ∀ retryAfter now, a ≠ .fail id retryAfter now)
    (h : step s a = some s') :
    Leased id until_ s' := by
  have hclock := clock_le h
  obtain ⟨rfl, htime, hfresh⟩ := step_eq_some h
  refine ⟨List.mem_append_right _ hl.1, fun e' hget' => ?_⟩
  have hid : a.enqueued ≠ some id := fun hid => hfresh id hid hl.1
  dsimp only at hget' hclock ⊢
  cases hget : s.queue.get id with
  | none =>
      rw [get_apply_none hinv.keyed hget hid] at hget'
      cases hget'
  | some e =>
      obtain ⟨hready, t, ht, hlate⟩ := hl.2 e hget
      have hchange := change_of_apply hinv.keyed hget hid
      rw [hget'] at hchange
      have hlate' : t = until_ ∨ until_ ≤ a.time.getD s.clock :=
        hlate.imp_right fun hle => hle.trans hclock
      cases hchange with
      | kept => exact ⟨hready, t, ht, hlate'⟩
      | merged _ _ => exact ⟨hready, t, ht, hlate'⟩
      | readied now hno =>
          rw [hready] at hno
          cases hno
      | @leased now leaseSeconds ha hdue =>
          subst ha
          refine ⟨hready, _, rfl, Or.inr ?_⟩
          have hfree : t ≤ now := by
            rw [WakeEvent.isDue, Bool.and_eq_true] at hdue
            simpa [WakeEvent.unleased, ht] using hdue.2
          rcases hlate with rfl | hle
          · exact hfree
          · exact hle.trans (htime now rfl)
      | failed ha => exact absurd ha (hnofail _ _)

/-- A run without a `fail` of the event keeps its lease. -/
theorem leased_run
    {as : List Label} {until_ : Int}
    (hinv : Inv s)
    (hl : Leased id until_ s)
    (hnofail : ∀ retryAfter now, Label.fail id retryAfter now ∉ as)
    (h : run step s as = some s') :
    Leased id until_ s' := by
  induction as generalizing s with
  | nil =>
      obtain rfl := Option.some.inj h
      exact hl
  | cons a as ih =>
      obtain ⟨t, ht, hrest⟩ := run_cons_eq_some.mp h
      refine ih (inv_step hinv ht) (leased_step hinv hl ?_ ht) ?_ hrest
      · rintro retryAfter now rfl
        exact hnofail retryAfter now (by simp)
      · exact fun retryAfter now hmem => hnofail retryAfter now (List.mem_cons_of_mem _ hmem)

/-- A `pop_due` that returns the event leases it. -/
theorem leased_popDue
    {now leaseSeconds : Int}
    (hinv : Inv s)
    (hid : id ∈ poppedIds s.queue now leaseSeconds)
    (h : step s (.popDue now leaseSeconds) = some s') :
    Leased id (now + leaseSeconds) s' := by
  obtain ⟨rfl, _, _⟩ := step_eq_some h
  obtain ⟨e, hget, hdue⟩ := mem_poppedIds hinv.keyed hid
  have hused : id ∈ s.used := hinv.used id (by rw [hget]; simp)
  refine ⟨List.mem_append_right _ hused, fun e' hget' => ?_⟩
  dsimp only [apply] at hget'
  rw [get_popDue, hget, Option.map_some, if_pos hdue, Option.some.injEq] at hget'
  subst hget'
  have hready : e.ready = true := by
    rw [WakeEvent.isDue, Bool.and_eq_true, Bool.and_eq_true] at hdue
    exact hdue.1.1
  exact ⟨hready, _, rfl, Or.inl rfl⟩

/-- Two `pop_due` calls return one event only with a `fail` of it between them
or after the first lease. -/
theorem pop_twice
    {now₁ lease₁ now₂ lease₂ : Int} {s₁ s₂ : State} {as : List Label}
    (hinv : Inv s)
    (hpop : step s (.popDue now₁ lease₁) = some s₁)
    (hid : id ∈ poppedIds s.queue now₁ lease₁)
    (hrun : run step s₁ as = some s₂)
    (hpop' : (step s₂ (.popDue now₂ lease₂)).isSome = true)
    (hid' : id ∈ poppedIds s₂.queue now₂ lease₂) :
    (∃ retryAfter now, Label.fail id retryAfter now ∈ as) ∨ now₁ + lease₁ ≤ now₂ := by
  by_cases hfail : ∃ retryAfter now, Label.fail id retryAfter now ∈ as
  · exact Or.inl hfail
  · right
    simp only [not_exists] at hfail
    have hinv₁ := inv_step hinv hpop
    have hl := leased_run hinv₁ (leased_popDue hinv hid hpop) hfail hrun
    obtain ⟨e, hget, hdue⟩ := mem_poppedIds (inv_run hinv₁ hrun).keyed hid'
    obtain ⟨_, t, ht, hlate⟩ := hl.2 e hget
    obtain ⟨s₃, hs₃⟩ := Option.isSome_iff_exists.mp hpop'
    have hclock : s₂.clock ≤ now₂ := (step_eq_some hs₃).2.1 now₂ rfl
    have hfree : t ≤ now₂ := by
      rw [WakeEvent.isDue, Bool.and_eq_true] at hdue
      simpa [WakeEvent.unleased, ht] using hdue.2
    rcases hlate with rfl | hle
    · exact hfree
    · exact hle.trans hclock

/-- An event goes away by a `complete`, or by a cancellation made while it was
ready and unleased. -/
theorem removed_by
    {a : Label} {e : WakeEvent}
    (hinv : Inv s)
    (h : step s a = some s')
    (hget : s.queue.get id = some e)
    (hgone : s'.queue.get id = none) :
    a = .complete id ∨
      ∃ now, a.time = some now ∧ e.ready = true ∧ e.unleased now = true ∧
        ((∃ chatId, a = .cancelEvent id chatId now) ∨
          (∃ chatId reason, a = .cancel chatId reason now) ∨
          ∃ before reason, a = .cancelOlderThan before reason now) := by
  obtain ⟨rfl, _, hfresh⟩ := step_eq_some h
  have hid : a.enqueued ≠ some id := fun hid =>
    hfresh id hid (hinv.used id (by rw [hget]; simp))
  have hchange := change_of_apply hinv.keyed hget hid
  dsimp only at hgone
  rw [hgone] at hchange
  cases hchange with
  | completed ha => exact Or.inl ha
  | cancelled ha hkind hready hfree => exact Or.inr ⟨_, ha, hready, hfree, hkind⟩

end Runs

section Order

instance : Std.Total WakeEvent.Before where
  total e e' := by
    unfold WakeEvent.Before
    omega

instance : IsTrans WakeEvent WakeEvent.Before where
  trans a b c hab hbc := by
    unfold WakeEvent.Before at *
    omega

theorem before_lease
    {e e' : WakeEvent} (t : Int)
    (h : WakeEvent.Before e e') :
    WakeEvent.Before (e.lease t) (e'.lease t) := h

/-- Under distinct keys that are the ids, the stored ids are distinct. -/
theorem nodup_ids
    {q : Queue}
    (hkeyed : Keyed q) :
    (q.values.map WakeEvent.id).Nodup := by
  have hsame : q.values.map WakeEvent.id = q.keys := by
    rw [Dict.values, Dict.keys, List.map_map]
    refine List.map_congr_left fun f hf => ?_
    exact hkeyed f.1 f.2 ((q.get_eq_some_iff f.1 f.2).mpr hf)
  rw [hsame]
  exact q.nodup_keys

/-- `pop_due` returns exactly the ready, due and unleased events, each once, in
the order of priority, schedule and creation. -/
theorem popDue_exact
    {q : Queue}
    (hkeyed : Keyed q) (now leaseSeconds : Int) :
    (∀ e', e' ∈ (popDue q now leaseSeconds).2 ↔
      ∃ e, q.get e.id = some e ∧ e.ready = true ∧ e.scheduledAt ≤ now ∧
        e.unleased now = true ∧ e' = e.lease (now + leaseSeconds)) ∧
    ((popDue q now leaseSeconds).2.map WakeEvent.id).Nodup ∧
    (popDue q now leaseSeconds).2.Pairwise WakeEvent.Before := by
  refine ⟨fun e' => ?_, ?_, ?_⟩
  · simp only [popDue, List.mem_map, List.mem_insertionSort, List.mem_filter]
    constructor
    · rintro ⟨e, ⟨hvalue, hdue⟩, rfl⟩
      obtain ⟨k, hk⟩ := Dict.exists_get_of_mem_values hvalue
      rw [WakeEvent.isDue, Bool.and_eq_true, Bool.and_eq_true, decide_eq_true_eq] at hdue
      exact ⟨e, by rw [hkeyed k e hk]; exact hk, hdue.1.1, hdue.1.2, hdue.2, rfl⟩
    · rintro ⟨e, hget, hready, hle, hfree, rfl⟩
      exact ⟨e, ⟨Dict.mem_values_of_get hget, by simp [WakeEvent.isDue, hready, hle, hfree]⟩, rfl⟩
  · have hids : (popDue q now leaseSeconds).2.map WakeEvent.id =
        ((q.values.filter fun e => e.isDue now).insertionSort WakeEvent.Before).map
          WakeEvent.id := by
      simp [popDue, List.map_map, Function.comp_def]
    rw [hids]
    have hperm := (List.perm_insertionSort WakeEvent.Before
      (q.values.filter fun e => e.isDue now)).map WakeEvent.id
    rw [hperm.nodup_iff]
    exact (List.filter_sublist.map WakeEvent.id).nodup (nodup_ids hkeyed)
  · have hsorted := List.pairwise_insertionSort WakeEvent.Before
      (q.values.filter fun e => e.isDue now)
    exact hsorted.map _ fun _ _ hb => before_lease _ hb

end Order

/-- **Lease exclusion and cancellation safety.** -/
theorem wake_lease_exclusion
    (clock : Int) (s : State)
    (h : Reach step (fun _ _ => True) (initial clock) s) :
    (∀ id now₁ lease₁ now₂ lease₂ s₁ s₂ as,
      step s (.popDue now₁ lease₁) = some s₁ → id ∈ poppedIds s.queue now₁ lease₁ →
      run step s₁ as = some s₂ → (step s₂ (.popDue now₂ lease₂)).isSome = true →
      id ∈ poppedIds s₂.queue now₂ lease₂ →
      (∃ retryAfter now, Label.fail id retryAfter now ∈ as) ∨ now₁ + lease₁ ≤ now₂) ∧
    (∀ a s' id e, step s a = some s' → s.queue.get id = some e → s'.queue.get id = none →
      a = .complete id ∨
        ∃ now, a.time = some now ∧ e.ready = true ∧ e.unleased now = true ∧
          ((∃ chatId, a = .cancelEvent id chatId now) ∨
            (∃ chatId reason, a = .cancel chatId reason now) ∨
            ∃ before reason, a = .cancelOlderThan before reason now)) ∧
    ∀ now leaseSeconds,
      (∀ e', e' ∈ (popDue s.queue now leaseSeconds).2 ↔
        ∃ e, s.queue.get e.id = some e ∧ e.ready = true ∧ e.scheduledAt ≤ now ∧
          e.unleased now = true ∧ e' = e.lease (now + leaseSeconds)) ∧
      ((popDue s.queue now leaseSeconds).2.map WakeEvent.id).Nodup ∧
      (popDue s.queue now leaseSeconds).2.Pairwise WakeEvent.Before := by
  have hinv := inv_of_reach h
  refine ⟨?_, ?_, popDue_exact hinv.keyed⟩
  · intro id now₁ lease₁ now₂ lease₂ s₁ s₂ as hpop hid hrun hpop' hid'
    exact pop_twice hinv hpop hid hrun hpop' hid'
  · intro a s' id e hstep hget hgone
    exact removed_by hinv hstep hget hgone

def readyEvent : WakeEvent where
  id := ""
  chatId := "chat"
  reason := "timer"
  priority := 1
  scheduledAt := 0
  ready := true

/-- A ready event is enqueued and popped under a lease of five ticks. -/
def leaseRun : List Label :=
  [.enqueue readyEvent "wake-1", .popDue 1 5]

theorem wake_lease_exclusion_leaseRun :
    ∃ s, run step (initial 0) leaseRun = some s ∧
      ((∀ id now₁ lease₁ now₂ lease₂ s₁ s₂ as,
        step s (.popDue now₁ lease₁) = some s₁ → id ∈ poppedIds s.queue now₁ lease₁ →
        run step s₁ as = some s₂ → (step s₂ (.popDue now₂ lease₂)).isSome = true →
        id ∈ poppedIds s₂.queue now₂ lease₂ →
        (∃ retryAfter now, Label.fail id retryAfter now ∈ as) ∨ now₁ + lease₁ ≤ now₂)) := by
  have hrun := run_eq_getD (show (run step (initial 0) leaseRun).isSome = true by decide)
  exact ⟨_, hrun, (wake_lease_exclusion 0 _ (reach_of_run_free hrun)).1⟩

end Wake
end DiploidAgent
