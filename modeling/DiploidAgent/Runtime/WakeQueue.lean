import Mathlib.Data.List.MinMax
import Mathlib.Data.List.Sort
import DiploidAgent.Lib.Dict

/-!
# The wake queue

`runtime/wake_queue.py`.  Every operation re-reads the backing file under the
file lock and writes it back before the lock is released, so each is one step
on the dictionary of events, whichever process calls it.

Payloads hold any JSON values; `sanitize_json_value` only replaces lone
surrogates, which no `String` has.  Times are clock ticks.
-/

namespace DiploidAgent
namespace Wake

/-- The JSON values of a payload. -/
inductive Json where
  | null
  | bool (b : Bool)
  | num (n : Int)
  | str (s : String)
  | arr (xs : List Json)
  | obj (fields : List (String × Json))

/-- `list(value or [])`; `none` is the `TypeError` of a number or `True`. -/
def Json.toList : Json → Option (List Json)
  | .null => some []
  | .bool b => if b then none else some []
  | .num n => if n = 0 then some [] else none
  | .str s => some (s.toList.map fun c => .str (String.singleton c))
  | .arr xs => some xs
  | .obj fields => some (fields.map fun f => .str f.1)

/-- The value is this string. -/
def Json.isStr (s : String) : Json → Bool
  | .str t => s == t
  | _ => false

abbrev Payload := Dict String Json

/-- `WakeEvent` of `models.py`. -/
structure WakeEvent where
  id : String
  chatId : String
  reason : String
  priority : Int
  scheduledAt : Int
  payload : Payload := Dict.empty
  silent : Bool := true
  createdAt : Int := 0
  ready : Bool := false
  attempts : Nat := 0
  leasedUntil : Option Int := none

abbrev Queue := Dict String WakeEvent

namespace WakeEvent

/-- `leased_until is None or leased_until <= now`. -/
def unleased (e : WakeEvent) (now : Int) : Bool :=
  match e.leasedUntil with
  | none => true
  | some t => t ≤ now

/-- What `pop_due` pops: ready, due and unleased. -/
def isDue (e : WakeEvent) (now : Int) : Bool :=
  e.ready && e.scheduledAt ≤ now && e.unleased now

/-- `(-priority, scheduled_at, created_at)` of the first is at most that of the
second. -/
def Before (e e' : WakeEvent) : Prop :=
  e'.priority < e.priority ∨ (e.priority = e'.priority ∧
    (e.scheduledAt < e'.scheduledAt ∨
      (e.scheduledAt = e'.scheduledAt ∧ e.createdAt ≤ e'.createdAt)))

instance (e e' : WakeEvent) : Decidable (Before e e') :=
  inferInstanceAs (Decidable (_ ∨ (_ ∧ (_ ∨ (_ ∧ _)))))

/-- The event with a lease. -/
def lease (e : WakeEvent) (until_ : Int) : WakeEvent :=
  { e with leasedUntil := some until_ }

/-- `if not event.id: event.id = self._unique_id()`. -/
def withId (e : WakeEvent) (freshId : String) : WakeEvent :=
  if e.id = "" then { e with id := freshId } else e

end WakeEvent

/-- `payload.get("tasks")` as the list that `merge_into_ready` makes of it. -/
def tasksOf (p : Payload) : Option (List Json) :=
  match p.get "tasks" with
  | none => some []
  | some v => v.toList

/-- `merged.update({k: v ... if k != "tasks"})`. -/
def updateRest (p : Payload) (fields : List (String × Json)) : Payload :=
  fields.foldl (fun m f => if f.1 = "tasks" then m else m.set f.1 f.2) p

/-- The payload of the target after the merge; `none` is a `TypeError`. -/
def mergePayload (target event : Payload) : Option Payload :=
  match tasksOf target, tasksOf event with
  | some ts, some us =>
      some ((updateRest target event.entries).set "tasks" (.arr (ts ++ us)))
  | _, _ => none

/-- An event `merge_into_ready` may fold another one into. -/
def isCandidate (event : WakeEvent) (key : String) (now : Int) (e : WakeEvent) : Bool :=
  e.chatId == event.chatId && e.reason == event.reason && e.ready && e.unleased now &&
    (e.payload.get "plan_id").any (Json.isStr key)

/-- The order of `created_at`; with more of the library in scope another instance, which
does not compute, would be found. -/
local instance createdAtOrder : Preorder Int := Int.instLinearOrder.toPreorder

/-- `max(candidates, key=lambda e: e.created_at)`, the first of the maxima. -/
def mergeTarget (q : Queue) (event : WakeEvent) (key : String) (now : Int) :
    Option WakeEvent :=
  (q.values.filter (isCandidate event key now)).argmax WakeEvent.createdAt

/-- `enqueue`. -/
def enqueue (q : Queue) (event : WakeEvent) (freshId : String) : Queue :=
  let event := event.withId freshId
  q.set event.id event

/-- `merge_into_ready`; after a `TypeError` nothing is written. -/
def mergeIntoReady (q : Queue) (event : WakeEvent) (key : String) (now : Int) :
    Queue × Bool :=
  match mergeTarget q event key now with
  | none => (q, false)
  | some target =>
      match mergePayload target.payload event.payload with
      | none => (q, false)
      | some payload => (q.set target.id { target with payload := payload }, true)

/-- `ready`. -/
def ready (q : Queue) (eventId : String) (now : Int) : Queue :=
  match q.get eventId with
  | none => q
  | some event =>
      if event.ready then q
      else q.set eventId { event with ready := true, scheduledAt := now, leasedUntil := none }

/-- `pop_due`. -/
def popDue (q : Queue) (now leaseSeconds : Int) : Queue × List WakeEvent :=
  let due := (q.values.filter fun e => e.isDue now).insertionSort WakeEvent.Before
  (q.mapValues fun _ e => if e.isDue now then e.lease (now + leaseSeconds) else e,
    due.map fun e => e.lease (now + leaseSeconds))

/-- `complete`. -/
def complete (q : Queue) (eventId : String) : Queue := q.erase eventId

/-- `fail`. -/
def fail (q : Queue) (eventId : String) (retryAfter now : Int) : Queue :=
  match q.get eventId with
  | none => q
  | some event =>
      q.set eventId { event with
        attempts := event.attempts + 1
        scheduledAt := now + retryAfter
        leasedUntil := none }

/-- `chat_id is None or event.chat_id == chat_id`. -/
def matchesOpt (wanted : Option String) (actual : String) : Bool :=
  wanted.all fun w => actual == w

/-- `pending`. -/
def pending (q : Queue) (chatId : Option String) (now : Option Int) : List WakeEvent :=
  (q.values.filter fun e =>
    matchesOpt chatId e.chatId && now.all fun t => !e.ready || e.scheduledAt ≤ t).insertionSort
      WakeEvent.Before

/-- The events `cancel_event` removes. -/
def cancelsEvent (eventId : String) (chatId : Option String) (now : Int)
    (e : String × WakeEvent) : Bool :=
  e.1 == eventId && e.2.ready && matchesOpt chatId e.2.chatId && e.2.unleased now

/-- The events `cancel` removes. -/
def cancels (chatId reason : Option String) (now : Int) (e : String × WakeEvent) : Bool :=
  e.2.ready && matchesOpt chatId e.2.chatId && matchesOpt reason e.2.reason && e.2.unleased now

/-- The events `cancel_older_than` removes. -/
def cancelsOlder (before : Int) (reason : Option String) (now : Int)
    (e : String × WakeEvent) : Bool :=
  e.2.ready && e.2.createdAt < before && matchesOpt reason e.2.reason && e.2.unleased now

/-- `cancel_event`: the pop of the one matching event. -/
def cancelEvent (q : Queue) (eventId : String) (chatId : Option String) (now : Int) : Queue :=
  match q.get eventId with
  | none => q
  | some event =>
      if !event.ready || !matchesOpt chatId event.chatId || !event.unleased now then q
      else q.erase eventId

/-- `cancel`. -/
def cancel (q : Queue) (chatId reason : Option String) (now : Int) : Queue :=
  q.filter fun e => !cancels chatId reason now e

/-- `cancel_older_than`. -/
def cancelOlderThan (q : Queue) (before : Int) (reason : Option String) (now : Int) : Queue :=
  q.filter fun e => !cancelsOlder before reason now e

section Lookups

variable {q : Queue} {id : String}

/-- Every event is stored under its own id. -/
def Keyed (q : Queue) : Prop :=
  ∀ id e, q.get id = some e → e.id = id

@[simp] theorem lease_id
    (e : WakeEvent) (t : Int) :
    (e.lease t).id = e.id := rfl

theorem get_popDue
    (now leaseSeconds : Int) :
    (popDue q now leaseSeconds).1.get id =
      (q.get id).map fun e => if e.isDue now then e.lease (now + leaseSeconds) else e := by
  simp only [popDue]
  exact Dict.get_mapValues _ _ _

theorem get_complete
    (eventId : String) :
    (complete q eventId).get id = if eventId = id then none else q.get id :=
  Dict.get_erase _ _ _

/-- `fail` touches the event it names only. -/
theorem get_fail
    (eventId : String) (retryAfter now : Int) :
    (fail q eventId retryAfter now).get id =
      if eventId = id then
        (q.get id).map fun e =>
          { e with
            attempts := e.attempts + 1
            scheduledAt := now + retryAfter
            leasedUntil := none }
      else q.get id := by
  unfold fail
  rcases eq_or_ne eventId id with rfl | hne
  · cases hq : q.get eventId with
    | none => simp [hq]
    | some e => simp
  · cases q.get eventId with
    | none => simp [hne]
    | some e => simp [hne, Dict.get_set_of_ne]

/-- `ready` touches an event that was not ready only. -/
theorem get_ready
    (eventId : String) (now : Int) :
    (ready q eventId now).get id =
      if eventId = id then
        (q.get id).map fun e =>
          if e.ready then e
          else { e with ready := true, scheduledAt := now, leasedUntil := none }
      else q.get id := by
  unfold ready
  rcases eq_or_ne eventId id with rfl | hne
  · cases hq : q.get eventId with
    | none => simp [hq]
    | some e =>
        cases hr : e.ready with
        | true => simp [hr, hq]
        | false => simp [hr]
  · rw [if_neg hne]
    cases q.get eventId with
    | none => rfl
    | some e =>
        dsimp only
        split
        · rfl
        · exact Dict.get_set_of_ne _ hne _

theorem get_enqueue
    (event : WakeEvent) (freshId : String) :
    (enqueue q event freshId).get id =
      if (event.withId freshId).id = id then some (event.withId freshId) else q.get id :=
  Dict.get_set _ _ _ _

theorem length_filter_pending
    (p : WakeEvent → Bool) (chatId : String) :
    ((pending q (some chatId) none).filter p).length =
      (q.values.filter fun e => e.chatId == chatId && p e).length := by
  have hperm := (List.perm_insertionSort WakeEvent.Before (q.values.filter fun e =>
    matchesOpt (some chatId) e.chatId && (none : Option Int).all fun t =>
      !e.ready || e.scheduledAt ≤ t)).filter p
  refine hperm.length_eq.trans ?_
  rw [List.filter_filter]
  simp [matchesOpt, Bool.and_comm]

/-- The target of a merge is a stored candidate. -/
theorem mergeTarget_eq_some
    {event target : WakeEvent} {key : String} {now : Int}
    (hkeyed : Keyed q)
    (h : mergeTarget q event key now = some target) :
    q.get target.id = some target ∧ isCandidate event key now target = true := by
  have hmem := List.argmax_mem (Option.mem_def.mpr h)
  obtain ⟨hvalue, hcand⟩ := List.mem_filter.mp hmem
  obtain ⟨k, hk⟩ := Dict.exists_get_of_mem_values hvalue
  rw [hkeyed k target hk]
  exact ⟨hk, hcand⟩

/-- A merge rewrites the payload of its target and nothing else. -/
theorem get_mergeIntoReady
    (q : Queue) (id : String) (event : WakeEvent) (key : String) (now : Int) :
    (mergeIntoReady q event key now).1.get id = q.get id ∨
      ∃ target payload, mergeTarget q event key now = some target ∧ target.id = id ∧
        mergePayload target.payload event.payload = some payload ∧
        (mergeIntoReady q event key now).1.get id = some { target with payload := payload } := by
  unfold mergeIntoReady
  split
  · exact Or.inl rfl
  · rename_i target htarget
    split
    · exact Or.inl rfl
    · rename_i payload hpayload
      rcases eq_or_ne target.id id with rfl | hne
      · exact Or.inr ⟨target, payload, htarget, rfl, hpayload, Dict.get_set_self _ _ _⟩
      · exact Or.inl (Dict.get_set_of_ne _ hne _)

/-- All three cancellations keep or remove; what they remove was ready and
unleased. -/
theorem get_cancelEvent
    (eventId : String) (chatId : Option String) (now : Int) :
    (cancelEvent q eventId chatId now).get id =
      (q.get id).filter fun e => !cancelsEvent eventId chatId now (id, e) := by
  unfold cancelEvent
  rcases eq_or_ne eventId id with rfl | hne
  · cases hq : q.get eventId with
    | none => simp [hq]
    | some e =>
        dsimp only
        rw [Option.filter_some]
        split_ifs with hkeep hcancel hcancel
        · exact hq
        · rw [hq]
          simp only [cancelsEvent] at hcancel
          cases h₁ : e.ready <;> cases h₂ : matchesOpt chatId e.chatId <;>
            cases h₃ : e.unleased now <;> simp_all
        · simp only [cancelsEvent] at hcancel
          cases h₁ : e.ready <;> cases h₂ : matchesOpt chatId e.chatId <;>
            cases h₃ : e.unleased now <;> simp_all
        · exact Dict.get_erase_self _ _
  · have hno : ∀ e : WakeEvent, cancelsEvent eventId chatId now (id, e) = false := by
      intro e
      simp [cancelsEvent, Ne.symm hne]
    have hsame : (q.get id).filter (fun e => !cancelsEvent eventId chatId now (id, e)) =
        q.get id := by
      cases q.get id with
      | none => rfl
      | some e => rw [Option.filter_some, hno]; rfl
    rw [hsame]
    cases q.get eventId with
    | none => rfl
    | some e =>
        dsimp only
        split
        · rfl
        · exact Dict.get_erase_of_ne _ hne

theorem get_cancel
    (chatId reason : Option String) (now : Int) :
    (cancel q chatId reason now).get id =
      (q.get id).filter fun e => !cancels chatId reason now (id, e) :=
  Dict.get_filter _ _ _

theorem get_cancelOlderThan
    (before : Int) (reason : Option String) (now : Int) :
    (cancelOlderThan q before reason now).get id =
      (q.get id).filter fun e => !cancelsOlder before reason now (id, e) :=
  Dict.get_filter _ _ _

end Lookups

end Wake
end DiploidAgent
