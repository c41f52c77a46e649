import DiploidAgent.Cron.TurnBudget
import Mathlib.Algebra.Order.Group.Abs

/-!
# The spacing of delivered turns

`_deliver_turn` schedules a wake behind the last pending fire inside the interval from now.
The fires past the interval are not looked at, and the wake may land close to one of them.

A wake keeps its distance to every pending fire exactly when the last fire inside the
interval has no other one behind it within twice the interval (`wake_spaced_iff`).
-/

namespace DiploidAgent
namespace Cron
namespace WakeSpacing

open Wake TurnBudget

section Fires

/-- When an event fires: an overdue one fires now. -/
def fireAt (now : Int) (e : WakeEvent) : Int := max e.scheduledAt now

/-- The event fires inside the interval from now. -/
def Near (now interval : Int) (e : WakeEvent) : Prop := fireAt now e < now + interval

/-- The last of the pending fires inside the interval. -/
structure LastNear (pending : List WakeEvent) (now interval : Int) (e : WakeEvent) : Prop where
  mem : e ∈ pending
  near : Near now interval e
  last : ∀ e' ∈ pending, Near now interval e' → fireAt now e' ≤ fireAt now e

/-- What is claimed of the wake: the interval to every pending fire, and no delay when
none of them is inside the interval. -/
structure Spaced (pending : List WakeEvent) (now interval : Int) (w : WakeEvent) : Prop where
  apart : ∀ e ∈ pending, interval ≤ |w.scheduledAt - fireAt now e|
  prompt : (∀ e ∈ pending, ¬ Near now interval e) → w.scheduledAt = now

/-- The condition: behind the last fire inside the interval there is room for one more. -/
def RoomBehind (pending : List WakeEvent) (now interval : Int) : Prop :=
  ∀ l, LastNear pending now interval l →
    ∀ e ∈ pending, ¬ Near now interval e → fireAt now l + 2 * interval ≤ fireAt now e

variable {pending : List WakeEvent} {now interval : Int} {e : WakeEvent}

theorem near_iff
    (hpos : 0 < interval) :
    Near now interval e ↔ e.scheduledAt < now + interval := by
  unfold Near fireAt
  omega

/-- The running maximum is one of the numbers, and no number is larger. -/
theorem foldl_max_spec
    (ns : List Int) (n : Int) :
    ns.foldl max n ∈ n :: ns ∧ ∀ m ∈ n :: ns, m ≤ ns.foldl max n := by
  induction ns generalizing n with
  | nil => simp
  | cons k ns ih =>
      obtain ⟨hmem, hle⟩ := ih (max n k)
      rw [List.foldl_cons]
      refine ⟨?_, fun m hm => ?_⟩
      · rcases List.mem_cons.mp hmem with heq | hin
        · rw [heq]
          rcases max_choice n k with h | h <;> simp [h]
        · exact List.mem_cons_of_mem _ (List.mem_cons_of_mem _ hin)
      · have hmax : max n k ≤ ns.foldl max (max n k) := hle _ List.mem_cons_self
        rcases List.mem_cons.mp hm with rfl | hm
        · omega
        · rcases List.mem_cons.mp hm with rfl | hm
          · omega
          · exact hle m (List.mem_cons_of_mem _ hm)

/-- Without a fire inside the interval the wake is not delayed. -/
theorem turnScheduledAt_of_clear
    (hpos : 0 < interval) (hclear : ∀ e ∈ pending, ¬ Near now interval e) :
    turnScheduledAt pending now interval = now := by
  have hnone : (pending.filter fun e => e.scheduledAt < now + interval) = [] := by
    rw [List.filter_eq_nil_iff]
    intro e he
    rw [decide_eq_true_eq, ← near_iff hpos]
    exact hclear e he
  rw [turnScheduledAt, hnone]
  rfl

/-- Otherwise the wake is put behind the last of them. -/
theorem turnScheduledAt_of_near
    (hpos : 0 < interval) (he : e ∈ pending) (hnear : Near now interval e) :
    ∃ l, LastNear pending now interval l ∧
      turnScheduledAt pending now interval = fireAt now l + interval := by
  have hin : ∀ e', e' ∈ pending.filter (fun e => e.scheduledAt < now + interval) ↔
      e' ∈ pending ∧ Near now interval e' := by
    intro e'
    rw [List.mem_filter, decide_eq_true_eq, near_iff hpos]
  unfold turnScheduledAt
  cases hfires : (pending.filter fun e => e.scheduledAt < now + interval).map
      fun e => max e.scheduledAt now with
  | nil =>
      rw [List.map_eq_nil_iff] at hfires
      have hmem := (hin e).mpr ⟨he, hnear⟩
      rw [hfires] at hmem
      cases hmem
  | cons first rest =>
      obtain ⟨hmem, hle⟩ := foldl_max_spec rest first
      rw [← hfires, List.mem_map] at hmem
      obtain ⟨l, hl, hfire⟩ := hmem
      obtain ⟨hpending, hlnear⟩ := (hin l).mp hl
      refine ⟨l, ⟨hpending, hlnear, fun e' he' hnear' => ?_⟩, ?_⟩
      · have hlast := hle (fireAt now e') (hfires ▸ List.mem_map.mpr
          ⟨e', (hin e').mpr ⟨he', hnear'⟩, rfl⟩)
        exact hlast.trans_eq hfire.symm
      · exact congrArg (· + interval) hfire.symm

end Fires

section Results

variable {pending : List WakeEvent} {now interval : Int} {w : WakeEvent}

theorem spaced_iff_room
    (hpos : 0 < interval) (hw : w.scheduledAt = turnScheduledAt pending now interval) :
    Spaced pending now interval w ↔ RoomBehind pending now interval := by
  constructor
  · intro hspaced l hl e he hfar
    obtain ⟨l', hl', hat⟩ := turnScheduledAt_of_near hpos hl.mem hl.near
    have hsame : fireAt now l' = fireAt now l :=
      le_antisymm (hl.last l' hl'.mem hl'.near) (hl'.last l hl.mem hl.near)
    have hapart := hspaced.apart e he
    rw [hw, hat, hsame] at hapart
    have hnear : fireAt now l < now + interval := hl.near
    have hbehind : now + interval ≤ fireAt now e := not_lt.mp hfar
    rcases abs_cases (fireAt now l + interval - fireAt now e) with h | h <;> omega
  · intro hroom
    by_cases hsome : ∃ e ∈ pending, Near now interval e
    · obtain ⟨e₀, he₀, hnear₀⟩ := hsome
      obtain ⟨l, hl, hat⟩ := turnScheduledAt_of_near hpos he₀ hnear₀
      refine ⟨fun e he => ?_, fun hclear => absurd hnear₀ (hclear e₀ he₀)⟩
      rw [hw, hat]
      by_cases hnear : Near now interval e
      · have hle := hl.last e he hnear
        exact (by omega : interval ≤ fireAt now l + interval - fireAt now e).trans (le_abs_self _)
      · have hbehind := hroom l hl e he hnear
        exact (by omega : interval ≤ -(fireAt now l + interval - fireAt now e)).trans
          (neg_le_abs _)
    · have hclear : ∀ e ∈ pending, ¬ Near now interval e := fun e he h => hsome ⟨e, he, h⟩
      have hnow := hw.trans (turnScheduledAt_of_clear hpos hclear)
      refine ⟨fun e he => ?_, fun _ => hnow⟩
      have hbehind : now + interval ≤ fireAt now e := not_lt.mp (hclear e he)
      rw [hnow]
      exact (by omega : interval ≤ -(now - fireAt now e)).trans (neg_le_abs _)

/-- **Wake spacing.**  The wake of a delivery that passes its gates keeps the interval to
every pending fire of its chat, and is not delayed without need, exactly when there is room
behind the last fire inside the interval. -/
theorem wake_spaced_iff
    (cfg : TurnConfig) (rows : States Int) (q : Queue) (d : Delivery) (today : String)
    (now : Int) (freshId : String)
    (hpos : 0 < cfg.selfWakeMinIntervalSeconds)
    (hcap : dailyCapReached cfg rows q d.chatId today = false)
    (hbudget : wakeBudgetReached cfg q d.chatId = false) :
    (∃ w, (deliverTurn cfg rows q d today now freshId).1.get freshId = some w ∧
        Spaced (budgetPending q d.chatId) now cfg.selfWakeMinIntervalSeconds w) ↔
      RoomBehind (budgetPending q d.chatId) now cfg.selfWakeMinIntervalSeconds := by
  have hqueue : (deliverTurn cfg rows q d today now freshId).1.get freshId =
      some ((turnWake d (turnScheduledAt (budgetPending q d.chatId) now
        cfg.selfWakeMinIntervalSeconds) now).withId freshId) := by
    simp only [deliverTurn, hcap, hbudget, Bool.false_eq_true, if_false]
    exact Dict.get_set_self _ _ _
  rw [hqueue]
  constructor
  · rintro ⟨w, hw, hspaced⟩
    obtain rfl := Option.some.inj hw
    exact (spaced_iff_room hpos rfl).mp hspaced
  · intro hroom
    exact ⟨_, rfl, (spaced_iff_room hpos rfl).mpr hroom⟩

/-- A wake that an agent set for itself. -/
def selfWake (id : String) (scheduledAt : Int) : WakeEvent where
  id := id
  chatId := "chat-1"
  reason := "self_wake"
  priority := 1
  scheduledAt := scheduledAt
  ready := true

/-- One wake inside the interval of 300, and one past it. -/
def twoWakes : Queue :=
  enqueue (enqueue Dict.empty (selfWake "wake-1" 100) "") (selfWake "wake-2" 500) ""

def tidy : Delivery := ⟨"tidy", "chat-1", some "ok", "done"⟩

/-- The delivery is deferred to 400, in front of the wake at 500. -/
theorem deferred_next_to_a_fire :
    ¬ ∀ (cfg : TurnConfig) (rows : States Int) (q : Queue) (d : Delivery) (today : String)
        (now : Int) (freshId : String), 0 < cfg.selfWakeMinIntervalSeconds →
      dailyCapReached cfg rows q d.chatId today = false →
      wakeBudgetReached cfg q d.chatId = false →
      ∃ w, (deliverTurn cfg rows q d today now freshId).1.get freshId = some w ∧
        Spaced (budgetPending q d.chatId) now cfg.selfWakeMinIntervalSeconds w := by
  intro hall
  obtain ⟨w, hw, hspaced⟩ := hall onceADay Dict.empty twoWakes tidy "2026-03-01" 0 "wake-3"
    (by decide) (by decide) (by decide)
  have hat : w.scheduledAt = 400 :=
    Option.some.inj ((congrArg (Option.map WakeEvent.scheduledAt) hw).symm.trans (by decide))
  have hmem : selfWake "wake-2" 500 ∈ budgetPending twoWakes "chat-1" :=
    List.mem_of_getElem? (show (budgetPending twoWakes "chat-1")[1]? = _ from rfl)
  have hapart := hspaced.apart _ hmem
  rw [hat] at hapart
  exact absurd hapart (by decide)

/-- A wake past twice the interval leaves room. -/
theorem wake_spaced_behind_one :
    ∃ w, (deliverTurn onceADay Dict.empty
        (enqueue Dict.empty (selfWake "wake-1" 100) "") tidy "2026-03-01" 0 "wake-3").1.get
          "wake-3" = some w ∧
      Spaced (budgetPending (enqueue Dict.empty (selfWake "wake-1" 100) "") "chat-1") 0 300 w := by
  refine (wake_spaced_iff onceADay Dict.empty _ tidy "2026-03-01" 0 "wake-3" (by decide)
    (by decide) (by decide)).mpr ?_
  have hall : budgetPending (enqueue Dict.empty (selfWake "wake-1" 100) "") "chat-1" =
      [selfWake "wake-1" 100] := rfl
  intro l _ e he hfar
  rw [show (tidy.chatId) = "chat-1" from rfl, hall, List.mem_singleton] at he
  rw [he] at hfar
  exact absurd (show Near 0 300 (selfWake "wake-1" 100) by unfold Near; decide) hfar

end Results

end WakeSpacing
end Cron
end DiploidAgent
