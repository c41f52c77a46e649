import Mathlib.Order.Nat
import DiploidAgent.Lib.Runs

/-!
# The prompt-callback pump

`AcpCallbackPump` of `acp_client/callbacks.py`: the bounded queue, the worker of each
transport generation and `stop`, which puts a sentinel, joins the worker for two seconds and
then empties the queue.

A dispatch reads `_cb_thread` and then puts; the two are separate steps, and so are the
operations of `stop`.  A worker that is wedged in a callback outlives the join and returns to
the queue of the next generation, and while there is no `_cb_thread` a dispatch runs its
callback at once, ahead of what is still queued.
-/

namespace DiploidAgent
namespace Acp
namespace CallbackPump

open Runs

section Model

/-- A callback that arrived for a prompt; `generation` counts the starts up to its put. -/
structure Item where
  prompt : Nat
  number : Nat
  generation : Nat
deriving DecidableEq, Repr

/-- Where a worker stands; at `get` it waits for the queue. -/
inductive WorkerPc where
  | get
  | running (item : Item)
  | exited
deriving DecidableEq, Repr

/-- Where `stop` stands; outside of it, `idle`. -/
inductive StopPc where
  | idle
  | sentinel
  | room
  | again
  | join
  | drain
deriving DecidableEq, Repr

/-- The queue (`none` is the sentinel), the workers in the order they were started, the one
in `_cb_thread`, the dispatch that has read it, `stop`, and what has been run. -/
structure State where
  queue : List (Option Item) := []
  workers : List WorkerPc := []
  cbThread : Option Nat := none
  reader : Option (Nat × Nat) := none
  stop : StopPc := .idle
  generation : Nat := 0
  arrived : Nat := 0
  dropped : Nat := 0
  ran : List Item := []
deriving DecidableEq, Repr

/-- The pump of a new transport. -/
def initial : State := {}

/-- `maxsize` of the queue. -/
def maxsize : Nat := 2048

/-- One step of the reader, of a worker, of `stop` or of `start`. -/
inductive Label where
  | start
  | stop
  | sentinel
  | room
  | again
  | joined
  | drain
  | dispatch (prompt : Nat)
  | put
  | get (w : Nat)
  | returned (w : Nat)
deriving DecidableEq, Repr

/-- `put_nowait(None)`; what follows it depends on whether the queue is full. -/
def putSentinel (s : State) (full : StopPc) : State :=
  if s.queue.length < maxsize then { s with queue := s.queue ++ [none], stop := .join }
  else { s with stop := full }

/-- One step; `joined` is the end of the join, with the worker ended or not. -/
def step (s : State) : Label → Option State
  | .start =>
      if s.stop = .idle ∧ s.cbThread = none then
        some { s with
          workers := s.workers ++ [.get]
          cbThread := some s.workers.length
          generation := s.generation + 1 }
      else none
  | .stop =>
      if s.stop = .idle then
        match s.cbThread with
        | none => some s
        | some _ => some { s with cbThread := none, stop := .sentinel }
      else none
  | .sentinel => if s.stop = .sentinel then some (putSentinel s .room) else none
  | .room => if s.stop = .room then some { s with queue := s.queue.tail, stop := .again } else none
  | .again => if s.stop = .again then some (putSentinel s .join) else none
  | .joined => if s.stop = .join then some { s with stop := .drain } else none
  | .drain =>
      if s.stop = .drain then
        match s.queue with
        | [] => some { s with stop := .idle }
        | _ :: queue => some { s with queue := queue }
      else none
  | .dispatch prompt =>
      match s.reader with
      | some _ => none
      | none =>
          match s.cbThread with
          | none => some { s with
              arrived := s.arrived + 1
              ran := s.ran ++ [⟨prompt, s.arrived, s.generation⟩] }
          | some _ => some { s with
              arrived := s.arrived + 1
              reader := some (prompt, s.arrived) }
  | .put =>
      match s.reader with
      | none => none
      | some (prompt, number) =>
          if s.queue.length < maxsize then
            some { s with
              queue := s.queue ++ [some ⟨prompt, number, s.generation⟩]
              reader := none }
          else some { s with dropped := s.dropped + 1, reader := none }
  | .get w =>
      match s.workers[w]?, s.queue with
      | some .get, none :: queue =>
          some { s with queue := queue, workers := s.workers.set w .exited }
      | some .get, some item :: queue =>
          some { s with
            queue := queue
            workers := s.workers.set w (.running item)
            ran := s.ran ++ [item] }
      | _, _ => none
  | .returned w =>
      match s.workers[w]? with
      | some (.running _) => some { s with workers := s.workers.set w .get }
      | _ => none

end Model

section Properties

/-- A worker is there, waiting for an item or running one. -/
def Present (workers : List WorkerPc) (w : Nat) : Prop :=
  ∃ pc, workers[w]? = some pc ∧ pc ≠ .exited

/-- At most one worker is there to take items. -/
def OneWorker (workers : List WorkerPc) : Prop :=
  ∀ v w, Present workers v → Present workers w → v = w

/-- The callbacks of one prompt were begun in the order in which they arrived, each once. -/
def InOrder (s : State) : Prop :=
  s.ran.Pairwise fun a b => a.prompt = b.prompt → a.number < b.number

/-- Every queued callback that runs was put in the present generation. -/
def OwnGeneration (s : State) : Prop :=
  ∀ (w : Nat) (item : Item), s.workers[w]? = some (.running item) → item.generation = s.generation

/-- A worker is started when every earlier one has exited and no callback is queued, and no
callback is run at once while a worker is there and one of its prompt is queued. -/
def Drained (s : State) : Label → Prop
  | .start => (∀ w, ¬ Present s.workers w) ∧ ∀ item, some item ∉ s.queue
  | .dispatch prompt => s.cbThread = none → ∀ w, Present s.workers w →
      ∀ item, some item ∈ s.queue → item.prompt ≠ prompt
  | _ => True

/-- The numbers of the queued callbacks ascend. -/
def Ascending (queue : List (Option Item)) : Prop :=
  queue.Pairwise fun a b => ∀ i, a = some i → ∀ j, b = some j → i.number < j.number

/-- What every step keeps. -/
structure Inv (s : State) : Prop where
  workers : OneWorker s.workers
  order : InOrder s
  running : OwnGeneration s
  generation : ∀ item, some item ∈ s.queue → item.generation = s.generation
  ascending : Ascending s.queue
  queued : ∀ item, some item ∈ s.queue → item.number < s.arrived
  begun : ∀ item, item ∈ s.ran → item.number < s.arrived
  behind : ∀ w, Present s.workers w → ∀ item, some item ∈ s.queue →
    ∀ earlier, earlier ∈ s.ran → earlier.prompt = item.prompt → earlier.number < item.number
  pending : ∀ prompt number, s.reader = some (prompt, number) → number < s.arrived ∧
    (∀ item, some item ∈ s.queue → item.number < number) ∧
    ∀ item, item ∈ s.ran → item.number < number

end Properties

section Lists

variable {workers : List WorkerPc} {queue : List (Option Item)} {w : Nat} {pc pc' : WorkerPc}

theorem present_set
    (hw : Present workers w) {v : Nat} (h : Present (workers.set w pc) v) :
    Present workers v := by
  obtain ⟨pc', hv, hpc'⟩ := h
  rw [List.getElem?_set] at hv
  split_ifs at hv with hwv
  · exact hwv ▸ hw
  · exact ⟨pc', hv, hpc'⟩

/-- A worker that moves on is still the only one. -/
theorem oneWorker_set
    (h : OneWorker workers) (hw : Present workers w) (pc : WorkerPc) :
    OneWorker (workers.set w pc) :=
  fun _ _ hu hv => h _ _ (present_set hw hu) (present_set hw hv)

theorem not_present_set_exited
    (h : OneWorker workers) (hw : Present workers w) (v : Nat) :
    ¬ Present (workers.set w .exited) v := by
  intro hv
  have hvw := h v w (present_set hw hv) hw
  obtain ⟨pc, hget, hpc⟩ := hv
  rw [hvw, List.getElem?_set, if_pos rfl] at hget
  split_ifs at hget
  exact hpc (Option.some.inj hget).symm

/-- The worker that is started is the only one. -/
theorem present_append
    (h : ∀ v, ¬ Present workers v) {v : Nat} (hv : Present (workers ++ [.get]) v) :
    v = workers.length := by
  obtain ⟨pc, hget, hpc⟩ := hv
  rw [List.getElem?_append] at hget
  split_ifs at hget with hlt
  · exact absurd ⟨pc, hget, hpc⟩ (h v)
  · rw [List.getElem?_singleton] at hget
    split_ifs at hget
    omega

theorem running_set
    {v : Nat} {item : Item} (h : (workers.set w pc)[v]? = some (WorkerPc.running item)) :
    pc = .running item ∨ workers[v]? = some (WorkerPc.running item) := by
  rw [List.getElem?_set] at h
  split_ifs at h
  · exact Or.inl (Option.some.inj h)
  · exact Or.inr h

theorem ascending_tail
    (h : Ascending queue) :
    Ascending queue.tail :=
  h.sublist (List.tail_sublist queue)

theorem ascending_sentinel
    (h : Ascending queue) :
    Ascending (queue ++ [none]) := by
  refine List.pairwise_append.mpr ⟨h, List.pairwise_singleton _ _, ?_⟩
  intro a _ b hb i _ j hj
  obtain rfl := List.mem_singleton.mp hb
  cases hj

theorem ascending_item
    {item : Item} (h : Ascending queue)
    (hlast : ∀ i, some i ∈ queue → i.number < item.number) :
    Ascending (queue ++ [some item]) := by
  refine List.pairwise_append.mpr ⟨h, List.pairwise_singleton _ _, ?_⟩
  intro a ha b hb i hi j hj
  obtain rfl := List.mem_singleton.mp hb
  obtain rfl := Option.some.inj hj
  exact hlast i (hi ▸ ha)

end Lists

section Steps

variable {s s' : State} {w : Nat} {item : Item}

/-- A queue that lost callbacks, or was given a sentinel. -/
theorem Inv.setQueue
    (h : Inv s) {queue : List (Option Item)}
    (hsub : ∀ item, some item ∈ queue → some item ∈ s.queue)
    (hascending : Ascending queue) (cbThread : Option Nat) (stop : StopPc) :
    Inv { s with queue := queue, cbThread := cbThread, stop := stop } where
  workers := h.workers
  order := h.order
  running := h.running
  generation := fun item hitem => h.generation item (hsub item hitem)
  ascending := hascending
  queued := fun item hitem => h.queued item (hsub item hitem)
  begun := h.begun
  behind := fun w hw item hitem => h.behind w hw item (hsub item hitem)
  pending := fun prompt number hreader =>
    ⟨(h.pending prompt number hreader).1,
      fun item hitem => (h.pending prompt number hreader).2.1 item (hsub item hitem),
      (h.pending prompt number hreader).2.2⟩

theorem inv_putSentinel
    (h : Inv s) (full : StopPc) :
    Inv (putSentinel s full) := by
  unfold putSentinel
  split_ifs
  · refine h.setQueue (fun item hitem => ?_) (ascending_sentinel h.ascending) s.cbThread .join
    simpa using hitem
  · exact h.setQueue (fun _ hitem => hitem) h.ascending s.cbThread full

theorem inv_start
    (h : Inv s)
    (hexited : ∀ w, ¬ Present s.workers w)
    (hqueue : ∀ item, some item ∉ s.queue) :
    Inv { s with
      workers := s.workers ++ [.get]
      cbThread := some s.workers.length
      generation := s.generation + 1 } where
  workers := fun u v hu hv => (present_append hexited hu).trans (present_append hexited hv).symm
  order := h.order
  running := fun v item hv => by
    have hpresent : Present (s.workers ++ [.get]) v := ⟨_, hv, by simp⟩
    have hlast := present_append hexited hpresent
    simp [hlast] at hv
  generation := fun item hitem => absurd hitem (hqueue item)
  ascending := h.ascending
  queued := h.queued
  begun := h.begun
  behind := fun _ _ item hitem => absurd hitem (hqueue item)
  pending := h.pending

/-- A callback that is run at once. -/
theorem inv_inline
    {prompt : Nat} (h : Inv s)
    (hreader : s.reader = none)
    (hother : ∀ w, Present s.workers w → ∀ item, some item ∈ s.queue → item.prompt ≠ prompt) :
    Inv { s with
      arrived := s.arrived + 1
      ran := s.ran ++ [⟨prompt, s.arrived, s.generation⟩] } where
  workers := h.workers
  order := by
    refine List.pairwise_append.mpr ⟨h.order, List.pairwise_singleton _ _, ?_⟩
    intro a ha b hb _
    obtain rfl := List.mem_singleton.mp hb
    exact h.begun a ha
  running := h.running
  generation := h.generation
  ascending := h.ascending
  queued := fun item hitem => (h.queued item hitem).trans (Nat.lt_succ_self s.arrived)
  begun := fun item hitem => by
    rcases List.mem_append.mp hitem with hold | hnew
    · exact (h.begun item hold).trans (Nat.lt_succ_self s.arrived)
    · obtain rfl := List.mem_singleton.mp hnew
      exact Nat.lt_add_one _
  behind := fun w hw item hitem earlier hearlier hsame => by
    rcases List.mem_append.mp hearlier with hold | hnew
    · exact h.behind w hw item hitem earlier hold hsame
    · obtain rfl := List.mem_singleton.mp hnew
      exact absurd hsame.symm (hother w hw item hitem)
  pending := fun prompt number hpending => by
    rw [hreader] at hpending
    cases hpending

/-- A dispatch that has found a worker. -/
theorem inv_dispatch
    (h : Inv s) (prompt : Nat) :
    Inv { s with arrived := s.arrived + 1, reader := some (prompt, s.arrived) } where
  workers := h.workers
  order := h.order
  running := h.running
  generation := h.generation
  ascending := h.ascending
  queued := fun item hitem => (h.queued item hitem).trans (Nat.lt_succ_self s.arrived)
  begun := fun item hitem => (h.begun item hitem).trans (Nat.lt_succ_self s.arrived)
  behind := h.behind
  pending := fun prompt' number hpending => by
    obtain ⟨rfl, rfl⟩ := Prod.mk.inj (Option.some.inj hpending)
    exact ⟨Nat.lt_add_one _, h.queued, h.begun⟩

theorem inv_put
    {prompt number : Nat} (h : Inv s)
    (hreader : s.reader = some (prompt, number)) :
    Inv { s with
      queue := s.queue ++ [some ⟨prompt, number, s.generation⟩]
      reader := none } := by
  obtain ⟨harrived, hqueued, hbegun⟩ := h.pending prompt number hreader
  have hmem : ∀ item, some item ∈ s.queue ++ [some ⟨prompt, number, s.generation⟩] →
      some item ∈ s.queue ∨ item = ⟨prompt, number, s.generation⟩ := by
    intro item hitem
    rcases List.mem_append.mp hitem with hold | hnew
    · exact Or.inl hold
    · exact Or.inr (Option.some.inj (List.mem_singleton.mp hnew))
  refine ⟨h.workers, h.order, h.running, ?_, ?_, ?_, h.begun, ?_, ?_⟩
  · intro item hitem
    rcases hmem item hitem with hold | rfl
    · exact h.generation item hold
    · rfl
  · exact ascending_item h.ascending hqueued
  · intro item hitem
    rcases hmem item hitem with hold | rfl
    · exact h.queued item hold
    · exact harrived
  · intro w hw item hitem earlier hearlier hsame
    rcases hmem item hitem with hold | rfl
    · exact h.behind w hw item hold earlier hearlier hsame
    · exact hbegun earlier hearlier
  · intro prompt' number' hpending
    cases hpending

/-- A worker begins the first callback of the queue. -/
theorem inv_take
    {queue : List (Option Item)} (h : Inv s)
    (hw : s.workers[w]? = some .get)
    (hqueue : s.queue = some item :: queue) :
    Inv { s with
      queue := queue
      workers := s.workers.set w (.running item)
      ran := s.ran ++ [item] } := by
  have hpresent : Present s.workers w := ⟨_, hw, by simp⟩
  have hhead : some item ∈ s.queue := by
    rw [hqueue]
    exact List.mem_cons_self
  have hrest : ∀ i, some i ∈ queue → some i ∈ s.queue := by
    intro i hi
    rw [hqueue]
    exact List.mem_cons_of_mem _ hi
  have hascending := h.ascending
  rw [hqueue, Ascending, List.pairwise_cons] at hascending
  have hlater : ∀ i, some i ∈ queue → item.number < i.number :=
    fun i hi => hascending.1 (some i) hi item rfl i rfl
  refine ⟨oneWorker_set h.workers hpresent _, ?_, ?_, ?_, hascending.2, ?_, ?_, ?_, ?_⟩
  · refine List.pairwise_append.mpr ⟨h.order, List.pairwise_singleton _ _, ?_⟩
    intro a ha b hb hsame
    obtain rfl := List.mem_singleton.mp hb
    exact h.behind w hpresent _ hhead a ha hsame
  · intro v i hv
    rcases running_set hv with hsame | hold
    · obtain rfl : item = i := by simpa using hsame
      exact h.generation item hhead
    · exact h.running v i hold
  · exact fun i hi => h.generation i (hrest i hi)
  · exact fun i hi => h.queued i (hrest i hi)
  · intro i hi
    rcases List.mem_append.mp hi with hold | hnew
    · exact h.begun i hold
    · obtain rfl := List.mem_singleton.mp hnew
      exact h.queued _ hhead
  · intro v _ i hi earlier hearlier hsame
    rcases List.mem_append.mp hearlier with hold | hnew
    · exact h.behind w hpresent i (hrest i hi) earlier hold hsame
    · obtain rfl := List.mem_singleton.mp hnew
      exact hlater i hi
  · intro prompt number hreader
    obtain ⟨harrived, hqueued, hbegun⟩ := h.pending prompt number hreader
    refine ⟨harrived, fun i hi => hqueued i (hrest i hi), fun i hi => ?_⟩
    rcases List.mem_append.mp hi with hold | hnew
    · exact hbegun i hold
    · obtain rfl := List.mem_singleton.mp hnew
      exact hqueued _ hhead

/-- A worker comes back from its callback, or ends. -/
theorem Inv.setWorker
    (h : Inv s) (hpresent : Present s.workers w) {pc : WorkerPc}
    (hpc : ∀ item, pc ≠ .running item) :
    Inv { s with workers := s.workers.set w pc } where
  workers := oneWorker_set h.workers hpresent pc
  order := h.order
  running := fun v item hv => by
    rcases running_set hv with hsame | hold
    · exact absurd hsame (hpc item)
    · exact h.running v item hold
  generation := h.generation
  ascending := h.ascending
  queued := h.queued
  begun := h.begun
  behind := fun _ hv => h.behind _ (present_set hpresent hv)
  pending := h.pending

/-- Every step that meets the condition keeps the invariant. -/
theorem inv_step
    (h : Inv s)
    {a : Label}
    (hcond : Drained s a)
    (hstep : step s a = some s') :
    Inv s' := by
  cases a with
  | start =>
      rw [step] at hstep
      split_ifs at hstep
      obtain rfl := Option.some.inj hstep
      exact inv_start h hcond.1 hcond.2
  | stop =>
      rw [step] at hstep
      split_ifs at hstep
      split at hstep
      · obtain rfl := Option.some.inj hstep
        exact h
      · obtain rfl := Option.some.inj hstep
        exact h.setQueue (fun _ hitem => hitem) h.ascending none .sentinel
  | sentinel =>
      rw [step] at hstep
      split_ifs at hstep
      obtain rfl := Option.some.inj hstep
      exact inv_putSentinel h .room
  | room =>
      rw [step] at hstep
      split_ifs at hstep
      obtain rfl := Option.some.inj hstep
      exact h.setQueue (fun _ hitem => List.mem_of_mem_tail hitem) (ascending_tail h.ascending)
        s.cbThread .again
  | again =>
      rw [step] at hstep
      split_ifs at hstep
      obtain rfl := Option.some.inj hstep
      exact inv_putSentinel h .join
  | joined =>
      rw [step] at hstep
      split_ifs at hstep
      obtain rfl := Option.some.inj hstep
      exact h.setQueue (fun _ hitem => hitem) h.ascending s.cbThread .drain
  | drain =>
      rw [step] at hstep
      split_ifs at hstep
      split at hstep
      · obtain rfl := Option.some.inj hstep
        exact h.setQueue (fun _ hitem => hitem) h.ascending s.cbThread .idle
      · rename_i first queue hqueue
        obtain rfl := Option.some.inj hstep
        have hascending := ascending_tail h.ascending
        rw [hqueue] at hascending
        refine h.setQueue (fun item hitem => ?_) hascending s.cbThread s.stop
        rw [hqueue]
        exact List.mem_cons_of_mem _ hitem
  | dispatch prompt =>
      rw [step] at hstep
      split at hstep
      · cases hstep
      · rename_i hreader
        split at hstep
        · rename_i hnone
          obtain rfl := Option.some.inj hstep
          exact inv_inline h hreader (hcond hnone)
        · obtain rfl := Option.some.inj hstep
          exact inv_dispatch h prompt
  | put =>
      rw [step] at hstep
      split at hstep
      · cases hstep
      · rename_i prompt number hreader
        split_ifs at hstep
        · obtain rfl := Option.some.inj hstep
          exact inv_put h hreader
        · obtain rfl := Option.some.inj hstep
          exact ⟨h.workers, h.order, h.running, h.generation, h.ascending, h.queued, h.begun,
            h.behind, fun _ _ hpending => by cases hpending⟩
  | get w =>
      rw [step] at hstep
      split at hstep
      · rename_i queue hw hqueue
        obtain rfl := Option.some.inj hstep
        have hpresent : Present s.workers w := ⟨_, hw, by simp⟩
        have hascending := ascending_tail h.ascending
        rw [hqueue] at hascending
        have hrest : ∀ item, some item ∈ queue → some item ∈ s.queue := by
          intro item hitem
          rw [hqueue]
          exact List.mem_cons_of_mem _ hitem
        exact (h.setQueue hrest hascending s.cbThread s.stop).setWorker hpresent
          fun _ hpc => by cases hpc
      · rename_i item queue hw hqueue
        obtain rfl := Option.some.inj hstep
        exact inv_take h hw hqueue
      · cases hstep
  | returned w =>
      rw [step] at hstep
      split at hstep
      · rename_i item hw
        obtain rfl := Option.some.inj hstep
        exact h.setWorker ⟨_, hw, by simp⟩ fun _ hpc => by cases hpc
      · cases hstep

theorem inv_initial : Inv initial := by
  constructor
  case workers => exact fun v w hv => by simp [initial, Present] at hv
  case order => exact List.Pairwise.nil
  case running => exact fun w item hw => by simp [initial] at hw
  case generation => exact fun item hitem => by simp [initial] at hitem
  case ascending => exact List.Pairwise.nil
  case queued => exact fun item hitem => by simp [initial] at hitem
  case begun => exact fun item hitem => by simp [initial] at hitem
  case behind => exact fun w hw => by simp [initial, Present] at hw
  case pending => exact fun prompt number hreader => by simp [initial] at hreader

/-- **Callbacks run in order and within their generation.**  In a run in which workers are
started only when the earlier ones have exited and left no callback in the queue, and in which
no callback is run at once ahead of a queued one of its prompt, one worker takes items, the
callbacks of a prompt begin in the order in which they arrived, each once, and those that run
belong to the present generation. -/
theorem callbacks_in_order
    (h : Reach step Drained initial s) :
    OneWorker s.workers ∧ InOrder s ∧ OwnGeneration s := by
  have hinv : Inv s := by
    refine h.invariant inv_initial ?_
    intro t a t' ht hcond hstep
    exact inv_step ht hcond hstep
  exact ⟨hinv.workers, hinv.order, hinv.running⟩

end Steps

section Runs

/-- A transport with two callbacks, its end, and the next one with a third. -/
def twoGenerations : List Label :=
  [.start, .dispatch 0, .put, .dispatch 0, .put, .get 0, .stop, .sentinel, .returned 0, .get 0,
    .returned 0, .get 0, .joined, .drain, .start, .dispatch 1, .put, .get 1]

/-- The condition as a check. -/
def drainedCheck (s : State) : Label → Bool
  | .start => (s.workers.all fun pc => pc == .exited) && s.queue.all Option.isNone
  | .dispatch prompt => s.cbThread.isSome || (s.workers.all fun pc => pc == .exited) ||
      s.queue.all fun item => item.all fun item => item.prompt != prompt
  | _ => true

theorem drained_of_check
    (s : State) (a : Label) (h : drainedCheck s a = true) :
    Drained s a := by
  have hexited : (s.workers.all fun pc => pc == .exited) = true → ∀ w, ¬ Present s.workers w := by
    rintro hall w ⟨pc, hw, hpc⟩
    exact hpc (by simpa using List.all_eq_true.mp hall pc (List.mem_of_getElem? hw))
  cases a with
  | start =>
      rw [drainedCheck, Bool.and_eq_true] at h
      refine ⟨hexited h.1, fun item hitem => ?_⟩
      simpa using List.all_eq_true.mp h.2 _ hitem
  | dispatch prompt =>
      intro hnone w hw item hitem
      rw [drainedCheck, hnone, Bool.or_eq_true, Bool.or_eq_true] at h
      rcases h with (h | h) | h
      · cases h
      · exact absurd hw (hexited h w)
      · simpa using List.all_eq_true.mp h _ hitem
  | _ => trivial

theorem callbacks_in_order_twoGenerations :
    ∃ s, run step initial twoGenerations = some s ∧
      OneWorker s.workers ∧ InOrder s ∧ OwnGeneration s := by
  have hgoes : (run step initial twoGenerations).isSome = true := by
    decide +kernel
  have hcheck : checkRun step drainedCheck initial twoGenerations = true := by
    decide +kernel
  have hrun := run_eq_getD hgoes
  exact ⟨_, hrun, callbacks_in_order
    (reach_of_run hrun (guarded_of_checkRun drainedCheck drained_of_check hcheck))⟩

/-- The first worker is wedged in a callback when the join times out. -/
def wedged : List Label :=
  [.start, .dispatch 0, .put, .get 0, .stop, .sentinel, .joined, .drain, .drain, .start]

/-- The callback of the first generation still runs in the second, beside its worker. -/
theorem callbacks_outlive_generation :
    ¬ ∀ s, Reach step (fun _ _ => True) initial s →
      OneWorker s.workers ∧ InOrder s ∧ OwnGeneration s := by
  intro h
  have hgoes : (run step initial wedged).isSome = true := by
    decide +kernel
  have hown := (h _ (reach_run hgoes)).2.2 0 ⟨0, 0, 1⟩ (by decide +kernel)
  exact absurd hown (by decide +kernel)

end Runs

end CallbackPump
end Acp
end DiploidAgent
