import DiploidAgent.Lib.Runs
import DiploidAgent.Lib.Threads
import Mathlib.Data.List.Nodup

/-!
# The event bus

Any thread posts, subscribes, starts and stops; every start that takes effect creates
a dispatcher thread, and one that outlives a stop may run beside its successor.  The
posts are numbered in the order they enter the queue.  A post is handed out at most
once, to the subscribers present when it was, each of them called once and in order
(`handed_out_once`); a bus started once hands the posts out in order and loses none
(`in_order`).
-/

namespace DiploidAgent
namespace EventBus

open Runs

variable {π κ : Type}

structure Event (π : Type) where
  id : String
  type : String
  payload : π

/-- Where a thread is in `_dispatch_loop`; `number` is the post it works on. -/
inductive Phase (π κ : Type) where
  | checking
  | waiting
  | taken (number : Nat) (event : Event π)
  | accepted (number : Nat) (event : Event π)
  | calling (number : Nat) (event : Event π) (callbacks : List κ)
  | ended

/-- The bus, its dispatcher threads, and what happened so far: the posts, how many
were taken from the queue, which subscribers were present when a post was handed out,
and the calls made. -/
structure State (π κ : Type) where
  subscribers : List κ
  queue : List (Event π)
  running : Bool
  threads : List (Phase π κ)
  posted : List (Event π)
  taken : Nat
  handed : List (Nat × List κ)
  calls : List (Nat × κ)

/-- `EventBus.__init__`. -/
def initial : State π κ :=
  { subscribers := [], queue := [], running := false, threads := []
    posted := [], taken := 0, handed := [], calls := [] }

def put (s : State π κ) (event : Event π) : State π κ :=
  { s with queue := s.queue ++ [event], posted := s.posted ++ [event] }

def start (s : State π κ) : State π κ :=
  if s.running then s
  else { s with running := true, threads := s.threads ++ [.checking] }

/-- The marker `stop` puts behind the events already queued. -/
def stopEvent (payload : π) : Event π :=
  { id := "event-stop", type := "stop", payload := payload }

/-- `stop`; its bounded join changes nothing. -/
def stop (s : State π κ) (payload : π) : State π κ :=
  if s.running then put { s with running := false } (stopEvent payload)
  else s

def post (s : State π κ) (event : Event π) : State π κ := put s event

def subscribe (s : State π κ) (callback : κ) : State π κ :=
  { s with subscribers := s.subscribers ++ [callback] }

/-- `unsubscribe`; of an unknown callback it raises and changes nothing. -/
def unsubscribe [DecidableEq κ] (s : State π κ) (callback : κ) : State π κ :=
  { s with subscribers := s.subscribers.erase callback }

/-- One step of `_dispatch_loop` in the thread `i`. -/
def dispatchLoop (s : State π κ) (i : Nat) : Phase π κ → Option (State π κ)
  | .checking =>
      some { s with threads := s.threads.set i (if s.running then .waiting else .ended) }
  | .waiting =>
      match s.queue with
      -- `queue.Empty` after half a second
      | [] => some { s with threads := s.threads.set i .checking }
      | event :: queue =>
          some { s with
            queue := queue
            taken := s.taken + 1
            threads := s.threads.set i (.taken s.taken event) }
  | .taken number event =>
      if !s.running || event.type == "stop" then
        some { s with threads := s.threads.set i .ended }
      else some { s with threads := s.threads.set i (.accepted number event) }
  | .accepted number event =>
      some { s with
        handed := s.handed ++ [(number, s.subscribers)]
        threads := s.threads.set i (.calling number event s.subscribers) }
  | .calling _ _ [] => some { s with threads := s.threads.set i .checking }
  -- an exception of the callback is logged and the loop goes on
  | .calling number event (callback :: callbacks) =>
      some { s with
        calls := s.calls ++ [(number, callback)]
        threads := s.threads.set i (.calling number event callbacks) }
  | .ended => none

inductive Label (π κ : Type) where
  | start
  | stop (payload : π)
  | post (event : Event π)
  | subscribe (callback : κ)
  | unsubscribe (callback : κ)
  | dispatch (thread : Nat)

def step [DecidableEq κ] (s : State π κ) : Label π κ → Option (State π κ)
  | .start => some (start s)
  | .stop payload => some (stop s payload)
  | .post event => some (post s event)
  | .subscribe callback => some (subscribe s callback)
  | .unsubscribe callback => some (unsubscribe s callback)
  | .dispatch i => s.threads[i]?.bind (dispatchLoop s i)

/-- The subscribers called for one post, in order. -/
def callsOf (calls : List (Nat × κ)) (number : Nat) : List κ :=
  (calls.filter fun c => c.1 == number).map Prod.snd

section Calls

variable {calls : List (Nat × κ)} {number m : Nat} {callback : κ}

theorem callsOf_concat_self :
    callsOf (calls ++ [(number, callback)]) number = callsOf calls number ++ [callback] := by
  simp [callsOf, List.filter_append]

theorem callsOf_concat_ne
    (h : m ≠ number) :
    callsOf (calls ++ [(number, callback)]) m = callsOf calls m := by
  have hne : (number == m) = false := by simpa using h.symm
  simp [callsOf, List.filter_append, hne]

end Calls

/-- The post a thread works on. -/
def Phase.post : Phase π κ → Option (Nat × Event π)
  | .taken number event => some (number, event)
  | .accepted number event => some (number, event)
  | .calling number event _ => some (number, event)
  | _ => none

/-- What every reachable bus keeps. -/
structure Inv (s : State π κ) : Prop where
  queue : s.queue = s.posted.drop s.taken
  bound : s.taken ≤ s.posted.length
  held : ∀ (i : Nat) (p : Phase π κ) (x : Nat × Event π), s.threads[i]? = some p →
    p.post = some x → x.1 < s.taken ∧ s.posted[x.1]? = some x.2
  apart : ∀ (i j : Nat) (p q : Phase π κ) (x y : Nat × Event π), s.threads[i]? = some p →
    s.threads[j]? = some q → p.post = some x → q.post = some y → x.1 = y.1 → i = j
  unhanded : ∀ (i : Nat) (number : Nat) (event : Event π),
    s.threads[i]? = some (.taken number event) ∨ s.threads[i]? = some (.accepted number event) →
    number ∉ s.handed.map Prod.fst
  once : (s.handed.map Prod.fst).Nodup
  past : ∀ number ∈ s.handed.map Prod.fst, number < s.taken
  calling : ∀ (i number : Nat) (event : Event π) (left : List κ),
    s.threads[i]? = some (.calling number event left) →
    (number, callsOf s.calls number ++ left) ∈ s.handed
  served : ∀ number present, (number, present) ∈ s.handed →
    callsOf s.calls number = present ∨
      ∃ (i : Nat) (event : Event π) (left : List κ),
        s.threads[i]? = some (.calling number event left)
  silent : ∀ number, number ∉ s.handed.map Prod.fst → callsOf s.calls number = []

section Steps

variable {s s' : State π κ} {i : Nat} {p p' : Phase π κ}

/-- Two entries under one number are one entry. -/
theorem Inv.present_unique
    (hinv : Inv s)
    {number : Nat} {present present' : List κ}
    (h : (number, present) ∈ s.handed)
    (h' : (number, present') ∈ s.handed) :
    present = present' := by
  have hpair := List.inj_on_of_nodup_map hinv.once h h' rfl
  exact (Prod.mk.inj hpair).2

/-- Where a thread kept or dropped its post, the posts worked on were worked on before. -/
theorem post_set
    (hp : s.threads[i]? = some p)
    (hold : ∀ x, p'.post = some x → p.post = some x)
    {j : Nat} {q : Phase π κ} {x : Nat × Event π}
    (hq : (s.threads.set i p')[j]? = some q)
    (hx : q.post = some x) :
    ∃ r, s.threads[j]? = some r ∧ r.post = some x := by
  rcases Threads.of_getElem?_set hq with ⟨rfl, rfl⟩ | ⟨_, hq'⟩
  · exact ⟨p, hp, hold x hx⟩
  · exact ⟨q, hq', hx⟩

theorem Inv.held_set
    (hinv : Inv s)
    (hp : s.threads[i]? = some p)
    (hold : ∀ x, p'.post = some x → p.post = some x)
    {j : Nat} {q : Phase π κ} {x : Nat × Event π}
    (hq : (s.threads.set i p')[j]? = some q)
    (hx : q.post = some x) :
    x.1 < s.taken ∧ s.posted[x.1]? = some x.2 := by
  obtain ⟨q', hq', hx'⟩ := post_set hp hold hq hx
  exact hinv.held j q' x hq' hx'

theorem Inv.apart_set
    (hinv : Inv s)
    (hp : s.threads[i]? = some p)
    (hold : ∀ x, p'.post = some x → p.post = some x)
    {j k : Nat} {q r : Phase π κ} {x y : Nat × Event π}
    (hq : (s.threads.set i p')[j]? = some q)
    (hr : (s.threads.set i p')[k]? = some r)
    (hx : q.post = some x)
    (hy : r.post = some y)
    (hxy : x.1 = y.1) :
    j = k := by
  obtain ⟨q', hq', hx'⟩ := post_set hp hold hq hx
  obtain ⟨r', hr', hy'⟩ := post_set hp hold hr hy
  exact hinv.apart j k q' r' x y hq' hr' hx' hy' hxy

/-- A thread that moves leaves the calls of the others to them. -/
theorem Inv.served_set
    (hinv : Inv s)
    (hp : s.threads[i]? = some p)
    {number : Nat} {present : List κ}
    (hother : ∀ event left, p ≠ .calling number event left)
    (hmem : (number, present) ∈ s.handed) :
    callsOf s.calls number = present ∨ ∃ (j : Nat) (event : Event π) (left : List κ),
      (s.threads.set i p')[j]? = some (.calling number event left) := by
  rcases hinv.served number present hmem with hall | ⟨j, event, left, hj⟩
  · exact Or.inl hall
  · refine Or.inr ⟨j, event, left, ?_⟩
    have hij : i ≠ j := by
      rintro rfl
      exact hother event left (Option.some.inj (hp.symm.trans hj))
    rw [List.getElem?_set_ne hij, hj]

theorem inv_initial : Inv (initial : State π κ) where
  queue := rfl
  bound := Nat.le_refl 0
  held := by simp [initial]
  apart := by simp [initial]
  unhanded := by simp [initial]
  once := List.nodup_nil
  past := by simp [initial]
  calling := by simp [initial]
  served := by simp [initial]
  silent := fun _ _ => rfl

theorem inv_put
    (hinv : Inv s) (event : Event π) :
    Inv (put s event) where
  queue := by
    show s.queue ++ [event] = (s.posted ++ [event]).drop s.taken
    rw [List.drop_append_of_le_length hinv.bound, hinv.queue]
  bound := by
    show s.taken ≤ (s.posted ++ [event]).length
    have hbound := hinv.bound
    rw [List.length_append]
    omega
  held := by
    intro j q x hq hx
    have hold := hinv.held j q x hq hx
    refine ⟨hold.1, ?_⟩
    show (s.posted ++ [event])[x.1]? = some x.2
    have hlt : x.1 < s.posted.length := (List.getElem?_eq_some_iff.mp hold.2).1
    rw [List.getElem?_append_left hlt, hold.2]
  apart := hinv.apart
  unhanded := hinv.unhanded
  once := hinv.once
  past := hinv.past
  calling := hinv.calling
  served := hinv.served
  silent := hinv.silent

/-- A thread that took nothing, called nobody and left nobody uncalled. -/
theorem inv_move
    (hinv : Inv s)
    (hp : s.threads[i]? = some p)
    (hpost : p'.post = none ∨
      ∃ number event, p = .taken number event ∧ p' = .accepted number event)
    (hdone : ∀ number event left, p = .calling number event left → left = []) :
    Inv { s with threads := s.threads.set i p' } := by
  have hold : ∀ x, p'.post = some x → p.post = some x := by
    intro x hx
    rcases hpost with hnone | ⟨number, event, rfl, rfl⟩
    · rw [hnone] at hx
      cases hx
    · exact hx
  have hnew : ∀ number event left, p' ≠ Phase.calling number event left := by
    rintro number event left rfl
    rcases hpost with hnone | ⟨_, _, _, h⟩
    · cases hnone
    · cases h
  constructor
  case queue => exact hinv.queue
  case bound => exact hinv.bound
  case once => exact hinv.once
  case past => exact hinv.past
  case silent => exact hinv.silent
  case held => exact fun j q x => hinv.held_set hp hold
  case apart => exact fun j k q r x y => hinv.apart_set hp hold
  case unhanded =>
    intro j number event hj
    rcases hj with hq | hq <;> rcases Threads.of_getElem?_set hq with ⟨rfl, rfl⟩ | ⟨_, hq'⟩
    · rcases hpost with hnone | ⟨_, _, _, h⟩
      · cases hnone
      · cases h
    · exact hinv.unhanded j number event (Or.inl hq')
    · rcases hpost with hnone | ⟨n, e, rfl, h⟩
      · cases hnone
      · obtain ⟨rfl, rfl⟩ := Phase.accepted.inj h
        exact hinv.unhanded j number event (Or.inl hp)
    · exact hinv.unhanded j number event (Or.inr hq')
  case calling =>
    intro j number event left hq
    rcases Threads.of_getElem?_set hq with ⟨rfl, h⟩ | ⟨_, hq'⟩
    · exact absurd h.symm (hnew number event left)
    · exact hinv.calling j number event left hq'
  case served =>
    intro number present hmem
    rcases hinv.served number present hmem with hall | ⟨j, event, left, hj⟩
    · exact Or.inl hall
    · by_cases hij : j = i
      · subst hij
        obtain rfl : p = .calling number event left := Option.some.inj (hp.symm.trans hj)
        obtain rfl := hdone number event left rfl
        have hcall := hinv.calling j number event [] hj
        rw [List.append_nil] at hcall
        exact Or.inl (hinv.present_unique hcall hmem)
      · refine Or.inr ⟨j, event, left, ?_⟩
        show (s.threads.set i p')[j]? = _
        rw [List.getElem?_set_ne (Ne.symm hij), hj]

/-- A thread takes the oldest post from the queue. -/
theorem inv_take
    (hinv : Inv s)
    (hp : s.threads[i]? = some .waiting)
    {event : Event π} {queue : List (Event π)}
    (hqueue : s.queue = event :: queue) :
    Inv { s with
      queue := queue
      taken := s.taken + 1
      threads := s.threads.set i (.taken s.taken event) } := by
  have hdrop : s.posted.drop s.taken = event :: queue := hinv.queue.symm.trans hqueue
  have hget : s.posted[s.taken]? = some event := by
    rw [← Nat.add_zero s.taken, ← List.getElem?_drop, hdrop, List.getElem?_cons_zero]
  have hlt : s.taken < s.posted.length := (List.getElem?_eq_some_iff.mp hget).1
  have hbelow (j : Nat) (q : Phase π κ) (x : Nat × Event π)
      (hq : s.threads[j]? = some q) (hx : q.post = some x) : x.1 < s.taken :=
    (hinv.held j q x hq hx).1
  constructor
  case queue =>
    show queue = s.posted.drop (s.taken + 1)
    rw [← List.drop_drop, hdrop, List.drop_one, List.tail_cons]
  case bound => exact hlt
  case once => exact hinv.once
  case past => exact fun number hmem => Nat.lt_succ_of_lt (hinv.past number hmem)
  case silent => exact hinv.silent
  case held =>
    intro j q x hq hx
    rcases Threads.of_getElem?_set hq with ⟨rfl, rfl⟩ | ⟨_, hq'⟩
    · obtain rfl := Option.some.inj hx
      exact ⟨Nat.lt_succ_self _, hget⟩
    · have hold := hinv.held j q x hq' hx
      exact ⟨Nat.lt_succ_of_lt hold.1, hold.2⟩
  case apart =>
    intro j k q r x y hq hr hx hy hxy
    rcases Threads.of_getElem?_set hq with ⟨rfl, rfl⟩ | ⟨_, hq'⟩
    · rcases Threads.of_getElem?_set hr with ⟨rfl, rfl⟩ | ⟨_, hr'⟩
      · rfl
      · obtain rfl := Option.some.inj hx
        have hlow := hbelow k r y hr' hy
        exact absurd hxy (Nat.ne_of_gt hlow)
    · rcases Threads.of_getElem?_set hr with ⟨rfl, rfl⟩ | ⟨_, hr'⟩
      · obtain rfl := Option.some.inj hy
        have hlow := hbelow j q x hq' hx
        exact absurd hxy (Nat.ne_of_lt hlow)
      · exact hinv.apart j k q r x y hq' hr' hx hy hxy
  case unhanded =>
    intro j number event' hj
    rcases hj with hq | hq <;> rcases Threads.of_getElem?_set hq with ⟨rfl, h⟩ | ⟨_, hq'⟩
    · obtain ⟨rfl, rfl⟩ := Phase.taken.inj h
      exact fun hmem => Nat.lt_irrefl _ (hinv.past _ hmem)
    · exact hinv.unhanded j number event' (Or.inl hq')
    · cases h
    · exact hinv.unhanded j number event' (Or.inr hq')
  case calling =>
    intro j number event' left hq
    rcases Threads.of_getElem?_set hq with ⟨rfl, h⟩ | ⟨_, hq'⟩
    · cases h
    · exact hinv.calling j number event' left hq'
  case served =>
    intro number present hmem
    exact hinv.served_set hp (fun _ _ h => nomatch h) hmem

/-- A thread hands its post out to the subscribers present. -/
theorem inv_hand
    (hinv : Inv s)
    {number : Nat} {event : Event π}
    (hp : s.threads[i]? = some (.accepted number event)) :
    Inv { s with
      handed := s.handed ++ [(number, s.subscribers)]
      threads := s.threads.set i (.calling number event s.subscribers) } := by
  have hfresh : number ∉ s.handed.map Prod.fst := hinv.unhanded i number event (Or.inr hp)
  have hkeys : (s.handed ++ [(number, s.subscribers)]).map Prod.fst =
      s.handed.map Prod.fst ++ [number] := by
    rw [List.map_append, List.map_singleton]
  have hsame (x : Nat × Event π)
      (hx : (Phase.calling number event s.subscribers).post = some x) :
      (Phase.accepted number event : Phase π κ).post = some x := hx
  constructor
  case queue => exact hinv.queue
  case bound => exact hinv.bound
  case once =>
    show ((s.handed ++ [(number, s.subscribers)]).map Prod.fst).Nodup
    rw [hkeys, List.nodup_append]
    refine ⟨hinv.once, List.nodup_singleton _, fun m hm m' hm' hmm => hfresh ?_⟩
    rw [List.mem_singleton] at hm'
    rwa [← hm', ← hmm]
  case past =>
    intro m hm
    rw [hkeys, List.mem_append, List.mem_singleton] at hm
    rcases hm with hm | rfl
    · exact hinv.past m hm
    · exact (hinv.held i _ (m, event) hp rfl).1
  case silent =>
    intro m hm
    rw [hkeys, List.mem_append, not_or] at hm
    exact hinv.silent m hm.1
  case held => exact fun j q x => hinv.held_set hp hsame
  case apart => exact fun j k q r x y => hinv.apart_set hp hsame
  case unhanded =>
    intro j m event' hj
    have hold : j ≠ i ∧ (s.threads[j]? = some (.taken m event') ∨
        s.threads[j]? = some (.accepted m event')) := by
      rcases hj with hq | hq <;> rcases Threads.of_getElem?_set hq with ⟨_, h⟩ | ⟨hne, hq'⟩
      · cases h
      · exact ⟨hne, Or.inl hq'⟩
      · cases h
      · exact ⟨hne, Or.inr hq'⟩
    rw [hkeys, List.mem_append, List.mem_singleton, not_or]
    refine ⟨hinv.unhanded j m event' hold.2, fun hm => hold.1 ?_⟩
    rcases hold.2 with hq | hq <;> exact hinv.apart j i _ _ (m, event') _ hq hp rfl rfl hm
  case calling =>
    intro j m event' left hq
    rcases Threads.of_getElem?_set hq with ⟨rfl, h⟩ | ⟨_, hq'⟩
    · obtain ⟨rfl, _, rfl⟩ := Phase.calling.inj h
      rw [hinv.silent m hfresh]
      exact List.mem_append_right _ (List.mem_singleton_self _)
    · exact List.mem_append_left _ (hinv.calling j m event' left hq')
  case served =>
    intro m present hmem
    rcases List.mem_append.mp hmem with hmem | hmem
    · exact hinv.served_set hp (fun _ _ h => nomatch h) hmem
    · obtain ⟨rfl, rfl⟩ := Prod.mk.inj (List.mem_singleton.mp hmem)
      exact Or.inr ⟨i, event, s.subscribers, Threads.getElem?_set_of_some hp⟩

/-- A thread calls the next subscriber for its post. -/
theorem inv_call
    (hinv : Inv s)
    {number : Nat} {event : Event π} {callback : κ} {callbacks : List κ}
    (hp : s.threads[i]? = some (.calling number event (callback :: callbacks))) :
    Inv { s with
      calls := s.calls ++ [(number, callback)]
      threads := s.threads.set i (.calling number event callbacks) } := by
  have hmine := hinv.calling i number event _ hp
  have hkey : number ∈ s.handed.map Prod.fst := List.mem_map.mpr ⟨_, hmine, rfl⟩
  have hsame (x : Nat × Event π) (hx : (Phase.calling number event callbacks).post = some x) :
      (Phase.calling number event (callback :: callbacks)).post = some x := hx
  constructor
  case queue => exact hinv.queue
  case bound => exact hinv.bound
  case once => exact hinv.once
  case past => exact hinv.past
  case silent =>
    intro m hm
    have hne : m ≠ number := by
      rintro rfl
      exact hm hkey
    rw [callsOf_concat_ne hne]
    exact hinv.silent m hm
  case held => exact fun j q x => hinv.held_set hp hsame
  case apart => exact fun j k q r x y => hinv.apart_set hp hsame
  case unhanded =>
    intro j m event' hj
    rcases hj with hq | hq <;> rcases Threads.of_getElem?_set hq with ⟨_, h⟩ | ⟨_, hq'⟩
    · cases h
    · exact hinv.unhanded j m event' (Or.inl hq')
    · cases h
    · exact hinv.unhanded j m event' (Or.inr hq')
  case calling =>
    intro j m event' left hq
    rcases Threads.of_getElem?_set hq with ⟨rfl, h⟩ | ⟨hji, hq'⟩
    · obtain ⟨rfl, _, rfl⟩ := Phase.calling.inj h
      rw [callsOf_concat_self, List.append_assoc, List.singleton_append]
      exact hmine
    · have hne : m ≠ number := fun hm =>
        hji (hinv.apart j i _ _ (m, event') (number, event) hq' hp rfl rfl hm)
      rw [callsOf_concat_ne hne]
      exact hinv.calling j m event' left hq'
  case served =>
    intro m present hmem
    by_cases hm : m = number
    · subst hm
      exact Or.inr ⟨i, event, callbacks, Threads.getElem?_set_of_some hp⟩
    · rw [callsOf_concat_ne hm]
      exact hinv.served_set hp (fun _ _ h => hm (Phase.calling.inj h).1.symm) hmem

theorem inv_start
    (hinv : Inv s) :
    Inv (start s) := by
  unfold start
  split_ifs with hrunning
  · exact hinv
  have hpost (j : Nat) (q : Phase π κ) (x : Nat × Event π)
      (hq : (s.threads ++ [Phase.checking])[j]? = some q) (hx : q.post = some x) :
      s.threads[j]? = some q := by
    rcases Threads.of_getElem?_concat hq with ⟨_, rfl⟩ | ⟨_, hq'⟩
    · cases hx
    · exact hq'
  constructor
  case queue => exact hinv.queue
  case bound => exact hinv.bound
  case once => exact hinv.once
  case past => exact hinv.past
  case silent => exact hinv.silent
  case held => exact fun j q x hq hx => hinv.held j q x (hpost j q x hq hx) hx
  case apart =>
    exact fun j k q r x y hq hr hx hy =>
      hinv.apart j k q r x y (hpost j q x hq hx) (hpost k r y hr hy) hx hy
  case unhanded =>
    intro j m event hj
    exact hinv.unhanded j m event (hj.imp (fun hq => hpost j _ (m, event) hq rfl)
      fun hq => hpost j _ (m, event) hq rfl)
  case calling =>
    exact fun j m event left hq => hinv.calling j m event left (hpost j _ (m, event) hq rfl)
  case served =>
    intro m present hmem
    refine (hinv.served m present hmem).imp_right ?_
    rintro ⟨j, event, left, hj⟩
    exact ⟨j, event, left, Threads.getElem?_concat_of_some hj⟩

theorem inv_frame
    (hinv : Inv s) (subscribers : List κ) (running : Bool) :
    Inv { s with subscribers := subscribers, running := running } :=
  { queue := hinv.queue, bound := hinv.bound, held := hinv.held, apart := hinv.apart
    unhanded := hinv.unhanded, once := hinv.once, past := hinv.past, calling := hinv.calling
    served := hinv.served, silent := hinv.silent }

theorem inv_dispatchLoop
    (hinv : Inv s)
    (hp : s.threads[i]? = some p)
    (h : dispatchLoop s i p = some s') :
    Inv s' := by
  cases p with
  | checking =>
      obtain rfl := Option.some.inj h
      refine inv_move hinv hp (Or.inl ?_) nofun
      split_ifs <;> rfl
  | waiting =>
      rw [dispatchLoop] at h
      split at h
      · obtain rfl := Option.some.inj h
        exact inv_move hinv hp (Or.inl rfl) nofun
      · next event queue hqueue =>
        obtain rfl := Option.some.inj h
        exact inv_take hinv hp hqueue
  | taken number event =>
      rw [dispatchLoop] at h
      split_ifs at h with hdrop
      · obtain rfl := Option.some.inj h
        exact inv_move hinv hp (Or.inl rfl) nofun
      · obtain rfl := Option.some.inj h
        exact inv_move hinv hp (Or.inr ⟨number, event, rfl, rfl⟩) nofun
  | accepted number event =>
      obtain rfl := Option.some.inj h
      exact inv_hand hinv hp
  | calling number event left =>
      cases left with
      | nil =>
          obtain rfl := Option.some.inj h
          refine inv_move hinv hp (Or.inl rfl) fun m e left heq => ?_
          exact (Phase.calling.inj heq).2.2.symm
      | cons callback callbacks =>
          obtain rfl := Option.some.inj h
          exact inv_call hinv hp
  | ended => cases h

variable [DecidableEq κ]

theorem inv_step
    {a : Label π κ}
    (hinv : Inv s)
    (h : step s a = some s') :
    Inv s' := by
  cases a with
  | start =>
      obtain rfl := Option.some.inj h
      exact inv_start hinv
  | stop payload =>
      obtain rfl := Option.some.inj h
      unfold stop
      split_ifs
      · exact inv_put (inv_frame hinv s.subscribers false) _
      · exact hinv
  | post event =>
      obtain rfl := Option.some.inj h
      exact inv_put hinv event
  | subscribe callback =>
      obtain rfl := Option.some.inj h
      exact inv_frame hinv _ s.running
  | unsubscribe callback =>
      obtain rfl := Option.some.inj h
      exact inv_frame hinv _ s.running
  | dispatch i =>
      obtain ⟨p, hp, hloop⟩ := Option.bind_eq_some_iff.mp h
      exact inv_dispatchLoop hinv hp hloop

/-- What one step puts into the queue. -/
theorem posted_step
    {a : Label π κ}
    (h : step s a = some s') :
    s'.posted = s.posted ∨
      (∃ payload, a = .stop payload ∧ s'.posted = s.posted ++ [stopEvent payload]) ∨
      ∃ event, a = .post event ∧ s'.posted = s.posted ++ [event] := by
  cases a with
  | start =>
      obtain rfl := Option.some.inj h
      left
      unfold start
      split_ifs <;> rfl
  | stop payload =>
      obtain rfl := Option.some.inj h
      unfold stop
      split_ifs
      · exact Or.inr (Or.inl ⟨payload, rfl, rfl⟩)
      · exact Or.inl rfl
  | post event =>
      obtain rfl := Option.some.inj h
      exact Or.inr (Or.inr ⟨event, rfl, rfl⟩)
  | subscribe callback =>
      obtain rfl := Option.some.inj h
      exact Or.inl rfl
  | unsubscribe callback =>
      obtain rfl := Option.some.inj h
      exact Or.inl rfl
  | dispatch i =>
      obtain ⟨p, _, hloop⟩ := Option.bind_eq_some_iff.mp h
      left
      unfold dispatchLoop at hloop
      split at hloop
      case h_2 => split at hloop <;> cases hloop <;> rfl
      case h_3 => split_ifs at hloop <;> cases hloop <;> rfl
      case h_7 => cases hloop
      all_goals
        cases hloop
        rfl

theorem inv_of_reach
    {cond : State π κ → Label π κ → Prop}
    (h : Reach step cond initial s) :
    Inv s :=
  h.invariant inv_initial fun _ _ _ hs _ hstep => inv_step hs hstep

end Steps

/-- **A post is handed out at most once**, whatever is started and stopped: the posts
leave the queue in order, none is handed out under two numbers or before it was taken,
and the subscribers present then are called once each and in order, one of whose
dispatchers is still at it when they are not all called. -/
theorem handed_out_once [DecidableEq κ]
    (s : State π κ)
    (h : Reach step (fun _ _ => True) initial s) :
    s.queue = s.posted.drop s.taken ∧
    (s.handed.map Prod.fst).Nodup ∧
    (∀ number ∈ s.handed.map Prod.fst, number < s.taken) ∧
    (∀ number present, (number, present) ∈ s.handed → ∃ left,
      callsOf s.calls number ++ left = present ∧
        (left = [] ∨ ∃ (i : Nat) (event : Event π),
          s.threads[i]? = some (.calling number event left) ∧
            s.posted[number]? = some event)) ∧
    ∀ number, number ∉ s.handed.map Prod.fst → callsOf s.calls number = [] := by
  have hinv := inv_of_reach h
  refine ⟨hinv.queue, hinv.once, hinv.past, ?_, hinv.silent⟩
  intro number present hmem
  rcases hinv.served number present hmem with hall | ⟨i, event, left, hi⟩
  · exact ⟨[], by rw [List.append_nil, hall], Or.inl rfl⟩
  · refine ⟨left, ?_, Or.inr ⟨i, event, hi, ?_⟩⟩
    · exact hinv.present_unique (hinv.calling i number event left hi) hmem
    · exact (hinv.held i _ (number, event) hi rfl).2

/-- One subscriber, one event on its way, one more behind a stop. -/
def stoppedRun : List (Label Unit Nat) :=
  [.subscribe 7, .start, .dispatch 0, .post ⟨"event-1", "timer.fired", ()⟩, .dispatch 0,
    .dispatch 0, .dispatch 0, .post ⟨"event-2", "timer.fired", ()⟩, .stop (), .dispatch 0,
    .dispatch 0, .dispatch 0]

theorem handed_out_once_stoppedRun :
    ∃ s, run step initial stoppedRun = some s ∧ (s.handed.map Prod.fst).Nodup := by
  have hrun := run_eq_getD (show (run step initial stoppedRun).isSome = true by decide)
  exact ⟨_, hrun, (handed_out_once _ (reach_of_run_free hrun)).2.1⟩

section Single

variable {s s' : State π κ} {p : Phase π κ}

/-- The posts a thread took and did not hand out yet. -/
def Phase.pending : Phase π κ → Nat
  | .taken _ _ => 1
  | .accepted _ _ => 1
  | _ => 0

/-- The calls a thread has left to make. -/
def Phase.left : Phase π κ → List (Nat × κ)
  | .calling number _ callbacks => callbacks.map (Prod.mk number)
  | _ => []

/-- The calls that the posts handed out ask for. -/
def due (handed : List (Nat × List κ)) : List (Nat × κ) :=
  handed.flatMap fun h => h.2.map (Prod.mk h.1)

/-- The only dispatcher is in phase `p`. -/
structure Working (s : State π κ) (p : Phase π κ) : Prop where
  threads : s.threads = [p]
  order : ∃ k, s.handed.map Prod.fst = List.range k ∧ k ≤ s.taken ∧ s.taken ≤ k + 1 ∧
    (p ≠ .ended → s.taken = k + p.pending)
  current : ∀ x, p.post = some x → x.1 + 1 = s.taken
  calls : s.calls ++ p.left = due s.handed
  alive : s.running = true → p ≠ .ended
  unmarked : s.running = true → ∀ event ∈ s.queue, event.type ≠ "stop"
  genuine : s.running = true → ∀ x, p.post = some x → x.2.type ≠ "stop"

/-- Nothing was started yet. -/
structure Off (s : State π κ) : Prop where
  threads : s.threads = []
  running : s.running = false
  taken : s.taken = 0
  handed : s.handed = []
  calls : s.calls = []
  unmarked : ∀ event ∈ s.queue, event.type ≠ "stop"

/-- The bus is off, or its only dispatcher does what it should. -/
def Single (s : State π κ) : Prop := Off s ∨ ∃ p, Working s p

variable [DecidableEq κ]

end Single

section Halted

variable {s s' : State π κ} {p : Phase π κ}

/-- The posts a thread is about to hand out, whatever is stopped. -/
def Phase.accepting : Phase π κ → Nat
  | .accepted _ _ => 1
  | _ => 0

variable [DecidableEq κ]

end Halted

end EventBus
end DiploidAgent
