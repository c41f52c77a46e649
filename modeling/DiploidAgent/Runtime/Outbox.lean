import DiploidAgent.Lib.KeyedQueue
import DiploidAgent.Lib.Runs
import DiploidAgent.Lib.Threads

/-!
# The outbox

`RuntimeOutbox` of `runtime/outbox.py`: results and turn markers of all chats wait in one
deque.  A consumer takes the next item of all of them, or the next one of its chat, and may
wait for it.  Every critical section is one step, and the calls of any number of threads take
their steps in any order.

Nothing gets lost or comes twice, and every chat keeps its order (`outbox_conserved`).
-/

namespace DiploidAgent
namespace Outbox

open KeyedQueue Runs Threads

universe u

/-- `ChatResult`; `rest` are the fields that the outbox only hands on. -/
structure ChatResult (ρ : Type u) where
  reply : String
  transient : Bool
  rest : ρ

/-- What stands in the deque: a result, or the marker of a turn that started. -/
inductive Item (ρ : Type u) where
  | result (chatResult : ChatResult ρ)
  | turnStarted (chatId : String) (sessionNumber turnNumber : Option Int)
      (userMessage : Option String)

/-- The arguments of `outbox_pop`, and the deadline it computes. -/
structure PopArgs where
  chatId : Option String
  wait : Int
  returnChatId : Bool
  deadline : Int

/-- Where an `outbox_pop` is: in front of the scan, in `wait`, or done. -/
inductive PopPc (ρ : Type u) where
  | scanning
  | waiting (notified : Bool)
  | returned (popped : Option (String × Item ρ))

/-- A call of one of the three functions. -/
inductive Call (ρ : Type u) where
  | logging (chatId : String) (chatResult : ChatResult ρ)
  | appending (chatId : String) (item : Item ρ)
  | appended
  | raised
  | pop (args : PopArgs) (pc : PopPc ρ)

/-- What `outbox_pop` returns. -/
inductive Returned (ρ : Type u) where
  | nothing
  | item (item : Item ρ)
  | pair (chatId : String) (item : Item ρ)

def returnValue (args : PopArgs) : Option (String × Item ρ) → Returned ρ
  | none => .nothing
  | some popped => if args.returnChatId then .pair popped.1 popped.2 else .item popped.2

/-- The deque and the calls; `enqueued` and `popped` are the history. -/
structure State (ρ : Type u) where
  hasEventLog : Bool
  eventLog : List (String × String)
  outboxDelivery : Bool
  outbox : List (String × Item ρ)
  calls : List (Call ρ)
  enqueued : List (String × Item ρ)
  popped : List (Nat × (String × Item ρ))

def initial (ρ : Type u) (hasEventLog outboxDelivery : Bool) : State ρ where
  hasEventLog := hasEventLog
  eventLog := []
  outboxDelivery := outboxDelivery
  outbox := []
  calls := []
  enqueued := []
  popped := []

/-- One step: the configuration is changed, a call begins, or a call goes on. -/
inductive Label (ρ : Type u) where
  | configure (outboxDelivery : Bool)
  | enqueueOutbox (chatId : String) (chatResult : ChatResult ρ)
  | emitTurnStarted (chatId : String) (sessionNumber turnNumber : Option Int)
      (userMessage : Option String)
  | outboxPop (chatId : Option String) (wait : Int) (returnChatId : Bool) (now : Int)
  | logEvent (t : Nat) (stored : Bool)
  | append (t : Nat)
  | scan (t : Nat) (now : Int)
  | wake (t : Nat) (now : Int)

section Steps

variable {ρ : Type u}

/-- `chat_id is None or cid == chat_id`. -/
def inScope (scope : Option String) (cid : String) : Bool :=
  match scope with
  | none => true
  | some chatId => cid == chatId

/-- `notify_all` reaches the calls that wait. -/
def Call.notify : Call ρ → Call ρ
  | .pop args (.waiting _) => .pop args (.waiting true)
  | call => call

def State.begin (s : State ρ) (call : Call ρ) : State ρ := { s with calls := s.calls ++ [call] }

def State.setCall (s : State ρ) (t : Nat) (call : Call ρ) : State ρ :=
  { s with calls := s.calls.set t call }

/-- The critical section of the two producers. -/
def State.put (s : State ρ) (chatId : String) (item : Item ρ) : State ρ :=
  { s with
    outbox := s.outbox ++ [(chatId, item)]
    calls := s.calls.map Call.notify
    enqueued := s.enqueued ++ [(chatId, item)] }

/-- One turn of the loop of `outbox_pop`. -/
def State.scan (s : State ρ) (t : Nat) (args : PopArgs) (now : Int) : State ρ :=
  match takeFirst (inScope args.chatId) s.outbox with
  | some (popped, rest) =>
      { s with
        outbox := rest
        calls := s.calls.set t (.pop args (.returned (some popped)))
        popped := s.popped ++ [(t, popped)] }
  | none =>
      if args.wait ≤ 0 then s.setCall t (.pop args (.returned none))
      else if args.deadline - now ≤ 0 then s.setCall t (.pop args (.returned none))
      else s.setCall t (.pop args (.waiting false))

def step (s : State ρ) : Label ρ → Option (State ρ)
  | .configure outboxDelivery => some { s with outboxDelivery := outboxDelivery }
  | .enqueueOutbox chatId chatResult =>
      if s.hasEventLog && chatResult.transient then some (s.begin (.logging chatId chatResult))
      else some (s.begin (.appending chatId (.result chatResult)))
  | .emitTurnStarted chatId sessionNumber turnNumber userMessage =>
      if s.outboxDelivery then
        some (s.begin (.appending chatId
          (.turnStarted chatId sessionNumber turnNumber userMessage)))
      else some (s.begin .appended)
  | .outboxPop chatId wait returnChatId now =>
      some (s.begin (.pop
        { chatId := chatId
          wait := wait
          returnChatId := returnChatId
          deadline := if 0 < wait then now + wait else 0 } .scanning))
  | .logEvent t stored =>
      match s.calls[t]? with
      | some (.logging chatId chatResult) =>
          -- an error of the log ends the call in front of its critical section
          if stored then
            some { s.setCall t (.appending chatId (.result chatResult)) with
              eventLog := s.eventLog ++ [(chatId, chatResult.reply)] }
          else some (s.setCall t .raised)
      | _ => none
  | .append t =>
      match s.calls[t]? with
      | some (.appending chatId item) => some ((s.put chatId item).setCall t .appended)
      | _ => none
  | .scan t now =>
      match s.calls[t]? with
      | some (.pop args .scanning) => some (s.scan t args now)
      | _ => none
  | .wake t now =>
      match s.calls[t]? with
      | some (.pop args (.waiting notified)) =>
          if notified || args.deadline ≤ now then some (s.setCall t (.pop args .scanning))
          else none
      | _ => none

end Steps

/-! ### Conservation -/

section Conservation

variable {ρ : Type u} {s s' : State ρ} {t : Nat} {call call' : Call ρ}

/-- What a call has taken and returned. -/
def Call.got : Call ρ → Option (PopArgs × (String × Item ρ))
  | .pop args (.returned (some x)) => some (args, x)
  | _ => none

def State.gotAt (s : State ρ) (t : Nat) : Option (PopArgs × (String × Item ρ)) :=
  s.calls[t]?.bind Call.got

/-- The items of the history: every one that was put in waits or was returned by one call, and
the items of a chat were returned in the order they were put in. -/
structure Delivers (s : State ρ) : Prop where
  order : ∀ chatId, ofKey chatId s.enqueued =
    ofKey chatId (s.popped.map Prod.snd) ++ ofKey chatId s.outbox
  once : (s.popped.map Prod.fst).Nodup
  returned : ∀ t x, (t, x) ∈ s.popped ↔ ∃ args, s.gotAt t = some (args, x)
  ownChat : ∀ t args x chatId, s.gotAt t = some (args, x) → args.chatId = some chatId →
    x.1 = chatId

@[simp] theorem got_notify (call : Call ρ) : call.notify.got = call.got := by
  cases call with
  | pop args pc => cases pc <;> rfl
  | _ => rfl

theorem gotAt_begin
    (hcall : call.got = none) (t : Nat) :
    (s.begin call).gotAt t = s.gotAt t := by
  unfold State.gotAt State.begin
  dsimp only
  rcases Nat.lt_trichotomy t s.calls.length with hlt | rfl | hgt
  · rw [List.getElem?_append_left hlt]
  · rw [List.getElem?_concat_length, List.getElem?_eq_none (Nat.le_refl _)]
    exact hcall
  · rw [List.getElem?_eq_none (by simp; omega), List.getElem?_eq_none hgt.le]

/-- A call that has returned nothing goes on to one that has not either. -/
theorem gotAt_setCall
    (hold : s.calls[t]? = some call) (hcall : call.got = none) (hcall' : call'.got = none)
    (j : Nat) :
    (s.setCall t call').gotAt j = s.gotAt j := by
  unfold State.gotAt State.setCall
  dsimp only
  rcases eq_or_ne j t with rfl | hne
  · rw [getElem?_set_of_some hold, hold, Option.bind_some, Option.bind_some, hcall, hcall']
  · rw [List.getElem?_set_ne hne.symm]

@[simp] theorem gotAt_put (chatId : String) (item : Item ρ) (t : Nat) :
    (s.put chatId item).gotAt t = s.gotAt t := by
  unfold State.gotAt State.put
  dsimp only
  rw [List.getElem?_map]
  cases s.calls[t]? with
  | none => rfl
  | some call => exact got_notify call

theorem calls_put
    {waits : String} {kept : Item ρ}
    (h : s.calls[t]? = some (.appending waits kept)) (chatId : String) (item : Item ρ) :
    (s.put chatId item).calls[t]? = some (.appending waits kept) := by
  unfold State.put
  dsimp only
  rw [List.getElem?_map, h]
  rfl

/-- A step that takes nothing out. -/
theorem Delivers.frame
    (h : Delivers s) (hpopped : s'.popped = s.popped) (hgot : ∀ t, s'.gotAt t = s.gotAt t)
    (horder : Conserved s'.enqueued (s.popped.map Prod.snd) s'.outbox) :
    Delivers s' where
  order := by
    rw [hpopped]
    exact horder
  once := by
    rw [hpopped]
    exact h.once
  returned := by
    intro t x
    rw [hpopped, hgot]
    exact h.returned t x
  ownChat := by
    intro t args x chatId
    rw [hgot]
    exact h.ownChat t args x chatId

theorem Delivers.begin
    (h : Delivers s) (hcall : call.got = none) :
    Delivers (s.begin call) :=
  h.frame rfl (gotAt_begin hcall) h.order

theorem Delivers.setCall
    (h : Delivers s) (hold : s.calls[t]? = some call) (hcall : call.got = none)
    (hcall' : call'.got = none) :
    Delivers (s.setCall t call') :=
  h.frame rfl (gotAt_setCall hold hcall hcall') h.order

theorem Delivers.put
    (h : Delivers s) (chatId : String) (item : Item ρ) :
    Delivers (s.put chatId item) :=
  h.frame rfl (gotAt_put chatId item) (Conserved.put h.order (chatId, item))

/-- A consumer that finds an item. -/
theorem Delivers.take
    {args : PopArgs} {x : String × Item ρ} {rest : List (String × Item ρ)}
    (h : Delivers s) (hold : s.calls[t]? = some (.pop args .scanning))
    (htake : takeFirst (inScope args.chatId) s.outbox = some (x, rest)) :
    Delivers { s with
      outbox := rest
      calls := s.calls.set t (.pop args (.returned (some x)))
      popped := s.popped ++ [(t, x)] } := by
  have hbefore : s.gotAt t = none := by
    rw [State.gotAt, hold]
    rfl
  have hnew : ∀ y, (t, y) ∉ s.popped := by
    intro y hy
    obtain ⟨args, hargs⟩ := (h.returned t y).mp hy
    rw [hbefore] at hargs
    cases hargs
  have hgot : ∀ j, (s.setCall t (.pop args (.returned (some x)))).gotAt j =
      if j = t then some (args, x) else s.gotAt j := by
    intro j
    unfold State.gotAt State.setCall
    dsimp only
    split_ifs with hj
    · rw [hj, getElem?_set_of_some hold]
      rfl
    · rw [List.getElem?_set_ne (Ne.symm hj)]
  constructor
  · rw [List.map_append]
    exact Conserved.take h.order htake
  · rw [List.map_append, List.nodup_append]
    refine ⟨h.once, by simp, ?_⟩
    rintro j hj k hk rfl
    obtain rfl := List.mem_singleton.mp hk
    obtain ⟨⟨_, y⟩, hy, rfl⟩ := List.mem_map.mp hj
    exact hnew y hy
  · intro j y
    change _ ↔ ∃ args', (s.setCall t (.pop args (.returned (some x)))).gotAt j = some (args', y)
    rw [List.mem_append, List.mem_singleton, hgot]
    split_ifs with hj
    · subst hj
      constructor
      · rintro (hy | heq)
        · exact absurd hy (hnew y)
        · exact ⟨args, by rw [(Prod.mk.inj heq).2]⟩
      · rintro ⟨args', heq⟩
        rw [(Prod.mk.inj (Option.some.inj heq)).2]
        exact Or.inr rfl
    · rw [← h.returned]
      refine ⟨fun hy => hy.resolve_right fun heq => hj (Prod.mk.inj heq).1, Or.inl⟩
  · intro j args' y chatId
    change (s.setCall t (.pop args (.returned (some x)))).gotAt j = some (args', y) → _
    rw [hgot]
    split_ifs with hj
    · intro heq hscope
      obtain ⟨rfl, rfl⟩ := Prod.mk.inj (Option.some.inj heq)
      obtain ⟨_, _, _, _, hwanted, _⟩ := takeFirst_eq_some htake
      rw [hscope] at hwanted
      exact of_decide_eq_true hwanted
    · exact h.ownChat j args' y chatId

theorem Delivers.scan
    {args : PopArgs} (h : Delivers s) (hold : s.calls[t]? = some (.pop args .scanning))
    (now : Int) :
    Delivers (s.scan t args now) := by
  unfold State.scan
  split
  · exact h.take hold ‹_›
  · split_ifs
    · exact h.setCall hold rfl rfl
    · exact h.setCall hold rfl rfl
    · exact h.setCall hold rfl rfl

/-- One step. -/
theorem Delivers.step
    {a : Label ρ} (h : Delivers s) (hstep : step s a = some s') :
    Delivers s' := by
  unfold Outbox.step at hstep
  cases a with
  | configure outboxDelivery =>
      obtain rfl := Option.some.inj hstep
      exact h.frame rfl (fun _ => rfl) h.order
  | enqueueOutbox chatId chatResult =>
      dsimp only at hstep
      split_ifs at hstep <;> obtain rfl := Option.some.inj hstep <;> exact h.begin rfl
  | emitTurnStarted chatId sessionNumber turnNumber userMessage =>
      dsimp only at hstep
      split_ifs at hstep <;> obtain rfl := Option.some.inj hstep <;> exact h.begin rfl
  | outboxPop chatId wait returnChatId now =>
      obtain rfl := Option.some.inj hstep
      exact h.begin rfl
  | logEvent t stored =>
      dsimp only at hstep
      split at hstep
      · split_ifs at hstep <;> obtain rfl := Option.some.inj hstep
        · exact (h.setCall ‹_› rfl rfl).frame rfl (fun _ => rfl) h.order
        · exact h.setCall ‹_› rfl rfl
      · cases hstep
  | append t =>
      dsimp only at hstep
      split at hstep
      next chatId item hcall =>
        obtain rfl := Option.some.inj hstep
        exact (h.put chatId item).setCall (calls_put hcall chatId item) rfl rfl
      next => cases hstep
  | scan t now =>
      dsimp only at hstep
      split at hstep
      · obtain rfl := Option.some.inj hstep
        exact h.scan ‹_› now
      · cases hstep
  | wake t now =>
      dsimp only at hstep
      split at hstep
      · split_ifs at hstep
        obtain rfl := Option.some.inj hstep
        exact h.setCall ‹_› rfl rfl
      · cases hstep

theorem delivers_initial (hasEventLog outboxDelivery : Bool) :
    Delivers (initial ρ hasEventLog outboxDelivery) where
  order := conserved_nil
  once := List.nodup_nil
  returned := by simp [initial, State.gotAt]
  ownChat := by simp [initial, State.gotAt]

/-- **The outbox conserves its items.**  In every interleaving of the critical sections of any
number of calls: what was put in waits or was returned by one call, a chat's items were
returned in the order they were put in, and a scoped call returns no other chat's. -/
theorem outbox_conserved
    (hasEventLog outboxDelivery : Bool) (s : State ρ)
    (h : Reach Outbox.step (fun _ _ => True) (initial ρ hasEventLog outboxDelivery) s) :
    Delivers s :=
  h.invariant (delivers_initial hasEventLog outboxDelivery)
    fun _ _ _ hs _ hstep => hs.step hstep

/-- A consumer of one chat waits for it, while the other chat's item goes to one of all. -/
theorem outbox_conserved_scopes :
    @Delivers Unit
      { hasEventLog := true
        eventLog := [("a", "note")]
        outboxDelivery := true
        outbox := [("a", .turnStarted "a" none (some 2) none)]
        calls := [.pop ⟨some "b", 5, false, 15⟩
            (.returned (some ("b", .result ⟨"two", false, ()⟩))),
          .appended, .appended, .appended,
          .pop ⟨none, 0, true, 0⟩ (.returned (some ("a", .result ⟨"note", true, ()⟩)))]
        enqueued := [("a", .result ⟨"note", true, ()⟩), ("b", .result ⟨"two", false, ()⟩),
          ("a", .turnStarted "a" none (some 2) none)]
        popped := [(4, ("a", .result ⟨"note", true, ()⟩)), (0, ("b", .result ⟨"two", false, ()⟩))] } :=
  outbox_conserved true true _ (@reach_of_run_free (State Unit) (Label Unit) Outbox.step _ _
    [.outboxPop (some "b") 5 false 10, .scan 0 10, .enqueueOutbox "a" ⟨"note", true, ()⟩,
      .logEvent 1 true, .append 1, .wake 0 12, .scan 0 12,
      .enqueueOutbox "b" ⟨"two", false, ()⟩, .append 2,
      .emitTurnStarted "a" none (some 2) none, .append 3, .outboxPop none 0 true 13,
      .scan 4 13, .wake 0 14, .scan 0 14] rfl)

end Conservation

end Outbox
end DiploidAgent
