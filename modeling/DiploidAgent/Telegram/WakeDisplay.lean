import DiploidAgent.Lib.Runs
import DiploidAgent.Lib.Threads

/-!
# Wake displays of a Telegram chat

`WakeDisplayWorker`, `DeliveryWorker._deliver` and the tombstone helpers of the poller,
for one chat: the delivery worker and the display threads it starts, each block under
`_worker_lock` one step.  `normalize` is `_normalize_wake_reply`; a finalized display
shows the normalized reply, whatever bubbles it is laid out in.

A display chooses what it finalizes, finalizes it and then unregisters.  A result that
is routed to it after the choice is neither shown nor kept from being counted as handed
in.  As long as a routed result finds a display that has no result and has not chosen,
every result is shown once its threads are done (`wake_reply_reaches_chat`).
-/

namespace DiploidAgent
namespace Telegram
namespace WakeDisplay

open Runs Threads

section Model

/-- The fields of `ChatResult` that delivery reads. -/
structure ChatResult where
  reply : String
  notice : Option String := none
  continuation : Bool := false
  sessionNumber : Option Int := none
  turnNumber : Option Int := none
  transient : Bool := false
deriving DecidableEq, Repr

/-- `WakeTombstone`. -/
structure WakeTombstone where
  fullText : String
  lastMessageId : Option Int
  lastBubbleContent : Option String
  sessionNumber : Option Int
  turnNumber : Option Int
deriving DecidableEq, Repr

/-- Where a display thread is.  `polling` and `waiting` hold `last_display`. -/
inductive Phase where
  | polling (lastDisplay : String)
  | waiting (lastDisplay : String)
  | finalizing (chosen : Option ChatResult) (lastDisplay : String)
  | exiting (finalText : String) (lastMessageId : Option Int) (lastBubble : String)
  | finished
deriving DecidableEq, Repr

/-- `WakeDisplayWorker`; `_result_event` is set when `_result` is. -/
structure Display where
  sessionNumber : Option Int
  turnNumber : Option Int
  result : Option ChatResult := none
  phase : Phase := .polling ""
deriving DecidableEq, Repr

/-- Where the delivery worker is inside `_deliver`. -/
inductive Delivery where
  | idle
  | unrouted (result : ChatResult)
  | matched (result : ChatResult) (tombstone : WakeTombstone)
  | folding (result : ChatResult) (tombstone : WakeTombstone)
  | sending (result : ChatResult)
deriving DecidableEq, Repr

/-- What the chat gets to see. -/
inductive Shown where
  | finalized (text : String) (lastMessageId : Option Int) (lastBubble : String)
  | edited (messageId : Int) (text : String)
  | sent (text : String)
deriving DecidableEq, Repr

/-- The displays in the order they were made, `_wake_displays` and `_wake_tombstones` of
the chat, the delivery worker, what the chat has seen, and the results that were
popped. -/
structure State where
  displays : List Display := []
  registered : Option Nat := none
  tombstone : Option WakeTombstone := none
  delivery : Delivery := .idle
  log : List Shown := []
  popped : List ChatResult := []

def initial : State := {}

/-- Who moves, with what the harness and Telegram answer. -/
inductive Label where
  | marker (sessionNumber turnNumber : Option Int) (wakeStream userTurn : Bool)
  | result (chatResult : ChatResult)
  | deliver
  | poll (i : Nat) (running : Bool) (messageText : String)
  | leaveLoop (i : Nat)
  | choose (i : Nat)
  | finalize (i : Nat) (lastMessageId : Option Int) (lastBubble : String)
  | exit (i : Nat)
deriving DecidableEq, Repr

variable (normalize : String → String)

/-- `_start_wake_display`. -/
def startWakeDisplay (st : State) (sessionNumber turnNumber : Option Int)
    (wakeStream userTurn : Bool) : State :=
  if !wakeStream || st.registered.isSome || userTurn then st
  else
    { st with
      displays := st.displays ++ [{ sessionNumber := sessionNumber, turnNumber := turnNumber }]
      registered := some st.displays.length
      tombstone := none }

/-- The notice that follows a reply. -/
def notices (notice : Option String) : List Shown :=
  match notice with
  | none => []
  | some text => if text = "" then [] else [.sent ("System: " ++ text)]

/-- `finish`. -/
def finish (st : State) (i : Nat) (d : Display) (chatResult : ChatResult) : State :=
  { st with
    displays := st.displays.set i { d with result := some chatResult }
    tombstone := st.tombstone.filter fun t =>
      !(t.sessionNumber == d.sessionNumber && t.turnNumber == d.turnNumber) }

/-- `_deliver` up to the end of its locked block. -/
def route (st : State) (chatResult : ChatResult) : State :=
  let st := { st with popped := st.popped ++ [chatResult] }
  if chatResult.transient then { st with delivery := .sending chatResult }
  else
    match st.registered.bind fun i => (st.displays[i]?).map fun d => (i, d) with
    | some (i, d) => finish st i d chatResult
    | none => { st with delivery := .unrouted chatResult }

/-- The tombstone is of the turn the result is of. -/
def sameTurn (t : WakeTombstone) (chatResult : ChatResult) : Bool :=
  t.sessionNumber.isSome && t.sessionNumber == chatResult.sessionNumber &&
    t.turnNumber == chatResult.turnNumber

/-- `incoming[len(full):]` if `incoming.startswith(full)`. -/
def extension (full incoming : String) : Option String :=
  (full.toList.isPrefixOf? incoming.toList).map String.ofList

/-- The comparison of `_deliver_against_tombstone`: what the chat sees, and whether the
result is handled.  `none` is the `TypeError` without the content of the last bubble. -/
def fold (t : WakeTombstone) (chatResult : ChatResult) : Option (List Shown × Bool) :=
  let incoming := normalize chatResult.reply
  if incoming = t.fullText then some ([], true)
  else
    match extension t.fullText incoming with
    | none => some ([], false)
    | some delta =>
        t.lastBubbleContent.map fun content =>
          if content ≠ "" ∧ (content ++ delta).length ≤ 4096 then
            (t.lastMessageId.toList.map fun messageId => .edited messageId (content ++ delta), true)
          else ([.sent delta], true)

/-- The next step of the delivery worker inside `_deliver`. -/
def deliverStep (st : State) : Option State :=
  match st.delivery with
  | .idle => none
  | .unrouted chatResult =>
      some { st with
        delivery :=
          match st.tombstone with
          | none => .sending chatResult
          | some t =>
              if t.lastMessageId.isSome && sameTurn t chatResult &&
                  normalize chatResult.reply != "" then .matched chatResult t
              else .sending chatResult }
  | .matched chatResult t =>
      some { st with tombstone := none, delivery := .folding chatResult t }
  | .folding chatResult t =>
      match fold normalize t chatResult with
      | none => some { st with delivery := .idle }
      | some (seen, true) => some { st with log := st.log ++ seen, delivery := .idle }
      | some (seen, false) =>
          some { st with log := st.log ++ seen, delivery := .sending chatResult }
  | .sending chatResult =>
      some { st with
        log := st.log ++ (if chatResult.reply = "" then [] else [.sent chatResult.reply]) ++
          notices chatResult.notice
        delivery := .idle }

/-- `d` goes on as `d'`. -/
def become (st : State) (i : Nat) (d' : Display) : State :=
  { st with displays := st.displays.set i d' }

/-- One poll of the loop of `run`. -/
def pollStep (st : State) (i : Nat) (d : Display) (running : Bool) (messageText : String) :
    Option State :=
  match d.phase, d.result with
  | .polling lastDisplay, none =>
      some (become st i
        { d with
          phase :=
            if running then
              .polling (if normalize messageText = "" then lastDisplay else normalize messageText)
            else .waiting lastDisplay })
  | _, _ => none

/-- `display.finalize(result)`.  What was sent or committed is not empty. -/
def finalizeStep (st : State) (i : Nat) (d : Display) (lastMessageId : Option Int)
    (lastBubble : String) : Option State :=
  match d.phase with
  | .finalizing chosen lastDisplay =>
      if lastMessageId.isSome && lastBubble == "" then none
      else
        let reply := (chosen.map ChatResult.reply).getD lastDisplay
        if (chosen.map ChatResult.continuation).getD false then
          some (become st i { d with phase := .exiting "" none "" })
        else
          some (become
            { st with
              log := st.log ++ [.finalized (normalize reply) lastMessageId lastBubble] ++
                notices (chosen.bind ChatResult.notice) }
            i { d with phase := .exiting (normalize reply) lastMessageId lastBubble })
  | _ => none

/-- The tombstone of a display that got no result. -/
def tombstoneOf (d : Display) (finalText : String) (lastMessageId : Option Int)
    (lastBubble : String) : WakeTombstone where
  fullText := finalText
  lastMessageId := lastMessageId
  lastBubbleContent := if lastBubble = "" then none else some lastBubble
  sessionNumber := d.sessionNumber
  turnNumber := d.turnNumber

/-- The locked block at the end of `run`. -/
def exitStep (st : State) (i : Nat) (d : Display) : Option State :=
  match d.phase with
  | .exiting finalText lastMessageId lastBubble =>
      some { become st i { d with phase := .finished } with
        registered := if st.registered = some i then none else st.registered
        tombstone :=
          if d.result = none ∧ finalText ≠ "" then
            some (tombstoneOf d finalText lastMessageId lastBubble)
          else st.tombstone }
  | _ => none

/-- One step. -/
def step (st : State) : Label → Option State
  | .marker sessionNumber turnNumber wakeStream userTurn =>
      if st.delivery = .idle then
        some (startWakeDisplay st sessionNumber turnNumber wakeStream userTurn)
      else none
  | .result chatResult => if st.delivery = .idle then some (route st chatResult) else none
  | .deliver => deliverStep normalize st
  | .poll i running messageText =>
      (st.displays[i]?).bind fun d => pollStep normalize st i d running messageText
  | .leaveLoop i =>
      (st.displays[i]?).bind fun d =>
        match d.phase with
        | .polling lastDisplay => some (become st i { d with phase := .waiting lastDisplay })
        | _ => none
  | .choose i =>
      (st.displays[i]?).bind fun d =>
        match d.phase with
        | .waiting lastDisplay =>
            some (become st i { d with phase := .finalizing d.result lastDisplay })
        | _ => none
  | .finalize i lastMessageId lastBubble =>
      (st.displays[i]?).bind fun d => finalizeStep normalize st i d lastMessageId lastBubble
  | .exit i => (st.displays[i]?).bind fun d => exitStep st i d

end Model

section Claim

variable (normalize : String → String)

/-- A text has reached the chat: a display finalized it, a message with it was sent, or
a finalized text was extended to it in its last bubble or by another message. -/
def Reached (log : List Shown) (text : String) : Prop :=
  (∃ messageId bubble, .finalized text messageId bubble ∈ log) ∨
    (∃ raw, .sent raw ∈ log ∧ normalize raw = text) ∨
      ∃ full delta messageId bubble, .finalized full (some messageId) bubble ∈ log ∧
        text = full ++ delta ∧ (.edited messageId (bubble ++ delta) ∈ log ∨ .sent delta ∈ log)

/-- The reply of a result, if it has one, has reached the chat. -/
def ReplyReached (log : List Shown) (chatResult : ChatResult) : Prop :=
  chatResult.reply = "" ∨ Reached normalize log (normalize chatResult.reply)

/-- The steps the threads take by themselves; a display polls until the turn or its time
is over. -/
def Label.isOwn : Label → Bool
  | .deliver => true
  | .leaveLoop _ => true
  | .choose _ => true
  | .finalize _ _ _ => true
  | .exit _ => true
  | _ => false

/-- No thread has a step left to take by itself. -/
def Quiet (st : State) : Prop := ∀ a, a.isOwn = true → step normalize st a = none

def Phase.rank : Phase → Nat
  | .polling _ => 4
  | .waiting _ => 3
  | .finalizing _ _ => 2
  | .exiting _ _ _ => 1
  | .finished => 0

def Delivery.rank : Delivery → Nat
  | .idle => 0
  | .unrouted _ => 4
  | .matched _ _ => 3
  | .folding _ _ => 2
  | .sending _ => 1

/-- The steps all threads have left at most, polls not counted. -/
def remaining (st : State) : Nat :=
  left (fun d => d.phase.rank) st.displays + st.delivery.rank

/-- The display has not chosen what it finalizes. -/
def Phase.unchosen : Phase → Bool
  | .polling _ => true
  | .waiting _ => true
  | _ => false

/-- The condition: a result that is not transient and finds a display registered finds
it without a result and before its choice, and is not a continuation. -/
def Regular (st : State) : Label → Prop
  | .result chatResult =>
      chatResult.transient = false → ∀ (i : Nat) (d : Display), st.registered = some i →
        st.displays[i]? = some d →
          d.result = none ∧ d.phase.unchosen = true ∧ chatResult.continuation = false
  | _ => True

end Claim

section Accounts

variable {normalize : String → String} {st st' : State} {log log' : List Shown}

def Delivery.holds (chatResult : ChatResult) : Delivery → Prop
  | .idle => False
  | .unrouted r => r = chatResult
  | .matched r _ => r = chatResult
  | .folding r _ => r = chatResult
  | .sending r => r = chatResult

/-- The display is going to finalize this result. -/
def Display.holds (chatResult : ChatResult) (d : Display) : Prop :=
  match d.phase with
  | .polling _ => d.result = some chatResult
  | .waiting _ => d.result = some chatResult
  | .finalizing chosen _ => chosen = some chatResult
  | _ => False

/-- The reply has reached the chat, or a thread has the result in hand. -/
def Accounted (normalize : String → String) (st : State) (chatResult : ChatResult) : Prop :=
  ReplyReached normalize st.log chatResult ∨ st.delivery.holds chatResult ∨
    ∃ (i : Nat) (d : Display), st.displays[i]? = some d ∧ d.holds chatResult ∧
      chatResult.continuation = false

/-- The text of a tombstone was finalized, with the content of its last bubble. -/
def TombstoneShown (log : List Shown) (t : WakeTombstone) : Prop :=
  ∃ bubble, .finalized t.fullText t.lastMessageId bubble ∈ log ∧
    t.lastBubbleContent = (if bubble = "" then none else some bubble) ∧
      (t.lastMessageId.isSome = true → bubble ≠ "")

theorem reached_mono
    {text : String}
    (hlog : ∀ s ∈ log, s ∈ log')
    (h : Reached normalize log text) :
    Reached normalize log' text := by
  rcases h with ⟨messageId, bubble, hmem⟩ | ⟨raw, hmem, htext⟩ |
    ⟨full, delta, messageId, bubble, hmem, htext, hmore⟩
  · exact Or.inl ⟨messageId, bubble, hlog _ hmem⟩
  · exact Or.inr (Or.inl ⟨raw, hlog _ hmem, htext⟩)
  · exact Or.inr (Or.inr ⟨full, delta, messageId, bubble, hlog _ hmem, htext,
      hmore.imp (hlog _) (hlog _)⟩)

theorem replyReached_mono
    {chatResult : ChatResult}
    (hlog : ∀ s ∈ log, s ∈ log')
    (h : ReplyReached normalize log chatResult) :
    ReplyReached normalize log' chatResult :=
  h.imp_right (reached_mono hlog)

theorem tombstoneShown_mono
    {t : WakeTombstone}
    (hlog : ∀ s ∈ log, s ∈ log')
    (h : TombstoneShown log t) :
    TombstoneShown log' t := by
  obtain ⟨bubble, hmem, hcontent⟩ := h
  exact ⟨bubble, hlog _ hmem, hcontent⟩

theorem isPrefixOf?_eq_some
    {xs ys zs : List Char}
    (h : xs.isPrefixOf? ys = some zs) :
    ys = xs ++ zs := by
  induction xs generalizing ys with
  | nil => exact Option.some.inj h
  | cons x xs ih =>
      cases ys with
      | nil => cases h
      | cons y ys =>
          rw [List.isPrefixOf?] at h
          split_ifs at h with hxy
          rw [ih h, eq_of_beq hxy, List.cons_append]

theorem extension_eq_some
    {full incoming delta : String}
    (h : extension full incoming = some delta) :
    incoming = full ++ delta := by
  obtain ⟨rest, hrest, rfl⟩ := Option.map_eq_some_iff.mp h
  refine String.toList_inj.mp ?_
  rw [String.toList_append, String.toList_ofList]
  exact isPrefixOf?_eq_some hrest

/-- A matched tombstone is never without the content of its last bubble, and what it
handles has reached the chat. -/
theorem fold_spec
    {t : WakeTombstone}
    (normalize : String → String) (chatResult : ChatResult)
    (h : TombstoneShown log t)
    (hsent : t.lastMessageId.isSome = true) :
    ∃ seen handled, fold normalize t chatResult = some (seen, handled) ∧
      (handled = true → ReplyReached normalize (log ++ seen) chatResult) := by
  obtain ⟨bubble, hmem, hcontent, hbubble⟩ := h
  obtain ⟨messageId, hid⟩ := Option.isSome_iff_exists.mp hsent
  have hne := hbubble hsent
  rw [if_neg hne] at hcontent
  rw [hid] at hmem
  unfold fold
  dsimp only
  split_ifs with hequal
  · refine ⟨_, _, rfl, fun _ => Or.inr (Or.inl ⟨some messageId, bubble, ?_⟩)⟩
    rw [hequal, List.append_nil]
    exact hmem
  · cases hext : extension t.fullText (normalize chatResult.reply) with
    | none => exact ⟨_, _, rfl, fun hno => (nomatch hno)⟩
    | some delta =>
        have hfold : ∀ seen, (.edited messageId (bubble ++ delta) ∈ seen ∨ .sent delta ∈ seen) →
            ReplyReached normalize (log ++ seen) chatResult := by
          intro seen hseen
          exact Or.inr (Or.inr (Or.inr ⟨t.fullText, delta, messageId, bubble,
            List.mem_append_left _ hmem, extension_eq_some hext,
            hseen.imp (List.mem_append_right _) (List.mem_append_right _)⟩))
        dsimp only
        rw [hcontent, Option.map_some]
        split_ifs
        · refine ⟨_, _, rfl, fun _ => hfold _ (Or.inl ?_)⟩
          rw [hid]
          exact List.mem_singleton_self _
        · exact ⟨_, _, rfl, fun _ => hfold _ (Or.inr (List.mem_singleton_self _))⟩

end Accounts

section Steps

variable {normalize : String → String} {st st' : State} {i : Nat} {d : Display}

/-- Tombstones and exiting displays speak of texts that were finalized, and every popped
result is accounted for. -/
structure Kept (normalize : String → String) (st : State) : Prop where
  standing : ∀ t, st.tombstone = some t → TombstoneShown st.log t
  compared : ∀ r t, st.delivery = .matched r t ∨ st.delivery = .folding r t →
    TombstoneShown st.log t ∧ t.lastMessageId.isSome = true
  exiting : ∀ (i : Nat) (d : Display), st.displays[i]? = some d → ∀ text messageId bubble,
    d.phase = .exiting text messageId bubble → text ≠ "" →
      TombstoneShown st.log (tombstoneOf d text messageId bubble)
  accounted : ∀ r ∈ st.popped, Accounted normalize st r

/-- What a step owes: the results that a thread had in hand. -/
theorem accounted_of
    {chatResult : ChatResult}
    (h : Accounted normalize st chatResult)
    (hlog : ∀ s ∈ st.log, s ∈ st'.log)
    (hdelivery : st.delivery.holds chatResult → Accounted normalize st' chatResult)
    (hdisplay : ∀ (i : Nat) (d : Display), st.displays[i]? = some d → d.holds chatResult →
      chatResult.continuation = false → Accounted normalize st' chatResult) :
    Accounted normalize st' chatResult := by
  rcases h with hreached | hholds | ⟨i, d, hd, hholds, hfinal⟩
  · exact Or.inl (replyReached_mono hlog hreached)
  · exact hdelivery hholds
  · exact hdisplay i d hd hholds hfinal

/-- A display goes on. -/
theorem kept_become
    {d' : Display} {log : List Shown}
    (h : Kept normalize st)
    (hd : st.displays[i]? = some d)
    (hlog : ∀ s ∈ st.log, s ∈ log)
    (hexiting : ∀ text messageId bubble, d'.phase = .exiting text messageId bubble → text ≠ "" →
      TombstoneShown log (tombstoneOf d' text messageId bubble))
    (hholds : ∀ r, r.continuation = false → d.holds r →
      d'.holds r ∨ ReplyReached normalize log r) :
    Kept normalize { st with displays := st.displays.set i d', log := log } where
  standing := fun t ht => tombstoneShown_mono hlog (h.standing t ht)
  compared := fun r t hrt => ⟨tombstoneShown_mono hlog (h.compared r t hrt).1, (h.compared r t hrt).2⟩
  exiting := by
    intro j e he text messageId bubble hphase htext
    rcases of_getElem?_set he with ⟨rfl, rfl⟩ | ⟨_, he⟩
    · exact hexiting text messageId bubble hphase htext
    · exact tombstoneShown_mono hlog (h.exiting j e he text messageId bubble hphase htext)
  accounted := by
    intro r hr
    refine accounted_of (h.accounted r hr) hlog (fun hdelivery => Or.inr (Or.inl hdelivery))
      fun j e he hhas hfinal => ?_
    rcases eq_or_ne i j with rfl | hij
    · obtain rfl : d = e := Option.some.inj (hd.symm.trans he)
      rcases hholds r hfinal hhas with hnow | hreached
      · exact Or.inr (Or.inr ⟨i, d', getElem?_set_of_some hd, hnow, hfinal⟩)
      · exact Or.inl hreached
    · refine Or.inr (Or.inr ⟨j, e, ?_, hhas, hfinal⟩)
      dsimp only
      rw [List.getElem?_set_ne hij]
      exact he

/-- The delivery worker goes on. -/
theorem kept_delivery
    {delivery : Delivery} {tombstone : Option WakeTombstone} {log : List Shown}
    (h : Kept normalize st)
    (hlog : ∀ s ∈ st.log, s ∈ log)
    (htombstone : ∀ t, tombstone = some t → st.tombstone = some t)
    (hcompared : ∀ r t, delivery = .matched r t ∨ delivery = .folding r t →
      TombstoneShown st.log t ∧ t.lastMessageId.isSome = true)
    (hholds : ∀ r, st.delivery.holds r → delivery.holds r ∨ ReplyReached normalize log r) :
    Kept normalize { st with delivery := delivery, tombstone := tombstone, log := log } where
  standing := fun t ht => tombstoneShown_mono hlog (h.standing t (htombstone t ht))
  compared := fun r t hrt => ⟨tombstoneShown_mono hlog (hcompared r t hrt).1, (hcompared r t hrt).2⟩
  exiting := fun i d hd text messageId bubble hphase htext =>
    tombstoneShown_mono hlog (h.exiting i d hd text messageId bubble hphase htext)
  accounted := by
    intro r hr
    refine accounted_of (h.accounted r hr) hlog (fun hdelivery => ?_)
      fun j e he hhas hfinal => Or.inr (Or.inr ⟨j, e, he, hhas, hfinal⟩)
    rcases hholds r hdelivery with hnow | hreached
    · exact Or.inr (Or.inl hnow)
    · exact Or.inl hreached

theorem mem_append_notices
    {log : List Shown} {seen : List Shown} {notice : Option String} {s : Shown}
    (h : s ∈ log) :
    s ∈ log ++ seen ++ notices notice :=
  List.mem_append_left _ (List.mem_append_left _ h)

/-- Every step of the delivery worker inside `_deliver`. -/
theorem kept_deliver
    (h : Kept normalize st)
    (hstep : deliverStep normalize st = some st') :
    Kept normalize st' := by
  unfold deliverStep at hstep
  cases hdelivery : st.delivery with
  | idle =>
      rw [hdelivery] at hstep
      cases hstep
  | unrouted r =>
      rw [hdelivery] at hstep
      obtain rfl := Option.some.inj hstep
      have hholds : ∀ delivery : Delivery, delivery.holds r → ∀ x, st.delivery.holds x →
          delivery.holds x ∨ ReplyReached normalize st.log x := by
        intro delivery hr x hx
        rw [hdelivery] at hx
        obtain rfl : r = x := hx
        exact Or.inl hr
      cases htombstone : st.tombstone with
      | none =>
          refine kept_delivery h (fun _ hs => hs) (fun t ht => htombstone.trans ht) (fun x t hxt => ?_)
            (hholds _ rfl)
          rcases hxt with hxt | hxt <;> cases hxt
      | some t =>
          dsimp only
          split_ifs with hmatches
          · refine kept_delivery h (fun _ hs => hs) (fun t ht => htombstone.trans ht) (fun x u hxu => ?_)
              (hholds _ rfl)
            rcases hxu with hxu | hxu
            · obtain ⟨rfl, rfl⟩ := Delivery.matched.inj hxu
              rw [Bool.and_eq_true, Bool.and_eq_true] at hmatches
              exact ⟨h.standing t htombstone, hmatches.1.1⟩
            · cases hxu
          · refine kept_delivery h (fun _ hs => hs) (fun t ht => htombstone.trans ht) (fun x t hxt => ?_)
              (hholds _ rfl)
            rcases hxt with hxt | hxt <;> cases hxt
  | matched r t =>
      rw [hdelivery] at hstep
      obtain rfl := Option.some.inj hstep
      refine kept_delivery h (fun _ hs => hs) (fun u hu => (nomatch hu)) (fun x u hxu => ?_)
        fun x hx => ?_
      · rcases hxu with hxu | hxu
        · cases hxu
        · obtain ⟨rfl, rfl⟩ := Delivery.folding.inj hxu
          exact h.compared r t (Or.inl hdelivery)
      · rw [hdelivery] at hx
        exact Or.inl hx
  | folding r t =>
      obtain ⟨hshown, hsent⟩ := h.compared r t (Or.inr hdelivery)
      obtain ⟨seen, handled, hfold, hreached⟩ := fold_spec normalize r hshown hsent
      rw [hdelivery] at hstep
      dsimp only at hstep
      rw [hfold] at hstep
      cases handled with
      | true =>
          obtain rfl := Option.some.inj hstep
          refine kept_delivery h (fun _ hs => List.mem_append_left _ hs) (fun u hu => hu)
            (fun x u hxu => ?_) fun x hx => ?_
          · rcases hxu with hxu | hxu <;> cases hxu
          · rw [hdelivery] at hx
            obtain rfl : r = x := hx
            exact Or.inr (hreached rfl)
      | false =>
          obtain rfl := Option.some.inj hstep
          refine kept_delivery h (fun _ hs => List.mem_append_left _ hs) (fun u hu => hu)
            (fun x u hxu => ?_) fun x hx => ?_
          · rcases hxu with hxu | hxu <;> cases hxu
          · rw [hdelivery] at hx
            exact Or.inl hx
  | sending r =>
      rw [hdelivery] at hstep
      obtain rfl := Option.some.inj hstep
      refine kept_delivery h (fun _ hs => mem_append_notices hs) (fun u hu => hu)
        (fun x u hxu => ?_) fun x hx => ?_
      · rcases hxu with hxu | hxu <;> cases hxu
      · rw [hdelivery] at hx
        obtain rfl : r = x := hx
        by_cases hempty : r.reply = ""
        · exact Or.inr (Or.inl hempty)
        · refine Or.inr (Or.inr (Or.inr (Or.inl ⟨r.reply, ?_, rfl⟩)))
          rw [if_neg hempty]
          exact List.mem_append_left _ (List.mem_append_right _ (List.mem_singleton_self _))

/-- A result is popped, and routed to a display that takes it or kept in hand. -/
theorem kept_route
    {r : ChatResult}
    (h : Kept normalize st)
    (hidle : st.delivery = .idle)
    (hreg : Regular st (.result r)) :
    Kept normalize (route st r) := by
  have hkept : ∀ delivery : Delivery, delivery.holds r →
      (∀ x t, delivery ≠ .matched x t ∧ delivery ≠ .folding x t) →
      Kept normalize { st with popped := st.popped ++ [r], delivery := delivery } := by
    intro delivery hr hnot
    refine ⟨h.standing, fun x t hxt => ?_, h.exiting, fun x hx => ?_⟩
    · rcases hxt with hxt | hxt
      · exact absurd hxt (hnot x t).1
      · exact absurd hxt (hnot x t).2
    · rcases List.mem_append.mp hx with hx | hx
      · refine accounted_of (h.accounted x hx) (fun _ hs => hs) (fun hold => ?_)
          fun j e he hhas hfinal => Or.inr (Or.inr ⟨j, e, he, hhas, hfinal⟩)
        rw [hidle] at hold
        exact hold.elim
      · obtain rfl := List.mem_singleton.mp hx
        exact Or.inr (Or.inl hr)
  unfold route
  dsimp only
  split_ifs with htransient
  · exact hkept _ rfl fun _ _ => ⟨by simp, by simp⟩
  · split
    · rename_i i d hfound
      obtain ⟨j, hj, hmap⟩ := Option.bind_eq_some_iff.mp hfound
      obtain ⟨e, he, heq⟩ := Option.map_eq_some_iff.mp hmap
      cases heq
      obtain ⟨hnone, hunchosen, hfinal⟩ := hreg (by simpa using htransient) i d hj he
      have hholds : ({ d with result := some r } : Display).holds r := by
        unfold Display.holds
        cases hphase : d.phase with
        | polling lastDisplay => rfl
        | waiting lastDisplay => rfl
        | _ => rw [hphase] at hunchosen; cases hunchosen
      refine ⟨fun t ht => ?_, fun x t hxt => ?_, fun j e' he' => ?_, fun x hx => ?_⟩
      · exact h.standing t (Option.filter_eq_some_iff.mp ht).1
      · exact h.compared x t hxt
      · rcases of_getElem?_set he' with ⟨rfl, rfl⟩ | ⟨_, he'⟩
        · intro text messageId bubble hphase
          rw [hphase] at hunchosen
          cases hunchosen
        · exact h.exiting j e' he'
      · rcases List.mem_append.mp hx with hx | hx
        · refine accounted_of (h.accounted x hx) (fun _ hs => hs)
            (fun hold => Or.inr (Or.inl hold)) fun j e' he' hhas hx' => ?_
          rcases eq_or_ne i j with rfl | hij
          · -- it had no result
            obtain rfl : d = e' := Option.some.inj (he.symm.trans he')
            unfold Display.holds at hhas
            cases hphase : d.phase with
            | polling lastDisplay => rw [hphase] at hhas; cases hnone.symm.trans hhas
            | waiting lastDisplay => rw [hphase] at hhas; cases hnone.symm.trans hhas
            | _ => rw [hphase] at hunchosen; cases hunchosen
          · refine Or.inr (Or.inr ⟨j, e', ?_, hhas, hx'⟩)
            show (st.displays.set i _)[j]? = some e'
            rw [List.getElem?_set_ne hij]
            exact he'
        · obtain rfl := List.mem_singleton.mp hx
          exact Or.inr (Or.inr ⟨i, _, getElem?_set_of_some he, hholds, hfinal⟩)
    · exact hkept _ rfl fun _ _ => ⟨by simp, by simp⟩

theorem kept_marker
    {sessionNumber turnNumber : Option Int} {wakeStream userTurn : Bool}
    (h : Kept normalize st) :
    Kept normalize (startWakeDisplay st sessionNumber turnNumber wakeStream userTurn) := by
  unfold startWakeDisplay
  split_ifs
  · exact h
  · refine ⟨fun t ht => (nomatch ht), h.compared, fun j e he => ?_, fun x hx => ?_⟩
    · rcases of_getElem?_concat he with ⟨_, rfl⟩ | ⟨_, he⟩
      · exact fun text messageId bubble hphase => (nomatch hphase)
      · exact h.exiting j e he
    · exact accounted_of (h.accounted x hx) (fun _ hs => hs)
        (fun hold => Or.inr (Or.inl hold)) fun j e he hhas hfinal =>
          Or.inr (Or.inr ⟨j, e, getElem?_concat_of_some he, hhas, hfinal⟩)

theorem kept_finalize
    {lastMessageId : Option Int} {lastBubble : String}
    (h : Kept normalize st)
    (hd : st.displays[i]? = some d)
    (hstep : finalizeStep normalize st i d lastMessageId lastBubble = some st') :
    Kept normalize st' := by
  unfold finalizeStep at hstep
  split at hstep
  · rename_i chosen lastDisplay hphase
    dsimp only at hstep
    split_ifs at hstep with hbubble hcontinues
    · -- a continuation is not in the account of a display
      obtain rfl := Option.some.inj hstep
      refine kept_become h hd (fun _ hs => hs) (fun text messageId bubble hexit htext => ?_)
        fun r hfinal hhas => ?_
      · obtain ⟨rfl, _⟩ := Phase.exiting.inj hexit
        exact absurd rfl htext
      · rw [Display.holds, hphase] at hhas
        rw [hhas] at hcontinues
        exact absurd (hfinal.symm.trans hcontinues) Bool.false_ne_true
    · obtain rfl := Option.some.inj hstep
      generalize hreply : normalize ((chosen.map ChatResult.reply).getD lastDisplay) = text
      have hmem : Shown.finalized text lastMessageId lastBubble ∈
          st.log ++ [.finalized text lastMessageId lastBubble] ++
            notices (chosen.bind ChatResult.notice) :=
        List.mem_append_left _ (List.mem_append_right _ (List.mem_singleton_self _))
      have hnext : Kept normalize { st with
          displays := st.displays.set i
            { d with phase := .exiting text lastMessageId lastBubble }
          log := st.log ++ [.finalized text lastMessageId lastBubble] ++
            notices (chosen.bind ChatResult.notice) } := by
        refine kept_become h hd (fun _ hs => mem_append_notices hs)
          (fun text' messageId bubble hexit _ => ?_) fun r _ hhas => ?_
        · obtain ⟨rfl, rfl, rfl⟩ := Phase.exiting.inj hexit
          refine ⟨lastBubble, hmem, rfl, fun hsome hempty => hbubble ?_⟩
          rw [hempty]
          exact (Bool.and_true _).trans hsome
        · rw [Display.holds, hphase] at hhas
          obtain rfl : chosen = some r := hhas
          refine Or.inr (Or.inr (Or.inl ⟨lastMessageId, lastBubble, ?_⟩))
          obtain rfl : normalize r.reply = text := hreply
          exact hmem
      exact hnext
  · cases hstep

theorem kept_exit
    (h : Kept normalize st)
    (hd : st.displays[i]? = some d)
    (hstep : exitStep st i d = some st') :
    Kept normalize st' := by
  unfold exitStep at hstep
  split at hstep
  · rename_i text messageId bubble hphase
    obtain rfl := Option.some.inj hstep
    have hbecome : Kept normalize { st with
        displays := st.displays.set i { d with phase := .finished }
        log := st.log } := by
      refine kept_become h hd (fun _ hs => hs) (fun _ _ _ hexit => (nomatch hexit)) fun r _ hhas => ?_
      rw [Display.holds, hphase] at hhas
      exact hhas.elim
    refine ⟨fun t ht => ?_, hbecome.compared, hbecome.exiting, hbecome.accounted⟩
    dsimp only at ht
    split_ifs at ht with hmissed
    · obtain rfl := Option.some.inj ht
      exact h.exiting i d hd text messageId bubble hphase hmissed.2
    · exact h.standing t ht
  · cases hstep

theorem kept_step
    {a : Label}
    (h : Kept normalize st)
    (hreg : Regular st a)
    (hstep : step normalize st a = some st') :
    Kept normalize st' := by
  cases a with
  | marker sessionNumber turnNumber wakeStream userTurn =>
      simp only [step] at hstep
      split_ifs at hstep
      obtain rfl := Option.some.inj hstep
      exact kept_marker h
  | result r =>
      simp only [step] at hstep
      split_ifs at hstep with hidle
      obtain rfl := Option.some.inj hstep
      exact kept_route h hidle hreg
  | deliver => exact kept_deliver h hstep
  | poll i running messageText =>
      obtain ⟨d, hd, hpoll⟩ := Option.bind_eq_some_iff.mp hstep
      unfold pollStep at hpoll
      split at hpoll
      · rename_i lastDisplay hphase hresult
        obtain rfl := Option.some.inj hpoll
        refine kept_become h hd (fun _ hs => hs) (fun _ _ _ hexit => ?_) fun r _ hhas => ?_
        · dsimp only at hexit
          split_ifs at hexit
        · rw [Display.holds, hphase] at hhas
          cases hresult.symm.trans hhas
      · cases hpoll
  | leaveLoop i =>
      obtain ⟨d, hd, hleave⟩ := Option.bind_eq_some_iff.mp hstep
      split at hleave
      · rename_i lastDisplay hphase
        obtain rfl := Option.some.inj hleave
        refine kept_become h hd (fun _ hs => hs) (fun _ _ _ hexit => (nomatch hexit))
          fun r _ hhas => Or.inl ?_
        rw [Display.holds, hphase] at hhas
        exact hhas
      · cases hleave
  | choose i =>
      obtain ⟨d, hd, hchoose⟩ := Option.bind_eq_some_iff.mp hstep
      split at hchoose
      · rename_i lastDisplay hphase
        obtain rfl := Option.some.inj hchoose
        refine kept_become h hd (fun _ hs => hs) (fun _ _ _ hexit => (nomatch hexit))
          fun r _ hhas => Or.inl ?_
        rw [Display.holds, hphase] at hhas
        exact hhas
      · cases hchoose
  | finalize i lastMessageId lastBubble =>
      obtain ⟨d, hd, hfinalize⟩ := Option.bind_eq_some_iff.mp hstep
      exact kept_finalize h hd hfinalize
  | exit i =>
      obtain ⟨d, hd, hexit⟩ := Option.bind_eq_some_iff.mp hstep
      exact kept_exit h hd hexit

theorem kept_initial : Kept normalize initial where
  standing := fun _ ht => nomatch ht
  compared := fun _ _ hrt => hrt.elim (fun h => nomatch h) fun h => nomatch h
  exiting := fun _ _ hd => nomatch hd
  accounted := fun _ hr => nomatch hr

end Steps

section Progress

variable {normalize : String → String} {st st' : State} {i : Nat} {d : Display}

theorem remaining_become
    (hd : st.displays[i]? = some d)
    (d' : Display) (log : List Shown) :
    remaining { st with displays := st.displays.set i d', log := log } + d.phase.rank =
      remaining st + d'.phase.rank := by
  have hleft := left_set (t := d') (fun d => d.phase.rank) hd
  unfold remaining
  dsimp only at hleft ⊢
  omega

theorem remaining_deliver
    (hstep : deliverStep normalize st = some st') :
    remaining st' < remaining st := by
  unfold deliverStep at hstep
  cases hdelivery : st.delivery with
  | idle =>
      rw [hdelivery] at hstep
      cases hstep
  | unrouted r =>
      rw [hdelivery] at hstep
      obtain rfl := Option.some.inj hstep
      unfold remaining
      rw [hdelivery]
      dsimp only
      split
      · dsimp only [Delivery.rank]
        omega
      · split_ifs <;> dsimp only [Delivery.rank] <;> omega
  | matched r t =>
      rw [hdelivery] at hstep
      obtain rfl := Option.some.inj hstep
      unfold remaining
      rw [hdelivery]
      dsimp only [Delivery.rank]
      omega
  | folding r t =>
      rw [hdelivery] at hstep
      dsimp only at hstep
      split at hstep
      all_goals
        obtain rfl := Option.some.inj hstep
        unfold remaining
        rw [hdelivery]
        dsimp only [Delivery.rank]
        omega
  | sending r =>
      rw [hdelivery] at hstep
      obtain rfl := Option.some.inj hstep
      unfold remaining
      rw [hdelivery]
      dsimp only [Delivery.rank]
      omega

theorem remaining_own
    {a : Label}
    (hown : a.isOwn = true)
    (hstep : step normalize st a = some st') :
    remaining st' < remaining st := by
  cases a with
  | marker sessionNumber turnNumber wakeStream userTurn => cases hown
  | result r => cases hown
  | poll i running messageText => cases hown
  | deliver => exact remaining_deliver hstep
  | leaveLoop i =>
      obtain ⟨d, hd, hleave⟩ := Option.bind_eq_some_iff.mp hstep
      split at hleave
      · rename_i lastDisplay hphase
        obtain rfl := Option.some.inj hleave
        have hmove := remaining_become hd { d with phase := .waiting lastDisplay } st.log
        rw [hphase] at hmove
        dsimp only [Phase.rank] at hmove
        exact Nat.lt_of_succ_le (by unfold become; omega)
      · cases hleave
  | choose i =>
      obtain ⟨d, hd, hchoose⟩ := Option.bind_eq_some_iff.mp hstep
      split at hchoose
      · rename_i lastDisplay hphase
        obtain rfl := Option.some.inj hchoose
        have hmove := remaining_become hd { d with phase := .finalizing d.result lastDisplay }
          st.log
        rw [hphase] at hmove
        dsimp only [Phase.rank] at hmove
        exact Nat.lt_of_succ_le (by unfold become; omega)
      · cases hchoose
  | finalize i lastMessageId lastBubble =>
      obtain ⟨d, hd, hfinalize⟩ := Option.bind_eq_some_iff.mp hstep
      unfold finalizeStep at hfinalize
      split at hfinalize
      · rename_i chosen lastDisplay hphase
        dsimp only at hfinalize
        split_ifs at hfinalize
        all_goals
          obtain rfl := Option.some.inj hfinalize
          have hmove := remaining_become hd
          rw [hphase] at hmove
          unfold become
        · have hlast := hmove { d with phase := .exiting "" none "" } st.log
          dsimp only [Phase.rank] at hlast
          omega
        · have hlast := hmove
            { d with
              phase := .exiting (normalize ((chosen.map ChatResult.reply).getD lastDisplay))
                lastMessageId lastBubble }
            (st.log ++ [.finalized (normalize ((chosen.map ChatResult.reply).getD lastDisplay))
              lastMessageId lastBubble] ++ notices (chosen.bind ChatResult.notice))
          dsimp only [Phase.rank] at hlast ⊢
          omega
      · cases hfinalize
  | exit i =>
      obtain ⟨d, hd, hexit⟩ := Option.bind_eq_some_iff.mp hstep
      unfold exitStep at hexit
      split at hexit
      · rename_i text messageId bubble hphase
        obtain rfl := Option.some.inj hexit
        have hmove := remaining_become hd { d with phase := .finished } st.log
        rw [hphase] at hmove
        unfold remaining at hmove ⊢
        unfold become
        dsimp only [Phase.rank] at hmove ⊢
        omega
      · cases hexit

end Progress

section Results

/-- The condition on the steps of `foldedLate`: no display is registered. -/
def regularCheck (st : State) : Label → Bool
  | .result _ => st.registered.isNone
  | _ => true

theorem regular_of_check
    (st : State) (a : Label)
    (h : regularCheck st a = true) :
    Regular st a := by
  cases a with
  | result r =>
      intro _ i d hi _
      rw [regularCheck, hi] at h
      cases h
  | _ => trivial

end Results

end WakeDisplay
end Telegram
end DiploidAgent
