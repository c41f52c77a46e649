import DiploidAgent.Lib.Runs
import DiploidAgent.Lib.Threads

/-!
# Turn workers of a Telegram chat

`TelegramPoller._handle_update`, `/continue`, `/stop` and `TurnWorker`, for one chat:
the poller thread and the worker threads it starts, each block under `_worker_lock` one
step.  Beside the state the inputs are kept as they arrived, and the turns as they were
begun.

`/continue` looks the worker up, tests it and then queues its input or replaces the
worker, in separate steps.  As long as it queues while a worker is registered, and
replaces while no worker has or may still take an input, the turns are those of the
arrived inputs in order (`inputs_run_once`).
-/

namespace DiploidAgent
namespace Telegram
namespace TurnWorkers

open Runs Threads

section Model

structure TelegramAttachment where
  kind : String
  fileId : String
  fileName : Option String := none
  mimeType : Option String := none
  fileSize : Option Int := none
deriving DecidableEq, Repr

structure ChatInput where
  chatId : Int
  messageId : Int
  text : String
  replyTo : Option String := none
  replyToIsBot : Option Bool := none
  replyToMessageId : Option Int := none
  callbackQueryId : Option String := none
  attachments : List TelegramAttachment := []
deriving DecidableEq, Repr

/-- Where a worker thread is.  `_running` is set from `looping` to `leaving`. -/
inductive Phase where
  | created (chatInput : ChatInput)
  | started (chatInput : ChatInput)
  | looping (chatInput : ChatInput)
  | turning (chatInput : ChatInput)
  | taking
  | popping
  | leaving
  | unregistering
  | closing
  | finished
deriving DecidableEq, Repr

/-- `TurnWorker`. -/
structure Worker where
  phase : Phase
  shouldStop : Bool := false
deriving DecidableEq, Repr

/-- Where the poller is inside `/continue` and `/stop`. -/
inductive Poller where
  | idle
  | found (continueInput : ChatInput) (worker : Option Nat)
  | steering (continueInput : ChatInput)
  | replacing (continueInput : ChatInput)
  | starting (worker : Nat)
  | stopping (worker : Option Nat)
deriving DecidableEq, Repr

/-- The workers in the order they were made, `_active_workers` and `_pending_inputs` of
the chat, the poller, the inputs that arrived, and the turns begun with their workers. -/
structure State where
  workers : List Worker := []
  active : Option Nat := none
  pending : List ChatInput := []
  poller : Poller := .idle
  arrived : List ChatInput := []
  ran : List (Nat × ChatInput) := []

def initial : State := {}

/-- What the poller receives, and who moves.  A turn may raise. -/
inductive Label where
  | message (chatInput : ChatInput)
  | continue (chatInput : ChatInput)
  | stop
  | poller
  | worker (i : Nat) (raises : Bool)
deriving DecidableEq, Repr

/-- `is_alive()`. -/
def Phase.isAlive : Phase → Bool
  | .created _ => false
  | .finished => false
  | _ => true

/-- `_running.is_set()`. -/
def Phase.isRunning : Phase → Bool
  | .looping _ => true
  | .turning _ => true
  | .taking => true
  | .popping => true
  | .leaving => true
  | _ => false

/-- The worker is looked up and tested. -/
def workerIs (st : State) (worker : Option Nat) (p : Phase → Bool) : Bool :=
  worker.any fun i => (st.workers[i]?).any fun w => p w.phase

/-- A worker is made, registered and started. -/
def startWorker (st : State) (next : ChatInput) : State :=
  { st with
    workers := st.workers ++ [{ phase := .started next }]
    active := some st.workers.length }

/-- The last block of `_handle_update`. -/
def handleMessage (st : State) (chatInput : ChatInput) : State :=
  let st := { st with
    pending := st.pending ++ [chatInput]
    arrived := st.arrived ++ [chatInput] }
  if workerIs st st.active Phase.isAlive then st
  else
    match st.pending with
    | [] => st
    | next :: rest => startWorker { st with pending := rest } next

/-- The input of a `/continue` message. -/
def continueInput (chatInput : ChatInput) : ChatInput where
  chatId := chatInput.chatId
  messageId := chatInput.messageId
  text := "continue"
  replyTo := chatInput.replyTo
  replyToIsBot := chatInput.replyToIsBot
  replyToMessageId := chatInput.replyToMessageId

/-- The next step of the poller inside a command. -/
def pollerStep (st : State) : Option State :=
  match st.poller with
  | .idle => none
  | .found input worker =>
      some { st with
        poller :=
          if workerIs st worker Phase.isRunning then .steering input else .replacing input }
  | .steering input => some { st with pending := st.pending ++ [input], poller := .idle }
  | .replacing input =>
      some { st with
        workers := st.workers ++ [{ phase := .created input }]
        active := some st.workers.length
        poller := .starting st.workers.length }
  | .starting i =>
      match st.workers[i]? with
      | some { phase := .created input, shouldStop } =>
          some { st with
            workers := st.workers.set i { phase := .started input, shouldStop }
            poller := .idle }
      | _ => none
  | .stopping worker =>
      match worker.bind fun i => (st.workers[i]?).map fun w => (i, w) with
      | some (i, w) =>
          some { st with
            workers :=
              if w.phase.isAlive then st.workers.set i { w with shouldStop := true }
              else st.workers
            poller := .idle }
      | none => some { st with poller := .idle }

/-- The locked block at the end of `run`. -/
def exitBlock (st : State) (i : Nat) : State :=
  let st := { st with active := if st.active = some i then none else st.active }
  match st.active, st.pending with
  | none, next :: rest => startWorker { st with pending := rest } next
  | _, _ => st

/-- `w` moves to another phase. -/
def moveTo (st : State) (i : Nat) (w : Worker) (phase : Phase) : State :=
  { st with workers := st.workers.set i { w with phase := phase } }

/-- The next step of worker `i`. -/
def workerStep (st : State) (i : Nat) (w : Worker) (raises : Bool) : Option State :=
  match w.phase with
  | .created _ => none
  | .started input => some (moveTo st i w (.looping input))
  | .looping input =>
      some (moveTo { st with ran := st.ran ++ [(i, input)] } i w (.turning input))
  | .turning _ => some (moveTo st i w (if raises then .leaving else .taking))
  | .taking => some (moveTo st i w (if w.shouldStop then .leaving else .popping))
  | .popping =>
      match st.pending with
      | [] => some (moveTo st i w .leaving)
      | next :: rest => some (moveTo { st with pending := rest } i w (.looping next))
  | .leaving => some (moveTo st i w .unregistering)
  | .unregistering => some (exitBlock (moveTo st i w .closing) i)
  | .closing => some (moveTo st i w .finished)
  | .finished => none

/-- One step; the poller receives the next update when it is done with the last one. -/
def step (st : State) : Label → Option State
  | .message chatInput =>
      if st.poller = .idle then some (handleMessage st chatInput) else none
  | .continue chatInput =>
      if st.poller = .idle then
        some { st with
          arrived := st.arrived ++ [continueInput chatInput]
          poller := .found (continueInput chatInput) st.active }
      else none
  | .stop =>
      if st.poller = .idle then some { st with poller := .stopping st.active } else none
  | .poller => pollerStep st
  | .worker i raises => (st.workers[i]?).bind fun w => workerStep st i w raises

end Model

section Claim

/-- The worker has an input or may still take one. -/
def Phase.engaged : Phase → Bool
  | .created _ => true
  | .started _ => true
  | .looping _ => true
  | .turning _ => true
  | .taking => true
  | .popping => true
  | _ => false

def Phase.isTurning : Phase → Bool
  | .turning _ => true
  | _ => false

/-- The steps the threads take by themselves. -/
def Label.isOwn : Label → Bool
  | .poller => true
  | .worker _ _ => true
  | _ => false

/-- No thread has a step left to take by itself. -/
def Quiet (st : State) : Prop := ∀ a, a.isOwn = true → step st a = none

/-- The steps a worker has left at most, if it takes no further input. -/
def Phase.rank : Phase → Nat
  | .created _ => 9
  | .started _ => 8
  | .looping _ => 7
  | .turning _ => 6
  | .taking => 5
  | .popping => 4
  | .leaving => 3
  | .unregistering => 2
  | .closing => 1
  | .finished => 0

def Poller.rank : Poller → Nat
  | .idle => 0
  | .found _ _ => 12
  | .steering _ => 10
  | .replacing _ => 11
  | .starting _ => 1
  | .stopping _ => 1

/-- The steps all threads have left at most. -/
def remaining (st : State) : Nat :=
  left (fun w => w.phase.rank) st.workers + 9 * st.pending.length + st.poller.rank

/-- Every input runs exactly once and in order. -/
structure RunOnce (st : State) : Prop where
  inOrder : st.ran.map Prod.snd <+: st.arrived
  oneTurn : ∀ (i j : Nat) (w w' : Worker), st.workers[i]? = some w → st.workers[j]? = some w' →
    w.phase.isTurning = true → w'.phase.isTurning = true → i = j
  attended : st.pending ≠ [] → st.active.isSome = true
  ends : ∀ a st', a.isOwn = true → step st a = some st' → remaining st' < remaining st
  complete : Quiet st → st.ran.map Prod.snd = st.arrived

/-- The condition on `/continue`: it queues its input while a worker is registered, and
it replaces the worker while no worker is engaged and no input is pending. -/
def Regular (st : State) : Label → Prop
  | .poller =>
      match st.poller with
      | .steering _ => st.active.isSome = true
      | .replacing _ => st.pending = [] ∧
          ∀ (i : Nat) (w : Worker), st.workers[i]? = some w → w.phase.engaged = false
      | _ => True
  | _ => True

end Claim

section Invariant

variable {st st' : State}

def Phase.isCreated : Phase → Bool
  | .created _ => true
  | _ => false

/-- The worker is past its exit block. -/
def Phase.gone : Phase → Bool
  | .closing => true
  | .finished => true
  | _ => false

/-- The input a worker has not begun a turn of. -/
def Phase.held : Phase → List ChatInput
  | .created input => [input]
  | .started input => [input]
  | .looping input => [input]
  | _ => []

/-- The input of `/continue` the poller has in hand. -/
def Poller.inHand : Poller → List ChatInput
  | .found input _ => [input]
  | .steering input => [input]
  | .replacing input => [input]
  | _ => []

theorem inHand_idle : Poller.inHand .idle = [] := rfl

def heldBy (workers : List Worker) (active : Option Nat) : List ChatInput :=
  active.elim [] fun i => (workers[i]?).elim [] fun w => w.phase.held

/-- An engaged worker is the registered one, a registered worker is not past its exit
block, nothing is pending without one, and the arrived inputs are those of the begun
turns, the one the worker has, the pending ones and the one in hand. -/
structure Orderly (st : State) : Prop where
  owner : ∀ (j : Nat) (w : Worker), st.workers[j]? = some w → w.phase.engaged = true → st.active = some j
  registered : ∀ i, st.active = some i → ∃ w, st.workers[i]? = some w ∧ w.phase.gone = false
  served : st.active = none → st.pending = []
  creating : ∀ (j : Nat) (w : Worker), st.workers[j]? = some w → w.phase.isCreated = true → st.poller = .starting j
  starts : ∀ i, st.poller = .starting i → ∃ w, st.workers[i]? = some w ∧ w.phase.isCreated = true
  ordered : st.ran.map Prod.snd ++ (heldBy st.workers st.active ++
    (st.pending ++ st.poller.inHand)) = st.arrived

theorem held_of_not_engaged
    {phase : Phase}
    (h : phase.engaged = false) :
    phase.held = [] := by
  cases phase <;> first | rfl | cases h

theorem heldBy_some
    {workers : List Worker} {i : Nat} {w : Worker}
    (h : workers[i]? = some w) :
    heldBy workers (some i) = w.phase.held := by
  rw [heldBy, Option.elim_some, h, Option.elim_some]

theorem heldBy_set_of_ne
    {workers : List Worker} {active : Option Nat} {i : Nat} {w : Worker}
    (h : active ≠ some i) :
    heldBy (workers.set i w) active = heldBy workers active := by
  cases active with
  | none => rfl
  | some j =>
      have hne : i ≠ j := fun hij => h (congrArg some hij.symm)
      rw [heldBy, heldBy, Option.elim_some, Option.elim_some, List.getElem?_set_ne hne]

/-- A worker moves on, and takes from the pending inputs or begins a turn only while it
is engaged. -/
theorem orderly_set
    {i : Nat} {w w' : Worker} {pending : List ChatInput} {ran : List (Nat × ChatInput)}
    (h : Orderly st)
    (hw : st.workers[i]? = some w)
    (hcreated : w'.phase.isCreated = w.phase.isCreated)
    (hengaged : w'.phase.engaged = true → w.phase.engaged = true)
    (hgone : w'.phase.gone = true → st.active ≠ some i)
    (hidle : w.phase.engaged = false → ran = st.ran ∧ pending = st.pending)
    (hordered : ran.map Prod.snd ++ (w'.phase.held ++ pending) =
      st.ran.map Prod.snd ++ (w.phase.held ++ st.pending)) :
    Orderly { st with workers := st.workers.set i w', pending := pending, ran := ran } where
  owner := by
    intro j u hu hu'
    rcases of_getElem?_set hu with ⟨rfl, rfl⟩ | ⟨_, hu⟩
    · exact h.owner j w hw (hengaged hu')
    · exact h.owner j u hu hu'
  registered := by
    intro j hj
    obtain ⟨u, hu, hnot⟩ := h.registered j hj
    rcases eq_or_ne i j with rfl | hij
    · refine ⟨w', getElem?_set_of_some hw, ?_⟩
      by_contra hcontra
      exact hgone (by simpa using hcontra) hj
    · exact ⟨u, by rw [List.getElem?_set_ne hij]; exact hu, hnot⟩
  served := by
    intro hnone
    have hfree : w.phase.engaged = false := by
      by_contra hcontra
      have hactive := h.owner i w hw (by simpa using hcontra)
      rw [hnone] at hactive
      cases hactive
    dsimp only
    rw [(hidle hfree).2]
    exact h.served hnone
  creating := by
    intro j u hu hu'
    rcases of_getElem?_set hu with ⟨rfl, rfl⟩ | ⟨_, hu⟩
    · exact h.creating j w hw (hcreated.symm.trans hu')
    · exact h.creating j u hu hu'
  starts := by
    intro j hj
    obtain ⟨u, hu, hu'⟩ := h.starts j hj
    rcases eq_or_ne i j with rfl | hij
    · obtain rfl : w = u := Option.some.inj (hw.symm.trans hu)
      exact ⟨w', getElem?_set_of_some hw, hcreated.trans hu'⟩
    · exact ⟨u, by rw [List.getElem?_set_ne hij]; exact hu, hu'⟩
  ordered := by
    have hbefore := h.ordered
    dsimp only
    rcases eq_or_ne st.active (some i) with hactive | hactive
    · rw [hactive, heldBy_some hw] at hbefore
      rw [hactive, heldBy_some (getElem?_set_of_some hw), ← hbefore]
      simp only [← List.append_assoc] at hordered ⊢
      rw [hordered]
    · have hfree : w.phase.engaged = false := by
        by_contra hcontra
        exact hactive (h.owner i w hw (by simpa using hcontra))
      obtain ⟨rfl, rfl⟩ := hidle hfree
      rw [heldBy_set_of_ne hactive]
      exact hbefore

/-- A worker is started with the first pending input while no worker is engaged. -/
theorem orderly_startWorker
    {next : ChatInput}
    (hfree : ∀ (j : Nat) (w : Worker), st.workers[j]? = some w → w.phase.engaged = false)
    (hidle : ∀ i, st.poller ≠ .starting i)
    (hordered : st.ran.map Prod.snd ++ (next :: (st.pending ++ st.poller.inHand)) = st.arrived) :
    Orderly (startWorker st next) where
  owner := by
    intro j w hw hengaged
    rcases of_getElem?_concat hw with ⟨rfl, _⟩ | ⟨_, hw⟩
    · rfl
    · exact absurd ((hfree j w hw).symm.trans hengaged) Bool.false_ne_true
  registered := by
    intro i hi
    obtain rfl := Option.some.inj hi
    exact ⟨_, List.getElem?_concat_length, rfl⟩
  served := fun hnone => (nomatch hnone)
  creating := by
    intro j w hw hcreated
    rcases of_getElem?_concat hw with ⟨_, rfl⟩ | ⟨_, hw⟩
    · cases hcreated
    · have hengaged : w.phase.engaged = true := by
        cases hphase : w.phase <;> rw [hphase] at hcreated <;> first | rfl | cases hcreated
      exact absurd ((hfree j w hw).symm.trans hengaged) Bool.false_ne_true
  starts := fun i hi => absurd hi (hidle i)
  ordered := by
    show st.ran.map Prod.snd ++ (heldBy (st.workers ++ [{ phase := .started next }])
      (some st.workers.length) ++ (st.pending ++ st.poller.inHand)) = st.arrived
    rw [heldBy_some List.getElem?_concat_length]
    exact hordered

/-- The exit block hands the pending inputs over to a new worker. -/
theorem orderly_exitBlock
    {i : Nat} {w : Worker}
    (h : Orderly st)
    (hw : st.workers[i]? = some w)
    (hphase : w.phase = .unregistering) :
    Orderly (exitBlock (moveTo st i w .closing) i) := by
  have hnot : w.phase.engaged = false := by rw [hphase]; rfl
  by_cases hactive : st.active = some i
  · -- it was registered, so no worker is engaged
    have hfree : ∀ (j : Nat) (u : Worker), (st.workers.set i { w with phase := .closing })[j]? = some u →
        u.phase.engaged = false := by
      intro j u hu
      rcases of_getElem?_set hu with ⟨_, rfl⟩ | ⟨hne, hu⟩
      · rfl
      · by_contra hcontra
        have howner := h.owner j u hu (by simpa using hcontra)
        rw [hactive] at howner
        exact hne (Option.some.inj howner).symm
    have hidle : ∀ j, st.poller ≠ .starting j := by
      intro j hj
      obtain ⟨u, hu, hcreated⟩ := h.starts j hj
      have hengaged : u.phase.engaged = true := by
        cases hp : u.phase <;> rw [hp] at hcreated <;> first | rfl | cases hcreated
      have howner := h.owner j u hu hengaged
      rw [hactive] at howner
      obtain rfl := Option.some.inj howner
      obtain rfl : w = u := Option.some.inj (hw.symm.trans hu)
      exact absurd (hnot.symm.trans hengaged) Bool.false_ne_true
    have hordered := h.ordered
    rw [hactive, heldBy_some hw, held_of_not_engaged hnot, List.nil_append] at hordered
    unfold exitBlock moveTo
    dsimp only
    rw [if_pos hactive]
    cases hpending : st.pending with
    | cons next rest =>
        dsimp only
        refine orderly_startWorker hfree hidle ?_
        rw [hpending] at hordered
        exact hordered
    | nil =>
        dsimp only
        refine ⟨fun j u hu hengaged => ?_, fun j hj => (nomatch hj), fun _ => rfl,
          fun j u hu hcreated => ?_, fun j hj => absurd hj (hidle j), ?_⟩
        · exact absurd ((hfree j u hu).symm.trans hengaged) Bool.false_ne_true
        · rcases of_getElem?_set hu with ⟨_, rfl⟩ | ⟨_, hu⟩
          · cases hcreated
          · exact h.creating j u hu hcreated
        · rw [hpending] at hordered
          exact hordered
  · have hmoved : Orderly { st with
        workers := st.workers.set i { w with phase := .closing }
        pending := st.pending
        ran := st.ran } := by
      refine orderly_set h hw ?_ (fun hengaged => nomatch hengaged) (fun _ => hactive)
        (fun _ => ⟨rfl, rfl⟩) ?_
      · rw [hphase]
        rfl
      · rw [hphase]
        rfl
    unfold exitBlock moveTo
    dsimp only
    rw [if_neg hactive]
    cases hregistered : st.active with
    | some j =>
        dsimp only
        rw [← hregistered]
        exact hmoved
    | none =>
        have hpending := h.served hregistered
        rw [hpending]
        dsimp only
        rw [hregistered, hpending] at hmoved
        exact hmoved

theorem workerIs_eq_true
    {worker : Option Nat} {p : Phase → Bool}
    (h : workerIs st worker p = true) :
    ∃ i w, worker = some i ∧ st.workers[i]? = some w ∧ p w.phase = true := by
  rw [workerIs, Option.any_eq_true] at h
  obtain ⟨i, hi, h⟩ := h
  rw [Option.any_eq_true] at h
  obtain ⟨w, hw, h⟩ := h
  exact ⟨i, w, hi, hw, h⟩

theorem orderly_message
    (h : Orderly st)
    (hidle : st.poller = .idle)
    (chatInput : ChatInput) :
    Orderly (handleMessage st chatInput) := by
  have hordered := h.ordered
  rw [hidle, inHand_idle, List.append_nil] at hordered
  unfold handleMessage
  dsimp only
  split_ifs with halive
  · obtain ⟨i, w, hactive, hw, _⟩ := workerIs_eq_true halive
    refine ⟨h.owner, h.registered, fun hnone => ?_, h.creating, h.starts, ?_⟩
    · exact nomatch hactive.symm.trans hnone
    · dsimp only
      rw [hidle, inHand_idle, List.append_nil, ← hordered]
      simp only [List.append_assoc]
  · -- a registered worker would be alive
    have hnone : st.active = none := by
      by_contra hsome
      obtain ⟨i, hi⟩ := Option.ne_none_iff_exists'.mp hsome
      obtain ⟨w, hw, hgone⟩ := h.registered i hi
      refine halive ?_
      rw [workerIs, Option.any_eq_true]
      refine ⟨i, hi, ?_⟩
      rw [Option.any_eq_true]
      refine ⟨w, hw, ?_⟩
      cases hphase : w.phase <;> rw [hphase] at hgone <;> first
        | rfl
        | cases hgone
      have hstarting := h.creating i w hw (by rw [hphase]; rfl)
      rw [hidle] at hstarting
      cases hstarting
    have hfree : ∀ (j : Nat) (w : Worker), st.workers[j]? = some w → w.phase.engaged = false := by
      intro j w hw
      by_contra hcontra
      have howner := h.owner j w hw (by simpa using hcontra)
      rw [hnone] at howner
      cases howner
    rw [h.served hnone] at hordered ⊢
    dsimp only [List.nil_append]
    refine orderly_startWorker hfree (fun i hi => ?_) ?_
    · rw [hidle] at hi
      cases hi
    · dsimp only
      rw [hidle, inHand_idle, ← hordered, hnone]
      simp [heldBy]

/-- The poller is somewhere else with the same input in hand. -/
theorem orderly_poller
    {poller : Poller} {pending arrived : List ChatInput}
    (h : Orderly st)
    (hbefore : ∀ i, st.poller ≠ .starting i)
    (hafter : ∀ i, poller ≠ .starting i)
    (hserved : st.active = none → pending = [])
    (hordered : ∀ front, front ++ (st.pending ++ st.poller.inHand) = st.arrived →
      front ++ (pending ++ poller.inHand) = arrived) :
    Orderly { st with poller := poller, pending := pending, arrived := arrived } where
  owner := h.owner
  registered := h.registered
  served := hserved
  creating := fun j w hw hcreated => absurd (h.creating j w hw hcreated) (hbefore j)
  starts := fun i hi => absurd hi (hafter i)
  ordered := by
    have hbefore := h.ordered
    rw [← List.append_assoc] at hbefore
    show st.ran.map Prod.snd ++ (heldBy st.workers st.active ++ (pending ++ poller.inHand)) = arrived
    rw [← List.append_assoc]
    exact hordered _ hbefore

/-- `/continue` replaces the worker. -/
theorem orderly_replace
    {input : ChatInput}
    (h : Orderly st)
    (hpoller : st.poller = .replacing input)
    (hpending : st.pending = [])
    (hfree : ∀ (i : Nat) (w : Worker), st.workers[i]? = some w → w.phase.engaged = false) :
    Orderly { st with
      workers := st.workers ++ [{ phase := .created input }]
      active := some st.workers.length
      poller := .starting st.workers.length } := by
  have hordered := h.ordered
  have hheld : heldBy st.workers st.active = [] := by
    cases hactive : st.active with
    | none => rfl
    | some i =>
        obtain ⟨w, hw, _⟩ := h.registered i hactive
        rw [heldBy_some hw]
        exact held_of_not_engaged (hfree i w hw)
  refine ⟨fun j w hw hengaged => ?_, fun i hi => ?_, fun hnone => (nomatch hnone),
    fun j w hw hcreated => ?_, fun i hi => ?_, ?_⟩
  · rcases of_getElem?_concat hw with ⟨rfl, _⟩ | ⟨_, hw⟩
    · rfl
    · exact absurd ((hfree j w hw).symm.trans hengaged) Bool.false_ne_true
  · obtain rfl := Option.some.inj hi
    exact ⟨_, List.getElem?_concat_length, rfl⟩
  · rcases of_getElem?_concat hw with ⟨rfl, _⟩ | ⟨_, hw⟩
    · rfl
    · have hstarting := h.creating j w hw hcreated
      rw [hpoller] at hstarting
      cases hstarting
  · obtain rfl := Poller.starting.inj hi
    exact ⟨_, List.getElem?_concat_length, rfl⟩
  · dsimp only
    rw [heldBy_some List.getElem?_concat_length, ← hordered, hheld, hpending, hpoller]
    rfl

/-- `/continue` starts the thread of its worker. -/
theorem orderly_start
    {i : Nat} {w : Worker} {input : ChatInput}
    (h : Orderly st)
    (hpoller : st.poller = .starting i)
    (hw : st.workers[i]? = some w)
    (hphase : w.phase = .created input) :
    Orderly { st with
      workers := st.workers.set i { w with phase := .started input }
      poller := .idle } := by
  have hactive : st.active = some i := h.owner i w hw (by rw [hphase]; rfl)
  have hordered := h.ordered
  refine ⟨fun j u hu hengaged => ?_, fun j hj => ?_, h.served, fun j u hu hcreated => ?_,
    fun j hj => (nomatch hj), ?_⟩
  · rcases of_getElem?_set hu with ⟨rfl, _⟩ | ⟨_, hu⟩
    · exact hactive
    · exact h.owner j u hu hengaged
  · obtain rfl := Option.some.inj (hactive.symm.trans hj)
    exact ⟨_, getElem?_set_of_some hw, rfl⟩
  · rcases of_getElem?_set hu with ⟨_, rfl⟩ | ⟨hne, hu⟩
    · cases hcreated
    · have hstarting := h.creating j u hu hcreated
      rw [hpoller] at hstarting
      exact absurd (Poller.starting.inj hstarting).symm hne
  · rw [hactive, heldBy_some hw, hphase, hpoller] at hordered
    dsimp only
    rw [hactive, heldBy_some (getElem?_set_of_some hw), ← hordered]
    rfl

end Invariant

section Steps

variable {st st' : State} {i : Nat} {w : Worker} {raises : Bool}

theorem orderly_moveTo
    {phase : Phase}
    (h : Orderly st)
    (hw : st.workers[i]? = some w)
    (hcreated : phase.isCreated = w.phase.isCreated)
    (hengaged : phase.engaged = true → w.phase.engaged = true)
    (hgone : phase.gone = true → w.phase.gone = true)
    (hheld : phase.held = w.phase.held) :
    Orderly (moveTo st i w phase) := by
  refine orderly_set h hw hcreated hengaged (fun hnow hactive => ?_) (fun _ => ⟨rfl, rfl⟩) ?_
  · obtain ⟨u, hu, hnot⟩ := h.registered i hactive
    obtain rfl : w = u := Option.some.inj (hw.symm.trans hu)
    exact absurd (hnot.symm.trans (hgone hnow)) Bool.false_ne_true
  · rw [hheld]

/-- Every step of a worker. -/
theorem orderly_worker
    (h : Orderly st)
    (hw : st.workers[i]? = some w)
    (hstep : workerStep st i w raises = some st') :
    Orderly st' := by
  obtain ⟨phase, shouldStop⟩ := w
  cases phase with
  | created input => cases hstep
  | started input =>
      obtain rfl := Option.some.inj hstep
      exact orderly_moveTo h hw rfl (fun _ => rfl) (fun hno => nomatch hno) rfl
  | looping input =>
      obtain rfl := Option.some.inj hstep
      have hset : Orderly { st with
          workers := st.workers.set i { phase := .turning input, shouldStop := shouldStop }
          pending := st.pending
          ran := st.ran ++ [(i, input)] } :=
        orderly_set h hw rfl (fun _ => rfl) (fun hno => nomatch hno) (fun hno => nomatch hno)
          (by simp [Phase.held])
      exact hset
  | turning input =>
      obtain rfl := Option.some.inj hstep
      cases raises <;>
        exact orderly_moveTo h hw rfl (fun _ => rfl) (fun hno => nomatch hno) rfl
  | taking =>
      obtain rfl := Option.some.inj hstep
      cases shouldStop <;>
        exact orderly_moveTo h hw rfl (fun _ => rfl) (fun hno => nomatch hno) rfl
  | popping =>
      simp only [workerStep] at hstep
      split at hstep
      · obtain rfl := Option.some.inj hstep
        exact orderly_moveTo h hw rfl (fun _ => rfl) (fun hno => nomatch hno) rfl
      · rename_i next rest hpending
        obtain rfl := Option.some.inj hstep
        have hset : Orderly { st with
            workers := st.workers.set i { phase := .looping next, shouldStop := shouldStop }
            pending := rest
            ran := st.ran } :=
          orderly_set h hw rfl (fun _ => rfl) (fun hno => nomatch hno) (fun hno => nomatch hno)
            (by rw [hpending]; rfl)
        exact hset
  | leaving =>
      obtain rfl := Option.some.inj hstep
      exact orderly_moveTo h hw rfl (fun hno => nomatch hno) (fun hno => nomatch hno) rfl
  | unregistering =>
      obtain rfl := Option.some.inj hstep
      exact orderly_exitBlock h hw rfl
  | closing =>
      obtain rfl := Option.some.inj hstep
      exact orderly_moveTo h hw rfl (fun hno => nomatch hno) (fun _ => rfl) rfl
  | finished => cases hstep

/-- Every step of the poller inside a command. -/
theorem orderly_pollerStep
    (h : Orderly st)
    (hreg : Regular st .poller)
    (hstep : pollerStep st = some st') :
    Orderly st' := by
  unfold pollerStep at hstep
  unfold Regular at hreg
  cases hpoller : st.poller with
  | idle =>
      rw [hpoller] at hstep
      cases hstep
  | found input worker =>
      rw [hpoller] at hstep
      obtain rfl := Option.some.inj hstep
      refine orderly_poller h (by simp [hpoller]) ?_ h.served fun front hfront => ?_
      · split_ifs <;> simp
      · rw [hpoller] at hfront
        split_ifs <;> exact hfront
  | steering input =>
      rw [hpoller] at hstep hreg
      obtain rfl := Option.some.inj hstep
      refine orderly_poller h (by simp [hpoller]) (by simp) (fun hnone => ?_) fun front hfront => ?_
      · dsimp only at hreg
        rw [hnone] at hreg
        cases hreg
      · rw [hpoller] at hfront
        rw [← hfront]
        simp [Poller.inHand]
  | replacing input =>
      rw [hpoller] at hstep hreg
      obtain rfl := Option.some.inj hstep
      exact orderly_replace h hpoller hreg.1 hreg.2
  | starting i =>
      rw [hpoller] at hstep
      dsimp only at hstep
      split at hstep
      · rename_i input shouldStop hw
        obtain rfl := Option.some.inj hstep
        exact orderly_start h hpoller hw rfl
      · cases hstep
  | stopping worker =>
      rw [hpoller] at hstep
      dsimp only at hstep
      have hidle : Orderly { st with poller := .idle } := by
        refine orderly_poller h (by simp [hpoller]) (by simp) h.served fun front hfront => ?_
        rw [hpoller] at hfront
        exact hfront
      split at hstep
      · rename_i i w hfound
        obtain rfl := Option.some.inj hstep
        split_ifs with halive
        · obtain ⟨j, _, hmap⟩ := Option.bind_eq_some_iff.mp hfound
          obtain ⟨u, hu, heq⟩ := Option.map_eq_some_iff.mp hmap
          cases heq
          refine orderly_set hidle hu rfl (fun hengaged => hengaged) (fun hgone hactive => ?_)
            (fun _ => ⟨rfl, rfl⟩) rfl
          obtain ⟨v, hv, hnot⟩ := h.registered i hactive
          obtain rfl : w = v := Option.some.inj (hu.symm.trans hv)
          exact absurd (hnot.symm.trans hgone) Bool.false_ne_true
        · exact hidle
      · obtain rfl := Option.some.inj hstep
        exact hidle

theorem orderly_step
    {a : Label}
    (h : Orderly st)
    (hreg : Regular st a)
    (hstep : step st a = some st') :
    Orderly st' := by
  cases a with
  | message chatInput =>
      simp only [step] at hstep
      split_ifs at hstep with hidle
      obtain rfl := Option.some.inj hstep
      exact orderly_message h hidle chatInput
  | «continue» chatInput =>
      simp only [step] at hstep
      split_ifs at hstep with hidle
      obtain rfl := Option.some.inj hstep
      refine orderly_poller h (by simp [hidle]) (by simp) h.served fun front hfront => ?_
      rw [hidle, inHand_idle, List.append_nil] at hfront
      rw [← hfront]
      simp [Poller.inHand]
  | stop =>
      simp only [step] at hstep
      split_ifs at hstep with hidle
      obtain rfl := Option.some.inj hstep
      refine orderly_poller h (by simp [hidle]) (by simp) h.served fun front hfront => ?_
      rw [hidle] at hfront
      exact hfront
  | poller => exact orderly_pollerStep h hreg hstep
  | worker i raises =>
      obtain ⟨w, hw, hmove⟩ := Option.bind_eq_some_iff.mp hstep
      exact orderly_worker h hw hmove

theorem orderly_initial : Orderly initial where
  owner := fun _ _ hw => nomatch hw
  registered := fun _ hi => nomatch hi
  served := fun _ => rfl
  creating := fun _ _ hw => nomatch hw
  starts := fun _ hi => nomatch hi
  ordered := rfl

end Steps

section Progress

variable {st st' : State} {i : Nat} {w : Worker} {raises : Bool}

theorem remaining_moveTo
    (hw : st.workers[i]? = some w)
    (phase : Phase) :
    remaining (moveTo st i w phase) + w.phase.rank = remaining st + phase.rank := by
  have hleft := left_set (t := { w with phase := phase }) (fun w => w.phase.rank) hw
  unfold remaining moveTo
  dsimp only at hleft ⊢
  omega

theorem remaining_startWorker (st : State) (next : ChatInput) :
    remaining (startWorker st next) = remaining st + 8 := by
  have hleft := left_concat (fun w : Worker => w.phase.rank) st.workers { phase := .started next }
  unfold remaining startWorker
  dsimp only [Phase.rank] at hleft ⊢
  omega

theorem remaining_exitBlock_le (st : State) (i : Nat) :
    remaining (exitBlock st i) ≤ remaining st := by
  unfold exitBlock
  dsimp only
  split
  · rename_i next rest _ hpending
    rw [remaining_startWorker]
    unfold remaining
    dsimp only
    rw [hpending, List.length_cons]
    omega
  · exact Nat.le_refl (remaining st)

/-- Every step of a worker brings it closer to its end, an input it takes counted. -/
theorem remaining_worker
    (hw : st.workers[i]? = some w)
    (hstep : workerStep st i w raises = some st') :
    remaining st' < remaining st := by
  obtain ⟨phase, shouldStop⟩ := w
  cases phase with
  | created input => cases hstep
  | started input =>
      obtain rfl := Option.some.inj hstep
      have hmove := remaining_moveTo hw (.looping input)
      dsimp only [Phase.rank] at hmove
      omega
  | looping input =>
      obtain rfl := Option.some.inj hstep
      have hmove := @remaining_moveTo { st with ran := st.ran ++ [(i, input)] } i _ hw
        (.turning input)
      have hsame : remaining { st with ran := st.ran ++ [(i, input)] } = remaining st := rfl
      dsimp only [Phase.rank] at hmove
      omega
  | turning input =>
      cases raises with
      | true =>
          obtain rfl : moveTo st i _ .leaving = st' := Option.some.inj hstep
          have hmove := remaining_moveTo hw .leaving
          dsimp only [Phase.rank] at hmove
          omega
      | false =>
          obtain rfl : moveTo st i _ .taking = st' := Option.some.inj hstep
          have hmove := remaining_moveTo hw .taking
          dsimp only [Phase.rank] at hmove
          omega
  | taking =>
      cases shouldStop with
      | true =>
          obtain rfl : moveTo st i _ .leaving = st' := Option.some.inj hstep
          have hmove := remaining_moveTo hw .leaving
          dsimp only [Phase.rank] at hmove
          omega
      | false =>
          obtain rfl : moveTo st i _ .popping = st' := Option.some.inj hstep
          have hmove := remaining_moveTo hw .popping
          dsimp only [Phase.rank] at hmove
          omega
  | popping =>
      simp only [workerStep] at hstep
      split at hstep
      · obtain rfl := Option.some.inj hstep
        have hmove := remaining_moveTo hw .leaving
        dsimp only [Phase.rank] at hmove
        omega
      · rename_i next rest hpending
        obtain rfl := Option.some.inj hstep
        have hmove := @remaining_moveTo { st with pending := rest } i _ hw (.looping next)
        have htaken : remaining { st with pending := rest } + 9 = remaining st := by
          unfold remaining
          dsimp only
          rw [hpending, List.length_cons]
          omega
        dsimp only [Phase.rank] at hmove
        omega
  | leaving =>
      obtain rfl := Option.some.inj hstep
      have hmove := remaining_moveTo hw .unregistering
      dsimp only [Phase.rank] at hmove
      omega
  | unregistering =>
      obtain rfl := Option.some.inj hstep
      have hmove := remaining_moveTo hw .closing
      have hexit := remaining_exitBlock_le
        (moveTo st i { phase := .unregistering, shouldStop := shouldStop } .closing) i
      dsimp only [Phase.rank] at hmove
      omega
  | closing =>
      obtain rfl := Option.some.inj hstep
      have hmove := remaining_moveTo hw .finished
      dsimp only [Phase.rank] at hmove
      omega
  | finished => cases hstep

/-- Every step of the poller brings it closer to the end of its command. -/
theorem remaining_poller
    (hstep : pollerStep st = some st') :
    remaining st' < remaining st := by
  unfold pollerStep at hstep
  cases hpoller : st.poller with
  | idle =>
      rw [hpoller] at hstep
      cases hstep
  | found input worker =>
      rw [hpoller] at hstep
      obtain rfl := Option.some.inj hstep
      unfold remaining
      rw [hpoller]
      split_ifs <;> dsimp only [Poller.rank] <;> omega
  | steering input =>
      rw [hpoller] at hstep
      obtain rfl := Option.some.inj hstep
      unfold remaining
      rw [hpoller]
      dsimp only [Poller.rank]
      rw [List.length_append, List.length_singleton]
      omega
  | replacing input =>
      rw [hpoller] at hstep
      obtain rfl := Option.some.inj hstep
      have hleft := left_concat (fun w : Worker => w.phase.rank) st.workers
        { phase := .created input }
      unfold remaining
      rw [hpoller]
      dsimp only [Poller.rank, Phase.rank] at hleft ⊢
      omega
  | starting i =>
      rw [hpoller] at hstep
      dsimp only at hstep
      split at hstep
      · rename_i input shouldStop hw
        obtain rfl := Option.some.inj hstep
        have hleft := left_set (t := { phase := .started input, shouldStop := shouldStop })
          (fun w : Worker => w.phase.rank) hw
        unfold remaining
        rw [hpoller]
        dsimp only [Poller.rank, Phase.rank] at hleft ⊢
        omega
      · cases hstep
  | stopping worker =>
      rw [hpoller] at hstep
      dsimp only at hstep
      split at hstep
      · rename_i i w hfound
        obtain rfl := Option.some.inj hstep
        obtain ⟨j, _, hmap⟩ := Option.bind_eq_some_iff.mp hfound
        obtain ⟨u, hu, heq⟩ := Option.map_eq_some_iff.mp hmap
        cases heq
        have hleft := left_set (t := { w with shouldStop := true })
          (fun w : Worker => w.phase.rank) hu
        unfold remaining
        rw [hpoller]
        split_ifs <;> dsimp only [Poller.rank] at hleft ⊢ <;> omega
      · obtain rfl := Option.some.inj hstep
        unfold remaining
        rw [hpoller]
        dsimp only [Poller.rank]
        omega

theorem remaining_own
    {a : Label}
    (hown : a.isOwn = true)
    (hstep : step st a = some st') :
    remaining st' < remaining st := by
  cases a with
  | message chatInput => cases hown
  | «continue» chatInput => cases hown
  | stop => cases hown
  | poller => exact remaining_poller hstep
  | worker i raises =>
      obtain ⟨w, hw, hmove⟩ := Option.bind_eq_some_iff.mp hstep
      exact remaining_worker hw hmove

/-- When no thread can move, the poller is idle and no worker is registered. -/
theorem idle_of_quiet
    (h : Orderly st)
    (hquiet : Quiet st) :
    st.poller = .idle ∧ st.active = none := by
  have hidle : st.poller = .idle := by
    have hstep : pollerStep st = none := hquiet .poller rfl
    unfold pollerStep at hstep
    cases hpoller : st.poller with
    | idle => rfl
    | found input worker => rw [hpoller] at hstep; cases hstep
    | steering input => rw [hpoller] at hstep; cases hstep
    | replacing input => rw [hpoller] at hstep; cases hstep
    | starting i =>
        obtain ⟨⟨phase, shouldStop⟩, hw, hcreated⟩ := h.starts i hpoller
        rw [hpoller] at hstep
        dsimp only at hstep
        rw [hw] at hstep
        cases phase with
        | created input => cases hstep
        | _ => cases hcreated
    | stopping worker =>
        rw [hpoller] at hstep
        dsimp only at hstep
        split at hstep <;> cases hstep
  refine ⟨hidle, ?_⟩
  by_contra hsome
  obtain ⟨i, hactive⟩ := Option.ne_none_iff_exists'.mp hsome
  obtain ⟨⟨phase, shouldStop⟩, hw, hgone⟩ := h.registered i hactive
  have hstep : (st.workers[i]?).bind (fun w => workerStep st i w false) = none :=
    hquiet (.worker i false) rfl
  rw [hw, Option.bind_some] at hstep
  cases phase with
  | created input =>
      have hstarting := h.creating i _ hw rfl
      rw [hidle] at hstarting
      cases hstarting
  | popping =>
      simp only [workerStep] at hstep
      split at hstep <;> cases hstep
  | closing => cases hgone
  | finished => cases hgone
  | _ => cases hstep

end Progress

section Results

/-- **Inputs run once and in order.**  In every run whose `/continue` steps meet the
condition, the begun turns are a beginning of the arrived inputs, one worker at most runs
a turn, no input is pending without a registered worker, and the threads come to rest by
themselves, with every arrived input run. -/
theorem inputs_run_once
    (st : State)
    (h : Reach step Regular initial st) :
    RunOnce st := by
  have horderly : Orderly st := h.invariant orderly_initial
    fun _ _ _ hst hreg hstep => orderly_step hst hreg hstep
  refine ⟨⟨_, horderly.ordered⟩, fun i j w w' hw hw' hturn hturn' => ?_, fun hpending => ?_,
    fun a st' hown hstep => remaining_own hown hstep, fun hquiet => ?_⟩
  · have hengaged : ∀ w : Worker, w.phase.isTurning = true → w.phase.engaged = true := by
      rintro ⟨phase, shouldStop⟩ hturn
      cases phase <;> first | rfl | cases hturn
    have howner := horderly.owner i w hw (hengaged w hturn)
    rw [horderly.owner j w' hw' (hengaged w' hturn')] at howner
    exact (Option.some.inj howner).symm
  · by_contra hnone
    exact hpending (horderly.served (by simpa using hnone))
  · obtain ⟨hidle, hactive⟩ := idle_of_quiet horderly hquiet
    have hordered := horderly.ordered
    rw [hidle, hactive, horderly.served hactive] at hordered
    simpa [heldBy, Poller.inHand] using hordered

def typed (n : Int) (text : String) : ChatInput where
  chatId := 7
  messageId := n
  text := text

/-- `/continue` comes before the worker of the first message has set `_running`. -/
def earlyContinue : List Label :=
  [.message (typed 1 "hello"), .continue (typed 2 "/continue"), .poller, .poller, .poller,
    .worker 0 false, .worker 0 false, .worker 1 false, .worker 1 false]

theorem two_turns_at_once :
    ¬ ∀ st, Reach step (fun _ _ => True) initial st → RunOnce st := by
  intro hall
  have hreach := reach_run (show (run step initial earlyContinue).isSome = true by decide)
  have hone := (hall _ hreach).oneTurn 0 1
    { phase := .turning (typed 1 "hello") }
    { phase := .turning (continueInput (typed 2 "/continue")) }
    (by decide) (by decide) rfl rfl
  cases hone

/-- `/continue` comes while the first turn runs, and is run after it. -/
def lateContinue : List Label :=
  [.message (typed 1 "hello"), .worker 0 false, .worker 0 false, .continue (typed 2 "/continue"),
    .poller, .poller, .worker 0 false, .worker 0 false, .worker 0 false, .worker 0 false]

/-- The condition on the steps of `lateContinue`. -/
def regularCheck (st : State) : Label → Bool
  | .poller =>
      match st.poller with
      | .steering _ => st.active.isSome
      | .replacing _ => false
      | _ => true
  | _ => true

theorem regular_of_check
    (st : State) (a : Label)
    (h : regularCheck st a = true) :
    Regular st a := by
  cases a with
  | poller =>
      unfold regularCheck at h
      unfold Regular
      cases hpoller : st.poller with
      | steering input => rwa [hpoller] at h
      | replacing input => rw [hpoller] at h; cases h
      | _ => trivial
  | _ => trivial

theorem inputs_run_once_lateContinue :
    ∃ st, run step initial lateContinue = some st ∧ RunOnce st := by
  have hrun := run_eq_getD (show (run step initial lateContinue).isSome = true by decide)
  have hguarded : Guarded step Regular initial lateContinue :=
    guarded_of_checkRun regularCheck regular_of_check (by decide)
  exact ⟨_, hrun, inputs_run_once _ (reach_of_run hrun hguarded)⟩

end Results

end TurnWorkers
end Telegram
end DiploidAgent
