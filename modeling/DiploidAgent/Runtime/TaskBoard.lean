import DiploidAgent.Lib.Runs
import DiploidAgent.Plans.Writes

/-!
# The task board

`RuntimeTaskBoard` of `runtime/task_board.py` with the notifications of `PlanManager`, for any
number of threads that change plans.  A call of the plan manager changes the plans in one
transaction and marks the chat of the plan after it; the worker waits for a marked chat, swaps the
set of marked chats, and for each of them reads the plans in one transaction and sends a board.

When the worker waits and no chat is marked, every change whose notification has been made is on
the last board of its chat (`converges`).  A change that is not notified yet may be missing
(`unnotified_missing`).
-/

namespace DiploidAgent
namespace TaskBoard

open Plans TaskEngine

/-! ### The text of a board -/

section Render

def taskGlyph (task : Task) : String :=
  if task.cancelled then "⊘"
  else
    match task.status with
    | .pending => "☐"
    | .ready => "☐"
    | .blocked => "☐"
    | .running => "◐"
    | .done => "☑"
    | .incomplete => "◑"
    | .failed => "✗"

def taskSuffix (task : Task) : String :=
  if task.status = .running then " ← running"
  else if task.cancelled then " ← cancelled"
  else if task.timedOut then " ← timed out"
  else if task.isPartial then " ← partial"
  else if task.status = .failed then " ← failed"
  else ""

def maxVisibleTasks : Nat := 12

def maxNameChars : Nat := 60

def taskLine (task : Task) : String :=
  taskGlyph task ++ " " ++ String.ofList (task.name.toList.take maxNameChars) ++ taskSuffix task

def doneCount (tasks : List Task) : Nat := (tasks.filter fun t => t.status = .done).length

/-- The lines of the tasks; a long list shows the first tasks that are not done. -/
def taskLines (tasks : List Task) : List String :=
  if maxVisibleTasks < tasks.length then
    let visible := tasks.filter fun t => t.status ≠ .done
    (visible.take maxVisibleTasks).map taskLine ++
      (if maxVisibleTasks < visible.length then
        ["… +" ++ toString (visible.length - maxVisibleTasks) ++ " more"]
      else []) ++
      (if 0 < doneCount tasks then ["— " ++ toString (doneCount tasks) ++ " done"] else [])
  else tasks.map taskLine

def footer (plan : Plan) : String :=
  "— " ++ toString (doneCount plan.tasks) ++ "/" ++ toString plan.tasks.length ++ " done" ++
    (if plan.status = .failed ∨ (plan.tasks.any fun t => t.status = .failed) = true then
      " · failed"
    else "")

def renderPlan (plan : Plan) : String :=
  String.intercalate "\n"
    ((if plan.name = "" then [] else [plan.name]) ++ taskLines plan.tasks ++ [footer plan])

end Render

/-! ### The plan manager -/

section Manager

/-- `list_plans` of a chat: the newest first. -/
def listPlans (store : Store) (chat : String) : List Plan :=
  (store.values.filter fun p => p.chatId = some chat).mergeSort
    fun p q => decide (q.createdAt ≤ p.createdAt)

/-- `_select`: the newest plan that is not over, or else the newest. -/
def select (store : Store) (chat : String) : Option Plan :=
  let plans := listPlans store chat
  match plans.find? fun p => p.status ≠ .completed ∧ p.status ≠ .failed with
  | some plan => some plan
  | none => plans.head?

/-- The plan that a call hands to `_notify_change`; none where the call changes nothing. -/
def notified (store : Store) : Call → Option Plan
  | .createPlan planId name chatId tasks freshId now =>
      some (createPlan store planId name chatId tasks freshId now).2
  | .addTask planId task freshId now =>
      (addTask store planId task freshId now).2.bind fun _ =>
        (apply store (.addTask planId task freshId now)).get planId
  | .startTask planId taskId now =>
      (Plans.startTask store planId taskId now).2.bind fun _ =>
        (apply store (.startTask planId taskId now)).get planId
  | .completeTask planId taskId result log fl now =>
      (completeTask store planId taskId result log fl now).2.bind fun _ =>
        (apply store (.completeTask planId taskId result log fl now)).get planId
  | .failTask planId taskId log fl now =>
      (failTask store planId taskId log fl now).2.bind fun _ =>
        (apply store (.failTask planId taskId log fl now)).get planId

/-- The new id of a plan is one that no plan has. -/
def freshPlan (store : Store) : Call → Bool
  | .createPlan planId _ _ _ _ _ => (store.get planId).isNone
  | _ => true

end Manager

/-! ### The threads and the worker -/

section Model

/-- A change of plans: the chat of the plan and the number of the change. -/
structure Note where
  chat : Option String
  version : Nat
deriving DecidableEq

/-- A board that was sent, with the number of changes made when its plan was read. -/
structure Board where
  chat : String
  text : String
  version : Nat

/-- Where the worker stands. -/
inductive Worker where
  | waiting
  | coalescing
  | swapping
  | draining (chats : List String)
  | spacing (chat : String) (chats : List String)
  | updating (chat : String) (plan : Option Plan) (version : Nat) (chats : List String)
  | ended

structure State where
  /-- The plans after each change, by its number. -/
  stores : Nat → Store
  version : Nat := 0
  /-- The changes so far, the last one first. -/
  changes : List Note := []
  /-- The threads between the transaction of a change and its notification. -/
  threads : Nat → Option Note := fun _ => none
  dirty : List String := []
  stopped : Bool := false
  worker : Worker := .waiting
  /-- The boards so far, the last one first. -/
  sent : List Board := []

def initial (store : Store) : State := { stores := fun _ => store }

def State.store (s : State) : Store := s.stores s.version

/-- The last board that was sent for a chat. -/
def lastSent (sent : List Board) (chat : String) : Option Board :=
  sent.find? fun b => b.chat = chat

/-- A call of the plan manager up to the end of its transaction. -/
def State.change (s : State) (t : Nat) (call : Call) : State :=
  match notified s.store call with
  | none => s
  | some plan =>
      let note : Note := ⟨plan.chatId, s.version + 1⟩
      { s with
        stores := Function.update s.stores (s.version + 1) (apply s.store call)
        version := s.version + 1
        changes := note :: s.changes
        threads := Function.update s.threads t (some note) }

/-- `handle`. -/
def State.handle (s : State) (chat : Option String) : State :=
  match chat with
  | none => s
  | some chat => if s.stopped then s else { s with dirty := s.dirty.insert chat }

/-- `_notify_change` of the call that a thread is in. -/
def State.notify (s : State) (t : Nat) (note : Note) : State :=
  { s.handle note.chat with threads := Function.update s.threads t none }

inductive Op where
  | change (t : Nat) (call : Call)
  | notify (t : Nat)
  | wake
  | absorb
  | swap
  | take (chat : String)
  | select
  | update
  | giveUp
  | loop
  | stop

/-- A step of the worker; without one where it waits or has another step to take. -/
def stepWorker (s : State) (op : Op) : Option Worker :=
  match op, s.worker with
  | .wake, .waiting =>
      if s.stopped then some .ended else if s.dirty = [] then none else some .coalescing
  | .absorb, .coalescing => some (if s.stopped then .ended else .swapping)
  | .swap, .swapping => some (.draining s.dirty)
  | .take chat, .draining chats =>
      if chat ∈ chats then
        some (if s.stopped then .ended else .spacing chat (chats.erase chat))
      else none
  | .select, .spacing chat chats =>
      some (.updating chat (TaskBoard.select s.store chat) s.version chats)
  | .update, .updating _ _ _ chats => some (.draining chats)
  | .giveUp, .spacing _ chats => if s.stopped then some (.draining chats) else none
  | .loop, .draining [] => some (if s.stopped then .ended else .waiting)
  | _, _ => none

/-- The board that a step of the worker sends. -/
def boardOf (s : State) : Op → Option Board
  | .update =>
      match s.worker with
      | .updating chat (some plan) version _ => some ⟨chat, renderPlan plan, version⟩
      | _ => none
  | _ => none

/-- The state after a step of the worker. -/
def State.work (s : State) (op : Op) (worker : Worker) : State :=
  { s with
    worker := worker
    dirty := if op matches .swap then [] else s.dirty
    sent := (boardOf s op).toList ++ s.sent }

/-- One step of a thread or of the worker. -/
def step (s : State) : Op → Option State
  | .change t call =>
      if (s.threads t).isNone && freshPlan s.store call then some (s.change t call) else none
  | .notify t => (s.threads t).map fun note => s.notify t note
  | .stop => some { s with stopped := true }
  | op => (stepWorker s op).map fun worker => s.work op worker

end Model

/-! ### Plans that stay -/

section Plans

variable {store : Store} {call : Call} {chat : String}

/-- Some plan is the chat's. -/
def HasPlan (store : Store) (chat : String) : Prop :=
  ∃ planId plan, store.get planId = some plan ∧ plan.chatId = some chat

theorem isSome_select
    (h : HasPlan store chat) :
    (select store chat).isSome = true := by
  obtain ⟨planId, plan, hget, hchat⟩ := h
  have hmem : plan ∈ listPlans store chat := by
    rw [listPlans, List.mem_mergeSort, List.mem_filter]
    exact ⟨Dict.mem_values_of_get hget, by simpa using hchat⟩
  rw [select]
  split
  · rfl
  · rw [List.head?_eq_some_head (List.ne_nil_of_mem hmem)]
    rfl

/-- A call with a new id leaves every chat its plans. -/
theorem HasPlan.apply
    (h : HasPlan store chat)
    (hfresh : freshPlan store call = true) :
    HasPlan (apply store call) chat := by
  obtain ⟨planId, plan, hget, hchat⟩ := h
  have hid := identity_apply store planId call
  rw [if_neg, hget, Option.map_some] at hid
  · obtain ⟨plan', hget', hsame⟩ := Option.map_eq_some_iff.mp hid
    exact ⟨planId, plan', hget', (congrArg Prod.snd hsame).trans hchat⟩
  · intro hcreates
    cases call with
    | createPlan planId' name chatId tasks freshId now =>
        have hsame : planId' = planId := by simpa [creates] using hcreates
        rw [freshPlan, hsame, hget] at hfresh
        cases hfresh
    | _ => cases hcreates

/-- The plan of a notification is stored. -/
theorem get_of_notified
    {plan : Plan}
    (h : notified store call = some plan) :
    ∃ planId, (Plans.apply store call).get planId = some plan := by
  cases call with
  | createPlan planId name chatId tasks freshId now =>
      obtain rfl := Option.some.inj h
      exact ⟨_, (Dict.get_set _ _ _ _).trans (if_pos rfl)⟩
  | addTask planId task freshId now =>
      obtain ⟨_, _, hget⟩ := Option.bind_eq_some_iff.mp h
      exact ⟨planId, hget⟩
  | startTask planId taskId now =>
      obtain ⟨_, _, hget⟩ := Option.bind_eq_some_iff.mp h
      exact ⟨planId, hget⟩
  | completeTask planId taskId result log fl now =>
      obtain ⟨_, _, hget⟩ := Option.bind_eq_some_iff.mp h
      exact ⟨planId, hget⟩
  | failTask planId taskId log fl now =>
      obtain ⟨_, _, hget⟩ := Option.bind_eq_some_iff.mp h
      exact ⟨planId, hget⟩

end Plans

/-! ### What is still to be sent -/

section Invariant

variable {s s' : State}

/-- The chats that the worker has still to read. -/
def Worker.owed : Worker → List String
  | .draining chats => chats
  | .spacing chat chats => chat :: chats
  | .updating _ _ _ chats => chats
  | _ => []

/-- The worker is about to send the chat a plan that it read after the change. -/
def Worker.Holds (chat : String) (version : Nat) : Worker → Prop
  | .updating chat' _ version' _ => chat' = chat ∧ version ≤ version'
  | _ => False

/-- The change is on the last board of the chat. -/
def Shown (s : State) (chat : String) (version : Nat) : Prop :=
  ∃ b, lastSent s.sent chat = some b ∧ version ≤ b.version

/-- The change is shown, or on its way to be. -/
def Due (s : State) (chat : String) (version : Nat) : Prop :=
  chat ∈ s.dirty ∨ chat ∈ s.worker.owed ∨ s.worker.Holds chat version ∨ Shown s chat version

/-- A board is the text of the plan that is selected in the state it was read in. -/
def IsBoard (s : State) (b : Board) : Prop :=
  ∃ plan, select (s.stores b.version) b.chat = some plan ∧ b.text = renderPlan plan

structure Inv (s : State) : Prop where
  numbered : ∀ n ∈ s.changes, n.version ≤ s.version
  hasPlan : ∀ n ∈ s.changes, ∀ chat, n.chat = some chat →
    ∀ v, n.version ≤ v → v ≤ s.version → HasPlan (s.stores v) chat
  boards : ∀ b ∈ s.sent, b.version ≤ s.version ∧ IsBoard s b
  read : ∀ chat plan version chats, s.worker = .updating chat plan version chats →
    version ≤ s.version ∧ plan = select (s.stores version) chat ∧
      ∀ b ∈ s.sent, b.version ≤ version
  due : s.stopped = false → ∀ n ∈ s.changes, ∀ chat, n.chat = some chat →
    (∃ t, s.threads t = some n) ∨ Due s chat n.version

theorem inv_initial (store : Store) : Inv (initial store) where
  numbered := fun _ h => nomatch h
  hasPlan := fun _ h => nomatch h
  boards := fun _ h => nomatch h
  read := fun _ _ _ _ h => nomatch h
  due := fun _ _ h => nomatch h

/-- A change leaves the states before it. -/
theorem stores_of_le
    {v : Nat} (store : Store) (hv : v ≤ s.version) :
    Function.update s.stores (s.version + 1) store v = s.stores v :=
  Function.update_of_ne (by omega) _ _

theorem inv_change
    {t : Nat} {call : Call}
    (h : Inv s)
    (hidle : s.threads t = none)
    (hfresh : freshPlan s.store call = true) :
    Inv (s.change t call) := by
  unfold State.change
  cases hnote : notified s.store call with
  | none => exact h
  | some plan =>
      dsimp only
      refine ⟨?_, ?_, ?_, ?_, ?_⟩
      · intro n hn
        rcases List.mem_cons.mp hn with rfl | hn
        · exact Nat.le_refl _
        · exact Nat.le_succ_of_le (h.numbered n hn)
      · intro n hn chat hchat v hle hv
        dsimp only at hv ⊢
        by_cases hnew : v = s.version + 1
        · subst hnew
          rw [Function.update_self]
          rcases List.mem_cons.mp hn with rfl | hn
          · obtain ⟨planId, hget⟩ := get_of_notified hnote
            exact ⟨planId, plan, hget, hchat⟩
          · have hlast := h.hasPlan n hn chat hchat s.version (h.numbered n hn) (Nat.le_refl _)
            exact hlast.apply hfresh
        · have hold : v ≤ s.version := by omega
          rw [stores_of_le _ hold]
          rcases List.mem_cons.mp hn with rfl | hn
          · exact absurd (Nat.le_trans hle hold) (Nat.not_succ_le_self s.version)
          · exact h.hasPlan n hn chat hchat v hle hold
      · intro b hb
        obtain ⟨hle, plan', hselect, htext⟩ := h.boards b hb
        have hsame := congrArg (fun store => select store b.chat)
          (stores_of_le (apply s.store call) hle)
        exact ⟨Nat.le_succ_of_le hle, plan', hsame.trans hselect, htext⟩
      · intro chat plan' version chats hw
        obtain ⟨hle, hplan, hsent⟩ := h.read chat plan' version chats hw
        have hsame := congrArg (fun store => select store chat)
          (stores_of_le (apply s.store call) hle)
        exact ⟨Nat.le_succ_of_le hle, hplan.trans hsame.symm, hsent⟩
      · intro hrun n hn chat hchat
        rcases List.mem_cons.mp hn with rfl | hn
        · exact .inl ⟨t, Function.update_self _ _ _⟩
        · rcases h.due hrun n hn chat hchat with ⟨t', ht'⟩ | hdue
          · have hne : t' ≠ t := by
              rintro rfl
              rw [hidle] at ht'
              cases ht'
            exact .inl ⟨t', (Function.update_of_ne hne _ _).trans ht'⟩
          · exact .inr hdue

theorem inv_notify
    {t : Nat} {note : Note}
    (h : Inv s)
    (ht : s.threads t = some note) :
    Inv (s.notify t note) := by
  have hdirty : ∃ dirty, s.handle note.chat = { s with dirty := dirty } ∧ s.dirty ⊆ dirty ∧
      (s.stopped = false → ∀ chat, note.chat = some chat → chat ∈ dirty) := by
    unfold State.handle
    cases note.chat with
    | none => exact ⟨s.dirty, rfl, fun _ hc => hc, fun _ _ hc => nomatch hc⟩
    | some chat =>
        dsimp only
        split
        · rename_i hstopped
          refine ⟨s.dirty, rfl, fun _ hc => hc, ?_⟩
          intro hrun
          rw [hrun] at hstopped
          cases hstopped
        · refine ⟨s.dirty.insert chat, rfl, ?_, ?_⟩
          · exact fun _ hc => List.mem_insert_iff.mpr (Or.inr hc)
          · rintro - chat' hchat'
            obtain rfl := Option.some.inj hchat'
            exact List.mem_insert_self
  obtain ⟨dirty, hhandle, hsub, hmarked⟩ := hdirty
  rw [State.notify, hhandle]
  refine ⟨h.numbered, h.hasPlan, h.boards, h.read, ?_⟩
  intro hrun n hn chat hchat
  rcases h.due hrun n hn chat hchat with ⟨t', ht'⟩ | hdue
  · by_cases hsame : t' = t
    · subst hsame
      obtain rfl : note = n := Option.some.inj (ht.symm.trans ht')
      exact .inr (.inl (hmarked hrun chat hchat))
    · exact .inl ⟨t', (Function.update_of_ne hsame _ _).trans ht'⟩
  · rcases hdue with hd | hrest
    · exact .inr (.inl (hsub hd))
    · exact .inr (.inr hrest)

/-- A chat's last board, after one more for some chat. -/
theorem lastSent_cons
    (b : Board) (chat : String) (bs : List Board) :
    lastSent (b :: bs) chat = if b.chat = chat then some b else lastSent bs chat := by
  rw [lastSent, List.find?_cons]
  by_cases h : b.chat = chat
  · simp [h]
  · simp [h, lastSent]

/-- What the worker sends is not older than what it sent before. -/
theorem shown_update
    {chat chat' : String} {plan : Plan} {v version : Nat}
    (hsent : ∀ b ∈ s.sent, b.version ≤ version)
    (h : Shown s chat v) :
    Shown { s with sent := ⟨chat', renderPlan plan, version⟩ :: s.sent } chat v := by
  obtain ⟨b, hlast, hle⟩ := h
  by_cases hsame : chat' = chat
  · have hb : b ∈ s.sent := List.mem_of_find?_eq_some hlast
    exact ⟨_, (lastSent_cons _ _ _).trans (if_pos hsame), Nat.le_trans hle (hsent b hb)⟩
  · exact ⟨b, (lastSent_cons _ _ _).trans ((if_neg hsame).trans hlast), hle⟩

/-- A step that sends nothing and leaves the marked chats keeps what is due, if the worker keeps
what it owes and holds. -/
theorem due_worker
    {worker : Worker} {chat : String} {v : Nat}
    (howed : ∀ c ∈ s.worker.owed, c ∈ worker.owed)
    (hholds : s.worker.Holds chat v → worker.Holds chat v)
    (h : Due s chat v) :
    Due { s with worker := worker } chat v := by
  rcases h with hd | ho | hh | hs
  · exact .inl hd
  · exact .inr (.inl (howed chat ho))
  · exact .inr (.inr (.inl (hholds hh)))
  · exact .inr (.inr (.inr hs))

/-- A step of the worker that is no read, no send and no swap. -/
theorem inv_move
    {worker : Worker}
    (h : Inv s)
    (howed : s.stopped = false → ∀ c ∈ s.worker.owed, c ∈ worker.owed)
    (hfrom : ∀ chat v, ¬ s.worker.Holds chat v)
    (hto : ∀ chat plan version chats, worker ≠ .updating chat plan version chats) :
    Inv { s with worker := worker } where
  numbered := h.numbered
  hasPlan := h.hasPlan
  boards := h.boards
  read := fun chat plan version chats hw => absurd hw (hto chat plan version chats)
  due := fun hrun n hn chat hchat =>
    (h.due hrun n hn chat hchat).imp_right
      (due_worker (howed hrun) fun hh => absurd hh (hfrom chat n.version))

theorem inv_swap
    (h : Inv s)
    (hw : s.worker = .swapping) :
    Inv { s with worker := .draining s.dirty, dirty := [] } where
  numbered := h.numbered
  hasPlan := h.hasPlan
  boards := h.boards
  read := fun _ _ _ _ hread => nomatch hread
  due := by
    intro hrun n hn chat hchat
    refine (h.due hrun n hn chat hchat).imp_right ?_
    rintro (hd | ho | hh | hs)
    · exact .inr (.inl hd)
    · rw [hw] at ho
      cases ho
    · rw [hw] at hh
      cases hh
    · exact .inr (.inr (.inr hs))

/-- The plans are read after the change, so what is owed becomes held. -/
theorem inv_select
    {chat : String} {chats : List String}
    (h : Inv s)
    (hw : s.worker = .spacing chat chats) :
    Inv { s with worker := .updating chat (select s.store chat) s.version chats } where
  numbered := h.numbered
  hasPlan := h.hasPlan
  boards := h.boards
  read := by
    intro chat' plan version chats' hread
    obtain ⟨rfl, rfl, rfl, rfl⟩ := Worker.updating.inj hread
    exact ⟨Nat.le_refl _, rfl, fun b hb => (h.boards b hb).1⟩
  due := by
    intro hrun n hn chat' hchat
    refine (h.due hrun n hn chat' hchat).imp_right ?_
    rintro (hd | ho | hh | hs)
    · exact .inl hd
    · rw [hw] at ho
      rcases List.mem_cons.mp ho with rfl | ho
      · exact .inr (.inr (.inl ⟨rfl, h.numbered n hn⟩))
      · exact .inr (.inl ho)
    · rw [hw] at hh
      cases hh
    · exact .inr (.inr (.inr hs))

/-- A plan that was read is sent. -/
theorem inv_update
    {chat : String} {plan : Plan} {version : Nat} {chats : List String}
    (h : Inv s)
    (hw : s.worker = .updating chat (some plan) version chats) :
    Inv { s with
      worker := .draining chats
      sent := ⟨chat, renderPlan plan, version⟩ :: s.sent } := by
  obtain ⟨hle, hplan, hsent⟩ := h.read chat (some plan) version chats hw
  refine ⟨h.numbered, h.hasPlan, ?_, fun _ _ _ _ hread => (nomatch hread), ?_⟩
  · intro b hb
    rcases List.mem_cons.mp hb with rfl | hb
    · exact ⟨hle, plan, hplan.symm, rfl⟩
    · exact h.boards b hb
  · intro hrun n hn chat' hchat
    refine (h.due hrun n hn chat' hchat).imp_right ?_
    rintro (hd | ho | hh | hs)
    · exact .inl hd
    · rw [hw] at ho
      exact .inr (.inl ho)
    · rw [hw] at hh
      obtain ⟨rfl, hv⟩ := hh
      exact .inr (.inr (.inr ⟨_, (lastSent_cons _ _ _).trans (if_pos rfl), hv⟩))
    · exact .inr (.inr (.inr (shown_update hsent hs)))

/-- A chat whose change is due has a plan to be read. -/
theorem inv_skip
    {chat : String} {version : Nat} {chats : List String}
    (h : Inv s)
    (hw : s.worker = .updating chat none version chats) :
    Inv { s with worker := .draining chats } where
  numbered := h.numbered
  hasPlan := h.hasPlan
  boards := h.boards
  read := fun _ _ _ _ hread => nomatch hread
  due := by
    intro hrun n hn chat' hchat
    refine (h.due hrun n hn chat' hchat).imp_right ?_
    rintro (hd | ho | hh | hs)
    · exact .inl hd
    · rw [hw] at ho
      exact .inr (.inl ho)
    · rw [hw] at hh
      obtain ⟨rfl, hv⟩ := hh
      obtain ⟨hle, hplan, -⟩ := h.read chat none version chats hw
      have hsome := isSome_select (h.hasPlan n hn chat hchat version hv hle)
      rw [← hplan] at hsome
      cases hsome
    · exact .inr (.inr (.inr hs))

theorem inv_work
    {op : Op} {worker : Worker}
    (h : Inv s)
    (hstep : stepWorker s op = some worker) :
    Inv (s.work op worker) := by
  unfold stepWorker at hstep
  split at hstep
  · rename_i hw
    refine inv_move h ?_ ?_ ?_
    · rw [hw]
      exact fun _ _ hc => nomatch hc
    · rw [hw]
      exact fun _ _ hh => hh
    · rintro _ _ _ _ rfl
      split_ifs at hstep <;> cases hstep
  · rename_i hw
    obtain rfl := Option.some.inj hstep
    refine inv_move h ?_ ?_ ?_
    · rw [hw]
      exact fun _ _ hc => nomatch hc
    · rw [hw]
      exact fun _ _ hh => hh
    · split <;> exact fun _ _ _ _ heq => nomatch heq
  · rename_i hw
    obtain rfl := Option.some.inj hstep
    exact inv_swap h hw
  · rename_i chat chats hw
    split at hstep
    · obtain rfl := Option.some.inj hstep
      refine inv_move h ?_ ?_ ?_
      · intro hrun c hc
        rw [hw] at hc
        rw [hrun, if_neg Bool.false_ne_true]
        by_cases hsame : c = chat
        · exact List.mem_cons.mpr (.inl hsame)
        · exact List.mem_cons.mpr (.inr ((List.mem_erase_of_ne hsame).mpr hc))
      · rw [hw]
        exact fun _ _ hh => hh
      · split <;> exact fun _ _ _ _ heq => nomatch heq
    · cases hstep
  · rename_i hw
    obtain rfl := Option.some.inj hstep
    exact inv_select h hw
  · rename_i chat plan version chats hw
    obtain rfl := Option.some.inj hstep
    cases plan with
    | none =>
        have hsends : boardOf s .update = none := by simp [boardOf, hw]
        have hwork : s.work .update (.draining chats) = { s with worker := .draining chats } := by
          simp [State.work, hsends]
        exact hwork ▸ inv_skip h hw
    | some plan =>
        have hsends : boardOf s .update = some ⟨chat, renderPlan plan, version⟩ := by
          simp [boardOf, hw]
        have hwork : s.work .update (.draining chats) =
            { s with
              worker := .draining chats
              sent := ⟨chat, renderPlan plan, version⟩ :: s.sent } := by
          simp [State.work, hsends]
        exact hwork ▸ inv_update h hw
  · rename_i hw
    split at hstep
    · rename_i hstopped
      obtain rfl := Option.some.inj hstep
      refine inv_move h ?_ ?_ ?_
      · intro hrun
        rw [hrun] at hstopped
        cases hstopped
      · rw [hw]
        exact fun _ _ hh => hh
      · exact fun _ _ _ _ heq => nomatch heq
    · cases hstep
  · rename_i hw
    obtain rfl := Option.some.inj hstep
    refine inv_move h ?_ ?_ ?_
    · rw [hw]
      exact fun _ _ hc => nomatch hc
    · rw [hw]
      exact fun _ _ hh => hh
    · split <;> exact fun _ _ _ _ heq => nomatch heq
  · cases hstep

theorem inv_step
    {op : Op}
    (h : Inv s)
    (hstep : step s op = some s') :
    Inv s' := by
  cases op with
  | change t call =>
      rw [step] at hstep
      split at hstep
      · rename_i hguard
        obtain rfl := Option.some.inj hstep
        rw [Bool.and_eq_true, Option.isNone_iff_eq_none] at hguard
        exact inv_change h hguard.1 hguard.2
      · cases hstep
  | notify t =>
      obtain ⟨note, ht, rfl⟩ := Option.map_eq_some_iff.mp hstep
      exact inv_notify h ht
  | stop =>
      obtain rfl := Option.some.inj hstep
      exact ⟨h.numbered, h.hasPlan, h.boards, h.read, fun hrun => nomatch hrun⟩
  | _ =>
      obtain ⟨worker, hwork, rfl⟩ := Option.map_eq_some_iff.mp hstep
      exact inv_work h hwork

end Invariant

/-! ### Convergence -/

section Convergence

variable {s : State}

/-- A change is on the last board of its chat, which is the text of the plan selected in a state
at least as new. -/
def Current (s : State) (n : Note) : Prop :=
  ∀ chat, n.chat = some chat →
    ∃ b, lastSent s.sent chat = some b ∧ n.version ≤ b.version ∧
      ∃ plan, select (s.stores b.version) chat = some plan ∧ b.text = renderPlan plan

/-- **The board converges.**  When the worker waits, no chat is marked and the board is not
stopped, every change whose notification is made is on the last board of its chat. -/
theorem converges
    (store : Store)
    (h : Runs.Reach step (fun _ _ => True) (initial store) s)
    (hwaits : s.worker = .waiting)
    (hdirty : s.dirty = [])
    (hruns : s.stopped = false) :
    ∀ n ∈ s.changes, (∀ t, s.threads t ≠ some n) → Current s n := by
  have hinv : Inv s := h.invariant (inv_initial store) fun _ _ _ hi _ hstep => inv_step hi hstep
  intro n hn hnotified chat hchat
  rcases hinv.due hruns n hn chat hchat with ⟨t, ht⟩ | hd | ho | hh | hs
  · exact absurd ht (hnotified t)
  · rw [hdirty] at hd
    cases hd
  · rw [hwaits] at ho
    cases ho
  · rw [hwaits] at hh
    cases hh
  · obtain ⟨b, hlast, hle⟩ := hs
    have hb : b ∈ s.sent := List.mem_of_find?_eq_some hlast
    have hof : b.chat = chat := by simpa using List.find?_some hlast
    obtain ⟨plan, hselect, htext⟩ := (hinv.boards b hb).2
    rw [hof] at hselect
    exact ⟨b, hlast, hle, plan, hselect, htext⟩

/-- A thread creates a plan of a chat. -/
def createRun : List Op := [.change 0 (.createPlan "p1" "work" (some "c") [] (fun _ => "") 0)]

/-- The chat is marked and its board sent. -/
def sendRun : List Op :=
  createRun ++ [.notify 0, .wake, .absorb, .swap, .take "c", .select, .update, .loop]

/-- The state after steps from a store without plans. -/
def after (ops : List Op) : State := (Runs.run step (initial .empty) ops).getD (initial .empty)

theorem converges_sendRun :
    ∃ b, lastSent (after sendRun).sent "c" = some b ∧ 1 ≤ b.version ∧
      ∃ plan, select ((after sendRun).stores b.version) "c" = some plan ∧
        b.text = renderPlan plan :=
  converges .empty (s := after sendRun) (Runs.reach_run rfl) rfl rfl rfl ⟨some "c", 1⟩
    List.mem_cons_self
    (fun t => by
      have hnone : (after sendRun).threads t = none := by
        by_cases h : t = 0
        · subst h
          rfl
        · exact (Function.update_of_ne h _ _).trans (Function.update_of_ne h _ _)
      intro hsome
      exact nomatch hnone.symm.trans hsome)
    "c" rfl

/-- Before the notification the worker waits, no chat is marked, and the change is on no board. -/
theorem unnotified_missing :
    ∃ s, Runs.run step (initial .empty) createRun = some s ∧ s.worker = .waiting ∧
      s.dirty = [] ∧ s.stopped = false ∧ ∃ n ∈ s.changes, ¬ Current s n := by
  refine ⟨after createRun, rfl, rfl, rfl, rfl, ⟨some "c", 1⟩, List.mem_cons_self, ?_⟩
  intro h
  obtain ⟨b, hlast, -⟩ := h "c" rfl
  cases hlast

end Convergence

end TaskBoard
end DiploidAgent
