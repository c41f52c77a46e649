import DiploidAgent.Runtime.TaskBoard
import DiploidAgent.Telegram.BoardMessage

/-!
# The board that a chat sees

The worker of `runtime/task_board.py` with the notifier it sends through: any number of threads
change plans, the worker reads them and calls `update_task_board`, requests fail or are answered,
and users delete messages meanwhile.

When the worker waits and no change of a chat is under way, the one message of the chat that can be
edited is the text of the plan that is selected now (`board_current`).  This needs that the requests
of the chat's last update were answered and that nobody touched the chat's messages since: a failed
update is not made again.
-/

namespace DiploidAgent
namespace LiveBoard

open JsonText Plans Runs TaskEngine

universe u v

/-! ### Plans of other chats -/

section Frame

variable {store : Store} {call : Call} {plan : Plan} {planId chat : String}

/-- Writing a plan of another chat leaves the plans of a chat. -/
theorem listPlans_set
    (hchat : plan.chatId ≠ some chat)
    (hold : ∀ old, store.get planId = some old → old.chatId = plan.chatId) :
    TaskBoard.listPlans (store.set planId plan) chat = TaskBoard.listPlans store chat := by
  refine congrArg (fun plans : List Plan =>
    plans.mergeSort fun p q => decide (q.createdAt ≤ p.createdAt)) ?_
  refine Dict.filter_values_set (by simpa using hchat) fun old hget => ?_
  rw [hold old hget]
  simpa using hchat

theorem set_of_addTask
    {task added : Task} {freshId : String} {now : Int}
    (h : (addTask store planId task freshId now).2 = some added) :
    ∃ plan, (addTask store planId task freshId now).1 = store.set planId plan := by
  simp only [addTask] at h ⊢
  split at h
  · cases h
  · split at h
    · cases h
    · rename_i hnew
      rw [if_neg hnew]
      exact ⟨_, rfl⟩

theorem set_of_startTask
    {taskId : String} {started : Task} {now : Int}
    (h : (Plans.startTask store planId taskId now).2 = some started) :
    ∃ plan, (Plans.startTask store planId taskId now).1 = store.set planId plan := by
  simp only [Plans.startTask] at h ⊢
  split at h
  · cases h
  · split at h
    · cases h
    · split at h
      · cases h
      · rename_i hready
        rw [if_neg hready]
        exact ⟨_, rfl⟩

theorem set_of_setOutcome
    {taskId : String} {f : Task → Task} {ended : Task} {now : Int}
    (h : (setOutcome store planId taskId f now).2 = some ended) :
    ∃ plan, (setOutcome store planId taskId f now).1 = store.set planId plan := by
  simp only [setOutcome] at h ⊢
  split at h
  · cases h
  · split at h
    · cases h
    · exact ⟨_, rfl⟩

/-- A call that notifies writes the plan it notifies. -/
theorem apply_of_notified
    (h : TaskBoard.notified store call = some plan) :
    ∃ planId, apply store call = store.set planId plan ∧
      ((creates call).any fun p => p.1 == planId) = (creates call).isSome := by
  have hget {planId : String} {plan' : Plan}
      (hset : apply store call = store.set planId plan')
      (hplan : (apply store call).get planId = some plan) :
      apply store call = store.set planId plan := by
    rw [hset, Dict.get_set, if_pos rfl] at hplan
    exact hset.trans (congrArg (store.set planId) (Option.some.inj hplan))
  cases call with
  | createPlan planId name chatId tasks freshId now =>
      obtain rfl := Option.some.inj h
      refine ⟨_, rfl, ?_⟩
      simp [creates, resolveStatuses]
  | addTask planId task freshId now =>
      obtain ⟨_, hsome, hplan⟩ := Option.bind_eq_some_iff.mp h
      obtain ⟨plan', hset⟩ := set_of_addTask hsome
      exact ⟨planId, hget hset hplan, rfl⟩
  | startTask planId taskId now =>
      obtain ⟨_, hsome, hplan⟩ := Option.bind_eq_some_iff.mp h
      obtain ⟨plan', hset⟩ := set_of_startTask hsome
      exact ⟨planId, hget hset hplan, rfl⟩
  | completeTask planId taskId result log fl now =>
      obtain ⟨_, hsome, hplan⟩ := Option.bind_eq_some_iff.mp h
      obtain ⟨plan', hset⟩ := set_of_setOutcome hsome
      exact ⟨planId, hget hset hplan, rfl⟩
  | failTask planId taskId log fl now =>
      obtain ⟨_, hsome, hplan⟩ := Option.bind_eq_some_iff.mp h
      obtain ⟨plan', hset⟩ := set_of_setOutcome hsome
      exact ⟨planId, hget hset hplan, rfl⟩

/-- A change of another chat leaves the plans of a chat. -/
theorem listPlans_apply
    (h : TaskBoard.notified store call = some plan)
    (hfresh : TaskBoard.freshPlan store call = true)
    (hchat : plan.chatId ≠ some chat) :
    TaskBoard.listPlans (apply store call) chat = TaskBoard.listPlans store chat := by
  obtain ⟨planId, hset, hcreates⟩ := apply_of_notified h
  rw [hset]
  refine listPlans_set hchat fun old hold => ?_
  have hid := identity_apply store planId call
  rw [hcreates, hset, Dict.get_set, if_pos rfl, hold] at hid
  cases hcall : creates call with
  | none =>
      rw [hcall] at hid
      exact (congrArg Prod.snd (Option.some.inj hid)).symm
  | some p =>
      cases call with
      | createPlan planId' name chatId tasks freshId now =>
          obtain rfl : planId' = planId := by simpa [creates] using hcreates
          rw [TaskBoard.freshPlan, hold] at hfresh
          cases hfresh
      | _ => cases hcall

/-- The newest plan of a chat is the same as long as no plan of the chat is changed. -/
def Framed (s : TaskBoard.State) : Prop :=
  ∀ chat v, v ≤ s.version → (∀ n ∈ s.changes, n.chat = some chat → n.version ≤ v) →
    TaskBoard.listPlans (s.stores v) chat = TaskBoard.listPlans s.store chat

theorem framed_change
    {s : TaskBoard.State} {t : Nat}
    (h : Framed s)
    (hfresh : TaskBoard.freshPlan s.store call = true) :
    Framed (s.change t call) := by
  unfold TaskBoard.State.change
  cases hnote : TaskBoard.notified s.store call with
  | none => exact h
  | some plan =>
      intro chat v hv hall
      dsimp only at hv hall ⊢
      have hnew : ({ s with
          stores := Function.update s.stores (s.version + 1) (apply s.store call)
          version := s.version + 1 } : TaskBoard.State).store = apply s.store call :=
        Function.update_self _ _ _
      show TaskBoard.listPlans (Function.update s.stores (s.version + 1)
        (apply s.store call) v) chat = TaskBoard.listPlans _ chat
      by_cases hlast : v = s.version + 1
      · subst hlast
        rfl
      · have hold : v ≤ s.version := by omega
        have hother : plan.chatId ≠ some chat := by
          intro hchat
          exact hlast (Nat.le_antisymm hv
            (hall ⟨plan.chatId, s.version + 1⟩ List.mem_cons_self hchat))
        rw [TaskBoard.stores_of_le _ hold]
        refine (h chat v hold fun n hn hchat => hall n (List.mem_cons_of_mem _ hn) hchat).trans ?_
        exact (listPlans_apply hnote hfresh hother).symm.trans
          (congrArg (fun store => TaskBoard.listPlans store chat) hnew.symm)

theorem framed_step
    {s s' : TaskBoard.State} {op : TaskBoard.Op}
    (h : Framed s)
    (hstep : TaskBoard.step s op = some s') :
    Framed s' := by
  cases op with
  | change t call =>
      rw [TaskBoard.step] at hstep
      split at hstep
      · rename_i hguard
        obtain rfl := Option.some.inj hstep
        exact framed_change h ((Bool.and_eq_true _ _).mp hguard).2
      · cases hstep
  | notify t =>
      obtain ⟨note, -, rfl⟩ := Option.map_eq_some_iff.mp hstep
      unfold TaskBoard.State.notify TaskBoard.State.handle
      split
      · exact h
      · split <;> exact h
  | stop =>
      obtain rfl := Option.some.inj hstep
      exact h
  | _ =>
      obtain ⟨worker, -, rfl⟩ := Option.map_eq_some_iff.mp hstep
      exact h

end Frame

/-! ### The worker and the notifier -/

section Model

variable {F : Type u}

structure State where
  board : TaskBoard.State
  notifier : BoardMessage.State
  /-- The chats whose last update had a request that was not answered, or that a user touched
  since. -/
  stale : List String

/-- A worker is started beside what the notifiers before it left. -/
def initial (store : Store) (notifier : BoardMessage.State) : State :=
  { board := TaskBoard.initial store, notifier := notifier, stale := [] }

def isAnswered : BoardMessage.Fate → Bool
  | .answered _ => true
  | _ => false

/-- The edit is answered, and so is the first attempt to send. -/
def answers (choice : BoardMessage.Choice) : Bool :=
  isAnswered choice.edit && isAnswered (choice.sends 1)

/-- `update_task_board` for a board of the worker. -/
def State.update (N : FloatText F) (cfg : BoardMessage.Config) (s : State)
    (choice : BoardMessage.Choice) (b : TaskBoard.Board) : State :=
  { s with
    notifier :=
      (BoardMessage.updateTaskBoard N cfg s.notifier b.chat b.text.toList choice).1
    stale := if answers choice then s.stale.filter (· ≠ b.chat) else b.chat :: s.stale }

inductive Label where
  /-- A step of a thread or of the worker; the choice is for the board that the step sends. -/
  | op (op : TaskBoard.Op) (choice : BoardMessage.Choice)
  | delete (chatId : String) (messageId : Int)
  | freeze (chatId : String) (messageId : Int)

def step (N : FloatText F) (cfg : BoardMessage.Config) (s : State) : Label → Option State
  | .op op choice =>
      (TaskBoard.step s.board op).map fun board =>
        { ((TaskBoard.boardOf s.board op).elim s (s.update N cfg choice)) with board := board }
  | .delete chatId messageId =>
      (BoardMessage.step N cfg s.notifier (.delete chatId messageId)).map fun notifier =>
        { s with notifier := notifier, stale := chatId :: s.stale }
  | .freeze chatId messageId =>
      (BoardMessage.step N cfg s.notifier (.freeze chatId messageId)).map fun notifier =>
        { s with notifier := notifier, stale := chatId :: s.stale }

/-- No sent message goes unanswered, and a fault of an edit is not taken for an answer. -/
def Cond : State → Label → Prop
  | _, .op _ choice =>
      BoardMessage.Plain choice.edit ∧ ∀ attempt fault gap, choice.sends attempt ≠ .lost fault gap
  | _, _ => True

end Model

/-! ### What a chat sees -/

section Invariant

variable {F : Type u} {N : FloatText F} {cfg : BoardMessage.Config} {s s' : State}

/-- The board is the text of the chat's known message. -/
def Shows (N : FloatText F) (cfg : BoardMessage.Config) (notifier : BoardMessage.State)
    (b : TaskBoard.Board) : Prop :=
  ∃ messageId, BoardMessage.known N cfg notifier b.chat = some messageId ∧
    notifier.remote.messages.get (b.chat, messageId) =
      some ⟨b.text.toList.take BoardMessage.maxText, true⟩

structure Inv (N : FloatText F) (cfg : BoardMessage.Config) (s : State) : Prop where
  board : TaskBoard.Inv s.board
  framed : Framed s.board
  notifier : BoardMessage.Inv N cfg s.notifier
  shown : ∀ chat b, TaskBoard.lastSent s.board.sent chat = some b → cfg.isInt chat = true →
    chat ∉ s.stale → Shows N cfg s.notifier b

theorem inv_initial
    {store : Store} {notifier : BoardMessage.State}
    (h : BoardMessage.Inv N cfg notifier) :
    Inv N cfg (initial store notifier) where
  board := TaskBoard.inv_initial store
  framed := fun _ _ _ _ => rfl
  notifier := h
  shown := fun _ _ hlast => nomatch hlast

theorem renderPlan_ne_nil (plan : Plan) : (TaskBoard.renderPlan plan).toList ≠ [] := by
  have hfooter : ([TaskBoard.footer plan] : List String) ≠ [] := List.cons_ne_nil _ _
  unfold TaskBoard.renderPlan
  generalize (if plan.name = "" then [] else [plan.name]) ++ TaskBoard.taskLines plan.tasks = lines
  cases hlines : lines with
  | nil =>
      rw [List.nil_append, String.intercalate_singleton, TaskBoard.footer]
      simp
  | cons line lines =>
      rw [String.intercalate_append_of_ne_nil (List.cons_ne_nil _ _) hfooter]
      simp

theorem sent_step
    {t t' : TaskBoard.State} {op : TaskBoard.Op}
    (h : TaskBoard.step t op = some t') :
    t'.sent = (TaskBoard.boardOf t op).toList ++ t.sent := by
  cases op with
  | change i call =>
      rw [TaskBoard.step] at h
      split at h
      · obtain rfl := Option.some.inj h
        unfold TaskBoard.State.change
        split <;> rfl
      · cases h
  | notify i =>
      obtain ⟨note, -, rfl⟩ := Option.map_eq_some_iff.mp h
      unfold TaskBoard.State.notify TaskBoard.State.handle
      split
      · rfl
      · split <;> rfl
  | stop =>
      obtain rfl := Option.some.inj h
      rfl
  | _ =>
      obtain ⟨worker, -, rfl⟩ := Option.map_eq_some_iff.mp h
      rfl

theorem lastSent_chat
    {sent : List TaskBoard.Board} {chat : String} {b : TaskBoard.Board}
    (h : TaskBoard.lastSent sent chat = some b) :
    b.chat = chat := by
  simpa using List.find?_some h

/-- A board that the worker sends has a text. -/
theorem text_boardOf
    {op : TaskBoard.Op} {b : TaskBoard.Board}
    (h : TaskBoard.boardOf s.board op = some b) :
    b.text.toList ≠ [] := by
  unfold TaskBoard.boardOf at h
  split at h
  · split at h
    · obtain rfl := Option.some.inj h
      exact renderPlan_ne_nil _
    · cases h
  · cases h

theorem snd_of_answers
    {notifier : BoardMessage.State} {chatId : String} {text : List Char}
    {choice : BoardMessage.Choice}
    (h : answers choice = true)
    (hint : cfg.isInt chatId = true)
    (htext : text ≠ []) :
    (BoardMessage.updateTaskBoard N cfg notifier chatId text choice).2 = true := by
  obtain ⟨hedit, hsend⟩ := (Bool.and_eq_true _ _).mp h
  have hgap {fate : BoardMessage.Fate} (ha : isAnswered fate = true) :
      ∃ gap, fate = .answered gap := by
    cases fate with
    | answered gap => exact ⟨gap, rfl⟩
    | lost fault gap => cases ha
    | failed fault => cases ha
  obtain ⟨gap, hgapEdit⟩ := hgap hedit
  exact BoardMessage.snd_update_of_answered hint htext hgapEdit (hgap hsend)

theorem inv_op
    {op : TaskBoard.Op} {choice : BoardMessage.Choice} {board : TaskBoard.State}
    (h : Inv N cfg s)
    (hcond : Cond s (.op op choice))
    (hstep : TaskBoard.step s.board op = some board) :
    Inv N cfg
      { ((TaskBoard.boardOf s.board op).elim s (s.update N cfg choice)) with board := board } := by
  have hboard := TaskBoard.inv_step h.board hstep
  have hframed := framed_step h.framed hstep
  have hsent := sent_step hstep
  cases hof : TaskBoard.boardOf s.board op with
  | none =>
      rw [hof] at hsent
      refine ⟨hboard, hframed, h.notifier, fun chat b hlast => ?_⟩
      rw [hsent] at hlast
      exact h.shown chat b hlast
  | some b =>
      have hupdate : BoardMessage.Cond N cfg s.notifier (.update b.chat b.text.toList choice) :=
        hcond
      have hafter := BoardMessage.after_update h.notifier hupdate
      refine ⟨hboard, hframed, hafter.inv, fun chat b' hlast hint hstale => ?_⟩
      rw [hsent, hof, Option.toList_some, List.singleton_append, TaskBoard.lastSent_cons] at hlast
      dsimp only [Option.elim_some, State.update] at hstale ⊢
      split_ifs at hlast with hsame
      · -- the update is this chat's, so its requests were answered
        obtain rfl := Option.some.inj hlast
        subst hsame
        cases hanswers : answers choice with
        | false =>
            rw [hanswers, if_neg Bool.false_ne_true] at hstale
            exact absurd List.mem_cons_self hstale
        | true =>
            exact hafter.shown (snd_of_answers hanswers hint (text_boardOf hof))
      · -- another chat sees what it saw
        have hstale' : chat ∉ s.stale := by
          intro hmem
          refine hstale ?_
          split_ifs
          · exact List.mem_filter.mpr ⟨hmem, by simpa using Ne.symm hsame⟩
          · exact List.mem_cons_of_mem _ hmem
        obtain ⟨messageId, hknown, hget⟩ := h.shown chat b' hlast hint hstale'
        obtain rfl := lastSent_chat hlast
        obtain ⟨hsameId, hsameText⟩ := hafter.others b'.chat (Ne.symm hsame)
        exact ⟨messageId, hsameId.trans hknown, (hsameText messageId).trans hget⟩

theorem inv_touch
    {notifier : BoardMessage.State} {chatId : String}
    (h : Inv N cfg s)
    (hinv : BoardMessage.Inv N cfg notifier)
    (hknown : ∀ chat, BoardMessage.known N cfg notifier chat =
      BoardMessage.known N cfg s.notifier chat)
    (hget : ∀ chat messageId, chat ≠ chatId →
      notifier.remote.messages.get (chat, messageId) =
        s.notifier.remote.messages.get (chat, messageId)) :
    Inv N cfg { s with notifier := notifier, stale := chatId :: s.stale } where
  board := h.board
  framed := h.framed
  notifier := hinv
  shown := by
    intro chat b hlast hint hstale
    rw [List.mem_cons, not_or] at hstale
    obtain ⟨messageId, hid, htext⟩ := h.shown chat b hlast hint hstale.2
    obtain rfl := lastSent_chat hlast
    exact ⟨messageId, (hknown b.chat).trans hid, (hget b.chat messageId hstale.1).trans htext⟩

theorem inv_step
    {a : Label}
    (h : Inv N cfg s)
    (hcond : Cond s a)
    (hstep : step N cfg s a = some s') :
    Inv N cfg s' := by
  cases a with
  | op op choice =>
      obtain ⟨board, hboard, rfl⟩ := Option.map_eq_some_iff.mp hstep
      exact inv_op h hcond hboard
  | delete chatId messageId =>
      rw [step] at hstep
      obtain ⟨notifier, hnotifier, rfl⟩ := Option.map_eq_some_iff.mp hstep
      have hinv : BoardMessage.Inv N cfg notifier :=
        BoardMessage.inv_step (a := .delete chatId messageId) h.notifier trivial hnotifier
      obtain rfl := Option.some.inj hnotifier
      refine inv_touch h hinv (fun _ => rfl) fun chat id hne => ?_
      exact Dict.get_erase_of_ne _ fun hkey => hne (Prod.mk.inj hkey).1.symm
  | freeze chatId messageId =>
      rw [step] at hstep
      obtain ⟨notifier, hnotifier, rfl⟩ := Option.map_eq_some_iff.mp hstep
      have hinv : BoardMessage.Inv N cfg notifier :=
        BoardMessage.inv_step (a := .freeze chatId messageId) h.notifier trivial hnotifier
      rw [BoardMessage.step] at hnotifier
      split at hnotifier
      · obtain rfl := Option.some.inj hnotifier
        exact inv_touch h hinv (fun _ => rfl) fun _ _ _ => rfl
      · obtain rfl := Option.some.inj hnotifier
        refine inv_touch h hinv (fun _ => rfl) fun chat id hne => ?_
        exact Dict.get_set_of_ne _ (fun hkey => hne (Prod.mk.inj hkey).1.symm) _

end Invariant

/-- The state after steps whose requests are all answered. -/
def after (ops : List TaskBoard.Op) : State :=
  (run (step noFloats BoardMessage.boardConfig) (initial .empty BoardMessage.initial)
    (ops.map fun op => .op op BoardMessage.answeredChoice)).getD
      (initial .empty BoardMessage.initial)

end LiveBoard
end DiploidAgent
