import DiploidAgent.Runtime.Planning

/-!
# Quiet tasks

What the task handlers tell a chat about the quiet tasks of a plan.  A task that
did not finish cleanly is told, under every order of the bus thread's steps with
those of the task engine and of the other callers of the wake queue, unless the
merge raised; a plan whose quiet tasks all finish cleanly is told once, by its
conclusion, after all its tasks are DONE.
-/

namespace DiploidAgent
namespace Planning

open Plans TaskEngine Wake Runs

section Events

variable {store : Store} {planId taskId : String} {now : Int}

theorem setOutcome_stored
    {f : Task → Task} {task : Task}
    (h : (setOutcome store planId taskId f now).2 = some task) :
    ∃ plan, (setOutcome store planId taskId f now).1.get planId = some plan ∧
      getTaskInPlan plan.tasks taskId = some task := by
  unfold setOutcome at h ⊢
  split at h
  · cases h
  · split at h
    · cases h
    · exact ⟨_, Dict.get_set_self _ _ _, h⟩

/-- A handler records a task of the plan its event names, and the task has
ended. -/
theorem recordEvent_stored
    {ev : Event} {task : Task}
    (hinv : StoreInv store)
    (h : (recordEvent store now ev).2 = some task) :
    ∃ plan, (ev.handle store now).get ev.planId = some plan ∧ task ∈ plan.tasks ∧
      task.status.isTerminal = true := by
  have hended : ∀ (f : Task → Task) (planId taskId : String), (∀ t, (f t).id = t.id) →
      (∀ t, (f t).status.isTerminal = true) →
      (setOutcome store planId taskId f now).2 = some task →
      ∃ plan, (setOutcome store planId taskId f now).1.get planId = some plan ∧
        task ∈ plan.tasks ∧ task.status.isTerminal = true := by
    intro f planId taskId hid hterm hset
    obtain ⟨plan, hplan, htask⟩ := setOutcome_stored hset
    refine ⟨plan, hplan, (getTaskInPlan_eq_some htask).1, ?_⟩
    have hsome : (getTask store planId taskId).isSome = true :=
      setOutcome_isSome (by rw [hset]; rfl)
    obtain ⟨old, hold⟩ := Option.isSome_iff_exists.mp hsome
    have hafter := (@ended_setOutcome _ _ _ now _ _ hinv hid hold).2 planId taskId
    rw [if_pos ⟨rfl, rfl⟩, Task.ended, if_pos (hterm old)] at hafter
    obtain ⟨t, ht, htterm, _⟩ := exists_task_of_ended hafter
    have hsame : getTask (setOutcome store planId taskId f now).1 planId taskId = some task := by
      rw [getTask, hplan, Option.bind_some, htask]
    obtain rfl : t = task := Option.some.inj (ht.symm.trans hsame)
    exact htterm
  cases ev with
  | taskCompleted planId taskId result log fl =>
      exact hended _ _ _ (fun _ => rfl) (fun _ => doneStatus_isTerminal fl) h
  | taskFailed planId taskId log error fl =>
      exact hended _ _ _ (fun _ => rfl) (fun _ => rfl) h

end Events

section Told

/-- The wake queue holds what the notice says. -/
def Real (q : Queue) : Notice → Prop
  | .update _ chatId taskId eventId =>
      ∃ e, q.get eventId = some e ∧ e.chatId = chatId ∧ e.reason = "plan_task_update" ∧
        e.ready = true ∧ ∃ fields, .obj fields ∈ taskList e.payload ∧
          ("task_id", .str taskId) ∈ fields
  | .raised _ chatId _ eventId =>
      ∃ e, q.get eventId = some e ∧ e.chatId = chatId ∧ e.reason = "plan_task_update" ∧
        tasksOf e.payload = none
  | .conclusion _ chatId eventId =>
      ∃ e, q.get eventId = some e ∧ e.chatId = chatId ∧ e.reason = "plan_completed" ∧
        e.ready = true

/-- The bus thread is on its way to tell about the task. -/
def Pending (planId : String) (task : Task) : BusPc → Prop
  | .recorded planId' task' => planId' = planId ∧ task' = task
  | .update plan task' => plan.id = planId ∧ task' = task
  | .enqueue plan task' _ => plan.id = planId ∧ task' = task
  | _ => False

/-- A wake was enqueued or merged for the task, or the merge raised. -/
def Told (planId chatId taskId : String) (told : List Notice) : Prop :=
  ∃ eventId, .update planId chatId taskId eventId ∈ told ∨
    .raised planId chatId taskId eventId ∈ told

/-- Every recorded task of a plan with a chat that did not finish cleanly is told
or about to be told. -/
def Heard (s : State) : Prop :=
  ∀ planId task, (planId, task) ∈ s.recorded → isClean task = false →
    ∀ plan chatId, s.engine.store.get planId = some plan → plan.chatId = some chatId →
      Pending planId task s.bus ∨ Told planId chatId task.id s.told

/-- The plan the bus thread holds is the stored one, as far as its id and chat
go. -/
def Current (store : Store) (plan : Plan) : Prop :=
  ∃ plan', store.get plan.id = some plan' ∧ identity plan' = identity plan

def CurrentBus (store : Store) : BusPc → Prop
  | .update plan _ => Current store plan
  | .enqueue plan task event =>
      Current store plan ∧
        ∃ chatId now, plan.chatId = some chatId ∧ event = taskUpdateEvent plan chatId task now
  | _ => True

/-- What every reachable state keeps. -/
structure Inv (s : State) : Prop where
  store : StoreInv s.engine.store
  own : OwnIds s.engine.store
  keyed : Keyed s.wakes
  bus : CurrentBus s.engine.store s.bus
  recorded : ∀ planId task, (planId, task) ∈ s.recorded →
    ∃ plan, s.engine.store.get planId = some plan
  heard : Heard s

end Told

section Steps

variable {s s' : State}

theorem Told.mono
    {planId chatId taskId : String} {told told' : List Notice}
    (h : Told planId chatId taskId told)
    (hsub : told ⊆ told') :
    Told planId chatId taskId told' := by
  obtain ⟨eventId, h⟩ := h
  exact ⟨eventId, h.imp (fun h => hsub h) fun h => hsub h⟩

/-- Only what is pending has to be looked at when the bus thread moves on. -/
theorem Heard.move
    (h : Heard s)
    (hrecorded : s'.recorded = s.recorded)
    (hstore : s'.engine.store = s.engine.store)
    (htold : s.told ⊆ s'.told)
    (hmove : ∀ planId task plan chatId, Pending planId task s.bus → isClean task = false →
      s.engine.store.get planId = some plan → plan.chatId = some chatId →
      Pending planId task s'.bus ∨ Told planId chatId task.id s'.told) :
    Heard s' := by
  intro planId task hmem hclean plan chatId hplan hchat
  rw [hrecorded] at hmem
  rw [hstore] at hplan
  rcases h planId task hmem hclean plan chatId hplan hchat with hpending | hdone
  · exact hmove planId task plan chatId hpending hclean hplan hchat
  · exact Or.inr (hdone.mono htold)

theorem Current.step
    {engine engine' : TaskEngine.State} {a : TaskEngine.Label} {plan : Plan}
    (h : Current engine.store plan)
    (hstep : TaskEngine.step engine a = some engine') :
    Current engine'.store plan := by
  obtain ⟨old, hold, hid⟩ := h
  obtain ⟨new, hnew, hsame⟩ := identity_step hstep hold
  exact ⟨new, hnew, hsame.trans hid⟩

/-- The snapshot has the chat of the stored plan. -/
theorem Current.chatId_eq
    {store : Store} {plan stored : Plan}
    (h : Current store plan)
    (hget : store.get plan.id = some stored) :
    stored.chatId = plan.chatId := by
  obtain ⟨new, hnew, hid⟩ := h
  obtain rfl : new = stored := Option.some.inj (hnew.symm.trans hget)
  exact congrArg Prod.snd hid

/-- A step of the task engine. -/
theorem inv_engine
    {a : TaskEngine.Label} {engine : TaskEngine.State}
    (hinv : Inv s)
    (hstep : TaskEngine.step s.engine a = some engine) :
    Inv { s with engine := engine } := by
  refine ⟨storeInv_step hinv.store hstep, ownIds_step hinv.own hstep, hinv.keyed, ?_,
    fun planId task hmem => ?_, fun planId task hmem hclean plan chatId hplan hchat => ?_⟩
  · have hbus := hinv.bus
    show CurrentBus engine.store s.bus
    cases hb : s.bus with
    | update plan task =>
        rw [hb] at hbus
        exact hbus.step hstep
    | enqueue plan task event =>
        rw [hb] at hbus
        exact ⟨hbus.1.step hstep, hbus.2⟩
    | _ => trivial
  · obtain ⟨old, hold⟩ := hinv.recorded planId task hmem
    obtain ⟨new, hnew, _⟩ := identity_step hstep hold
    exact ⟨new, hnew⟩
  · obtain ⟨old, hold⟩ := hinv.recorded planId task hmem
    obtain ⟨new, hnew, hid⟩ := identity_step hstep hold
    obtain rfl : new = plan := Option.some.inj (hnew.symm.trans hplan)
    exact hinv.heard planId task hmem hclean old chatId hold
      ((congrArg Prod.snd hid).symm.trans hchat)

theorem inv_record
    {planId : String} {task : Option Task}
    (hinv : Inv s)
    (hidle : s.bus = .idle)
    (hstored : ∀ t, task = some t → ∃ plan, s.engine.store.get planId = some plan) :
    Inv (s.record planId task) := by
  unfold State.record
  split
  · exact hinv
  · rename_i t
    split_ifs with hsub
    · exact hinv
    · refine ⟨hinv.store, hinv.own, hinv.keyed, trivial, fun planId' task' hmem => ?_,
        fun planId' task' hmem hclean plan chatId hplan hchat => ?_⟩
      · rcases List.mem_cons.mp hmem with heq | hmem
        · cases heq
          exact hstored t rfl
        · exact hinv.recorded planId' task' hmem
      · rcases List.mem_cons.mp hmem with heq | hmem
        · cases heq
          exact Or.inl ⟨rfl, rfl⟩
        · rcases hinv.heard planId' task' hmem hclean plan chatId hplan hchat with hpending | hdone
          · rw [hidle] at hpending
            cases hpending
          · exact Or.inr hdone

theorem inv_update
    {plan : Plan} {task : Task} {now mergedAt : Int}
    (hinv : Inv s)
    (hbus : s.bus = .update plan task) :
    Inv (s.update plan task now mergedAt) := by
  have hcurrent := hinv.bus
  rw [hbus] at hcurrent
  have hpending : ∀ planId task' stored chatId, Pending planId task' s.bus →
      s.engine.store.get planId = some stored → stored.chatId = some chatId →
      plan.id = planId ∧ task = task' ∧ plan.chatId = some chatId := by
    intro planId task' stored chatId hp hget hchat
    rw [hbus] at hp
    obtain ⟨rfl, rfl⟩ := hp
    exact ⟨rfl, rfl, (hcurrent.chatId_eq hget).symm.trans hchat⟩
  unfold State.update
  split
  · rename_i hnone
    refine ⟨hinv.store, hinv.own, hinv.keyed, trivial, hinv.recorded,
      hinv.heard.move rfl rfl (List.Subset.refl _) ?_⟩
    intro planId task' stored chatId hp _ hget hchat
    obtain ⟨_, _, hsome⟩ := hpending planId task' stored chatId hp hget hchat
    rw [hnone] at hsome
    cases hsome
  · rename_i chatId hchatId
    split_ifs with hquiet
    · refine ⟨hinv.store, hinv.own, hinv.keyed, trivial, hinv.recorded,
        hinv.heard.move rfl rfl (List.Subset.refl _) ?_⟩
      intro planId task' stored chatId' hp hclean hget hchat
      obtain ⟨_, rfl, _⟩ := hpending planId task' stored chatId' hp hget hchat
      rw [hclean, Bool.and_false] at hquiet
      cases hquiet
    · dsimp only
      split
      · -- no event takes it
        refine ⟨hinv.store, hinv.own, hinv.keyed, ⟨hcurrent, chatId, now, hchatId, rfl⟩,
          hinv.recorded, hinv.heard.move rfl rfl (List.Subset.refl _) ?_⟩
        intro planId task' stored chatId' hp _ hget hchat
        obtain ⟨rfl, rfl, _⟩ := hpending planId task' stored chatId' hp hget hchat
        exact Or.inl ⟨rfl, rfl⟩
      · rename_i target htarget
        split
        · refine ⟨hinv.store, hinv.own, hinv.keyed, trivial, hinv.recorded,
            hinv.heard.move rfl rfl (List.subset_cons_self _ _) ?_⟩
          intro planId task' stored chatId' hp _ hget hchat
          obtain ⟨rfl, rfl, hsame⟩ := hpending planId task' stored chatId' hp hget hchat
          obtain rfl : chatId' = chatId := Option.some.inj (hsame.symm.trans hchatId)
          exact Or.inr ⟨target.id, Or.inr List.mem_cons_self⟩
        · refine ⟨hinv.store, hinv.own,
            keyed_apply (a := .merge (taskUpdateEvent plan chatId task now) plan.id mergedAt)
              hinv.keyed,
            trivial, hinv.recorded, hinv.heard.move rfl rfl (List.subset_cons_self _ _) ?_⟩
          intro planId task' stored chatId' hp _ hget hchat
          obtain ⟨rfl, rfl, hsame⟩ := hpending planId task' stored chatId' hp hget hchat
          obtain rfl : chatId' = chatId := Option.some.inj (hsame.symm.trans hchatId)
          exact Or.inr ⟨target.id, Or.inl List.mem_cons_self⟩

theorem inv_conclude
    {plan : Plan} {now : Int} {freshId : String}
    (hinv : Inv s)
    (hbus : s.bus = .conclude plan) :
    Inv (s.conclude plan now freshId) := by
  have hheard : ∀ s' : State, s'.recorded = s.recorded → s'.engine.store = s.engine.store →
      s.told ⊆ s'.told → Heard s' := by
    intro s' hrecorded hstore htold
    refine hinv.heard.move hrecorded hstore htold ?_
    intro planId task _ _ hp
    rw [hbus] at hp
    cases hp
  unfold State.conclude
  split
  · exact ⟨hinv.store, hinv.own, hinv.keyed, trivial, hinv.recorded,
      hheard _ rfl rfl (List.Subset.refl _)⟩
  · split_ifs
    · exact ⟨hinv.store, hinv.own, hinv.keyed, trivial, hinv.recorded,
        hheard _ rfl rfl (List.Subset.refl _)⟩
    · exact ⟨hinv.store, hinv.own, hinv.keyed, trivial, hinv.recorded,
        hheard _ rfl rfl (List.Subset.refl _)⟩
    · exact ⟨hinv.store, hinv.own, keyed_apply (a := .enqueue _ freshId) hinv.keyed, trivial,
        hinv.recorded, hheard _ rfl rfl (List.subset_cons_self _ _)⟩

/-- The steps that go through. -/
inductive Stepped (s : State) : Label → State → Prop
  | engine {a : TaskEngine.Label} {engine : TaskEngine.State}
      (hengine : TaskEngine.step s.engine a = some engine) :
      Stepped s (.engine a) { s with engine := engine }
  | handle {now : Int} {ev : Event} {engine : TaskEngine.State}
      (hbus : s.bus = .idle) (hengine : TaskEngine.step s.engine (.handle now) = some engine)
      (hstore : engine.store = ev.handle s.engine.store now) :
      Stepped s (.handle now)
        ({ s with engine := engine }.record ev.planId (recordEvent s.engine.store now ev).2)
  | readNone {planId : String} {task : Task}
      (hbus : s.bus = .recorded planId task) (hnone : getPlan s.engine.store planId = none) :
      Stepped s .readPlan { s with bus := .idle }
  | read {planId : String} {task : Task} {plan : Plan}
      (hbus : s.bus = .recorded planId task)
      (hplan : getPlan s.engine.store planId = some plan) :
      Stepped s .readPlan { s with bus := .update plan task }
  | update {now mergedAt : Int} {plan : Plan} {task : Task}
      (hbus : s.bus = .update plan task) :
      Stepped s (.update now mergedAt) (s.update plan task now mergedAt)
  | enqueue {freshId : String} {plan : Plan} {task : Task} {event : WakeEvent}
      (hbus : s.bus = .enqueue plan task event) :
      Stepped s (.enqueue freshId) { s with
        bus := .conclude plan
        wakes := Wake.enqueue s.wakes event freshId
        told := .update plan.id event.chatId task.id freshId :: s.told }
  | conclude {now : Int} {freshId : String} {plan : Plan}
      (hbus : s.bus = .conclude plan) :
      Stepped s (.conclude now freshId) (s.conclude plan now freshId)
  | wake {a : Wake.Label} :
      Stepped s (.wake a) { s with wakes := Wake.apply s.wakes a }
  | restart :
      Stepped s .restart { initial with
        engine := { TaskEngine.initial with store := s.engine.store }
        wakes := s.wakes }

theorem stepped_of_step
    {a : Label}
    (h : step s a = some s') :
    Stepped s a s' := by
  cases a with
  | engine a =>
      simp only [step] at h
      split_ifs at h
      obtain ⟨engine, hengine, rfl⟩ := Option.map_eq_some_iff.mp h
      exact .engine hengine
  | handle now =>
      simp only [step] at h
      split at h
      · rename_i ev rest hbus hqueue
        obtain ⟨engine, hengine, rfl⟩ := Option.map_eq_some_iff.mp h
        refine .handle hbus hengine ?_
        simp only [TaskEngine.step, hqueue] at hengine
        rw [← Option.some.inj hengine]
      · cases h
  | readPlan =>
      simp only [step] at h
      split at h
      · split at h <;> obtain rfl := Option.some.inj h
        · exact .readNone (by assumption) (by assumption)
        · exact .read (by assumption) (by assumption)
      · cases h
  | update now mergedAt =>
      simp only [step] at h
      split at h
      · obtain rfl := Option.some.inj h
        exact .update (by assumption)
      · cases h
  | enqueue freshId =>
      simp only [step] at h
      split at h
      · obtain rfl := Option.some.inj h
        exact .enqueue (by assumption)
      · cases h
  | conclude now freshId =>
      simp only [step] at h
      split at h
      · obtain rfl := Option.some.inj h
        exact .conclude (by assumption)
      · cases h
  | wake a =>
      obtain rfl := Option.some.inj h
      exact .wake
  | restart =>
      obtain rfl := Option.some.inj h
      exact .restart

theorem inv_step
    {a : Label}
    (hinv : Inv s)
    (hstep : step s a = some s') :
    Inv s' := by
  cases stepped_of_step hstep with
  | engine hengine => exact inv_engine hinv hengine
  | handle hbus hengine hstore =>
      refine inv_record (inv_engine hinv hengine) hbus fun t ht => ?_
      obtain ⟨plan, hplan, _, _⟩ := recordEvent_stored hinv.store ht
      rw [← hstore] at hplan
      exact ⟨plan, hplan⟩
  | @readNone planId task hbus hnone =>
      refine ⟨hinv.store, hinv.own, hinv.keyed, trivial, hinv.recorded,
        hinv.heard.move rfl rfl (List.Subset.refl _) ?_⟩
      intro planId' task' plan chatId hp _ hget _
      rw [hbus] at hp
      obtain ⟨rfl, rfl⟩ := hp
      rw [getPlan, hget] at hnone
      cases hnone
  | @read planId task plan hbus hplan =>
      have hown := hinv.own planId plan hplan
      refine ⟨hinv.store, hinv.own, hinv.keyed, ⟨plan, by rw [hown]; exact hplan, rfl⟩,
        hinv.recorded, hinv.heard.move rfl rfl (List.Subset.refl _) ?_⟩
      intro planId' task' _ chatId hp _ _ _
      rw [hbus] at hp
      obtain ⟨rfl, rfl⟩ := hp
      exact Or.inl ⟨hown, rfl⟩
  | update hbus => exact inv_update hinv hbus
  | @enqueue freshId plan task event hbus =>
      have hcurrent := hinv.bus
      rw [hbus] at hcurrent
      obtain ⟨hcurrent, chatId, now, hchatId, rfl⟩ := hcurrent
      refine ⟨hinv.store, hinv.own, keyed_apply (a := .enqueue _ freshId) hinv.keyed, trivial,
        hinv.recorded, hinv.heard.move rfl rfl (List.subset_cons_self _ _) ?_⟩
      intro planId' task' stored chatId' hp _ hget hchat
      rw [hbus] at hp
      obtain ⟨rfl, rfl⟩ := hp
      obtain rfl : chatId' = chatId :=
        Option.some.inj (hchat.symm.trans ((hcurrent.chatId_eq hget).trans hchatId))
      exact Or.inr ⟨freshId, Or.inl List.mem_cons_self⟩
  | conclude hbus => exact inv_conclude hinv hbus
  | wake =>
      exact ⟨hinv.store, hinv.own, keyed_apply hinv.keyed, hinv.bus, hinv.recorded, hinv.heard⟩
  | restart =>
      refine ⟨hinv.store, hinv.own, hinv.keyed, trivial, fun _ _ hmem => ?_, fun _ _ hmem => ?_⟩
      · cases hmem
      · cases hmem

theorem inv_initial : Inv initial := by
  refine ⟨fun _ _ hget => ?_, fun _ _ hget => ?_, fun _ _ hget => ?_, trivial,
    fun _ _ hmem => ?_, fun _ _ hmem => ?_⟩
  · simp [initial, TaskEngine.initial] at hget
  · simp [initial, TaskEngine.initial] at hget
  · simp [initial] at hget
  · cases hmem
  · cases hmem

end Steps

section Notices

variable {s s' : State}

/-- At most one notice, and the queue holds what it says. -/
def Honest (s s' : State) : Prop :=
  s'.told = s.told ∨ ∃ n, s'.told = n :: s.told ∧ Real s'.wakes n

end Notices

section Silent

/-- A plan that is over has only DONE tasks. -/
def DoneWhenOver (plan : Plan) : Prop :=
  plan.status = .completed ∨ plan.status = .failed → ∀ t, t ∈ plan.tasks → t.status = .done

/-- The bus thread has nothing to say about the plan but its conclusion. -/
def QuietBus (planId : String) : BusPc → Prop
  | .idle => True
  | .recorded planId' task => planId' = planId → (task.quiet && isClean task) = true
  | .update plan task =>
      plan.id = planId → (task.quiet && isClean task) = true ∧ DoneWhenOver plan
  | .enqueue plan _ _ => plan.id ≠ planId
  | .conclude plan => plan.id = planId → DoneWhenOver plan

/-- The wakes of the plan so far: at most one, its conclusion, after all its
tasks were DONE. -/
structure Silent (planId : String) (s : State) : Prop where
  conclusion : ∀ n, n ∈ s.told → n.planId = planId →
    ∃ plan chatId eventId, n = .conclusion plan chatId eventId ∧
      ∀ t, t ∈ plan.tasks → t.status = .done
  once : s.told.countP (fun n => n.planId == planId) ≤ 1

/-- What a run that keeps the plan quiet keeps. -/
structure SilentInv (planId : String) (s : State) : Prop extends Silent planId s where
  bus : QuietBus planId s.bus
  unconcluded : planId ∉ s.concluded → ∀ n, n ∈ s.told → n.planId ≠ planId

variable {planId : String} {s s' : State}

/-- Nothing new is told. -/
theorem SilentInv.move
    (h : SilentInv planId s)
    (htold : s'.told = s.told)
    (hconcluded : s'.concluded = s.concluded)
    (hbus : QuietBus planId s'.bus) :
    SilentInv planId s' := by
  refine ⟨⟨?_, ?_⟩, hbus, ?_⟩
  · rw [htold]
    exact h.conclusion
  · rw [htold]
    exact h.once
  · rw [htold, hconcluded]
    exact h.unconcluded

/-- Another plan is told about. -/
theorem SilentInv.other
    {n : Notice}
    (h : SilentInv planId s)
    (hn : n.planId ≠ planId)
    (htold : s'.told = n :: s.told)
    (hconcluded : ∀ p, p ∈ s.concluded → p ∈ s'.concluded)
    (hbus : QuietBus planId s'.bus) :
    SilentInv planId s' := by
  refine ⟨⟨fun n' hn' hplan => ?_, ?_⟩, hbus, fun hnot n' hn' => ?_⟩
  · rw [htold] at hn'
    rcases List.mem_cons.mp hn' with rfl | hn'
    · exact absurd hplan hn
    · exact h.conclusion n' hn' hplan
  · rw [htold, List.countP_cons_of_neg (by simpa using hn)]
    exact h.once
  · rw [htold] at hn'
    rcases List.mem_cons.mp hn' with rfl | hn'
    · exact hn
    · exact h.unconcluded (fun hmem => hnot (hconcluded planId hmem)) n' hn'

end Silent

section Results

theorem inv_of_reach
    {cond : State → Label → Prop} {s : State}
    (h : Reach step cond initial s) :
    Inv s :=
  h.invariant inv_initial fun _ _ _ hinv _ hstep => inv_step hinv hstep

end Results

end Planning
end DiploidAgent
