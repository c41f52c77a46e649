import DiploidAgent.Lib.Dict
import DiploidAgent.Lib.Runs
import DiploidAgent.Lib.Threads

/-!
# Typing heartbeats

`runtime/typing.py` with its callers: `_run_task` of the task engine in any number of workers,
and the wake turns.  Whatever the order of the calls, a chat has one heartbeat while its count is
positive and none otherwise.  The count is the number of its running tasks and wake turns exactly
as long as no task of a disabled type ends while the chat types (`_run_task` reports its end, not
its start), no two wake turns of a chat overlap, and nothing runs when all is stopped
(`typing_exact`).
-/

namespace DiploidAgent
namespace Typing

open Runs

/-- `RuntimeTyping`; a heartbeat is its chat and whether its event is set, and `stopping` are
those whose event `stop` has still to set. -/
structure RuntimeTyping where
  counts : Dict String Nat
  threads : Dict String Nat
  turnChats : List String
  heartbeats : List (String × Bool)
  stopping : List Nat

namespace RuntimeTyping

def count (t : RuntimeTyping) (chatId : String) : Nat := (t.counts.get chatId).getD 0

def setEvent (heartbeats : List (String × Bool)) (i : Nat) : List (String × Bool) :=
  heartbeats.modify i fun h => (h.1, true)

/-- `_increment`. -/
def increment (t : RuntimeTyping) (chatId : String) : RuntimeTyping :=
  let count := t.count chatId
  let t := { t with counts := t.counts.set chatId (count + 1) }
  if count = 0 then
    { t with
      threads := t.threads.set chatId t.heartbeats.length
      heartbeats := t.heartbeats ++ [(chatId, false)] }
  else t

/-- `_decrement`. -/
def decrement (t : RuntimeTyping) (chatId : String) : RuntimeTyping :=
  let count := t.count chatId
  if count = 0 then t
  else
    let t := { t with counts := t.counts.set chatId (count - 1) }
    if count - 1 = 0 then
      match t.threads.get chatId with
      | none => t
      | some i =>
          { t with threads := t.threads.erase chatId, heartbeats := setEvent t.heartbeats i }
    else t

def onTaskStarted (t : RuntimeTyping) : Option String → RuntimeTyping
  | none => t
  | some chatId => t.increment chatId

def onTaskDone (t : RuntimeTyping) : Option String → RuntimeTyping
  | none => t
  | some chatId => t.decrement chatId

def onTurnStarted (t : RuntimeTyping) (chatId : String) : RuntimeTyping :=
  { t with
    turnChats := if chatId ∈ t.turnChats then t.turnChats else t.turnChats ++ [chatId] }.increment
      chatId

def onTurnFinished (t : RuntimeTyping) (chatId : String) : RuntimeTyping :=
  if chatId ∈ t.turnChats then
    { t with turnChats := t.turnChats.filter (· ≠ chatId) }.decrement chatId
  else t

/-- `stop` as far as it holds the lock. -/
def stop (t : RuntimeTyping) : RuntimeTyping :=
  { t with
    counts := Dict.empty, threads := Dict.empty, turnChats := []
    stopping := t.stopping ++ t.threads.values }

/-- `stop` sets the next event. -/
def silence (t : RuntimeTyping) : Option RuntimeTyping :=
  match t.stopping with
  | [] => none
  | i :: stopping =>
      some { t with heartbeats := setEvent t.heartbeats i, stopping := stopping }

end RuntimeTyping

/-- Where a worker is in `_run_task`. -/
inductive Phase where
  | begun
  | ran
  | reported
deriving DecidableEq

structure TaskRun where
  chatId : Option String
  /-- `task.type.value in enabled_types`. -/
  enabled : Bool
  phase : Phase

/-- The heartbeats, the workers, and the chats of the wake turns in progress. -/
structure State where
  typing : RuntimeTyping
  tasks : List TaskRun
  turns : List String

def initial : State :=
  { typing := ⟨Dict.empty, Dict.empty, [], [], []⟩, tasks := [], turns := [] }

inductive Label where
  | runTask (chatId : Option String) (enabled : Bool)
  | task (i : Nat)
  | turnStarted (chatId : String)
  /-- `_cleanup_turn` of a wake turn, or of a turn that never called `on_turn_started`. -/
  | turnFinished (chatId : String) (wake : Bool)
  | stop
  | silence

/-- The calls `_run_task` makes: only a task of an enabled type reports its start, every task
its end. -/
def advance (s : State) (i : Nat) (run : TaskRun) : Option State :=
  match run.phase with
  | .begun =>
      some { s with
        typing := if run.enabled then s.typing.onTaskStarted run.chatId else s.typing
        tasks := s.tasks.set i { run with phase := .ran } }
  | .ran =>
      some { s with
        typing := s.typing.onTaskDone run.chatId
        tasks := s.tasks.set i { run with phase := .reported } }
  | .reported => none

def step (s : State) : Label → Option State
  | .runTask chatId enabled =>
      some { s with
        tasks := s.tasks ++ [{ chatId := chatId, enabled := enabled, phase := .begun }] }
  | .task i => s.tasks[i]?.bind (advance s i)
  | .turnStarted chatId =>
      some { s with typing := s.typing.onTurnStarted chatId, turns := chatId :: s.turns }
  | .turnFinished chatId wake =>
      if wake && !s.turns.contains chatId then none
      else some { s with
        typing := s.typing.onTurnFinished chatId
        turns := if wake then s.turns.erase chatId else s.turns }
  | .stop => some { s with typing := s.typing.stop }
  | .silence => s.typing.silence.map fun typing => { s with typing := typing }

/-- A heartbeat that goes on. -/
def Live (t : RuntimeTyping) (chatId : String) (i : Nat) : Prop :=
  t.heartbeats[i]? = some (chatId, false) ∧ i ∉ t.stopping

/-- The running heartbeats are the registered ones, those of the chats with a count. -/
structure Inv (t : RuntimeTyping) : Prop where
  registered : ∀ chatId i, t.threads.get chatId = some i ↔ Live t chatId i
  counted : ∀ chatId, t.threads.get chatId = none ↔ t.count chatId = 0
  created : ∀ i ∈ t.stopping, i < t.heartbeats.length

section Heartbeats

variable {t : RuntimeTyping} {chatId chatId' : String} {i j : Nat}

theorem getElem?_setEvent (heartbeats : List (String × Bool)) (i j : Nat) (chatId : String) :
    (RuntimeTyping.setEvent heartbeats i)[j]? = some (chatId, false) ↔
      j ≠ i ∧ heartbeats[j]? = some (chatId, false) := by
  rw [RuntimeTyping.setEvent, List.getElem?_modify]
  by_cases hij : i = j
  · subst hij
    cases heartbeats[i]? <;> simp
  · have hji : j ≠ i := fun h => hij h.symm
    cases heartbeats[j]? <;> simp [hij, hji]

theorem count_increment :
    (t.increment chatId).count chatId' =
      if chatId = chatId' then t.count chatId + 1 else t.count chatId' := by
  have hset : (((t.counts.set chatId (t.count chatId + 1)).get chatId').getD 0) =
      if chatId = chatId' then t.count chatId + 1 else t.count chatId' := by
    rw [Dict.get_set]
    split_ifs <;> rfl
  unfold RuntimeTyping.increment
  dsimp only
  split_ifs with h0 hc
  · exact hset.trans (if_pos hc)
  · exact hset.trans (if_neg hc)
  · exact hset.trans (if_pos ‹_›)
  · exact hset.trans (if_neg ‹_›)

theorem count_decrement :
    (t.decrement chatId).count chatId' =
      if chatId = chatId' then t.count chatId - 1 else t.count chatId' := by
  have hset : (((t.counts.set chatId (t.count chatId - 1)).get chatId').getD 0) =
      if chatId = chatId' then t.count chatId - 1 else t.count chatId' := by
    rw [Dict.get_set]
    split_ifs <;> rfl
  unfold RuntimeTyping.decrement
  dsimp only
  by_cases hzero : t.count chatId = 0
  · rw [if_pos hzero]
    split_ifs with hc
    · rw [← hc]
      omega
    · rfl
  · rw [if_neg hzero, ← hset]
    split_ifs
    · cases t.threads.get chatId <;> rfl
    · rfl

theorem inv_increment
    (hinv : Inv t) (chatId : String) :
    Inv (t.increment chatId) := by
  have hcounted (chatId' : String) (threads : Dict String Nat)
      (hthreads : threads.get chatId' = none ↔ chatId ≠ chatId' ∧ t.count chatId' = 0) :
      threads.get chatId' = none ↔ (t.increment chatId).count chatId' = 0 := by
    rw [hthreads, count_increment]
    by_cases hc : chatId = chatId'
    · simp [hc]
    · simp [hc]
  by_cases hzero : t.count chatId = 0
  · have heq : t.increment chatId =
        { t with
          counts := t.counts.set chatId (t.count chatId + 1)
          threads := t.threads.set chatId t.heartbeats.length
          heartbeats := t.heartbeats ++ [(chatId, false)] } := if_pos hzero
    refine ⟨fun chatId' i => ?_, fun chatId' => hcounted chatId' _ ?_, fun i hi => ?_⟩
    · rw [heq]
      show (t.threads.set chatId t.heartbeats.length).get chatId' = some i ↔
        (t.heartbeats ++ [(chatId, false)])[i]? = some (chatId', false) ∧ i ∉ t.stopping
      rw [Dict.get_set]
      have hnew : t.heartbeats.length ∉ t.stopping := fun hmem =>
        Nat.lt_irrefl _ (hinv.created _ hmem)
      by_cases hc : chatId = chatId'
      · -- no heartbeat of the chat went on before
        subst hc
        rw [if_pos rfl]
        have hnone := (hinv.counted chatId).mpr hzero
        constructor
        · rintro h
          obtain rfl := Option.some.inj h
          exact ⟨List.getElem?_concat_length, hnew⟩
        · rintro ⟨hi, hstop⟩
          rcases Threads.of_getElem?_concat hi with ⟨rfl, _⟩ | ⟨_, hi'⟩
          · rfl
          · have hold := (hinv.registered chatId i).mpr ⟨hi', hstop⟩
            rw [hnone] at hold
            cases hold
      · rw [if_neg hc, hinv.registered]
        refine and_congr_left fun _ => ⟨Threads.getElem?_concat_of_some, fun hi => ?_⟩
        rcases Threads.of_getElem?_concat hi with ⟨_, h⟩ | ⟨_, hi'⟩
        · exact absurd (Prod.mk.inj h).1.symm hc
        · exact hi'
    · rw [heq]
      show (t.threads.set chatId t.heartbeats.length).get chatId' = none ↔ _
      rw [Dict.get_set]
      split_ifs with hc
      · simp [hc]
      · simp [hc, hinv.counted]
    · rw [heq] at hi ⊢
      show i < (t.heartbeats ++ [(chatId, false)]).length
      rw [List.length_append]
      exact Nat.lt_add_right _ (hinv.created i hi)
  · have heq : t.increment chatId =
        { t with counts := t.counts.set chatId (t.count chatId + 1) } := if_neg hzero
    refine ⟨fun chatId' i => ?_, fun chatId' => hcounted chatId' _ ?_, ?_⟩
    · rw [heq]
      exact hinv.registered chatId' i
    · rw [heq]
      show t.threads.get chatId' = none ↔ _
      rw [hinv.counted]
      constructor
      · rintro h
        exact ⟨fun hc => hzero (hc ▸ h), h⟩
      · exact And.right
    · rw [heq]
      exact hinv.created

theorem inv_decrement
    (hinv : Inv t) (chatId : String) :
    Inv (t.decrement chatId) := by
  by_cases hzero : t.count chatId = 0
  · have heq : t.decrement chatId = t := if_pos hzero
    rw [heq]
    exact hinv
  by_cases hlast : t.count chatId - 1 = 0
  · obtain ⟨i, hi⟩ := Option.ne_none_iff_exists'.mp (mt (hinv.counted chatId).mp hzero)
    have heq : t.decrement chatId =
        { t with
          counts := t.counts.set chatId (t.count chatId - 1)
          threads := t.threads.erase chatId
          heartbeats := RuntimeTyping.setEvent t.heartbeats i } := by
      unfold RuntimeTyping.decrement
      simp only [if_neg hzero, if_pos hlast, hi]
    refine ⟨fun chatId' j => ?_, fun chatId' => ?_, fun j hj => ?_⟩
    · rw [heq]
      show (t.threads.erase chatId).get chatId' = some j ↔
        (RuntimeTyping.setEvent t.heartbeats i)[j]? = some (chatId', false) ∧ j ∉ t.stopping
      rw [Dict.get_erase, getElem?_setEvent, and_assoc]
      by_cases hc : chatId = chatId'
      · -- the only heartbeat of the chat is the one that ends
        subst hc
        rw [if_pos rfl]
        constructor
        · intro h
          cases h
        · intro h
          have hj := (hinv.registered chatId j).mpr h.2
          exact absurd (Option.some.inj (hj.symm.trans hi)) h.1
      · rw [if_neg hc, hinv.registered]
        refine ⟨fun h => ⟨?_, h⟩, And.right⟩
        rintro rfl
        have hboth := ((hinv.registered chatId j).mp hi).1.symm.trans h.1
        exact hc (Prod.mk.inj (Option.some.inj hboth)).1
    · rw [count_decrement, heq]
      show (t.threads.erase chatId).get chatId' = none ↔ _
      rw [Dict.get_erase]
      split_ifs with hc
      · simp [hlast]
      · exact hinv.counted chatId'
    · rw [heq] at hj ⊢
      show j < (t.heartbeats.modify i _).length
      rw [List.length_modify]
      exact hinv.created j hj
  · have heq : t.decrement chatId =
        { t with counts := t.counts.set chatId (t.count chatId - 1) } := by
      unfold RuntimeTyping.decrement
      simp only [if_neg hzero, if_neg hlast]
    refine ⟨fun chatId' j => ?_, fun chatId' => ?_, ?_⟩
    · rw [heq]
      exact hinv.registered chatId' j
    · rw [count_decrement, heq]
      show t.threads.get chatId' = none ↔ _
      rw [hinv.counted]
      split_ifs with hc
      · rw [← hc]
        exact ⟨fun h => absurd h hzero, fun h => absurd h hlast⟩
      · exact Iff.rfl
    · rw [heq]
      exact hinv.created

theorem inv_turnChats
    (hinv : Inv t) (turnChats : List String) :
    Inv { t with turnChats := turnChats } :=
  ⟨hinv.registered, hinv.counted, hinv.created⟩

theorem inv_stop
    (hinv : Inv t) :
    Inv t.stop := by
  refine ⟨fun chatId i => ?_, fun chatId => ?_, fun i hi => ?_⟩
  · refine ⟨nofun, fun h => absurd ?_ h.2⟩
    show i ∈ t.stopping ++ t.threads.values
    rw [List.mem_append]
    by_cases hstop : i ∈ t.stopping
    · exact Or.inl hstop
    · exact Or.inr (Dict.mem_values_of_get ((hinv.registered chatId i).mpr ⟨h.1, hstop⟩))
  · exact ⟨fun _ => rfl, fun _ => rfl⟩
  · rcases List.mem_append.mp hi with hi | hi
    · exact hinv.created i hi
    · obtain ⟨chatId, hget⟩ := Dict.exists_get_of_mem_values hi
      exact (List.getElem?_eq_some_iff.mp ((hinv.registered chatId i).mp hget).1).1

theorem inv_silence
    {t' : RuntimeTyping}
    (hinv : Inv t)
    (h : t.silence = some t') :
    Inv t' := by
  unfold RuntimeTyping.silence at h
  split at h
  · cases h
  · next i stopping hstopping =>
    obtain rfl := Option.some.inj h
    refine ⟨fun chatId j => ?_, hinv.counted, fun j hj => ?_⟩
    · show t.threads.get chatId = some j ↔
        (RuntimeTyping.setEvent t.heartbeats i)[j]? = some (chatId, false) ∧ j ∉ stopping
      rw [hinv.registered, Live, hstopping, getElem?_setEvent, List.mem_cons, not_or]
      constructor
      · rintro ⟨hj, hne, hrest⟩
        exact ⟨⟨hne, hj⟩, hrest⟩
      · rintro ⟨⟨hne, hj⟩, hrest⟩
        exact ⟨hj, hne, hrest⟩
    · show j < (t.heartbeats.modify i _).length
      rw [List.length_modify]
      exact hinv.created j (by rw [hstopping]; exact List.mem_cons_of_mem _ hj)

end Heartbeats

section Runs

variable {s s' : State} {a : Label}

theorem inv_step
    (hinv : Inv s.typing)
    (h : step s a = some s') :
    Inv s'.typing := by
  cases a with
  | runTask chatId enabled =>
      obtain rfl := Option.some.inj h
      exact hinv
  | task i =>
      obtain ⟨run, hrun, hadvance⟩ := Option.bind_eq_some_iff.mp h
      obtain ⟨chatId, enabled, phase⟩ := run
      cases phase with
      | begun =>
          obtain rfl := Option.some.inj hadvance
          cases enabled with
          | false => exact hinv
          | true =>
              cases chatId with
              | none => exact hinv
              | some chatId => exact inv_increment hinv chatId
      | ran =>
          obtain rfl := Option.some.inj hadvance
          cases chatId with
          | none => exact hinv
          | some chatId => exact inv_decrement hinv chatId
      | reported => cases hadvance
  | turnStarted chatId =>
      obtain rfl := Option.some.inj h
      exact inv_increment (inv_turnChats hinv _) chatId
  | turnFinished chatId wake =>
      rw [step] at h
      split at h
      · cases h
      obtain rfl := Option.some.inj h
      show Inv (s.typing.onTurnFinished chatId)
      unfold RuntimeTyping.onTurnFinished
      split_ifs
      · exact inv_decrement (inv_turnChats hinv _) chatId
      · exact hinv
  | stop =>
      obtain rfl := Option.some.inj h
      exact inv_stop hinv
  | silence =>
      obtain ⟨typing, hsilence, rfl⟩ := Option.map_eq_some_iff.mp h
      exact inv_silence hinv hsilence

theorem inv_of_reach
    {cond : State → Label → Prop}
    (h : Reach step cond initial s) :
    Inv s.typing := by
  refine h.invariant (P := fun s => Inv s.typing) ⟨fun chatId i => ?_, fun _ => ?_, nofun⟩
    fun _ _ _ hs _ hstep => inv_step hs hstep
  · exact ⟨nofun, fun h => by simp [initial] at h; cases h.1⟩
  · exact ⟨fun _ => rfl, fun _ => rfl⟩

/-- The task counts for the chat: it reported its start there and not its end. -/
def runningIn (chatId : String) (run : TaskRun) : Nat :=
  if run.chatId = some chatId ∧ run.enabled = true ∧ run.phase = .ran then 1 else 0

/-- The running tasks and the wake turns of a chat. -/
def working (s : State) (chatId : String) : Nat :=
  Threads.left (runningIn chatId) s.tasks + s.turns.count chatId

/-- Ends are paired with starts: a disabled task ends only where nothing works, turns of a chat do
not overlap, and all is stopped only when nothing works. -/
def Paired (s : State) : Label → Prop
  | .task i => ∀ run chatId, s.tasks[i]? = some run → run.phase = .ran →
      run.chatId = some chatId → run.enabled = true ∨ working s chatId = 0
  | .turnStarted chatId => chatId ∉ s.turns
  | .turnFinished chatId false => chatId ∉ s.turns
  | .stop => ∀ chatId, working s chatId = 0
  | _ => True

/-- The counts are right. -/
structure Exact (s : State) : Prop where
  count : ∀ chatId, s.typing.count chatId = working s chatId
  turns : ∀ chatId, chatId ∈ s.typing.turnChats ↔ chatId ∈ s.turns
  nodup : s.turns.Nodup

theorem turnChats_increment (t : RuntimeTyping) (chatId : String) :
    (t.increment chatId).turnChats = t.turnChats := by
  unfold RuntimeTyping.increment
  dsimp only
  split_ifs <;> rfl

theorem turnChats_decrement (t : RuntimeTyping) (chatId : String) :
    (t.decrement chatId).turnChats = t.turnChats := by
  unfold RuntimeTyping.decrement
  dsimp only
  split_ifs
  · rfl
  · cases t.threads.get chatId <;> rfl
  · rfl

/-- A worker moves on from `run` to `next`. -/
theorem working_set
    {i : Nat} {run : TaskRun}
    (typing : RuntimeTyping) (next : TaskRun)
    (hrun : s.tasks[i]? = some run) (chatId : String) :
    working { s with typing := typing, tasks := s.tasks.set i next } chatId +
        runningIn chatId run =
      working s chatId + runningIn chatId next := by
  have hleft := Threads.left_set (t := next) (runningIn chatId) hrun
  unfold working
  dsimp only
  omega

theorem exact_task
    {i : Nat} {run : TaskRun}
    (hexact : Exact s)
    (hpaired : Paired s (.task i))
    (hrun : s.tasks[i]? = some run)
    (h : advance s i run = some s') :
    Exact s' := by
  obtain ⟨chat, enabled, phase⟩ := run
  cases phase with
  | reported => cases h
  | begun =>
      obtain rfl := Option.some.inj h
      have hmove (chatId : String) := working_set
        (if enabled then s.typing.onTaskStarted chat else s.typing)
        ⟨chat, enabled, .ran⟩ hrun chatId
      refine ⟨fun chatId => ?_, fun chatId => ?_, hexact.nodup⟩
      · have hcount := hexact.count chatId
        have hwork := hmove chatId
        simp only [runningIn] at hwork
        cases enabled with
        | false => simpa [hcount] using hwork.symm
        | true =>
            cases chat with
            | none => simpa [RuntimeTyping.onTaskStarted, hcount] using hwork.symm
            | some c =>
                show (s.typing.increment c).count chatId = _
                rw [count_increment]
                by_cases hc : c = chatId
                · subst hc
                  simpa [hcount] using hwork.symm
                · simpa [hc, hcount] using hwork.symm
      · rw [← hexact.turns]
        cases enabled with
        | false => exact Iff.rfl
        | true =>
            cases chat with
            | none => exact Iff.rfl
            | some c =>
                show chatId ∈ (s.typing.increment c).turnChats ↔ _
                rw [turnChats_increment]
  | ran =>
      obtain rfl := Option.some.inj h
      have hmove (chatId : String) := working_set
        (s.typing.onTaskDone chat) ⟨chat, enabled, .reported⟩ hrun chatId
      refine ⟨fun chatId => ?_, fun chatId => ?_, hexact.nodup⟩
      · have hcount := hexact.count chatId
        have hwork := hmove chatId
        simp only [runningIn] at hwork
        cases chat with
        | none => simpa [RuntimeTyping.onTaskDone, hcount] using hwork.symm
        | some c =>
            show (s.typing.decrement c).count chatId = _
            rw [count_decrement]
            by_cases hc : c = chatId
            · subst hc
              rcases hpaired _ c hrun rfl rfl with hen | hzero
              · obtain rfl : enabled = true := hen
                simp at hwork
                rw [if_pos rfl, hcount]
                dsimp only
                omega
              · cases enabled with
                | true =>
                    simp at hwork
                    rw [if_pos rfl, hcount]
                    dsimp only
                    omega
                | false =>
                    simp at hwork
                    rw [if_pos rfl, hcount, hwork, hzero]
            · simpa [hc, hcount] using hwork.symm
      · rw [← hexact.turns]
        cases chat with
        | none => exact Iff.rfl
        | some c =>
            show chatId ∈ (s.typing.decrement c).turnChats ↔ _
            rw [turnChats_decrement]

theorem exact_turnStarted
    {chatId : String}
    (hexact : Exact s)
    (hpaired : chatId ∉ s.turns) :
    Exact { s with typing := s.typing.onTurnStarted chatId, turns := chatId :: s.turns } := by
  have hnot : chatId ∉ s.typing.turnChats := mt (hexact.turns chatId).mp hpaired
  refine ⟨fun chatId' => ?_, fun chatId' => ?_, List.nodup_cons.mpr ⟨hpaired, hexact.nodup⟩⟩
  · have hcount := hexact.count chatId'
    show (RuntimeTyping.increment _ chatId).count chatId' = _
    rw [count_increment]
    unfold working at hcount ⊢
    dsimp only
    rw [List.count_cons]
    by_cases hc : chatId = chatId'
    · subst hc
      rw [if_pos rfl]
      show s.typing.count chatId + 1 = _
      simp [hcount, Nat.add_assoc]
    · rw [if_neg hc]
      show s.typing.count chatId' = _
      simp [hcount, hc]
  · show chatId' ∈ (RuntimeTyping.increment _ chatId).turnChats ↔ _
    rw [turnChats_increment]
    dsimp only
    rw [if_neg hnot, List.mem_append, List.mem_singleton, List.mem_cons, hexact.turns]
    exact Or.comm

theorem exact_turnFinished
    {chatId : String} {wake : Bool}
    (hexact : Exact s)
    (hpaired : wake = false → chatId ∉ s.turns)
    (hwake : wake = true → chatId ∈ s.turns) :
    Exact { s with
      typing := s.typing.onTurnFinished chatId
      turns := if wake then s.turns.erase chatId else s.turns } := by
  cases wake with
  | false =>
      have hnot : chatId ∉ s.typing.turnChats := mt (hexact.turns chatId).mp (hpaired rfl)
      have heq : s.typing.onTurnFinished chatId = s.typing := if_neg hnot
      simp only [heq]
      exact hexact
  | true =>
      have hmem := hwake rfl
      have heq : s.typing.onTurnFinished chatId =
          { s.typing with turnChats := s.typing.turnChats.filter (· ≠ chatId) }.decrement chatId :=
        if_pos ((hexact.turns chatId).mpr hmem)
      refine ⟨fun chatId' => ?_, fun chatId' => ?_, hexact.nodup.erase chatId⟩
      · have hcount := hexact.count chatId'
        dsimp only
        rw [heq, count_decrement]
        unfold working at hcount ⊢
        dsimp only
        rw [if_pos rfl]
        by_cases hc : chatId = chatId'
        · subst hc
          rw [if_pos rfl, List.count_erase_self]
          have hpos : 0 < s.turns.count chatId := List.count_pos_iff.mpr hmem
          show s.typing.count chatId - 1 = _
          omega
        · rw [if_neg hc, List.count_erase_of_ne (Ne.symm hc)]
          exact hcount
      · dsimp only
        rw [heq, turnChats_decrement]
        simp only [if_true, List.mem_filter, hexact.turns, hexact.nodup.mem_erase_iff]
        simp [and_comm]

theorem exact_step
    {a : Label}
    (hexact : Exact s)
    (hpaired : Paired s a)
    (h : step s a = some s') :
    Exact s' := by
  cases a with
  | runTask chatId enabled =>
      obtain rfl := Option.some.inj h
      refine ⟨fun chatId' => ?_, hexact.turns, hexact.nodup⟩
      have hcount := hexact.count chatId'
      unfold working at hcount ⊢
      rw [Threads.left_concat]
      simpa [runningIn] using hcount
  | task i =>
      obtain ⟨run, hrun, hadvance⟩ := Option.bind_eq_some_iff.mp h
      exact exact_task hexact hpaired hrun hadvance
  | turnStarted chatId =>
      obtain rfl := Option.some.inj h
      exact exact_turnStarted hexact hpaired
  | turnFinished chatId wake =>
      rw [step] at h
      split at h
      · cases h
      next hguard =>
      obtain rfl := Option.some.inj h
      refine exact_turnFinished hexact ?_ ?_
      · rintro rfl
        exact hpaired
      · rintro rfl
        simpa using hguard
  | stop =>
      obtain rfl := Option.some.inj h
      have hnone : s.turns = [] := by
        refine List.eq_nil_iff_forall_not_mem.mpr fun chatId hmem => ?_
        have hzero := hpaired chatId
        have hpos : 0 < s.turns.count chatId := List.count_pos_iff.mpr hmem
        unfold working at hzero
        omega
      refine ⟨fun chatId => (hpaired chatId).symm, fun chatId => ?_, hexact.nodup⟩
      show chatId ∈ [] ↔ chatId ∈ s.turns
      rw [hnone]
  | silence =>
      obtain ⟨typing, hsilence, rfl⟩ := Option.map_eq_some_iff.mp h
      unfold RuntimeTyping.silence at hsilence
      split at hsilence
      · cases hsilence
      · obtain rfl := Option.some.inj hsilence
        exact ⟨hexact.count, hexact.turns, hexact.nodup⟩

end Runs

/-- **Typing lasts as long as the work.**  Whatever the calls, a chat has exactly one heartbeat
while its count is positive, and none otherwise; and while ends are paired with starts, the count
is the number of its running tasks and wake turns. -/
theorem typing_exact
    (s : State)
    (h : Reach step (fun _ _ => True) initial s) :
    (∀ chatId,
      (s.typing.count chatId = 0 → ∀ i, ¬ Live s.typing chatId i) ∧
        (0 < s.typing.count chatId → ∃ i, ∀ j, Live s.typing chatId j ↔ j = i)) ∧
    (Reach step Paired initial s → ∀ chatId, s.typing.count chatId = working s chatId) := by
  have hinv := inv_of_reach h
  refine ⟨fun chatId => ⟨fun hzero i hlive => ?_, fun hpos => ?_⟩, fun hreach => ?_⟩
  · have hget := (hinv.registered chatId i).mpr hlive
    rw [(hinv.counted chatId).mpr hzero] at hget
    cases hget
  · have hsome := mt (hinv.counted chatId).mp (Nat.ne_of_gt hpos)
    obtain ⟨i, hi⟩ := Option.ne_none_iff_exists'.mp hsome
    refine ⟨i, fun j => ?_⟩
    rw [← hinv.registered, hi, Option.some.injEq]
    exact eq_comm
  · have hexact : Exact s := by
      refine hreach.invariant ⟨fun _ => rfl, fun _ => Iff.rfl, List.nodup_nil⟩ ?_
      exact fun _ _ _ hs hpaired hstep => exact_step hs hpaired hstep
    exact hexact.count

/-- The pairing as a check, without a stop. -/
def paired (s : State) : Label → Bool
  | .task i => s.tasks[i]?.all fun run => run.enabled || run.chatId.isNone
  | .turnStarted chatId => !s.turns.contains chatId
  | .turnFinished chatId wake => wake || !s.turns.contains chatId
  | .stop => false
  | _ => true

theorem paired_of_check
    (s : State) (a : Label)
    (h : paired s a = true) :
    Paired s a := by
  cases a with
  | runTask chatId enabled => trivial
  | task i =>
      intro run chatId hrun _ hchat
      left
      simpa [paired, hrun, hchat] using h
  | turnStarted chatId =>
      show chatId ∉ s.turns
      simpa [paired] using h
  | turnFinished chatId wake =>
      cases wake with
      | true => trivial
      | false =>
          show chatId ∉ s.turns
          simpa [paired] using h
  | stop => cases h
  | silence => trivial

/-- A task and a wake turn of one chat; the task ends first. -/
def taskAndTurn : List Label :=
  [.runTask (some "7") true, .task 0, .turnStarted "7", .task 0]

theorem typing_exact_taskAndTurn :
    ∃ s, run step initial taskAndTurn = some s ∧ s.typing.count "7" = working s "7" := by
  have hrun := run_eq_getD (show (run step initial taskAndTurn).isSome = true by decide)
  have hcheck : checkRun step paired initial taskAndTurn = true := by decide
  exact ⟨_, hrun, (typing_exact _ (reach_of_run_free hrun)).2
    (reach_of_run hrun (guarded_of_checkRun paired paired_of_check hcheck)) "7"⟩

end Typing
end DiploidAgent
