import DiploidAgent.Lib.Runs
import DiploidAgent.Lib.Totals
import Mathlib.Algebra.Group.Pi.Basic

/-!
# Usage totals

`_record_turn_metrics` and `_rehydrate_metrics` of `runtime/metrics.py`, with what the
turns and the session operations do to the records of a chat.  Totals are kept in memory,
for each chat and for all of them; a turn that ends stamps the total of its chat on its
own record; a session operation writes records without stamping them; a new process reads
the records back and takes the totals of each chat from the record that was updated last.

Times are clock ticks and are chosen by the environment.  Of a record the fields that
decide the totals are kept, and `latency_seconds`, which is rounded, is left out.
-/

namespace DiploidAgent
namespace Metrics

section Model

/-- The keys of the metrics that count. -/
inductive Counter where
  | turns
  | inputTokens
  | outputTokens
  | totalTokens
  | cachedTokens
deriving DecidableEq

abbrev Totals := Counter → Int

/-- What the engine reports of a turn. -/
abbrev Usage := Option (Dict String Int)

/-- `usage.get(key) or usage.get(other, 0)`. -/
def usageCount (usage : Usage) (key other : String) : Int :=
  let usage := usage.getD Dict.empty
  match usage.get key with
  | some n => if n = 0 then (usage.get other).getD 0 else n
  | none => (usage.get other).getD 0

/-- `turn_metrics`. -/
def turnMetrics (usage : Usage) : Totals
  | .turns => 1
  | .inputTokens => usageCount usage "inputTokens" "input_tokens"
  | .outputTokens => usageCount usage "outputTokens" "output_tokens"
  | .totalTokens => usageCount usage "totalTokens" "total_tokens"
  | .cachedTokens => usageCount usage "cachedReadTokens" "cached_tokens"

structure SessionRecord where
  chatId : String
  sessionNumber : Nat
  updatedAt : Int
  cumulativeMetrics : Option Totals := none

/-- All sessions for one chat. -/
structure ChatState where
  sessions : Dict Nat SessionRecord := Dict.empty
  nextSessionNumber : Nat := 1

abbrev Registry := Dict String ChatState

/-- An entry of `_per_chat_metrics`: the running totals and `cumulative`. -/
structure ChatMetrics where
  totals : Totals
  cumulative : Totals

/-- A turn that has ended, with the session it ended on. -/
structure FinishedTurn where
  chatId : String
  sessionNumber : Nat
  metrics : Totals

/-- The registry and the lines of its file, the metrics in memory, and what has
happened: the turns that ended, newest first, and the sessions that `new_session`
started. -/
structure State where
  states : Registry := Dict.empty
  file : List SessionRecord := []
  perChat : Dict String ChatMetrics := Dict.empty
  globalMetrics : Totals := 0
  turns : List FinishedTurn := []
  started : List (String × Nat) := []

/-- `chat_state`: the state of a chat, made on first use. -/
def chatState (m : Registry) (chatId : String) : ChatState := (m.get chatId).getD {}

/-- One line of `load_store`. -/
def loadLine (m : Registry) (r : SessionRecord) : Registry :=
  let state := chatState m r.chatId
  m.set r.chatId {
    sessions := state.sessions.set r.sessionNumber r
    nextSessionNumber := max state.nextSessionNumber (r.sessionNumber + 1) }

/-- `load_store` in a new process. -/
def loadStore (file : List SessionRecord) : Registry := file.foldl loadLine Dict.empty

/-- `max(records, key=lambda r: r.updated_at)`, the first of the maxima. -/
def latest : List SessionRecord → Option SessionRecord
  | [] => none
  | r :: rs =>
      match latest rs with
      | none => some r
      | some best => if best.updatedAt ≤ r.updatedAt then some r else some best

/-- `active_record`. -/
def activeRecord (s : State) (chatId : String) : Option SessionRecord :=
  latest (chatState s.states chatId).sessions.values

/-- The record of a session. -/
def record (s : State) (chatId : String) (n : Nat) : Option SessionRecord :=
  (chatState s.states chatId).sessions.get n

/-- The number `next_session_number` returns. -/
def nextSessionNumber (s : State) (chatId : String) : Nat :=
  (chatState s.states chatId).nextSessionNumber

/-- What `next_session_number` leaves behind. -/
def takeSessionNumber (s : State) (chatId : String) : State :=
  let state := chatState s.states chatId
  { s with
    states := s.states.set chatId { state with
      nextSessionNumber := state.nextSessionNumber + 1 } }

/-- A record is stored, or its fields are assigned, and `append_record` writes it. -/
def putRecord (s : State) (r : SessionRecord) : State :=
  let state := chatState s.states r.chatId
  { s with
    states := s.states.set r.chatId { state with
      sessions := state.sessions.set r.sessionNumber r }
    file := s.file ++ [r] }

/-- The totals of a chat; a chat without an entry has none. -/
def chatTotals (s : State) (chatId : String) : Totals :=
  (s.perChat.get chatId).elim 0 ChatMetrics.totals

/-- `_record_turn_metrics`. -/
def recordTurnMetrics (s : State) (chatId : String) (usage : Usage) : State :=
  let totals := chatTotals s chatId + turnMetrics usage
  { s with
    perChat := s.perChat.set chatId { totals := totals, cumulative := totals }
    globalMetrics := s.globalMetrics + turnMetrics usage }

/-- `_create_record`. -/
def createRecord (chatId : String) (n : Nat) (now : Int) : SessionRecord :=
  { chatId := chatId, sessionNumber := n, updatedAt := now }

/-- The end of `_finalize_turn`: the record of the turn gets the totals of its chat. -/
def stampRecord (s : State) (r : SessionRecord) (usage : Usage) (now : Int) : State :=
  putRecord
    { s with
      turns :=
        { chatId := r.chatId
          sessionNumber := r.sessionNumber
          metrics := turnMetrics usage } :: s.turns }
    { r with
      updatedAt := now
      cumulativeMetrics := (s.perChat.get r.chatId).map ChatMetrics.cumulative }

/-- `_finalize_turn`: a turn without a record, or with `is_new` or `force_new_session`,
ends on a new one. -/
def finalizeTurn (s : State) (chatId : String) (recordIsNew : Bool) (usage : Usage)
    (now : Int) : State :=
  let recorded := recordTurnMetrics s chatId usage
  match if recordIsNew then none else activeRecord s chatId with
  | some r => stampRecord recorded r usage now
  | none =>
      stampRecord (takeSessionNumber recorded chatId)
        (createRecord chatId (nextSessionNumber s chatId) now) usage now

/-- `_start_fresh_session` and `_branch_session`, up to `_finalize_session_activation`. -/
def startSession (s : State) (chatId : String) (now : Int) : State :=
  putRecord (takeSessionNumber s chatId) (createRecord chatId (nextSessionNumber s chatId) now)

/-- A record with a new `updated_at`. -/
def touchRecord (s : State) (now : Int) : Option SessionRecord → State
  | some r => putRecord s { r with updatedAt := now }
  | none => s

/-- `new_session`. -/
def newSession (s : State) (chatId : String) (now : Int) : State :=
  { startSession s chatId now with
    started := (chatId, nextSessionNumber s chatId) :: s.started }

/-- `switch_model` with a fresh session. -/
def switchModel (s : State) (chatId : String) (now : Int) : State := startSession s chatId now

/-- `_switch_model_in_place`. -/
def switchModelInPlace (s : State) (chatId : String) (now : Int) : State :=
  touchRecord s now (activeRecord s chatId)

/-- `_resume_session`: a session that is active already is left as it is. -/
def resumeSession (s : State) (chatId : String) (n : Nat) (now : Int) : State :=
  if (activeRecord s chatId).any fun r => r.sessionNumber == n then s
  else touchRecord s now (record s chatId n)

/-- `_branch_session`: a source that does not exist is refused. -/
def branchSession (s : State) (chatId : String) (n : Nat) (now : Int) : State :=
  match record s chatId n with
  | some _ => startSession s chatId now
  | none => s

/-- `reserve_turn_number` and `append_record`, by a turn or a resume that may fail later. -/
def reserveTurn (s : State) (chatId : String) (n : Nat) : State :=
  match record s chatId n with
  | some r => putRecord s r
  | none => s

/-- What happens to a chat. -/
inductive Operation where
  | reserve (chatId : String) (n : Nat)
  | finishTurn (chatId : String) (recordIsNew : Bool) (usage : Usage) (now : Int)
  | newSession (chatId : String) (now : Int)
  | switchModel (chatId : String) (now : Int)
  | switchModelInPlace (chatId : String) (now : Int)
  | resume (chatId : String) (n : Nat) (now : Int)
  | branch (chatId : String) (n : Nat) (now : Int)
  /-- A turn or a session operation that takes a number and then fails. -/
  | takeNumber (chatId : String)

def perform (s : State) : Operation → State
  | .reserve chatId n => reserveTurn s chatId n
  | .finishTurn chatId recordIsNew usage now => finalizeTurn s chatId recordIsNew usage now
  | .newSession chatId now => newSession s chatId now
  | .switchModel chatId now => switchModel s chatId now
  | .switchModelInPlace chatId now => switchModelInPlace s chatId now
  | .resume chatId n now => resumeSession s chatId n now
  | .branch chatId n now => branchSession s chatId n now
  | .takeNumber chatId => takeSessionNumber s chatId

end Model

/-! ### The turns of a chat -/

section Turns

variable {c : String} {n : Nat} {t : FinishedTurn} {ts l : List FinishedTurn}

/-- The sum of the metrics of turns. -/
def totalOf (ts : List FinishedTurn) : Totals := (ts.map FinishedTurn.metrics).sum

/-- The turns of a chat. -/
def turnsOf (c : String) (ts : List FinishedTurn) : List FinishedTurn :=
  ts.filter fun t => t.chatId = c

/-- The turns of a chat up to the last one of a session; `none` when the session had no
turn. -/
def turnsThrough (c : String) (n : Nat) : List FinishedTurn → Option (List FinishedTurn)
  | [] => none
  | t :: ts =>
      if t.chatId = c ∧ t.sessionNumber = n then some (turnsOf c (t :: ts))
      else turnsThrough c n ts

@[simp] theorem totalOf_cons : totalOf (t :: ts) = t.metrics + totalOf ts := List.sum_cons

theorem turnsOf_cons_self
    (h : t.chatId = c) :
    turnsOf c (t :: ts) = t :: turnsOf c ts :=
  List.filter_cons_of_pos (by simp [h])

theorem turnsOf_cons_other
    (h : t.chatId ≠ c) :
    turnsOf c (t :: ts) = turnsOf c ts :=
  List.filter_cons_of_neg (by simp [h])

theorem turnsThrough_cons_self
    (hc : t.chatId = c)
    (hn : t.sessionNumber = n) :
    turnsThrough c n (t :: ts) = some (turnsOf c (t :: ts)) := by
  rw [turnsThrough, if_pos ⟨hc, hn⟩]

theorem turnsThrough_cons_other
    (h : ¬ (t.chatId = c ∧ t.sessionNumber = n)) :
    turnsThrough c n (t :: ts) = turnsThrough c n ts := by
  rw [turnsThrough, if_neg h]

/-- A session without a turn. -/
theorem turnsThrough_eq_none
    (h : ∀ t ∈ ts, ¬ (t.chatId = c ∧ t.sessionNumber = n)) :
    turnsThrough c n ts = none := by
  induction ts with
  | nil => rfl
  | cons t ts ih =>
      obtain ⟨hhead, hrest⟩ := List.forall_mem_cons.mp h
      rw [turnsThrough_cons_other hhead, ih hrest]

/-- The last turn of the chat is a turn of the session. -/
theorem turnsThrough_last
    (h : turnsOf c ts = t :: l) :
    turnsThrough c t.sessionNumber ts = some (turnsOf c ts) := by
  induction ts with
  | nil => cases h
  | cons t' ts ih =>
      by_cases hc : t'.chatId = c
      · have hsame := h
        rw [turnsOf_cons_self hc, List.cons.injEq] at hsame
        rw [turnsThrough_cons_self hc (congrArg _ hsame.1)]
      · rw [turnsOf_cons_other hc] at h ⊢
        rw [turnsThrough_cons_other (fun hin => hc hin.1), ih h]

theorem mem_of_turnsThrough
    (h : turnsThrough c n ts = some l) :
    ∀ t ∈ l, t ∈ ts := by
  induction ts with
  | nil => cases h
  | cons t' ts ih =>
      intro t ht
      by_cases hin : t'.chatId = c ∧ t'.sessionNumber = n
      · rw [turnsThrough_cons_self hin.1 hin.2] at h
        rw [← Option.some.inj h] at ht
        exact (List.mem_filter.mp ht).1
      · rw [turnsThrough_cons_other hin] at h
        exact List.mem_cons_of_mem _ (ih h t ht)

/-- The turns of a chat up to the last one of another session than its last turn's. -/
theorem length_turnsThrough_lt
    (hlast : turnsOf c ts = t :: l)
    (hn : n ≠ t.sessionNumber)
    {through : List FinishedTurn}
    (h : turnsThrough c n ts = some through) :
    through.length < (turnsOf c ts).length := by
  have hle : ∀ ts through, turnsThrough c n ts = some through →
      through.length ≤ (turnsOf c ts).length := by
    intro ts
    induction ts with
    | nil =>
        intro through h
        cases h
    | cons t' ts ih =>
        intro through h
        by_cases hin : t'.chatId = c ∧ t'.sessionNumber = n
        · rw [turnsThrough_cons_self hin.1 hin.2] at h
          exact (congrArg List.length (Option.some.inj h)).ge
        · rw [turnsThrough_cons_other hin] at h
          exact (ih through h).trans (List.Sublist.length_le
            ((List.sublist_cons_self t' ts).filter _))
  induction ts with
  | nil => cases hlast
  | cons t' ts ih =>
      by_cases hc : t'.chatId = c
      · rw [turnsOf_cons_self hc, List.cons.injEq] at hlast
        obtain ⟨rfl, -⟩ := hlast
        rw [turnsThrough_cons_other (fun hin => hn hin.2.symm)] at h
        rw [turnsOf_cons_self hc, List.length_cons]
        exact Nat.lt_succ_of_le (hle ts through h)
      · rw [turnsThrough_cons_other (fun hin => hc hin.1)] at h
        rw [turnsOf_cons_other hc] at hlast ⊢
        exact ih hlast h

/-- Every turn counts once. -/
theorem totalOf_turns
    (h : ∀ t ∈ ts, t.metrics .turns = 1) :
    totalOf ts .turns = ts.length := by
  induction ts with
  | nil => rfl
  | cons t ts ih =>
      obtain ⟨hhead, hrest⟩ := List.forall_mem_cons.mp h
      rw [totalOf_cons, Pi.add_apply, hhead, ih hrest, List.length_cons]
      omega

end Turns

/-! ### What the operations keep -/

section Lookup

variable {s : State} {c c' : String} {n : Nat} {r : SessionRecord}

theorem chatState_set
    (m : Registry) (state : ChatState) :
    chatState (m.set c state) c' = if c = c' then state else chatState m c' := by
  unfold chatState
  rw [Dict.get_set]
  split_ifs <;> rfl

/-- What an assignment does not change of the state of a chat. -/
theorem chatState_set_congr
    {α : Type} {m : Registry} {state : ChatState}
    (f : ChatState → α)
    (h : f state = f (chatState m c)) :
    f (chatState (m.set c state) c') = f (chatState m c') := by
  rw [chatState_set]
  split_ifs with hc
  · rw [h, hc]
  · rfl

/-- The sessions after a record was put. -/
theorem sessions_set
    {m : Registry} {state : ChatState}
    (h : state.sessions = (chatState m r.chatId).sessions.set r.sessionNumber r) :
    (chatState (m.set r.chatId state) c).sessions =
      if r.chatId = c then (chatState m c).sessions.set r.sessionNumber r
      else (chatState m c).sessions := by
  rw [chatState_set]
  split_ifs with hc
  · rw [h, hc]
  · rfl

theorem sessions_take :
    (chatState (takeSessionNumber s c).states c').sessions = (chatState s.states c').sessions :=
  chatState_set_congr ChatState.sessions rfl

theorem next_take :
    nextSessionNumber (takeSessionNumber s c) c' =
      if c = c' then nextSessionNumber s c + 1 else nextSessionNumber s c' := by
  rw [nextSessionNumber, takeSessionNumber, chatState_set]
  split_ifs <;> rfl

theorem sessions_put :
    (chatState (putRecord s r).states c).sessions =
      if r.chatId = c then (chatState s.states c).sessions.set r.sessionNumber r
      else (chatState s.states c).sessions :=
  sessions_set rfl

theorem sessions_loadLine
    (m : Registry) :
    (chatState (loadLine m r) c).sessions =
      if r.chatId = c then (chatState m c).sessions.set r.sessionNumber r
      else (chatState m c).sessions :=
  sessions_set rfl

theorem record_put :
    record (putRecord s r) c n =
      if r.chatId = c ∧ r.sessionNumber = n then some r else record s c n := by
  rw [record, sessions_put]
  by_cases hc : r.chatId = c
  · rw [if_pos hc, Dict.get_set]
    simp [hc, record]
  · rw [if_neg hc, if_neg (fun h => hc h.1)]
    rfl

theorem record_take : record (takeSessionNumber s c) c' n = record s c' n := by
  rw [record, sessions_take]
  rfl

theorem next_put : nextSessionNumber (putRecord s r) c = nextSessionNumber s c :=
  chatState_set_congr ChatState.nextSessionNumber rfl

theorem latest_mem
    {l : List SessionRecord}
    (h : latest l = some r) :
    r ∈ l := by
  induction l generalizing r with
  | nil => cases h
  | cons r' l ih =>
      rw [latest] at h
      split at h
      · exact Option.some.inj h ▸ List.mem_cons_self
      · rename_i best hbest
        split at h
        · exact Option.some.inj h ▸ List.mem_cons_self
        · exact List.mem_cons_of_mem _ (ih (hbest.trans h))

end Lookup

section Invariant

/-- The totals of each chat are the sums over its turns, the global ones the sums over
all turns. -/
structure TotalsHold (s : State) : Prop where
  perChat : ∀ c, chatTotals s c = totalOf (turnsOf c s.turns)
  overall : s.globalMetrics = totalOf s.turns

/-- The totals hold, the file has the sessions of the registry, and every record carries
the totals of its chat as they were after the last turn of its session. -/
structure Sound (s : State) : Prop extends TotalsHold s where
  loaded : ∀ c, (chatState (loadStore s.file) c).sessions = (chatState s.states c).sessions
  keyed : ∀ c n r, record s c n = some r → r.chatId = c ∧ r.sessionNumber = n
  numbered : ∀ c n r, record s c n = some r → n < nextSessionNumber s c
  known : ∀ t ∈ s.turns, (record s t.chatId t.sessionNumber).isSome
  stamped : ∀ c n r, record s c n = some r →
    r.cumulativeMetrics = (turnsThrough c n s.turns).map totalOf
  counted : ∀ t ∈ s.turns, t.metrics .turns = 1

variable {s : State} {c : String} {n : Nat} {r : SessionRecord} {usage : Usage} {now : Int}

theorem sound_initial : Sound {} where
  perChat _ := rfl
  overall := rfl
  loaded _ := rfl
  keyed _ _ _ h := nomatch h
  numbered _ _ _ h := nomatch h
  known _ h := nomatch h
  stamped _ _ _ h := nomatch h
  counted _ h := nomatch h

theorem loaded_put
    (h : Sound s) :
    ∀ c, (chatState (loadStore (putRecord s r).file) c).sessions =
      (chatState (putRecord s r).states c).sessions := by
  intro c
  have hfile : loadStore (putRecord s r).file = loadLine (loadStore s.file) r :=
    List.foldl_append
  rw [hfile, sessions_loadLine, sessions_put, h.loaded]

/-- The active record is a record of its chat. -/
theorem record_of_active
    (h : Sound s)
    (hactive : activeRecord s c = some r) :
    record s c r.sessionNumber = some r := by
  obtain ⟨n, hget⟩ := Dict.exists_get_of_mem_values (latest_mem hactive)
  rw [(h.keyed c n r hget).2]
  exact hget

/-- A number that is not taken yet has no turns. -/
theorem turnsThrough_next
    (h : Sound s) :
    turnsThrough c (nextSessionNumber s c) s.turns = none := by
  refine turnsThrough_eq_none fun t ht hin => ?_
  obtain ⟨r, hr⟩ := Option.isSome_iff_exists.mp (h.known t ht)
  rw [hin.1, hin.2] at hr
  exact Nat.lt_irrefl _ (h.numbered c _ r hr)

theorem Sound.take
    (h : Sound s) :
    Sound (takeSessionNumber s c) where
  perChat := h.perChat
  overall := h.overall
  loaded c' := (h.loaded c').trans sessions_take.symm
  keyed c' n r hr := h.keyed c' n r (record_take ▸ hr)
  numbered c' n r hr := by
    have hlt := h.numbered c' n r (record_take ▸ hr)
    rw [next_take]
    split_ifs with hc
    · subst hc
      omega
    · exact hlt
  known t ht := by
    rw [record_take]
    exact h.known t ht
  stamped c' n r hr := h.stamped c' n r (record_take ▸ hr)
  counted := h.counted

/-- A record is written that carries what the records of its session carry. -/
theorem Sound.put
    (h : Sound s)
    (hnumber : r.sessionNumber < nextSessionNumber s r.chatId)
    (hstamp : r.cumulativeMetrics =
      (turnsThrough r.chatId r.sessionNumber s.turns).map totalOf) :
    Sound (putRecord s r) where
  perChat := h.perChat
  overall := h.overall
  loaded := loaded_put h
  keyed c n r' hr := by
    rw [record_put] at hr
    split_ifs at hr with hkey
    · exact Option.some.inj hr ▸ hkey
    · exact h.keyed c n r' hr
  numbered c n r' hr := by
    rw [record_put] at hr
    rw [next_put]
    split_ifs at hr with hkey
    · rw [← hkey.1, ← hkey.2]
      exact hnumber
    · exact h.numbered c n r' hr
  known t ht := by
    rw [record_put]
    split_ifs
    · rfl
    · exact h.known t ht
  stamped c n r' hr := by
    rw [record_put] at hr
    split_ifs at hr with hkey
    · obtain ⟨rfl, rfl⟩ := hkey
      exact Option.some.inj hr ▸ hstamp
    · exact h.stamped c n r' hr
  counted := h.counted

/-- A record of the registry is written again, with another time. -/
theorem Sound.touch
    (h : Sound s)
    (hr : record s c n = some r) :
    Sound (putRecord s { r with updatedAt := now }) := by
  obtain ⟨rfl, rfl⟩ := h.keyed c n r hr
  exact h.put (h.numbered _ _ r hr) (h.stamped _ _ r hr)

theorem chatTotals_recordTurnMetrics
    (c' : String) :
    chatTotals (recordTurnMetrics s c usage) c' =
      if c = c' then chatTotals s c + turnMetrics usage else chatTotals s c' := by
  rw [chatTotals, recordTurnMetrics, Dict.get_set]
  split_ifs <;> rfl

/-- A turn ends on a record of its chat, old or new. -/
theorem Sound.stamp
    (h : Sound s)
    (hchat : r.chatId = c)
    (hnumber : r.sessionNumber < nextSessionNumber s c) :
    Sound (stampRecord (recordTurnMetrics s c usage) r usage now) := by
  subst hchat
  have hrecord : ∀ c' n', record (stampRecord (recordTurnMetrics s r.chatId usage) r usage now)
      c' n' = if r.chatId = c' ∧ r.sessionNumber = n' then
        some { r with
          updatedAt := now
          cumulativeMetrics := some (chatTotals s r.chatId + turnMetrics usage) }
        else record s c' n' := by
    intro c' n'
    rw [stampRecord, record_put]
    dsimp only [recordTurnMetrics]
    rw [Dict.get_set_self]
    rfl
  have hself : turnsOf r.chatId (stampRecord (recordTurnMetrics s r.chatId usage) r usage now).turns
      = { chatId := r.chatId
          sessionNumber := r.sessionNumber
          metrics := turnMetrics usage } :: turnsOf r.chatId s.turns :=
    turnsOf_cons_self rfl
  have htotal : chatTotals s r.chatId + turnMetrics usage = totalOf (turnsOf r.chatId
      (stampRecord (recordTurnMetrics s r.chatId usage) r usage now).turns) := by
    rw [hself, totalOf_cons, h.perChat, add_comm]
  refine {
    perChat := fun c' => ?_
    overall := ?_
    loaded := fun c' => ?_
    keyed := fun c' n' r' hr => ?_
    numbered := fun c' n' r' hr => ?_
    known := fun t ht => ?_
    stamped := fun c' n' r' hr => ?_
    counted := fun t ht => ?_ }
  · change chatTotals (recordTurnMetrics s r.chatId usage) c' = _
    rw [chatTotals_recordTurnMetrics]
    split_ifs with hc
    · subst hc
      exact htotal
    · rw [h.perChat]
      exact congrArg totalOf (turnsOf_cons_other hc).symm
  · change s.globalMetrics + turnMetrics usage = turnMetrics usage + totalOf s.turns
    rw [h.overall, add_comm]
  · have hfile : loadStore (stampRecord (recordTurnMetrics s r.chatId usage) r usage now).file =
        loadLine (loadStore s.file) _ := List.foldl_append
    rw [hfile, sessions_loadLine, stampRecord, sessions_put, h.loaded]
    rfl
  · rw [hrecord] at hr
    split_ifs at hr with hkey
    · exact Option.some.inj hr ▸ hkey
    · exact h.keyed c' n' r' hr
  · rw [stampRecord, next_put]
    rw [hrecord] at hr
    split_ifs at hr with hkey
    · rw [← hkey.1, ← hkey.2]
      exact hnumber
    · exact h.numbered c' n' r' hr
  · rw [hrecord]
    split_ifs with hkey
    · rfl
    · rcases List.mem_cons.mp ht with rfl | ht
      · exact absurd ⟨rfl, rfl⟩ hkey
      · exact h.known t ht
  · rw [hrecord] at hr
    split_ifs at hr with hkey
    · obtain ⟨rfl, rfl⟩ := hkey
      obtain rfl := Option.some.inj hr
      have hthrough : turnsThrough r.chatId r.sessionNumber
          (stampRecord (recordTurnMetrics s r.chatId usage) r usage now).turns = some _ :=
        turnsThrough_cons_self rfl rfl
      rw [hthrough]
      exact congrArg some htotal
    · rw [h.stamped c' n' r' hr]
      exact congrArg (Option.map totalOf) (turnsThrough_cons_other hkey).symm
  · rcases List.mem_cons.mp ht with rfl | ht
    · rfl
    · exact h.counted t ht

theorem Sound.finalize
    (h : Sound s)
    (recordIsNew : Bool) :
    Sound (finalizeTurn s c recordIsNew usage now) := by
  rw [finalizeTurn]
  split
  · rename_i r hold
    have hactive : activeRecord s c = some r := by
      cases recordIsNew with
      | true => cases hold
      | false => exact hold
    have hrecord := record_of_active h hactive
    exact h.stamp (h.keyed c _ r hrecord).1 (h.numbered c _ r hrecord)
  · have hnext : nextSessionNumber s c < nextSessionNumber (takeSessionNumber s c) c := by
      rw [next_take, if_pos rfl]
      omega
    exact (h.take (c := c)).stamp rfl hnext

theorem Sound.start
    (h : Sound s) :
    Sound (startSession s c now) := by
  refine (h.take (c := c)).put ?_ ?_
  · change nextSessionNumber s c < nextSessionNumber (takeSessionNumber s c) c
    rw [next_take, if_pos rfl]
    omega
  · exact (congrArg (Option.map totalOf) (turnsThrough_next h)).symm

theorem Sound.perform
    (h : Sound s)
    (op : Operation) :
    Sound (perform s op) := by
  cases op with
  | reserve c n =>
      change Sound (reserveTurn s c n)
      rw [reserveTurn]
      split
      · rename_i r hr
        exact h.touch hr
      · exact h
  | finishTurn c recordIsNew usage now => exact h.finalize recordIsNew
  | newSession c now =>
      have hstart : Sound (startSession s c now) := h.start
      exact { hstart with }
  | switchModel c now => exact h.start
  | switchModelInPlace c now =>
      change Sound (touchRecord s now (activeRecord s c))
      cases hactive : activeRecord s c with
      | none => exact h
      | some r => exact h.touch (record_of_active h hactive)
  | resume c n now =>
      change Sound (resumeSession s c n now)
      rw [resumeSession]
      split_ifs
      · exact h
      · cases hr : record s c n with
        | none => exact h
        | some r => exact h.touch hr
  | branch c n now =>
      change Sound (branchSession s c n now)
      rw [branchSession]
      split
      · exact h.start
      · exact h
  | takeNumber c => exact h.take

end Invariant

end Metrics
end DiploidAgent
