import Mathlib.Data.List.Induction
import DiploidAgent.Lib.Dict

/-!
# The session registry

`ChatSessionStore` of `runtime/store.py` without its directories, and the turn
counters of `SessionRecord`.  The registry file is its list of lines, each the
record that `from_dict(json.loads(line))` reads, or `none` where that fails; a
written record reads back as it was.  Times are clock ticks.

Of a record the fields that decide numbers are kept; its session id, model,
labels, skill and plugin settings and metrics are read by no function here.
-/

namespace DiploidAgent
namespace Sessions

structure SessionRecord where
  chatId : String
  sessionNumber : Nat
  updatedAt : Int
  turnNumber : Nat := 0
  pendingTurnNumber : Option Nat := none
deriving DecidableEq

namespace SessionRecord

/-- `next_turn_number`. -/
def nextTurnNumber (r : SessionRecord) : Nat :=
  match r.pendingTurnNumber with
  | some k => k
  | none => r.turnNumber + 1

/-- The number `reserve_turn_number` returns. -/
def reservedTurnNumber (r : SessionRecord) : Nat :=
  match r.pendingTurnNumber with
  | some k => k + 1
  | none => r.turnNumber + 1

/-- `reserve_turn_number`. -/
def reserveTurnNumber (r : SessionRecord) : SessionRecord :=
  { r with pendingTurnNumber := some r.reservedTurnNumber }

/-- `consume_turn_number`. -/
def consumeTurnNumber (r : SessionRecord) : SessionRecord :=
  { r with turnNumber := r.nextTurnNumber, pendingTurnNumber := none }

@[simp] theorem chatId_reserve (r : SessionRecord) : r.reserveTurnNumber.chatId = r.chatId := rfl

@[simp] theorem chatId_consume (r : SessionRecord) : r.consumeTurnNumber.chatId = r.chatId := rfl

@[simp] theorem sessionNumber_reserve (r : SessionRecord) :
    r.reserveTurnNumber.sessionNumber = r.sessionNumber := rfl

@[simp] theorem sessionNumber_consume (r : SessionRecord) :
    r.consumeTurnNumber.sessionNumber = r.sessionNumber := rfl

/-- The reserved number is the one that is consumed. -/
@[simp] theorem turnNumber_consume_reserve (r : SessionRecord) :
    r.reserveTurnNumber.consumeTurnNumber.turnNumber = r.reservedTurnNumber := rfl

theorem nextTurnNumber_le_reserved (r : SessionRecord) :
    r.nextTurnNumber ≤ r.reservedTurnNumber := by
  unfold nextTurnNumber reservedTurnNumber
  split <;> omega

end SessionRecord

/-- All sessions for one chat. -/
structure ChatState where
  sessions : Dict Nat SessionRecord := Dict.empty
  nextSessionNumber : Nat := 1

abbrev Registry := Dict String ChatState

/-- `harness.session_prune_enabled` and `harness.session_prune_days`. -/
structure PruneConfig where
  enabled : Bool := true
  days : Int := 14

/-- `self._store` and the lines of the registry file. -/
structure Store where
  states : Registry := Dict.empty
  file : List (Option SessionRecord) := []

/-- `chat_state`: the state of a chat, made on first use. -/
def chatState (m : Registry) (chatId : String) : ChatState := (m.get chatId).getD {}

/-- One line of `load_store`. -/
def loadLine (m : Registry) : Option SessionRecord → Registry
  | none => m
  | some r =>
      let state := chatState m r.chatId
      m.set r.chatId {
        sessions := state.sessions.set r.sessionNumber r
        nextSessionNumber := max state.nextSessionNumber (r.sessionNumber + 1) }

/-- `load_store` in a new process. -/
def loadStore (file : List (Option SessionRecord)) : Store :=
  { states := file.foldl loadLine Dict.empty, file := file }

/-- `append_record`. -/
def appendRecord (s : Store) (r : SessionRecord) : Store :=
  { s with file := s.file ++ [some r] }

/-- `compact_store`. -/
def compactStore (s : Store) : Store :=
  { s with file := s.states.values.flatMap fun state => state.sessions.values.map some }

/-- `max(records, key=lambda r: r.updated_at)`, the first of the maxima. -/
def latest : List SessionRecord → Option SessionRecord
  | [] => none
  | r :: rs =>
      match latest rs with
      | none => some r
      | some best => if best.updatedAt ≤ r.updatedAt then some r else some best

/-- `active_record`. -/
def activeRecord (s : Store) (chatId : String) : Option SessionRecord :=
  (s.states.get chatId).bind fun state => latest state.sessions.values

/-- The record of a session. -/
def record (s : Store) (chatId : String) (n : Nat) : Option SessionRecord :=
  (chatState s.states chatId).sessions.get n

/-- The number `next_session_number` returns. -/
def nextSessionNumber (s : Store) (chatId : String) : Nat :=
  (chatState s.states chatId).nextSessionNumber

/-- Replace the state of a chat. -/
def setChat (s : Store) (chatId : String) (state : ChatState) : Store :=
  { s with states := s.states.set chatId state }

/-- What `next_session_number` leaves behind. -/
def takeSessionNumber (s : Store) (chatId : String) : Store :=
  let state := chatState s.states chatId
  setChat s chatId { state with nextSessionNumber := state.nextSessionNumber + 1 }

/-- `chat_state(chat_id).sessions[record.session_number] = record`, and also the
assignment of fields of a record that is stored. -/
def putRecord (s : Store) (r : SessionRecord) : Store :=
  let state := chatState s.states r.chatId
  setChat s r.chatId { state with sessions := state.sessions.set r.sessionNumber r }

/-- The sessions `prune_chat` keeps: the active one and the recent ones. -/
def keptByPrune (cfg : PruneConfig) (now : Int) (active : Option SessionRecord)
    (e : Nat × SessionRecord) : Bool :=
  active.any (fun r => e.1 == r.sessionNumber) || now - cfg.days * 86400 ≤ e.2.updatedAt

/-- `prune_chat`. -/
def pruneChat (cfg : PruneConfig) (now : Int) (s : Store) (chatId : String) : Store :=
  if cfg.enabled then
    let state := chatState s.states chatId
    setChat s chatId { state with
      sessions := state.sessions.filter (keptByPrune cfg now (activeRecord s chatId)) }
  else s

/-- `prune_and_compact`. -/
def pruneAndCompact (cfg : PruneConfig) (now : Int) (s : Store) (chatId : String) : Store :=
  if cfg.enabled then compactStore (pruneChat cfg now s chatId) else s

/-- `prune_all`. -/
def pruneAll (cfg : PruneConfig) (now : Int) (s : Store) : Store :=
  if cfg.enabled then compactStore (s.states.keys.foldl (pruneChat cfg now) s) else s

/-! ### What the operations do to a record, a counter and the file -/

/-- Every record stands under its own chat and number. -/
def Keyed (s : Store) : Prop :=
  ∀ c n r, record s c n = some r → r.chatId = c ∧ r.sessionNumber = n

section Lookup

variable {s : Store} {c c' : String} {n n' : Nat} {r r' : SessionRecord} {state : ChatState}
  {cfg : PruneConfig} {now : Int}

@[simp] theorem chatState_empty :
    chatState Dict.empty c = {} := rfl

theorem chatState_set
    (m : Registry) :
    chatState (m.set c state) c' = if c = c' then state else chatState m c' := by
  unfold chatState
  rw [Dict.get_set]
  split_ifs <;> rfl

theorem record_setChat :
    record (setChat s c state) c' n =
      if c = c' then state.sessions.get n else record s c' n := by
  unfold record setChat
  rw [chatState_set]
  split_ifs <;> rfl

theorem next_setChat :
    nextSessionNumber (setChat s c state) c' =
      if c = c' then state.nextSessionNumber else nextSessionNumber s c' := by
  unfold nextSessionNumber setChat
  rw [chatState_set]
  split_ifs <;> rfl

theorem record_setChat_of_eq
    (h : state.sessions = (chatState s.states c).sessions) :
    record (setChat s c state) c' n = record s c' n := by
  rw [record_setChat]
  split_ifs with hc
  · rw [h, hc]
    rfl
  · rfl

theorem next_setChat_of_eq
    (h : state.nextSessionNumber = nextSessionNumber s c) :
    nextSessionNumber (setChat s c state) c' = nextSessionNumber s c' := by
  rw [next_setChat]
  split_ifs with hc
  · rw [h, hc]
  · rfl

@[simp] theorem file_setChat : (setChat s c state).file = s.file := rfl

theorem record_putRecord :
    record (putRecord s r) c n =
      if r.chatId = c ∧ r.sessionNumber = n then some r else record s c n := by
  rw [putRecord, record_setChat, Dict.get_set]
  by_cases hc : r.chatId = c
  · subst hc
    by_cases hn : r.sessionNumber = n
    · simp [hn]
    · simp [hn, record]
  · simp [hc]

@[simp] theorem record_putRecord_self :
    record (putRecord s r) r.chatId r.sessionNumber = some r := by
  simp [record_putRecord]

@[simp] theorem next_putRecord :
    nextSessionNumber (putRecord s r) c = nextSessionNumber s c :=
  next_setChat_of_eq rfl

@[simp] theorem file_putRecord : (putRecord s r).file = s.file := rfl

@[simp] theorem record_take :
    record (takeSessionNumber s c) c' n = record s c' n :=
  record_setChat_of_eq rfl

theorem next_take :
    nextSessionNumber (takeSessionNumber s c) c' =
      if c = c' then nextSessionNumber s c + 1 else nextSessionNumber s c' := by
  rw [takeSessionNumber, next_setChat]
  rfl

theorem le_next_take :
    nextSessionNumber s c' ≤ nextSessionNumber (takeSessionNumber s c) c' := by
  rw [next_take]
  split_ifs with hc
  · subst hc
    exact Nat.le_succ _
  · exact Nat.le_refl _

@[simp] theorem file_take : (takeSessionNumber s c).file = s.file := rfl

@[simp] theorem record_append : record (appendRecord s r) c n = record s c n := rfl

@[simp] theorem next_append : nextSessionNumber (appendRecord s r) c = nextSessionNumber s c := rfl

@[simp] theorem record_compact : record (compactStore s) c n = record s c n := rfl

@[simp] theorem next_compact : nextSessionNumber (compactStore s) c = nextSessionNumber s c := rfl

theorem record_pruneChat
    (h : record (pruneChat cfg now s c') c n = some r) :
    record s c n = some r := by
  unfold pruneChat at h
  split_ifs at h
  · rw [record_setChat] at h
    split_ifs at h with hc
    · subst hc
      rw [Dict.get_filter, Option.filter_eq_some_iff] at h
      exact h.1
    · exact h
  · exact h

@[simp] theorem next_pruneChat :
    nextSessionNumber (pruneChat cfg now s c') c = nextSessionNumber s c := by
  unfold pruneChat
  split_ifs
  · exact next_setChat_of_eq rfl
  · rfl

theorem record_pruneFold
    (cs : List String) (h : record (cs.foldl (pruneChat cfg now) s) c n = some r) :
    record s c n = some r := by
  induction cs generalizing s with
  | nil => exact h
  | cons c' cs ih => exact record_pruneChat (ih h)

theorem next_pruneFold
    (cs : List String) :
    nextSessionNumber (cs.foldl (pruneChat cfg now) s) c = nextSessionNumber s c := by
  induction cs generalizing s with
  | nil => rfl
  | cons c' cs ih => rw [List.foldl_cons, ih, next_pruneChat]

theorem record_pruneAndCompact
    (h : record (pruneAndCompact cfg now s c') c n = some r) :
    record s c n = some r := by
  unfold pruneAndCompact at h
  split_ifs at h
  · exact record_pruneChat h
  · exact h

@[simp] theorem next_pruneAndCompact :
    nextSessionNumber (pruneAndCompact cfg now s c') c = nextSessionNumber s c := by
  unfold pruneAndCompact
  split_ifs
  · exact next_pruneChat
  · rfl

theorem record_pruneAll
    (h : record (pruneAll cfg now s) c n = some r) :
    record s c n = some r := by
  unfold pruneAll at h
  split_ifs at h
  · exact record_pruneFold _ h
  · exact h

@[simp] theorem next_pruneAll :
    nextSessionNumber (pruneAll cfg now s) c = nextSessionNumber s c := by
  unfold pruneAll
  split_ifs
  · exact next_pruneFold _
  · rfl

theorem Keyed.of_record
    {t : Store} (hs : Keyed s) (h : ∀ c n r, record t c n = some r → record s c n = some r) :
    Keyed t :=
  fun c n r hr => hs c n r (h c n r hr)

theorem keyed_putRecord
    (hs : Keyed s) :
    Keyed (putRecord s r) := by
  intro c n r' h
  rw [record_putRecord] at h
  split_ifs at h with hkey
  · obtain rfl := Option.some.inj h
    exact hkey
  · exact hs c n r' h

theorem mem_of_latest
    {l : List SessionRecord} (h : latest l = some r) :
    r ∈ l := by
  induction l generalizing r with
  | nil => cases h
  | cons a l ih =>
      rw [latest] at h
      cases hl : latest l with
      | none =>
          rw [hl] at h
          obtain rfl := Option.some.inj h
          exact List.mem_cons_self
      | some best =>
          rw [hl] at h
          simp only at h
          split_ifs at h
          · obtain rfl := Option.some.inj h
            exact List.mem_cons_self
          · obtain rfl := Option.some.inj h
            exact List.mem_cons_of_mem _ (ih hl)

/-- The active record is a stored one. -/
theorem record_of_active
    (hs : Keyed s) (h : activeRecord s c = some r) :
    r.chatId = c ∧ record s c r.sessionNumber = some r := by
  obtain ⟨state, hstate, hlatest⟩ := Option.bind_eq_some_iff.mp h
  obtain ⟨n, hn⟩ := Dict.exists_get_of_mem_values (mem_of_latest hlatest)
  have hrec : record s c n = some r := by
    unfold record chatState
    rw [hstate]
    exact hn
  obtain ⟨hchat, rfl⟩ := hs c n r hrec
  exact ⟨hchat, hrec⟩

/-- The lines of a compacted file are the stored records. -/
theorem mem_compact
    (hs : Keyed s) :
    some r ∈ (compactStore s).file ↔ record s r.chatId r.sessionNumber = some r := by
  rw [compactStore, List.mem_flatMap]
  constructor
  · rintro ⟨state, hstate, hr⟩
    obtain ⟨r', hr', heq⟩ := List.mem_map.mp hr
    obtain rfl := Option.some.inj heq
    obtain ⟨c, hc⟩ := Dict.exists_get_of_mem_values hstate
    obtain ⟨n, hn⟩ := Dict.exists_get_of_mem_values hr'
    have hrec : record s c n = some r' := by
      unfold record chatState
      rw [hc]
      exact hn
    obtain ⟨hchat, hnumber⟩ := hs c n r' hrec
    rwa [hchat, hnumber]
  · intro h
    unfold record chatState at h
    cases hc : s.states.get r.chatId with
    | none =>
        rw [hc] at h
        cases h
    | some state =>
        rw [hc] at h
        exact ⟨state, Dict.mem_values_of_get hc, List.mem_map_of_mem (Dict.mem_values_of_get h)⟩

/-! ### Loading -/

/-- The record a new process would load. -/
def filed (file : List (Option SessionRecord)) (c : String) (n : Nat) : Option SessionRecord :=
  record (loadStore file) c n

section Loading

variable {file : List (Option SessionRecord)}

theorem record_loadLine
    (m : Registry) (f : List (Option SessionRecord)) :
    record ⟨loadLine m (some r), f⟩ c n =
      if r.chatId = c ∧ r.sessionNumber = n then some r else record ⟨m, f⟩ c n := by
  unfold record loadLine
  simp only [chatState_set]
  by_cases hc : r.chatId = c
  · subst hc
    rw [if_pos rfl, Dict.get_set]
    by_cases hn : r.sessionNumber = n <;> simp [hn]
  · simp [hc]

theorem next_loadLine
    (m : Registry) (f : List (Option SessionRecord)) :
    nextSessionNumber ⟨loadLine m (some r), f⟩ c =
      if r.chatId = c then max (nextSessionNumber ⟨m, f⟩ c) (r.sessionNumber + 1)
      else nextSessionNumber ⟨m, f⟩ c := by
  unfold nextSessionNumber loadLine
  simp only [chatState_set]
  split_ifs with hc
  · subst hc
    rfl
  · rfl

theorem next_le_loadLine
    (m : Registry) (f : List (Option SessionRecord)) (line : Option SessionRecord) :
    nextSessionNumber ⟨m, f⟩ c ≤ nextSessionNumber ⟨loadLine m line, f⟩ c := by
  cases line with
  | none => exact Nat.le_refl _
  | some r =>
      rw [next_loadLine]
      split_ifs
      · exact Nat.le_max_left _ _
      · exact Nat.le_refl _

theorem next_le_foldl
    (m : Registry) (f lines : List (Option SessionRecord)) :
    nextSessionNumber ⟨m, f⟩ c ≤ nextSessionNumber ⟨lines.foldl loadLine m, f⟩ c := by
  induction lines generalizing m with
  | nil => exact Nat.le_refl _
  | cons line lines ih => exact Nat.le_trans (next_le_loadLine m f line) (ih _)

/-- Every number in the file is below the counter that is loaded from it. -/
theorem lt_next_loadStore
    (h : some r ∈ file) :
    r.sessionNumber < nextSessionNumber (loadStore file) r.chatId := by
  have hfold : ∀ (f lines : List (Option SessionRecord)) (m : Registry), some r ∈ lines →
      r.sessionNumber < nextSessionNumber ⟨lines.foldl loadLine m, f⟩ r.chatId := by
    intro f lines
    induction lines with
    | nil => exact fun _ h => nomatch h
    | cons line lines ih =>
        intro m hmem
        rcases List.mem_cons.mp hmem with rfl | hmem
        · refine Nat.lt_of_lt_of_le ?_ (next_le_foldl _ f lines)
          rw [next_loadLine, if_pos rfl]
          exact Nat.lt_of_lt_of_le (Nat.lt_succ_self _) (Nat.le_max_right _ _)
        · exact ih _ hmem
  exact hfold file file Dict.empty h

@[simp] theorem filed_nil :
    filed [] c n = none := rfl

theorem filed_append
    (line : Option SessionRecord) :
    filed (file ++ [line]) c n =
      match line with
      | none => filed file c n
      | some r => if r.chatId = c ∧ r.sessionNumber = n then some r else filed file c n := by
  unfold filed loadStore
  rw [List.foldl_append]
  cases line with
  | none => rfl
  | some r => exact record_loadLine _ _

/-- A loaded record is a line of the file. -/
theorem mem_of_filed
    (h : filed file c n = some r) :
    some r ∈ file ∧ r.chatId = c ∧ r.sessionNumber = n := by
  induction file using List.reverseRecOn with
  | nil => cases h
  | append_singleton file line ih =>
      rw [filed_append] at h
      cases line with
      | none => exact ⟨List.mem_append_left _ (ih h).1, (ih h).2⟩
      | some r' =>
          simp only at h
          split_ifs at h with hkey
          · obtain rfl := Option.some.inj h
            exact ⟨List.mem_append_right _ List.mem_cons_self, hkey⟩
          · exact ⟨List.mem_append_left _ (ih h).1, (ih h).2⟩

/-- A line whose session has no other line is loaded. -/
theorem filed_of_mem
    (hmem : some r ∈ file)
    (hunique : ∀ r', some r' ∈ file → r'.chatId = r.chatId → r'.sessionNumber = r.sessionNumber →
      r' = r) :
    filed file r.chatId r.sessionNumber = some r := by
  induction file using List.reverseRecOn with
  | nil => cases hmem
  | append_singleton file line ih =>
      rw [filed_append]
      have hrest : some r ∈ file → filed file r.chatId r.sessionNumber = some r := fun h =>
        ih h fun r' hr' => hunique r' (List.mem_append_left _ hr')
      cases line with
      | none => exact hrest (by simpa using hmem)
      | some r' =>
          simp only
          split_ifs with hkey
          · rw [hunique r' (List.mem_append_right _ List.mem_cons_self) hkey.1 hkey.2]
          · refine hrest ((List.mem_append.mp hmem).resolve_right fun h => hkey ?_)
            obtain rfl := Option.some.inj (List.mem_singleton.mp h)
            exact ⟨rfl, rfl⟩

theorem keyed_loadStore :
    Keyed (loadStore file) :=
  fun _ _ _ h => (mem_of_filed h).2

/-- A compacted file is loaded back as it was. -/
theorem filed_compact
    (hs : Keyed s) :
    filed (compactStore s).file c n = record s c n := by
  cases hrec : record s c n with
  | none =>
      cases hf : filed (compactStore s).file c n with
      | none => rfl
      | some r =>
          obtain ⟨hmem, rfl, rfl⟩ := mem_of_filed hf
          rw [(mem_compact hs).mp hmem] at hrec
          cases hrec
  | some r =>
      obtain ⟨rfl, rfl⟩ := hs c n r hrec
      refine filed_of_mem ((mem_compact hs).mpr hrec) fun r' hr' hchat hnumber => ?_
      have hrec' := (mem_compact hs).mp hr'
      rw [hchat, hnumber, hrec] at hrec'
      exact (Option.some.inj hrec').symm

end Loading

end Lookup

end Sessions
end DiploidAgent
