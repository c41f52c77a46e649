import DiploidAgent.Sessions.Numbers

/-!
# Turn numbers

A turn reserves its number and writes it to the file before the engine runs, so
that a killed turn's number is skipped by the next one.  The resume of a live
session by a probe counts a turn without reserving it, and takes a number that
is still reserved as its own.

The recorded numbers of a session stay below what its record would reserve
next, in memory (`memory`) and in the file (`onFile`).
-/

namespace DiploidAgent
namespace Sessions

open Runs

/-- The turn numbers recorded for a session, newest first. -/
def turnsOf (s : Sys) (c : String) (n : Nat) : List Nat :=
  s.recorded.filterMap fun e => if e.1 = c ∧ e.2.1 = n then some e.2.2 else none

/-- No probe activation is lost by a kill before its record is appended, no
session is resumed by a probe whose record still carries the reserved number of
a recorded turn, and the session numbers taken are new. -/
def NumbersKept (cfg : PruneConfig) (s : Sys) (a : String × Act) : Prop :=
  (match a.2 with
    | .restart _ => s.unsaved = []
    | .resumeProbe n _ _ => ∀ r k, record s.store a.1 n = some r →
        r.pendingTurnNumber = some k → k ∉ turnsOf s a.1 n
    | _ => True) ∧
  ∀ s', step cfg s a = some s' → s'.handedOut ≠ s.handedOut →
    (a.1, nextSessionNumber s.store a.1) ∉ s.handedOut

/-- What holds of the records whatever is in flight. -/
structure Core (s : Sys) : Prop where
  keyed : Keyed s.store
  used : ∀ c n k, (c, n, k) ∈ s.recorded → (c, n) ∈ s.handedOut
  stored : ∀ c n r, record s.store c n = some r → (c, n) ∈ s.handedOut
  lines : ∀ r, some r ∈ s.store.file → (r.chatId, r.sessionNumber) ∈ s.handedOut
  decreasing : ∀ c n, (turnsOf s c n).Pairwise (· > ·)
  memory : ∀ c n r, record s.store c n = some r → ∀ k ∈ turnsOf s c n, k < r.reservedTurnNumber
  onFile : ∀ c n r, filed s.store.file c n = some r →
    (c, n) ∈ s.unsaved ∨ ∀ k ∈ turnsOf s c n, k < r.reservedTurnNumber

/-- What the operation in flight may rely on. -/
def PhaseOk (s : Sys) (c : String) : Phase → Prop
  | .idle | .recorded _ => True
  | .turn _ n k =>
      (c, n) ∈ s.handedOut ∧ (∀ j ∈ turnsOf s c n, j < k) ∧
        (∀ f, filed s.store.file c n = some f → k < f.reservedTurnNumber) ∧
        ∀ r, record s.store c n = some r → r.pendingTurnNumber = some k
  | .fresh n =>
      (c, n) ∈ s.handedOut ∧ turnsOf s c n = [] ∧ filed s.store.file c n = none ∧
        record s.store c n = none
  | .resuming n =>
      ∀ r, record s.store c n = some r → ∃ k, r.pendingTurnNumber = some k ∧
        (∀ j ∈ turnsOf s c n, j < k) ∧
        ∀ f, filed s.store.file c n = some f → k < f.reservedTurnNumber

/-- The invariant of the runs. -/
structure Counted (s : Sys) : Prop where
  core : Core s
  phases : ∀ c, PhaseOk s c (s.phase c)

section Counters

variable {cfg : PruneConfig} {s s' : Sys} {c c' : String} {n k : Nat} {r : SessionRecord}
  {now : Int} {p : Phase}

theorem mem_turnsOf :
    k ∈ turnsOf s c n ↔ (c, n, k) ∈ s.recorded := by
  rw [turnsOf, List.mem_filterMap]
  constructor
  · rintro ⟨⟨c', n', k'⟩, hmem, h⟩
    simp only at h
    split_ifs at h with hkey
    obtain ⟨rfl, rfl⟩ := hkey
    obtain rfl := Option.some.inj h
    exact hmem
  · intro h
    exact ⟨(c, n, k), h, by simp⟩

theorem turnsOf_push
    {n' : Nat} :
    turnsOf { s with recorded := (c', n', k) :: s.recorded } c n =
      if c' = c ∧ n' = n then k :: turnsOf s c n else turnsOf s c n := by
  unfold turnsOf
  split_ifs with hkey <;> simp [hkey]

theorem nextTurnNumber_of_pending
    (h : r.pendingTurnNumber = some k) :
    r.nextTurnNumber = k := by
  simp [SessionRecord.nextTurnNumber, h]

theorem reserved_of_pending
    (h : r.pendingTurnNumber = some k) :
    r.reservedTurnNumber = k + 1 := by
  simp [SessionRecord.reservedTurnNumber, h]

/-- A session number that is not in use has no turns and no record anywhere. -/
theorem unused_session
    (hs : Core s) (hnew : (c, n) ∉ s.handedOut) :
    turnsOf s c n = [] ∧ filed s.store.file c n = none ∧ record s.store c n = none := by
  refine ⟨?_, ?_, ?_⟩
  · refine List.eq_nil_iff_forall_not_mem.mpr fun k hk => hnew ?_
    exact hs.used c n k (mem_turnsOf.mp hk)
  · cases hf : filed s.store.file c n with
    | none => rfl
    | some f =>
        obtain ⟨hmem, rfl, rfl⟩ := mem_of_filed hf
        exact absurd (hs.lines f hmem) hnew
  · cases hr : record s.store c n with
    | none => rfl
    | some r => exact absurd (hs.stored c n r hr) hnew

/-! ### The effects of a step on the records -/

theorem core_allocate
    (hs : Core s) :
    Core (allocate s c) :=
  { keyed := hs.keyed.of_record fun _ _ _ h => by rwa [allocate, record_take] at h
    used := fun c' n k h => List.mem_cons_of_mem _ (hs.used c' n k h)
    stored := fun c' n r h => List.mem_cons_of_mem _
      (hs.stored c' n r (by rwa [allocate, record_take] at h))
    lines := fun r h => List.mem_cons_of_mem _ (hs.lines r h)
    decreasing := hs.decreasing
    memory := fun c' n r h => hs.memory c' n r (by rwa [allocate, record_take] at h)
    onFile := hs.onFile }

theorem core_put
    (hs : Core s) (hin : (r.chatId, r.sessionNumber) ∈ s.handedOut)
    (hbelow : ∀ k ∈ turnsOf s r.chatId r.sessionNumber, k < r.reservedTurnNumber) :
    Core { s with store := putRecord s.store r } := by
  refine {
    keyed := keyed_putRecord hs.keyed
    used := hs.used
    stored := ?_
    lines := hs.lines
    decreasing := hs.decreasing
    memory := ?_
    onFile := hs.onFile }
  · intro c n r' h
    rw [record_putRecord] at h
    split_ifs at h with hkey
    · obtain ⟨rfl, rfl⟩ := hkey
      exact hin
    · exact hs.stored c n r' h
  · intro c n r' h
    rw [record_putRecord] at h
    split_ifs at h with hkey
    · obtain ⟨rfl, rfl⟩ := hkey
      obtain rfl := Option.some.inj h
      exact hbelow
    · exact hs.memory c n r' h

theorem core_append
    (hs : Core s) (hin : (r.chatId, r.sessionNumber) ∈ s.handedOut)
    (hbelow : ∀ k ∈ turnsOf s r.chatId r.sessionNumber, k < r.reservedTurnNumber) :
    Core (appendOf s r) := by
  refine {
    keyed := hs.keyed
    used := hs.used
    stored := hs.stored
    lines := ?_
    decreasing := hs.decreasing
    memory := hs.memory
    onFile := ?_ }
  · intro r' h
    rcases List.mem_append.mp h with h | h
    · exact hs.lines r' h
    · obtain rfl := Option.some.inj (List.mem_singleton.mp h)
      exact hin
  · intro c n r' h
    rw [appendOf, appendRecord, filed_append] at h
    simp only at h
    split_ifs at h with hkey
    · obtain ⟨rfl, rfl⟩ := hkey
      obtain rfl := Option.some.inj h
      exact Or.inr hbelow
    · refine (hs.onFile c n r' h).imp_left fun hun => ?_
      refine List.mem_filter.mpr ⟨hun, ?_⟩
      rw [bne_iff_ne]
      exact fun heq => hkey ⟨(congrArg Prod.fst heq).symm, (congrArg Prod.snd heq).symm⟩

theorem core_reserve
    (hs : Core s) (hrec : record s.store r.chatId r.sessionNumber = some r) :
    Core (reserve s r) := by
  have hin := hs.stored _ _ r hrec
  have hbelow : ∀ k ∈ turnsOf s r.chatId r.sessionNumber,
      k < r.reserveTurnNumber.reservedTurnNumber := by
    intro k hk
    exact Nat.lt_succ_of_lt (hs.memory _ _ r hrec k hk)
  exact core_append (core_put hs hin hbelow) hin hbelow

theorem core_setPhase
    (hs : Core s) :
    Core (setPhase s c p) :=
  { keyed := hs.keyed
    used := hs.used
    stored := hs.stored
    lines := hs.lines
    decreasing := hs.decreasing
    memory := hs.memory
    onFile := hs.onFile }

/-- `record_turn` with a number above all before it. -/
theorem core_push
    (hs : Core s) (hin : (c, n) ∈ s.handedOut) (hbelow : ∀ j ∈ turnsOf s c n, j < k)
    (hmemory : ∀ r, record s.store c n = some r → k < r.reservedTurnNumber)
    (hfile : ∀ f, filed s.store.file c n = some f → (c, n) ∈ s.unsaved ∨ k < f.reservedTurnNumber) :
    Core { s with recorded := (c, n, k) :: s.recorded } := by
  refine {
    keyed := hs.keyed
    used := ?_
    stored := hs.stored
    lines := hs.lines
    decreasing := ?_
    memory := ?_
    onFile := ?_ }
  · intro c' n' k' h
    rcases List.mem_cons.mp h with heq | h
    · obtain ⟨rfl, rfl, rfl⟩ : c' = c ∧ n' = n ∧ k' = k := by simpa using heq
      exact hin
    · exact hs.used c' n' k' h
  · intro c' n'
    rw [turnsOf_push]
    split_ifs with hkey
    · obtain ⟨rfl, rfl⟩ := hkey
      exact List.pairwise_cons.mpr ⟨hbelow, hs.decreasing c n⟩
    · exact hs.decreasing c' n'
  · intro c' n' r h j hj
    rw [turnsOf_push] at hj
    split_ifs at hj with hkey
    · obtain ⟨rfl, rfl⟩ := hkey
      rcases List.mem_cons.mp hj with rfl | hj
      · exact hmemory r h
      · exact hs.memory c n r h j hj
    · exact hs.memory c' n' r h j hj
  · intro c' n' f h
    rw [turnsOf_push]
    split_ifs with hkey
    · obtain ⟨rfl, rfl⟩ := hkey
      rcases hfile f h with hun | hlt
      · exact Or.inl hun
      · exact (hs.onFile c n f h).imp_right fun hall => List.forall_mem_cons.mpr ⟨hlt, hall⟩
    · exact hs.onFile c' n' f h

/-- A turn that is counted above all before it. -/
theorem core_finish
    {raised : Bool} (hs : Core s) (hin : (r.chatId, r.sessionNumber) ∈ s.handedOut)
    (hbelow : ∀ j ∈ turnsOf s r.chatId r.sessionNumber, j < r.nextTurnNumber)
    (hfile : ∀ f, filed s.store.file r.chatId r.sessionNumber = some f →
      (r.chatId, r.sessionNumber) ∈ s.unsaved ∨ r.nextTurnNumber < f.reservedTurnNumber) :
    Core (finish s r now raised) := by
  have hput : Core { s with store :=
      (putRecord s.store { r.consumeTurnNumber with updatedAt := now } : Store) } :=
    core_put (r := { r.consumeTurnNumber with updatedAt := now }) hs hin
      fun k hk => Nat.lt_succ_of_lt (hbelow k hk)
  unfold finish
  cases raised with
  | true => exact core_setPhase hput
  | false =>
      refine core_setPhase (core_push hput hin hbelow ?_ hfile)
      intro r' h
      rw [record_putRecord, if_pos ⟨rfl, rfl⟩] at h
      obtain rfl := Option.some.inj h
      exact Nat.lt_succ_self _

/-- The file rewritten from some of the records in memory. -/
theorem core_compacted
    {store : Store} (hs : Core s)
    (hrec : ∀ c n r, record store c n = some r → record s.store c n = some r)
    (hfile : store.file = (compactStore store).file) :
    Core { s with store := store, unsaved := [] } := by
  have hkeyed : Keyed store := hs.keyed.of_record hrec
  refine {
    keyed := hkeyed
    used := hs.used
    stored := fun c n r h => hs.stored c n r (hrec c n r h)
    lines := ?_
    decreasing := hs.decreasing
    memory := fun c n r h => hs.memory c n r (hrec c n r h)
    onFile := ?_ }
  · intro r h
    rw [hfile] at h
    exact hs.stored _ _ r (hrec _ _ r ((mem_compact hkeyed).mp h))
  · intro c n r h
    rw [hfile, filed_compact hkeyed] at h
    exact Or.inr (hs.memory c n r (hrec c n r h))

/-- A new process loads what the file holds. -/
theorem core_load
    (hs : Core s) (hunsaved : s.unsaved = []) :
    Core { s with store := loadStore s.store.file, phase := fun _ => .idle } := by
  refine {
    keyed := keyed_loadStore
    used := hs.used
    stored := ?_
    lines := hs.lines
    decreasing := hs.decreasing
    memory := ?_
    onFile := hs.onFile }
  · intro c n r h
    obtain ⟨hmem, rfl, rfl⟩ := mem_of_filed h
    exact hs.lines r hmem
  · intro c n r h
    refine (hs.onFile c n r h).resolve_left fun hun => ?_
    rw [hunsaved] at hun
    cases hun

/-! ### The effects on the operations in flight -/

/-- A chat is left as it was. -/
structure Agree (s s' : Sys) (c : String) : Prop where
  handedOut : s.handedOut ⊆ s'.handedOut
  turns : ∀ n, turnsOf s' c n = turnsOf s c n
  onFile : ∀ n, filed s'.store.file c n = filed s.store.file c n
  memory : ∀ n, record s'.store c n = record s.store c n

theorem Agree.trans
    {t : Sys} (h : Agree s s' c) (h' : Agree s' t c) :
    Agree s t c :=
  { handedOut := List.Subset.trans h.handedOut h'.handedOut
    turns := fun n => (h'.turns n).trans (h.turns n)
    onFile := fun n => (h'.onFile n).trans (h.onFile n)
    memory := fun n => (h'.memory n).trans (h.memory n) }

theorem agree_setPhase :
    Agree s (setPhase s c' p) c :=
  ⟨List.Subset.refl _, fun _ => rfl, fun _ => rfl, fun _ => rfl⟩

theorem agree_allocate :
    Agree s (allocate s c') c :=
  ⟨List.subset_cons_self _ _, fun _ => rfl, fun _ => rfl, fun _ => record_take⟩

theorem agree_put
    (hne : r.chatId ≠ c) :
    Agree s { s with store := putRecord s.store r } c := by
  refine ⟨List.Subset.refl _, fun _ => rfl, fun _ => rfl, fun n => ?_⟩
  rw [record_putRecord, if_neg fun h => hne h.1]

theorem agree_append
    (hne : r.chatId ≠ c) :
    Agree s (appendOf s r) c := by
  refine ⟨List.Subset.refl _, fun _ => rfl, fun n => ?_, fun _ => rfl⟩
  rw [appendOf, appendRecord, filed_append]
  exact if_neg fun h => hne h.1

theorem agree_reserve
    (hne : r.chatId ≠ c) :
    Agree s (reserve s r) c :=
  (agree_put (r := r.reserveTurnNumber) hne).trans (agree_append hne)

theorem agree_push
    {n : Nat} (hne : c' ≠ c) :
    Agree s { s with recorded := (c', n, k) :: s.recorded } c := by
  refine ⟨List.Subset.refl _, fun n' => ?_, fun _ => rfl, fun _ => rfl⟩
  rw [turnsOf_push, if_neg fun h => hne h.1]

theorem agree_finish
    {raised : Bool} (hne : r.chatId ≠ c) :
    Agree s (finish s r now raised) c := by
  have hput := agree_put (s := s) (r := { r.consumeTurnNumber with updatedAt := now }) hne
  unfold finish
  cases raised with
  | true => exact hput.trans agree_setPhase
  | false => exact hput.trans ((agree_push hne).trans agree_setPhase)

/-- What an operation relies on are the counters of its chat: it is kept when the
records left in memory count as before and those in the file as some record did
before. -/
theorem PhaseOk.of_counters
    (h : PhaseOk s c p) (hhanded : s.handedOut ⊆ s'.handedOut)
    (hturns : ∀ n, turnsOf s' c n = turnsOf s c n)
    (hfile : ∀ n f', filed s'.store.file c n = some f' →
      ∃ f, (filed s.store.file c n = some f ∨ record s.store c n = some f) ∧
        f.reservedTurnNumber = f'.reservedTurnNumber)
    (hmem : ∀ n r', record s'.store c n = some r' →
      ∃ r, record s.store c n = some r ∧ r.pendingTurnNumber = r'.pendingTurnNumber) :
    PhaseOk s' c p := by
  cases p with
  | idle => trivial
  | recorded n => trivial
  | turn isNew n k =>
      obtain ⟨hin, hbelow, hfiled, hpending⟩ := h
      refine ⟨hhanded hin, (hturns n).symm ▸ hbelow, fun f' hf' => ?_, fun r' hr' => ?_⟩
      · obtain ⟨f, hf, heq⟩ := hfile n f' hf'
        rw [← heq]
        rcases hf with hf | hf
        · exact hfiled f hf
        · rw [reserved_of_pending (hpending f hf)]
          exact Nat.lt_succ_self _
      · obtain ⟨r, hr, heq⟩ := hmem n r' hr'
        rw [← heq]
        exact hpending r hr
  | fresh n =>
      obtain ⟨hin, hnone, hfiled, hrec⟩ := h
      refine ⟨hhanded hin, (hturns n).trans hnone, ?_, ?_⟩
      · refine Option.eq_none_iff_forall_not_mem.mpr fun f' hf' => ?_
        obtain ⟨f, hf | hf, -⟩ := hfile n f' hf'
        · rw [hfiled] at hf
          cases hf
        · rw [hrec] at hf
          cases hf
      · refine Option.eq_none_iff_forall_not_mem.mpr fun r' hr' => ?_
        obtain ⟨r, hr, -⟩ := hmem n r' hr'
        rw [hrec] at hr
        cases hr
  | resuming n =>
      intro r' hr'
      obtain ⟨r, hr, heq⟩ := hmem n r' hr'
      obtain ⟨k, hpending, hbelow, hfiled⟩ := h r hr
      refine ⟨k, heq.symm.trans hpending, (hturns n).symm ▸ hbelow, fun f' hf' => ?_⟩
      obtain ⟨f, hf, hreserved⟩ := hfile n f' hf'
      rw [← hreserved]
      rcases hf with hf | hf
      · exact hfiled f hf
      · obtain rfl := Option.some.inj (hr.symm.trans hf)
        rw [reserved_of_pending hpending]
        exact Nat.lt_succ_self _

theorem PhaseOk.of_agree
    (h : PhaseOk s c p) (hagree : Agree s s' c) :
    PhaseOk s' c p := by
  refine h.of_counters hagree.handedOut hagree.turns (fun n f' hf' => ?_) fun n r' hr' => ?_
  · exact ⟨f', Or.inl ((hagree.onFile n).symm.trans hf'), rfl⟩
  · exact ⟨r', (hagree.memory n).symm.trans hr', rfl⟩

/-- Operations in flight survive a compaction. -/
theorem PhaseOk.of_compacted
    {store : Store} (h : PhaseOk s c p) (hs : Core s)
    (hrec : ∀ c n r, record store c n = some r → record s.store c n = some r)
    (hfile : store.file = (compactStore store).file) :
    PhaseOk { s with store := store, unsaved := [] } c p := by
  have hkeyed : Keyed store := hs.keyed.of_record hrec
  refine h.of_counters (List.Subset.refl _) (fun _ => rfl) (fun n f' hf' => ?_) fun n r' hr' => ?_
  · rw [hfile, filed_compact hkeyed] at hf'
    exact ⟨f', Or.inr (hrec c n f' hf'), rfl⟩
  · exact ⟨r', hrec c n r' hr', rfl⟩

/-- A step that leaves the other chats alone. -/
theorem counted_of_chat
    (hs : Counted s) (hcore : Core s') (hphase : PhaseOk s' c (s'.phase c))
    (hothers : ∀ c', c' ≠ c → s'.phase c' = s.phase c' ∧ Agree s s' c') :
    Counted s' := by
  refine ⟨hcore, fun c' => ?_⟩
  by_cases hc : c' = c
  · subst hc
    exact hphase
  · obtain ⟨hsame, hagree⟩ := hothers c' hc
    rw [hsame]
    exact (hs.phases c').of_agree hagree

@[simp] theorem phase_setPhase_self : (setPhase s c p).phase c = p := by
  simp [setPhase]

theorem phase_setPhase_of_ne
    (hne : c' ≠ c) :
    (setPhase s c p).phase c' = s.phase c' := by
  simp [setPhase, hne]

theorem phase_finish_of_ne
    {raised : Bool} (hne : c' ≠ r.chatId) :
    (finish s r now raised).phase c' = s.phase c' := by
  unfold finish
  cases raised with
  | true => exact phase_setPhase_of_ne hne
  | false => exact phase_setPhase_of_ne hne

/-- After a turn is counted nothing is in flight that relies on the counters. -/
theorem phaseOk_finish
    {raised : Bool} :
    PhaseOk (finish s r now raised) r.chatId ((finish s r now raised).phase r.chatId) := by
  unfold finish
  cases raised with
  | true =>
      simp only [if_true, phase_setPhase_self]
      trivial
  | false =>
      simp only [Bool.false_eq_true, if_false, phase_setPhase_self]
      trivial

theorem counted_finish
    {raised : Bool} (hs : Counted s) (hin : (r.chatId, r.sessionNumber) ∈ s.handedOut)
    (hbelow : ∀ j ∈ turnsOf s r.chatId r.sessionNumber, j < r.nextTurnNumber)
    (hfile : ∀ f, filed s.store.file r.chatId r.sessionNumber = some f →
      (r.chatId, r.sessionNumber) ∈ s.unsaved ∨ r.nextTurnNumber < f.reservedTurnNumber) :
    Counted (finish s r now raised) :=
  counted_of_chat hs (core_finish hs.core hin hbelow hfile) phaseOk_finish
    fun _ hne => ⟨phase_finish_of_ne hne, agree_finish hne.symm⟩

/-- What a reservation leaves for the turn that made it. -/
theorem phaseOk_reserve
    (hs : Core s) (hrec : record s.store r.chatId r.sessionNumber = some r) :
    (∀ j ∈ turnsOf (reserve s r) r.chatId r.sessionNumber, j < r.reservedTurnNumber) ∧
      (∀ f, filed (reserve s r).store.file r.chatId r.sessionNumber = some f →
        r.reservedTurnNumber < f.reservedTurnNumber) ∧
      ∀ r', record (reserve s r).store r.chatId r.sessionNumber = some r' →
        r'.pendingTurnNumber = some r.reservedTurnNumber := by
  refine ⟨hs.memory _ _ r hrec, fun f hf => ?_, fun r' hr' => ?_⟩
  · rw [reserve, appendOf, appendRecord, filed_append] at hf
    simp only [SessionRecord.chatId_reserve, SessionRecord.sessionNumber_reserve, and_self,
      if_true, Option.some.injEq] at hf
    subst hf
    exact Nat.lt_succ_self _
  · have hput : record (reserve s r).store r.chatId r.sessionNumber =
        some r.reserveTurnNumber := by
      rw [reserve, appendOf, record_append, record_putRecord, if_pos ⟨rfl, rfl⟩]
    rw [hput] at hr'
    obtain rfl := Option.some.inj hr'
    rfl

theorem counted_compacted
    {store : Store} (hs : Counted s)
    (hrec : ∀ c n r, record store c n = some r → record s.store c n = some r)
    (hfile : store.file = (compactStore store).file) :
    Counted { s with store := store, unsaved := [] } :=
  ⟨core_compacted hs.core hrec hfile, fun c => (hs.phases c).of_compacted hs.core hrec hfile⟩

theorem counted_pruneOf
    (hs : Counted s) :
    Counted (pruneOf cfg now s c) := by
  unfold pruneOf pruneAndCompact
  by_cases hon : cfg.enabled = true
  · simp only [if_pos hon]
    exact counted_compacted hs (fun _ _ _ h => record_pruneChat h) rfl
  · simp only [if_neg hon]
    exact hs

theorem counted_restart
    (hs : Counted s) (hunsaved : s.unsaved = []) :
    Counted (restartOf cfg now s) := by
  have hload : Counted { s with store := loadStore s.store.file, phase := fun _ => .idle } :=
    ⟨core_load hs.core hunsaved, fun _ => trivial⟩
  unfold restartOf pruneAll
  by_cases hon : cfg.enabled = true
  · simp only [if_pos hon]
    have hpruned : Counted { s with
        store := compactStore ((loadStore s.store.file).states.keys.foldl (pruneChat cfg now)
          (loadStore s.store.file))
        phase := fun _ => .idle
        unsaved := [] } :=
      counted_compacted hload (fun _ _ _ h => record_pruneFold _ h) rfl
    rw [← hunsaved] at hpruned
    exact hpruned
  · simp only [if_neg hon]
    exact hload

/-- The operation of the chat is over. -/
theorem counted_idle
    (hs : Counted s) :
    Counted (setPhase s c .idle) :=
  counted_of_chat hs (core_setPhase hs.core) (by rw [phase_setPhase_self]; trivial)
    fun _ hne => ⟨phase_setPhase_of_ne hne, agree_setPhase⟩

theorem counted_allocate
    (hs : Counted s) :
    Counted (allocate s c) :=
  ⟨core_allocate hs.core, fun c' => (hs.phases c').of_agree agree_allocate⟩

/-- A number that was just taken is free for a turn or a session. -/
theorem unused_allocate
    (hs : Core s) (hnew : (c, nextSessionNumber s.store c) ∉ s.handedOut) :
    turnsOf (allocate s c) c (nextSessionNumber s.store c) = [] ∧
      filed (allocate s c).store.file c (nextSessionNumber s.store c) = none ∧
      record (allocate s c).store c (nextSessionNumber s.store c) = none := by
  obtain ⟨hturns, hfile, hrec⟩ := unused_session hs hnew
  refine ⟨hturns, hfile, ?_⟩
  rw [allocate, record_take]
  exact hrec

/-- A reservation leaves the other sessions alone. -/
theorem reserve_other
    (hne : n ≠ r.sessionNumber) :
    turnsOf (reserve s r) c n = turnsOf s c n ∧
      filed (reserve s r).store.file c n = filed s.store.file c n ∧
      record (reserve s r).store c n = record s.store c n := by
  refine ⟨rfl, ?_, ?_⟩
  · rw [reserve, appendOf, appendRecord, filed_append]
    exact if_neg fun h => hne h.2.symm
  · rw [reserve, appendOf, record_append, record_putRecord]
    exact if_neg fun h => hne h.2.symm

theorem counted_reserve
    (hs : Counted s) (hrec : record s.store r.chatId r.sessionNumber = some r)
    (hphase : PhaseOk (reserve s r) r.chatId p) :
    Counted (setPhase (reserve s r) r.chatId p) := by
  refine counted_of_chat (c := r.chatId) hs (core_setPhase (core_reserve hs.core hrec)) ?_
    fun c' hne => ?_
  · rw [phase_setPhase_self]
    exact hphase.of_agree agree_setPhase
  · exact ⟨phase_setPhase_of_ne hne, (agree_reserve hne.symm).trans agree_setPhase⟩

theorem counted_append
    (hs : Counted s) (hrec : record s.store r.chatId r.sessionNumber = some r)
    (hphase : s.phase r.chatId = .recorded n) :
    Counted (appendOf s r) := by
  refine counted_of_chat (c := r.chatId) hs
    (core_append hs.core (hs.core.stored _ _ r hrec) (hs.core.memory _ _ r hrec)) ?_
    fun c' hne => ⟨rfl, agree_append hne.symm⟩
  have hsame : (appendOf s r).phase r.chatId = .recorded n := hphase
  rw [hsame]
  trivial

/-- Writing a record again with another time. -/
theorem counted_touch
    {t : Int} (hs : Counted s) (hrec : record s.store r.chatId r.sessionNumber = some r) :
    Counted (appendOf { s with store := putRecord s.store { r with updatedAt := t } }
      { r with updatedAt := t }) := by
  have hin := hs.core.stored _ _ r hrec
  have hbelow := hs.core.memory _ _ r hrec
  have hput := core_put (r := { r with updatedAt := t }) hs.core hin hbelow
  refine counted_of_chat (c := r.chatId) hs (core_append hput hin hbelow) ?_ fun c' hne =>
    ⟨rfl, (agree_put (r := { r with updatedAt := t }) hne.symm).trans (agree_append hne.symm)⟩
  refine (hs.phases r.chatId).of_counters (List.Subset.refl _) (fun _ => rfl)
    (fun n f' hf' => ?_) fun n r' hr' => ?_
  · rw [appendOf, appendRecord, filed_append] at hf'
    simp only [true_and] at hf'
    split_ifs at hf' with hn
    · subst hn
      obtain rfl := Option.some.inj hf'
      exact ⟨r, Or.inr hrec, rfl⟩
    · exact ⟨f', Or.inl hf', rfl⟩
  · rw [appendOf, record_append, record_putRecord] at hr'
    simp only [true_and] at hr'
    split_ifs at hr' with hn
    · subst hn
      obtain rfl := Option.some.inj hr'
      exact ⟨r, hrec, rfl⟩
    · exact ⟨r', hr', rfl⟩

/-- The number a probe takes is above those recorded. -/
theorem below_probe
    (hs : Core s) (hrec : record s.store c n = some r)
    (hkept : ∀ k, r.pendingTurnNumber = some k → k ∉ turnsOf s c n) :
    ∀ j ∈ turnsOf s c n, j < r.nextTurnNumber := by
  intro j hj
  have hlt := hs.memory c n r hrec j hj
  cases hp : r.pendingTurnNumber with
  | none =>
      simp only [SessionRecord.reservedTurnNumber, hp] at hlt
      simpa only [SessionRecord.nextTurnNumber, hp] using hlt
  | some k =>
      rw [reserved_of_pending hp] at hlt
      rw [nextTurnNumber_of_pending hp]
      exact Nat.lt_of_le_of_ne (Nat.le_of_lt_succ hlt) fun heq => hkept k hp (heq ▸ hj)

theorem counted_step
    {a : String × Act} (hs : Counted s) (hkept : NumbersKept cfg s a)
    (h : step cfg s a = some s') :
    Counted s' := by
  obtain ⟨c, act⟩ := a
  have hnew : s'.handedOut = (c, nextSessionNumber s.store c) :: s.handedOut →
      (c, nextSessionNumber s.store c) ∉ s.handedOut := by
    intro htaken
    refine hkept.2 s' h ?_
    rw [htaken]
    exact List.cons_ne_self _ _
  have hfinish : ∀ {n raised now} {r : SessionRecord}, record s.store c n = some r →
      (∀ j ∈ turnsOf s c n, j < r.nextTurnNumber) →
      (∀ f, filed s.store.file c n = some f → r.nextTurnNumber < f.reservedTurnNumber) →
      Counted (finish s r now raised) := by
    intro n raised now r hrec hbelow hfile
    obtain ⟨rfl, rfl⟩ := hs.core.keyed c n r hrec
    exact counted_finish hs (hs.core.stored _ _ r hrec) hbelow fun f hf => Or.inr (hfile f hf)
  have hin : (c, nextSessionNumber s.store c) ∈ (allocate s c).handedOut := List.mem_cons_self
  cases moves_of_step h with
  | startFirst hphase hnone =>
      obtain ⟨hturns, hfile, hrec⟩ := unused_allocate hs.core (hnew rfl)
      refine counted_of_chat (counted_allocate hs) (core_setPhase (core_allocate hs.core)) ?_
        fun _ hne => ⟨phase_setPhase_of_ne hne, agree_setPhase⟩
      rw [phase_setPhase_self]
      refine PhaseOk.of_agree ⟨hin, ?_, ?_, ?_⟩ agree_setPhase
      · intro j hj
        rw [hturns] at hj
        cases hj
      · intro f hf
        rw [hfile] at hf
        cases hf
      · intro r hr
        rw [hrec] at hr
        cases hr
  | @startNew r hphase hactive =>
      obtain ⟨rfl, hrec⟩ := record_of_active hs.core.keyed hactive
      have hfree := hnew rfl
      obtain ⟨hturns, hfile, hnone⟩ := unused_allocate hs.core hfree
      have hold : record (allocate s r.chatId).store r.chatId r.sessionNumber = some r := by
        rw [allocate, record_take]
        exact hrec
      have hne : nextSessionNumber s.store r.chatId ≠ r.sessionNumber := by
        intro heq
        rw [heq] at hfree
        exact hfree (hs.core.stored _ _ r hrec)
      obtain ⟨hturns', hfile', hnone'⟩ := reserve_other (s := allocate s r.chatId)
        (c := r.chatId) hne
      refine counted_reserve (counted_allocate hs) hold ⟨hin, ?_, ?_, ?_⟩
      · intro j hj
        rw [hturns', hturns] at hj
        cases hj
      · intro f hf
        rw [hfile', hfile] at hf
        cases hf
      · intro r' hr'
        rw [hnone', hnone] at hr'
        cases hr'
  | @startNext r hphase hactive =>
      obtain ⟨rfl, hrec⟩ := record_of_active hs.core.keyed hactive
      exact counted_reserve hs hrec ⟨hs.core.stored _ _ r hrec, phaseOk_reserve hs.core hrec⟩
  | @finishNew isNew _ _ _ n k now hphase =>
      have hok := hs.phases c
      rw [hphase] at hok
      obtain ⟨hused, hbelow, hfile, -⟩ := hok
      exact counted_finish (r := { createRecord c n now with pendingTurnNumber := some k }) hs
        hused hbelow fun f hf => Or.inr (hfile f hf)
  | @finishForced isNew _ raised n k now hphase =>
      have htaken : (finish (allocate s c)
          { createRecord c (nextSessionNumber s.store c) now with pendingTurnNumber := some k }
          now raised).handedOut = (c, nextSessionNumber s.store c) :: s.handedOut := by
        cases raised <;> rfl
      obtain ⟨hturns, hfile, -⟩ := unused_allocate hs.core (hnew htaken)
      refine counted_finish (r := { createRecord c (nextSessionNumber s.store c) now with
        pendingTurnNumber := some k }) (counted_allocate hs) hin ?_ ?_
      · intro j hj
        have hj' : j ∈ turnsOf (allocate s c) c (nextSessionNumber s.store c) := hj
        rw [hturns] at hj'
        cases hj'
      · intro f hf
        have hf' : filed (allocate s c).store.file c (nextSessionNumber s.store c) = some f := hf
        rw [hfile] at hf'
        cases hf'
  | finishOld hphase hrec =>
      have hok := hs.phases c
      rw [hphase] at hok
      obtain ⟨-, hbelow, hfile, hpending⟩ := hok
      have hnext := nextTurnNumber_of_pending (hpending _ hrec)
      exact hfinish hrec (hnext.symm ▸ hbelow) (hnext.symm ▸ hfile)
  | startFresh hphase =>
      refine counted_of_chat (counted_allocate hs) (core_setPhase (core_allocate hs.core)) ?_
        fun _ hne => ⟨phase_setPhase_of_ne hne, agree_setPhase⟩
      rw [phase_setPhase_self]
      have hok : PhaseOk (allocate s c) c (.fresh (nextSessionNumber s.store c)) :=
        ⟨hin, unused_allocate hs.core (hnew rfl)⟩
      exact hok.of_agree agree_setPhase
  | @finishFresh n now raised hphase =>
      have hok := hs.phases c
      rw [hphase] at hok
      obtain ⟨hused, hturns, hfile, -⟩ := hok
      refine counted_finish (r := createRecord c n now) hs hused ?_ ?_
      · intro j hj
        have hj' : j ∈ turnsOf s c n := hj
        rw [hturns] at hj'
        cases hj'
      · intro f hf
        have hf' : filed s.store.file c n = some f := hf
        rw [hfile] at hf'
        cases hf'
  | @resumePrompt n r hphase hrec =>
      obtain ⟨rfl, rfl⟩ := hs.core.keyed c n r hrec
      obtain ⟨hbelow, hfile, hpending⟩ := phaseOk_reserve hs.core hrec
      exact counted_reserve hs hrec fun r' hr' => ⟨_, hpending r' hr', hbelow, hfile⟩
  | finishResume hphase hrec =>
      have hok := hs.phases c
      rw [hphase] at hok
      obtain ⟨k, hpending, hbelow, hfile⟩ := hok _ hrec
      have hnext := nextTurnNumber_of_pending hpending
      exact hfinish hrec (hnext.symm ▸ hbelow) (hnext.symm ▸ hfile)
  | @resumeProbe n now raised r hphase hrec =>
      have hbelow := below_probe hs.core hrec fun k hk => hkept.1 r k hrec hk
      have hmarked : Counted { s with unsaved := (c, n) :: s.unsaved } := by
        refine ⟨?_, fun c' => (hs.phases c').of_agree
          ⟨List.Subset.refl _, fun _ => rfl, fun _ => rfl, fun _ => rfl⟩⟩
        exact {
          keyed := hs.core.keyed
          used := hs.core.used
          stored := hs.core.stored
          lines := hs.core.lines
          decreasing := hs.core.decreasing
          memory := hs.core.memory
          onFile := fun c' n' f hf =>
            (hs.core.onFile c' n' f hf).imp_left (List.mem_cons_of_mem _) }
      obtain ⟨rfl, rfl⟩ := hs.core.keyed c n r hrec
      exact counted_finish hmarked (hs.core.stored _ _ r hrec) hbelow
        fun _ _ => Or.inl List.mem_cons_self
  | @append n r hphase hrec =>
      obtain ⟨rfl, rfl⟩ := hs.core.keyed c n r hrec
      exact counted_idle (counted_append hs hrec hphase)
  | @appendPrune n now r hphase hrec =>
      obtain ⟨rfl, rfl⟩ := hs.core.keyed c n r hrec
      exact counted_idle (counted_pruneOf (counted_append hs hrec hphase))
  | fail hphase => exact counted_idle hs
  | touch hactive =>
      obtain ⟨rfl, hrec⟩ := record_of_active hs.core.keyed hactive
      exact counted_touch hs hrec
  | prune hphase => exact counted_pruneOf hs
  | compact => exact counted_compacted hs (fun _ _ _ h => h) rfl
  | restart => exact counted_restart hs hkept.1

end Counters

theorem counted_started
    (cfg : PruneConfig) (now : Int) (file : List (Option SessionRecord)) :
    Counted (started cfg now file) := by
  have hbelow := below_started cfg now file
  refine ⟨?_, fun _ => trivial⟩
  exact {
    keyed := hbelow.keyed
    used := fun _ _ _ h => nomatch h
    stored := hbelow.stored
    lines := hbelow.filed
    decreasing := fun _ _ => List.Pairwise.nil
    memory := fun _ _ _ _ _ h => nomatch h
    onFile := fun _ _ _ _ => Or.inr fun _ h => nomatch h }

/-- In every run that meets the condition the turn numbers recorded for a session
are strictly increasing. -/
theorem turn_numbers_increasing
    (cfg : PruneConfig) (now : Int) (file : List (Option SessionRecord)) (s : Sys)
    (hreach : Reach (step cfg) (NumbersKept cfg) (started cfg now file) s) (c : String) (n : Nat) :
    (turnsOf s c n).Pairwise (· > ·) := by
  have hcounted : Counted s := hreach.invariant (counted_started cfg now file)
    fun _ _ _ hs hkept hstep => counted_step hs hkept hstep
  exact hcounted.core.decreasing c n

/-- A check that is enough for `NumbersKept`. -/
def numbersKept (s : Sys) (a : String × Act) : Bool :=
  (match a.2 with
    | .restart _ => s.unsaved.isEmpty
    | .resumeProbe n _ _ => (record s.store a.1 n).all fun r =>
        r.pendingTurnNumber.all fun k => !(turnsOf s a.1 n).contains k
    | _ => true) && !s.handedOut.contains (a.1, nextSessionNumber s.store a.1)

theorem numbersKept_sound
    (cfg : PruneConfig) (s : Sys) (a : String × Act) (h : numbersKept s a = true) :
    NumbersKept cfg s a := by
  obtain ⟨c, act⟩ := a
  rw [numbersKept, Bool.and_eq_true] at h
  refine ⟨?_, fun _ _ _ hin => ?_⟩
  · cases act with
    | restart now => simpa using h.1
    | resumeProbe n now raised =>
        intro r k hrec hpending
        have hall := h.1
        simp only [hrec, Option.all_some, hpending] at hall
        simpa using hall
    | _ => trivial
  · simp [hin] at h

/-- A turn, a turn killed after `record_turn`, and a turn after the restart. -/
def killedTurn : List (String × Act) :=
  [("chat", .startTurn true), ("chat", .finishTurn 10 false false false), ("chat", .append none),
    ("chat", .startTurn false), ("chat", .finishTurn 20 false false false), ("chat", .restart 30),
    ("chat", .startTurn false), ("chat", .finishTurn 40 false false false)]

/-- The number of the killed turn is skipped. -/
theorem turn_numbers_increasing_killedTurn :
    ∃ s, run (step {}) (started {} 0 []) killedTurn = some s ∧
      turnsOf s "chat" 1 = [3, 2, 1] ∧ (turnsOf s "chat" 1).Pairwise (· > ·) := by
  have hrun : run (step {}) (started {} 0 []) killedTurn =
      some ((run (step {}) (started {} 0 []) killedTurn).getD (started {} 0 [])) := rfl
  have hguarded : Guarded (step {}) (NumbersKept {}) (started {} 0 []) killedTurn :=
    guarded_of_checkRun numbersKept (numbersKept_sound {}) (by decide)
  exact ⟨_, hrun, by decide,
    turn_numbers_increasing {} 0 [] _ (reach_of_run hrun hguarded) "chat" 1⟩

/-- The killed turn, a new session, and the old one resumed by a probe. -/
def probedTurn : List (String × Act) :=
  [("chat", .startTurn true), ("chat", .finishTurn 10 false false false), ("chat", .append none),
    ("chat", .startTurn false), ("chat", .finishTurn 20 false false false), ("chat", .restart 30),
    ("chat", .startFresh), ("chat", .finishFresh 40 false), ("chat", .append (some 40)),
    ("chat", .resumeProbe 1 50 false)]

/-- The probe takes the number of the killed turn again. -/
theorem turn_number_recorded_twice :
    ∃ s, Reach (step {}) (fun _ _ => True) (started {} 0 []) s ∧
      s.handedOut.Nodup ∧ turnsOf s "chat" 1 = [2, 2, 1] ∧
      ¬(turnsOf s "chat" 1).Pairwise (· > ·) := by
  have hrun : run (step {}) (started {} 0 []) probedTurn =
      some ((run (step {}) (started {} 0 []) probedTurn).getD (started {} 0 [])) := rfl
  exact ⟨_, reach_of_run_free hrun, by decide, by decide, by decide⟩

end Sessions
end DiploidAgent
