import Mathlib.Data.List.ReduceOption
import DiploidAgent.Sessions.Operations

/-!
# Session numbers

`next_session_number` counts in memory, and a new process takes the counter
from the records that are left in the file.  The counter stays above every
number handed out or stored (`Below`) as long as each restart finds the chat's
highest number still in the file.
-/

namespace DiploidAgent
namespace Sessions

open Runs

/-- The counter of every chat is above the numbers in use. -/
structure Below (s : Sys) : Prop where
  keyed : Keyed s.store
  below : ∀ c n, (c, n) ∈ s.handedOut → n < nextSessionNumber s.store c
  stored : ∀ c n r, record s.store c n = some r → (c, n) ∈ s.handedOut
  filed : ∀ r, some r ∈ s.store.file → (r.chatId, r.sessionNumber) ∈ s.handedOut
  turns : ∀ c isNew n k, s.phase c = .turn isNew n k → (c, n) ∈ s.handedOut
  freshes : ∀ c n, s.phase c = .fresh n → (c, n) ∈ s.handedOut

/-- At a restart the file holds a record of the chat numbered at least as high as
every number in use. -/
def KeepsTop (s : Sys) (a : String × Act) : Prop :=
  match a.2 with
  | .restart _ => ∀ e ∈ s.handedOut,
      ∃ r, some r ∈ s.store.file ∧ r.chatId = e.1 ∧ e.2 ≤ r.sessionNumber
  | _ => True

section Steps

variable {cfg : PruneConfig} {s s' : Sys} {c : String} {n : Nat} {r : SessionRecord} {now : Int}

theorem phase_setPhase
    {p q : Phase} {c' : String} (h : (setPhase s c p).phase c' = q) :
    c = c' ∧ p = q ∨ s.phase c' = q := by
  by_cases hc : c' = c
  · subst hc
    simp only [setPhase, Function.update_self] at h
    exact Or.inl ⟨rfl, h⟩
  · right
    simpa only [setPhase, Function.update_of_ne hc] using h

theorem below_setPhase
    {p : Phase} (hs : Below s)
    (hturn : ∀ isNew n k, p = .turn isNew n k → (c, n) ∈ s.handedOut)
    (hfresh : ∀ n, p = .fresh n → (c, n) ∈ s.handedOut) :
    Below (setPhase s c p) := by
  refine {
    keyed := hs.keyed
    below := hs.below
    stored := hs.stored
    filed := hs.filed
    turns := ?_
    freshes := ?_ }
  · intro c' isNew n k h
    rcases phase_setPhase h with ⟨rfl, hp⟩ | h
    · exact hturn isNew n k hp
    · exact hs.turns c' isNew n k h
  · intro c' n h
    rcases phase_setPhase h with ⟨rfl, hp⟩ | h
    · exact hfresh n hp
    · exact hs.freshes c' n h

theorem below_setPhase_other
    {p : Phase} (hs : Below s) (hturn : ∀ isNew n k, p ≠ .turn isNew n k)
    (hfresh : ∀ n, p ≠ .fresh n) :
    Below (setPhase s c p) :=
  below_setPhase hs (fun isNew n k h => absurd h (hturn isNew n k)) fun n h => absurd h (hfresh n)

/-- The number that is handed out was not in use, and the counter moves past it. -/
theorem below_allocate
    (hs : Below s) :
    Below (allocate s c) := by
  refine {
    keyed := hs.keyed.of_record fun _ _ _ h => by rwa [allocate, record_take] at h
    below := ?_
    stored := fun c' n r h => List.mem_cons_of_mem _
      (hs.stored c' n r (by rwa [allocate, record_take] at h))
    filed := fun r h => List.mem_cons_of_mem _ (hs.filed r h)
    turns := fun c' isNew n k h => List.mem_cons_of_mem _ (hs.turns c' isNew n k h)
    freshes := fun c' n h => List.mem_cons_of_mem _ (hs.freshes c' n h) }
  intro c' n h
  simp only [allocate]
  rcases List.mem_cons.mp h with heq | h
  · obtain ⟨rfl, rfl⟩ := Prod.mk.inj heq
    rw [next_take, if_pos rfl]
    exact Nat.lt_succ_self _
  · exact Nat.lt_of_lt_of_le (hs.below c' n h) le_next_take

theorem below_putRecord
    (hs : Below s) (hr : (r.chatId, r.sessionNumber) ∈ s.handedOut) :
    Below { s with store := putRecord s.store r } := by
  refine {
    keyed := keyed_putRecord hs.keyed
    below := ?_
    stored := ?_
    filed := hs.filed
    turns := hs.turns
    freshes := hs.freshes }
  · intro c n h
    rw [next_putRecord]
    exact hs.below c n h
  · intro c n r' h
    rw [record_putRecord] at h
    split_ifs at h with hkey
    · obtain ⟨rfl, rfl⟩ := hkey
      exact hr
    · exact hs.stored c n r' h

theorem below_appendOf
    (hs : Below s) (hr : (r.chatId, r.sessionNumber) ∈ s.handedOut) :
    Below (appendOf s r) := by
  refine {
    keyed := hs.keyed
    below := hs.below
    stored := hs.stored
    filed := ?_
    turns := hs.turns
    freshes := hs.freshes }
  intro r' h
  rcases List.mem_append.mp h with h | h
  · exact hs.filed r' h
  · obtain rfl := Option.some.inj (List.mem_singleton.mp h)
    exact hr

theorem below_reserve
    (hs : Below s) (hr : (r.chatId, r.sessionNumber) ∈ s.handedOut) :
    Below (reserve s r) :=
  below_appendOf (below_putRecord hs hr) hr

theorem below_finish
    {raised : Bool} (hs : Below s) (hr : (r.chatId, r.sessionNumber) ∈ s.handedOut) :
    Below (finish s r now raised) := by
  have hput := below_putRecord (r := { r.consumeTurnNumber with updatedAt := now }) hs hr
  unfold finish
  cases raised with
  | true =>
      exact below_setPhase_other hput (fun _ _ _ h => nomatch h) fun _ h => nomatch h
  | false =>
      refine below_setPhase_other ?_ (fun _ _ _ h => nomatch h) fun _ h => nomatch h
      exact {
        keyed := hput.keyed
        below := hput.below
        stored := hput.stored
        filed := hput.filed
        turns := hput.turns
        freshes := hput.freshes }

theorem below_compactOf
    (hs : Below s) :
    Below (compactOf s) := by
  refine {
    keyed := hs.keyed
    below := hs.below
    stored := hs.stored
    filed := ?_
    turns := hs.turns
    freshes := hs.freshes }
  intro r h
  exact hs.stored _ _ r ((mem_compact hs.keyed).mp h)

theorem below_pruneOf
    (hs : Below s) :
    Below (pruneOf cfg now s c) := by
  have hrec : ∀ c' n r, record (pruneAndCompact cfg now s.store c) c' n = some r →
      record s.store c' n = some r := fun _ _ _ h => record_pruneAndCompact h
  refine {
    keyed := hs.keyed.of_record hrec
    below := ?_
    stored := fun c' n r h => hs.stored c' n r (hrec c' n r h)
    filed := ?_
    turns := hs.turns
    freshes := hs.freshes }
  · intro c' n h
    simp only [pruneOf, next_pruneAndCompact]
    exact hs.below c' n h
  · intro r h
    simp only [pruneOf, pruneAndCompact] at h
    split_ifs at h
    · have hkeyed : Keyed (pruneChat cfg now s.store c) :=
        hs.keyed.of_record fun _ _ _ h => record_pruneChat h
      exact hs.stored _ _ r (record_pruneChat ((mem_compact hkeyed).mp h))
    · exact hs.filed r h

/-- A restart on a file that holds the highest numbers. -/
theorem below_load
    {file : List (Option SessionRecord)} {used : List (String × Nat)}
    (hfiled : ∀ r, some r ∈ file → (r.chatId, r.sessionNumber) ∈ used)
    (htop : ∀ e ∈ used, ∃ r, some r ∈ file ∧ r.chatId = e.1 ∧ e.2 ≤ r.sessionNumber)
    (hs : s.store = pruneAll cfg now (loadStore file)) (hused : s.handedOut = used)
    (hidle : ∀ c, s.phase c = .idle) :
    Below s := by
  have hrec : ∀ c n r, record s.store c n = some r → record (loadStore file) c n = some r := by
    intro c n r h
    rw [hs] at h
    exact record_pruneAll h
  have hload : ∀ c n r, record (loadStore file) c n = some r → (c, n) ∈ used := by
    intro c n r h
    obtain ⟨hmem, rfl, rfl⟩ := mem_of_filed h
    exact hfiled r hmem
  refine {
    keyed := keyed_loadStore.of_record hrec
    below := ?_
    stored := ?_
    filed := ?_
    turns := ?_
    freshes := ?_ }
  · intro c n h
    rw [hused] at h
    obtain ⟨r, hr, hchat, hle⟩ := htop (c, n) h
    have hlt := lt_next_loadStore hr
    rw [hchat] at hlt
    rw [hs, next_pruneAll]
    exact Nat.lt_of_le_of_lt hle hlt
  · intro c n r h
    rw [hused]
    exact hload c n r (hrec c n r h)
  · intro r h
    rw [hused]
    rw [hs, pruneAll] at h
    split_ifs at h
    · have hkeyed : Keyed ((loadStore file).states.keys.foldl (pruneChat cfg now) (loadStore file)) :=
        keyed_loadStore.of_record fun _ _ _ h => record_pruneFold _ h
      exact hload _ _ r (record_pruneFold _ ((mem_compact hkeyed).mp h))
    · exact hfiled r h
  · intro c isNew n k h
    rw [hidle c] at h
    cases h
  · intro c n h
    rw [hidle c] at h
    cases h

theorem below_started
    (cfg : PruneConfig) (now : Int) (file : List (Option SessionRecord)) :
    Below (started cfg now file) := by
  have hmem : ∀ e, e ∈ (started cfg now file).handedOut ↔
      ∃ r, some r ∈ file ∧ (r.chatId, r.sessionNumber) = e := by
    intro e
    rw [started, List.mem_map]
    simp only [List.reduceOption_mem_iff]
  refine below_load ?_ ?_ rfl rfl fun _ => rfl
  · exact fun r hr => (hmem _).mpr ⟨r, hr, rfl⟩
  · intro e he
    obtain ⟨r, hr, rfl⟩ := (hmem e).mp he
    exact ⟨r, hr, rfl, Nat.le_refl _⟩

theorem handedOut_of_record
    (hs : Below s) (h : record s.store c n = some r) :
    (r.chatId, r.sessionNumber) ∈ s.handedOut := by
  obtain ⟨rfl, rfl⟩ := hs.keyed c n r h
  exact hs.stored _ _ r h

theorem below_step
    {a : String × Act} (hs : Below s) (htop : KeepsTop s a) (h : step cfg s a = some s') :
    Below s' := by
  obtain ⟨c, act⟩ := a
  have hallocate : Below (allocate s c) := below_allocate hs
  have hnext : (c, nextSessionNumber s.store c) ∈ (allocate s c).handedOut := List.mem_cons_self
  have hactive : ∀ r, activeRecord s.store c = some r →
      r.chatId = c ∧ (r.chatId, r.sessionNumber) ∈ s.handedOut := by
    intro r hr
    obtain ⟨hchat, hrec⟩ := record_of_active hs.keyed hr
    exact ⟨hchat, handedOut_of_record hs hrec⟩
  cases moves_of_step h with
  | startFirst hphase hnone =>
      refine below_setPhase hallocate ?_ fun _ h => nomatch h
      rintro isNew n k heq
      obtain ⟨-, rfl, -⟩ := Phase.turn.inj heq
      exact hnext
  | @startNew r hphase hr =>
      refine below_setPhase (below_reserve hallocate
        (List.mem_cons_of_mem _ (hactive r hr).2)) ?_ fun _ h => nomatch h
      rintro isNew n k heq
      obtain ⟨-, rfl, -⟩ := Phase.turn.inj heq
      exact hnext
  | @startNext r hphase hr =>
      obtain ⟨hchat, hin⟩ := hactive r hr
      refine below_setPhase (below_reserve hs hin) ?_ fun _ h => nomatch h
      rintro isNew n k heq
      obtain ⟨-, rfl, -⟩ := Phase.turn.inj heq
      rwa [hchat] at hin
  | finishNew hphase => exact below_finish hs (hs.turns c _ _ _ hphase)
  | finishForced hphase => exact below_finish hallocate hnext
  | finishOld hphase hrec => exact below_finish hs (handedOut_of_record hs hrec)
  | startFresh hphase =>
      refine below_setPhase hallocate (fun _ _ _ h => nomatch h) ?_
      rintro n heq
      obtain rfl := Phase.fresh.inj heq
      exact hnext
  | finishFresh hphase => exact below_finish hs (hs.freshes c _ hphase)
  | resumePrompt hphase hrec =>
      exact below_setPhase_other (below_reserve hs (handedOut_of_record hs hrec))
        (fun _ _ _ h => nomatch h) fun _ h => nomatch h
  | finishResume hphase hrec => exact below_finish hs (handedOut_of_record hs hrec)
  | @resumeProbe n now raised r hphase hrec =>
      have hmarked : Below { s with unsaved := (c, n) :: s.unsaved } :=
        {
            keyed := hs.keyed
            below := hs.below
            stored := hs.stored
            filed := hs.filed
            turns := hs.turns
            freshes := hs.freshes }
      have hin := handedOut_of_record hs hrec
      exact below_finish hmarked hin
  | append hphase hrec =>
      exact below_setPhase_other (below_appendOf hs (handedOut_of_record hs hrec))
        (fun _ _ _ h => nomatch h) fun _ h => nomatch h
  | appendPrune hphase hrec =>
      exact below_setPhase_other (below_pruneOf (below_appendOf hs (handedOut_of_record hs hrec)))
        (fun _ _ _ h => nomatch h) fun _ h => nomatch h
  | fail hphase =>
      exact below_setPhase_other hs (fun _ _ _ h => nomatch h) fun _ h => nomatch h
  | touch hr =>
      have hin := (hactive _ hr).2
      exact below_appendOf (below_putRecord hs hin) hin
  | prune hphase => exact below_pruneOf hs
  | compact => exact below_compactOf hs
  | restart => exact below_load hs.filed htop rfl rfl fun _ => rfl

end Steps

/-- In every run whose restarts find the highest numbers in the file,
`next_session_number` returns a number that was neither handed out nor stored
before. -/
theorem session_numbers_not_reused
    (cfg : PruneConfig) (now : Int) (file : List (Option SessionRecord)) (s : Sys)
    (hreach : Reach (step cfg) KeepsTop (started cfg now file) s) :
    (∀ c n, (c, n) ∈ s.handedOut → n < nextSessionNumber s.store c) ∧
      (∀ c n r, record s.store c n = some r → (c, n) ∈ s.handedOut) ∧
      ∀ r, some r ∈ s.store.file → (r.chatId, r.sessionNumber) ∈ s.handedOut := by
  have hbelow : Below s := hreach.invariant (below_started cfg now file)
    fun _ _ _ hs htop hstep => below_step hs htop hstep
  exact ⟨hbelow.below, hbelow.stored, hbelow.filed⟩

/-- `KeepsTop`, computed. -/
def keepsTop (s : Sys) (a : String × Act) : Bool :=
  match a.2 with
  | .restart _ => s.handedOut.all fun e =>
      s.store.file.reduceOption.any fun r => r.chatId == e.1 && decide (e.2 ≤ r.sessionNumber)
  | _ => true

theorem keepsTop_iff
    (s : Sys) (a : String × Act) :
    keepsTop s a = true ↔ KeepsTop s a := by
  obtain ⟨c, act⟩ := a
  cases act with
  | restart now => simp [keepsTop, KeepsTop, List.reduceOption_mem_iff]
  | _ => exact iff_of_true rfl trivial

/-- A chat with one session, restarted. -/
def oneSession : List (String × Act) :=
  [("chat", .startFresh), ("chat", .finishFresh 10 false), ("chat", .append (some 10)),
    ("chat", .restart 20)]

/-- The number of the session is not handed out again after the restart. -/
theorem session_numbers_not_reused_oneSession :
    ∃ s, run (step {}) (started {} 0 []) oneSession = some s ∧
      ("chat", 1) ∈ s.handedOut ∧ 1 < nextSessionNumber s.store "chat" := by
  have hrun : run (step {}) (started {} 0 []) oneSession =
      some ((run (step {}) (started {} 0 []) oneSession).getD (started {} 0 [])) := rfl
  have hguarded : Guarded (step {}) KeepsTop (started {} 0 []) oneSession :=
    guarded_of_checkRun keepsTop (fun s a h => (keepsTop_iff s a).mp h) (by decide)
  refine ⟨_, hrun, by decide, ?_⟩
  exact (session_numbers_not_reused {} 0 [] _ (reach_of_run hrun hguarded)).1 "chat" 1 (by decide)

/-- Two sessions; forty days later the first is resumed, which prunes the second,
and the process is restarted. -/
def prunedTop : List (String × Act) :=
  [("chat", .startFresh), ("chat", .finishFresh 10 false), ("chat", .append (some 10)),
    ("chat", .startFresh), ("chat", .finishFresh 20 false), ("chat", .append (some 20)),
    ("chat", .resumeProbe 1 (40 * 86400) false), ("chat", .append (some (40 * 86400))),
    ("chat", .restart (40 * 86400 + 60))]

/-- The number of the second session is handed out again. -/
theorem session_number_reused :
    ∃ s, Reach (step {}) (fun _ _ => True) (started {} 0 []) s ∧
      ("chat", 2) ∈ s.handedOut ∧ nextSessionNumber s.store "chat" = 2 := by
  have hrun : run (step {}) (started {} 0 []) prunedTop =
      some ((run (step {}) (started {} 0 []) prunedTop).getD (started {} 0 [])) := rfl
  exact ⟨_, reach_of_run_free hrun, by decide, by decide⟩

end Sessions
end DiploidAgent
