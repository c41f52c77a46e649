import Mathlib.Data.List.Perm.Subperm
import DiploidAgent.Lib.Dict
import DiploidAgent.Lib.Retention
import DiploidAgent.Lib.Runs

/-!
# The dispatch store

`dispatch.py`, with a backing file.  Every mutating call ends in `_save`, which
sweeps the terminal dispatches before it rewrites the file: those with a stamp
outside the retention window go, and of the rest the newest 200 stay.

The store lock makes each call one step.  The file is its list of lines, each
the dispatch that `from_dict(json.loads(line))` reads, or `none` where that
fails; the lines `_save` writes are ASCII JSON and read back.  `metadata`,
which no function of the store reads, is left out.  Times are clock ticks.
-/

namespace DiploidAgent
namespace Dispatches

open Retention Runs

inductive DispatchStatus where
  | pending
  | completed
  | failed
  | timeout
  | cancelled
deriving DecidableEq, Repr

/-- `status in _TERMINAL_STATUSES`. -/
def DispatchStatus.isTerminal : DispatchStatus → Bool
  | .pending => false
  | .completed | .failed | .timeout | .cancelled => true

/-- `_TERMINAL_RETENTION_SECONDS`. -/
def terminalRetentionSeconds : Int := 7 * 86400

/-- `_TERMINAL_MAX_KEPT`. -/
def terminalMaxKept : Nat := 200

structure Dispatch where
  id : String
  chatId : String
  sessionId : String
  status : DispatchStatus
  result : Option String := none
  context : Option String := none
  type : String := "dispatch"
  startedAt : Option Int := none
  finishedAt : Option Int := none
  summary : Option String := none
  stopReason : Option String := none
  cancelled : Bool := false
  isPartial : Bool := false
  timedOut : Bool := false
  fullResultPath : Option String := none
deriving DecidableEq

/-- `_age_key`: `finished_at or started_at or 0.0`, where a zero stamp is false. -/
def ageKey (d : Dispatch) : Int :=
  match d.finishedAt.filter (· ≠ 0) with
  | some t => t
  | none => d.startedAt.getD 0

/-- `stamp and now - stamp > _TERMINAL_RETENTION_SECONDS`. -/
def tooOld (now : Int) (d : Dispatch) : Bool :=
  ageKey d != 0 && terminalRetentionSeconds < now - ageKey d

abbrev Table := Dict String Dispatch

/-- `self._dispatches` and the lines of the backing file, if there is one. -/
structure DispatchStore where
  dispatches : Table
  file : Option (List (Option Dispatch))

/-- The terminal dispatches in the order of the table. -/
def terminal (m : Table) : List Dispatch := m.values.filter fun d => d.status.isTerminal

/-- The first loop of `_evict_terminal`: the retention window. -/
def evictOld (now : Int) (m : Table) : Table :=
  m.filter fun e => !(e.2.status.isTerminal && tooOld now e.2)

/-- `_evict_terminal`. -/
def evictTerminal (now : Int) (m : Table) : Table :=
  let remaining := terminal (evictOld now m)
  if terminalMaxKept < remaining.length then
    (surplus ageKey terminalMaxKept remaining).foldl (fun m d => m.erase d.id) (evictOld now m)
  else evictOld now m

/-- `_save`. -/
def save (now : Int) (m : Table) : DispatchStore :=
  { dispatches := evictTerminal now m, file := some ((evictTerminal now m).values.map some) }

/-- The loop of `load`; a later line of an id replaces an earlier one. -/
def loadLines (lines : List (Option Dispatch)) : Table :=
  lines.foldl (fun m line => match line with
    | none => m
    | some d => m.set d.id d) Dict.empty

/-- `DispatchStore(path)`: `load` into an empty table; a missing file is left
alone. -/
def opened (now : Int) (file : Option (List (Option Dispatch))) : DispatchStore :=
  match file with
  | none => { dispatches := Dict.empty, file := none }
  | some lines => save now (loadLines lines)

/-- The mutating calls, with the id drawn by `add`, and a new process. -/
inductive Call where
  | add (id chatId sessionId : String) (context : Option String) (dispatchType : String)
      (startedAt : Option Int)
  | setResult (dispatchId result : String) (summary : Option String) (finishedAt : Option Int)
      (status : Option DispatchStatus) (stopReason : Option String)
      (cancelled isPartial timedOut : Bool) (fullResultPath : Option String)
  | complete (dispatchId result : String)
  | fail (dispatchId result : String)
  | reload

/-- The fields `set_result`, `complete` and `fail` assign; the result payload
only while the dispatch can still produce one. -/
def Call.write (call : Call) (d : Dispatch) : Dispatch :=
  match call with
  | .setResult _ result summary finishedAt status stopReason cancelled isPartial timedOut path =>
      let d :=
        match d.status with
        | .pending | .timeout | .cancelled =>
            { d with
              result := some result
              summary := summary.or d.summary
              finishedAt := finishedAt.or d.finishedAt }
        | .completed | .failed => d
      { d with
        status := status.getD d.status
        stopReason := stopReason.or d.stopReason
        cancelled := cancelled
        isPartial := isPartial
        timedOut := timedOut
        fullResultPath := path.or d.fullResultPath }
  | .complete _ result => { d with status := .completed, result := some result }
  | .fail _ result => { d with status := .failed, result := some result }
  | .add .. | .reload => d

/-- The dispatch a call writes to. -/
def Call.target? : Call → Option String
  | .setResult dispatchId .. => some dispatchId
  | .complete dispatchId _ => some dispatchId
  | .fail dispatchId _ => some dispatchId
  | .add .. | .reload => none

/-- The table a call hands to `_save`; `none` when it returns before. -/
def unsaved (s : DispatchStore) : Call → Option Table
  | .add id chatId sessionId context dispatchType startedAt =>
      some (s.dispatches.set id
        { id, chatId, sessionId, status := .pending, context, type := dispatchType, startedAt })
  | .reload => s.file.map loadLines
  | call =>
      match call.target? with
      | none => none
      | some dispatchId =>
          (s.dispatches.get dispatchId).map fun d => s.dispatches.set dispatchId (call.write d)

/-- One call at the time `now`.  `add` draws an id that is not in use. -/
def step (s : DispatchStore) (a : Int × Call) : Option DispatchStore :=
  match a.2 with
  | .add id .. =>
      if (s.dispatches.get id).isSome then none
      else (unsaved s a.2).map (save a.1)
  | .reload => some (opened a.1 s.file)
  | call =>
      match unsaved s call with
      | none => some s
      | some m => some (save a.1 m)

section Tables

variable {m : Table} {now : Int} {id : String} {d e : Dispatch}

/-- Every dispatch stands under its own id. -/
def Keyed (m : Table) : Prop := ∀ id d, m.get id = some d → d.id = id

theorem keyed_empty :
    Keyed Dict.empty :=
  fun _ _ h => nomatch h

theorem keyed_set
    (hm : Keyed m) (hid : d.id = id) :
    Keyed (m.set id d) := by
  intro id' d' h
  rw [Dict.get_set] at h
  split_ifs at h with heq
  · obtain rfl := Option.some.inj h
    exact hid.trans heq
  · exact hm id' d' h

theorem keyed_filter
    (hm : Keyed m) (p : String × Dispatch → Bool) :
    Keyed (m.filter p) := by
  intro id d h
  rw [Dict.get_filter, Option.filter_eq_some_iff] at h
  exact hm id d h.1

theorem keyed_loadLines
    (lines : List (Option Dispatch)) :
    Keyed (loadLines lines) := by
  have hfold : ∀ m : Table, Keyed m → Keyed (lines.foldl (fun m line => match line with
      | none => m
      | some d => m.set d.id d) m) := by
    induction lines with
    | nil => exact fun m hm => hm
    | cons line lines ih =>
        intro m hm
        cases line with
        | none => exact ih m hm
        | some d => exact ih _ (keyed_set hm rfl)
  exact hfold _ keyed_empty

theorem mem_values_iff
    (hm : Keyed m) :
    d ∈ m.values ↔ m.get d.id = some d := by
  constructor
  · intro h
    obtain ⟨id, hid⟩ := Dict.exists_get_of_mem_values h
    rwa [hm id d hid]
  · exact Dict.mem_values_of_get

theorem mem_terminal_iff
    (hm : Keyed m) :
    d ∈ terminal m ↔ m.get d.id = some d ∧ d.status.isTerminal = true := by
  rw [terminal, List.mem_filter, mem_values_iff hm]

theorem nodup_values
    (hm : Keyed m) :
    m.values.Nodup := by
  have hkeys : m.values.map Dispatch.id = m.keys := by
    rw [Dict.values, Dict.keys, List.map_map]
    refine List.map_congr_left fun e he => ?_
    exact hm e.1 e.2 ((m.get_eq_some_iff e.1 e.2).mpr he)
  have hnd : (m.values.map Dispatch.id).Nodup := hkeys ▸ m.nodup_keys
  exact hnd.of_map _

theorem nodup_terminal
    (hm : Keyed m) :
    (terminal m).Nodup :=
  (nodup_values hm).filter _

theorem keyed_evictOld
    (hm : Keyed m) :
    Keyed (evictOld now m) :=
  keyed_filter hm _

theorem get_evictOld :
    (evictOld now m).get id = some d ↔
      m.get id = some d ∧ (d.status.isTerminal = true → tooOld now d = false) := by
  rw [evictOld, Dict.get_filter, Option.filter_eq_some_iff]
  refine and_congr_right fun _ => ?_
  cases d.status.isTerminal <;> simp

/-- `del` of the ids of a list. -/
theorem get_eraseAll
    (l : List Dispatch) :
    (l.foldl (fun m d => m.erase d.id) m).get id =
      if ∃ d ∈ l, d.id = id then none else m.get id := by
  induction l generalizing m with
  | nil => simp
  | cons a l ih =>
      rw [List.foldl_cons, ih, Dict.get_erase]
      by_cases ha : a.id = id
      · simp [ha]
      · simp [ha]

/-- What the sweep keeps: the pending dispatches, and the newest of the terminal
ones in the retention window. -/
theorem get_evictTerminal
    (hm : Keyed m) :
    (evictTerminal now m).get id = some d ↔
      m.get id = some d ∧ (d.status.isTerminal = true →
        tooOld now d = false ∧ d ∈ newest ageKey terminalMaxKept (terminal (evictOld now m))) := by
  have hfresh : Keyed (evictOld now m) := keyed_evictOld hm
  unfold evictTerminal
  by_cases hcap : terminalMaxKept < (terminal (evictOld now m)).length
  · simp only [if_pos hcap]
    rw [get_eraseAll]
    by_cases hgone : ∃ e ∈ surplus ageKey terminalMaxKept (terminal (evictOld now m)), e.id = id
    · rw [if_pos hgone]
      obtain ⟨e, he, rfl⟩ := hgone
      have hin : e ∈ terminal (evictOld now m) := mem_surplus_or_newest.mpr (Or.inl he)
      obtain ⟨hget, hterm⟩ := (mem_terminal_iff hfresh).mp hin
      refine iff_of_false (fun h => by cases h) ?_
      rintro ⟨hd, hkept⟩
      obtain rfl : e = d := Option.some.inj ((get_evictOld.mp hget).1.symm.trans hd)
      exact disjoint_surplus_newest (nodup_terminal hfresh) he (hkept hterm).2
    · rw [if_neg hgone, get_evictOld]
      refine and_congr_right fun hd => ⟨fun h hterm => ⟨h hterm, ?_⟩, fun h hterm => (h hterm).1⟩
      have hget : (evictOld now m).get d.id = some d := by
        rw [hm id d hd]
        exact get_evictOld.mpr ⟨hd, h⟩
      have hin := (mem_terminal_iff hfresh).mpr ⟨hget, hterm⟩
      refine (mem_surplus_or_newest.mp hin).resolve_left fun hold => hgone ⟨d, hold, ?_⟩
      exact hm id d hd
  · simp only [if_neg hcap]
    rw [get_evictOld]
    refine and_congr_right fun hd => ⟨fun h hterm => ⟨h hterm, ?_⟩, fun h hterm => (h hterm).1⟩
    have hget : (evictOld now m).get d.id = some d := by
      rw [hm id d hd]
      exact get_evictOld.mpr ⟨hd, h⟩
    exact mem_newest_of_length_le (not_lt.mp hcap) ((mem_terminal_iff hfresh).mpr ⟨hget, hterm⟩)

theorem keyed_evictTerminal
    (hm : Keyed m) :
    Keyed (evictTerminal now m) :=
  fun id d h => hm id d ((get_evictTerminal hm).mp h).1

/-- At most 200 terminal dispatches are left by the sweep. -/
theorem length_terminal_evict
    (hm : Keyed m) :
    (terminal (evictTerminal now m)).length ≤ terminalMaxKept := by
  have hkeyed : Keyed (evictTerminal now m) := keyed_evictTerminal hm
  have hsub : terminal (evictTerminal now m) ⊆
      newest ageKey terminalMaxKept (terminal (evictOld now m)) := by
    intro d hd
    obtain ⟨hget, hterm⟩ := (mem_terminal_iff hkeyed).mp hd
    exact (((get_evictTerminal hm).mp hget).2 hterm).2
  exact ((nodup_terminal hkeyed).subperm hsub).length_le.trans length_newest_le

/-- A pending dispatch is not swept. -/
theorem pending_evict
    (hm : Keyed m) (hd : m.get id = some d) (hpending : d.status = .pending) :
    (evictTerminal now m).get id = some d := by
  refine (get_evictTerminal hm).mpr ⟨hd, fun hterm => ?_⟩
  rw [hpending] at hterm
  cases hterm

/-- A terminal dispatch stays exactly when it is in the window and fewer than
200 others of the window are ranked after it. -/
theorem terminal_evict_iff
    (hm : Keyed m) (hd : m.get id = some d) (hterm : d.status.isTerminal = true) :
    (evictTerminal now m).get id = some d ↔
      tooOld now d = false ∧
        rankedAfter ageKey d (terminal (evictOld now m)) < terminalMaxKept := by
  have hfresh : Keyed (evictOld now m) := keyed_evictOld hm
  rw [get_evictTerminal hm]
  have hin : tooOld now d = false → d ∈ terminal (evictOld now m) := by
    intro hyoung
    refine (mem_terminal_iff hfresh).mpr ⟨?_, hterm⟩
    rw [hm id d hd]
    exact get_evictOld.mpr ⟨hd, fun _ => hyoung⟩
  constructor
  · rintro ⟨_, hkept⟩
    obtain ⟨hyoung, hnew⟩ := hkept hterm
    exact ⟨hyoung, (mem_newest_iff (nodup_terminal hfresh) (hin hyoung)).mp hnew⟩
  · rintro ⟨hyoung, hrank⟩
    exact ⟨hd, fun _ =>
      ⟨hyoung, (mem_newest_iff (nodup_terminal hfresh) (hin hyoung)).mpr hrank⟩⟩

/-- What the sweep drops was out of the window, or is not newer than any
terminal dispatch it keeps. -/
theorem evicted_not_newer
    (hm : Keyed m) (hd : m.get id = some d) (hgone : (evictTerminal now m).get id = none)
    {id' : String} (he : (evictTerminal now m).get id' = some e)
    (hterm : e.status.isTerminal = true) :
    tooOld now d = true ∨ ageKey d ≤ ageKey e := by
  have hfresh : Keyed (evictOld now m) := keyed_evictOld hm
  by_cases hold : tooOld now d = true
  · exact Or.inl hold
  · right
    have hyoung : tooOld now d = false := Bool.eq_false_of_not_eq_true hold
    have hdterm : d.status.isTerminal = true := by
      by_contra hopen
      have hkept : (evictTerminal now m).get id = some d :=
        (get_evictTerminal hm).mpr ⟨hd, fun h => absurd h hopen⟩
      rw [hgone] at hkept
      cases hkept
    have hin : d ∈ terminal (evictOld now m) := by
      refine (mem_terminal_iff hfresh).mpr ⟨?_, hdterm⟩
      rw [hm id d hd]
      exact get_evictOld.mpr ⟨hd, fun _ => hyoung⟩
    have hold : d ∈ surplus ageKey terminalMaxKept (terminal (evictOld now m)) := by
      refine (mem_surplus_or_newest.mp hin).resolve_right fun hnew => ?_
      have hkept : (evictTerminal now m).get id = some d :=
        (get_evictTerminal hm).mpr ⟨hd, fun _ => ⟨hyoung, hnew⟩⟩
      rw [hgone] at hkept
      cases hkept
    exact key_le_of_surplus hold (((get_evictTerminal hm).mp he).2 hterm).2

end Tables

/-- A dispatch of the store after the fields a call assigns. -/
def Call.written (call : Call) (d : Dispatch) : Dispatch :=
  if call.target? = some d.id then call.write d else d

/-- What one call keeps and gives up. -/
structure Retains (now : Int) (call : Call) (s s' : DispatchStore) : Prop where
  pending : ∀ id d, s.dispatches.get id = some d → (call.written d).status = .pending →
    s'.dispatches.get id = some (call.written d)
  bounded : (terminal s'.dispatches).length ≤ terminalMaxKept
  evicted : ∀ id d, s.dispatches.get id = some d → s'.dispatches.get id = none →
    tooOld now (call.written d) = true ∨
      ∀ e ∈ terminal s'.dispatches, ageKey (call.written d) ≤ ageKey e
  closed : ∀ id d, call.target? = some id → s.dispatches.get id = some d →
    (call.write d).status.isTerminal = true →
    (s'.dispatches.get id = some (call.write d) ↔
      tooOld now (call.write d) = false ∧
        rankedAfter ageKey (call.write d)
          (terminal (evictOld now (s.dispatches.set id (call.write d)))) < terminalMaxKept)

/-- The table is swept, and the file holds it. -/
structure Sound (s : DispatchStore) : Prop where
  keyed : Keyed s.dispatches
  bounded : (terminal s.dispatches).length ≤ terminalMaxKept
  filed : s.file = some (s.dispatches.values.map some) ∨
    s.file = none ∧ s.dispatches = Dict.empty

section Calls

variable {s s' : DispatchStore} {now : Int} {call : Call} {m : Table}

@[simp] theorem id_write
    (call : Call) (d : Dispatch) :
    (call.write d).id = d.id := by
  cases call with
  | setResult => cases h : d.status <;> simp [Call.write, h]
  | add => rfl
  | complete => rfl
  | fail => rfl
  | reload => rfl

/-- A saved table is loaded back as it was. -/
theorem loadLines_values
    (hm : Keyed m) :
    loadLines (m.values.map some) = m := by
  apply Dict.ext_entries
  have hset : ∀ (d : Table) (e : String × Dispatch), e ∈ m.entries →
      d.set e.2.id e.2 = if true then d.set e.1 e.2 else d := by
    intro d e he
    rw [hm e.1 e.2 ((m.get_eq_some_iff e.1 e.2).mpr he), if_pos rfl]
  have hfold := Dict.entries_foldl_set (d := Dict.empty) (fun _ => true) m.nodup_keys
    fun _ _ h => nomatch h
  unfold loadLines
  rw [List.foldl_map, Dict.values, List.foldl_map, List.foldl_ext _ _ _ hset, hfold,
    List.filter_true]
  rfl

theorem sound_save
    (hm : Keyed m) :
    Sound (save now m) :=
  { keyed := keyed_evictTerminal hm
    bounded := length_terminal_evict hm
    filed := Or.inl rfl }

theorem sound_opened
    (now : Int) (file : Option (List (Option Dispatch))) :
    Sound (opened now file) := by
  cases file with
  | none =>
      exact { keyed := keyed_empty, bounded := Nat.zero_le _, filed := Or.inr ⟨rfl, rfl⟩ }
  | some lines => exact sound_save (keyed_loadLines lines)

theorem step_write
    {target : String} (htarget : call.target? = some target) :
    step s (now, call) = some (match s.dispatches.get target with
      | none => s
      | some d => save now (s.dispatches.set target (call.write d))) := by
  cases call with
  | add => cases htarget
  | reload => cases htarget
  | setResult id =>
      obtain rfl := Option.some.inj htarget
      cases hget : s.dispatches.get id <;> simp only [step, unsaved, Call.target?, hget, Option.map]
  | complete id =>
      obtain rfl := Option.some.inj htarget
      cases hget : s.dispatches.get id <;> simp only [step, unsaved, Call.target?, hget, Option.map]
  | fail id =>
      obtain rfl := Option.some.inj htarget
      cases hget : s.dispatches.get id <;> simp only [step, unsaved, Call.target?, hget, Option.map]

/-- What a call can do: nothing, for an id that is not in the store, or save the
table with the dispatch it writes to. -/
theorem step_cases
    (hs : Sound s) (h : step s (now, call) = some s') :
    (s' = s ∧ ∀ id, call.target? = some id → s.dispatches.get id = none) ∨
      ∃ m, s' = save now m ∧ Keyed m ∧
        (∀ id d, s.dispatches.get id = some d → m.get id = some (call.written d)) ∧
        ∀ id d, call.target? = some id → s.dispatches.get id = some d →
          m = s.dispatches.set id (call.write d) := by
  have hwrite : ∀ target, call.target? = some target →
      (∀ d, s.dispatches.get target = some d →
        s' = save now (s.dispatches.set target (call.write d))) →
      (s.dispatches.get target = none → s' = s) →
      (s' = s ∧ ∀ id, call.target? = some id → s.dispatches.get id = none) ∨
        ∃ m, s' = save now m ∧ Keyed m ∧
          (∀ id d, s.dispatches.get id = some d → m.get id = some (call.written d)) ∧
          ∀ id d, call.target? = some id → s.dispatches.get id = some d →
            m = s.dispatches.set id (call.write d) := by
    intro target htarget hsave hsame
    cases hget : s.dispatches.get target with
    | none =>
        refine Or.inl ⟨hsame hget, fun id hid => ?_⟩
        obtain rfl := Option.some.inj (htarget.symm.trans hid)
        exact hget
    | some d =>
        have hdid : d.id = target := hs.keyed target d hget
        refine Or.inr ⟨_, hsave d hget, keyed_set hs.keyed ((id_write call d).trans hdid), ?_, ?_⟩
        · intro id e he
          have heid : e.id = id := hs.keyed id e he
          rw [Dict.get_set, Call.written, htarget, heid]
          by_cases heq : target = id
          · subst heq
            obtain rfl := Option.some.inj (hget.symm.trans he)
            simp
          · rw [if_neg heq, if_neg fun h => heq (Option.some.inj h)]
            exact he
        · intro id e hid he
          obtain rfl := Option.some.inj (htarget.symm.trans hid)
          obtain rfl := Option.some.inj (hget.symm.trans he)
          rfl
  cases call with
  | add id chatId sessionId context dispatchType startedAt =>
      simp only [step] at h
      split_ifs at h with hused
      obtain rfl := Option.some.inj h
      refine Or.inr ⟨_, rfl, keyed_set hs.keyed rfl, ?_, fun _ _ h => by cases h⟩
      intro id' d hd
      have hne : id ≠ id' := by
        rintro rfl
        exact hused (Option.isSome_iff_exists.mpr ⟨d, hd⟩)
      rw [Dict.get_set_of_ne _ hne]
      exact hd
  | reload =>
      obtain rfl := Option.some.inj h
      rcases hs.filed with hfile | ⟨hfile, hempty⟩
      · refine Or.inr ⟨s.dispatches, ?_, hs.keyed, fun _ _ hd => hd, fun _ _ h => by cases h⟩
        rw [hfile, opened, loadLines_values hs.keyed]
      · refine Or.inl ⟨?_, fun _ h => by cases h⟩
        rw [hfile]
        cases s
        simp only at hfile hempty
        rw [hfile, hempty]
        rfl
  | setResult target =>
      have hstep := Option.some.inj ((step_write rfl).symm.trans h)
      refine hwrite target rfl (fun d hd => ?_) (fun hd => ?_) <;> rw [← hstep, hd]
  | complete target =>
      have hstep := Option.some.inj ((step_write rfl).symm.trans h)
      refine hwrite target rfl (fun d hd => ?_) (fun hd => ?_) <;> rw [← hstep, hd]
  | fail target =>
      have hstep := Option.some.inj ((step_write rfl).symm.trans h)
      refine hwrite target rfl (fun d hd => ?_) (fun hd => ?_) <;> rw [← hstep, hd]

theorem sound_step
    (hs : Sound s) (h : step s (now, call) = some s') :
    Sound s' := by
  rcases step_cases hs h with ⟨rfl, _⟩ | ⟨m, rfl, hm, _⟩
  · exact hs
  · exact sound_save hm

theorem written_of_untargeted
    {id : String} {d : Dispatch}
    (hs : Sound s) (hnone : ∀ id, call.target? = some id → s.dispatches.get id = none)
    (hd : s.dispatches.get id = some d) :
    call.written d = d := by
  refine if_neg fun htarget => ?_
  have hget := hnone d.id htarget
  rw [hs.keyed id d hd, hd] at hget
  cases hget

/-- One call on a swept table. -/
theorem retains_step
    (hs : Sound s) (h : step s (now, call) = some s') :
    Retains now call s s' := by
  rcases step_cases hs h with ⟨rfl, hnone⟩ | ⟨m, rfl, hm, hwritten, htarget⟩
  · refine ⟨?_, hs.bounded, ?_, ?_⟩
    · intro id d hd _
      rw [written_of_untargeted hs hnone hd]
      exact hd
    · intro id d hd hgone
      rw [hd] at hgone
      cases hgone
    · intro id d hid hd _
      rw [hnone id hid] at hd
      cases hd
  · refine ⟨?_, length_terminal_evict hm, ?_, ?_⟩
    · intro id d hd hpending
      exact pending_evict hm (hwritten id d hd) hpending
    · intro id d hd hgone
      by_cases hold : tooOld now (call.written d) = true
      · exact Or.inl hold
      · refine Or.inr fun e he => ?_
        obtain ⟨hget, hterm⟩ := (mem_terminal_iff (keyed_evictTerminal hm)).mp he
        exact (evicted_not_newer hm (hwritten id d hd) hgone hget hterm).resolve_left hold
    · intro id d hid hd hterm
      obtain rfl := htarget id d hid hd
      exact terminal_evict_iff hm (Dict.get_set_self _ _ _) hterm

end Calls

/-- In every run of the store no pending dispatch is swept, at most 200 terminal
ones are kept, and which ones is decided by the stamp. -/
theorem dispatch_retention
    (now₀ : Int) (file : Option (List (Option Dispatch))) (s : DispatchStore)
    (hreach : Reach step (fun _ _ => True) (opened now₀ file) s) :
    (terminal s.dispatches).length ≤ terminalMaxKept ∧
      ∀ now call s', step s (now, call) = some s' → Retains now call s s' := by
  have hsound : Sound s :=
    hreach.invariant (sound_opened now₀ file) fun _ _ _ hs _ hstep => sound_step hs hstep
  exact ⟨hsound.bounded, fun _ _ _ hstep => retains_step hsound hstep⟩

/-- A call that adds a dispatch started at 100. -/
def addOne : Int × Call :=
  (100, .add "dispatch-1" "chat-1" "session-1" none "dispatch" (some 100))

/-- A store with that dispatch. -/
def oneDispatch : DispatchStore :=
  (run step (opened 100 (some [])) [addOne]).getD (opened 100 none)

theorem reach_oneDispatch :
    Reach step (fun _ _ => True) (opened 100 (some [])) oneDispatch := by
  have hrun : run step (opened 100 (some [])) [addOne] = some oneDispatch := rfl
  exact reach_of_run_free hrun

/-- Completed within the window, the dispatch is there. -/
theorem dispatch_retention_oneDispatch :
    ∃ s', step oneDispatch (160, .complete "dispatch-1" "done") = some s' ∧
      Retains 160 (.complete "dispatch-1" "done") oneDispatch s' ∧
      (s'.dispatches.get "dispatch-1").isSome = true :=
  ⟨_, rfl, (dispatch_retention 100 (some []) oneDispatch reach_oneDispatch).2 _ _ _ rfl, rfl⟩

/-- Completed eight days after its start, the dispatch is swept by the call that
completes it. -/
theorem completed_not_retrievable :
    ∃ s', Reach step (fun _ _ => True) (opened 100 (some [])) oneDispatch ∧
      step oneDispatch (100 + 8 * 86400, .complete "dispatch-1" "done") = some s' ∧
      (oneDispatch.dispatches.get "dispatch-1").isSome = true ∧
      s'.dispatches.get "dispatch-1" = none :=
  ⟨_, reach_oneDispatch, rfl, rfl, by decide⟩

end Dispatches
end DiploidAgent
