import DiploidAgent.Lib.Runs
import DiploidAgent.Lib.JsonLines
import DiploidAgent.Cron.State

/-!
# The cron state file

`_load`, `_save` and the calls of `CronStateStore` on the text of the backing
file.  A row is written by `model_dump_json`, which leaves U+0085, U+2028 and
U+2029 as they are, and the text is cut by `splitlines`, which takes them for
line boundaries.  A saved map is loaded back without the rows that hold one of
them (`load_save`).

The text is what UTF-8 decodes to; times are finite floats.  The values of other
JSON types that `model_validate` would convert are refused here.
-/

namespace DiploidAgent
namespace Cron

open JsonText Lines Runs

variable {τ : Type}

/-! ### Rows as JSON -/

def textValue (s : String) : Scalar τ := .str s.toList

def textOrNull : Option String → Scalar τ
  | none => .null
  | some s => .str s.toList

def timeOrNull : Option τ → Scalar τ
  | none => .null
  | some t => .float t

/-- The members of a row in the order of its fields. -/
def members (s : CronJobState τ) : List (List Char × Scalar τ) :=
  [("job_id".toList, textValue s.jobId),
    ("source_file".toList, textValue s.sourceFile),
    ("last_run_at".toList, timeOrNull s.lastRunAt),
    ("next_due_at".toList, timeOrNull s.nextDueAt),
    ("last_status".toList, textOrNull s.lastStatus),
    ("running_task_id".toList, textOrNull s.runningTaskId),
    ("running_plan_id".toList, textOrNull s.runningPlanId),
    ("consecutive_failures".toList, .int s.consecutiveFailures),
    ("disabled".toList, .bool s.disabled),
    ("last_finished_at".toList, timeOrNull s.lastFinishedAt),
    ("last_summary".toList, textValue s.lastSummary),
    ("last_task_id".toList, textOrNull s.lastTaskId),
    ("queued_due".toList, .bool s.queuedDue),
    ("schedule_key".toList, textValue s.scheduleKey),
    ("fired_spec".toList, textValue s.firedSpec),
    ("fired_chat_id".toList, textValue s.firedChatId),
    ("turn_count".toList, .int s.turnCount),
    ("turn_date".toList, textValue s.turnDate),
    ("trigger_seen_mtime".toList, timeOrNull s.triggerSeenMtime),
    ("trigger_fired_at".toList, timeOrNull s.triggerFiredAt),
    ("trigger_held".toList, .bool s.triggerHeld),
    ("updated_at".toList, .float s.updatedAt)]

/-- `model_dump_json`. -/
def dumpState (N : FloatText τ) (s : CronJobState τ) : List Char := writeObject N (members s)

/-- The last member under a key. -/
def member (ms : List (List Char × Value τ)) (key : String) : Option (Value τ) :=
  (ms.reverse.find? fun m => m.1 == key.toList).map Prod.snd

def readText (default : Option String) : Option (Value τ) → Option String
  | none => default
  | some (.scalar (.str s)) => some (String.ofList s)
  | some _ => none

def readTextOrNull : Option (Value τ) → Option (Option String)
  | none => some none
  | some (.scalar .null) => some none
  | some (.scalar (.str s)) => some (some (String.ofList s))
  | some _ => none

def readTimeOrNull : Option (Value τ) → Option (Option τ)
  | none => some none
  | some (.scalar .null) => some none
  | some (.scalar (.float t)) => some (some t)
  | some _ => none

def readTime (default : τ) : Option (Value τ) → Option τ
  | none => some default
  | some (.scalar (.float t)) => some t
  | some _ => none

def readCount : Option (Value τ) → Option Int
  | none => some 0
  | some (.scalar (.int n)) => some n
  | some _ => none

def readFlag : Option (Value τ) → Option Bool
  | none => some false
  | some (.scalar (.bool b)) => some b
  | some _ => none

/-- `model_validate`: a required id, and every other field with its default. -/
def validateState (now : τ) : Value τ → Option (CronJobState τ)
  | .obj ms => do
      let jobId ← readText none (member ms "job_id")
      let sourceFile ← readText (some "") (member ms "source_file")
      let lastRunAt ← readTimeOrNull (member ms "last_run_at")
      let nextDueAt ← readTimeOrNull (member ms "next_due_at")
      let lastStatus ← readTextOrNull (member ms "last_status")
      let runningTaskId ← readTextOrNull (member ms "running_task_id")
      let runningPlanId ← readTextOrNull (member ms "running_plan_id")
      let consecutiveFailures ← readCount (member ms "consecutive_failures")
      let disabled ← readFlag (member ms "disabled")
      let lastFinishedAt ← readTimeOrNull (member ms "last_finished_at")
      let lastSummary ← readText (some "") (member ms "last_summary")
      let lastTaskId ← readTextOrNull (member ms "last_task_id")
      let queuedDue ← readFlag (member ms "queued_due")
      let scheduleKey ← readText (some "") (member ms "schedule_key")
      let firedSpec ← readText (some "") (member ms "fired_spec")
      let firedChatId ← readText (some "") (member ms "fired_chat_id")
      let turnCount ← readCount (member ms "turn_count")
      let turnDate ← readText (some "") (member ms "turn_date")
      let triggerSeenMtime ← readTimeOrNull (member ms "trigger_seen_mtime")
      let triggerFiredAt ← readTimeOrNull (member ms "trigger_fired_at")
      let triggerHeld ← readFlag (member ms "trigger_held")
      let updatedAt ← readTime now (member ms "updated_at")
      some {
        jobId, sourceFile, lastRunAt, nextDueAt, lastStatus, runningTaskId, runningPlanId,
        consecutiveFailures, disabled, lastFinishedAt, lastSummary, lastTaskId, queuedDue,
        scheduleKey, firedSpec, firedChatId, turnCount, turnDate, triggerSeenMtime,
        triggerFiredAt, triggerHeld, updatedAt }
  | _ => none

/-! ### The file -/

/-- `str.isspace` of a character. -/
def isSpace (c : Char) : Bool :=
  let n := c.toNat
  (9 ≤ n && n ≤ 13) || (28 ≤ n && n ≤ 32) || n == 0x85 || n == 0xa0 || n == 0x1680 ||
    (0x2000 ≤ n && n ≤ 0x200a) || n == 0x2028 || n == 0x2029 || n == 0x202f || n == 0x205f ||
    n == 0x3000

/-- One line of `_load`. -/
def loadLine (N : FloatText τ) (now : τ) (m : States τ) (line : List Char) : States τ :=
  if line.all isSpace then m
  else
    match (loads N line).bind (validateState now) with
    | none => m
    | some s => m.set s.jobId s

/-- `_load`; no file is an empty map. -/
def load (N : FloatText τ) (now : τ) : Option (List Char) → States τ
  | none => Dict.empty
  | some text => (splitLines text).foldl (loadLine N now) Dict.empty

/-- `_save`. -/
def save (N : FloatText τ) (m : States τ) : List Char :=
  m.values.flatMap fun s => dumpState N s ++ ['\n']

/-- The text fields of a row. -/
def texts (s : CronJobState τ) : List String :=
  [s.jobId, s.sourceFile, s.lastStatus.getD "", s.runningTaskId.getD "",
    s.runningPlanId.getD "", s.lastSummary, s.lastTaskId.getD "", s.scheduleKey, s.firedSpec,
    s.firedChatId, s.turnDate]

/-- No text field of the row holds U+0085, U+2028 or U+2029. -/
def CleanState (s : CronJobState τ) : Prop :=
  ∀ t ∈ texts s, CleanText t.toList

instance (s : CronJobState τ) : Decidable (CleanState s) :=
  inferInstanceAs (Decidable (∀ t ∈ texts s, CleanText t.toList))

section RoundTrip

/-- The field names, as the rows of the file spell them. -/
def rowKeys : List (List Char) :=
  ["job_id".toList, "source_file".toList, "last_run_at".toList,
    "next_due_at".toList, "last_status".toList, "running_task_id".toList,
    "running_plan_id".toList, "consecutive_failures".toList, "disabled".toList,
    "last_finished_at".toList, "last_summary".toList, "last_task_id".toList,
    "queued_due".toList, "schedule_key".toList, "fired_spec".toList,
    "fired_chat_id".toList, "turn_count".toList, "turn_date".toList,
    "trigger_seen_mtime".toList, "trigger_fired_at".toList, "trigger_held".toList,
    "updated_at".toList]

theorem keys_members
    (s : CronJobState τ) :
    (members s).map Prod.fst = rowKeys := rfl

theorem nodup_rowKeys :
    rowKeys.Nodup := by
  decide

/-- The value under a field name is the one the row was written with. -/
theorem member_members
    (s : CronJobState τ) (i : Nat) (key : String) (v : Scalar τ)
    (h : (members s)[i]? = some (key.toList, v)) :
    member ((members s).map fun e => (e.1, .scalar e.2)) key = some (.scalar v) := by
  have hmem : (key.toList, v) ∈ members s := List.mem_of_getElem? h
  have hnd : ((members s).map Prod.fst).Nodup := by
    rw [keys_members]
    exact nodup_rowKeys
  have hunique : ∀ e ∈ members s, e.1 = key.toList → e = (key.toList, v) :=
    fun e he hkey => List.inj_on_of_nodup_map hnd he hmem hkey
  unfold member
  cases hfind : ((members s).map fun e => (e.1, Value.scalar e.2)).reverse.find?
      (fun m => m.1 == key.toList) with
  | none =>
      have hno := List.find?_eq_none.mp hfind (key.toList, .scalar v)
        (List.mem_reverse.mpr (List.mem_map_of_mem hmem))
      simp at hno
  | some m =>
      have hkey := List.find?_some hfind
      obtain ⟨e, he, rfl⟩ := List.mem_map.mp (List.mem_reverse.mp (List.mem_of_find?_eq_some hfind))
      obtain rfl := hunique e he (by simpa using hkey)
      rfl

/-- A row is read back from its members. -/
theorem validate_members
    (now : τ) (s : CronJobState τ) :
    validateState now (.obj ((members s).map fun e => (e.1, .scalar e.2))) = some s := by
  have htext : ∀ default (t : String),
      readText default (some (.scalar (textValue (τ := τ) t))) = some t := by
    intro default t
    simp [readText, textValue]
  have htextOr : ∀ t : Option String,
      readTextOrNull (some (.scalar (textOrNull (τ := τ) t))) = some t := by
    intro t
    cases t <;> simp [readTextOrNull, textOrNull]
  have htime : ∀ t : Option τ, readTimeOrNull (some (.scalar (timeOrNull t))) = some t := by
    intro t
    cases t <;> rfl
  have hfind := member_members s
  simp only [validateState, hfind 0 "job_id" _ rfl, hfind 1 "source_file" _ rfl,
    hfind 2 "last_run_at" _ rfl, hfind 3 "next_due_at" _ rfl,
    hfind 4 "last_status" _ rfl, hfind 5 "running_task_id" _ rfl,
    hfind 6 "running_plan_id" _ rfl, hfind 7 "consecutive_failures" _ rfl,
    hfind 8 "disabled" _ rfl, hfind 9 "last_finished_at" _ rfl,
    hfind 10 "last_summary" _ rfl, hfind 11 "last_task_id" _ rfl,
    hfind 12 "queued_due" _ rfl, hfind 13 "schedule_key" _ rfl,
    hfind 14 "fired_spec" _ rfl, hfind 15 "fired_chat_id" _ rfl,
    hfind 16 "turn_count" _ rfl, hfind 17 "turn_date" _ rfl,
    hfind 18 "trigger_seen_mtime" _ rfl, hfind 19 "trigger_fired_at" _ rfl,
    hfind 20 "trigger_held" _ rfl, hfind 21 "updated_at" _ rfl, htext, htextOr, htime, readCount, readFlag, readTime,
    Option.bind_eq_bind, Option.bind_some]

/-- Letters and the underscore. -/
def isKeyChar (c : Char) : Bool := 65 ≤ c.toNat && c.toNat ≤ 122 && c != '\\'

/-- A key of letters and underscores is plain. -/
theorem plainKey_of_letters
    {key : List Char} (hne : key ≠ [])
    (hletters : key.all isKeyChar = true) :
    PlainKey key := by
  have hchar : ∀ c : Char, isKeyChar c = true →
      escapeChar c = [c] ∧ isRawBoundary c = false ∧ isWs c = false ∧ c ≠ ':' := by
    intro c hc
    have hne : ∀ d, isKeyChar d = false → c ≠ d := by
      rintro d hd rfl
      rw [hc] at hd
      cases hd
    have hcontrol : ¬ c.toNat < 32 := by
      simp only [isKeyChar, Bool.and_eq_true, decide_eq_true_eq] at hc
      omega
    refine ⟨?_, ?_, ?_, hne ':' (by decide)⟩
    · simp [escapeChar, hne '"' (by decide), hne '\\' (by decide), hne '\x08' (by decide),
        hne '\x0c' (by decide), hne '\n' (by decide), hne '\r' (by decide),
        hne '\t' (by decide), hcontrol]
    · simp [isRawBoundary, hne '\u0085' (by decide), hne '\u2028' (by decide),
        hne '\u2029' (by decide)]
    · simp [isWs, hne ' ' (by decide), hne '\t' (by decide), hne '\n' (by decide),
        hne '\r' (by decide)]
  rw [List.all_eq_true] at hletters
  refine ⟨fun c hc => (hchar c (hletters c hc)).2.1, ?_⟩
  cases key with
  | nil => exact absurd rfl hne
  | cons c key =>
      obtain ⟨hesc, _, hws, hcolon⟩ := hchar c (hletters c List.mem_cons_self)
      exact ⟨c, escape key, by rw [escape, List.flatMap_cons, hesc]; rfl, hws, hcolon⟩

theorem rowKeys_plain :
    ∀ key ∈ rowKeys, PlainKey key := by
  have hletters : rowKeys.all (fun key => key != [] && key.all isKeyChar) = true := by
    decide
  intro key hkey
  have h := List.all_eq_true.mp hletters key hkey
  rw [Bool.and_eq_true, bne_iff_ne] at h
  exact plainKey_of_letters h.1 h.2

theorem lineShape_members
    (s : CronJobState τ) :
    LineShape (members s) := by
  refine ⟨fun m hm => rowKeys_plain m.1 ?_, fun m hm => ?_⟩
  · rw [← keys_members s]
    exact List.mem_map_of_mem hm
  · obtain rfl := Option.some.inj hm
    exact trivial

/-- A row is clean when its text fields are. -/
theorem clean_members
    (s : CronJobState τ) :
    (∀ m ∈ members s, m.2.Clean) ↔ CleanState s := by
  have hor : ∀ t : Option String,
      (textOrNull (τ := τ) t).Clean ↔ CleanText (t.getD "").toList := by
    intro t
    cases t with
    | none => exact iff_of_true trivial fun _ h => nomatch h
    | some t => exact Iff.rfl
  have hnull : ∀ t : Option τ, (timeOrNull t).Clean := by
    intro t
    cases t <;> trivial
  simp only [members, List.forall_mem_cons, CleanState, texts, hor, hnull, true_and]
  simp [Scalar.Clean, textValue]

/-- The lines of a row: itself, or nothing that is loaded. -/
theorem foldl_rowLines
    (N : FloatText τ) (now : τ) (m : States τ) (s : CronJobState τ) :
    (splitLines (dumpState N s ++ ['\n'])).foldl (loadLine N now) m =
      if CleanState s then m.set s.jobId s else m := by
  have hshape := lineShape_members s
  by_cases hclean : CleanState s
  · rw [if_pos hclean, dumpState, lines_of_clean hshape.keys ((clean_members s).mpr hclean)]
    have hspace : (writeObject N (members s)).all isSpace = false := rfl
    simp only [List.foldl_cons, List.foldl_nil, loadLine, hspace]
    rw [loads_writeObject, Option.bind_some, validate_members]
    rfl
  · rw [if_neg hclean]
    have hlost : ∀ l ∈ splitLines (dumpState N s ++ ['\n']), ∀ m, loadLine N now m l = m := by
      intro l hl m
      have hno := lines_of_broken hshape (fun h => hclean ((clean_members s).mp h)) l hl
      unfold loadLine
      split_ifs
      · rfl
      · cases hloads : loads N l with
        | none => rfl
        | some v =>
            cases v with
            | scalar v => rfl
            | arr items => rfl
            | obj ms =>
                rw [hno ms hloads]
                rfl
    generalize splitLines (dumpState N s ++ ['\n']) = lines at hlost
    induction lines with
    | nil => rfl
    | cons l lines ih =>
        rw [List.foldl_cons, hlost l List.mem_cons_self]
        exact ih fun l' hl' => hlost l' (List.mem_cons_of_mem _ hl')

/-- Loading a saved map gives back its clean rows. -/
theorem load_save
    (N : FloatText τ) (now : τ) {m : States τ} (hkeyed : Keyed m) :
    load N now (some (save N m)) = m.filter fun e => CleanState e.2 := by
  have hlines : splitLines (save N m) =
      m.values.flatMap fun s => splitLines (dumpState N s ++ ['\n']) := by
    have h := lines_of_objects (N := N) (m.values.map members)
    rwa [List.flatMap_map, List.flatMap_map] at h
  have hrow : ∀ (d : States τ) (e : String × CronJobState τ), e ∈ m.entries →
      (if CleanState e.2 then d.set e.2.jobId e.2 else d) =
        if decide (CleanState e.2) then d.set e.1 e.2 else d := by
    intro d e he
    rw [hkeyed e.1 e.2 ((m.get_eq_some_iff e.1 e.2).mpr he)]
    simp only [decide_eq_true_eq]
  apply Dict.ext_entries
  unfold load
  simp only [hlines, List.foldl_flatMap, foldl_rowLines, Dict.values, List.foldl_map]
  rw [List.foldl_ext _ _ _ hrow]
  exact Dict.entries_foldl_set (fun e => decide (CleanState e.2)) m.nodup_keys fun _ _ h => nomatch h

/-- A saved map is loaded back whole exactly when all its rows are clean. -/
theorem load_save_eq_iff
    (N : FloatText τ) (now : τ) {m : States τ} (hkeyed : Keyed m) :
    load N now (some (save N m)) = m ↔ ∀ s ∈ m.values, CleanState s := by
  rw [load_save N now hkeyed]
  constructor
  · intro h s hs
    obtain ⟨id, hid⟩ := Dict.exists_get_of_mem_values hs
    rw [← h, Dict.get_filter, Option.filter_eq_some_iff] at hid
    simpa using hid.2
  · intro h
    apply Dict.ext_entries
    refine List.filter_eq_self.mpr fun e he => ?_
    simpa using h e.2 (List.mem_map_of_mem he)

end RoundTrip

/-! ### Runs of the store -/

/-- A call of some store instance on the file. -/
inductive Call (τ : Type) where
  | get (jobId : String)
  | all
  | ensure (jobId sourceFile : String)
  | update (state : CronJobState τ)
  | removeMissing (jobIds : List String)
  | drop (jobId : String)

/-- The backing file, and the row last written for every job that was not
dropped. -/
structure File (τ : Type) where
  text : Option (List Char)
  written : States τ

def File.initial : File τ := { text := none, written := Dict.empty }

/-- A call at the time `now`, on the text of the file. -/
def callText (N : FloatText τ) (text : Option (List Char)) (now : τ) :
    Call τ → Option (List Char)
  | .get _ => text
  | .all => text
  | .ensure jobId sourceFile =>
      if ((load N now text).get jobId).isSome then text
      else some (save N (updateState (load N now text) (freshState jobId sourceFile now) now))
  | .update state => some (save N (updateState (load N now text) state now))
  | .removeMissing jobIds => some (save N (removeMissing (load N now text) jobIds))
  | .drop jobId => some (save N (dropState (load N now text) jobId))

/-- What a call writes or drops. -/
def callWritten (m : States τ) (now : τ) : Call τ → States τ
  | .get _ => m
  | .all => m
  | .ensure jobId sourceFile => ensureState m jobId sourceFile now
  | .update state => updateState m state now
  | .removeMissing jobIds => removeMissing m jobIds
  | .drop jobId => dropState m jobId

/-- One call of any store instance. -/
def File.step (N : FloatText τ) (f : File τ) (a : τ × Call τ) : Option (File τ) :=
  some { text := callText N f.text a.1 a.2, written := callWritten f.written a.1 a.2 }

/-- The row the call may write is clean. -/
def WritesClean (_ : File τ) (a : τ × Call τ) : Prop :=
  match a.2 with
  | .update state => CleanState state
  | .ensure jobId sourceFile => CleanText jobId.toList ∧ CleanText sourceFile.toList
  | _ => True

/-- The file holds the rows last written, all of them clean. -/
structure Faithful (N : FloatText τ) (f : File τ) : Prop where
  keyed : Keyed f.written
  clean : ∀ id s, f.written.get id = some s → CleanState s
  loaded : ∀ now, load N now f.text = f.written

section Store

variable {N : FloatText τ}

theorem faithful_save
    {m : States τ}
    (hkeyed : Keyed m) (hclean : ∀ id s, m.get id = some s → CleanState s) :
    Faithful N { text := some (save N m), written := m } := by
  refine ⟨hkeyed, hclean, fun now => (load_save_eq_iff N now hkeyed).mpr fun s hs => ?_⟩
  obtain ⟨id, hid⟩ := Dict.exists_get_of_mem_values hs
  exact hclean id s hid

theorem cleanState_fresh
    {jobId sourceFile : String}
    (hid : CleanText jobId.toList) (hfile : CleanText sourceFile.toList) (now : τ) :
    CleanState (freshState jobId sourceFile now) := by
  have hempty : CleanText [] := fun _ h => nomatch h
  simp [CleanState, texts, freshState, hid, hfile, hempty]

theorem clean_update
    {m : States τ} (hclean : ∀ id s, m.get id = some s → CleanState s)
    {state : CronJobState τ} (hstate : CleanState state) (now : τ) :
    ∀ id s, (updateState m state now).get id = some s → CleanState s := by
  intro id s hs
  rw [get_updateState] at hs
  split_ifs at hs
  · obtain rfl := Option.some.inj hs
    exact hstate
  · exact hclean id s hs

theorem clean_filter
    {m : States τ} (hclean : ∀ id s, m.get id = some s → CleanState s)
    (p : String × CronJobState τ → Bool) :
    ∀ id s, (m.filter p).get id = some s → CleanState s := by
  intro id s hs
  rw [Dict.get_filter, Option.filter_eq_some_iff] at hs
  exact hclean id s hs.1

/-- A call that writes a clean row keeps the file faithful. -/
theorem faithful_step
    {f f' : File τ} {a : τ × Call τ}
    (hfaithful : Faithful N f)
    (hclean : WritesClean f a)
    (hstep : File.step N f a = some f') :
    Faithful N f' := by
  obtain rfl := Option.some.inj hstep
  obtain ⟨now, call⟩ := a
  have hload := hfaithful.loaded now
  cases call with
  | get jobId => exact hfaithful
  | all => exact hfaithful
  | ensure jobId sourceFile =>
      simp only [callText, callWritten, ensureState, hload]
      cases hget : f.written.get jobId with
      | some s => exact hfaithful
      | none =>
          exact faithful_save (keyed_updateState hfaithful.keyed _ _)
            (clean_update hfaithful.clean (cleanState_fresh hclean.1 hclean.2 now) now)
  | update state =>
      simp only [callText, callWritten, hload]
      exact faithful_save (keyed_updateState hfaithful.keyed _ _)
        (clean_update hfaithful.clean hclean now)
  | removeMissing jobIds =>
      simp only [callText, callWritten, hload]
      exact faithful_save (keyed_filter hfaithful.keyed _) (clean_filter hfaithful.clean _)
  | drop jobId =>
      simp only [callText, callWritten, hload]
      exact faithful_save (keyed_filter hfaithful.keyed _) (clean_filter hfaithful.clean _)

/-- A map is loaded back whole exactly when its rows are clean, and in every run
that writes clean rows only the file holds the row last written for every job
that was not dropped. -/
theorem store_round_trip
    (N : FloatText τ) :
    (∀ now (m : States τ), Keyed m →
      (load N now (some (save N m)) = m ↔ ∀ s ∈ m.values, CleanState s)) ∧
    ∀ f, Reach (File.step N) WritesClean File.initial f →
      ∀ now, load N now f.text = f.written := by
  refine ⟨fun now m hkeyed => load_save_eq_iff N now hkeyed, fun f hreach => ?_⟩
  have hinitial : Faithful N (File.initial : File τ) :=
    ⟨keyed_empty, (fun _ _ h => nomatch h), fun _ => rfl⟩
  have hfaithful : Faithful N f :=
    hreach.invariant hinitial fun _ _ _ hfaithful hclean hstep =>
      faithful_step hfaithful hclean hstep
  exact hfaithful.loaded

end Store

/-! ### Whole seconds -/

/-- Whole seconds, as floats below ten to the sixteenth are written. -/
def readSeconds (token : List Char) : Option Int :=
  match token.reverse with
  | '0' :: '.' :: ds => readInt ds.reverse
  | _ => none

theorem readNat_point
    (ds : List Char) :
    readNat (ds ++ ['.', '0']) = none := by
  simp [readNat, Char.isDigit]

theorem readInt_point
    (ds : List Char) :
    readInt (ds ++ ['.', '0']) = none := by
  unfold readInt
  split
  · rename_i ds' h
    cases ds with
    | nil => simp at h
    | cons c ds =>
        obtain ⟨rfl, rfl⟩ := List.cons.inj h
        have hnone : readNat (ds.append ['.', '0']) = none := readNat_point ds
        rw [hnone]
        rfl
  · rw [readNat_point]
    rfl

def wholeSeconds : FloatText Int where
  write n := writeInt n ++ ['.', '0']
  read := readSeconds
  read_write n := by
    simp [readSeconds, readInt_writeInt]
  write_ne_nil n := by
    simp
  numeral n := by
    intro c hc
    rcases List.mem_append.mp hc with hc | hc
    · exact numeral_writeInt n c hc
    · have hpoint : ['.', '0'].all isNumberChar = true := by decide
      exact List.all_eq_true.mp hpoint c hc
  not_int n := readInt_point _

/-- A row whose summary has a line separator in it. -/
def separatedState : CronJobState Int :=
  { jobId := "tidy", lastSummary := "done\u2028next", updatedAt := 1700000000 }

/-- The row is saved and does not come back. -/
theorem row_lost :
    Keyed (updateState Dict.empty separatedState 1700000000) ∧
      load wholeSeconds 1700000001
        (some (save wholeSeconds (updateState Dict.empty separatedState 1700000000))) ≠
        updateState Dict.empty separatedState 1700000000 := by
  have hkeyed : Keyed (updateState Dict.empty separatedState 1700000000) :=
    keyed_updateState keyed_empty _ _
  refine ⟨hkeyed, fun h => ?_⟩
  have hall := (load_save_eq_iff wholeSeconds 1700000001 hkeyed).mp h
  have hclean := hall separatedState (by decide)
  revert hclean
  decide

/-- A row of `tidy` as `ensure` writes it. -/
def tidyFile : File Int :=
  (run (File.step wholeSeconds) File.initial
    [(1700000000, .ensure "tidy" "crons.toml")]).getD File.initial

/-- A row without one comes back, from a saved map and after a run. -/
theorem row_kept :
    load wholeSeconds 1700000001 (some (save wholeSeconds
      (updateState Dict.empty (freshState "tidy" "crons.toml" 1700000000) 1700000000))) =
      updateState Dict.empty (freshState "tidy" "crons.toml" 1700000000) 1700000000 ∧
    load wholeSeconds 1700000001 tidyFile.text = tidyFile.written := by
  refine ⟨((store_round_trip wholeSeconds).1 _ _ (keyed_updateState keyed_empty _ _)).mpr
    (by decide), (store_round_trip wholeSeconds).2 tidyFile ?_ 1700000001⟩
  have hrun : run (File.step wholeSeconds) File.initial
      [(1700000000, .ensure "tidy" "crons.toml")] = some tidyFile := rfl
  exact reach_of_run hrun ⟨⟨by decide, by decide⟩, fun _ _ => trivial⟩

end Cron
end DiploidAgent
