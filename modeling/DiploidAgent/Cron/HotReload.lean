import Mathlib.Logic.Function.Basic
import DiploidAgent.Cron.TriggerPaths
import DiploidAgent.Lib.Dict
import DiploidAgent.Lib.Runs
import DiploidAgent.Lib.Threads

/-!
# Hot edits of the cron files

`_reload`, `_merge_jobs` and `_resolve_job` of `runtime/cron_service.py`.  The service looks at the
modification time of each file and reads a file again only where the time has changed; meanwhile
the files are written, broken and removed.  A file that does not parse keeps its last good jobs.

As long as a written file gets a modification time that it did not have before, a file that can be
read is read and no merge raises, a reload agrees with one that reads every file
(`reload_agrees`), and every job of a file is merged or named by a warning (`merge_accounted`).
-/

namespace DiploidAgent
namespace Cron
namespace HotReload

open Runs
open TriggerPaths (Source Disk)

/-! ### The merge -/

section Merge

/-- When a job fires, as far as the floor of the intervals looks at it. -/
inductive Driver where
  | everySeconds (seconds : Int)
  | cron (expr : String)
  | atDaily
  | trigger (cooldownSeconds : Option Int)
deriving DecidableEq

/-- `CronJobSpec`; `call` is what the paths depend on. -/
structure CronJobSpec where
  id : String
  driver : Driver
  call : TriggerPaths.CronJobSpec

/-- The harness config; `seconds` is the format `:.0f`, and `repr` that of a persona's name or a
path. -/
structure Config where
  paths : TriggerPaths.Config
  minIntervalSeconds : Int
  maxJobsGlobal : Nat
  maxJobsPerPersona : Nat
  seconds : Int → String
  repr : Option (List Char) → String

/-- What a merge finds: the disk, `_cron_gap` at that time and `_persona_cron_permitted`. -/
structure Env where
  disk : Disk
  cronGap : String → Option Int
  personaPermitted : Bool

def label : Source → String
  | .global => "global"
  | .persona => "persona"

inductive Warning where
  | parseError (path exc : String)
  | ignored (path : String)
  | overCap (path id : String) (source : Source) (cap : Nat)
  | shadowed (id path first : String)
  | tooOften (id : String) (seconds : Int)
  | invalidCron (id : String)
  | cronTooOften (id : String) (gap : Int)
  | cooldown (id : String) (seconds : Int)
  | noPersona (id : String) (persona : Option (List Char))
  | noChat (id : String)
  | escapes (id : String) (path : Option (List Char))

/-- The job that a warning names. -/
def Warning.job : Warning → Option String
  | .parseError _ _ => none
  | .ignored _ => none
  | .overCap _ id _ _ => some id
  | .shadowed id _ _ => some id
  | .tooOften id _ => some id
  | .invalidCron id => some id
  | .cronTooOften id _ => some id
  | .cooldown id _ => some id
  | .noPersona id _ => some id
  | .noChat id => some id
  | .escapes id _ => some id

def Warning.text (cfg : Config) : Warning → String
  | .parseError path exc => path ++ ": parse error (" ++ exc ++ "); last-good kept"
  | .ignored path => path ++ ": ignored — authorship cron_enabled is off"
  | .overCap path id source cap =>
      path ++ ": job " ++ id ++ " dropped — over " ++ label source ++ " cap (" ++ toString cap ++
        ")"
  | .shadowed id path first =>
      "cron id conflict: " ++ id ++ " in " ++ path ++ " is shadowed by " ++ first
  | .tooOften id seconds =>
      "job " ++ id ++ ": every_seconds " ++ cfg.seconds seconds ++ " below min_interval " ++
        cfg.seconds cfg.minIntervalSeconds ++ " — dropped"
  | .invalidCron id => "job " ++ id ++ ": invalid cron expression — dropped"
  | .cronTooOften id gap =>
      "job " ++ id ++ ": cron interval " ++ cfg.seconds gap ++ "s below min_interval " ++
        cfg.seconds cfg.minIntervalSeconds ++ " — dropped"
  | .cooldown id seconds =>
      "job " ++ id ++ ": trigger cooldown " ++ cfg.seconds seconds ++ "s below min_interval " ++
        cfg.seconds cfg.minIntervalSeconds ++ " — dropped"
  | .noPersona id persona =>
      "job " ++ id ++ ": persona " ++ cfg.repr persona ++ " not found — dropped"
  | .noChat id =>
      "job " ++ id ++ ": no chat_id and no mesh fallback configured — dropped"
  | .escapes id path =>
      "job " ++ id ++ ": trigger path " ++ cfg.repr path ++
        " escapes the allowed roots (persona dir / session dir) — dropped"

/-- `_CronFileWatch`; of an error only what the exception says. -/
structure Watch where
  path : String
  source : Source
  mtime : Option Nat := none
  jobs : List CronJobSpec := []
  error : Option String := none

/-- `_ResolvedJob`. -/
structure Merged where
  spec : CronJobSpec
  sourceFile : String
  job : TriggerPaths.ResolvedJob

variable (cfg : Config) (env : Env)

/-- `spec.trigger.cooldown_seconds or cron_cfg.min_interval_seconds`. -/
def cooldown (seconds : Option Int) : Int :=
  match seconds with
  | none => cfg.minIntervalSeconds
  | some seconds => if seconds = 0 then cfg.minIntervalSeconds else seconds

/-- The minimum-interval floor of `_resolve_job`. -/
def floorWarning (spec : CronJobSpec) : Option Warning :=
  match spec.driver with
  | .everySeconds seconds =>
      if seconds < cfg.minIntervalSeconds then some (.tooOften spec.id seconds) else none
  | .cron expr =>
      match env.cronGap expr with
      | none => some (.invalidCron spec.id)
      | some gap => if gap < cfg.minIntervalSeconds then some (.cronTooOften spec.id gap) else none
  | .atDaily => none
  | .trigger seconds =>
      if cooldown cfg seconds < cfg.minIntervalSeconds then
        some (.cooldown spec.id (cooldown cfg seconds))
      else none

/-- `_resolve_job`; without a value it raises. -/
def resolveJob (w : Watch) (spec : CronJobSpec) : Option (Except Warning Merged) :=
  match floorWarning cfg env spec with
  | some warning => some (.error warning)
  | none =>
      if spec.call.llm && (TriggerPaths.resolvePersona env.disk cfg.paths spec.call.persona).isNone
      then some (.error (.noPersona spec.id spec.call.persona))
      else if spec.call.chatId.getD [] = [] ∧ cfg.paths.fallbackChatId = [] then
        some (.error (.noChat spec.id))
      else
        (TriggerPaths.resolveJob env.disk cfg.paths w.source true spec.call).map fun
          | some job => .ok ⟨spec, w.path, job⟩
          | none => .error (.escapes spec.id spec.call.watch)

/-- The warnings and the jobs so far, and how many of them are the file's. -/
structure Merging where
  warnings : List Warning := []
  merged : Dict String Merged := Dict.empty
  kept : Nat := 0

def Merging.warn (m : Merging) (warning : Warning) : Merging :=
  { m with warnings := m.warnings ++ [warning] }

def Merging.keep (m : Merging) (job : Merged) : Merging :=
  { m with
    merged := m.merged.set job.spec.id job
    kept := m.kept + 1 }

def cap : Source → Nat
  | .global => cfg.maxJobsGlobal
  | .persona => cfg.maxJobsPerPersona

def mergeSpec (w : Watch) (m : Merging) (spec : CronJobSpec) : Option Merging :=
  if cap cfg w.source ≤ m.kept then
    some (m.warn (.overCap w.path spec.id w.source (cap cfg w.source)))
  else
    match m.merged.get spec.id with
    | some first => some (m.warn (.shadowed spec.id w.path first.sourceFile))
    | none =>
        (resolveJob cfg env w spec).map fun
          | .ok job => m.keep job
          | .error warning => m.warn warning

def mergeWatch (m : Merging) (w : Watch) : Option Merging :=
  let m :=
    { m with
      warnings := m.warnings ++ w.error.toList.map (Warning.parseError w.path)
      kept := 0 }
  if w.source = .persona ∧ env.personaPermitted = false then
    some (if w.jobs.isEmpty then m else m.warn (.ignored w.path))
  else w.jobs.foldlM (mergeSpec cfg env w) m

/-- `_merge_jobs`, the warnings and the jobs; without a value it raises. -/
def mergeJobs (watches : List Watch) : Option (List Warning × Dict String Merged) :=
  (watches.foldlM (mergeWatch cfg env) {}).map fun m => (m.warnings, m.merged)

end Merge

/-! ### What becomes of a job -/

section Accounted

variable {cfg : Config} {env : Env} {w : Watch} {m m' : Merging} {spec : CronJobSpec}

/-- The job is merged, or a warning names it or says that its file is ignored. -/
def Accounted (m : Merging) (path : String) (spec : CronJobSpec) : Prop :=
  (∃ job, m.merged.get spec.id = some job ∧ job.spec = spec ∧ job.sourceFile = path) ∨
    ∃ warning ∈ m.warnings, warning.job = some spec.id ∨ warning = .ignored path

/-- What is merged stays, and so do the warnings. -/
structure Grows (m m' : Merging) : Prop where
  merged : ∀ id job, m.merged.get id = some job → m'.merged.get id = some job
  warnings : m.warnings ⊆ m'.warnings

theorem Grows.refl (m : Merging) : Grows m m := ⟨fun _ _ h => h, fun _ h => h⟩

theorem Grows.trans
    {m₁ m₂ m₃ : Merging}
    (h : Grows m₁ m₂)
    (h' : Grows m₂ m₃) :
    Grows m₁ m₃ :=
  ⟨fun id job hget => h'.merged id job (h.merged id job hget),
    fun _ hw => h'.warnings (h.warnings hw)⟩

theorem Accounted.grows
    {path : String}
    (h : Accounted m path spec)
    (hgrows : Grows m m') :
    Accounted m' path spec := by
  rcases h with ⟨job, hget, hspec⟩ | ⟨warning, hmem, hjob⟩
  · exact .inl ⟨job, hgrows.merged _ _ hget, hspec⟩
  · exact .inr ⟨warning, hgrows.warnings hmem, hjob⟩

theorem grows_warn (m : Merging) (warning : Warning) : Grows m (m.warn warning) :=
  ⟨fun _ _ h => h, List.subset_append_left _ _⟩

theorem accounted_warn
    {path : String} {warning : Warning}
    (h : warning.job = some spec.id) :
    Accounted (m.warn warning) path spec :=
  .inr ⟨warning, List.mem_append_right _ (List.mem_singleton_self _), .inl h⟩

theorem job_floorWarning
    {warning : Warning}
    (h : floorWarning cfg env spec = some warning) :
    warning.job = some spec.id := by
  unfold floorWarning at h
  split at h
  · split at h
    · obtain rfl := Option.some.inj h
      rfl
    · cases h
  · split at h
    · obtain rfl := Option.some.inj h
      rfl
    · split at h
      · obtain rfl := Option.some.inj h
        rfl
      · cases h
  · cases h
  · split at h
    · obtain rfl := Option.some.inj h
      rfl
    · cases h

/-- A job that is dropped is named, and one that is not is resolved for its file. -/
theorem resolveJob_cases
    {r : Except Warning Merged}
    (h : resolveJob cfg env w spec = some r) :
    (∃ warning, r = .error warning ∧ warning.job = some spec.id) ∨
      ∃ job, r = .ok ⟨spec, w.path, job⟩ ∧ floorWarning cfg env spec = none ∧
        TriggerPaths.resolveJob env.disk cfg.paths w.source true spec.call = some (some job) := by
  unfold resolveJob at h
  split at h
  · rename_i warning hfloor
    obtain rfl := Option.some.inj h
    exact .inl ⟨warning, rfl, job_floorWarning hfloor⟩
  · rename_i hfloor
    split at h
    · obtain rfl := Option.some.inj h
      exact .inl ⟨_, rfl, rfl⟩
    · split at h
      · obtain rfl := Option.some.inj h
        exact .inl ⟨_, rfl, rfl⟩
      · obtain ⟨resolved, hresolved, rfl⟩ := Option.map_eq_some_iff.mp h
        cases resolved with
        | none => exact .inl ⟨_, rfl, rfl⟩
        | some job => exact .inr ⟨job, rfl, hfloor, hresolved⟩

/-- Where a merged job comes from. -/
structure From (cfg : Config) (env : Env) (w : Watch) (spec : CronJobSpec) (job : Merged) :
    Prop where
  ofSpec : job.spec = spec
  ofFile : job.sourceFile = w.path
  floor : floorWarning cfg env spec = none
  resolved :
    TriggerPaths.resolveJob env.disk cfg.paths w.source true spec.call = some (some job.job)

/-- One job of a file is warned of, or kept under an id that is new, below the cap. -/
theorem mergeSpec_cases
    (h : mergeSpec cfg env w m spec = some m') :
    (∃ warning, m' = m.warn warning ∧ warning.job = some spec.id) ∨
      ∃ job, m' = m.keep job ∧ From cfg env w spec job ∧ m.merged.get spec.id = none ∧
        m.kept < cap cfg w.source := by
  unfold mergeSpec at h
  split at h
  · obtain rfl := Option.some.inj h
    exact .inl ⟨_, rfl, rfl⟩
  · rename_i hcap
    split at h
    · obtain rfl := Option.some.inj h
      exact .inl ⟨_, rfl, rfl⟩
    · rename_i hnew
      obtain ⟨r, hr, rfl⟩ := Option.map_eq_some_iff.mp h
      rcases resolveJob_cases hr with ⟨warning, rfl, hjob⟩ | ⟨job, rfl, hfloor, hresolved⟩
      · exact .inl ⟨warning, rfl, hjob⟩
      · exact .inr ⟨_, rfl, ⟨rfl, rfl, hfloor, hresolved⟩, hnew, by omega⟩

theorem grows_mergeSpec
    (h : mergeSpec cfg env w m spec = some m') :
    Grows m m' := by
  rcases mergeSpec_cases h with ⟨warning, rfl, -⟩ | ⟨job, rfl, hfrom, hnew, -⟩
  · exact grows_warn m warning
  · refine ⟨fun id job' hget => ?_, fun _ hw => hw⟩
    have hne : job.spec.id ≠ id := by
      rw [hfrom.ofSpec]
      rintro rfl
      rw [hnew] at hget
      cases hget
    exact (Dict.get_set_of_ne _ hne _).trans hget

theorem accounted_mergeSpec
    (h : mergeSpec cfg env w m spec = some m') :
    Accounted m' w.path spec := by
  rcases mergeSpec_cases h with ⟨warning, rfl, hjob⟩ | ⟨job, rfl, hfrom, -, -⟩
  · exact accounted_warn hjob
  · refine .inl ⟨job, ?_, hfrom.ofSpec, hfrom.ofFile⟩
    rw [← hfrom.ofSpec]
    exact (Dict.get_set _ _ _ _).trans (if_pos rfl)

/-- The jobs of a file: all of them are accounted for. -/
theorem foldlM_mergeSpec
    {specs : List CronJobSpec}
    (h : specs.foldlM (mergeSpec cfg env w) m = some m') :
    Grows m m' ∧ ∀ spec ∈ specs, Accounted m' w.path spec := by
  induction specs generalizing m with
  | nil =>
      obtain rfl := Option.some.inj h
      exact ⟨Grows.refl _, fun _ hspec => nomatch hspec⟩
  | cons spec specs ih =>
      obtain ⟨m₁, h₁, hrest⟩ := Option.bind_eq_some_iff.mp h
      obtain ⟨hgrows, hall⟩ := ih hrest
      refine ⟨(grows_mergeSpec h₁).trans hgrows, fun spec' hspec' => ?_⟩
      rcases List.mem_cons.mp hspec' with rfl | hmem
      · exact (accounted_mergeSpec h₁).grows hgrows
      · exact hall spec' hmem

/-- The state in which the jobs of a file are looked at. -/
def Merging.opened (m : Merging) (w : Watch) : Merging :=
  { m with
    warnings := m.warnings ++ w.error.toList.map (Warning.parseError w.path)
    kept := 0 }

theorem grows_opened (m : Merging) (w : Watch) : Grows m (m.opened w) :=
  ⟨fun _ _ h => h, List.subset_append_left _ _⟩

/-- The jobs of a file may be merged. -/
def Permitted (env : Env) (w : Watch) : Prop :=
  w.source = .persona → env.personaPermitted = true

theorem mergeWatch_cases
    (h : mergeWatch cfg env m w = some m') :
    (¬ Permitted env w ∧ (m' = m.opened w ∧ w.jobs = [] ∨
      m' = (m.opened w).warn (.ignored w.path))) ∨
    (Permitted env w ∧ w.jobs.foldlM (mergeSpec cfg env w) (m.opened w) = some m') := by
  unfold mergeWatch at h
  dsimp only at h
  split at h
  · rename_i hno
    refine .inl ⟨fun hyes => ?_, ?_⟩
    · rw [hyes hno.1] at hno
      cases hno.2
    · split at h
      · rename_i hempty
        exact .inl ⟨(Option.some.inj h).symm, List.isEmpty_iff.mp hempty⟩
      · exact .inr (Option.some.inj h).symm
  · rename_i hyes
    refine .inr ⟨fun hsource => ?_, h⟩
    by_contra hno
    exact hyes ⟨hsource, Bool.eq_false_iff.mpr hno⟩

theorem grows_mergeWatch
    (h : mergeWatch cfg env m w = some m') :
    Grows m m' ∧ (∀ spec ∈ w.jobs, Accounted m' w.path spec) ∧
      ∀ exc, w.error = some exc → Warning.parseError w.path exc ∈ m'.warnings := by
  have hopened := grows_opened m w
  have herror (exc : String) (hexc : w.error = some exc) :
      Warning.parseError w.path exc ∈ (m.opened w).warnings := by
    refine List.mem_append_right _ ?_
    rw [hexc]
    exact List.mem_singleton_self _
  rcases mergeWatch_cases h with ⟨-, ⟨rfl, hjobs⟩ | rfl⟩ | ⟨-, hfold⟩
  · rw [hjobs]
    exact ⟨hopened, fun _ hspec => (nomatch hspec), herror⟩
  · have hwarn := grows_warn (m.opened w) (.ignored w.path)
    refine ⟨hopened.trans hwarn, fun spec _ => ?_, fun exc hexc => hwarn.warnings (herror exc hexc)⟩
    exact .inr ⟨_, List.mem_append_right _ (List.mem_singleton_self _), .inr rfl⟩
  · obtain ⟨hgrows, hall⟩ := foldlM_mergeSpec hfold
    exact ⟨hopened.trans hgrows, hall, fun exc hexc => hgrows.warnings (herror exc hexc)⟩

theorem foldlM_mergeWatch
    {ws : List Watch}
    (h : ws.foldlM (mergeWatch cfg env) m = some m') :
    Grows m m' ∧ ∀ w ∈ ws, (∀ spec ∈ w.jobs, Accounted m' w.path spec) ∧
      ∀ exc, w.error = some exc → Warning.parseError w.path exc ∈ m'.warnings := by
  induction ws generalizing m with
  | nil =>
      obtain rfl := Option.some.inj h
      exact ⟨Grows.refl _, fun _ hw => nomatch hw⟩
  | cons w ws ih =>
      obtain ⟨m₁, h₁, hrest⟩ := Option.bind_eq_some_iff.mp h
      obtain ⟨hgrows₁, hall, herror⟩ := grows_mergeWatch h₁
      obtain ⟨hgrows, hws⟩ := ih hrest
      refine ⟨hgrows₁.trans hgrows, fun w' hw' => ?_⟩
      rcases List.mem_cons.mp hw' with rfl | hmem
      · exact ⟨fun spec hspec => (hall spec hspec).grows hgrows,
          fun exc hexc => hgrows.warnings (herror exc hexc)⟩
      · exact hws w' hmem

end Accounted

/-! ### Where a merged job comes from -/

section Origins

variable {cfg : Config} {env : Env} {w : Watch} {m m' : Merging} {spec : CronJobSpec}

/-- Every merged job is one of a file that is permitted, and stands under its id. -/
def Sourced (cfg : Config) (env : Env) (ws : List Watch) (m : Merging) : Prop :=
  ∀ id job, m.merged.get id = some job → job.spec.id = id ∧
    ∃ w ∈ ws, job.spec ∈ w.jobs ∧ Permitted env w ∧ From cfg env w job.spec job

theorem Sourced.keep
    {ws : List Watch} {job : Merged}
    (h : Sourced cfg env ws m)
    (hw : w ∈ ws)
    (hspec : spec ∈ w.jobs)
    (hpermitted : Permitted env w)
    (hfrom : From cfg env w spec job) :
    Sourced cfg env ws (m.keep job) := by
  intro id job' hget
  obtain rfl := hfrom.ofSpec
  change (m.merged.set job.spec.id job).get id = some job' at hget
  rw [Dict.get_set] at hget
  split_ifs at hget with hid
  · obtain rfl := Option.some.inj hget
    exact ⟨hid, w, hw, hspec, hpermitted, hfrom⟩
  · exact h id job' hget

theorem sourced_foldlM_mergeSpec
    {ws : List Watch} {specs : List CronJobSpec}
    (hsourced : Sourced cfg env ws m)
    (hw : w ∈ ws)
    (hsub : specs ⊆ w.jobs)
    (hpermitted : Permitted env w)
    (h : specs.foldlM (mergeSpec cfg env w) m = some m') :
    Sourced cfg env ws m' := by
  induction specs generalizing m with
  | nil =>
      obtain rfl := Option.some.inj h
      exact hsourced
  | cons spec specs ih =>
      obtain ⟨m₁, h₁, hrest⟩ := Option.bind_eq_some_iff.mp h
      refine ih ?_ (fun _ hs => hsub (List.mem_cons_of_mem _ hs)) hrest
      rcases mergeSpec_cases h₁ with ⟨warning, rfl, -⟩ | ⟨job, rfl, hfrom, -, -⟩
      · exact hsourced
      · exact hsourced.keep hw (hsub List.mem_cons_self) hpermitted hfrom

theorem sourced_foldlM_mergeWatch
    {all ws : List Watch}
    (hsourced : Sourced cfg env all m)
    (hsub : ws ⊆ all)
    (h : ws.foldlM (mergeWatch cfg env) m = some m') :
    Sourced cfg env all m' := by
  induction ws generalizing m with
  | nil =>
      obtain rfl := Option.some.inj h
      exact hsourced
  | cons w ws ih =>
      obtain ⟨m₁, h₁, hrest⟩ := Option.bind_eq_some_iff.mp h
      refine ih ?_ (fun _ hw => hsub (List.mem_cons_of_mem _ hw)) hrest
      rcases mergeWatch_cases h₁ with ⟨-, ⟨rfl, -⟩ | rfl⟩ | ⟨hpermitted, hfold⟩
      · exact hsourced
      · exact hsourced
      · exact sourced_foldlM_mergeSpec (m := m.opened w) hsourced (hsub List.mem_cons_self)
          (List.Subset.refl _) hpermitted hfold

/-- How many merged jobs are of a file. -/
def ofFile (m : Merging) (path : String) : Nat :=
  (m.merged.values.filter fun job => job.sourceFile = path).length

theorem values_keep
    {job : Merged}
    (hnew : m.merged.get job.spec.id = none) :
    (m.keep job).merged.values = m.merged.values ++ [job] := by
  have hkey := (Dict.get_eq_none_iff _ _).mp hnew
  have hentries := Dict.putEntry_of_not_mem hkey job
  exact (congrArg (List.map Prod.snd) hentries).trans (List.map_append ..)

theorem ofFile_keep
    {job : Merged} (path : String)
    (hnew : m.merged.get job.spec.id = none) :
    ofFile (m.keep job) path = ofFile m path + if job.sourceFile = path then 1 else 0 := by
  unfold ofFile
  rw [values_keep hnew, List.filter_append, List.length_append]
  congr 1
  by_cases hpath : job.sourceFile = path <;> simp [hpath]

theorem ofFile_foldlM_mergeSpec
    {specs : List CronJobSpec} {path : String}
    (hcount : w.path = path → ofFile m path = m.kept ∧ m.kept ≤ cap cfg w.source)
    (h : specs.foldlM (mergeSpec cfg env w) m = some m') :
    (w.path = path → ofFile m' path ≤ cap cfg w.source) ∧
      (w.path ≠ path → ofFile m' path = ofFile m path) := by
  induction specs generalizing m with
  | nil =>
      obtain rfl := Option.some.inj h
      exact ⟨fun hpath => (hcount hpath).1 ▸ (hcount hpath).2, fun _ => rfl⟩
  | cons spec specs ih =>
      obtain ⟨m₁, h₁, hrest⟩ := Option.bind_eq_some_iff.mp h
      rcases mergeSpec_cases h₁ with ⟨warning, rfl, -⟩ | ⟨job, rfl, hfrom, hnew, hcap⟩
      · exact ih (m := m.warn warning) hcount hrest
      · obtain rfl := hfrom.ofSpec
        have hkeep := ofFile_keep path hnew
        rw [hfrom.ofFile] at hkeep
        have hcount' : w.path = path → ofFile (m.keep job) path = (m.keep job).kept ∧
            (m.keep job).kept ≤ cap cfg w.source := by
          intro hpath
          rw [hkeep, if_pos hpath, (hcount hpath).1]
          exact ⟨rfl, hcap⟩
        obtain ⟨hsame, hother⟩ := ih hcount' hrest
        refine ⟨hsame, fun hne => (hother hne).trans ?_⟩
        rw [hkeep, if_neg hne, Nat.add_zero]

theorem ofFile_foldlM_mergeWatch
    {ws : List Watch} {path : String}
    (hcount : (∃ w ∈ ws, w.path = path) → ofFile m path = 0)
    (hnodup : (ws.map Watch.path).Nodup)
    (h : ws.foldlM (mergeWatch cfg env) m = some m') :
    (∀ w ∈ ws, w.path = path → ofFile m' path ≤ cap cfg w.source) ∧
      ((∀ w ∈ ws, w.path ≠ path) → ofFile m' path = ofFile m path) := by
  induction ws generalizing m with
  | nil =>
      obtain rfl := Option.some.inj h
      exact ⟨fun _ hw => (nomatch hw), fun _ => rfl⟩
  | cons w ws ih =>
      obtain ⟨m₁, h₁, hrest⟩ := Option.bind_eq_some_iff.mp h
      rw [List.map_cons, List.nodup_cons] at hnodup
      have hstep : (w.path = path → ofFile m₁ path ≤ cap cfg w.source) ∧
          (w.path ≠ path → ofFile m₁ path = ofFile m path) := by
        have hnone (hpath : w.path = path) : ofFile m path = 0 :=
          hcount ⟨w, List.mem_cons_self, hpath⟩
        rcases mergeWatch_cases h₁ with ⟨-, ⟨rfl, -⟩ | rfl⟩ | ⟨-, hfold⟩
        · exact ⟨fun hpath => (hnone hpath).le.trans (Nat.zero_le _), fun _ => rfl⟩
        · exact ⟨fun hpath => (hnone hpath).le.trans (Nat.zero_le _), fun _ => rfl⟩
        · exact ofFile_foldlM_mergeSpec (m := m.opened w)
            (fun hpath => ⟨hnone hpath, Nat.zero_le _⟩) hfold
      have hfresh (w' : Watch) (hw' : w' ∈ ws) : w'.path ≠ w.path := by
        intro hpath
        exact hnodup.1 (List.mem_map.mpr ⟨w', hw', hpath⟩)
      have hcount' : (∃ w ∈ ws, w.path = path) → ofFile m₁ path = 0 := by
        rintro ⟨w', hw', rfl⟩
        rw [hstep.2 (hfresh w' hw').symm]
        exact hcount ⟨w', List.mem_cons_of_mem _ hw', rfl⟩
      obtain ⟨hcap, hother⟩ := ih hcount' hnodup.2 hrest
      refine ⟨fun w' hw' hpath => ?_, fun hall => ?_⟩
      · rcases List.mem_cons.mp hw' with rfl | hmem
        · rw [hother fun w'' hw'' => hpath ▸ hfresh w'' hw'']
          exact hstep.1 hpath
        · exact hcap w' hmem hpath
      · rw [hother fun w' hw' => hall w' (List.mem_cons_of_mem _ hw')]
        exact hstep.2 (hall w List.mem_cons_self)

/-- **Nothing is dropped in silence.**  Every job of a file is merged, or a warning names it or says
that its file is ignored, and so does one for each file that did not parse; every merged job is one
of a permitted file, above the floor and with its paths inside the roots, and there are at most as
many of a file as its cap. -/
theorem merge_accounted
    {cfg : Config} {env : Env} {watches : List Watch} {warnings : List Warning}
    {jobs : Dict String Merged}
    (h : mergeJobs cfg env watches = some (warnings, jobs))
    (hpaths : (watches.map Watch.path).Nodup) :
    (∀ w ∈ watches, (∀ spec ∈ w.jobs,
        (∃ job, jobs.get spec.id = some job ∧ job.spec = spec ∧ job.sourceFile = w.path) ∨
          ∃ warning ∈ warnings, warning.job = some spec.id ∨ warning = .ignored w.path) ∧
      ∀ exc, w.error = some exc → Warning.parseError w.path exc ∈ warnings) ∧
    (∀ id job, jobs.get id = some job → job.spec.id = id ∧
      ∃ w ∈ watches, job.spec ∈ w.jobs ∧ Permitted env w ∧ From cfg env w job.spec job) ∧
    ∀ w ∈ watches,
      (jobs.values.filter fun job => job.sourceFile = w.path).length ≤ cap cfg w.source := by
  obtain ⟨m, hfold, heq⟩ := Option.map_eq_some_iff.mp h
  obtain ⟨rfl, rfl⟩ := Prod.mk.inj heq
  refine ⟨(foldlM_mergeWatch hfold).2, ?_, fun w hw => ?_⟩
  · have hempty : Sourced cfg env watches {} := by
      intro id job hget
      cases hget
    exact sourced_foldlM_mergeWatch hempty (List.Subset.refl _) hfold
  · exact (ofFile_foldlM_mergeWatch (fun _ => rfl) hpaths hfold).1 w hw rfl

/-- A disk on which nothing is. -/
def blankEnv : Env where
  disk :=
    { cwd := []
      link := fun _ => none
      isThere := fun _ => false
      homes := fun _ => none
      limit := 0
      looped := fun _ => none }
  cronGap := fun _ => none
  personaPermitted := false

/-- Two jobs a file at most. -/
def smallConfig : Config where
  paths := { sessionsRoot := .ofPlace [] }
  minIntervalSeconds := 300
  maxJobsGlobal := 2
  maxJobsPerPersona := 2
  seconds := toString
  repr := fun _ => ""

/-- A job of chat 7. -/
def chatJob (id : String) (driver : Driver) : CronJobSpec := ⟨id, driver, { chatId := some ['7'] }⟩

/-- Four jobs, one of them too often and one over the cap, and a file that is ignored. -/
def crowdedWatches : List Watch :=
  [{ path := "crons.yaml"
     source := .global
     jobs := [chatJob "a" .atDaily, chatJob "b" (.everySeconds 5), chatJob "c" (.trigger none),
      chatJob "d" .atDaily] },
    { path := "persona.yaml"
      source := .persona
      jobs := [chatJob "a" .atDaily] }]

theorem merge_accounted_crowdedWatches :
    ∃ warnings jobs, mergeJobs smallConfig blankEnv crowdedWatches = some (warnings, jobs) ∧
      jobs.keys = ["a", "c"] ∧ ∀ w ∈ crowdedWatches,
        (jobs.values.filter fun job => job.sourceFile = w.path).length ≤
          cap smallConfig w.source := by
  have hkeys : (mergeJobs smallConfig blankEnv crowdedWatches).map (fun m => m.2.keys) =
      some ["a", "c"] := by decide +kernel
  obtain ⟨⟨warnings, jobs⟩, hmerge, hjobs⟩ := Option.map_eq_some_iff.mp hkeys
  exact ⟨warnings, jobs, hmerge, hjobs, (merge_accounted hmerge (by decide)).2.2⟩

end Origins

/-! ### The files and the service -/

section Model

variable {Content : Type}

structure File (Content : Type) where
  content : Content
  mtime : Nat

/-- Where `_reload` is: before the `stat` of a file, or between it and the read; `changed` is that
some file was read or found missing. -/
inductive Phase where
  | idle
  | stat (force changed : Bool) (i : Nat)
  | read (force : Bool) (i : Nat)
deriving DecidableEq

/-- The files by their number, and the modification times that each of them has had; then the
service. -/
structure State (Content : Type) where
  files : Nat → Option (File Content) := fun _ => none
  past : Nat → List Nat := fun _ => []
  watches : List Watch
  jobs : Dict String Merged := Dict.empty
  warnings : List Warning := []
  phase : Phase := .idle

/-- The service as it is built, before its first reload. -/
def initial (paths : List (String × Source)) : State Content :=
  { watches := paths.map fun p => { path := p.1, source := p.2 } }

inductive Label (Content : Type) where
  | reload (force : Bool)
  | stat
  /-- `fails` is that a file that is there cannot be read; `exc` is what the exception says. -/
  | read (fails : Bool) (exc : String)
  | finish (env : Env)
  | write (i : Nat) (content : Content) (mtime : Nat)
  | remove (i : Nat)

variable (cfg : Config) (parse : Content → Except String (List CronJobSpec))

/-- The watch after the text of its file was parsed. -/
def Watch.parsed (w : Watch) : Except String (List CronJobSpec) → Watch
  | .ok jobs =>
      { w with
        jobs := jobs
        error := none }
  | .error exc => { w with error := some exc }

/-- The watch of a file that is not there. -/
def Watch.missing (w : Watch) : Watch :=
  { w with
    mtime := none
    jobs := []
    error := none }

/-- The `stat` of a file, and what follows where it is not read. -/
def State.stat (s : State Content) (force changed : Bool) (i : Nat) (w : Watch) : State Content :=
  let mtime := (s.files i).map File.mtime
  if !force && mtime == w.mtime then { s with phase := .stat force changed (i + 1) }
  else
    match mtime with
    | none =>
        { s with
          watches := s.watches.set i w.missing
          phase := .stat force true (i + 1) }
    | some mtime =>
        { s with
          watches := s.watches.set i { w with mtime := some mtime }
          phase := .read force i }

/-- The read of a file. -/
def State.read (s : State Content) (force : Bool) (i : Nat) (w : Watch) (fails : Bool)
    (exc : String) : State Content :=
  let result :=
    match s.files i, fails with
    | some file, false => parse file.content
    | _, _ => .error exc
  { s with
    watches := s.watches.set i (w.parsed result)
    phase := .stat force true (i + 1) }

/-- The end of `_reload`. -/
def State.finish (s : State Content) (merges : Bool) (env : Env) : State Content :=
  if merges then
    match mergeJobs cfg env s.watches with
    | some (warnings, jobs) =>
        { s with
          warnings := warnings
          jobs := jobs
          phase := .idle }
    | none => { s with phase := .idle }
  else { s with phase := .idle }

def step (s : State Content) : Label Content → Option (State Content)
  | .reload force =>
      if s.phase = .idle then some { s with phase := .stat force false 0 } else none
  | .stat =>
      match s.phase with
      | .stat force changed i => (s.watches[i]?).map (s.stat force changed i)
      | _ => none
  | .read fails exc =>
      match s.phase with
      | .read force i => (s.watches[i]?).map fun w => s.read parse force i w fails exc
      | _ => none
  | .finish env =>
      match s.phase with
      | .stat force changed i =>
          if i = s.watches.length then some (s.finish cfg (changed || force) env) else none
      | _ => none
  | .write i content mtime =>
      some { s with
        files := Function.update s.files i (some ⟨content, mtime⟩)
        past := Function.update s.past i (mtime :: s.past i) }
  | .remove i => some { s with files := Function.update s.files i none }

/-- A written file gets a modification time that it has not had, a file that is there is read, and
no merge raises. -/
def Cond (s : State Content) : Label Content → Prop
  | .read fails _ => fails = false
  | .finish env => (mergeJobs cfg env s.watches).isSome = true
  | .write i _ mtime => mtime ∉ s.past i
  | _ => True

/-- A reload of one file that reads it whatever its modification time is. -/
def plainWatch (file : Option (File Content)) (w : Watch) : Watch :=
  match file with
  | none => w.missing
  | some file => { w with mtime := some file.mtime }.parsed (parse file.content)

end Model

/-! ### What the watches know -/

section Invariant

variable {Content : Type} {cfg : Config} {parse : Content → Except String (List CronJobSpec)}
variable {s s' : State Content}

/-- A watch with the modification time of its file is as a plain reload would leave it. -/
def InStep (parse : Content → Except String (List CronJobSpec)) (file : Option (File Content))
    (w : Watch) : Prop :=
  w.mtime = file.map File.mtime → plainWatch parse file w = w

/-- The file that is between its `stat` and its read. -/
def Phase.pending : Phase → Option Nat
  | .read _ i => some i
  | _ => none

/-- The merge is up to date with the watches. -/
def Fresh : Phase → Prop
  | .idle => True
  | .stat _ changed _ => changed = false
  | .read _ _ => False

structure Inv (cfg : Config) (parse : Content → Except String (List CronJobSpec))
    (s : State Content) : Prop where
  filed : ∀ i file, s.files i = some file → file.mtime ∈ s.past i
  recorded : ∀ i w mtime, s.watches[i]? = some w → w.mtime = some mtime → mtime ∈ s.past i
  absent : ∀ (i : Nat) (w : Watch), s.watches[i]? = some w → w.mtime = none → w.missing = w
  reading : ∀ (i : Nat) (w : Watch), s.phase.pending = some i → s.watches[i]? = some w →
    w.mtime ≠ none
  inStep : ∀ i w, s.watches[i]? = some w → s.phase.pending ≠ some i → InStep parse (s.files i) w
  merged : Fresh s.phase → ∃ env, mergeJobs cfg env s.watches = some (s.warnings, s.jobs)

theorem parsed_parsed
    (w : Watch) (mtime : Option Nat) (r : Except String (List CronJobSpec)) :
    Watch.parsed { w.parsed r with mtime := mtime } r = { w.parsed r with mtime := mtime } := by
  cases r <;> rfl

theorem mtime_parsed
    (w : Watch) (r : Except String (List CronJobSpec)) :
    (w.parsed r).mtime = w.mtime := by
  cases r <;> rfl

theorem inStep_missing (w : Watch) (hw : w.missing = w) : InStep parse none w := fun _ => hw

theorem inStep_of_ne
    {file : File Content} {w : Watch}
    (h : w.mtime ≠ some file.mtime) :
    InStep parse (some file) w := fun heq => absurd heq h

/-- What is read is what a plain reload reads, if it has the time of the `stat`. -/
theorem inStep_parsed
    (file : File Content) (w : Watch) :
    InStep parse (some file) (w.parsed (parse file.content)) := by
  intro heq
  have hsame : { w.parsed (parse file.content) with mtime := some file.mtime } =
      w.parsed (parse file.content) := by
    rw [← show (w.parsed (parse file.content)).mtime = some file.mtime from heq]
  rw [plainWatch, parsed_parsed]
  exact hsame

/-- A watch as it is built. -/
structure Blank (w : Watch) : Prop where
  mtime : w.mtime = none
  jobs : w.jobs = []
  error : w.error = none

theorem Blank.missing
    {w : Watch}
    (h : Blank w) :
    w.missing = w := by
  rw [Watch.missing, ← h.mtime, ← h.jobs, ← h.error]

theorem foldlM_mergeWatch_blank
    (env : Env) {m : Merging} {ws : List Watch}
    (h : ∀ w ∈ ws, Blank w) :
    ∃ kept, ws.foldlM (mergeWatch cfg env) m = some { m with kept := kept } := by
  induction ws generalizing m with
  | nil => exact ⟨m.kept, rfl⟩
  | cons w ws ih =>
      have hw := h w List.mem_cons_self
      have hfirst : mergeWatch cfg env m w = some { m with kept := 0 } := by
        unfold mergeWatch
        rw [hw.error, hw.jobs]
        simp
      obtain ⟨kept, hrest⟩ := ih (m := { m with kept := 0 })
        fun w' hw' => h w' (List.mem_cons_of_mem _ hw')
      exact ⟨kept, Option.bind_eq_some_iff.mpr ⟨_, hfirst, hrest⟩⟩

theorem blank_initial
    {paths : List (String × Source)} {w : Watch}
    (h : w ∈ (initial paths : State Content).watches) :
    Blank w := by
  obtain ⟨p, -, rfl⟩ := List.mem_map.mp h
  exact ⟨rfl, rfl, rfl⟩

theorem inv_initial (paths : List (String × Source)) : Inv cfg parse (initial paths) where
  filed := fun _ _ h => nomatch h
  recorded := by
    intro i w mtime hw hm
    rw [(blank_initial (List.mem_of_getElem? hw)).mtime] at hm
    cases hm
  absent := fun i w hw _ => (blank_initial (List.mem_of_getElem? hw)).missing
  reading := fun _ _ h => nomatch h
  inStep := fun i w hw _ => inStep_missing w (blank_initial (List.mem_of_getElem? hw)).missing
  merged := by
    intro _
    have hblank (w : Watch) (hw : w ∈ (initial paths : State Content).watches) : Blank w :=
      blank_initial hw
    obtain ⟨kept, hfold⟩ := @foldlM_mergeWatch_blank cfg blankEnv {} _ hblank
    exact ⟨blankEnv, Option.map_eq_some_iff.mpr ⟨_, hfold, rfl⟩⟩

/-- A watch that is put in the place of one, where the phase goes on. -/
theorem inv_set
    {i : Nat} {w : Watch} {phase : Phase}
    (h : Inv cfg parse s)
    (hpending : s.phase.pending = none ∨ s.phase.pending = some i)
    (hfresh : ¬ Fresh phase)
    (hrecorded : ∀ mtime, w.mtime = some mtime → mtime ∈ s.past i)
    (habsent : w.mtime = none → w.missing = w)
    (hstep : (phase.pending = some i ∧ w.mtime ≠ none) ∨
      (phase.pending = none ∧ InStep parse (s.files i) w)) :
    Inv cfg parse { s with watches := s.watches.set i w, phase := phase } where
  filed := h.filed
  recorded := by
    intro j w' mtime hw hm
    rcases Threads.of_getElem?_set hw with ⟨rfl, rfl⟩ | ⟨-, hold⟩
    · exact hrecorded mtime hm
    · exact h.recorded j w' mtime hold hm
  absent := by
    intro j w' hw hm
    rcases Threads.of_getElem?_set hw with ⟨rfl, rfl⟩ | ⟨-, hold⟩
    · exact habsent hm
    · exact h.absent j w' hold hm
  reading := by
    intro j w' hp hw
    rcases hstep with ⟨hi, hm⟩ | ⟨hnone, -⟩
    · obtain rfl : i = j := Option.some.inj (hi.symm.trans hp)
      rcases Threads.of_getElem?_set hw with ⟨-, rfl⟩ | ⟨hne, -⟩
      · exact hm
      · exact absurd rfl hne
    · exact nomatch hnone.symm.trans hp
  inStep := by
    intro j w' hw hne
    rcases Threads.of_getElem?_set hw with ⟨rfl, rfl⟩ | ⟨hij, hold⟩
    · rcases hstep with ⟨hp, -⟩ | ⟨-, hin⟩
      · exact absurd hp hne
      · exact hin
    · refine h.inStep j w' hold ?_
      rcases hpending with hp | hp
      · rw [hp]
        exact nofun
      · rw [hp]
        exact fun heq => hij (Option.some.inj heq).symm
  merged := fun hphase => absurd hphase hfresh

/-- A step after which the watches are what they were. -/
theorem inv_phase
    {phase : Phase}
    (h : Inv cfg parse s)
    (hidle : s.phase.pending = none)
    (hnext : phase.pending = none)
    (hfresh : Fresh phase → Fresh s.phase) :
    Inv cfg parse { s with phase := phase } where
  filed := h.filed
  recorded := h.recorded
  absent := h.absent
  reading := fun _ _ hp => nomatch hnext.symm.trans hp
  inStep := fun i w hw _ => h.inStep i w hw (by rw [hidle]; exact nofun)
  merged := fun hphase => h.merged (hfresh hphase)

theorem inv_stat
    {force changed : Bool} {i : Nat} {w : Watch}
    (h : Inv cfg parse s)
    (hphase : s.phase = .stat force changed i) :
    Inv cfg parse (s.stat force changed i w) := by
  have hidle : s.phase.pending = none := by
    rw [hphase]
    rfl
  unfold State.stat
  dsimp only
  split
  · refine inv_phase h hidle rfl fun hfresh => ?_
    rw [hphase]
    exact hfresh
  · cases hfile : s.files i with
    | none =>
        refine inv_set h (.inl hidle) (by simp [Fresh]) (fun _ hm => nomatch hm) (fun _ => rfl)
          (.inr ⟨rfl, ?_⟩)
        rw [hfile]
        exact inStep_missing _ rfl
    | some file =>
        refine inv_set h (.inl hidle) (by simp [Fresh]) ?_ (fun hm => nomatch hm)
          (.inl ⟨rfl, nofun⟩)
        intro mtime hm
        obtain rfl := Option.some.inj hm
        exact h.filed i file hfile

theorem inv_read
    {force : Bool} {i : Nat} {w : Watch} {exc : String}
    (h : Inv cfg parse s)
    (hphase : s.phase = .read force i)
    (hw : s.watches[i]? = some w) :
    Inv cfg parse (s.read parse force i w false exc) := by
  have hpending : s.phase.pending = some i := by
    rw [hphase]
    rfl
  unfold State.read
  dsimp only
  have hsome (r : Except String (List CronJobSpec)) : (w.parsed r).mtime ≠ none := by
    rw [mtime_parsed]
    exact h.reading i w hpending hw
  refine inv_set h (.inr hpending) (by simp [Fresh]) ?_ (fun hm => absurd hm (hsome _))
    (.inr ⟨rfl, ?_⟩)
  · intro mtime hm
    rw [mtime_parsed] at hm
    exact h.recorded i w mtime hw hm
  · cases hfile : s.files i with
    | none => exact fun hm => absurd hm (hsome _)
    | some file => exact inStep_parsed file w

/-- An edit of a file: its watch is in step with what the file is now. -/
theorem inv_edit
    {i : Nat} {file? : Option (File Content)} {past : Nat → List Nat}
    (h : Inv cfg parse s)
    (hpast : ∀ j m, m ∈ s.past j → m ∈ past j)
    (hfiled : ∀ file, file? = some file → file.mtime ∈ past i)
    (hin : ∀ w, s.watches[i]? = some w → InStep parse file? w) :
    Inv cfg parse { s with files := Function.update s.files i file?, past := past } := by
  refine ⟨fun j file hfile => ?_, fun j w m hw hm => hpast j m (h.recorded j w m hw hm), h.absent,
    h.reading, fun j w hw hne => ?_, h.merged⟩
  · dsimp only at hfile ⊢
    by_cases hj : j = i
    · subst hj
      rw [Function.update_self] at hfile
      exact hfiled file hfile
    · rw [Function.update_of_ne hj] at hfile
      exact hpast j _ (h.filed j file hfile)
  · dsimp only
    by_cases hj : j = i
    · subst hj
      rw [Function.update_self]
      exact hin w hw
    · rw [Function.update_of_ne hj]
      exact h.inStep j w hw hne

theorem inv_write
    {i mtime : Nat} {content : Content}
    (h : Inv cfg parse s)
    (hnew : mtime ∉ s.past i) :
    Inv cfg parse { s with
      files := Function.update s.files i (some ⟨content, mtime⟩)
      past := Function.update s.past i (mtime :: s.past i) } := by
  refine inv_edit h (fun j m hm => ?_) (fun file hfile => ?_) fun w hw => ?_
  · by_cases hj : j = i
    · subst hj
      rw [Function.update_self]
      exact List.mem_cons_of_mem _ hm
    · rw [Function.update_of_ne hj]
      exact hm
  · obtain rfl := Option.some.inj hfile
    rw [Function.update_self]
    exact List.mem_cons_self
  · -- the time in the watch is an old one
    exact inStep_of_ne fun hm => hnew (h.recorded i w mtime hw hm)

theorem inv_remove
    {i : Nat}
    (h : Inv cfg parse s) :
    Inv cfg parse { s with files := Function.update s.files i none } :=
  inv_edit h (fun _ _ hm => hm) (fun _ hfile => nomatch hfile) fun w hw hm => h.absent i w hw hm

theorem inv_finish
    {force changed : Bool} {i : Nat} {env : Env}
    (h : Inv cfg parse s)
    (hphase : s.phase = .stat force changed i)
    (hmerges : (mergeJobs cfg env s.watches).isSome = true) :
    Inv cfg parse (s.finish cfg (changed || force) env) := by
  have hidle : s.phase.pending = none := by
    rw [hphase]
    rfl
  unfold State.finish
  split
  · obtain ⟨⟨warnings, jobs⟩, hmerge⟩ := Option.isSome_iff_exists.mp hmerges
    rw [hmerge]
    exact ⟨h.filed, h.recorded, h.absent, fun _ _ hp => (nomatch hp),
      fun j w hw _ => h.inStep j w hw (by rw [hidle]; exact nofun), fun _ => ⟨env, hmerge⟩⟩
  · rename_i hno
    refine inv_phase h hidle rfl fun _ => ?_
    rw [hphase]
    exact (Bool.or_eq_false_iff.mp (Bool.eq_false_iff.mpr hno)).1

theorem inv_step
    {a : Label Content}
    (h : Inv cfg parse s)
    (hcond : Cond cfg s a)
    (hstep : step cfg parse s a = some s') :
    Inv cfg parse s' := by
  cases a with
  | reload force =>
      rw [step] at hstep
      split at hstep
      · rename_i hphase
        obtain rfl := Option.some.inj hstep
        refine inv_phase h (by rw [hphase]; rfl) rfl fun _ => ?_
        rw [hphase]
        trivial
      · cases hstep
  | stat =>
      rw [step] at hstep
      split at hstep
      · rename_i hphase
        obtain ⟨w, -, rfl⟩ := Option.map_eq_some_iff.mp hstep
        exact inv_stat h hphase
      · cases hstep
  | read fails exc =>
      rw [step] at hstep
      split at hstep
      · rename_i hphase
        obtain ⟨w, hw, rfl⟩ := Option.map_eq_some_iff.mp hstep
        rw [show fails = false from hcond]
        exact inv_read h hphase hw
      · cases hstep
  | finish env =>
      rw [step] at hstep
      split at hstep
      · rename_i hphase
        split at hstep
        · obtain rfl := Option.some.inj hstep
          exact inv_finish h hphase hcond
        · cases hstep
      · cases hstep
  | write i content mtime =>
      obtain rfl := Option.some.inj hstep
      exact inv_write h hcond
  | remove i =>
      obtain rfl := Option.some.inj hstep
      exact inv_remove h

end Invariant

/-! ### A reload without edits -/

section Undisturbed

variable {Content : Type} {cfg : Config} {parse : Content → Except String (List CronJobSpec)}
variable {s₀ s s' : State Content}

/-- A step of the service, not of an editor. -/
def Label.byService : Label Content → Bool
  | .write _ _ _ => false
  | .remove _ => false
  | _ => true

/-- A reload of every file that reads it whatever its modification time is. -/
def plainWatches (parse : Content → Except String (List CronJobSpec)) (s : State Content) :
    List Watch :=
  s.watches.mapIdx fun i w => plainWatch parse (s.files i) w

/-- The reload is over with a file. -/
def Phase.Past (j : Nat) : Phase → Prop
  | .idle => True
  | .stat _ _ i => j < i
  | .read _ i => j < i

/-- A watch on its way from one to what a plain reload makes of it. -/
structure Toward (parse : Content → Except String (List CronJobSpec)) (file : Option (File Content))
    (phase : Phase) (j : Nat) (w₀ w : Watch) : Prop where
  same : plainWatch parse file w = plainWatch parse file w₀
  past : phase.Past j → w = plainWatch parse file w₀
  reading : phase.pending = some j → w.mtime = file.map File.mtime

/-- Every watch is on its way. -/
structure Reloads (parse : Content → Except String (List CronJobSpec)) (s₀ s : State Content) :
    Prop where
  files : s.files = s₀.files
  length : s.watches.length = s₀.watches.length
  toward : ∀ j w₀ w, s₀.watches[j]? = some w₀ → s.watches[j]? = some w →
    Toward parse (s₀.files j) s.phase j w₀ w

theorem plainWatch_mtime
    (file : Option (File Content)) (w : Watch) (mtime : Option Nat) :
    plainWatch parse file { w with mtime := mtime } = plainWatch parse file w := by
  cases file <;> rfl

theorem plainWatch_plainWatch
    (file : Option (File Content)) (w : Watch) :
    plainWatch parse file (plainWatch parse file w) = plainWatch parse file w := by
  cases file with
  | none => rfl
  | some file =>
      unfold plainWatch
      dsimp only
      generalize parse file.content = r
      cases r <;> rfl

theorem plainWatch_parsed
    {file : File Content} {w : Watch}
    (h : w.mtime = some file.mtime) :
    w.parsed (parse file.content) = plainWatch parse (some file) w := by
  rw [plainWatch, ← h]

/-- The phase goes on to the next file. -/
theorem Reloads.next
    {phase : Phase} {i : Nat} {w : Watch}
    (h : Reloads parse s₀ s)
    (hpast : ∀ j, phase.Past j → j = i ∨ s.phase.Past j)
    (hpending : ∀ j, phase.pending = some j → j = i)
    (hw : ∀ w₀, s₀.watches[i]? = some w₀ → Toward parse (s₀.files i) phase i w₀ w) :
    Reloads parse s₀ { s with watches := s.watches.set i w, phase := phase } where
  files := h.files
  length := (List.length_set ..).trans h.length
  toward := by
    intro j w₀ w' hw₀ hw'
    rcases Threads.of_getElem?_set hw' with ⟨rfl, rfl⟩ | ⟨hne, hold⟩
    · exact hw w₀ hw₀
    · have hj := h.toward j w₀ w' hw₀ hold
      refine ⟨hj.same, fun hp => ?_, fun hp => absurd (hpending j hp) hne⟩
      rcases hpast j hp with rfl | hp
      · exact absurd rfl hne
      · exact hj.past hp

theorem reloads_stat
    {force changed : Bool} {i : Nat} {w : Watch}
    (h : Reloads parse s₀ s)
    (hinv : Inv cfg parse s)
    (hphase : s.phase = .stat force changed i)
    (hw : s.watches[i]? = some w) :
    Reloads parse s₀ (s.stat force changed i w) := by
  have hset : s.watches.set i w = s.watches := by
    obtain ⟨hlt, rfl⟩ := List.getElem?_eq_some_iff.mp hw
    exact List.set_getElem_self hlt
  have hpast (j : Nat) (hj : j < i + 1) : j = i ∨ s.phase.Past j := by
    rw [hphase]
    exact (Nat.lt_succ_iff_lt_or_eq.mp hj).symm
  have hsame (w₀ : Watch) (hw₀ : s₀.watches[i]? = some w₀) := (h.toward i w₀ w hw₀ hw).same
  unfold State.stat
  dsimp only
  split
  · rename_i hskip
    obtain ⟨-, hmtime⟩ := (Bool.and_eq_true _ _).mp hskip
    have hin : plainWatch parse (s.files i) w = w := by
      refine hinv.inStep i w hw ?_ (beq_iff_eq.mp hmtime).symm
      rw [hphase]
      exact nofun
    rw [h.files] at hin
    have hnext : Reloads parse s₀
        { s with watches := s.watches.set i w, phase := .stat force changed (i + 1) } :=
      h.next hpast (fun _ hp => nomatch hp) fun w₀ hw₀ =>
        ⟨hsame w₀ hw₀, fun _ => hin.symm.trans (hsame w₀ hw₀), fun hp => nomatch hp⟩
    rwa [hset] at hnext
  · cases hfile : s.files i with
    | none =>
        rw [h.files] at hfile
        refine h.next hpast (fun _ hp => nomatch hp) fun w₀ hw₀ => ?_
        have hmissing := hsame w₀ hw₀
        rw [hfile] at hmissing ⊢
        exact ⟨hmissing, fun _ => hmissing, fun hp => nomatch hp⟩
    | some file =>
        rw [h.files] at hfile
        refine h.next (fun j hj => ?_) (fun j hj => (Option.some.inj hj).symm) fun w₀ hw₀ => ?_
        · rw [hphase]
          exact .inr hj
        · refine ⟨(plainWatch_mtime _ _ _).trans (hsame w₀ hw₀),
            fun hlt => absurd hlt (Nat.lt_irrefl i), fun _ => ?_⟩
          rw [hfile]
          rfl

theorem reloads_read
    {force : Bool} {i : Nat} {w : Watch} {exc : String}
    (h : Reloads parse s₀ s)
    (hinv : Inv cfg parse s)
    (hphase : s.phase = .read force i)
    (hw : s.watches[i]? = some w) :
    Reloads parse s₀ (s.read parse force i w false exc) := by
  have hpending : s.phase.pending = some i := by
    rw [hphase]
    rfl
  have hlt : i < s₀.watches.length := h.length ▸ (List.getElem?_eq_some_iff.mp hw).1
  have htoward := h.toward i _ w (List.getElem?_eq_getElem hlt) hw
  have hmtime := htoward.reading hpending
  rw [← h.files] at hmtime
  unfold State.read
  cases hfile : s.files i with
  | none =>
      rw [hfile] at hmtime
      exact absurd hmtime (hinv.reading i w hpending hw)
  | some file =>
      rw [hfile] at hmtime
      refine h.next (fun j hj => ?_) (fun _ hp => nomatch hp) fun w₀ hw₀ => ?_
      · rw [hphase]
        exact (Nat.lt_succ_iff_lt_or_eq.mp hj).symm
      · have hsame := (h.toward i w₀ w hw₀ hw).same
        rw [← h.files, hfile] at hsame ⊢
        rw [plainWatch_parsed hmtime]
        exact ⟨(plainWatch_plainWatch _ _).trans hsame, fun _ => hsame, fun hp => nomatch hp⟩

theorem finish_cases (s : State Content) (merges : Bool) (env : Env) :
    (s.finish cfg merges env).files = s.files ∧ (s.finish cfg merges env).watches = s.watches ∧
      (s.finish cfg merges env).phase = .idle := by
  unfold State.finish
  split
  · split <;> exact ⟨rfl, rfl, rfl⟩
  · exact ⟨rfl, rfl, rfl⟩

/-- A step of the service on the way of a reload. -/
theorem reloads_step
    {a : Label Content}
    (h : Reloads parse s₀ s)
    (hinv : Inv cfg parse s)
    (hcond : Cond cfg s a ∧ a.byService = true)
    (hstep : step cfg parse s a = some s') :
    Reloads parse s₀ s' := by
  cases a with
  | reload force =>
      rw [step] at hstep
      split at hstep
      · rename_i hphase
        obtain rfl := Option.some.inj hstep
        refine ⟨h.files, h.length, fun j w₀ w hw₀ hw => ?_⟩
        exact ⟨(h.toward j w₀ w hw₀ hw).same, fun hp => absurd hp (Nat.not_lt_zero j),
          fun hp => nomatch hp⟩
      · cases hstep
  | stat =>
      rw [step] at hstep
      split at hstep
      · rename_i hphase
        obtain ⟨w, hw, rfl⟩ := Option.map_eq_some_iff.mp hstep
        exact reloads_stat h hinv hphase hw
      · cases hstep
  | read fails exc =>
      rw [step] at hstep
      split at hstep
      · rename_i hphase
        obtain ⟨w, hw, rfl⟩ := Option.map_eq_some_iff.mp hstep
        rw [show fails = false from hcond.1]
        exact reloads_read h hinv hphase hw
      · cases hstep
  | finish env =>
      rw [step] at hstep
      split at hstep
      · rename_i force changed i hphase
        split at hstep
        · rename_i hall
          obtain rfl := Option.some.inj hstep
          obtain ⟨hfiles, hwatches, hidle⟩ := finish_cases s (changed || force) env
          refine ⟨hfiles.trans h.files, hwatches ▸ h.length, fun j w₀ w hw₀ hw => ?_⟩
          rw [hwatches] at hw
          have hj := h.toward j w₀ w hw₀ hw
          rw [hidle]
          refine ⟨hj.same, fun _ => hj.past ?_, fun hp => nomatch hp⟩
          rw [hphase, hall]
          exact (List.getElem?_eq_some_iff.mp hw).1
        · cases hstep
      · cases hstep
  | write i content mtime => exact nomatch hcond.2
  | remove i => exact nomatch hcond.2

/-- **A reload that looks at the times agrees with one that reads every file.**  Between reloads the
jobs are the merge of the watches, and a watch with the time of its file knows what is in it; a
reload during which no file is edited leaves every watch as if its file had been read, and the merge
of these watches. -/
theorem reload_agrees
    {paths : List (String × Source)} {s : State Content}
    (h : Reach (step cfg parse) (Cond cfg) (initial paths) s)
    (hidle : s.phase = .idle) :
    (∃ env, mergeJobs cfg env s.watches = some (s.warnings, s.jobs)) ∧
    (∀ i w, s.watches[i]? = some w → w.mtime = (s.files i).map File.mtime →
      plainWatch parse (s.files i) w = w) ∧
    ∀ force s', Reach (step cfg parse) (fun s a => Cond cfg s a ∧ a.byService = true)
        { s with phase := .stat force false 0 } s' → s'.phase = .idle →
      s'.watches = plainWatches parse s ∧
        ∃ env, mergeJobs cfg env (plainWatches parse s) = some (s'.warnings, s'.jobs) := by
  have hinv : Inv cfg parse s :=
    h.invariant (P := Inv cfg parse) (inv_initial paths) fun _ _ _ hi hc hstep =>
      inv_step hi hc hstep
  refine ⟨hinv.merged (hidle ▸ trivial), fun i w hw hm => ?_, fun force s' hrun hdone => ?_⟩
  · refine hinv.inStep i w hw ?_ hm
    rw [hidle]
    exact nofun
  · have hstart : Inv cfg parse { s with phase := .stat force false 0 } :=
      inv_phase hinv (hidle ▸ rfl) rfl fun _ => hidle ▸ trivial
    have hboth := hrun.invariant
      (P := fun t => Inv cfg parse t ∧ Reloads parse s t)
      ⟨hstart, rfl, rfl, fun j w₀ w hw₀ hw => ?_⟩
      fun t a t' ht hc hstep => ⟨inv_step ht.1 hc.1 hstep, reloads_step ht.2 ht.1 hc hstep⟩
    · have hwatches : s'.watches = plainWatches parse s := by
        refine List.ext_getElem? fun j => ?_
        rw [plainWatches, List.getElem?_mapIdx]
        cases hw₀ : s.watches[j]? with
        | none =>
            have hle := List.getElem?_eq_none_iff.mp hw₀
            exact List.getElem?_eq_none_iff.mpr (hboth.2.length ▸ hle)
        | some w₀ =>
            have hlt : j < s'.watches.length :=
              hboth.2.length ▸ (List.getElem?_eq_some_iff.mp hw₀).1
            have hw := List.getElem?_eq_getElem hlt
            rw [hw]
            exact congrArg some ((hboth.2.toward j w₀ _ hw₀ hw).past (hdone ▸ trivial))
      exact ⟨hwatches, hwatches ▸ hboth.1.merged (hdone ▸ trivial)⟩
    · obtain rfl := Option.some.inj (hw₀.symm.trans hw)
      exact ⟨rfl, fun hp => absurd hp (Nat.not_lt_zero j), fun hp => nomatch hp⟩

/-- Whether a step meets the condition. -/
def checkStep (cfg : Config) (s : State Content) : Label Content → Bool
  | .read fails _ => !fails
  | .finish env => (mergeJobs cfg env s.watches).isSome
  | .write i _ mtime => !(s.past i).contains mtime
  | _ => true

theorem cond_of_checkStep
    {a : Label Content}
    (h : checkStep cfg s a = true) :
    Cond cfg s a := by
  cases a with
  | read fails exc =>
      show fails = false
      simpa [checkStep] using h
  | finish env => exact h
  | write i content mtime =>
      show mtime ∉ s.past i
      simpa [checkStep] using h
  | reload force => trivial
  | stat => trivial
  | remove i => trivial

/-- A text with one job, one with two, and one that does not parse. -/
def parseWord (word : String) : Except String (List CronJobSpec) :=
  if word = "broken" then .error "bad text"
  else if word = "two" then .ok [chatJob "a" .atDaily, chatJob "b" .atDaily]
  else .ok [chatJob "a" .atDaily]

/-- The files are found missing; then one is written, broken, and written again between the `stat`
and the read of a reload. -/
def editRun : List (Label String) :=
  [.reload true, .stat, .stat, .finish blankEnv, .write 0 "one" 1, .reload false, .stat,
    .read false "", .stat, .finish blankEnv, .write 0 "broken" 2, .reload false, .stat,
    .write 0 "two" 3, .read false "", .stat, .finish blankEnv]

def editPaths : List (String × Source) := [("crons.yaml", .global), ("persona.yaml", .persona)]

/-- The state after steps from the service as it is built. -/
def after (labels : List (Label String)) : State String :=
  (run (step smallConfig parseWord) (initial editPaths) labels).getD (initial editPaths)

/-- A reload without edits. -/
def quietRun : List (Label String) := [.stat, .read false "", .stat, .finish blankEnv]

theorem reload_agrees_editRun :
    ∃ s', run (step smallConfig parseWord) { after editRun with phase := .stat false false 0 }
        quietRun = some s' ∧
      s'.watches = plainWatches parseWord (after editRun) ∧ s'.jobs.keys = ["a", "b"] := by
  have hreach : Reach (step smallConfig parseWord) (Cond smallConfig) (initial editPaths)
      (after editRun) :=
    reach_of_run (run_eq_getD rfl)
      (guarded_of_checkRun (checkStep smallConfig) (fun _ _ => cond_of_checkStep) rfl)
  have hservice : Guarded (step smallConfig parseWord)
      (fun s a => Cond smallConfig s a ∧ a.byService = true)
      { after editRun with phase := .stat false false 0 } quietRun :=
    guarded_of_checkRun (fun s a => checkStep smallConfig s a && a.byService)
      (fun _ _ h => ((Bool.and_eq_true _ _).mp h).imp_left cond_of_checkStep) rfl
  obtain ⟨hwatches, -⟩ := (reload_agrees hreach rfl).2.2 false _
    (reach_of_run (run_eq_getD rfl) hservice) rfl
  exact ⟨_, run_eq_getD rfl, hwatches, rfl⟩

end Undisturbed

end HotReload
end Cron
end DiploidAgent
