import Mathlib.Data.List.Infix
import DiploidAgent.Acp.McpServers

/-!
# The paths that triggers watch

`_resolve_trigger_path` of `runtime/cron_service.py`, with `_resolve_persona` and what
`_resolve_job` makes of it, on POSIX.

Whatever stands in a trigger's path, the check is made on what the disk makes of it, after every
expansion: the path that is watched lies under a root that is allowed for the job
(`resolveTriggerPath_confined`), and no link is on the way to it (`real_resolveTriggerPath`).
-/

namespace DiploidAgent
namespace Cron
namespace TriggerPaths

open Acp.McpServers (safeDirName)

/-! ### Paths -/

section Paths

/-- A name on a path. -/
abbrev Name := List Char

/-- `..`. -/
def up : Name := ['.', '.']

/-- `PurePosixPath`. -/
structure PurePath where
  absolute : Bool
  parts : List Name

namespace PurePath

/-- `Path(text)`. -/
def ofText (text : List Char) : PurePath where
  absolute := text.head? == some '/'
  parts := (text.splitOn '/').filter fun part => part ≠ [] ∧ part ≠ ['.']

/-- The path of a place. -/
def ofPlace (place : List Name) : PurePath where
  absolute := true
  parts := place

/-- `base / path`. -/
def join (base path : PurePath) : PurePath :=
  if path.absolute then path
  else
    { absolute := base.absolute
      parts := base.parts ++ path.parts }

def parent (path : PurePath) : PurePath := { path with parts := path.parts.dropLast }

end PurePath

/-- `Path.parents` of a place. -/
def parents (place : List Name) : List (List Name) := place.inits.dropLast.reverse

/-- The disk at the time of a call.  `homes` is `os.path.expanduser` of a first part with a tilde,
which fails for users that are not known.  In a loop of links, which is where `limit` steps do not
suffice, `resolve` raises, or in later versions of Python gives what `looped` says. -/
structure Disk where
  cwd : List Name
  link : List Name → Option PurePath
  isThere : PurePath → Bool
  homes : Name → Option PurePath
  limit : Nat
  looped : PurePath → Option (List Name)

/-- The names are walked from a place, a link is followed where one stands. -/
def walk (link : List Name → Option PurePath) : Nat → List Name → List Name → Option (List Name)
  | _, place, [] => some place
  | 0, _, _ :: _ => none
  | n + 1, place, name :: rest =>
      if name = up then walk link n place.dropLast rest
      else
        match link (place ++ [name]) with
        | none => walk link n (place ++ [name]) rest
        | some target =>
            walk link n (if target.absolute then [] else place) (target.parts ++ rest)

/-- `Path.resolve`; without a value it raises. -/
def resolve (d : Disk) (path : PurePath) : Option (List Name) :=
  match walk d.link d.limit [] (if path.absolute then path.parts else d.cwd ++ path.parts) with
  | some place => some place
  | none => d.looped path

/-- `Path.expanduser`; without a value it raises. -/
def expandUser (d : Disk) (path : PurePath) : Option PurePath :=
  match path.absolute, path.parts with
  | false, ('~' :: user) :: rest =>
      (d.homes ('~' :: user)).map fun home => { home with parts := home.parts ++ rest }
  | _, _ => some path

end Paths

/-! ### The service -/

section Service

/-- The label of a cron file. -/
inductive Source where
  | global
  | persona
deriving DecidableEq

/-- `PersonaConfig`. -/
structure Persona where
  name : List Char
  profileRoot : PurePath
  fleetRoot : Option PurePath := none

structure Config where
  sessionsRoot : PurePath
  triggerAllowedRoots : List PurePath := []
  persona : Option Persona := none
  fallbackChatId : List Char := []

/-- `_ResolvedJob`. -/
structure ResolvedJob where
  source : Source
  chatId : List Char
  personaDir : Option PurePath

/-- Of a `CronJobSpec` what the roots depend on, and the path of its file trigger. -/
structure CronJobSpec where
  chatId : Option (List Char) := none
  persona : Option (List Char) := none
  llm : Bool := false
  watch : Option (List Char) := none

/-- `session:`. -/
def sessionPrefix : List Char := ['s', 'e', 's', 's', 'i', 'o', 'n', ':']

def sessionRoot (d : Disk) (cfg : Config) (job : ResolvedJob) : Option (List Name) :=
  resolve d (cfg.sessionsRoot.join (.ofText (safeDirName job.chatId)))

def personaRoots (d : Disk) (job : ResolvedJob) : Option (List (List Name)) :=
  match job.personaDir with
  | none => some []
  | some dir => (resolve d dir).map fun root => [root]

/-- `Path.home().resolve()`, for the operator's jobs. -/
def homeRoots (d : Disk) (job : ResolvedJob) : Option (List (List Name)) :=
  match job.source with
  | .global => ((expandUser d (.ofText ['~'])).bind (resolve d)).map fun root => [root]
  | .persona => some []

/-- The roots that are allowed for a job. -/
def allowedRoots (d : Disk) (cfg : Config) (job : ResolvedJob) : Option (List (List Name)) := do
  let session ← sessionRoot d cfg job
  let persona ← personaRoots d job
  let home ← homeRoots d job
  let extra ← cfg.triggerAllowedRoots.mapM (resolve d)
  some (persona ++ session :: (home ++ extra))

/-- The candidate, where it is one of the roots or has one among its parents. -/
def confined (allowed : List (List Name)) (candidate : List Name) : Option (List Name) :=
  if allowed.any fun root => candidate == root || (parents candidate).contains root then
    some candidate
  else none

/-- The path before it is resolved. -/
def expanded (d : Disk) (job : ResolvedJob) (raw : List Char) : Option PurePath :=
  (expandUser d (.ofText raw)).map fun path =>
    if path.absolute then path else (job.personaDir.getD (.ofPlace d.cwd)).join path

/-- `_resolve_trigger_path`: without a value it raises, with none the path is rejected. -/
def resolveTriggerPath (d : Disk) (cfg : Config) (job : ResolvedJob) (raw : List Char) :
    Option (Option (List Name)) := do
  let session ← sessionRoot d cfg job
  let roots ← allowedRoots d cfg job
  if sessionPrefix.isPrefixOf raw then
    let candidate ← resolve d
      ((PurePath.ofPlace session).join (.ofText (raw.drop sessionPrefix.length)))
    some (confined [session] candidate)
  else
    let path ← expanded d job raw
    let candidate ← resolve d path
    some (confined roots candidate)

/-- The directory of `_resolve_persona`. -/
def resolvePersona (d : Disk) (cfg : Config) (name : Option (List Char)) : Option PurePath :=
  cfg.persona.bind fun persona =>
    if name.getD [] = [] ∨ name = some persona.name then some persona.profileRoot
    else
      let root := (persona.fleetRoot.getD persona.profileRoot.parent).join (.ofText (name.getD []))
      if d.isThere (root.join (.ofText ['S', 'O', 'U', 'L', '.', 'm', 'd'])) then some root
      else none

/-- `_resolve_job`; `floors` is what the checks of the intervals say. -/
def resolveJob (d : Disk) (cfg : Config) (source : Source) (floors : Bool) (spec : CronJobSpec) :
    Option (Option ResolvedJob) :=
  let persona := resolvePersona d cfg spec.persona
  let chatId := if spec.chatId.getD [] = [] then cfg.fallbackChatId else spec.chatId.getD []
  if !floors || (spec.llm && persona.isNone) || chatId = [] then some none
  else
    let job : ResolvedJob := ⟨source, chatId, persona⟩
    match spec.watch with
    | none => some (some job)
    | some raw => (resolveTriggerPath d cfg job raw).map fun path => path.map fun _ => job

end Service

/-! ### Places -/

section Places

variable {d : Disk} {link : List Name → Option PurePath} {place : List Name}

theorem prefix_of_mem_parents {root : List Name} (h : root ∈ parents place) : root <+: place :=
  (List.mem_inits _ _).mp (List.mem_of_mem_dropLast (List.mem_reverse.mp h))

/-- A confined candidate is under one of the roots. -/
theorem confined_eq_some {allowed : List (List Name)} {candidate : List Name}
    (h : confined allowed candidate = some place) :
    place = candidate ∧ ∃ root ∈ allowed, root <+: place := by
  rw [confined] at h
  split_ifs at h with hany
  obtain rfl := Option.some.inj h
  obtain ⟨root, hroot, hunder⟩ := List.any_eq_true.mp hany
  refine ⟨rfl, root, hroot, ?_⟩
  rcases Bool.or_eq_true_iff.mp hunder with heq | hparent
  · rw [beq_iff_eq.mp heq]
  · exact prefix_of_mem_parents (List.contains_iff_mem.mp hparent)

/-- No link is on the way to the place, and no step on it leads back. -/
structure Real (link : List Name → Option PurePath) (place : List Name) : Prop where
  linkFree : ∀ q, q <+: place → q ≠ [] → link q = none
  forward : up ∉ place

theorem real_nil : Real link [] where
  linkFree _ hq hne := absurd (List.prefix_nil.mp hq) hne
  forward := List.not_mem_nil

theorem Real.dropLast (h : Real link place) : Real link place.dropLast where
  linkFree q hq hne := h.linkFree q (hq.trans (List.dropLast_prefix place)) hne
  forward hmem := h.forward (List.mem_of_mem_dropLast hmem)

theorem Real.concat {name : Name} (h : Real link place) (hname : name ≠ up)
    (hlink : link (place ++ [name]) = none) : Real link (place ++ [name]) where
  linkFree q hq hne := by
    rcases List.prefix_concat_iff.mp hq with rfl | hq
    · exact hlink
    · exact h.linkFree q hq hne
  forward hmem := by
    rcases List.mem_append.mp hmem with hmem | hmem
    · exact h.forward hmem
    · exact hname (List.mem_singleton.mp hmem).symm

/-- A walk ends at a real place. -/
theorem real_walk {n : Nat} {names : List Name} (hplace : Real link place)
    {r : List Name} (h : walk link n place names = some r) : Real link r := by
  induction n generalizing place names with
  | zero =>
      cases names with
      | nil =>
          obtain rfl := Option.some.inj h
          exact hplace
      | cons name rest => cases h
  | succ n ih =>
      cases names with
      | nil =>
          obtain rfl := Option.some.inj h
          exact hplace
      | cons name rest =>
          rw [walk] at h
          split_ifs at h with hup
          · exact ih hplace.dropLast h
          · split at h
            next hlink => exact ih (hplace.concat hup hlink) h
            next target _ =>
              split_ifs at h
              · exact ih real_nil h
              · exact ih hplace h

/-- A path that is resolved without a loop of links is real. -/
theorem real_resolve {path : PurePath} (hloop : ∀ path, d.looped path = none)
    (h : resolve d path = some place) : Real d.link place := by
  rw [resolve] at h
  split at h
  next hwalk =>
    obtain rfl := Option.some.inj h
    exact real_walk real_nil hwalk
  next =>
    rw [hloop] at h
    cases h

end Places

/-! ### Watched paths -/

section Watched

variable {d : Disk} {cfg : Config} {job : ResolvedJob} {raw : List Char} {place : List Name}

/-- A root that is there without regard to the home directory. -/
def HomelessRoot (d : Disk) (cfg : Config) (job : ResolvedJob) (root : List Name) : Prop :=
  sessionRoot d cfg job = some root ∨
    (∃ dir, job.personaDir = some dir ∧ resolve d dir = some root) ∨
    ∃ extra ∈ cfg.triggerAllowedRoots, resolve d extra = some root

/-- A path that is watched came through the check. -/
theorem resolveTriggerPath_eq_some (h : resolveTriggerPath d cfg job raw = some (some place)) :
    ∃ session roots, sessionRoot d cfg job = some session ∧ allowedRoots d cfg job = some roots ∧
      (∃ path, resolve d path = some place) ∧
      ∃ root, root <+: place ∧ (root = session ∨ ¬ sessionPrefix <+: raw ∧ root ∈ roots) := by
  rw [resolveTriggerPath, Option.bind_eq_bind, Option.bind_eq_some_iff] at h
  obtain ⟨session, hsession, h⟩ := h
  rw [Option.bind_eq_bind, Option.bind_eq_some_iff] at h
  obtain ⟨roots, hroots, h⟩ := h
  refine ⟨session, roots, hsession, hroots, ?_⟩
  split_ifs at h with hprefix
  · rw [Option.bind_eq_some_iff] at h
    obtain ⟨candidate, hcandidate, h⟩ := h
    obtain ⟨rfl, root, hroot, hunder⟩ := confined_eq_some (Option.some.inj h)
    exact ⟨⟨_, hcandidate⟩, root, hunder, Or.inl (List.mem_singleton.mp hroot)⟩
  · rw [Option.bind_eq_bind, Option.bind_eq_some_iff] at h
    obtain ⟨path, -, h⟩ := h
    rw [Option.bind_eq_some_iff] at h
    obtain ⟨candidate, hcandidate, h⟩ := h
    obtain ⟨rfl, root, hroot, hunder⟩ := confined_eq_some (Option.some.inj h)
    refine ⟨⟨_, hcandidate⟩, root, hunder, Or.inr ⟨?_, hroot⟩⟩
    rwa [List.isPrefixOf_iff_prefix] at hprefix

theorem exists_of_mem_mapM {α β : Type*} {f : α → Option β} {l : List α} {l' : List β} {y : β}
    (h : l.mapM f = some l') (hy : y ∈ l') : ∃ x ∈ l, f x = some y := by
  induction l generalizing l' with
  | nil =>
      obtain rfl := Option.some.inj h
      cases hy
  | cons x l ih =>
      simp only [List.mapM_cons, Option.bind_eq_bind, Option.bind_eq_some_iff] at h
      obtain ⟨v, hv, vs, hvs, hall⟩ := h
      obtain rfl := Option.some.inj hall
      rcases List.mem_cons.mp hy with rfl | hy
      · exact ⟨x, List.mem_cons_self, hv⟩
      · obtain ⟨x', hx', hy'⟩ := ih hvs hy
        exact ⟨x', List.mem_cons_of_mem x hx', hy'⟩

theorem session_mem_allowedRoots {session : List Name} {roots : List (List Name)}
    (hsession : sessionRoot d cfg job = some session)
    (hroots : allowedRoots d cfg job = some roots) :
    session ∈ roots := by
  simp only [allowedRoots, Option.bind_eq_bind, Option.bind_eq_some_iff] at hroots
  obtain ⟨session', hsession', persona, -, home, -, extra, -, hall⟩ := hroots
  obtain rfl := Option.some.inj hall
  obtain rfl := Option.some.inj (hsession.symm.trans hsession')
  exact List.mem_append_right _ List.mem_cons_self

/-- The roots of a persona's job owe nothing to the home directory. -/
theorem homelessRoot_of_persona {roots : List (List Name)} {root : List Name}
    (hsource : job.source = .persona) (hroots : allowedRoots d cfg job = some roots)
    (hroot : root ∈ roots) : HomelessRoot d cfg job root := by
  simp only [allowedRoots, Option.bind_eq_bind, Option.bind_eq_some_iff] at hroots
  obtain ⟨session, hsession, persona, hpersona, home, hhome, extra, hextra, hall⟩ := hroots
  obtain rfl := Option.some.inj hall
  rw [homeRoots, hsource] at hhome
  obtain rfl := Option.some.inj hhome
  rw [List.mem_append, List.mem_cons, List.nil_append] at hroot
  rcases hroot with hroot | rfl | hroot
  · refine Or.inr (Or.inl ?_)
    rw [personaRoots] at hpersona
    split at hpersona
    next =>
      obtain rfl := Option.some.inj hpersona
      cases hroot
    next dir hdir =>
      obtain ⟨place, hplace, rfl⟩ := Option.map_eq_some_iff.mp hpersona
      exact ⟨dir, hdir, by rw [List.mem_singleton.mp hroot, hplace]⟩
  · exact Or.inl hsession
  · exact Or.inr (Or.inr (exists_of_mem_mapM hextra hroot))

/-- **Confinement.**  A path that is watched lies under a root that is allowed for the job, one
with the session prefix in the session directory, and that of a persona's job under a root other
than the home directory. -/
theorem resolveTriggerPath_confined (d : Disk) (cfg : Config) (job : ResolvedJob)
    (raw : List Char) (place : List Name)
    (h : resolveTriggerPath d cfg job raw = some (some place)) :
    (∃ roots, allowedRoots d cfg job = some roots ∧ ∃ root ∈ roots, root <+: place) ∧
    (sessionPrefix <+: raw → ∃ session, sessionRoot d cfg job = some session ∧
      session <+: place) ∧
    (job.source = .persona → ∃ root, HomelessRoot d cfg job root ∧ root <+: place) := by
  obtain ⟨session, roots, hsession, hroots, -, root, hunder, hroot⟩ := resolveTriggerPath_eq_some h
  have hmem : root ∈ roots := by
    rcases hroot with rfl | ⟨-, hmem⟩
    · exact session_mem_allowedRoots hsession hroots
    · exact hmem
  refine ⟨⟨roots, hroots, root, hmem, hunder⟩, fun hprefix => ⟨session, hsession, ?_⟩,
    fun hsource => ⟨root, homelessRoot_of_persona hsource hroots hmem, hunder⟩⟩
  rcases hroot with rfl | ⟨hnot, -⟩
  · exact hunder
  · exact absurd hprefix hnot

/-- Without a loop of links nothing leads out of the root on the way to the path. -/
theorem real_resolveTriggerPath (hloop : ∀ path, d.looped path = none)
    (h : resolveTriggerPath d cfg job raw = some (some place)) : Real d.link place := by
  obtain ⟨-, -, -, -, ⟨path, hpath⟩, -⟩ := resolveTriggerPath_eq_some h
  exact real_resolve hloop hpath

/-- A job with a file trigger is only kept with a path that is confined. -/
theorem confined_of_resolveJob {source : Source} {floors : Bool} {spec : CronJobSpec}
    (h : resolveJob d cfg source floors spec = some (some job)) (hwatch : spec.watch = some raw) :
    job.source = source ∧ ∃ place, resolveTriggerPath d cfg job raw = some (some place) := by
  rw [resolveJob, hwatch] at h
  dsimp only at h
  generalize (if spec.chatId.getD [] = [] then cfg.fallbackChatId else spec.chatId.getD []) =
    chatId at h
  split_ifs at h
  · cases h
  · obtain ⟨path, hpath, hjob⟩ := Option.map_eq_some_iff.mp h
    obtain ⟨place, rfl, rfl⟩ := Option.map_eq_some_iff.mp hjob
    exact ⟨rfl, place, hpath⟩

/-- A persona's job on a disk with a link from the persona's directory to the home directory. -/
def linkedDisk : Disk where
  cwd := []
  link place := if place = [['p'], ['h']] then some (.ofPlace [['h', 'o', 'm', 'e']]) else none
  isThere _ := false
  homes _ := some (.ofPlace [['h', 'o', 'm', 'e']])
  limit := 10
  looped _ := none

def personaJob : ResolvedJob := ⟨.persona, ['7'], some (.ofPlace [['p']])⟩

/-- Steps back are taken before the check, and through the link the path is rejected. -/
theorem resolveTriggerPath_linkedDisk :
    resolveTriggerPath linkedDisk { sessionsRoot := .ofPlace [['s']] } personaJob
        ['a', '/', '.', '.', '/', 'x'] = some (some [['p'], ['x']]) ∧
      (∃ root, HomelessRoot linkedDisk { sessionsRoot := .ofPlace [['s']] } personaJob root ∧
        root <+: [['p'], ['x']]) ∧
      resolveTriggerPath linkedDisk { sessionsRoot := .ofPlace [['s']] } personaJob
        ['h', '/', 'x'] = some none :=
  ⟨rfl, (resolveTriggerPath_confined linkedDisk { sessionsRoot := .ofPlace [['s']] } personaJob
    ['a', '/', '.', '.', '/', 'x'] [['p'], ['x']] rfl).2.2 rfl, rfl⟩

end Watched

end TriggerPaths
end Cron
end DiploidAgent
