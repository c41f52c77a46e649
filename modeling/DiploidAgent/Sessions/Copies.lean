import DiploidAgent.Lib.Histories
import DiploidAgent.Sessions.Directories

/-!
# What copies of a session leave alone

`copy_session_dir`, `archive_active_session` and `clear_active_session` of `runtime/store.py`
on the tree of a chat: the active directory, with the archives in its `.archive` item.
Directories are entries of the tree, so an empty one is one that is there; a call returns or
raises.

The durable files and the `*.lock` files at the root of the active directory and the
`.archive` directory are to stay as they are.  `clear_active_session` leaves the lock files
and copying skips those of its source, but it removes those of its target: they stay exactly
when no archive is copied over an active directory that has one (`copies_respect_iff`).

A chat's directory is a directory if it is there, and its paths contain no links.
-/

namespace DiploidAgent
namespace Sessions
namespace Copies

open Paths Directories Histories

variable {κ : Type}

/-! ### Calls -/

/-- The directories of a chat that are copied from and to. -/
inductive Place where
  | active
  | archive (sessionNumber : Nat)
deriving DecidableEq

/-- `chat_dir` and `archive_dir`. -/
def Place.path (dir : List String) : Place → List String
  | .active => dir
  | .archive n => archiveDir dir n

/-- The directories in the active directory that lead to the place, and the place. -/
def Place.inside (dir : List String) : Place → List (List String)
  | .active => []
  | .archive n => [dir ++ [".archive"], archiveDir dir n]

inductive Call where
  | archive (sessionNumber : Nat)
  | clear
  | copy (source target : Place)
deriving DecidableEq

section Calls

variable (durable : List String) (dir : List String)

/-- `copy_session_dir`; the flag says that it returns.  A file in place of a directory raises
before anything is done, a source that cannot be listed after the target was emptied. -/
def copySessionDir (source target : Place) (files : Files String (Node κ)) :
    Files String (Node κ) × Bool :=
  if source = target then (files, true)
  else if (target.inside dir).any fun p => (files.get p).any Node.isFile then (files, false)
  else
    let emptied := Paths.clear (target.path dir) (stays durable)
      (makeDirs (dir :: target.inside dir) files)
    if (emptied.get (source.path dir)).any Node.isDirectory then
      (copyInto (source.path dir) (target.path dir) (carried durable) emptied emptied, true)
    else (emptied, false)

/-- `archive_active_session`. -/
def archiveActive (n : Nat) (files : Files String (Node κ)) : Files String (Node κ) × Bool :=
  if files.entries.any fun e => below dir e.1 then
    copySessionDir durable dir .active (.archive n) files
  else (files, true)

/-- `clear_active_session`. -/
def clearActive (files : Files String (Node κ)) : Files String (Node κ) :=
  if (files.get dir).isSome then Directories.clearActiveSession durable dir files
  else makeDirs [dir] files

def perform (files : Files String (Node κ)) : Call → Files String (Node κ) × Bool
  | .archive n => archiveActive durable dir n files
  | .clear => (clearActive durable dir files, true)
  | .copy source target => copySessionDir durable dir source target files

/-- The tree after a call. -/
def step (files : Files String (Node κ)) (call : Call) : Files String (Node κ) :=
  (perform durable dir files call).1

/-- The two directories a call copies from and to. -/
def copyOf (files : Files String (Node κ)) : Call → Option (Place × Place)
  | .archive n =>
      if files.entries.any fun e => below dir e.1 then some (.active, .archive n) else none
  | .clear => none
  | .copy source target => if source = target then none else some (source, target)

/-- The call copies into the archive. -/
def Writes (n : Nat) (files : Files String (Node κ)) (call : Call) : Prop :=
  ∃ source, copyOf dir files call = some (source, .archive n)

end Calls

/-! ### What is to stay -/

/-- The items of the active directory that are no session's. -/
def isProtected (durable : List String) (x : String) : Bool :=
  (durable.contains x || isLock x) && x != ".archive"

/-- A `*.lock` item that is not durable. -/
def mutex (durable : List String) (x : String) : Bool :=
  isLock x && !stays durable x

section Respect

variable (durable : List String) (dir : List String)

/-- The calls leave alone what is no session's, and what was copied into an archive comes
back. -/
structure Respected (files : Files String (Node κ)) (calls : List Call) : Prop where
  /-- In every state the durable and the lock files are what they were at first. -/
  items : ∀ earlier, earlier <+: calls → ∀ x l, isProtected durable x = true →
    (earlier.foldl (step durable dir) files).get (dir ++ x :: l) = files.get (dir ++ x :: l)
  /-- What `.archive` holds stays, apart from the archives that are copied into. -/
  archives : ∀ earlier, earlier <+: calls → ∀ l v,
    Throughout (step durable dir) (fun s call => ∀ n, Writes dir n s call →
      ¬ archiveDir dir n <+: dir ++ ".archive" :: l) files earlier →
    files.get (dir ++ ".archive" :: l) = some v →
    (earlier.foldl (step durable dir) files).get (dir ++ ".archive" :: l) = some v
  /-- The active directory is copied into an archive, and, while nothing else is, back. -/
  restored : ∀ before call later n, before ++ call :: later <+: calls →
    copyOf dir (before.foldl (step durable dir) files) call = some (.active, .archive n) →
    (perform durable dir (before.foldl (step durable dir) files) call).2 = true →
    Throughout (step durable dir) (fun s call' => ¬ Writes dir n s call')
      ((before ++ [call]).foldl (step durable dir) files) later →
    (perform durable dir ((before ++ call :: later).foldl (step durable dir) files)
      (.copy (.archive n) .active)).2 = true ∧
    ∀ x l, carried durable x = true →
      (step durable dir ((before ++ call :: later).foldl (step durable dir) files)
        (.copy (.archive n) .active)).get (dir ++ x :: l) =
      (before.foldl (step durable dir) files).get (dir ++ x :: l)

/-- The call copies no archive over a `*.lock` file. -/
def Spares (files : Files String (Node κ)) (call : Call) : Prop :=
  ∀ source, copyOf dir files call = some (source, .active) →
    ∀ x l, mutex durable x = true → files.get (dir ++ x :: l) = none

end Respect

/-! ### What a call changes -/

section Steps

variable {durable : List String} {dir : List String} {files : Files String (Node κ)}

theorem stays_archive (durable : List String) : stays durable ".archive" = true := by
  simp [stays]

theorem carried_archive (durable : List String) : carried durable ".archive" = false := by
  rw [carried, stays_archive]
  rfl

/-- Another item of the active directory does not lie in an archive. -/
theorem not_through_archive {x : String} (hx : x ≠ ".archive") (n : Nat) (l : List String) :
    ¬ archiveDir dir n <+: dir ++ x :: l := by
  intro h
  rw [archiveDir, List.prefix_append_right_inj, List.cons_prefix_cons] at h
  exact hx h.1.symm

theorem below_of_not_through {d p : List String} (h : ¬ d <+: p) : below d p = false := by
  simp [below, h]

/-- Only the directories on the way to the target are made. -/
theorem get_made {target : Place} {p : List String} (hdir : p ≠ dir)
    (hinside : p ∉ target.inside dir) :
    (makeDirs (dir :: target.inside dir) files).get p = files.get p := by
  rw [get_makeDirs, if_neg]
  rw [List.mem_cons, not_or]
  exact ⟨hdir, hinside⟩

theorem item_ne (dir : List String) (x : String) (l : List String) : dir ++ x :: l ≠ dir := by
  simp

/-- Copying into an archive changes nothing else, but that missing directories on the way
are made. -/
theorem get_copy_off {source : Place} {n : Nat} {p : List String}
    (hp : ¬ archiveDir dir n <+: p) :
    (copySessionDir durable dir source (.archive n) files).1.get p = files.get p ∨
      (copySessionDir durable dir source (.archive n) files).1.get p =
        (makeDirs (dir :: Place.inside dir (.archive n)) files).get p := by
  have hbelow := below_of_not_through hp
  unfold copySessionDir
  split
  · exact Or.inl rfl
  · split
    · exact Or.inl rfl
    · dsimp only
      split
      · right
        rw [Place.path, get_copyInto_of_not_below _ _ _ _ _ hbelow,
          get_clear_of_not_below _ _ hbelow]
      · right
        rw [Place.path, get_clear_of_not_below _ _ hbelow]

/-- Copying into the active directory leaves the items that stay, and takes from the source
only those that are carried. -/
theorem get_copy_active {source : Place} (hne : source ≠ .active) (x : String)
    (l : List String) (hx : carried durable x = false) :
    (copySessionDir durable dir source .active files).1.get (dir ++ x :: l) =
      if stays durable x then files.get (dir ++ x :: l) else none := by
  have hmade : (makeDirs (dir :: Place.inside dir .active) files).get (dir ++ x :: l) =
      files.get (dir ++ x :: l) := get_made (item_ne dir x l) List.not_mem_nil
  unfold copySessionDir
  rw [if_neg hne, if_neg (by simp [Place.inside])]
  dsimp only
  split
  · rw [Place.path, get_copyInto, hx, get_clear, hmade]
    rfl
  · rw [Place.path, get_clear, hmade]

theorem get_clearActive {x : String} (l : List String) (hx : keptByClear durable x = true) :
    (clearActive durable dir files).get (dir ++ x :: l) = files.get (dir ++ x :: l) := by
  unfold clearActive
  split
  · rw [Directories.clearActiveSession, get_clear, if_pos hx]
  · rw [get_makeDirs, if_neg (by simp)]

/-- A call copies, or clears the active directory, or does nothing. -/
theorem copyOf_cases (durable : List String) (dir : List String) (files : Files String (Node κ))
    (call : Call) :
    (∃ source target, copyOf dir files call = some (source, target) ∧ source ≠ target ∧
      perform durable dir files call = copySessionDir durable dir source target files) ∨
    (copyOf dir files call = none ∧
      (perform durable dir files call = (clearActive durable dir files, true) ∨
        perform durable dir files call = (files, true))) := by
  cases call with
  | archive n =>
      simp only [copyOf, perform, archiveActive]
      split
      · exact Or.inl ⟨.active, .archive n, rfl, by simp, rfl⟩
      · exact Or.inr ⟨rfl, Or.inr rfl⟩
  | clear => exact Or.inr ⟨rfl, Or.inl rfl⟩
  | copy source target =>
      simp only [copyOf, perform]
      split
      · next heq =>
          refine Or.inr ⟨rfl, Or.inr ?_⟩
          rw [copySessionDir, if_pos heq]
      · next hne => exact Or.inl ⟨source, target, rfl, hne, rfl⟩

theorem perform_of_copyOf (durable : List String) {call : Call} {source target : Place}
    (h : copyOf dir files call = some (source, target)) :
    source ≠ target ∧
      perform durable dir files call = copySessionDir durable dir source target files := by
  rcases copyOf_cases durable dir files call with ⟨s, t, hcopy, hne, hperform⟩ | ⟨hnone, _⟩
  · obtain ⟨rfl, rfl⟩ := Prod.mk.inj (Option.some.inj (hcopy.symm.trans h))
    exact ⟨hne, hperform⟩
  · rw [hnone] at h
    cases h

/-- A call that copies nothing. -/
theorem step_of_copyOf_none {call : Call} (h : copyOf dir files call = none) {x : String}
    (l : List String) (hx : keptByClear durable x = true) :
    (step durable dir files call).get (dir ++ x :: l) = files.get (dir ++ x :: l) := by
  unfold step
  rcases copyOf_cases durable dir files call with ⟨s, t, hcopy, _⟩ | ⟨_, hclear | hnothing⟩
  · rw [h] at hcopy
    cases hcopy
  · rw [hclear]
    exact get_clearActive l hx
  · rw [hnothing]

theorem protected_iff {x : String} :
    isProtected durable x = true ↔
      x ≠ ".archive" ∧ (durable.contains x = true ∨ mutex durable x = true) := by
  have hlock : isLock ".archive" = false := by decide
  unfold isProtected mutex stays
  by_cases hx : x = ".archive"
  · simp [hx]
  · cases durable.contains x <;> simp [hx]

theorem keptByClear_of_protected {x : String} (h : isProtected durable x = true) :
    keptByClear durable x = true := by
  rcases (protected_iff.mp h).2 with hdurable | hmutex
  · simp only [keptByClear, stays, hdurable, Bool.true_or]
  · rw [mutex, Bool.and_eq_true] at hmutex
    simp only [keptByClear, hmutex.1, Bool.or_true]

theorem not_carried_of_protected {x : String} (h : isProtected durable x = true) :
    carried durable x = false := by
  rcases (protected_iff.mp h).2 with hdurable | hmutex
  · rw [carried, stays, hdurable]
    rfl
  · rw [mutex, Bool.and_eq_true] at hmutex
    rw [carried, hmutex.1]
    exact Bool.and_false _

/-- Copying into an archive leaves the other items of the active directory. -/
theorem get_copy_archive {source : Place} {n : Nat} {x : String} (hx : x ≠ ".archive")
    (l : List String) :
    (copySessionDir durable dir source (.archive n) files).1.get (dir ++ x :: l) =
      files.get (dir ++ x :: l) := by
  have hmade : (makeDirs (dir :: Place.inside dir (.archive n)) files).get (dir ++ x :: l) =
      files.get (dir ++ x :: l) := by
    refine get_made (item_ne dir x l) ?_
    simp [Place.inside, archiveDir, hx]
  rcases get_copy_off (not_through_archive hx n l) with h | h
  · exact h
  · exact h.trans hmade

/-- A call keeps the durable and the lock files exactly when it copies no archive over a lock
file. -/
theorem step_items_iff (durable : List String) (dir : List String)
    (files : Files String (Node κ)) (call : Call) :
    (∀ x l, isProtected durable x = true →
      (step durable dir files call).get (dir ++ x :: l) = files.get (dir ++ x :: l)) ↔
    Spares durable dir files call := by
  rcases copyOf_cases durable dir files call with ⟨source, target, hcopy, hne, hperform⟩ | ⟨hnone, _⟩
  · unfold step
    rw [hperform]
    cases target with
    | active =>
        constructor
        · intro hitems s hs x l hx
          have hstays : stays durable x = false := by
            rw [mutex, Bool.and_eq_true] at hx
            simpa using hx.2
          have hprotected : isProtected durable x = true := by
            refine protected_iff.mpr ⟨?_, Or.inr hx⟩
            rintro rfl
            rw [stays_archive] at hstays
            cases hstays
          rw [← hitems x l hprotected,
            get_copy_active hne x l (not_carried_of_protected hprotected), hstays]
          rfl
        · intro hspares x l hx
          rw [get_copy_active hne x l (not_carried_of_protected hx)]
          rcases (protected_iff.mp hx).2 with hdurable | hmutex
          · rw [stays, hdurable, Bool.true_or, if_pos rfl]
          · rw [hspares source hcopy x l hmutex, ite_self]
    | archive n =>
        constructor
        · intro _ s hs
          rw [hcopy] at hs
          cases hs
        · intro _ x l hx
          exact get_copy_archive (protected_iff.mp hx).1 l
  · constructor
    · intro _ s hs
      rw [hnone] at hs
      cases hs
    · intro _ x l hx
      exact step_of_copyOf_none hnone l (keptByClear_of_protected hx)

theorem step_eq_of_copyOf (durable : List String) {call : Call} {source target : Place}
    (h : copyOf dir files call = some (source, target)) :
    step durable dir files call = (copySessionDir durable dir source target files).1 :=
  congrArg Prod.fst (perform_of_copyOf durable h).2

/-- What is in `.archive` stays, apart from the archive that is copied into. -/
theorem step_archives {call : Call} {l : List String} {v : Node κ}
    (hoff : ∀ n, Writes dir n files call → ¬ archiveDir dir n <+: dir ++ ".archive" :: l)
    (h : files.get (dir ++ ".archive" :: l) = some v) :
    (step durable dir files call).get (dir ++ ".archive" :: l) = some v := by
  cases hcopy : copyOf dir files call with
  | none =>
      have hkept : keptByClear durable ".archive" = true := by
        simp only [keptByClear, stays_archive, Bool.true_or]
      rw [step_of_copyOf_none hcopy l hkept, h]
  | some e =>
      obtain ⟨source, target⟩ := e
      rw [step_eq_of_copyOf durable hcopy]
      cases target with
      | active =>
          rw [get_copy_active (perform_of_copyOf durable hcopy).1 ".archive" l
            (carried_archive durable), stays_archive, if_pos rfl, h]
      | archive n =>
          rcases get_copy_off (hoff n ⟨source, hcopy⟩) with hsame | hmade
          · rw [hsame, h]
          · rw [hmade, get_makeDirs_of_some h]

theorem toString_injective {n m : Nat} (h : toString n = toString m) : n = m := by
  have hdigits : Nat.toDigits 10 n = Nat.toDigits 10 m := String.ofList_injective h
  calc n = Nat.ofDigitChars 10 (Nat.toDigits 10 n) 0 := Nat.ofDigitChars_ten_toDigits.symm
    _ = Nat.ofDigitChars 10 (Nat.toDigits 10 m) 0 := by rw [hdigits]
    _ = m := Nat.ofDigitChars_ten_toDigits

theorem archiveDir_apart {n m : Nat} (h : n ≠ m) :
    Apart (archiveDir dir n) (archiveDir dir m) := by
  have hname : toString n ≠ toString m := fun heq => h (toString_injective heq)
  have hapart := Apart.of_ne (dir ++ [".archive"]) hname
  simpa [archiveDir] using hapart

/-- An archive that is not copied into is the same. -/
theorem step_agree {call : Call} {n : Nat} (hoff : ¬ Writes dir n files call) :
    Paths.Agree (archiveDir dir n) (step durable dir files call) files := by
  rintro p ⟨l, rfl⟩
  have hpath : archiveDir dir n ++ l = dir ++ ".archive" :: toString n :: l := by
    simp [archiveDir]
  cases hcopy : copyOf dir files call with
  | none =>
      have hkept : keptByClear durable ".archive" = true := by
        simp only [keptByClear, stays_archive, Bool.true_or]
      rw [hpath, step_of_copyOf_none hcopy _ hkept]
  | some e =>
      obtain ⟨source, target⟩ := e
      rw [step_eq_of_copyOf durable hcopy]
      cases target with
      | active =>
          rw [hpath, get_copy_active (perform_of_copyOf durable hcopy).1 ".archive" _
            (carried_archive durable), stays_archive, if_pos rfl]
      | archive m =>
          have hne : n ≠ m := by
            rintro rfl
            exact hoff ⟨source, hcopy⟩
          have hnot : ¬ archiveDir dir m <+: archiveDir dir n ++ l :=
            (archiveDir_apart hne).symm.not_below (List.prefix_append _ l)
          rcases get_copy_off hnot with hsame | hmade
          · exact hsame
          · rw [hmade]
            refine get_made ?_ ?_
            · rw [hpath]
              exact item_ne dir _ _
            · rw [Place.inside, List.mem_cons, List.mem_singleton, not_or]
              refine ⟨by simp [archiveDir], fun heq => hnot (heq ▸ List.prefix_rfl)⟩

/-! ### There and back -/

/-- What is carried is in the target as it was in the source when the target had been
emptied. -/
theorem get_copied {source target : Place} (hne : source ≠ target)
    (hdone : (copySessionDir durable dir source target files).2 = true) {x : String}
    (l : List String) (hx : carried durable x = true) :
    (copySessionDir durable dir source target files).1.get (target.path dir ++ x :: l) =
      (Paths.clear (target.path dir) (stays durable)
        (makeDirs (dir :: target.inside dir) files)).get (source.path dir ++ x :: l) := by
  have hstays : stays durable x = false := by
    rw [carried, Bool.and_eq_true] at hx
    simpa using hx.1
  unfold copySessionDir at hdone ⊢
  rw [if_neg hne] at hdone ⊢
  split at hdone
  · cases hdone
  · next hfile =>
      rw [if_neg hfile]
      dsimp only at hdone ⊢
      split at hdone
      · next hsource =>
          rw [if_pos hsource, get_copyInto, if_pos hx, get_clear (target.path dir), hstays,
            if_neg Bool.false_ne_true, Option.or_none]
      · cases hdone

/-- The archive holds what the active directory did. -/
theorem get_archived {n : Nat}
    (hdone : (copySessionDir durable dir .active (.archive n) files).2 = true) {x : String}
    (l : List String) (hx : carried durable x = true) :
    (copySessionDir durable dir .active (.archive n) files).1.get (archiveDir dir n ++ x :: l) =
      files.get (dir ++ x :: l) := by
  have hname : x ≠ ".archive" := by
    rintro rfl
    rw [carried_archive] at hx
    cases hx
  refine (get_copied (by simp) hdone l hx).trans ?_
  rw [Place.path, Place.path, get_clear_of_not_below _ _
    (below_of_not_through (not_through_archive hname n l))]
  refine get_made (item_ne dir x l) ?_
  simp [Place.inside, archiveDir, hname]

/-- The archive is a directory. -/
theorem isDirectory_archived {n : Nat}
    (hdone : (copySessionDir durable dir .active (.archive n) files).2 = true) :
    ((copySessionDir durable dir .active (.archive n) files).1.get (archiveDir dir n)).any
      Node.isDirectory = true := by
  have hself : below (archiveDir dir n) (archiveDir dir n) = false := by simp [below]
  unfold copySessionDir at hdone ⊢
  rw [if_neg (by simp)] at hdone ⊢
  split at hdone
  · cases hdone
  · next hfile =>
      rw [if_neg hfile]
      have hnofile : (files.get (archiveDir dir n)).any Node.isFile = false := by
        rw [Bool.not_eq_true, List.any_eq_false] at hfile
        simpa using hfile (archiveDir dir n) (by simp [Place.inside])
      have hmade : ((makeDirs (dir :: Place.inside dir (.archive n)) files).get
          (archiveDir dir n)).any Node.isDirectory = true := by
        rw [get_makeDirs, if_pos (by simp [Place.inside])]
        cases hget : files.get (archiveDir dir n) with
        | none => rfl
        | some node =>
            rw [hget] at hnofile
            cases node with
            | directory => rfl
            | file content => cases hnofile
      dsimp only
      split
      · rw [Place.path, Place.path, get_copyInto_of_not_below _ _ _ _ _ hself,
          get_clear_of_not_below _ _ hself, hmade]
      · rw [Place.path, get_clear_of_not_below _ _ hself, hmade]

/-- An archive can be copied back, and the active directory holds what it does. -/
theorem restore (durable : List String) {n : Nat}
    (harchive : (files.get (archiveDir dir n)).any Node.isDirectory = true) :
    (copySessionDir durable dir (.archive n) .active files).2 = true ∧
      ∀ x l, carried durable x = true →
        (copySessionDir durable dir (.archive n) .active files).1.get (dir ++ x :: l) =
          files.get (archiveDir dir n ++ x :: l) := by
  have hpath : ∀ l, archiveDir dir n ++ l = dir ++ ".archive" :: toString n :: l := by
    simp [archiveDir]
  have hemptied : ∀ l, (Paths.clear dir (stays durable) (makeDirs [dir] files)).get
      (archiveDir dir n ++ l) = files.get (archiveDir dir n ++ l) := by
    intro l
    rw [hpath, get_clear, stays_archive, if_pos rfl, get_makeDirs, if_neg (by simp)]
  have hdone : (copySessionDir durable dir (.archive n) .active files).2 = true := by
    have hsource : ((Paths.clear (Place.active.path dir) (stays durable)
        (makeDirs (dir :: Place.active.inside dir) files)).get
          (Place.path dir (.archive n))).any Node.isDirectory = true := by
      have hget := hemptied []
      rw [List.append_nil] at hget
      exact (congrArg (Option.any Node.isDirectory) hget).trans harchive
    unfold copySessionDir
    rw [if_neg (by simp), if_neg (by simp [Place.inside]), if_pos hsource]
  refine ⟨hdone, fun x l hx => ?_⟩
  exact (get_copied (by simp) hdone l hx).trans (hemptied (x :: l))

end Steps

/-! ### Runs -/

section Runs

variable {durable : List String} {dir : List String} {files : Files String (Node κ)}
  {calls : List Call}

theorem items_kept (h : Throughout (step durable dir) (Spares durable dir) files calls) :
    ∀ x l, isProtected durable x = true →
      (calls.foldl (step durable dir) files).get (dir ++ x :: l) = files.get (dir ++ x :: l) := by
  refine h.keeps (P := fun t => ∀ x l, isProtected durable x = true →
    t.get (dir ++ x :: l) = files.get (dir ++ x :: l)) (fun _ _ _ => rfl) ?_
  intro s call hs hspares x l hx
  exact ((step_items_iff durable dir s call).mpr hspares x l hx).trans (hs x l hx)

theorem archives_kept {l : List String} {v : Node κ}
    (h : Throughout (step durable dir) (fun s call => ∀ n, Writes dir n s call →
      ¬ archiveDir dir n <+: dir ++ ".archive" :: l) files calls)
    (hv : files.get (dir ++ ".archive" :: l) = some v) :
    (calls.foldl (step durable dir) files).get (dir ++ ".archive" :: l) = some v :=
  h.keeps hv fun _ _ hs hoff => step_archives hoff hs

/-- The archives that nothing is copied into. -/
theorem archive_agrees {n : Nat}
    (h : Throughout (step durable dir) (fun s call => ¬ Writes dir n s call) files calls) :
    Paths.Agree (archiveDir dir n) (calls.foldl (step durable dir) files) files :=
  h.keeps (P := fun t => Paths.Agree (archiveDir dir n) t files) (fun _ _ => rfl)
    fun _ _ hs hoff p hp => (step_agree hoff p hp).trans (hs p hp)

/-- What was copied into an archive comes back, whatever the calls between did. -/
theorem comes_back {call : Call} {later : List Call} {n : Nat}
    (hcopy : copyOf dir files call = some (.active, .archive n))
    (hdone : (perform durable dir files call).2 = true)
    (hlater : Throughout (step durable dir) (fun s call' => ¬ Writes dir n s call')
      (step durable dir files call) later) :
    (perform durable dir (later.foldl (step durable dir) (step durable dir files call))
      (.copy (.archive n) .active)).2 = true ∧
    ∀ x l, carried durable x = true →
      (step durable dir (later.foldl (step durable dir) (step durable dir files call))
        (.copy (.archive n) .active)).get (dir ++ x :: l) = files.get (dir ++ x :: l) := by
  have hagree := archive_agrees hlater
  rw [(perform_of_copyOf durable hcopy).2] at hdone
  have hstep := step_eq_of_copyOf durable hcopy
  have hdirectory : ((later.foldl (step durable dir) (step durable dir files call)).get
      (archiveDir dir n)).any Node.isDirectory = true := by
    rw [hagree _ List.prefix_rfl, hstep]
    exact isDirectory_archived hdone
  obtain ⟨hreturns, hback⟩ := restore durable hdirectory
  refine ⟨hreturns, fun x l hx => (hback x l hx).trans ?_⟩
  rw [hagree _ (List.prefix_append _ _), hstep]
  exact get_archived hdone l hx

end Runs

/-- The calls of every run leave the durable files, the lock files and the archives alone, and
bring back what was archived, if and only if no archive is copied over a lock file. -/
theorem copies_respect_iff (durable : List String) (dir : List String)
    (files : Files String (Node κ)) (calls : List Call) :
    Respected durable dir files calls ↔
      Throughout (step durable dir) (Spares durable dir) files calls := by
  constructor
  · intro h before call hbefore
    refine (step_items_iff durable dir _ call).mp fun x l hx => ?_
    have hafter := h.items (before ++ [call]) hbefore x l hx
    rw [List.foldl_append, List.foldl_cons, List.foldl_nil] at hafter
    exact hafter.trans (h.items before ((List.prefix_append before [call]).trans hbefore) x l hx).symm
  · intro h
    refine ⟨fun earlier hearlier => items_kept (h.earlier hearlier),
      fun earlier _ l v hoff hv => archives_kept hoff hv,
      fun before call later n _ hcopy hdone hlater => ?_⟩
    rw [List.foldl_append, List.foldl_cons, List.foldl_nil] at hlater
    rw [List.foldl_append, List.foldl_cons]
    exact comes_back hcopy hdone hlater

/-- A chat that an instance holds, and an archive of its first session. -/
def heldChat : Files String (Node Nat) :=
  ((((Dict.empty.set ["chat"] .directory).set ["chat", "instance.lock"] (.file 7)).set
    ["chat", ".archive"] .directory).set ["chat", ".archive", "1"] .directory).set
    ["chat", ".archive", "1", "notes.md"] (.file 1)

/-- Resuming the first session deletes the lock file that is held. -/
theorem held_lock_deleted :
    ¬ Respected chatDurableFiles ["chat"] heldChat [.copy (.archive 1) .active] := by
  intro h
  have hlock := h.items [.copy (.archive 1) .active] List.prefix_rfl "instance.lock" [] (by decide)
  have hgone : (step chatDurableFiles ["chat"] heldChat (.copy (.archive 1) .active)).get
      ["chat", "instance.lock"] = none := by decide
  have hheld : heldChat.get ["chat", "instance.lock"] = some (.file 7) := by decide
  cases hgone.symm.trans (hlock.trans hheld)

end Copies
end Sessions
end DiploidAgent
