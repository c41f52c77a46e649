import DiploidAgent.Acp.McpServers
import DiploidAgent.Lib.Paths
import DiploidAgent.Sessions.Workspace

/-!
# The directories of chats

`chat_dir` and `archive_dir` of `runtime/store.py`, the lock files of `runtime/instance.py`
and the event log and memory file of a chat, as files of one disk.  A chat id is no
directory name; `safe_dir_name` makes it one.

Two chats are apart exactly when their ids have different names there that are those of items
(`chats_apart_iff`): then no operation on the one reads or changes anything of the other.

The sessions root is a resolved path, and its directories are no links.
-/

namespace DiploidAgent
namespace Sessions
namespace Directories

open Acp.McpServers Paths

/-! ### Paths -/

/-- `safe_dir_name` on POSIX, of a string. -/
def dirName (chatId : String) : String := String.ofList (safeDirName chatId.toList)

/-- The name is one that no item of a directory has: the directory itself or its parent. -/
def special (name : String) : Bool := name ∈ ["", ".", ".."]

/-- `chat_dir`, with the names that are no items' resolved. -/
def chatDir (root : List String) (chatId : String) : List String :=
  let name := dirName chatId
  if name = ".." then root.dropLast
  else if special name then root
  else root ++ [name]

/-- `archive_dir`. -/
def archiveDir (dir : List String) (sessionNumber : Nat) : List String :=
  dir ++ [".archive", toString sessionNumber]

/-- `_lock_path`. -/
def lockPath (dir : List String) : List String := dir ++ ["instance.lock"]

/-- The files of a chat that are appended to and read back. -/
inductive ChatFile where
  | events
  | memory
deriving DecidableEq

/-- `_events_path` and `memory_path`. -/
def ChatFile.path (dir : List String) : ChatFile → List String
  | .events => dir ++ ["chat_events.jsonl"]
  | .memory => dir ++ ["chat_MEMORY.md"]

/-! ### Operations -/

/-- The files, and those that are locked. -/
structure Disk (κ : Type) where
  files : Files String κ
  locked : List (List String)

/-- What is done to the directory of a chat.  Another live instance may be named in the
lock file. -/
inductive Op (κ : Type) where
  | archive (sessionNumber : Nat)
  | clear
  | prune (sessionNumber : Nat)
  | acquire (foreign : κ → Bool) (entry : κ)
  | release (blank : κ)
  | append (file : ChatFile) (write : Option κ → κ)
  | read (file : ChatFile)

/-- What an operation answers. -/
inductive Answer (κ : Type) where
  | done
  | acquired (yes : Bool)
  | content (c : Option κ)
deriving DecidableEq

section Operations

variable {κ : Type} (durable : List String) (dir : List String)

/-- `archive_active_session`. -/
def archiveActiveSession (n : Nat) (files : Files String κ) : Files String κ :=
  if files.entries.any fun e => below dir e.1 then
    copyInto dir (archiveDir dir n) (carried durable) files
      (clear (archiveDir dir n) (stays durable) files)
  else files

/-- `clear_active_session`. -/
def clearActiveSession (files : Files String κ) : Files String κ :=
  clear dir (keptByClear durable) files

/-- `prune_chat` of one session. -/
def pruneSession (n : Nat) (files : Files String κ) : Files String κ :=
  clear (archiveDir dir n) (fun _ => false) files

/-- `acquire` of a chat that this process does not hold. -/
def acquire (foreign : κ → Bool) (entry : κ) (s : Disk κ) : Disk κ × Bool :=
  if lockPath dir ∈ s.locked then (s, false)
  else if (s.files.get (lockPath dir)).any foreign then (s, false)
  else
    ({ files := s.files.set (lockPath dir) entry
       locked := lockPath dir :: s.locked }, true)

/-- `release`. -/
def release (blank : κ) (s : Disk κ) : Disk κ where
  files := s.files.set (lockPath dir) blank
  locked := s.locked.filter fun p => p ≠ lockPath dir

/-- An operation on the chat of the directory. -/
def perform (s : Disk κ) : Op κ → Disk κ × Answer κ
  | .archive n => ({ s with files := archiveActiveSession durable dir n s.files }, .done)
  | .clear => ({ s with files := clearActiveSession durable dir s.files }, .done)
  | .prune n => ({ s with files := pruneSession dir n s.files }, .done)
  | .acquire foreign entry =>
      ((acquire dir foreign entry s).1, .acquired (acquire dir foreign entry s).2)
  | .release blank => (release dir blank s, .done)
  | .append file write =>
      ({ s with files := s.files.set (file.path dir) (write (s.files.get (file.path dir))) }, .done)
  | .read file => (s, .content (s.files.get (file.path dir)))

end Operations

/-! ### Isolation -/

/-- The disks are the same but for what the directory holds. -/
structure SameOff {κ : Type} (dir : List String) (s s' : Disk κ) : Prop where
  files : AgreeOff dir s.files s'.files
  locked : ∀ p, ¬ dir <+: p → (p ∈ s.locked ↔ p ∈ s'.locked)

/-- The directories of two chats. -/
structure Disjoint (d d' : List String) : Prop where
  dirs : Apart d d'
  inArchive : ∀ n, Apart (archiveDir d n) d' ∧ Apart d (archiveDir d' n)
  archives : ∀ n m, Apart (archiveDir d n) (archiveDir d' m)
  locks : lockPath d ≠ lockPath d'
  logs : ∀ f f' : ChatFile, f.path d ≠ f'.path d'

/-- An operation on the first chat changes nothing of the second, and answers and does the
same whatever the second one holds. -/
structure Unaffected (κ : Type) (durable : List String) (d d' : List String) : Prop where
  unchanged : ∀ (s : Disk κ) op, ∀ p, d' <+: p →
    (perform durable d s op).1.files.get p = s.files.get p ∧
      (p ∈ (perform durable d s op).1.locked ↔ p ∈ s.locked)
  unread : ∀ (s s' : Disk κ) op, SameOff d' s s' →
    (perform durable d s op).2 = (perform durable d s' op).2 ∧
      SameOff d' (perform durable d s op).1 (perform durable d s' op).1

/-- The chats are isolated on disk. -/
structure Isolated (κ : Type) (root durable : List String) (a b : String) : Prop where
  paths : Disjoint (chatDir root a) (chatDir root b)
  first : Unaffected κ durable (chatDir root a) (chatDir root b)
  second : Unaffected κ durable (chatDir root b) (chatDir root a)

/-- The ids have different directory names, those of items. -/
structure Separate (a b : String) : Prop where
  ne : dirName a ≠ dirName b
  left : special (dirName a) = false
  right : special (dirName b) = false

/-! ### What an operation touches -/

section Touch

variable {κ : Type} {durable : List String} {d p : List String}

theorem prefix_archiveDir (d : List String) (n : Nat) : d <+: archiveDir d n :=
  List.prefix_append d _

theorem prefix_lockPath (d : List String) : d <+: lockPath d := List.prefix_append d _

theorem prefix_path (d : List String) (file : ChatFile) : d <+: file.path d := by
  cases file with
  | events => exact List.prefix_append d _
  | memory => exact List.prefix_append d _

theorem ne_of_outside {q : List String} (hq : d <+: q) (hp : ¬ d <+: p) : q ≠ p :=
  fun h => hp (h ▸ hq)

theorem get_archive_off (files : Files String κ) (n : Nat) (hp : ¬ d <+: p) :
    (archiveActiveSession durable d n files).get p = files.get p := by
  have hbelow := below_off (prefix_archiveDir d n) hp
  unfold archiveActiveSession
  split
  · rw [get_copyInto_of_not_below _ _ _ _ _ hbelow, get_clear_of_not_below _ _ hbelow]
  · rfl

/-- Nothing outside the directory changes. -/
theorem perform_off (s : Disk κ) (op : Op κ) (hp : ¬ d <+: p) :
    (perform durable d s op).1.files.get p = s.files.get p ∧
      (p ∈ (perform durable d s op).1.locked ↔ p ∈ s.locked) := by
  have hlock : lockPath d ≠ p := ne_of_outside (prefix_lockPath d) hp
  cases op with
  | archive n => exact ⟨get_archive_off s.files n hp, Iff.rfl⟩
  | clear => exact ⟨get_clear_of_not_below _ _ (below_off List.prefix_rfl hp), Iff.rfl⟩
  | prune n =>
      exact ⟨get_clear_of_not_below _ _ (below_off (prefix_archiveDir d n) hp), Iff.rfl⟩
  | acquire foreign entry =>
      simp only [perform, acquire]
      split
      · exact ⟨rfl, Iff.rfl⟩
      · split
        · exact ⟨rfl, Iff.rfl⟩
        · refine ⟨Dict.get_set_of_ne _ hlock entry, ?_⟩
          rw [List.mem_cons, or_iff_right hlock.symm]
  | release blank =>
      refine ⟨Dict.get_set_of_ne _ hlock blank, ?_⟩
      simp [perform, release, hlock.symm]
  | append file write =>
      exact ⟨Dict.get_set_of_ne _ (ne_of_outside (prefix_path d file) hp) _, Iff.rfl⟩
  | read file => exact ⟨rfl, Iff.rfl⟩

/-- The disks hold the same in the directory. -/
structure Same (d : List String) (s s' : Disk κ) : Prop where
  files : Paths.Agree d s.files s'.files
  locked : ∀ p, d <+: p → (p ∈ s.locked ↔ p ∈ s'.locked)

theorem agree_archive {files files' : Files String κ} (h : Paths.Agree d files files') (n : Nat) :
    Paths.Agree d (archiveActiveSession durable d n files) (archiveActiveSession durable d n files') := by
  unfold archiveActiveSession
  rw [h.any_below]
  split
  · exact h.copyInto (h.clear _) List.prefix_rfl _
  · exact h

/-- What an operation answers, and does in the directory, is decided there. -/
theorem perform_same {s s' : Disk κ} (h : Same d s s') (op : Op κ) :
    (perform durable d s op).2 = (perform durable d s' op).2 ∧
      Same d (perform durable d s op).1 (perform durable d s' op).1 := by
  have hlock := h.locked (lockPath d) (prefix_lockPath d)
  have hentry := h.files (lockPath d) (prefix_lockPath d)
  cases op with
  | archive n => exact ⟨rfl, ⟨agree_archive h.files n, h.locked⟩⟩
  | clear => exact ⟨rfl, ⟨h.files.clear _, h.locked⟩⟩
  | prune n => exact ⟨rfl, ⟨h.files.clear _, h.locked⟩⟩
  | acquire foreign entry =>
      simp only [perform, acquire, hlock, hentry]
      split
      · exact ⟨rfl, h⟩
      · split
        · exact ⟨rfl, h⟩
        · refine ⟨rfl, ⟨h.files.set entry, fun p hp => ?_⟩⟩
          rw [List.mem_cons, List.mem_cons, h.locked p hp]
  | release blank =>
      refine ⟨rfl, ⟨h.files.set blank, fun p hp => ?_⟩⟩
      simp only [perform, release, List.mem_filter, h.locked p hp]
  | append file write =>
      have hold := h.files (file.path d) (prefix_path d file)
      refine ⟨rfl, ⟨?_, h.locked⟩⟩
      simp only [perform, hold]
      exact h.files.set _
  | read file => exact ⟨congrArg Answer.content (h.files _ (prefix_path d file)), h⟩

end Touch

/-! ### Isolation proved -/

/-- Directories that are apart have nothing in common. -/
theorem disjoint_of_apart {d d' : List String} (h : Apart d d') : Disjoint d d' where
  dirs := h
  inArchive := fun n => by
    have hleft := h.append [".archive", toString n] []
    have hright := h.append [] [".archive", toString n]
    rw [List.append_nil] at hleft hright
    exact ⟨hleft, hright⟩
  archives := fun n m => h.append _ _
  locks := (h.append _ _).ne
  logs := fun f f' => by
    cases f <;> cases f' <;> exact (h.append _ _).ne

theorem unaffected_of_apart (κ : Type) (durable : List String) {d d' : List String}
    (h : Apart d d') : Unaffected κ durable d d' where
  unchanged := fun s op p hp => perform_off s op (h.not_below hp)
  unread := fun s s' op hsame => by
    have hown : Same d s s' :=
      ⟨agree_of_off h hsame.files, fun p hp => hsame.locked p (h.symm.not_below hp)⟩
    obtain ⟨hanswer, hafter⟩ := @perform_same κ durable d s s' hown op
    refine ⟨hanswer, fun p hp => ?_, fun p hp => ?_⟩
    · by_cases hd : d <+: p
      · exact hafter.files p hd
      · rw [(perform_off s op hd).1, (perform_off s' op hd).1]
        exact hsame.files p hp
    · by_cases hd : d <+: p
      · exact hafter.locked p hd
      · rw [(perform_off s op hd).2, (perform_off s' op hd).2]
        exact hsame.locked p hp

theorem chatDir_of_item {chatId : String} (root : List String)
    (h : special (dirName chatId) = false) : chatDir root chatId = root ++ [dirName chatId] := by
  have hparent : dirName chatId ≠ ".." := fun heq => by simp [heq, special] at h
  simp [chatDir, hparent, h]

/-- A directory of a name that is no item's is the root or its parent. -/
theorem chatDir_of_special {chatId : String} (root : List String)
    (h : special (dirName chatId) = true) :
    chatDir root chatId = root ∨ chatDir root chatId = root.dropLast := by
  by_cases hparent : dirName chatId = ".."
  · exact Or.inr (by simp [chatDir, hparent])
  · exact Or.inl (by simp [chatDir, hparent, h])

theorem chatDir_cases (root : List String) (chatId : String) :
    chatDir root chatId = root ∨ chatDir root chatId = root.dropLast ∨
      chatDir root chatId = root ++ [dirName chatId] := by
  cases h : special (dirName chatId) with
  | true => exact (chatDir_of_special root h).imp id .inl
  | false => exact .inr (.inr (chatDir_of_item root h))

/-- Such a directory is never apart from another one. -/
theorem not_apart_of_special {a : String} (root : List String) (b : String)
    (h : special (dirName a) = true) : ¬ Apart (chatDir root a) (chatDir root b) := by
  have hparent : root.dropLast <+: root := List.dropLast_prefix root
  have hitem : root <+: root ++ [dirName b] := List.prefix_append root _
  intro hapart
  rcases chatDir_of_special root h with ha | ha
  · rw [ha] at hapart
    rcases chatDir_cases root b with hb | hb | hb
    · exact hapart.ne hb.symm
    · rw [hb] at hapart
      exact hapart.right hparent
    · rw [hb] at hapart
      exact hapart.left hitem
  · rw [ha] at hapart
    rcases chatDir_cases root b with hb | hb | hb
    · rw [hb] at hapart
      exact hapart.left hparent
    · exact hapart.ne hb.symm
    · rw [hb] at hapart
      exact hapart.left (hparent.trans hitem)

/-- The directories are apart exactly when the names are those of different items. -/
theorem apart_iff (root : List String) (a b : String) :
    Apart (chatDir root a) (chatDir root b) ↔ Separate a b := by
  constructor
  · intro h
    have ha : special (dirName a) = false := by
      rw [← Bool.not_eq_true]
      exact fun ha => not_apart_of_special root b ha h
    have hb : special (dirName b) = false := by
      rw [← Bool.not_eq_true]
      exact fun hb => not_apart_of_special root a hb h.symm
    refine ⟨fun hname => h.ne ?_, ha, hb⟩
    rw [chatDir_of_item root ha, chatDir_of_item root hb, hname]
  · rintro ⟨hne, ha, hb⟩
    rw [chatDir_of_item root ha, chatDir_of_item root hb]
    exact Apart.of_ne root hne

/-- **Isolation on disk.**  The directories of two chats, with their archives, lock files,
event logs and memory files, are apart, and no operation on the one reads or changes anything
of the other, exactly when the ids have different names after `safe_dir_name` and neither
name is empty, `.` or `..`. -/
theorem chats_apart_iff (κ : Type) (root durable : List String) (a b : String) :
    Isolated κ root durable a b ↔ Separate a b := by
  rw [← apart_iff root]
  constructor
  · exact fun h => h.paths.dirs
  · exact fun h => ⟨disjoint_of_apart h, unaffected_of_apart κ durable h,
      unaffected_of_apart κ durable h.symm⟩

/-- Two ids of one directory: to clear the one clears the notes of the other. -/
theorem cleared_together :
    "team/a" ≠ "team_a" ∧
      ¬ Isolated String ["srv", "sessions"] chatDurableFiles "team/a" "team_a" ∧
      (perform chatDurableFiles (chatDir ["srv", "sessions"] "team/a")
        { files := Dict.empty.set ["srv", "sessions", "team_a", "notes.md"] "kept"
          locked := [] } .clear).1.files.entries = [] := by
  refine ⟨by decide, fun h => ?_, by decide⟩
  exact h.paths.dirs.ne (by decide)

end Directories
end Sessions
end DiploidAgent
