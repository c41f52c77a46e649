import DiploidAgent.Lib.FileTrees
import DiploidAgent.Lib.Runs

/-!
# Snapshots of plugin states

`_snapshot_plugin_states` and `_restore_plugin_states` of `runtime/plugins.py` on the
directory of a chat.  The snapshots of all state files lie in one directory, under the text of
the configured `state_file` with a suffix, and are found again by their file names.

Neither raises, and a restore leaves the newer content of every durable file, in a run in which
the state files that are found have plain names (`restores_newest`).
-/

namespace DiploidAgent
namespace Plugins
namespace StateSnapshots

open FileTrees Paths Runs

variable {κ : Type}

/-! ### Names -/

/-- A relative path as the text of a `state_file`, cut at the slashes. -/
structure StateFile where
  front : List String
  last : String
  relative : (front ++ [last]).head? ≠ some ""
deriving DecidableEq

/-- The names on a path that `pathlib` keeps. -/
def pathParts (names : List String) : List String := names.filter (· ∉ ["", "."])

/-- The names of the file in the chat's directory. -/
def StateFile.parts (n : StateFile) : List String := pathParts (n.front ++ [n.last])

/-- The names of its snapshot in the directory of the snapshots. -/
def StateFile.snapshotParts (n : StateFile) : List String :=
  pathParts (n.front ++ [n.last ++ ".snapshot"])

/-- `_BODY_STATE_FILES`. -/
def bodyStateFiles : List StateFile :=
  [⟨[], "chat_body_state.json", by decide⟩, ⟨[], "body_state.json", by decide⟩,
    ⟨[], "body.json", by decide⟩]

/-- `Path.stem` of a file name. -/
def stem (name : String) : String :=
  let front := (name.toList.reverse.dropWhile (· ≠ '.')).reverse
  if 1 < front.length ∧ front.length < name.length then String.ofList front.dropLast else name

/-- The text is that of a name of the set. -/
def isDurable (names : List StateFile) (text : String) : Bool :=
  names.any fun n => n.front = [] ∧ n.last = text

def snapshotDir (dir : List String) : List String := dir ++ [".snapshots"]

/-! ### Saving and restoring -/

section Functions

variable (dir : List String)

/-- A file of the set is saved if it exists. -/
def saveState (n : StateFile) (t : FileTree κ) : FileTree κ × Option Errno :=
  if (lookup t dir n.parts).isSome then
    copy2 t ((resolve t dir n.parts).getD []) (resolve t (snapshotDir dir) n.snapshotParts)
  else (t, none)

/-- `_snapshot_plugin_states`, for an order of the set. -/
def snapshotPluginStates (order : List StateFile) (t : FileTree κ) : FileTree κ × Option Errno :=
  if [dir, snapshotDir dir].any fun p => (t.get p).any Node.isFile then (t, some .exists)
  else forEach (saveState dir) order (makeDirs [dir, snapshotDir dir] t)

/-- `st_mtime`; that of a directory is not in the tree. -/
def mtime (dirTime : List String → Nat) (p : List String) : Node (Stamped κ) → Nat
  | .directory => dirTime p
  | .file f => f.mtime

/-- The live file is as new as the snapshot. -/
def liveNewer (dirTime : List String → Nat) (source : List String)
    (target : Option (List String)) (t : FileTree κ) : Bool :=
  (target.bind t.get).any fun node =>
    (t.get source).any fun saved =>
      mtime dirTime source saved ≤ mtime dirTime (target.getD []) node

/-- A snapshot is restored, or left out. -/
def restoreState (names : List StateFile) (dirTime : List String → Nat) (snapshot : String)
    (t : FileTree κ) : FileTree κ × Option Errno :=
  let filename := stem snapshot
  if isDurable names filename then
    let source := snapshotDir dir ++ [snapshot]
    let target := resolve t dir (pathParts [filename])
    if liveNewer dirTime source target t then (t, none) else copy2 t source target
  else (t, none)

/-- `_restore_plugin_states`, for an order in which the snapshots are found. -/
def restorePluginStates (names : List StateFile) (dirTime : List String → Nat)
    (order : List String) (t : FileTree κ) : FileTree κ × Option Errno :=
  if (t.get (snapshotDir dir)).isSome then forEach (restoreState dir names dirTime) order t
  else (t, none)

end Functions

/-! ### Runs -/

/-- The files of a chat, the configured state files, and the time of the last write. -/
structure Disk (κ : Type) where
  tree : FileTree κ
  configured : List StateFile
  clock : Nat

/-- The current durable set. -/
def Disk.names (s : Disk κ) : List StateFile := s.configured ++ bodyStateFiles

/-- A directory is made, a file is written or deleted; the plugins change; the states are
saved and restored. -/
inductive Op (κ : Type) where
  | mkdir (p : List String)
  | write (p : List String) (content : κ) (time : Nat)
  | delete (p : List String)
  | configure (names : List StateFile)
  | snapshot (order : List StateFile)
  | restore (order : List String) (dirTime : List String → Nat)

section Steps

variable (dir : List String)

def step (s : Disk κ) : Op κ → Disk κ
  | .mkdir p => { s with tree := s.tree.set p .directory }
  | .write p content time => { s with tree := s.tree.set p (.file ⟨content, time⟩), clock := time }
  | .delete p => { s with tree := s.tree.erase p }
  | .configure names => { s with configured := names }
  | .snapshot order => { s with tree := (snapshotPluginStates dir order s.tree).1 }
  | .restore order dirTime =>
      { s with tree := (restorePluginStates dir s.names dirTime order s.tree).1 }

/-- What can happen: files are written later than all before, and the sets are gone through in
any order. -/
def Possible (s : Disk κ) : Op κ → Prop
  | .mkdir p => dir <+: p ∧ s.tree.get p = none
  | .write p _ time => below dir p = true ∧ isDir s.tree p = false ∧ s.clock < time
  | .delete p => dir <+: p ∧ isDir s.tree p = false
  | .configure _ => True
  | .snapshot order => ∀ n, n ∈ order ↔ n ∈ s.names
  | .restore order _ =>
      order.Nodup ∧ ∀ name, name ∈ order ↔
        (s.tree.get (snapshotDir dir ++ [name])).isSome = true ∧
          ".snapshot".toList <:+ name.toList

/-! ### What snapshots are for -/

/-- The live file of a name, and its snapshot. -/
def live (t : FileTree κ) (n : StateFile) : Option (Node (Stamped κ)) := lookup t dir n.parts

def saved (t : FileTree κ) (n : StateFile) : Option (Node (Stamped κ)) :=
  lookup t (snapshotDir dir) n.snapshotParts

/-- A restore leaves the newer content of every durable file, and the other files. -/
structure Restored (names : List StateFile) (t t' : FileTree κ) : Prop where
  kept : ∀ p f, t.get p = some (.file f) →
    ∃ f', t'.get p = some (.file f') ∧ f.mtime ≤ f'.mtime
  touched : ∀ p, t'.get p ≠ t.get p → ∃ n ∈ names, resolve t dir n.parts = some p
  newest : ∀ n ∈ names, (live dir t n).isSome = true ∨ (saved dir t n).isSome = true →
    ∃ f, live dir t' n = some (.file f) ∧
      (live dir t n = some (.file f) ∨ saved dir t n = some (.file f)) ∧
      ∀ g, live dir t n = some (.file g) ∨ saved dir t n = some (.file g) → g.mtime ≤ f.mtime

/-- A file name, and not that of the directory of the snapshots. -/
def StateFile.Plain (n : StateFile) : Prop :=
  n.front = [] ∧ n.last ∉ [".", "..", ".snapshots"]

/-- The name has a live file or a snapshot, or leads to the directory of the snapshots. -/
def Found (t : FileTree κ) (n : StateFile) : Prop :=
  (live dir t n).isSome = true ∨ (saved dir t n).isSome = true ∨
    (resolve t dir n.parts).any (fun p => snapshotDir dir <+: p) = true

/-- The names that are found are plain, and those of files. -/
def PlainNames (t : FileTree κ) (names : List StateFile) : Prop :=
  ∀ n ∈ names, Found dir t n → n.Plain ∧ live dir t n ≠ some .directory

instance (n : StateFile) : Decidable n.Plain := inferInstanceAs (Decidable (_ ∧ _))

instance (t : FileTree κ) (n : StateFile) : Decidable (Found dir t n) :=
  inferInstanceAs (Decidable (_ ∨ _ ∨ _))

instance [DecidableEq κ] (t : FileTree κ) (names : List StateFile) :
    Decidable (PlainNames dir t names) :=
  inferInstanceAs
    (Decidable (∀ n ∈ names, Found dir t n → n.Plain ∧ live dir t n ≠ some .directory))

/-- Nothing is written into the directory of the snapshots, and the states are saved and
restored under plain names. -/
def Plainly (s : Disk κ) : Op κ → Prop
  | .mkdir p => ¬ snapshotDir dir <+: p
  | .write p _ _ => ¬ snapshotDir dir <+: p
  | .delete _ => True
  | .configure _ => True
  | .snapshot _ => PlainNames dir (makeDirs [dir, snapshotDir dir] s.tree) s.names
  | .restore _ _ => PlainNames dir s.tree s.names

end Steps

/-! ### Names of snapshots -/

section Names

variable {n : StateFile} {x : String} {names : List StateFile}

theorem pathParts_singleton
    (hx : x ≠ "") (hdot : x ≠ ".") :
    pathParts [x] = [x] := by
  simp [pathParts, hx, hdot]

/-- The name of a snapshot is a file name. -/
theorem snapshotName_plain
    (x : String) :
    x ++ ".snapshot" ≠ "" ∧ x ++ ".snapshot" ≠ "." ∧ x ++ ".snapshot" ≠ ".." := by
  have hlength : (x ++ ".snapshot").length = x.length + 9 := by
    rw [String.length_append]
    rfl
  refine ⟨?_, ?_, ?_⟩
  · intro heq
    rw [heq, String.length_empty] at hlength
    omega
  · intro heq
    have hdot : (x ++ ".snapshot").length = 1 := congrArg String.length heq
    omega
  · intro heq
    have hdots : (x ++ ".snapshot").length = 2 := congrArg String.length heq
    omega

/-- A snapshot is found again under the text it was saved under. -/
theorem stem_append
    (hx : x ≠ "") :
    stem (x ++ ".snapshot") = x := by
  have hpos : 0 < x.toList.length := by
    rw [List.length_pos_iff]
    intro hnil
    exact hx (String.toList_inj.mp hnil)
  have hfront : ((x ++ ".snapshot").toList.reverse.dropWhile (· ≠ '.')).reverse =
      x.toList ++ ['.'] := by
    rw [String.toList_append, List.reverse_append]
    have hsuffix : ".snapshot".toList.reverse = ['t', 'o', 'h', 's', 'p', 'a', 'n', 's', '.'] := by
      decide
    rw [hsuffix]
    simp
  have hlength : (x ++ ".snapshot").length = x.toList.length + 9 := by
    rw [String.length_append, String.length_toList]
    rfl
  rw [stem, hfront, if_pos, List.dropLast_concat, String.ofList_toList]
  rw [hlength, List.length_append, List.length_singleton]
  omega

theorem isDurable_iff :
    isDurable names x = true ↔ ∃ n ∈ names, n.front = [] ∧ n.last = x := by
  simp [isDurable]

namespace StateFile.Plain

theorem ne_empty
    (h : n.Plain) :
    n.last ≠ "" := by
  have hrelative := n.relative
  rw [h.1] at hrelative
  simpa using hrelative

theorem parts_eq
    (h : n.Plain) :
    n.parts = [n.last] := by
  have hnot := h.2
  simp only [List.mem_cons, List.not_mem_nil, or_false, not_or] at hnot
  rw [StateFile.parts, h.1, List.nil_append, pathParts_singleton h.ne_empty hnot.1]

theorem snapshotParts_eq
    (h : n.Plain) :
    n.snapshotParts = [n.last ++ ".snapshot"] := by
  obtain ⟨hempty, hdot, -⟩ := snapshotName_plain n.last
  rw [StateFile.snapshotParts, h.1, List.nil_append, pathParts_singleton hempty hdot]

variable {dir : List String} {t : FileTree κ}

theorem resolve_parts
    (h : n.Plain) (hdir : isDir t dir = true) :
    resolve t dir n.parts = some (dir ++ [n.last]) := by
  have hnot := h.2
  simp only [List.mem_cons, List.not_mem_nil, or_false, not_or] at hnot
  rw [h.parts_eq, resolve_singleton hdir hnot.2.1]

theorem resolve_snapshotParts
    (h : n.Plain) (hsnaps : isDir t (snapshotDir dir) = true) :
    resolve t (snapshotDir dir) n.snapshotParts =
      some (snapshotDir dir ++ [n.last ++ ".snapshot"]) := by
  rw [h.snapshotParts_eq, resolve_singleton hsnaps (snapshotName_plain n.last).2.2]

/-- The live file is not in the directory of the snapshots. -/
theorem not_inside
    (h : n.Plain) :
    ¬ snapshotDir dir <+: dir ++ [n.last] := by
  have hnot := h.2
  simp only [List.mem_cons, List.not_mem_nil, or_false, not_or] at hnot
  intro hp
  rw [snapshotDir, List.prefix_append_right_inj, List.cons_prefix_cons] at hp
  exact hnot.2.2 hp.1.symm

end StateFile.Plain

end Names

/-! ### Saving -/

/-- The directory of the snapshots holds snapshots only. -/
def Flat (dir : List String) (t : FileTree κ) : Prop :=
  ∀ p node, below (snapshotDir dir) p = true → t.get p = some node →
    ∃ x f, x ≠ "" ∧ p = snapshotDir dir ++ [x ++ ".snapshot"] ∧ node = .file f

section Saving

variable {dir : List String} {t t' : FileTree κ} {names order : List StateFile}

theorem flat_of_agree
    (h : Flat dir t) (hsame : ∀ p, below (snapshotDir dir) p = true → t'.get p = t.get p) :
    Flat dir t' := by
  intro p node hp hnode
  exact h p node hp ((hsame p hp).symm.trans hnode)

theorem snapshotDir_below
    (dir : List String) (x : String) :
    below (snapshotDir dir) (snapshotDir dir ++ [x]) = true :=
  below_append_cons _ x []

theorem isDir_of_flat
    (h : Flat dir t) {p : List String} (hp : below (snapshotDir dir) p = true) :
    isDir t p = false := by
  rw [Bool.eq_false_iff, Ne, isDir_iff]
  intro hdirectory
  obtain ⟨x, f, -, -, hfile⟩ := h p _ hp hdirectory
  cases hfile

theorem flat_set
    (h : Flat dir t) {x : String} (hx : x ≠ "") (f : Stamped κ) :
    Flat dir (t.set (snapshotDir dir ++ [x ++ ".snapshot"]) (.file f)) := by
  intro p node hp hnode
  rw [Dict.get_set] at hnode
  split_ifs at hnode with heq
  · exact ⟨x, f, hx, heq.symm, (Option.some.inj hnode).symm⟩
  · exact h p node hp hnode

/-- The files of names that are found plainly, also when they lead to the snapshots. -/
def Savable (dir : List String) (t : FileTree κ) (names : List StateFile) : Prop :=
  ∀ n ∈ names, ∀ p, resolve t dir n.parts = some p →
    (t.get p).isSome = true ∨ snapshotDir dir <+: p →
    n.Plain ∧ t.get p ≠ some .directory

/-- Saving raises nothing, and changes nothing outside the directory of the snapshots. -/
theorem saveEach_spec
    (hdir : isDir t dir = true) (hsnaps : isDir t (snapshotDir dir) = true) (hflat : Flat dir t)
    (hnames : Savable dir t names) :
    (forEach (saveState dir) names t).2 = none ∧ Flat dir (forEach (saveState dir) names t).1 ∧
      ∀ p, below (snapshotDir dir) p = false →
        (forEach (saveState dir) names t).1.get p = t.get p := by
  induction names generalizing t with
  | nil => exact ⟨rfl, hflat, fun _ _ => rfl⟩
  | cons n names ih =>
      obtain ⟨hn, hrest⟩ := List.forall_mem_cons.mp hnames
      cases hlive : lookup t dir n.parts with
      | none =>
          have hstep : saveState dir n t = (t, none) := by
            rw [saveState, hlive]
            rfl
          rw [forEach_cons hstep]
          exact ih hdir hsnaps hflat hrest
      | some node =>
          obtain ⟨p, hp, hget⟩ := Option.bind_eq_some_iff.mp hlive
          obtain ⟨hplain, hfile⟩ := hn p hp (Or.inl (by rw [hget]; rfl))
          obtain rfl : dir ++ [n.last] = p :=
            Option.some.inj ((hplain.resolve_parts hdir).symm.trans hp)
          have hbelow := snapshotDir_below dir (n.last ++ ".snapshot")
          have hfree := isDir_of_flat hflat hbelow
          have hne : dir ++ [n.last] ≠ snapshotDir dir ++ [n.last ++ ".snapshot"] := by
            intro heq
            have hlength := congrArg List.length heq
            simp [snapshotDir] at hlength
          cases node with
          | directory => exact absurd hget hfile
          | file f =>
              have hstep : saveState dir n t =
                  (t.set (snapshotDir dir ++ [n.last ++ ".snapshot"]) (.file f), none) := by
                rw [saveState, hlive, Option.isSome_some, if_pos rfl, hp, Option.getD_some,
                  hplain.resolve_snapshotParts hsnaps, copy2_file hne hget hfree]
              rw [forEach_cons hstep]
              -- the copy is in the directory of the snapshots, and makes no directory
              have hsame : ∀ p, isDir (t.set _ (.file f)) p = isDir t p :=
                isDir_set (f := f) hfree
              have hsavable : Savable dir
                  (t.set (snapshotDir dir ++ [n.last ++ ".snapshot"]) (.file f)) names := by
                intro n' hn' p' hp' hfound
                rw [resolve_congr hsame] at hp'
                rw [Dict.get_set] at hfound ⊢
                by_cases heq : snapshotDir dir ++ [n.last ++ ".snapshot"] = p'
                · subst heq
                  rw [if_pos rfl]
                  exact ⟨(hrest n' hn' _ hp' (Or.inr (List.prefix_append _ _))).1, by simp⟩
                · rw [if_neg heq] at hfound ⊢
                  exact hrest n' hn' p' hp' hfound
              obtain ⟨herror, hflat', hframe⟩ := ih (by rw [hsame, hdir]) (by rw [hsame, hsnaps])
                (flat_set hflat hplain.ne_empty f) hsavable
              refine ⟨herror, hflat', fun p hp => ?_⟩
              rw [hframe p hp, Dict.get_set_of_ne]
              rintro rfl
              rw [hbelow] at hp
              cases hp

end Saving

/-! ### Restoring -/

/-- The newer of what is live and a snapshot; of one age, what is live. -/
def newer : Option (Node (Stamped κ)) → Stamped κ → Stamped κ
  | some (.file f), g => if g.mtime ≤ f.mtime then f else g
  | _, g => g

section Restoring

variable {dir : List String} {t t' : FileTree κ} {names : List StateFile} {n : StateFile}
  {order : List String} {dirTime : List String → Nat} {f g : Stamped κ}

/-- The file of a name of the set, for its snapshot. -/
theorem restoreState_spec
    (dirTime : List String → Nat) (hdir : isDir t dir = true) (hn : n ∈ names) (hplain : n.Plain)
    (hlive : t.get (dir ++ [n.last]) ≠ some .directory)
    (hsaved : t.get (snapshotDir dir ++ [n.last ++ ".snapshot"]) = some (.file g)) :
    ∃ t', restoreState dir names dirTime (n.last ++ ".snapshot") t = (t', none) ∧
      t'.get (dir ++ [n.last]) = some (.file (newer (t.get (dir ++ [n.last])) g)) ∧
      (∀ p, p ≠ dir ++ [n.last] → t'.get p = t.get p) ∧ ∀ p, isDir t' p = isDir t p := by
  have hdurable : isDurable names n.last = true := isDurable_iff.mpr ⟨n, hn, hplain.1, rfl⟩
  have htarget : resolve t dir (pathParts [n.last]) = some (dir ++ [n.last]) := by
    have hresolve := hplain.resolve_parts hdir
    rwa [StateFile.parts, hplain.1, List.nil_append] at hresolve
  have hne : snapshotDir dir ++ [n.last ++ ".snapshot"] ≠ dir ++ [n.last] := by
    intro heq
    have hlength := congrArg List.length heq
    simp [snapshotDir] at hlength
  have hfree : isDir t (dir ++ [n.last]) = false := by
    rw [Bool.eq_false_iff, Ne, isDir_iff]
    exact hlive
  have hcopied : ∀ p, p ≠ dir ++ [n.last] →
      (t.set (dir ++ [n.last]) (.file g)).get p = t.get p :=
    fun p hp => Dict.get_set_of_ne t hp.symm _
  rw [restoreState, stem_append hplain.ne_empty]
  dsimp only
  rw [if_pos hdurable, htarget, copy2_file hne hsaved hfree, liveNewer, Option.bind_some, hsaved]
  cases hget : t.get (dir ++ [n.last]) with
  | none => exact ⟨_, rfl, Dict.get_set_self t _ _, hcopied, isDir_set hfree⟩
  | some node =>
      cases node with
      | directory => exact absurd hget hlive
      | file f =>
          by_cases hnewer : g.mtime ≤ f.mtime
          · refine ⟨t, ?_, ?_, fun _ _ => rfl, fun _ => rfl⟩
            · exact if_pos (decide_eq_true hnewer)
            · rw [newer, if_pos hnewer, hget]
          · refine ⟨_, if_neg fun h => hnewer (of_decide_eq_true h), ?_, hcopied, isDir_set hfree⟩
            rw [newer, if_neg hnewer]
            exact Dict.get_set_self t _ _

/-- The names with snapshots are plain, and those of files. -/
def Restorable (dir : List String) (t : FileTree κ) (names : List StateFile) : Prop :=
  ∀ n ∈ names, n.front = [] → (t.get (snapshotDir dir ++ [n.last ++ ".snapshot"])).isSome = true →
    n.Plain ∧ t.get (dir ++ [n.last]) ≠ some .directory

theorem snapshotName_inj
    {x y : String} (hx : x ≠ "") (hy : y ≠ "") (h : x ++ ".snapshot" = y ++ ".snapshot") :
    x = y := by
  rw [← stem_append hx, h, stem_append hy]

/-- Restoring raises nothing, leaves the newer content of each file of the set that has a
snapshot, and changes no other. -/
theorem restoreEach_spec
    (dirTime : List String → Nat) (hdir : isDir t dir = true) (hflat : Flat dir t)
    (hnames : Restorable dir t names)
    (hnodup : order.Nodup)
    (horder : ∀ name ∈ order, (t.get (snapshotDir dir ++ [name])).isSome = true) :
    (forEach (restoreState dir names dirTime) order t).2 = none ∧
    (∀ n ∈ names, n.Plain → n.last ++ ".snapshot" ∈ order → ∀ g,
      t.get (snapshotDir dir ++ [n.last ++ ".snapshot"]) = some (.file g) →
      (forEach (restoreState dir names dirTime) order t).1.get (dir ++ [n.last]) =
        some (.file (newer (t.get (dir ++ [n.last])) g))) ∧
    ∀ p, (∀ n ∈ names, n.Plain → n.last ++ ".snapshot" ∈ order → p ≠ dir ++ [n.last]) →
      (forEach (restoreState dir names dirTime) order t).1.get p = t.get p := by
  induction order generalizing t with
  | nil => exact ⟨rfl, fun _ _ _ hin => absurd hin List.not_mem_nil, fun _ _ => rfl⟩
  | cons name order ih =>
      obtain ⟨hnot, hrest⟩ := List.nodup_cons.mp hnodup
      obtain ⟨hname, hothers⟩ := List.forall_mem_cons.mp horder
      obtain ⟨node, hnode⟩ := Option.isSome_iff_exists.mp hname
      obtain ⟨x, g, hx, hpath, rfl⟩ := hflat _ node (snapshotDir_below dir name) hnode
      obtain rfl : name = x ++ ".snapshot" :=
        (List.cons.inj (List.append_cancel_left hpath)).1
      by_cases hdurable : isDurable names x = true
      · obtain ⟨n, hn, hfront, rfl⟩ := isDurable_iff.mp hdurable
        obtain ⟨hplain, hlive⟩ := hnames n hn hfront hname
        obtain ⟨t', hstep, hkey, hother, hsame⟩ := restoreState_spec dirTime hdir hn hplain hlive
          hnode
        have houtside : ∀ p, below (snapshotDir dir) p = true → p ≠ dir ++ [n.last] := by
          rintro p hp rfl
          exact hplain.not_inside (of_decide_eq_true (Bool.and_eq_true _ _ ▸ hp).1)
        have hsnapshots : ∀ y, t'.get (snapshotDir dir ++ [y]) =
            t.get (snapshotDir dir ++ [y]) :=
          fun y => hother _ (houtside _ (snapshotDir_below dir y))
        have hnames' : Restorable dir t' names := by
          intro n' hn' hfront' hsaved'
          rw [hsnapshots] at hsaved'
          obtain ⟨hplain', hlive'⟩ := hnames n' hn' hfront' hsaved'
          refine ⟨hplain', ?_⟩
          rw [Ne, ← isDir_iff] at hlive' ⊢
          rwa [hsame]
        obtain ⟨herror, hnewest, hframe⟩ := ih (by rw [hsame, hdir])
          (flat_of_agree hflat fun p hp => hother p (houtside p hp)) hnames' hrest
          (fun name hname => by rw [hsnapshots, hothers name hname])
        rw [forEach_cons hstep]
        refine ⟨herror, ?_, ?_⟩
        · intro n' hn' hplain' hin g' hsaved'
          by_cases heq : n'.last = n.last
          · -- its snapshot comes once
            rw [heq] at hsaved' ⊢
            obtain rfl : g = g' := Node.file.inj (Option.some.inj (hnode.symm.trans hsaved'))
            rw [← hkey]
            refine hframe _ ?_
            intro n'' _ hplain'' hin'' hpath''
            have hlast : n.last = n''.last := (List.cons.inj (List.append_cancel_left hpath'')).1
            exact hnot (hlast ▸ hin'')
          · have hin' : n'.last ++ ".snapshot" ∈ order := by
              rcases List.mem_cons.mp hin with hhead | htail
              · exact absurd (snapshotName_inj hplain'.ne_empty hx hhead) heq
              · exact htail
            have hpath' : dir ++ [n'.last] ≠ dir ++ [n.last] := fun hpath' =>
              heq (List.cons.inj (List.append_cancel_left hpath')).1
            rw [hnewest n' hn' hplain' hin' g' (by rw [hsnapshots, hsaved']), hother _ hpath']
        · intro p hp
          rw [hframe p fun n' hn' hplain' hin => hp n' hn' hplain' (List.mem_cons_of_mem _ hin),
            hother p (hp n hn hplain List.mem_cons_self)]
      · have hstep : restoreState dir names dirTime (x ++ ".snapshot") t = (t, none) := by
          rw [restoreState, stem_append hx]
          exact if_neg hdurable
        have htail : ∀ n ∈ names, n.Plain → n.last ++ ".snapshot" ∈ (x ++ ".snapshot") :: order →
            n.last ++ ".snapshot" ∈ order := by
          intro n hn hplain hin
          rcases List.mem_cons.mp hin with hhead | hin
          · have hlast := snapshotName_inj hplain.ne_empty hx hhead
            exact absurd (isDurable_iff.mpr ⟨n, hn, hplain.1, hlast⟩) hdurable
          · exact hin
        obtain ⟨herror, hnewest, hframe⟩ := ih hdir hflat hnames hrest hothers
        rw [forEach_cons hstep]
        refine ⟨herror, ?_, ?_⟩
        · intro n hn hplain hin
          exact hnewest n hn hplain (htail n hn hplain hin)
        · intro p hp
          exact hframe p fun n hn hplain hin =>
            hp n hn hplain (List.mem_cons_of_mem _ hin)

end Restoring

/-! ### Runs -/

section Runs

variable {dir : List String} {t : FileTree κ} {names order : List StateFile} {n : StateFile}
  {found : List String} {dirTime : List String → Nat} {a : Option (Node (Stamped κ))}
  {g : Stamped κ} {s s₀ : Disk κ} {op : Op κ}

/-- The directory of a chat, with the snapshots in it. -/
structure Inv (dir : List String) (t : FileTree κ) : Prop where
  home : isDir t dir = true ∨ t.get dir = none ∧ t.get (snapshotDir dir) = none
  snaps : ∀ f, t.get (snapshotDir dir) ≠ some (.file f)
  flat : Flat dir t

/-- There are no snapshots yet. -/
structure Fresh (dir : List String) (t : FileTree κ) : Prop where
  home : isDir t dir = true ∨ t.get dir = none
  empty : ∀ p, snapshotDir dir <+: p → t.get p = none

theorem inv_fresh
    (h : Fresh dir t) :
    Inv dir t := by
  have hnone : t.get (snapshotDir dir) = none := h.empty _ List.prefix_rfl
  refine ⟨?_, ?_, ?_⟩
  · exact h.home.imp_right fun hdir => ⟨hdir, hnone⟩
  · intro f hfile
    rw [hnone] at hfile
    cases hfile
  · intro p node hp hnode
    rw [h.empty p (of_decide_eq_true (Bool.and_eq_true _ _ ▸ hp).1)] at hnode
    cases hnode

theorem dir_ne (dir : List String) (x : String) : dir ≠ dir ++ [x] := by
  intro heq
  simpa using congrArg List.length heq

theorem not_below_dir (dir : List String) : below (snapshotDir dir) dir = false := by
  rw [Bool.eq_false_iff]
  intro h
  have hle : snapshotDir dir <+: dir := of_decide_eq_true (Bool.and_eq_true _ _ ▸ h).1
  have hlength := hle.length_le
  rw [snapshotDir, List.length_append, List.length_singleton] at hlength
  omega

theorem not_below_self (dir : List String) : below dir dir = false := by
  simp [below]

/-- A step that changes nothing in the directory of the snapshots. -/
theorem Inv.outside
    {t' : FileTree κ} (h : Inv dir t) (hdir : isDir t' dir = true ∨ t'.get dir = t.get dir)
    (hsame : ∀ p, snapshotDir dir <+: p → t'.get p = t.get p) :
    Inv dir t' := by
  have hsnaps := hsame _ List.prefix_rfl
  refine ⟨?_, ?_, ?_⟩
  · rcases hdir with hdir | hdir
    · exact Or.inl hdir
    · rw [isDir, hdir, hsnaps]
      exact h.home
  · rw [hsnaps]
    exact h.snaps
  · exact flat_of_agree h.flat fun p hp =>
      hsame p (of_decide_eq_true (Bool.and_eq_true _ _ ▸ hp).1)

theorem savable_of_plain
    (h : PlainNames dir t names) (horder : ∀ n ∈ order, n ∈ names) :
    Savable dir t order := by
  intro n hn p hp hfound
  have hlive : live dir t n = t.get p := by
    rw [live, lookup, hp, Option.bind_some]
  have hn := h n (horder n hn)
  rw [Found, hlive, hp, Option.any_some, decide_eq_true_eq] at hn
  exact hn (hfound.imp_right Or.inr)

/-- A snapshot raises nothing. -/
theorem snapshot_spec
    (h : Inv dir t) (hplain : PlainNames dir (makeDirs [dir, snapshotDir dir] t) names)
    (horder : ∀ n ∈ order, n ∈ names) :
    (snapshotPluginStates dir order t).2 = none ∧
      Inv dir (snapshotPluginStates dir order t).1 := by
  have hdir : ∀ f, t.get dir ≠ some (.file f) := by
    intro f hfile
    rcases h.home with hdir | ⟨hnone, -⟩
    · rw [isDir_iff.mp hdir] at hfile
      cases hfile
    · rw [hnone] at hfile
      cases hfile
  have hfiles : ([dir, snapshotDir dir].any fun p => (t.get p).any Node.isFile) = false := by
    have hfile : ∀ p, (∀ f, t.get p ≠ some (.file f)) → (t.get p).any Node.isFile = false := by
      intro p hp
      rcases hget : t.get p with _ | ⟨_ | f⟩
      · rfl
      · rfl
      · exact absurd hget (hp f)
    rw [List.any_cons, List.any_cons, List.any_nil, hfile _ hdir, hfile _ h.snaps]
    rfl
  have hmade : ∀ p ∈ [dir, snapshotDir dir], (∀ f, t.get p ≠ some (.file f)) →
      isDir (makeDirs [dir, snapshotDir dir] t) p = true := by
    intro p hp hfile
    rw [isDir_iff, get_makeDirs, if_pos hp]
    rcases hget : t.get p with _ | ⟨_ | f⟩
    · rfl
    · rfl
    · exact absurd hget (hfile f)
  have hdir' := hmade dir (by simp) hdir
  have hsnaps' := hmade (snapshotDir dir) (by simp) h.snaps
  have hflat' : Flat dir (makeDirs [dir, snapshotDir dir] t) := by
    refine flat_of_agree h.flat fun p hp => ?_
    rw [get_makeDirs, if_neg]
    rintro hin
    rcases List.mem_pair.mp hin with rfl | rfl
    · rw [not_below_dir] at hp
      cases hp
    · rw [not_below_self] at hp
      cases hp
  obtain ⟨herror, hflat, hframe⟩ := saveEach_spec hdir' hsnaps' hflat'
    (savable_of_plain hplain horder)
  rw [snapshotPluginStates, hfiles]
  refine ⟨herror, Or.inl ?_, ?_, hflat⟩
  · rw [isDir_iff] at hdir' ⊢
    exact (hframe dir (not_below_dir dir)).trans hdir'
  · intro f hfile
    rw [isDir_iff] at hsnaps'
    rw [if_neg Bool.false_ne_true, hframe _ (not_below_self _), hsnaps'] at hfile
    cases hfile

theorem newer_spec
    (ha : a ≠ some .directory) :
    (a = some (.file (newer a g)) ∨ newer a g = g) ∧ g.mtime ≤ (newer a g).mtime ∧
      ∀ f, a = some (.file f) → f.mtime ≤ (newer a g).mtime := by
  rcases a with _ | ⟨_ | f⟩
  · refine ⟨Or.inr rfl, Nat.le_refl _, ?_⟩
    intro f hf
    cases hf
  · exact absurd rfl ha
  · rw [newer]
    by_cases hle : g.mtime ≤ f.mtime
    · rw [if_pos hle]
      refine ⟨Or.inl rfl, hle, ?_⟩
      rintro f' hf
      cases hf
      exact Nat.le_refl _
    · rw [if_neg hle]
      refine ⟨Or.inr rfl, Nat.le_refl _, ?_⟩
      rintro f' hf
      cases hf
      omega

theorem live_of_plain
    (hplain : n.Plain) (hdir : isDir t dir = true) :
    live dir t n = t.get (dir ++ [n.last]) := by
  rw [live, lookup, hplain.resolve_parts hdir, Option.bind_some]

theorem saved_of_front
    (hfront : n.front = []) (hsnaps : isDir t (snapshotDir dir) = true) :
    saved dir t n = t.get (snapshotDir dir ++ [n.last ++ ".snapshot"]) := by
  obtain ⟨hempty, hdot, hdots⟩ := snapshotName_plain n.last
  rw [saved, StateFile.snapshotParts, hfront, List.nil_append, pathParts_singleton hempty hdot,
    lookup_singleton hsnaps hdots]

/-- The set of an order in which the snapshots are found. -/
theorem restorable_of_plain
    (h : PlainNames dir t names) (hdir : isDir t dir = true)
    (hsnaps : isDir t (snapshotDir dir) = true) :
    Restorable dir t names := by
  intro n hn hfront hsome
  rw [← saved_of_front hfront hsnaps] at hsome
  obtain ⟨hplain, hlive⟩ := h n hn (Or.inr (Or.inl hsome))
  rw [live_of_plain hplain hdir] at hlive
  exact ⟨hplain, hlive⟩

/-- Without a snapshot directory there are no snapshots of plain names. -/
theorem restored_refl
    (hplain : PlainNames dir t names) (hsnaps : isDir t (snapshotDir dir) = false) :
    Restored dir names t t := by
  refine ⟨?_, ?_, ?_⟩
  · exact fun p f hf => ⟨f, hf, Nat.le_refl _⟩
  · exact fun p hp => absurd rfl hp
  · intro n hn hfound
    obtain ⟨hname, hfile⟩ := hplain n hn (hfound.imp_right Or.inl)
    have hsaved : saved dir t n = none := by
      rw [saved, lookup, hname.snapshotParts_eq, resolve, if_neg (by rw [hsnaps]; simp)]
      rfl
    rw [hsaved, Option.isSome_none] at hfound
    obtain ⟨node, hnode⟩ := Option.isSome_iff_exists.mp (hfound.resolve_right Bool.false_ne_true)
    rcases node with _ | f
    · exact absurd hnode hfile
    · refine ⟨f, hnode, Or.inl hnode, ?_⟩
      rintro g (hg | hg)
      · rw [hnode] at hg
        cases hg
        exact Nat.le_refl _
      · rw [hsaved] at hg
        cases hg

/-- A restore raises nothing and leaves the newer contents. -/
theorem restore_spec
    (dirTime : List String → Nat) (h : Inv dir t) (hplain : PlainNames dir t names)
    (hnodup : found.Nodup)
    (hfound : ∀ name, name ∈ found ↔ (t.get (snapshotDir dir ++ [name])).isSome = true ∧
      ".snapshot".toList <:+ name.toList) :
    (restorePluginStates dir names dirTime found t).2 = none ∧
      Restored dir names t (restorePluginStates dir names dirTime found t).1 ∧
      Inv dir (restorePluginStates dir names dirTime found t).1 := by
  rw [restorePluginStates]
  by_cases hsome : (t.get (snapshotDir dir)).isSome = true
  · rw [if_pos hsome]
    have hsnaps : isDir t (snapshotDir dir) = true := by
      rw [isDir_iff]
      rcases hget : t.get (snapshotDir dir) with _ | ⟨_ | f⟩
      · rw [hget] at hsome
        cases hsome
      · rfl
      · exact absurd hget (h.snaps f)
    have hdir : isDir t dir = true := by
      refine h.home.resolve_right ?_
      rintro ⟨-, hnone⟩
      rw [hnone] at hsome
      cases hsome
    have hin : ∀ x, x ++ ".snapshot" ∈ found ↔
        (t.get (snapshotDir dir ++ [x ++ ".snapshot"])).isSome = true := by
      intro x
      rw [hfound, and_iff_left]
      rw [String.toList_append]
      exact List.suffix_append _ _
    obtain ⟨herror, hnewest, hframe⟩ := restoreEach_spec dirTime hdir h.flat
      (restorable_of_plain hplain hdir hsnaps) hnodup fun name hname => ((hfound name).mp hname).1
    have hfile : ∀ x, x ++ ".snapshot" ∈ found →
        ∃ g, t.get (snapshotDir dir ++ [x ++ ".snapshot"]) = some (.file g) := by
      intro x hx
      obtain ⟨node, hnode⟩ := Option.isSome_iff_exists.mp ((hin x).mp hx)
      obtain ⟨_, g, -, -, rfl⟩ := h.flat _ node (snapshotDir_below dir _) hnode
      exact ⟨g, hnode⟩
    have hlive : ∀ n ∈ names, n.Plain → n.last ++ ".snapshot" ∈ found →
        t.get (dir ++ [n.last]) ≠ some .directory := by
      intro n hn hname hx
      exact ((restorable_of_plain hplain hdir hsnaps) n hn hname.1 ((hin _).mp hx)).2
    have hdir' := hframe dir fun n _ _ _ => dir_ne dir n.last
    refine ⟨herror, ⟨?_, ?_, ?_⟩, ?_⟩
    · intro p f hf
      by_cases hp : ∃ n ∈ names, n.Plain ∧ n.last ++ ".snapshot" ∈ found ∧ p = dir ++ [n.last]
      · obtain ⟨n, hn, hname, hx, rfl⟩ := hp
        obtain ⟨g, hg⟩ := hfile _ hx
        exact ⟨_, hnewest n hn hname hx g hg, (newer_spec (hlive n hn hname hx)).2.2 f hf⟩
      · refine ⟨f, ?_, Nat.le_refl _⟩
        rw [hframe p fun n hn hname hx heq => hp ⟨n, hn, hname, hx, heq⟩, hf]
    · intro p hp
      by_contra hnone
      refine hp (hframe p fun n hn hname hx heq => hnone ⟨n, hn, ?_⟩)
      rw [hname.resolve_parts hdir, heq]
    · intro n hn hsource
      obtain ⟨hname, hnode⟩ := hplain n hn (hsource.imp_right Or.inl)
      have hlive' : ∀ t' : FileTree κ, t'.get dir = t.get dir →
          live dir t' n = t'.get (dir ++ [n.last]) := by
        intro t' hsame
        refine live_of_plain hname ?_
        rw [isDir, hsame]
        exact hdir
      rw [hlive' t rfl] at hnode hsource ⊢
      rw [hlive' _ hdir']
      rw [saved_of_front hname.1 hsnaps] at hsource ⊢
      by_cases hx : n.last ++ ".snapshot" ∈ found
      · obtain ⟨g, hg⟩ := hfile _ hx
        obtain ⟨hcase, hsnapshot, hold⟩ := newer_spec (g := g) hnode
        refine ⟨_, hnewest n hn hname hx g hg, ?_, ?_⟩
        · rcases hcase with hcase | hcase
          · exact Or.inl hcase
          · rw [hcase]
            exact Or.inr hg
        · rintro f (hf | hf)
          · exact hold f hf
          · obtain rfl : g = f := Node.file.inj (Option.some.inj (hg.symm.trans hf))
            exact hsnapshot
      · have hnone : t.get (snapshotDir dir ++ [n.last ++ ".snapshot"]) = none := by
          rw [hin, Option.not_isSome_iff_eq_none] at hx
          exact hx
        rw [hnone, Option.isSome_none] at hsource
        obtain ⟨node, hget⟩ := Option.isSome_iff_exists.mp
          (hsource.resolve_right Bool.false_ne_true)
        rcases node with _ | f
        · exact absurd hget hnode
        · refine ⟨f, ?_, Or.inl hget, ?_⟩
          · rw [hframe, hget]
            intro n' _ _ hx' heq
            have hlast := (List.cons.inj (List.append_cancel_left heq)).1
            exact hx (hlast ▸ hx')
          · rintro g (hg | hg)
            · obtain rfl : f = g := Node.file.inj (Option.some.inj (hget.symm.trans hg))
              exact Nat.le_refl _
            · rw [hnone] at hg
              cases hg
    · refine h.outside (Or.inr hdir') fun p hp => ?_
      refine hframe p fun n _ hname _ heq => ?_
      exact hname.not_inside (heq ▸ hp)
  · rw [if_neg hsome]
    refine ⟨rfl, restored_refl hplain ?_, h⟩
    rw [isDir, Option.not_isSome_iff_eq_none.mp hsome]
    rfl

theorem inv_step
    (h : Inv dir s.tree) (hpossible : Possible dir s op) (hplainly : Plainly dir s op) :
    Inv dir (step dir s op).tree := by
  cases op with
  | mkdir p =>
      obtain ⟨hdir, hnone⟩ := hpossible
      refine h.outside ?_ fun q hq => Dict.get_set_of_ne _ ?_ _
      · by_cases heq : p = dir
        · subst heq
          exact Or.inl (isDir_iff.mpr (Dict.get_set_self _ _ _))
        · exact Or.inr (Dict.get_set_of_ne _ heq _)
      · rintro rfl
        exact hplainly hq
  | write p content time =>
      obtain ⟨hdir, hfree, -⟩ := hpossible
      refine h.outside (Or.inr (Dict.get_set_of_ne _ ?_ _)) fun q hq => Dict.get_set_of_ne _ ?_ _
      · rintro rfl
        rw [not_below_self] at hdir
        cases hdir
      · rintro rfl
        exact hplainly hq
  | delete p =>
      have hless : ∀ q node, (s.tree.erase p).get q = some node → s.tree.get q = some node := by
        intro q node hnode
        rw [Dict.get_erase] at hnode
        split_ifs at hnode
        exact hnode
      have hnone : ∀ q, s.tree.get q = none → (s.tree.erase p).get q = none := by
        intro q hq
        rw [Dict.get_erase, hq, ite_self]
      refine ⟨?_, fun f hf => h.snaps f (hless _ _ hf), ?_⟩
      · rcases h.home with hdir | ⟨hdir, hsnaps⟩
        · have hne : p ≠ dir := by
            rintro rfl
            rw [hpossible.2] at hdir
            cases hdir
          refine Or.inl ?_
          rw [isDir_iff] at hdir ⊢
          exact (Dict.get_erase_of_ne _ hne).trans hdir
        · exact Or.inr ⟨hnone _ hdir, hnone _ hsnaps⟩
      · exact fun q node hq hnode => h.flat q node hq (hless q node hnode)
  | configure names => exact h
  | snapshot order => exact (snapshot_spec h hplainly fun n hn => (hpossible n).mp hn).2
  | restore found dirTime => exact (restore_spec dirTime h hplainly hpossible.1 hpossible.2).2.2

/-- **Snapshots.**  In every run on the directory of a chat, with any configured names,
live changes and orders, in which nothing is written into the directory of the snapshots and
the states are saved and restored under plain names, neither function raises, and a restore
leaves the newer content of every durable file and no other change. -/
theorem restores_newest (h₀ : Fresh dir s₀.tree)
    (h : Reach (fun s op => some (step dir s op)) (fun s op => Possible dir s op ∧ Plainly dir s op)
      s₀ s)
    (hpossible : Possible dir s op) (hplainly : Plainly dir s op) :
    (∀ order, op = .snapshot order → (snapshotPluginStates dir order s.tree).2 = none) ∧
    ∀ found dirTime, op = .restore found dirTime →
      (restorePluginStates dir s.names dirTime found s.tree).2 = none ∧
        Restored dir s.names s.tree (restorePluginStates dir s.names dirTime found s.tree).1 := by
  have hinv : Inv dir s.tree := by
    refine h.invariant (P := fun s => Inv dir s.tree) (inv_fresh h₀) ?_
    rintro s op s' hinv ⟨hpossible, hplainly⟩ hstep
    obtain rfl := Option.some.inj hstep
    exact inv_step hinv hpossible hplainly
  constructor
  · rintro order rfl
    exact (snapshot_spec hinv hplainly fun n hn => (hpossible n).mp hn).1
  · rintro found dirTime rfl
    obtain ⟨herror, hrestored, -⟩ := restore_spec dirTime hinv hplainly hpossible.1
      hpossible.2
    exact ⟨herror, hrestored⟩

end Runs

/-! ### A state that comes back, and one that cannot be saved -/

/-- The directory of a chat with one file. -/
def chat (file : List String) : Disk String where
  tree := (Dict.empty.set ["chat"] .directory).set file (.file ⟨"v1", 1⟩)
  configured := []
  clock := 1

/-- The body state is saved and lost. -/
def lost : List (Op String) := [.snapshot bodyStateFiles, .delete ["chat", "body.json"]]

theorem restores_newest_body :
    (lost.foldl (step ["chat"]) (chat ["chat", "body.json"])).tree.get ["chat", "body.json"] =
        none ∧
      (restorePluginStates ["chat"] bodyStateFiles (fun _ => 0) ["body.json.snapshot"]
        (lost.foldl (step ["chat"]) (chat ["chat", "body.json"])).tree).2 = none ∧
      (restorePluginStates ["chat"] bodyStateFiles (fun _ => 0) ["body.json.snapshot"]
        (lost.foldl (step ["chat"]) (chat ["chat", "body.json"])).tree).1.get
          ["chat", "body.json"] = some (.file ⟨"v1", 1⟩) := by
  have hfresh : Fresh ["chat"] (chat ["chat", "body.json"]).tree := by
    refine ⟨Or.inl (by decide), ?_⟩
    rintro p ⟨l, rfl⟩
    rfl
  have hsaved : Reach (fun s op => some (step ["chat"] s op))
      (fun s op => Possible ["chat"] s op ∧ Plainly ["chat"] s op) (chat ["chat", "body.json"])
      (lost.foldl (step ["chat"]) (chat ["chat", "body.json"])) := by
    refine ((Reach.refl _).next (a := .snapshot bodyStateFiles) ⟨fun n => Iff.rfl, ?_⟩ rfl).next
      (a := .delete ["chat", "body.json"]) ⟨⟨by decide, by decide +kernel⟩, trivial⟩ rfl
    have hplain : PlainNames ["chat"] (makeDirs [["chat"], snapshotDir ["chat"]]
        (chat ["chat", "body.json"]).tree) bodyStateFiles := by
      decide +kernel
    exact hplain
  have hpossible : Possible ["chat"] (lost.foldl (step ["chat"]) (chat ["chat", "body.json"]))
      (.restore ["body.json.snapshot"] fun _ => 0) := by
    have hkeys : (lost.foldl (step ["chat"]) (chat ["chat", "body.json"])).tree.keys =
        [["chat"], ["chat", ".snapshots"], ["chat", ".snapshots", "body.json.snapshot"]] := by
      decide +kernel
    refine ⟨by decide, fun name => ?_⟩
    rw [← Option.ne_none_iff_isSome, Ne, Dict.get_eq_none_iff, not_not, hkeys]
    constructor
    · intro hname
      obtain rfl := List.mem_singleton.mp hname
      exact ⟨by decide, by decide⟩
    · rintro ⟨hname, -⟩
      simpa [snapshotDir] using hname
  have hplainly : Plainly ["chat"] (lost.foldl (step ["chat"]) (chat ["chat", "body.json"]))
      (.restore ["body.json.snapshot"] fun _ => 0) := by
    have hplain : PlainNames ["chat"]
        (lost.foldl (step ["chat"]) (chat ["chat", "body.json"])).tree bodyStateFiles := by
      decide +kernel
    exact hplain
  have hrestore := (restores_newest hfresh hsaved hpossible hplainly).2 _ _ rfl
  exact ⟨by decide +kernel, hrestore.1, by decide +kernel⟩

/-- A state file in a directory of its own. -/
def nested : StateFile := ⟨["sub"], "state.json", by decide⟩

/-- Its directory is made and it is written; the snapshot raises. -/
theorem nested_raises :
    (snapshotPluginStates ["chat"] (nested :: bodyStateFiles)
      (([.mkdir ["chat", "sub"], .write ["chat", "sub", "state.json"] "v2" 2,
        .configure [nested]] : List (Op String)).foldl (step ["chat"])
        (chat ["chat", "body.json"])).tree).2 = some .noEntry := by
  decide +kernel

end StateSnapshots
end Plugins
end DiploidAgent
