import DiploidAgent.Lib.Paths

/-!
# Trees of files with their times

Files with the times they were written at and directories, by path.  A relative path is
resolved one name after the other, each in a directory, `..` going up; a copy keeps the
time, goes into the target when that is a directory, and raises where a file cannot be read
or written.
-/

namespace DiploidAgent
namespace FileTrees

open Paths

universe u v

variable {κ : Type u}

/-- What a file holds, and when it was written. -/
structure Stamped (κ : Type u) where
  content : κ
  mtime : Nat
deriving DecidableEq

abbrev FileTree (κ : Type u) := Files String (Node (Stamped κ))

inductive Errno where
  | noEntry
  | exists
  | isDirectory
  | sameFile
deriving DecidableEq

def isDir (t : FileTree κ) (p : List String) : Bool := (t.get p).any Node.isDirectory

/-- The path that the names lead to from a directory; all but the last one are directories. -/
def resolve (t : FileTree κ) (dir : List String) : List String → Option (List String)
  | [] => some dir
  | name :: names =>
      if isDir t dir then resolve t (if name = ".." then dir.dropLast else dir ++ [name]) names
      else none

/-- What the names lead to. -/
def lookup (t : FileTree κ) (dir names : List String) : Option (Node (Stamped κ)) :=
  (resolve t dir names).bind t.get

/-- `shutil.copy2` of a path that exists to a path whose directory may not. -/
def copy2 (t : FileTree κ) (source : List String) : Option (List String) → FileTree κ × Option Errno
  | none => (t, some .noEntry)
  | some target =>
      let target := if isDir t target then target ++ source.getLast?.toList else target
      if source = target then (t, some .sameFile)
      else
        match t.get source with
        | some (.file f) =>
            if isDir t target then (t, some .isDirectory) else (t.set target (.file f), none)
        | some .directory => (t, some .isDirectory)
        | none => (t, some .noEntry)

/-- A loop over a list that an error ends. -/
def forEach {α : Type v} (body : α → FileTree κ → FileTree κ × Option Errno) :
    List α → FileTree κ → FileTree κ × Option Errno
  | [], t => (t, none)
  | x :: xs, t =>
      match body x t with
      | (t, some e) => (t, some e)
      | (t, none) => forEach body xs t

section Rules

variable {t t' : FileTree κ} {dir names p q : List String} {name : String} {f : Stamped κ}

theorem forEach_cons
    {α : Type v} {body : α → FileTree κ → FileTree κ × Option Errno} {x : α}
    (h : body x t = (t', none)) (xs : List α) :
    forEach body (x :: xs) t = forEach body xs t' := by
  rw [forEach, h]

theorem isDir_iff :
    isDir t p = true ↔ t.get p = some .directory := by
  rw [isDir]
  rcases t.get p with _ | ⟨_ | f⟩
  · exact iff_of_false Bool.false_ne_true (by simp)
  · exact iff_of_true rfl rfl
  · exact iff_of_false Bool.false_ne_true (by simp)

theorem resolve_congr
    (h : ∀ p, isDir t' p = isDir t p) (names : List String) :
    ∀ dir, resolve t' dir names = resolve t dir names := by
  induction names with
  | nil => exact fun _ => rfl
  | cons name names ih =>
      intro dir
      rw [resolve, resolve, h dir, ih]

theorem resolve_singleton
    (hdir : isDir t dir = true) (hname : name ≠ "..") :
    resolve t dir [name] = some (dir ++ [name]) := by
  rw [resolve, if_pos hdir, if_neg hname, resolve]

theorem lookup_singleton
    (hdir : isDir t dir = true) (hname : name ≠ "..") :
    lookup t dir [name] = t.get (dir ++ [name]) := by
  rw [lookup, resolve_singleton hdir hname, Option.bind_some]

/-- A file in the place of a file or of nothing makes no directory. -/
theorem isDir_set
    (hq : isDir t q = false) (p : List String) :
    isDir (t.set q (.file f)) p = isDir t p := by
  rw [isDir, Dict.get_set]
  split_ifs with heq
  · subst heq
    exact hq.symm
  · rfl

/-- A copy of a file to a path that is no directory. -/
theorem copy2_file
    (hne : p ≠ q) (hp : t.get p = some (.file f)) (hq : isDir t q = false) :
    copy2 t p (some q) = (t.set q (.file f), none) := by
  have htarget : (if isDir t q = true then q ++ p.getLast?.toList else q) = q := by
    rw [hq]
    rfl
  rw [copy2, htarget, if_neg hne, hp, hq]
  rfl

end Rules

end FileTrees
end DiploidAgent
