import DiploidAgent.Lib.Dict

/-!
# Files by path

A path is the list of the names on it, from the root down; files are a dictionary of paths
and contents.  A directory is cleared except for some of its items, and some of its items are
copied into another one.  What lies below a directory is changed by nothing that is done
below a directory apart from it.
-/

namespace DiploidAgent
namespace Paths

universe u v

variable {α : Type u} {κ : Type v}

abbrev Files (α : Type u) (κ : Type v) := Dict (List α) κ

/-! ### Directories -/

/-- The item of the directory that the path leads to. -/
def child (dir p : List α) : Option α := p[dir.length]?

/-- Neither directory is the other, or lies inside it. -/
structure Apart (d d' : List α) : Prop where
  left : ¬ d <+: d'
  right : ¬ d' <+: d

@[simp] theorem child_append_cons (dir : List α) (x : α) (l : List α) :
    child dir (dir ++ x :: l) = some x := by
  simp [child]

namespace Apart

theorem symm {d d' : List α} (h : Apart d d') : Apart d' d := ⟨h.right, h.left⟩

theorem ne {d d' : List α} (h : Apart d d') : d ≠ d' :=
  fun heq => h.left (heq ▸ List.prefix_rfl)

/-- A path leads into one of them at most. -/
theorem not_below {d d' p : List α} (h : Apart d d') (hp : d' <+: p) : ¬ d <+: p := by
  intro hd
  rcases List.prefix_or_prefix_of_prefix hd hp with hin | hin
  · exact h.left hin
  · exact h.right hin

/-- What lies inside stays apart. -/
theorem append {d d' : List α} (h : Apart d d') (l l' : List α) : Apart (d ++ l) (d' ++ l') where
  left := fun hp =>
    h.not_below (List.prefix_append d' l') ((List.prefix_append d l).trans hp)
  right := fun hp =>
    h.symm.not_below (List.prefix_append d l) ((List.prefix_append d' l').trans hp)

/-- Two items of a directory. -/
theorem of_ne (root : List α) {x y : α} (h : x ≠ y) : Apart (root ++ [x]) (root ++ [y]) where
  left := fun hp => by
    rw [List.prefix_append_right_inj, List.cons_prefix_cons] at hp
    exact h hp.1
  right := fun hp => by
    rw [List.prefix_append_right_inj, List.cons_prefix_cons] at hp
    exact h hp.1.symm

end Apart

variable [DecidableEq α]

/-- The path leads into the directory. -/
def below (dir p : List α) : Bool := decide (dir <+: p) && decide (p ≠ dir)

theorem below_iff {dir p : List α} :
    below dir p = true ↔ ∃ x l, p = dir ++ x :: l := by
  simp only [below, Bool.and_eq_true, decide_eq_true_eq]
  constructor
  · rintro ⟨⟨l, rfl⟩, hne⟩
    cases l with
    | nil => exact absurd (List.append_nil dir) hne
    | cons x l => exact ⟨x, l, rfl⟩
  · rintro ⟨x, l, rfl⟩
    exact ⟨List.prefix_append dir (x :: l), by simp⟩

@[simp] theorem below_append_cons (dir : List α) (x : α) (l : List α) :
    below dir (dir ++ x :: l) = true :=
  below_iff.mpr ⟨x, l, rfl⟩

/-! ### Clearing and copying -/

/-- The items of the directory that are not kept are gone, with all that is below them. -/
def clear (dir : List α) (keep : α → Bool) (files : Files α κ) : Files α κ :=
  files.filter fun e => !below dir e.1 || (child dir e.1).any keep

/-- One file of the source is written into the target, if its item is chosen. -/
def copyFile (source target : List α) (choose : α → Bool) (d : Files α κ) (e : List α × κ) :
    Files α κ :=
  if below source e.1 && (child source e.1).any choose then
    d.set (target ++ e.1.drop source.length) e.2
  else d

/-- The chosen items of the source are written into the target. -/
def copyInto (source target : List α) (choose : α → Bool) (files base : Files α κ) :
    Files α κ :=
  files.entries.foldl (copyFile source target choose) base

theorem get_clear_of_not_below {dir p : List α} (keep : α → Bool) (files : Files α κ)
    (h : below dir p = false) : (clear dir keep files).get p = files.get p := by
  rw [clear, Dict.get_filter]
  cases files.get p <;> simp [h]

theorem get_clear (dir : List α) (keep : α → Bool) (files : Files α κ) (x : α) (l : List α) :
    (clear dir keep files).get (dir ++ x :: l) =
      if keep x then files.get (dir ++ x :: l) else none := by
  rw [clear, Dict.get_filter]
  by_cases hx : keep x = true
  · cases files.get (dir ++ x :: l) <;> simp [hx]
  · cases files.get (dir ++ x :: l) <;> simp [hx]

section Copy

variable (source target : List α) (choose : α → Bool)

theorem get_copyFile_of_not_below {p : List α} (d : Files α κ) (e : List α × κ)
    (h : below target p = false) : (copyFile source target choose d e).get p = d.get p := by
  unfold copyFile
  split
  · next hs =>
      rw [Bool.and_eq_true] at hs
      obtain ⟨x, l, hx⟩ := below_iff.mp hs.1
      refine Dict.get_set_of_ne d ?_ e.2
      rintro rfl
      simp [hx] at h
  · rfl

/-- A file that goes elsewhere. -/
theorem get_copyFile_of_ne {x : α} {l : List α} (d : Files α κ) (e : List α × κ)
    (h : e.1 ≠ source ++ x :: l ∨ choose x = false) :
    (copyFile source target choose d e).get (target ++ x :: l) = d.get (target ++ x :: l) := by
  unfold copyFile
  split
  · next hs =>
      rw [Bool.and_eq_true] at hs
      obtain ⟨y, m, hy⟩ := below_iff.mp hs.1
      refine Dict.get_set_of_ne d ?_ e.2
      rw [hy, List.drop_left]
      intro heq
      have heq := List.append_cancel_left heq
      rw [hy, heq, child_append_cons, Option.any_some] at hs
      rcases h with h | h
      · exact h (hy.trans (by rw [heq]))
      · rw [h] at hs
        exact Bool.false_ne_true hs.2
  · rfl

theorem get_copyFile_self {x : α} (l : List α) (d : Files α κ) (v : κ) (h : choose x = true) :
    (copyFile source target choose d (source ++ x :: l, v)).get (target ++ x :: l) = some v := by
  simp [copyFile, h]

variable (files base : Files α κ)

theorem get_copyInto_of_not_below {p : List α} (h : below target p = false) :
    (copyInto source target choose files base).get p = base.get p := by
  unfold copyInto
  induction files.entries generalizing base with
  | nil => rfl
  | cons e l ih =>
      rw [List.foldl_cons, ih, get_copyFile_of_not_below source target choose base e h]

/-- A file in the target is the source's, if there is one and its item is chosen. -/
theorem get_copyInto (x : α) (l : List α) :
    (copyInto source target choose files base).get (target ++ x :: l) =
      if choose x then (files.get (source ++ x :: l)).or (base.get (target ++ x :: l))
      else base.get (target ++ x :: l) := by
  have hnd := files.nodup_keys
  change _ = if choose x then (lookupEntry (source ++ x :: l) files.entries).or _ else _
  unfold copyInto
  revert hnd
  induction files.entries generalizing base with
  | nil => simp [lookupEntry]
  | cons e entries ih =>
      intro hnd
      rw [List.map_cons, List.nodup_cons] at hnd
      rw [List.foldl_cons, ih _ hnd.2]
      by_cases hx : choose x = true
      · rw [if_pos hx, if_pos hx, lookupEntry]
        by_cases he : e.1 = source ++ x :: l
        · have hnone : lookupEntry (source ++ x :: l) entries = none :=
            (lookupEntry_eq_none_iff _ entries).mpr (he ▸ hnd.1)
          have hself : e = (source ++ x :: l, e.2) := Prod.ext he rfl
          rw [if_pos he, hnone, hself, get_copyFile_self source target choose l base e.2 hx]
          rfl
        · rw [if_neg he, get_copyFile_of_ne source target choose base e (.inl he)]
      · rw [if_neg hx, if_neg hx]
        exact get_copyFile_of_ne source target choose base e (.inr (Bool.not_eq_true _ ▸ hx))

end Copy

/-! ### Locality -/

/-- The same files lie at the paths through the directory. -/
def Agree (dir : List α) (files files' : Files α κ) : Prop :=
  ∀ p, dir <+: p → files.get p = files'.get p

/-- The same files lie everywhere else. -/
def AgreeOff (dir : List α) (files files' : Files α κ) : Prop :=
  ∀ p, ¬ dir <+: p → files.get p = files'.get p

section Locality

variable {dir : List α} {files files' : Files α κ}

/-- A path that does not lead through a directory leads through none below it. -/
theorem below_off {t p : List α} (ht : dir <+: t) (hp : ¬ dir <+: p) : below t p = false := by
  have hnot : ¬ t <+: p := fun h => hp (ht.trans h)
  simp [below, hnot]

theorem agree_of_off {d : List α} (hapart : Apart dir d) (h : AgreeOff d files files') :
    Agree dir files files' :=
  fun p hp => h p (hapart.symm.not_below hp)

namespace Agree

theorem symm (h : Agree dir files files') : Agree dir files' files :=
  fun p hp => (h p hp).symm

theorem set {p : List α} (h : Agree dir files files') (v : κ) :
    Agree dir (files.set p v) (files'.set p v) := by
  intro q hq
  rw [Dict.get_set, Dict.get_set, h q hq]

theorem clear {t : List α} (h : Agree dir files files') (keep : α → Bool) :
    Agree dir (clear t keep files) (clear t keep files') := by
  intro p hp
  by_cases hbelow : below t p = true
  · obtain ⟨x, l, rfl⟩ := below_iff.mp hbelow
    rw [get_clear, get_clear, h _ hp]
  · rw [Bool.not_eq_true] at hbelow
    rw [get_clear_of_not_below keep files hbelow, get_clear_of_not_below keep files' hbelow, h p hp]

theorem copyInto {base base' : Files α κ} {source target : List α} (h : Agree dir files files')
    (hbase : Agree dir base base') (hsource : dir <+: source) (choose : α → Bool) :
    Agree dir (copyInto source target choose files base)
      (copyInto source target choose files' base') := by
  intro p hp
  by_cases hbelow : below target p = true
  · obtain ⟨x, l, rfl⟩ := below_iff.mp hbelow
    have hfrom := h (source ++ x :: l) (hsource.trans (List.prefix_append source _))
    rw [get_copyInto, get_copyInto, hbase _ hp, hfrom]
  · rw [Bool.not_eq_true] at hbelow
    rw [get_copyInto_of_not_below source target choose files base hbelow,
      get_copyInto_of_not_below source target choose files' base' hbelow, hbase p hp]

/-- The files below agreeing directories are the same ones. -/
theorem any_below (h : Agree dir files files') :
    (files.entries.any fun e => below dir e.1) = files'.entries.any fun e => below dir e.1 := by
  have hfind : ∀ f f' : Files α κ, Agree dir f f' →
      (f.entries.any fun e => below dir e.1) = true →
      (f'.entries.any fun e => below dir e.1) = true := by
    intro f f' hagree hany
    obtain ⟨⟨p, v⟩, hmem, hp⟩ := List.any_eq_true.mp hany
    obtain ⟨x, l, rfl⟩ := below_iff.mp hp
    have hget : f'.get (dir ++ x :: l) = some v := by
      rw [← hagree _ (List.prefix_append dir _)]
      exact (f.get_eq_some_iff _ v).mpr hmem
    exact List.any_eq_true.mpr ⟨_, (f'.get_eq_some_iff _ v).mp hget, hp⟩
  exact Bool.eq_iff_iff.mpr ⟨hfind files files' h, hfind files' files h.symm⟩

end Agree

end Locality

/-! ### Directories as entries -/

/-- What stands at a path of a tree. -/
inductive Node (κ : Type v) where
  | directory
  | file (content : κ)
deriving DecidableEq

namespace Node

def isDirectory : Node κ → Bool
  | directory => true
  | file _ => false

def isFile : Node κ → Bool
  | directory => false
  | file _ => true

end Node

/-- The directories that are not there are made, in this order. -/
def makeDirs (dirs : List (List α)) (files : Files α (Node κ)) : Files α (Node κ) :=
  dirs.foldl (fun d p => if (d.get p).isSome then d else d.set p .directory) files

theorem get_makeDirs (dirs : List (List α)) (files : Files α (Node κ)) (p : List α) :
    (makeDirs dirs files).get p =
      if p ∈ dirs then some ((files.get p).getD .directory) else files.get p := by
  unfold makeDirs
  induction dirs generalizing files with
  | nil => simp
  | cons q dirs ih =>
      rw [List.foldl_cons, ih]
      by_cases hp : p = q
      · subst hp
        cases hget : files.get p <;> simp [hget]
      · have hother : (if (files.get q).isSome then files else files.set q .directory).get p =
            files.get p := by
          split
          · rfl
          · exact Dict.get_set_of_ne files (Ne.symm hp) _
        simp only [hother, List.mem_cons, hp, false_or]

/-- What is there stays. -/
theorem get_makeDirs_of_some {dirs : List (List α)} {files : Files α (Node κ)} {p : List α}
    {v : Node κ} (h : files.get p = some v) : (makeDirs dirs files).get p = some v := by
  rw [get_makeDirs, h, Option.getD_some, ite_self]

end Paths
end DiploidAgent
