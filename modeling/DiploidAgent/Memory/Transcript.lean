import DiploidAgent.Lib.JsonDumps
import DiploidAgent.Lib.Lines
import DiploidAgent.Lib.Text
import DiploidAgent.Lib.Utf8
import Mathlib.Data.List.Chain

/-!
# The transcript

`FileMemoryBackend.load_transcript` keeps the entries it has read with the size and the time
of the file, and of a file that has grown it reads only what is behind the old size.

Every call gives the entries of the whole file when a file that grows goes on at the end or
the start of a line (`transcript_agrees`).  A line that is still being written is read in two
parts, neither of which is an entry, and a longer file with another content is taken for one
that has grown.
-/

namespace DiploidAgent
namespace Transcript

open JsonText Lines Text Utf8

variable {F : Type}

/-! ### The reader -/

/-- The entry of a line; a blank line has none, nor one that is no JSON. -/
def entryOf (N : FloatText F) (line : List Char) : Option (Value F) :=
  if strip line = [] then none else loads N line

/-- The entries of lines as they stand in a file. -/
def entries (N : FloatText F) (raw : List UInt8) : List (Value F) :=
  (splitLines (decode raw)).filterMap (entryOf N)

/-- The transcript, with the time of its last change. -/
structure File (τ : Type) where
  bytes : List UInt8
  mtime : τ

structure Cache (F τ : Type) where
  size : Nat
  mtime : τ
  entries : List (Value F)

variable {τ : Type} [DecidableEq τ] (N : FloatText F)

/-- `load_transcript`; a file that does not exist leaves the cache as it is. -/
def loadTranscript (cache : Option (Cache F τ)) :
    Option (File τ) → List (Value F) × Option (Cache F τ)
  | none => ([], cache)
  | some f =>
      let readFrom (kept : List (Value F)) (offset : Nat) : List (Value F) × Option (Cache F τ) :=
        let raw := f.bytes.drop offset
        let all := kept ++ entries N raw
        (all, some ⟨offset + raw.length, f.mtime, all⟩)
      match cache with
      | none => readFrom [] 0
      | some c =>
          if c.size = f.bytes.length ∧ c.mtime = f.mtime then (c.entries, some c)
          else if c.size < f.bytes.length then readFrom c.entries c.size
          else readFrom [] 0

/-- The results of calls, one after each state of the file. -/
def runCalls : Option (Cache F τ) → List (Option (File τ)) → List (List (Value F))
  | _, [] => []
  | cache, f :: files =>
      (loadTranscript N cache f).1 :: runCalls (loadTranscript N cache f).2 files

/-- A full parse of the file. -/
def fullParse : Option (File τ) → List (Value F)
  | none => []
  | some f => entries N f.bytes

/-! ### What is claimed -/

/-- A file with another content has another size or another time. -/
def Stamped (old new : File τ) : Prop :=
  old.bytes.length = new.bytes.length → old.mtime = new.mtime → old.bytes = new.bytes

/-- What is added is behind a line feed, or starts with one. -/
def AtLine (old added : List UInt8) : Prop :=
  old = [] ∨ old.getLast? = some 0x0a ∨ added.head? = some 0x0a

/-- The condition on a step: a file that grows goes on at the end or the start of a line. -/
def GrowsByLines (old new : File τ) : Prop :=
  old.bytes.length < new.bytes.length →
    ∃ added, new.bytes = old.bytes ++ added ∧ AtLine old.bytes added

/-! ### Lines that are added -/

section Added

variable {N} {old added : List UInt8}

theorem entries_nil : entries N [] = [] := rfl

theorem entryOf_nil : entryOf N [] = none := rfl

/-- A line feed at the end adds no entry. -/
theorem entries_concat_newline
    (l : List Char) :
    (splitLines (l ++ ['\n'])).filterMap (entryOf N) = (splitLines l).filterMap (entryOf N) := by
  rcases splitLines_concat_newline l with h | h
  · rw [h]
  · rw [h, List.filterMap_append, List.filterMap_cons, entryOf_nil]
    exact List.append_nil _

/-- A line feed parts the entries. -/
theorem entries_append_newline
    (old added : List UInt8) :
    entries N (old ++ 0x0a :: added) = entries N old ++ entries N added := by
  have hfeed : Char.ofNat (0x0a : UInt8).toNat = '\n' := rfl
  unfold entries
  rw [decode_append_ascii (by decide), hfeed, splitLines_append_newline, List.filterMap_append,
    entries_concat_newline]

/-- What is added at a line is read by itself. -/
theorem entries_append
    (h : AtLine old added) :
    entries N (old ++ added) = entries N old ++ entries N added := by
  have hfront : ∀ rest : List UInt8, entries N (0x0a :: rest) = entries N rest := fun rest =>
    entries_append_newline [] rest
  rcases h with rfl | hlast | hfirst
  · rfl
  · obtain ⟨front, rfl⟩ := List.getLast?_eq_some_iff.mp hlast
    rw [List.append_assoc, List.singleton_append, entries_append_newline, entries_append_newline,
      entries_nil, List.append_nil]
  · obtain ⟨rest, rfl⟩ := List.head?_eq_some_iff.mp hfirst
    rw [entries_append_newline, hfront]

end Added

/-! ### Runs -/

section Runs

variable {N} {τ : Type}

/-- The cache holds the whole file as it was last seen. -/
def Holds (N : FloatText F) (last : Option (File τ)) (cache : Option (Cache F τ)) : Prop :=
  cache = last.map fun f => ⟨f.bytes.length, f.mtime, entries N f.bytes⟩

/-- The next file of a chain follows the last one, and is the last one then. -/
theorem isChain_next
    {R : File τ → File τ → Prop} {last : Option (File τ)} {f : File τ} {files : List (File τ)}
    (h : (last.toList ++ f :: files).IsChain R) :
    (∀ old ∈ last, R old f) ∧ ((some f).toList ++ files).IsChain R := by
  cases last with
  | none => exact ⟨fun old hold => (by cases hold), h⟩
  | some old =>
      obtain ⟨hstep, hlater⟩ := List.isChain_cons_cons.mp h
      refine ⟨fun old' hold => ?_, hlater⟩
      obtain rfl := Option.some.inj hold
      exact hstep

variable [DecidableEq τ]

/-- A call gives the whole file, and keeps it. -/
theorem loadTranscript_some
    {last : Option (File τ)} {cache : Option (Cache F τ)} {f : File τ}
    (hcache : Holds N last cache) (hstamp : ∀ old ∈ last, Stamped old f)
    (hgrow : ∀ old ∈ last, GrowsByLines old f) :
    loadTranscript N cache (some f) =
      (entries N f.bytes, some ⟨f.bytes.length, f.mtime, entries N f.bytes⟩) := by
  cases last with
  | none =>
      obtain rfl : cache = none := hcache
      simp [loadTranscript]
  | some old =>
      obtain rfl : cache = some ⟨old.bytes.length, old.mtime, entries N old.bytes⟩ := hcache
      unfold loadTranscript
      dsimp only
      split_ifs with hsame hlonger
      · rw [hstamp old rfl hsame.1 hsame.2, hsame.2]
      · obtain ⟨added, hbytes, hline⟩ := hgrow old rfl hlonger
        have hlength : old.bytes.length + added.length = f.bytes.length := by
          rw [hbytes, List.length_append]
        rw [hbytes, List.drop_left, entries_append hline, ← List.length_append]
      · simp

theorem runCalls_eq
    {last : Option (File τ)} {cache : Option (Cache F τ)} {files : List (Option (File τ))}
    (hcache : Holds N last cache)
    (hstamps : (last.toList ++ files.filterMap id).IsChain Stamped)
    (hgrow : (last.toList ++ files.filterMap id).IsChain GrowsByLines) :
    runCalls N cache files = files.map (fullParse N) := by
  induction files generalizing last cache with
  | nil => rfl
  | cons file files ih =>
      rw [runCalls, List.map_cons]
      cases file with
      | none => rw [loadTranscript, ih hcache hstamps hgrow, fullParse]
      | some f =>
          have hnext : (some f :: files).filterMap id = f :: files.filterMap id := rfl
          rw [hnext] at hstamps hgrow
          obtain ⟨hstamp, hstamps⟩ := isChain_next hstamps
          obtain ⟨hstep, hgrow⟩ := isChain_next hgrow
          have hholds : Holds N (some f) (some ⟨f.bytes.length, f.mtime, entries N f.bytes⟩) := rfl
          rw [loadTranscript_some hcache hstamp hstep, ih hholds hstamps hgrow, fullParse]

/-- **The transcript.**  Every call gives the entries of the whole file, when a file that grows
goes on at the end or the start of a line. -/
theorem transcript_agrees
    (N : FloatText F) (files : List (Option (File τ)))
    (hstamps : (files.filterMap id).IsChain Stamped)
    (hgrow : (files.filterMap id).IsChain GrowsByLines) :
    runCalls N none files = files.map (fullParse N) := by
  have hholds : Holds N (none : Option (File τ)) none := rfl
  exact runCalls_eq hholds hstamps hgrow

/-- The line `1`, and then the line `2` as well. -/
def wholeLines : List (Option (File Nat)) :=
  [some ⟨[0x31, 0x0a], 0⟩, some ⟨[0x31, 0x0a, 0x32, 0x0a], 1⟩]

theorem transcript_agrees_wholeLines :
    runCalls noFloats none wholeLines = wholeLines.map (fullParse noFloats) := by
  refine transcript_agrees noFloats wholeLines ?_ ?_
  · exact List.isChain_pair.mpr fun hlength => by cases hlength
  · exact List.isChain_pair.mpr fun _ => ⟨[0x32, 0x0a], rfl, Or.inr (Or.inl rfl)⟩

/-- A line `[1]`, of which the first call sees only a part. -/
def partialLine : List (Option (File Nat)) :=
  [some ⟨[0x5b, 0x31], 0⟩, some ⟨[0x5b, 0x31, 0x5d], 1⟩]

/-- A line that is read in two parts is lost. -/
theorem partial_line_lost :
    (partialLine.filterMap id).IsChain Stamped ∧
      runCalls noFloats none partialLine ≠ partialLine.map (fullParse noFloats) := by
  constructor
  · exact List.isChain_pair.mpr fun hlength => by cases hlength
  · intro hall
    have hcounts := congrArg (List.map List.length) hall
    revert hcounts
    decide +kernel

end Runs

end Transcript
end DiploidAgent
