import DiploidAgent.Context.PromptSlots
import DiploidAgent.Lib.Occurrences

/-!
# Trimmed texts

`_trim_to_section` and `_trim_to_last_section` of `memory_backends.py`, with the block that
`chat_memory_block` shows of the chat's memory.

The loop over the headers goes from the last one to the first and stops at the first that
fits, so that of several sections that fit only the last is kept
(`lastSection_longest_iff`).
-/

namespace DiploidAgent
namespace Trimming

open Context (rfind trimToSection upTo)
open Occurrences

def blankLine : List Char := ['\n', '\n']

/-! ### The front of a text -/

section Front

variable {w l text : List Char} {i : Nat}

theorem rfind_eq_none
    (hne : w ≠ []) :
    rfind w l = none ↔ ∀ j, ¬ At w l j := by
  induction l with
  | nil =>
      rw [rfind, if_neg hne]
      exact ⟨fun _ j => at_nil hne, fun _ => rfl⟩
  | cons c l ih =>
      rw [rfind]
      split
      next j hfound =>
        refine ⟨fun h => (by cases h), fun h => ?_⟩
        have hnone := ih.mpr fun j => h (j + 1)
        rw [hfound] at hnone
        cases hnone
      next hrest =>
        have hbehind := ih.mp hrest
        split
        next hhead =>
          refine ⟨fun h => (by cases h), fun h => ?_⟩
          exact absurd (List.isPrefixOf_iff_prefix.mp hhead) (h 0)
        next hhead =>
          refine ⟨fun _ j => ?_, fun _ => rfl⟩
          cases j with
          | zero => exact fun h => hhead (List.isPrefixOf_iff_prefix.mpr h)
          | succ j => exact hbehind j

theorem rfind_eq_some
    (hne : w ≠ []) :
    rfind w l = some i ↔ LastAt w l i := by
  have hlast : ∀ {l : List Char} {i : Nat}, rfind w l = some i → LastAt w l i := by
    intro l
    induction l with
    | nil =>
        intro i h
        rw [rfind, if_neg hne] at h
        cases h
    | cons c l ih =>
        intro i h
        rw [rfind] at h
        split at h
        next j hfound =>
          cases h
          refine ⟨(ih hfound).1, fun k hk => ?_⟩
          cases k with
          | zero => exact Nat.zero_le _
          | succ k => exact Nat.succ_le_succ ((ih hfound).2 k hk)
        next hrest =>
          split at h
          next hhead =>
            cases h
            refine ⟨List.isPrefixOf_iff_prefix.mp hhead, fun k hk => ?_⟩
            cases k with
            | zero => exact le_rfl
            | succ k => exact absurd hk ((rfind_eq_none hne).mp hrest k)
          next => cases h
  refine ⟨hlast, fun h => ?_⟩
  cases hfound : rfind w l with
  | none => exact absurd h.1 ((rfind_eq_none hne).mp hfound i)
  | some j => rw [(hlast hfound).eq h]

/-- A break of the first `limit` characters, `room` before their end: the last blank line
behind the start, or the last line feed where there is no blank line. -/
def BreaksBefore (room limit : Nat) (text : List Char) : Prop :=
  ∃ i, 0 < i ∧ i + room ≤ limit ∧
    (LastAt blankLine (text.take limit) i ∨
      (∀ j, At blankLine (text.take limit) j → j = 0) ∧ LastAt ['\n'] (text.take limit) i)

theorem upTo_natCast (text : List Char) (limit : Nat) : upTo text limit = text.take limit := by
  rw [upTo, if_pos (Int.natCast_nonneg limit), Int.toNat_natCast]

/-- The last occurrence behind the start. -/
theorem filter_rfind
    (hne : w ≠ []) :
    ((rfind w l).filter (0 < ·) = some i ↔ 0 < i ∧ LastAt w l i) ∧
      ((rfind w l).filter (0 < ·) = none ↔ ∀ j, At w l j → j = 0) := by
  constructor
  · rw [Option.filter_eq_some_iff, rfind_eq_some hne, decide_eq_true_eq, and_comm]
  · rw [Option.filter_eq_none_iff]
    constructor
    · intro h j hj
      cases hfound : rfind w l with
      | none => exact absurd hj ((rfind_eq_none hne).mp hfound j)
      | some k =>
          have hk : k = 0 := by simpa using h k hfound
          exact Nat.le_zero.mp (hk ▸ ((rfind_eq_some hne).mp hfound).2 j hj)
    · intro h k hk
      simp [h k ((rfind_eq_some hne).mp hk).1]

/-- The section break of a text: its last blank line behind the start, or its last line feed
behind the start where there is no such blank line. -/
def BreakAt (candidate : List Char) (i : Nat) : Prop :=
  0 < i ∧ (LastAt blankLine candidate i ∨
    (∀ j, At blankLine candidate j → j = 0) ∧ LastAt ['\n'] candidate i)

theorem BreakAt.eq
    {candidate : List Char} {j : Nat} (hi : BreakAt candidate i) (hj : BreakAt candidate j) :
    i = j := by
  obtain ⟨hpos, hi | ⟨hnone, hi⟩⟩ := hi
  · obtain ⟨_, hj | ⟨hnone, _⟩⟩ := hj
    · exact hi.eq hj
    · exact absurd (hnone i hi.1) (by omega)
  · obtain ⟨hpos', hj | ⟨_, hj⟩⟩ := hj
    · exact absurd (hnone j hj.1) (by omega)
    · exact hi.eq hj

theorem BreakAt.le
    {candidate : List Char} (h : BreakAt candidate i) :
    i ≤ candidate.length := by
  obtain ⟨_, h | ⟨_, h⟩⟩ := h
  · exact Nat.le_of_add_right_le (h.1.le (by decide))
  · exact Nat.le_of_add_right_le (h.1.le (by decide))

theorem upTo_prefix (text : List Char) (limit : Int) : upTo text limit <+: text := by
  rw [upTo]
  split_ifs
  · exact List.take_prefix _ _
  · exact List.take_prefix _ _

/-- A text that is too long is cut at the break of its front, or to that front. -/
theorem trimToSection_cut
    {limit : Int} (hlong : limit < text.length) :
    (∃ i, BreakAt (upTo text limit) i ∧ trimToSection text limit = text.take i) ∨
      (∀ i, ¬ BreakAt (upTo text limit) i) ∧ trimToSection text limit = upTo text limit := by
  have hblank : blankLine ≠ [] := by decide
  have hfeed : (['\n'] : List Char) ≠ [] := by decide
  rw [trimToSection, if_neg (by omega)]
  dsimp only
  split
  next _ i hi =>
    have hi' := (filter_rfind hblank).1.mp hi
    exact Or.inl ⟨i, ⟨hi'.1, Or.inl hi'.2⟩, rfl⟩
  next i hnone hi =>
    have hi' := (filter_rfind hfeed).1.mp hi
    have hnone' := (filter_rfind (i := i) hblank).2.mp hnone
    exact Or.inl ⟨i, ⟨hi'.1, Or.inr ⟨hnone', hi'.2⟩⟩, rfl⟩
  next hnone hnone₁ =>
    have hnone' := (filter_rfind (i := 0) hblank).2.mp hnone
    have hnone₁' := (filter_rfind (i := 0) hfeed).2.mp hnone₁
    refine Or.inr ⟨?_, rfl⟩
    rintro j ⟨hj, hlast | ⟨_, hlast⟩⟩
    · exact absurd (hnone' j hlast.1) (by omega)
    · exact absurd (hnone₁' j hlast.1) (by omega)

/-- A text that is cut leaves room when it breaks before. -/
theorem length_trimToSection_iff
    {room limit : Nat} (hlong : limit < text.length) (hroom : 0 < room) :
    (trimToSection text limit).length + room ≤ limit ↔ BreaksBefore room limit text := by
  have hlength : (text.take limit).length = limit := by
    rw [List.length_take, Nat.min_eq_left hlong.le]
  have hcut := trimToSection_cut (Int.ofNat_lt.mpr hlong)
  rw [upTo_natCast] at hcut
  rcases hcut with ⟨i, hi, htrim⟩ | ⟨hnone, htrim⟩
  · have hle := hi.le
    rw [hlength] at hle
    rw [htrim, List.length_take, Nat.min_eq_left (by omega)]
    constructor
    · exact fun h => ⟨i, hi.1, h, hi.2⟩
    · rintro ⟨j, hj, hbefore, hbreak⟩
      rwa [hi.eq ⟨hj, hbreak⟩]
  · rw [htrim, hlength]
    refine ⟨fun h => absurd h (by omega), ?_⟩
    rintro ⟨j, hj, _, hbreak⟩
    exact absurd ⟨hj, hbreak⟩ (hnone j)

end Front

/-! ### The end of a text -/

/-- The header of a section. -/
def header : List Char := "\n## ".toList

/-- `text[-limit:]`; a negative limit counts from the front. -/
def lastPart (text : List Char) (limit : Int) : List Char :=
  if 0 < limit then text.drop (text.length - limit.toNat) else text.drop limit.natAbs

/-- `text.lstrip("\n")`. -/
def lstripNewlines (text : List Char) : List Char := text.dropWhile (· == '\n')

/-- `_trim_to_last_section`. -/
def trimToLastSection (text : List Char) (limit : Int) : List Char :=
  if text.length ≤ limit then text
  else
    match (finditer header text).reverse.find? fun i : Nat => (text.length : Int) - i ≤ limit with
    | some i => lstripNewlines (text.drop i)
    | none => lstripNewlines (lastPart text limit)

/-- The file of the chat's memory, and whether it has an archive. -/
structure ChatFile where
  text : List Char
  archived : Bool

def archivePointer : List Char :=
  "\n\n[Older sections are archived in chat_MEMORY_archive.md — ".toList ++
    "read that file for the full history.]".toList

/-- `max_chars or max_chat_memory_chars`. -/
def capOf (maxChatMemoryChars : Int) (maxChars : Option Int) : Int :=
  match maxChars with
  | none => maxChatMemoryChars
  | some n => if n = 0 then maxChatMemoryChars else n

/-- `chat_memory_block`; without a file backend there is none. -/
def chatMemoryBlock (backend : Option ChatFile) (maxChatMemoryChars : Int)
    (maxChars : Option Int) : Option (List Char) :=
  match backend with
  | none => none
  | some f =>
      let cap := capOf maxChatMemoryChars maxChars
      if f.text = [] then none
      else if f.text.length ≤ cap then some f.text
      else
        let trimmed := trimToLastSection f.text cap
        some (if f.archived then trimmed ++ archivePointer else trimmed)

/-- A section starts there, and the text from its header on fits. -/
def Fits (text : List Char) (limit : Int) (i : Nat) : Prop :=
  At header text i ∧ (text.length : Int) - i ≤ limit

/-- The first section from which on the text fits. -/
def Longest (text : List Char) (limit : Int) (i : Nat) : Prop :=
  Fits text limit i ∧ ∀ j, Fits text limit j → i ≤ j

section End

variable {text : List Char} {limit : Int} {i : Nat}

theorem header_ne_nil : header ≠ [] := by decide

theorem unbordered_header : Unbordered header := by
  intro k hpos hlt
  have hlen : header.length = 4 := rfl
  obtain rfl | rfl | rfl : k = 1 ∨ k = 2 ∨ k = 3 := by omega
  all_goals decide

/-- The section without the line feed before its header. -/
theorem lstripNewlines_drop
    (h : At header text i) :
    lstripNewlines (text.drop i) = text.drop (i + 1) := by
  obtain ⟨rest, hrest⟩ := h
  have hcons : text.drop i = '\n' :: '#' :: '#' :: ' ' :: rest := hrest.symm
  rw [← List.drop_drop, hcons]
  rfl

/-- A later section that starts in the text fits when an earlier one does. -/
theorem Fits.mono {j : Nat} (h : Fits text limit i) (hj : At header text j) (hle : i ≤ j) :
    Fits text limit j := ⟨hj, by have := h.2; omega⟩

/-- The loop stops at the last section. -/
theorem find_finditer
    (hfits : Fits text limit i) :
    ∃ j, LastAt header text j ∧
      ((finditer header text).reverse.find? fun i : Nat => (text.length : Int) - i ≤ limit) =
        some j := by
  have hmem : ∀ {j}, j ∈ finditer header text ↔ At header text j :=
    mem_finditer header_ne_nil unbordered_header
  have hsorted := pairwise_finditer header text
  obtain ⟨front, j, heq⟩ : ∃ front j, finditer header text = front ++ [j] :=
    List.eq_nil_or_concat' _ |>.resolve_left (List.ne_nil_of_mem (hmem.mpr hfits.1))
  have hlast : LastAt header text j := by
    refine ⟨hmem.mp (heq ▸ List.mem_concat_self), fun k hk => ?_⟩
    have hk := hmem.mpr hk
    rw [heq, List.mem_append, List.mem_singleton] at hk
    rw [heq, List.pairwise_append] at hsorted
    rcases hk with hfront | rfl
    · exact (hsorted.2.2 k hfront j List.mem_cons_self).le
    · exact le_rfl
  refine ⟨j, hlast, ?_⟩
  have hj := hfits.mono hlast.1 (hlast.2 i hfits.1)
  rw [heq, List.reverse_concat, List.find?_cons_of_pos (by simpa using hj.2)]

theorem trimToLastSection_eq
    (hlong : limit < text.length) (hfits : Fits text limit i) :
    ∃ j, LastAt header text j ∧ trimToLastSection text limit = text.drop (j + 1) := by
  obtain ⟨j, hlast, hfind⟩ := find_finditer hfits
  refine ⟨j, hlast, ?_⟩
  rw [trimToLastSection, if_neg (by omega), hfind]
  exact lstripNewlines_drop hlast.1

theorem chatMemoryBlock_eq
    {f : ChatFile} {limit₀ : Int} {maxChars : Option Int} (hne : f.text ≠ [])
    (hlong : capOf limit₀ maxChars < f.text.length) :
    chatMemoryBlock (some f) limit₀ maxChars =
      some (trimToLastSection f.text (capOf limit₀ maxChars) ++
        if f.archived then archivePointer else []) := by
  dsimp only [chatMemoryBlock]
  rw [if_neg hne, if_neg (by omega)]
  cases f.archived
  · simp
  · rfl

/-- Different sections are different ends of a text. -/
theorem drop_inj
    {j : Nat} (hi : At header text i) (hj : At header text j)
    (h : text.drop (i + 1) = text.drop (j + 1)) : i = j := by
  have hlen := congrArg List.length h
  have hile := hi.le header_ne_nil
  have hjle := hj.le header_ne_nil
  have hfour : header.length = 4 := rfl
  rw [List.length_drop, List.length_drop] at hlen
  omega

/-- The last section is the longest that fits just where no other fits. -/
theorem longest_last_iff
    {j : Nat} (hj : LastAt header text j) (hfits : ∃ i, Fits text limit i) :
    (∃ i, Longest text limit i ∧ text.drop (j + 1) = text.drop (i + 1)) ↔
      ∀ i k, Fits text limit i → Fits text limit k → i = k := by
  have hlast : Fits text limit j :=
    let ⟨i, hi⟩ := hfits
    hi.mono hj.1 (hj.2 i hi.1)
  constructor
  · rintro ⟨i, hi, heq⟩ k l hk hl
    obtain rfl := drop_inj hj.1 hi.1.1 heq
    have hfirst := fun {k} (hk : Fits text limit k) =>
      Nat.le_antisymm (hj.2 k hk.1) (hi.2 k hk)
    rw [hfirst hk, hfirst hl]
  · exact fun hsingle => ⟨j, ⟨hlast, fun k hk => (hsingle j k hlast hk).le⟩, rfl⟩

/-- Where a section fits, the text is trimmed to the longest section that fits just when only
one does, and so is the block that is shown of the chat's memory. -/
theorem lastSection_longest_iff
    (text : List Char) (limit : Int) (hlong : limit < text.length)
    (hfits : ∃ i, Fits text limit i) :
    ((∃ i, Longest text limit i ∧ trimToLastSection text limit = text.drop (i + 1)) ↔
      ∀ i j, Fits text limit i → Fits text limit j → i = j) ∧
    ∀ (archived : Bool) (maxChatMemoryChars : Int) (maxChars : Option Int),
      capOf maxChatMemoryChars maxChars = limit →
      ((∃ i, Longest text limit i ∧
          chatMemoryBlock (some ⟨text, archived⟩) maxChatMemoryChars maxChars =
            some (text.drop (i + 1) ++ if archived then archivePointer else [])) ↔
        ∀ i j, Fits text limit i → Fits text limit j → i = j) := by
  obtain ⟨i, hi⟩ := hfits
  obtain ⟨j, hlast, heq⟩ := trimToLastSection_eq hlong hi
  refine ⟨?_, ?_⟩
  · rw [heq]
    exact longest_last_iff hlast ⟨i, hi⟩
  · rintro archived maxChatMemoryChars maxChars rfl
    have hne : text ≠ [] := by
      rintro rfl
      exact at_nil header_ne_nil hi.1
    rw [chatMemoryBlock_eq hne hlong, ← longest_last_iff hlast ⟨i, hi⟩]
    simp only [heq, Option.some.injEq, List.append_cancel_right_eq]

/-- Of two sections only the last one fits. -/
theorem lastSection_longest_single :
    let text := "\n## a\n## b".toList
    ∃ i, Longest text 5 i ∧ trimToLastSection text 5 = text.drop (i + 1) := by
  have hlast : ∀ i, Fits "\n## a\n## b".toList 5 i → i = 5 := by
    intro i h
    have hle := h.1.le header_ne_nil
    have hfits := h.2
    have htext : "\n## a\n## b".toList.length = 10 := rfl
    have hheader : header.length = 4 := rfl
    obtain rfl | rfl : i = 5 ∨ i = 6 := by omega
    · rfl
    · exact absurd h.1 (by decide)
  exact (lastSection_longest_iff "\n## a\n## b".toList 5 (by decide)
    ⟨5, by decide, by decide⟩).1.mpr fun i j hi hj => (hlast i hi).trans (hlast j hj).symm

/-- Two sections fit, and only the last one is kept. -/
theorem fitting_section_dropped :
    let text := "x\n## a\n## b".toList
    (10 < text.length ∧ Fits text 10 1) ∧
      trimToLastSection text 10 = "## b".toList ∧
      ¬ ∃ i, Longest text 10 i ∧ trimToLastSection text 10 = text.drop (i + 1) := by
  refine ⟨⟨by decide, by decide, by decide⟩, by decide, ?_⟩
  rintro ⟨i, hi, heq⟩
  have hle : i ≤ 1 := hi.2 1 ⟨by decide, by decide⟩
  obtain rfl | rfl : i = 0 ∨ i = 1 := by omega
  · exact absurd hi.1.1 (by decide)
  · exact absurd heq (by decide)

end End

end Trimming
end DiploidAgent
