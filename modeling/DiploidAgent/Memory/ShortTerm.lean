import DiploidAgent.Lib.Separators
import DiploidAgent.Lib.Text
import DiploidAgent.Memory.Trimming
import Mathlib.Data.List.DropRight

/-!
# The short-term block

`memory_short_term.py`: the recent turns of the transcript, of which the last ones stay as
they are and the older ones are summarized when all of them are too many.

Both blocks are within the budget when the recent turns are, or when the summary with the
fresh turns is.  A notice or a marker that is added to a text already cut to the budget fits
only when the cut is early enough, and the block for compaction shows fresh turns without a
summary however long they are (`budget_kept_iff`).
-/

namespace DiploidAgent
namespace ShortTerm

open Context (trimToSection)
open Text (strip)
open Trimming

/-! ### The windows -/

/-- An entry of the transcript, with what it has of a role and of a content. -/
structure Entry where
  role : Option (List Char)
  content : Option (List Char)

/-- What the functions read of `MemoryConfig`. -/
structure MemoryConfig where
  includeShortTerm : Bool := true
  shortTermStrategy : String := "smart"
  shortTermTurns : Int := 10
  minShortTermTurns : Int := 2
  maxShortTermChars : Int := 6144

/-- `l[-k:]`, which is the whole list for 0. -/
def lastOf {α : Type} (k : Nat) (l : List α) : List α := if k = 0 then l else l.rtake k

/-- `l[:-k]`, which is empty for 0. -/
def butLast {α : Type} (k : Nat) (l : List α) : List α := if k = 0 then [] else l.rdrop k

structure Windows where
  recent : List Entry
  fresh : List Entry
  older : List Entry

def splitRecent (minPairs : Nat) (recent : List Entry) : Windows :=
  if recent.length ≤ minPairs then ⟨recent, recent, []⟩
  else ⟨recent, lastOf minPairs recent, butLast minPairs recent⟩

/-- `window`. -/
def window (c : MemoryConfig) (transcript : List Entry) : Windows :=
  let n := c.shortTermTurns * 2
  let recent := if 0 < n then lastOf n.toNat transcript else transcript
  splitRecent (max 0 (c.minShortTermTurns * 2)).toNat recent

/-- `str.capitalize`, the files of the cache and the engine. -/
structure Surroundings where
  capitalize : List Char → List Char
  /-- The summary of just these entries. -/
  summaryFile : List Entry → Option (List Char)
  /-- All summaries, the newest first. -/
  newest : List (List Char)
  /-- The engine's reply, or none when the call fails. -/
  engine : List Entry → Option (List Char)

def line (s : Surroundings) (e : Entry) : List Char :=
  s.capitalize (e.role.getD "unknown".toList) ++ ": ".toList ++ e.content.getD []

/-- The turns without a headline. -/
def turnsText (s : Surroundings) (entries : List Entry) : List Char :=
  blankLine.intercalate (entries.map (line s))

/-- `format_recent_turns`. -/
def formatRecentTurns (s : Surroundings) (entries : List Entry) : List Char :=
  blankLine.intercalate ("Recent conversation:".toList :: entries.map (line s))

/-! ### The summary -/

/-- `_load_or_summarize`. -/
def loadOrSummarize (c : MemoryConfig) (s : Surroundings) (entries : List Entry) : List Char :=
  match s.summaryFile entries with
  | some summary => summary
  | none =>
      match s.engine entries with
      | some reply => strip reply
      | none => trimToSection (turnsText s entries) c.maxShortTermChars

/-- The first turns of the older ones. -/
def firstPairs (maxPairs : Int) (older : List Entry) : List Entry :=
  let maxEntries := (max 0 (maxPairs * 2)).toNat
  if maxEntries ≠ 0 ∧ maxEntries < older.length then older.take maxEntries else older

/-- `summarize_and_retain`. -/
def summarizeAndRetain (c : MemoryConfig) (s : Surroundings) (transcript : List Entry)
    (n : Option Int) : List Char :=
  let w := window c transcript
  if !c.includeShortTerm then []
  else if c.shortTermStrategy ≠ "smart" then []
  else if w.older = [] then []
  else if (formatRecentTurns s w.recent).length ≤ c.maxShortTermChars then []
  else if c.maxShortTermChars ≤ (formatRecentTurns s w.fresh).length then []
  else
    let maxPairs := n.getD (c.shortTermTurns - c.minShortTermTurns)
    loadOrSummarize c s (firstPairs maxPairs w.older)

/-- The summary that a fresh session finds in the cache. -/
def cachedSummary (s : Surroundings) (older : List Entry) : List Char :=
  if older = [] then []
  else (s.summaryFile older).getD ((s.newest.find? (· ≠ [])).getD [])

/-! ### The blocks -/

def summaryHead : List Char := "Summary of earlier short-term turns:\n\n".toList

def truncationNotice : List Char :=
  "\n\n[... short-term context truncated because even the minimum ".toList ++
    "fresh turns exceed the budget ...]".toList

def truncationMarker : List Char := "\n[... older turns truncated ...]".toList

/-- What the head and the fresh turns leave of the budget. -/
def summaryCap (maxChars : Int) (freshText : List Char) : Int :=
  max 0 (maxChars - freshText.length - summaryHead.length - 2)

/-- The end of both functions: the summary before the fresh turns. -/
def withSummary (maxChars : Int) (summary freshText : List Char) : List Char :=
  let combined := summaryHead ++ summary ++ blankLine ++ freshText
  if combined.length ≤ maxChars then combined
  else if summaryCap maxChars freshText = 0 then freshText
  else
    summaryHead ++ trimToSection summary (summaryCap maxChars freshText) ++ truncationMarker ++
      blankLine ++ freshText

/-- `context`. -/
def context (c : MemoryConfig) (s : Surroundings) (transcript : List Entry) : List Char :=
  let w := window c transcript
  let rawText := formatRecentTurns s w.recent
  let freshText := formatRecentTurns s w.fresh
  let maxChars := c.maxShortTermChars
  if !c.includeShortTerm then []
  else if w.recent = [] then []
  else if c.shortTermStrategy ≠ "smart" then rawText
  else if rawText.length ≤ maxChars then rawText
  else if w.older = [] then trimToSection rawText maxChars ++ truncationNotice
  else if maxChars ≤ freshText.length then trimToSection freshText maxChars ++ truncationNotice
  else
    let summary :=
      summarizeAndRetain c s transcript (some (c.shortTermTurns - c.minShortTermTurns))
    if summary = [] then freshText else withSummary maxChars summary freshText

/-- `compaction_context`. -/
def compactionContext (c : MemoryConfig) (s : Surroundings) (transcript : List Entry) :
    List Char :=
  let w := window c transcript
  let rawText := formatRecentTurns s w.recent
  let freshText := formatRecentTurns s w.fresh
  let maxChars := c.maxShortTermChars
  if !c.includeShortTerm then []
  else if w.recent = [] then []
  else if rawText.length ≤ maxChars then rawText
  else
    let summary := cachedSummary s w.older
    if summary = [] then freshText else withSummary maxChars summary freshText

/-! ### What is claimed -/

section Budget

variable {c : MemoryConfig} {s : Surroundings} {transcript : List Entry}

/-- A block is within the budget, and the fresh turns stand at its end when they fit.  Without
`include_short_term` there is no block. -/
def Kept (c : MemoryConfig) (s : Surroundings) (transcript : List Entry) (block : List Char) :
    Prop :=
  let fresh := (window c transcript).fresh
  block.length ≤ c.maxShortTermChars ∧
    (c.includeShortTerm → (formatRecentTurns s fresh).length ≤ c.maxShortTermChars →
      turnsText s fresh <:+ block)

/-- All recent turns fit. -/
def RawFits (c : MemoryConfig) (s : Surroundings) (transcript : List Entry) : Prop :=
  (formatRecentTurns s (window c transcript).recent).length ≤ c.maxShortTermChars

/-- A summary fits before the fresh turns, or is left out, or is cut early enough for the
marker. -/
def SummaryFits (maxChars : Int) (summary freshText : List Char) : Prop :=
  summary = [] ∨ (summaryHead ++ summary ++ blankLine ++ freshText).length ≤ maxChars ∨
    summaryCap maxChars freshText = 0 ∨
    BreaksBefore truncationMarker.length (summaryCap maxChars freshText).toNat summary

/-- Fresh turns that are too long are cut early enough for the notice, and shorter ones leave
room for the summary. -/
def ContextFits (c : MemoryConfig) (s : Surroundings) (transcript : List Entry) : Prop :=
  let w := window c transcript
  let freshText := formatRecentTurns s w.fresh
  (c.maxShortTermChars < freshText.length ∧
      BreaksBefore truncationNotice.length c.maxShortTermChars.toNat freshText) ∨
    (freshText.length < c.maxShortTermChars ∧
      SummaryFits c.maxShortTermChars
        (loadOrSummarize c s (firstPairs (c.shortTermTurns - c.minShortTermTurns) w.older))
        freshText)

/-- The fresh turns fit, and so does the summary of the cache. -/
def CompactionFits (c : MemoryConfig) (s : Surroundings) (transcript : List Entry) : Prop :=
  let w := window c transcript
  let freshText := formatRecentTurns s w.fresh
  freshText.length ≤ c.maxShortTermChars ∧
    SummaryFits c.maxShortTermChars (cachedSummary s w.older) freshText

/-! ### The windows -/

theorem lastOf_suffix {α : Type} (k : Nat) (l : List α) : lastOf k l <:+ l := by
  unfold lastOf
  split
  · exact List.suffix_rfl
  · exact List.drop_suffix _ _

theorem fresh_suffix (c : MemoryConfig) (transcript : List Entry) :
    (window c transcript).fresh <:+ (window c transcript).recent := by
  have hsplit : ∀ k recent, (splitRecent k recent).fresh <:+ (splitRecent k recent).recent := by
    intro k recent
    unfold splitRecent
    split
    · exact List.suffix_rfl
    · exact lastOf_suffix k recent
  exact hsplit _ _

/-- Without older turns the fresh ones are all. -/
theorem fresh_eq_recent
    (h : (window c transcript).older = []) :
    (window c transcript).fresh = (window c transcript).recent := by
  have hsplit : ∀ k recent, (splitRecent k recent).older = [] →
      (splitRecent k recent).fresh = (splitRecent k recent).recent := by
    intro k recent
    unfold splitRecent
    split
    · exact fun _ => rfl
    next hmore =>
      dsimp only [butLast, lastOf]
      split
      · exact fun _ => rfl
      next hzero =>
        intro hnil
        have hlen := congrArg List.length hnil
        rw [List.rdrop, List.length_take, List.length_nil] at hlen
        omega
  exact hsplit _ _ h

theorem fresh_eq_nil
    (h : (window c transcript).recent = []) :
    (window c transcript).fresh = [] := by
  have hsuffix := fresh_suffix c transcript
  rw [h] at hsuffix
  exact List.suffix_nil.mp hsuffix

theorem turnsText_suffix (s : Surroundings) {entries all : List Entry} (h : entries <:+ all) :
    turnsText s entries <:+ formatRecentTurns s all :=
  Separators.intercalate_suffix blankLine
    ((h.map (line s)).trans (List.suffix_cons "Recent conversation:".toList _))

/-! ### The exits -/

/-- What is added to a text that is cut to the budget. -/
theorem length_trimmed_iff
    (notice : List Char) {text : List Char} {limit : Int} (hlong : limit < text.length) (hpos : 0 < limit)
    (hne : 0 < notice.length) :
    ((trimToSection text limit ++ notice).length : Int) ≤ limit ↔
      BreaksBefore notice.length limit.toNat text := by
  obtain ⟨n, rfl⟩ := Int.eq_ofNat_of_zero_le hpos.le
  rw [Int.toNat_natCast, ← length_trimToSection_iff (by omega) hne, List.length_append]
  omega

theorem summaryCap_nonneg (maxChars : Int) (freshText : List Char) :
    0 ≤ summaryCap maxChars freshText := le_max_left _ _

/-- The fresh turns stand behind the summary. -/
theorem withSummary_suffix (maxChars : Int) (summary freshText : List Char) :
    freshText <:+ withSummary maxChars summary freshText := by
  dsimp only [withSummary]
  split
  · exact List.suffix_append _ _
  · split
    · exact List.suffix_rfl
    · exact List.suffix_append _ _

/-- The three exits with a summary. -/
theorem withSummary_length_iff
    {maxChars : Int} {summary freshText : List Char} (hne : summary ≠ [])
    (hfresh : freshText.length ≤ maxChars) :
    (withSummary maxChars summary freshText).length ≤ maxChars ↔
      SummaryFits maxChars summary freshText := by
  dsimp only [withSummary]
  split
  next hcombined => exact iff_of_true hcombined (Or.inr (Or.inl hcombined))
  next hcombined =>
    split
    next hcap => exact iff_of_true hfresh (Or.inr (Or.inr (Or.inl hcap)))
    next hcap =>
      have hpos := lt_of_le_of_ne (summaryCap_nonneg maxChars freshText) (Ne.symm hcap)
      have hexact : summaryCap maxChars freshText =
          maxChars - freshText.length - summaryHead.length - 2 := by
        rw [summaryCap] at hpos ⊢
        omega
      have hblank : blankLine.length = 2 := rfl
      have hlong : summaryCap maxChars freshText < summary.length := by
        rw [hexact]
        simp only [List.length_append, hblank] at hcombined
        omega
      have hmarker := length_trimmed_iff truncationMarker hlong hpos (by decide)
      have hlength : ((summaryHead ++ trimToSection summary (summaryCap maxChars freshText) ++
            truncationMarker ++ blankLine ++ freshText).length : Int) ≤ maxChars ↔
          ((trimToSection summary (summaryCap maxChars freshText) ++
            truncationMarker).length : Int) ≤ summaryCap maxChars freshText := by
        simp only [List.length_append, hblank]
        omega
      rw [hlength, hmarker, SummaryFits]
      simp only [hne, hcombined, hcap, false_or]

/-! ### The blocks -/

theorem context_of_rawFits
    (hin : c.includeShortTerm = true) (hne : (window c transcript).recent ≠ [])
    (hraw : RawFits c s transcript) :
    context c s transcript = formatRecentTurns s (window c transcript).recent := by
  rw [RawFits] at hraw
  dsimp only [context]
  rw [if_neg (by simp [hin]), if_neg hne, if_pos hraw, ite_self]

/-- The fresh turns are cut when they do not stay below the budget. -/
theorem context_of_le
    (hin : c.includeShortTerm = true) (hne : (window c transcript).recent ≠ [])
    (hsmart : c.shortTermStrategy = "smart") (hraw : ¬ RawFits c s transcript)
    (hle : c.maxShortTermChars ≤ (formatRecentTurns s (window c transcript).fresh).length) :
    context c s transcript =
      trimToSection (formatRecentTurns s (window c transcript).fresh) c.maxShortTermChars ++
        truncationNotice := by
  rw [RawFits] at hraw
  dsimp only [context]
  rw [if_neg (by simp [hin]), if_neg hne, if_neg (not_not.mpr hsmart), if_neg hraw]
  by_cases holder : (window c transcript).older = []
  · rw [if_pos holder, fresh_eq_recent holder]
  · rw [if_neg holder, if_pos hle]

theorem context_of_lt
    (hin : c.includeShortTerm = true) (hne : (window c transcript).recent ≠ [])
    (hsmart : c.shortTermStrategy = "smart") (hraw : ¬ RawFits c s transcript)
    (hlt : (formatRecentTurns s (window c transcript).fresh).length < c.maxShortTermChars) :
    context c s transcript =
      let w := window c transcript
      let summary :=
        loadOrSummarize c s (firstPairs (c.shortTermTurns - c.minShortTermTurns) w.older)
      if summary = [] then formatRecentTurns s w.fresh
      else withSummary c.maxShortTermChars summary (formatRecentTurns s w.fresh) := by
  rw [RawFits] at hraw
  have holder : (window c transcript).older ≠ [] := by
    intro hnil
    refine hraw ?_
    rw [← fresh_eq_recent hnil]
    exact hlt.le
  have hsummary : summarizeAndRetain c s transcript
        (some (c.shortTermTurns - c.minShortTermTurns)) =
      loadOrSummarize c s (firstPairs (c.shortTermTurns - c.minShortTermTurns)
        (window c transcript).older) := by
    dsimp only [summarizeAndRetain]
    rw [if_neg (by simp [hin]), if_neg (not_not.mpr hsmart), if_neg holder, if_neg hraw,
      if_neg (not_le.mpr hlt), Option.getD_some]
  dsimp only [context]
  rw [if_neg (by simp [hin]), if_neg hne, if_neg (not_not.mpr hsmart), if_neg hraw,
    if_neg holder, if_neg (not_le.mpr hlt), hsummary]

theorem compactionContext_of_rawFits
    (hin : c.includeShortTerm = true) (hne : (window c transcript).recent ≠ [])
    (hraw : RawFits c s transcript) :
    compactionContext c s transcript = formatRecentTurns s (window c transcript).recent := by
  rw [RawFits] at hraw
  dsimp only [compactionContext]
  rw [if_neg (by simp [hin]), if_neg hne, if_pos hraw]

theorem compactionContext_of_not_rawFits
    (hin : c.includeShortTerm = true) (hne : (window c transcript).recent ≠ [])
    (hraw : ¬ RawFits c s transcript) :
    compactionContext c s transcript =
      let w := window c transcript
      if cachedSummary s w.older = [] then formatRecentTurns s w.fresh
      else withSummary c.maxShortTermChars (cachedSummary s w.older)
        (formatRecentTurns s w.fresh) := by
  rw [RawFits] at hraw
  dsimp only [compactionContext]
  rw [if_neg (by simp [hin]), if_neg hne, if_neg hraw]

/-- Recent turns that fit are shown as they are. -/
theorem kept_recent
    (hraw : RawFits c s transcript) :
    Kept c s transcript (formatRecentTurns s (window c transcript).recent) :=
  ⟨hraw, fun _ _ => turnsText_suffix s (fresh_suffix c transcript)⟩

/-- A block with a summary is kept when the summary fits. -/
theorem kept_summary_iff
    {summary : List Char}
    (hfresh : (formatRecentTurns s (window c transcript).fresh).length ≤ c.maxShortTermChars) :
    Kept c s transcript
        (if summary = [] then formatRecentTurns s (window c transcript).fresh
          else withSummary c.maxShortTermChars summary
            (formatRecentTurns s (window c transcript).fresh)) ↔
      SummaryFits c.maxShortTermChars summary
        (formatRecentTurns s (window c transcript).fresh) := by
  have hturns := turnsText_suffix s (List.suffix_refl (window c transcript).fresh)
  split
  next hnil => exact iff_of_true ⟨hfresh, fun _ _ => hturns⟩ (Or.inl hnil)
  next hne =>
    rw [← withSummary_length_iff hne hfresh]
    exact ⟨fun h => h.1, fun h => ⟨h, fun _ _ =>
      hturns.trans (withSummary_suffix _ _ _)⟩⟩

theorem context_kept_iff
    (hin : c.includeShortTerm = true) (hne : (window c transcript).recent ≠ [])
    (hsmart : c.shortTermStrategy = "smart") (hpos : 0 < c.maxShortTermChars) :
    Kept c s transcript (context c s transcript) ↔
      RawFits c s transcript ∨ ContextFits c s transcript := by
  by_cases hraw : RawFits c s transcript
  · rw [context_of_rawFits hin hne hraw]
    exact iff_of_true (kept_recent hraw) (Or.inl hraw)
  · have hnotice : 0 < truncationNotice.length := by decide
    rw [or_iff_right hraw]
    rcases lt_trichotomy ((formatRecentTurns s (window c transcript).fresh).length : Int)
      c.maxShortTermChars with hlt | heq | hlt
    · rw [context_of_lt hin hne hsmart hraw hlt]
      refine (kept_summary_iff hlt.le).trans ?_
      exact ⟨fun h => Or.inr ⟨hlt, h⟩, fun h => (h.resolve_left fun h => h.1.not_gt hlt).2⟩
    · -- Fresh turns of just the budget are not cut, and get the notice.
      rw [context_of_le hin hne hsmart hraw heq.ge, trimToSection, if_pos heq.le]
      refine iff_of_false (fun h => ?_) ?_
      · have hlen := h.1
        rw [List.length_append] at hlen
        omega
      · rintro (h | h)
        · exact h.1.ne heq.symm
        · exact h.1.ne heq
    · rw [context_of_le hin hne hsmart hraw hlt.le]
      have hcut := length_trimmed_iff truncationNotice hlt hpos hnotice
      constructor
      · exact fun h => Or.inl ⟨hlt, hcut.mp h.1⟩
      · intro h
        have hbreaks := (h.resolve_right fun h => h.1.not_gt hlt).2
        exact ⟨hcut.mpr hbreaks, fun _ hfits => absurd hfits hlt.not_ge⟩

theorem compactionContext_kept_iff
    (hin : c.includeShortTerm = true) (hne : (window c transcript).recent ≠ []) :
    Kept c s transcript (compactionContext c s transcript) ↔
      RawFits c s transcript ∨ CompactionFits c s transcript := by
  by_cases hraw : RawFits c s transcript
  · rw [compactionContext_of_rawFits hin hne hraw]
    exact iff_of_true (kept_recent hraw) (Or.inl hraw)
  · rw [or_iff_right hraw, compactionContext_of_not_rawFits hin hne hraw]
    by_cases hfresh :
      (formatRecentTurns s (window c transcript).fresh).length ≤ c.maxShortTermChars
    · refine (kept_summary_iff hfresh).trans ?_
      exact ⟨fun h => ⟨hfresh, h⟩, fun h => h.2⟩
    · refine iff_of_false (fun h => hfresh ?_) fun h => hfresh h.1
      refine le_trans (Int.ofNat_le.mpr ?_) h.1
      dsimp only
      split
      · exact le_rfl
      · exact (withSummary_suffix _ _ _).length_le

/-- Both blocks are within the budget with the fresh turns at their end, just when all recent
turns fit, or both the fresh turns and the summaries do, or what is cut leaves room for what
is said of it. -/
theorem budget_kept_iff
    (c : MemoryConfig) (s : Surroundings) (transcript : List Entry)
    (hsmart : c.shortTermStrategy = "smart") (hpos : 0 < c.maxShortTermChars) :
    (Kept c s transcript (context c s transcript) ∧
        Kept c s transcript (compactionContext c s transcript)) ↔
      c.includeShortTerm = false ∨ (window c transcript).recent = [] ∨
        RawFits c s transcript ∨
        (ContextFits c s transcript ∧ CompactionFits c s transcript) := by
  by_cases hin : c.includeShortTerm = true
  · by_cases hnil : (window c transcript).recent = []
    · have hempty : Kept c s transcript [] := by
        refine ⟨hpos.le, fun _ _ => ?_⟩
        rw [fresh_eq_nil hnil]
        exact List.suffix_rfl
      have hcontext : context c s transcript = [] := by
        dsimp only [context]
        rw [if_pos hnil, ite_self]
      have hcompaction : compactionContext c s transcript = [] := by
        dsimp only [compactionContext]
        rw [if_pos hnil, ite_self]
      rw [hcontext, hcompaction]
      exact iff_of_true ⟨hempty, hempty⟩ (Or.inr (Or.inl hnil))
    · rw [context_kept_iff hin hnil hsmart hpos, compactionContext_kept_iff hin hnil]
      simp only [hin, hnil, Bool.true_eq_false, false_or, ← or_and_left]
  · have hout : c.includeShortTerm = false := Bool.eq_false_iff.mpr hin
    have hempty : Kept c s transcript [] := ⟨hpos.le, fun h => absurd h hin⟩
    have hcontext : context c s transcript = [] := by
      dsimp only [context]
      rw [if_pos (by simp [hout])]
    have hcompaction : compactionContext c s transcript = [] := by
      dsimp only [compactionContext]
      rw [if_pos (by simp [hout])]
    rw [hcontext, hcompaction]
    exact iff_of_true ⟨hempty, hempty⟩ (Or.inl hout)

/-! ### A small budget -/

def smallBudget : MemoryConfig := { minShortTermTurns := 1, maxShortTermChars := 110 }

def twoTurns : List Entry :=
  let entry (role content : String) : Entry := ⟨some role.toList, some content.toList⟩
  [entry "user" (String.ofList (List.replicate 90 'x')), entry "assistant" "yes",
    entry "user" "why", entry "assistant" "so"]

/-- A cache with one summary. -/
def oneSummary (summary : List Char) : Surroundings where
  capitalize := id
  summaryFile := fun _ => some summary
  newest := [summary]
  engine := fun _ => none

/-- A short summary before one fresh turn. -/
theorem budget_kept_short :
    let s := oneSummary ['y', 'e', 's']
    Kept smallBudget s twoTurns (context smallBudget s twoTurns) ∧
      Kept smallBudget s twoTurns (compactionContext smallBudget s twoTurns) := by
  refine (budget_kept_iff _ _ _ rfl (by decide)).mpr (Or.inr (Or.inr (Or.inr ⟨?_, ?_⟩)))
  · exact Or.inr ⟨by decide +kernel, Or.inr (Or.inl (by decide +kernel))⟩
  · exact ⟨by decide +kernel, Or.inr (Or.inl (by decide +kernel))⟩

/-- The fresh turns fit, and the marker is beyond the budget. -/
theorem marker_exceeds_budget :
    let s := oneSummary (List.replicate 100 's')
    (formatRecentTurns s (window smallBudget twoTurns).fresh).length = 46 ∧
      (context smallBudget s twoTurns).length = 142 ∧
      ¬ (Kept smallBudget s twoTurns (context smallBudget s twoTurns) ∧
        Kept smallBudget s twoTurns (compactionContext smallBudget s twoTurns)) := by
  have hlength : ((context smallBudget (oneSummary (List.replicate 100 's'))
      twoTurns).length : Int) = 142 := by decide +kernel
  have hbudget : smallBudget.maxShortTermChars = 110 := rfl
  refine ⟨by decide +kernel, by exact_mod_cast hlength, fun h => ?_⟩
  have hle := h.1.1
  rw [hlength, hbudget] at hle
  exact absurd hle (by decide)

end Budget

end ShortTerm
end DiploidAgent
