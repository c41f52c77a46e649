import DiploidAgent.Telegram.SplitText
import Mathlib.Logic.Relation

/-!
# The splitter comes to an end

A pass takes nothing off the rest where not one character fits into the room of the chunk.
With the limits of the callers that is so for a carried tag that leaves a single unit, in
front of a character of two.  Such a pass changes no variable of the loop, and the loop does
not end; without one it does (`split_returns_iff`).
-/

namespace DiploidAgent
namespace Telegram
namespace SplitText

open Bisect Text

/-! ### Lengths -/

section Lengths

variable {s : List Char} {budget : Int}

@[simp] theorem utf16Len_nil : utf16Len [] = 0 := rfl

@[simp] theorem utf16Len_cons (c : Char) (s : List Char) :
    utf16Len (c :: s) = utf16Width c + utf16Len s := by
  simp [utf16Len]

@[simp] theorem utf16Len_append (s t : List Char) :
    utf16Len (s ++ t) = utf16Len s + utf16Len t := by
  simp [utf16Len]

@[simp] theorem utf16Len_replicate (n : Nat) (c : Char) :
    utf16Len (List.replicate n c) = n * utf16Width c := by
  simp [utf16Len]

theorem utf16Width_cases (c : Char) : utf16Width c = 1 ∨ utf16Width c = 2 := by
  unfold utf16Width
  split_ifs
  · exact Or.inl rfl
  · exact Or.inr rfl

theorem length_le_utf16Len
    (s : List Char) :
    s.length ≤ utf16Len s := by
  induction s with
  | nil => exact Nat.le_refl 0
  | cons c s ih =>
      rw [List.length_cons, utf16Len_cons]
      have hwidth := utf16Width_cases c
      omega

/-- A longer beginning has no fewer units. -/
theorem utf16Len_take_mono
    (s : List Char) {i j : Nat} (h : i ≤ j) :
    utf16Len (s.take i) ≤ utf16Len (s.take j) := by
  obtain ⟨t, ht⟩ := List.take_prefix_take_left (l := s) h
  rw [← ht, utf16Len_append]
  exact Nat.le_add_right _ _

theorem safeSliceBudget_fits
    (s : List Char) (hbudget : 0 ≤ budget) :
    (utf16Len (s.take (safeSliceBudget s budget fun s => utf16Len s)) : Int) ≤ budget := by
  unfold safeSliceBudget
  split_ifs with hall
  · rwa [List.take_length]
  · have hfits := @bisect_fits (fun mid => (utf16Len (s.take mid) : Int) ≤ budget) s.length 0
      s.length (decide_eq_true (by simpa using hbudget))
    exact of_decide_eq_true hfits

theorem le_safeSliceBudget
    {k : Nat}
    (hk : k ≤ s.length) (hfits : (utf16Len (s.take k) : Int) ≤ budget) :
    k ≤ safeSliceBudget s budget fun s => utf16Len s := by
  unfold safeSliceBudget
  split_ifs with hall
  · exact hk
  · refine le_bisect_of_fits (by omega) (fun i j hij hj => ?_) hk (decide_eq_true hfits)
    have hmono := utf16Len_take_mono s hij
    have hj : (utf16Len (s.take j) : Int) ≤ budget := of_decide_eq_true hj
    have hi : (utf16Len (s.take i) : Int) ≤ budget := by omega
    exact decide_eq_true hi

theorem safeSliceBudget_le
    (s : List Char) (budget : Int) (lenFn : List Char → Int) :
    safeSliceBudget s budget lenFn ≤ s.length := by
  unfold safeSliceBudget
  split_ifs
  · exact Nat.le_refl _
  · exact bisect_le (Nat.zero_le _)

end Lengths

/-! ### Passes -/

section Passes

/-- The limits of the callers. -/
structure CallerLimits (lim : Limits) : Prop where
  maxLength : lim.maxLength = 4096
  reserve : lim.reserve = 12 ∨ lim.reserve = 16
  lenFn : lim.lenFn = .utf16 ∨ lim.lenFn = .len

/-- A pass that is not the last one. -/
structure Pass (lim : Limits) (p q : Pos) : Prop where
  rest : p.remaining ≠ []
  long : fitsFinal lim p = false
  cut : q = cutPos lim p

/-- The loop comes to these variables. -/
structure Reached (lim : Limits) (content : List Char) (p : Pos) : Prop where
  long : ¬ lim.lenFn.length content ≤ lim.maxLength
  passes : Relation.ReflTransGen (Pass lim) (start content) p

/-- The carried tag leaves one unit, and the rest begins with a character of two. -/
structure Stuck (lim : Limits) (p : Pos) : Prop where
  units : lim.lenFn = .utf16
  tag : ∃ lang, p.carryLang = some lang ∧ (utf16Len lang : Int) + 9 = lim.maxLength - lim.reserve
  wide : ∃ c rest, p.remaining = c :: rest ∧ utf16Width c = 2
  long : fitsFinal lim p = false

/-- Every pass takes off a character. -/
def Progress (lim : Limits) (content : List Char) : Prop :=
  ∀ p, Reached lim content p → p.remaining ≠ [] → fitsFinal lim p = false →
    (cutPos lim p).remaining.length < p.remaining.length

variable {lim : Limits} {content : List Char} {p : Pos} {fuel : Nat}

theorem Reached.start
    (hlong : ¬ lim.lenFn.length content ≤ lim.maxLength) :
    Reached lim content (start content) :=
  ⟨hlong, .refl⟩

theorem Reached.next
    (h : Reached lim content p) (hrest : p.remaining ≠ []) (hfits : fitsFinal lim p = false) :
    Reached lim content (cutPos lim p) :=
  ⟨h.long, h.passes.tail ⟨hrest, hfits, rfl⟩⟩

theorem headroom_pos (lim : Limits) (p : Pos) : 1 ≤ headroom lim p := by
  unfold headroom
  split_ifs <;> omega

theorem utf16Len_reopen
    (carry : Option (List Char)) :
    utf16Len (reopen carry) = carry.elim 0 fun lang => utf16Len lang + 4 := by
  cases carry with
  | none => rfl
  | some lang =>
      have hticks : utf16Len ticks = 3 := by decide
      have hline : utf16Width '\n' = 1 := by decide
      simp [reopen, hticks, hline]
      omega

@[simp] theorem utf16Len_fenceClose : utf16Len fenceClose = 4 := by decide

@[simp] theorem utf16_length (s : List Char) : LenFn.utf16.length s = utf16Len s := rfl

/-- The room in units. -/
theorem room_utf16
    (hunits : lim.lenFn = .utf16) :
    room lim p =
      lim.maxLength - lim.reserve - utf16Len (reopen p.carryLang) - 4 := by
  simp [room, hunits]

theorem cpLimit_utf16
    (hunits : lim.lenFn = .utf16) :
    cpLimit lim p = safeSliceBudget p.remaining (headroom lim p) fun s => utf16Len s := by
  unfold cpLimit
  rw [hunits]
  rfl

/-- A pass cuts a character off unless it is stuck. -/
theorem cpLimit_pos
    (hlim : CallerLimits lim) (hrest : p.remaining ≠ []) (hfits : fitsFinal lim p = false)
    (hfree : ¬ Stuck lim p) :
    0 < cpLimit lim p := by
  have hroom := headroom_pos lim p
  obtain ⟨c, rest, hremaining⟩ := List.exists_cons_of_ne_nil hrest
  rcases hlim.lenFn with hunits | hpoints
  · rw [cpLimit_utf16 hunits]
    refine le_safeSliceBudget (k := 1) (by simp [hremaining]) ?_
    have hwidth := utf16Width_cases c
    suffices hwide : utf16Width c = 2 → 2 ≤ headroom lim p by
      rw [hremaining, List.take_succ_cons, List.take_zero, utf16Len_cons, utf16Len_nil]
      omega
    intro htwo
    by_contra hnarrow
    refine hfree ⟨hunits, ?_, ⟨c, rest, hremaining, htwo⟩, hfits⟩
    have hmax := hlim.maxLength
    have hreserve := hlim.reserve
    have hone : room lim p = 1 := by
      unfold headroom at hnarrow
      split_ifs at hnarrow <;> omega
    rw [room_utf16 hunits, utf16Len_reopen] at hone
    cases hcarry : p.carryLang with
    | none =>
        rw [hcarry, Option.elim_none] at hone
        omega
    | some lang =>
        rw [hcarry, Option.elim_some] at hone
        exact ⟨lang, rfl, by omega⟩
  · unfold cpLimit
    rw [hpoints, hremaining]
    simp only [List.length_cons]
    omega

theorem length_cutPos
    (hpos : 0 < cpLimit lim p) (hrest : p.remaining ≠ []) :
    (cutPos lim p).remaining.length < p.remaining.length := by
  have hcut := (splitPoint_bounds p.remaining hpos).1
  have hlen := List.length_pos_iff.mpr hrest
  simp only [cutPos, List.length_drop]
  omega

/-- The scan of nothing keeps the carried state. -/
@[simp] theorem carryAfter_nil (carry : Option (List Char)) : carryAfter [] carry = carry := by
  have hstate : stateFrom [] carry = (carry.isSome, carry.getD []) := by
    have hquiet : isFence [] = false := by decide
    simp [stateFrom, codeState, codeLine, hquiet]
  unfold carryAfter
  rw [hstate]
  cases carry <;> rfl

/-- A stuck pass changes nothing. -/
theorem cutPos_of_stuck
    (h : Stuck lim p) :
    cutPos lim p = p := by
  obtain ⟨lang, hcarry, htag⟩ := h.tag
  obtain ⟨c, rest, hremaining, hwide⟩ := h.wide
  have hroom : headroom lim p = 1 := by
    have hone : room lim p = 1 := by
      rw [room_utf16 h.units, utf16Len_reopen, hcarry, Option.elim_some]
      omega
    rw [headroom, hone]
    rfl
  have hzero : cpLimit lim p = 0 := by
    rw [cpLimit_utf16 h.units, hroom]
    have hfits := @safeSliceBudget_fits 1 p.remaining (by omega)
    revert hfits
    cases safeSliceBudget p.remaining 1 (fun s => utf16Len s) with
    | zero => exact fun _ => rfl
    | succ k =>
        intro hfits
        rw [hremaining, List.take_succ_cons, utf16Len_cons, hwide] at hfits
        omega
  unfold cutPos
  dsimp only
  rw [hzero, splitPoint_zero, List.drop_zero, List.take_zero, carryAfter_nil]

end Passes

/-! ### Long tags -/

section LongTags

variable {lim : Limits} {content : List Char} {p : Pos}

/-- The code points that fit before a character that does not. -/
theorem safeSliceBudget_eq
    {s rest : List Char} {c : Char} {budget : Int}
    (hfits : (utf16Len s : Int) ≤ budget) (hnext : budget < utf16Len s + utf16Width c) :
    safeSliceBudget (s ++ c :: rest) budget (fun s => utf16Len s) = s.length := by
  have hle : s.length ≤ safeSliceBudget (s ++ c :: rest) budget fun s => utf16Len s :=
    le_safeSliceBudget (by simp) (by simpa using hfits)
  refine Nat.le_antisymm (Nat.not_lt.mp fun hlt => ?_) hle
  have hbudget := @safeSliceBudget_fits budget (s ++ c :: rest) (by omega)
  have hmono := utf16Len_take_mono (s ++ c :: rest) hlt
  have hnext' : utf16Len ((s ++ c :: rest).take (s.length + 1)) = utf16Len s + utf16Width c := by
    simp [List.take_append, List.take_of_length_le]
  rw [Nat.succ_eq_add_one, hnext'] at hmono
  omega

theorem rfind_concat
    (c : Char) (s : List Char) :
    rfind c (s ++ [c]) = s.length := by
  have hindex : lastIndex c (s ++ [c]) = some s.length := by
    induction s with
    | nil => simp [lastIndex]
    | cons d s ih =>
        rw [List.cons_append, lastIndex, ih]
        rfl
  rw [rfind, hindex]

/-- The line of an opening fence. -/
def tagLine (n : Nat) : List Char := ticks ++ List.replicate n 'a'

@[simp] theorem length_tagLine (n : Nat) : (tagLine n).length = n + 3 := by
  have hticks : ticks.length = 3 := by decide
  simp [tagLine, hticks]
  omega

@[simp] theorem utf16Len_tagLine (n : Nat) : utf16Len (tagLine n) = n + 3 := by
  have hticks : utf16Len ticks = 3 := by decide
  have hletter : utf16Width 'a' = 1 := by decide
  simp [tagLine, hticks, hletter]
  omega

theorem newline_notMem_tagLine (n : Nat) : '\n' ∉ tagLine n := by
  intro h
  rcases List.mem_append.mp h with h | h
  · exact absurd h (by decide)
  · exact absurd (List.eq_of_mem_replicate h) (by decide)

theorem strip_letters
    (s : List Char) (hs : ∀ c ∈ s, c = '`' ∨ c = 'a') :
    strip s = s := by
  refine strip_eq_self fun c hc => ?_
  rcases hs c hc with rfl | rfl <;> decide

theorem splitOn_tagLine
    (n : Nat) :
    (tagLine n ++ ['\n']).splitOn '\n' = [tagLine n, []] :=
  List.splitOn_append_cons_self_of_not_mem (newline_notMem_tagLine n) []

theorem strip_tagLine (n : Nat) : strip (tagLine n) = tagLine n := by
  refine strip_letters _ fun c hc => ?_
  rcases List.mem_append.mp hc with hc | hc
  · exact Or.inl (eq_of_mem_ticks hc)
  · exact Or.inr (List.eq_of_mem_replicate hc)

theorem isFence_tagLine (n : Nat) : isFence (tagLine n) = true := by
  rw [isFence, strip_tagLine, List.isPrefixOf_iff_prefix]
  exact List.prefix_append _ _

theorem carryAfter_tagLine
    (n : Nat) :
    carryAfter (tagLine n ++ ['\n']) none = some (List.replicate n 'a') := by
  have hword : firstWord (List.replicate n 'a') = List.replicate n 'a' := by
    rw [firstWord, strip_letters _ fun c hc => Or.inr (List.eq_of_mem_replicate hc)]
    refine List.takeWhile_eq_self_iff.mpr fun c hc => ?_
    rw [List.eq_of_mem_replicate hc]
    decide
  have hquiet : isFence [] = false := by decide
  have hstate : stateFrom (tagLine n ++ ['\n']) none = (true, List.replicate n 'a') := by
    rw [stateFrom, codeState, splitOn_tagLine]
    simp only [List.foldl_cons, List.foldl_nil, codeLine, isFence_tagLine, hquiet, if_true,
      Option.isSome_none, Bool.false_eq_true, if_false]
    rw [strip_tagLine]
    exact Prod.ext rfl hword
  rw [carryAfter, hstate]
  rfl

/-- A first chunk that ends behind the line of a tag. -/
theorem cutPos_tagLine
    {n : Nat} {rest : List Char}
    (hlimit : cpLimit lim (start (tagLine n ++ '\n' :: rest)) = n + 4) :
    cutPos lim (start (tagLine n ++ '\n' :: rest)) = ⟨rest, some (List.replicate n 'a')⟩ := by
  have htake : (tagLine n ++ '\n' :: rest).take (n + 4) = tagLine n ++ ['\n'] := by
    simp [List.take_append, List.take_of_length_le]
  have hdrop : (tagLine n ++ '\n' :: rest).drop (n + 4) = rest := by
    simp [List.drop_append]
  have hcut : delimiterCut (tagLine n ++ ['\n']) (n + 4) = n + 4 := by
    unfold delimiterCut
    dsimp only
    rw [rfind_concat, length_tagLine, if_neg (by omega), if_neg (by omega)]
    omega
  have hfenced : hasFencedBlock (tagLine n ++ ['\n']) = true := by
    rw [hasFencedBlock, splitOn_tagLine, List.any_cons, Bool.or_eq_true]
    exact Or.inl (List.isPrefixOf_iff_prefix.mpr (List.prefix_append _ _))
  have hpoint : splitPoint (tagLine n ++ '\n' :: rest) (n + 4) = n + 4 := by
    unfold splitPoint
    dsimp only
    rw [htake, hcut, htake, if_pos hfenced]
  unfold cutPos
  dsimp only [start] at hlimit ⊢
  rw [hlimit, hpoint, htake, hdrop, carryAfter_tagLine]

/-- More units than there are in a chunk do not fit in the final one. -/
theorem fitsFinal_of_long
    (hunits : lim.lenFn = .utf16)
    (hlong : lim.maxLength - lim.reserve <
      utf16Len (reopen p.carryLang) + utf16Len p.remaining) :
    fitsFinal lim p = false := by
  unfold fitsFinal
  rw [hunits, decide_eq_false_iff_not]
  simp only [utf16_length, utf16Len_fenceClose]
  split_ifs <;> omega

end LongTags

/-! ### The end of the loop -/

section Ends

variable {lim : Limits} {content : List Char} {p : Pos}

theorem splitLoop_cut
    {n : Nat}
    (hrest : p.remaining ≠ []) (hfits : fitsFinal lim p = false) :
    splitLoop lim (n + 1) p = (splitLoop lim n (cutPos lim p)).map (cutPart lim p :: ·) := by
  rw [splitLoop, if_neg hrest, if_neg (by simp [hfits])]

/-- A loop that takes off a character in every pass ends within the length of the rest. -/
theorem splitLoop_returns
    (hprogress : Progress lim content) (h : Reached lim content p)
    {n : Nat} (hn : p.remaining.length < n) :
    ∃ parts, splitLoop lim n p = some parts := by
  induction n generalizing p with
  | zero => omega
  | succ n ih =>
      by_cases hrest : p.remaining = []
      · exact ⟨[], by rw [splitLoop, if_pos hrest]⟩
      · cases hfits : fitsFinal lim p with
        | true => exact ⟨[finalPart p], by rw [splitLoop, if_neg hrest, if_pos hfits]⟩
        | false =>
            have hless := hprogress p h hrest hfits
            obtain ⟨parts, hparts⟩ := ih (h.next hrest hfits) (by omega)
            exact ⟨cutPart lim p :: parts, by rw [splitLoop_cut hrest hfits, hparts]; rfl⟩

/-- A pass that changes nothing is repeated for ever. -/
theorem splitLoop_of_fixed
    (hrest : p.remaining ≠ []) (hfits : fitsFinal lim p = false) (hfixed : cutPos lim p = p)
    (n : Nat) :
    splitLoop lim n p = none := by
  induction n with
  | zero => rfl
  | succ n ih => rw [splitLoop_cut hrest hfits, hfixed, ih, Option.map_none]

/-- What a loop that does not end comes to, it does not end from the start. -/
theorem splitLoop_of_reached
    (h : Reached lim content p) (hnone : ∀ n, splitLoop lim n p = none) (n : Nat) :
    splitLoop lim n (start content) = none := by
  obtain ⟨_, hpasses⟩ := h
  induction hpasses generalizing n with
  | refl => exact hnone n
  | tail _ hpass ih =>
      refine ih (fun m => ?_) n
      cases m with
      | zero => rfl
      | succ m => rw [splitLoop_cut hpass.rest hpass.long, ← hpass.cut, hnone m, Option.map_none]

/-- Without a stuck pass every pass takes off a character. -/
theorem progress_of_free
    (hlim : CallerLimits lim) (hfree : ∀ p, Reached lim content p → ¬ Stuck lim p) :
    Progress lim content := fun p hreached hrest hfits =>
  length_cutPos (cpLimit_pos hlim hrest hfits (hfree p hreached)) hrest

/-- More passes than characters are enough, unless a pass is stuck. -/
theorem isSome_split_iff
    (hlim : CallerLimits lim) :
    (splitTelegramText lim (content.length + 1) content).isSome = true ↔
      ∀ p, Reached lim content p → ¬ Stuck lim p := by
  constructor
  · intro h p hreached hstuck
    obtain ⟨c, rest, hremaining, _⟩ := hstuck.wide
    have hnone := splitLoop_of_fixed (by simp [hremaining]) hstuck.long (cutPos_of_stuck hstuck)
    rw [splitTelegramText, if_neg hreached.long,
      splitLoop_of_reached hreached hnone (content.length + 1)] at h
    cases h
  · intro hfree
    by_cases hshort : lim.lenFn.length content ≤ lim.maxLength
    · rw [splitTelegramText, if_pos hshort]
      rfl
    · obtain ⟨parts, hparts⟩ := splitLoop_returns (progress_of_free hlim hfree) (.start hshort)
        (Nat.lt_succ_self content.length)
      rw [splitTelegramText, if_neg hshort, hparts]
      rfl

/-- The default limits. -/
def defaultLimits : Limits := ⟨4096, .utf16, 12⟩

theorem callerLimits_default : CallerLimits defaultLimits := ⟨rfl, Or.inl rfl, Or.inl rfl⟩

theorem utf16Len_behind_tag
    (n : Nat) (rest : List Char) :
    utf16Len (tagLine n ++ '\n' :: rest) = n + 4 + utf16Len rest := by
  have hline : utf16Width '\n' = 1 := by decide
  rw [utf16Len_append, utf16Len_cons, utf16Len_tagLine, hline]
  omega

/-- The first pass over a long tag ends behind its line, if nothing more fits. -/
theorem pass_behind_tag
    {n : Nat} {c : Char} {rest : List Char}
    (hlong : 4096 < n + 4 + utf16Len (c :: rest))
    (hfits : n + 4 ≤ 4080) (hnext : 4080 < n + 4 + utf16Width c) :
    Pass defaultLimits (start (tagLine n ++ '\n' :: c :: rest))
      ⟨c :: rest, some (List.replicate n 'a')⟩ := by
  have hunits := utf16Len_behind_tag n (c :: rest)
  refine ⟨by simp [start], fitsFinal_of_long rfl ?_, ?_⟩
  · have hnone : utf16Len (reopen none) = 0 := rfl
    change (4096 : Int) - 12 < utf16Len (reopen none) + utf16Len (tagLine n ++ '\n' :: c :: rest)
    omega
  · have hsplit : tagLine n ++ '\n' :: c :: rest = (tagLine n ++ ['\n']) ++ c :: rest := by simp
    have hhead := utf16Len_behind_tag n []
    rw [utf16Len_nil] at hhead
    refine (cutPos_tagLine ?_).symm
    have hroom : ∀ content, headroom defaultLimits (start content) = 4080 := fun _ => rfl
    rw [cpLimit_utf16 rfl, hroom]
    change safeSliceBudget (tagLine n ++ '\n' :: c :: rest) _ _ = _
    rw [hsplit, safeSliceBudget_eq (by omega) (by omega)]
    simp

end Ends

end SplitText
end Telegram
end DiploidAgent
