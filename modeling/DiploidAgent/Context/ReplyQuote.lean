import DiploidAgent.Memory.Trimming

/-!
# The trimmed reply quote

`trim_reply_quote_to` of `context/reply_quote.py`: a quote that is too long is cut to thirty
characters less than the limit, at a section break where there is one, and is followed by a
marker with the number of the characters that were left out.

The marker is longer than the thirty characters that are kept free for it, and with a limit
below thirty the bound of the slice counts from the end of the quote.  So the limit holds
where a section break happens to come early enough (`trimReplyQuoteTo_keeps_iff`).
-/

namespace DiploidAgent
namespace Context
namespace ReplyQuote

open Trimming

section Model

def markerOpen : List Char := "\n\n[... ".toList

def markerClose : List Char := " characters truncated ...]".toList

/-- What follows the kept text. -/
def marker (omitted : Nat) : List Char :=
  markerOpen ++ Nat.toDigits 10 omitted ++ markerClose

/-- `trim_reply_quote_to`. -/
def trimReplyQuoteTo (quote : List Char) (limit : Int) : List Char :=
  if quote = [] ∨ limit ≤ 0 then []
  else if quote.length ≤ limit then quote
  else
    let trimmed := trimToSection quote (limit - 30)
    trimmed ++ marker (quote.length - trimmed.length)

end Model

section Properties

/-- The result is within the limit where the marker is; otherwise the kept text is. -/
def Within (limit : Int) (kept : List Char) (omitted : Nat) : Prop :=
  ((marker omitted).length ≤ limit → (kept ++ marker omitted).length ≤ limit) ∧
    (limit < (marker omitted).length → kept.length ≤ limit)

/-- The quote itself, or a prefix of it with the number of what was left out. -/
def Keeps (quote : List Char) (limit : Int) (out : List Char) : Prop :=
  (quote.length ≤ limit → out = quote) ∧
    (limit < quote.length → ∃ kept, kept <+: quote ∧
      out = kept ++ marker (quote.length - kept.length) ∧
      Within limit kept (quote.length - kept.length))

/-- The front of the quote has its section break before the marker's room, or no room is
needed because the marker is longer than the limit and so little of the quote is there. -/
def BreaksInTime (quote : List Char) (limit : Int) : Prop :=
  (∃ i, BreakAt (upTo quote (limit - 30)) i ∧
    (i + (marker (quote.length - i)).length ≤ limit ∨
      limit < (marker (quote.length - i)).length ∧ i ≤ limit)) ∨
  (∀ i, ¬ BreakAt (upTo quote (limit - 30)) i) ∧
    limit < (marker (quote.length - (upTo quote (limit - 30)).length)).length ∧
    (30 ≤ limit ∨ quote.length ≤ 30)

end Properties

section Marker

variable {kept kept' quote : List Char} {m n : Nat} {limit : Int}

/-- What stands behind the last occurrence of a character. -/
theorem eq_of_append_cons
    {c : Char} {x y d d' : List Char} (h : x ++ c :: d = y ++ c :: d')
    (hd : c ∉ d) (hd' : c ∉ d') :
    d = d' := by
  rcases List.append_eq_append_iff.mp h with ⟨t, rfl, ht⟩ | ⟨t, rfl, ht⟩
  · cases t with
    | nil => exact List.tail_eq_of_cons_eq ht
    | cons a t =>
        obtain ⟨_, rfl⟩ := List.cons.inj ht
        exact absurd (List.mem_append_right t List.mem_cons_self) hd
  · cases t with
    | nil => exact (List.tail_eq_of_cons_eq ht).symm
    | cons a t =>
        obtain ⟨_, rfl⟩ := List.cons.inj ht
        exact absurd (List.mem_append_right t List.mem_cons_self) hd'

theorem toDigits_inj (h : Nat.toDigits 10 m = Nat.toDigits 10 n) : m = n := by
  rw [← Nat.ofDigitChars_ten_toDigits (n := m), h, Nat.ofDigitChars_ten_toDigits]

theorem blank_notMem_toDigits (n : Nat) : ' ' ∉ Nat.toDigits 10 n := by
  intro h
  exact absurd (Nat.isDigit_of_mem_toDigits (by omega) (by omega) h) (by decide)

theorem markerOpen_eq : markerOpen = ['\n', '\n', '[', '.', '.', '.'] ++ [' '] :=
  String.toList_ofList

theorem length_markerClose : markerClose.length = 26 := by
  have hchars : markerClose = _ := String.toList_ofList
  rw [hchars]
  rfl

theorem marker_eq (n : Nat) :
    marker n = ['\n', '\n', '[', '.', '.', '.'] ++ ' ' :: Nat.toDigits 10 n ++ markerClose := by
  rw [marker, markerOpen_eq, List.append_assoc _ [' ']]
  rfl

/-- The number that the marker states is the one that was written. -/
theorem marker_inj
    (h : kept ++ marker m = kept' ++ marker n) :
    m = n := by
  rw [marker_eq, marker_eq, ← List.append_assoc, ← List.append_assoc, ← List.append_assoc,
    ← List.append_assoc] at h
  have hfront := List.append_cancel_right h
  exact toDigits_inj
    (eq_of_append_cons hfront (blank_notMem_toDigits m) (blank_notMem_toDigits n))

theorem length_marker (n : Nat) : (marker n).length = 33 + (Nat.toDigits 10 n).length := by
  rw [marker_eq]
  simp only [List.length_append, List.length_cons, List.length_nil, length_markerClose]
  omega

/-- The kept text can be read off the result. -/
theorem kept_unique
    (hkept : kept <+: quote) (hkept' : kept' <+: quote)
    (h : kept ++ marker (quote.length - kept.length) =
      kept' ++ marker (quote.length - kept'.length)) :
    kept = kept' := by
  have homitted := marker_inj h
  have hlength : kept.length = kept'.length := by
    have hle := hkept.length_le
    have hle' := hkept'.length_le
    omega
  exact (List.append_inj h hlength).1

end Marker

section Trimming

variable {quote : List Char} {limit : Int}

theorem trimToSection_prefix (quote : List Char) (limit : Int) :
    trimToSection quote limit <+: quote := by
  by_cases hlong : limit < quote.length
  · rcases trimToSection_cut hlong with ⟨i, _, htrim⟩ | ⟨_, htrim⟩
    · rw [htrim]
      exact List.take_prefix _ _
    · rw [htrim]
      exact upTo_prefix quote limit
  · rw [trimToSection, if_pos (not_lt.mp hlong)]

theorem trimReplyQuoteTo_of_le
    (hpos : 0 < limit) (h : quote.length ≤ limit) :
    trimReplyQuoteTo quote limit = quote := by
  rw [trimReplyQuoteTo]
  split_ifs with hnone
  · rcases hnone with rfl | hle
    · rfl
    · omega
  · rfl

theorem trimReplyQuoteTo_of_lt
    (hpos : 0 < limit) (h : limit < quote.length) :
    trimReplyQuoteTo quote limit = trimToSection quote (limit - 30) ++
      marker (quote.length - (trimToSection quote (limit - 30)).length) := by
  have hne : ¬ (quote = [] ∨ limit ≤ 0) := by
    rintro (rfl | hle)
    · rw [List.length_nil] at h
      omega
    · omega
  rw [trimReplyQuoteTo, if_neg hne, if_neg (by omega)]

/-- What is claimed of a cut quote is claimed of the text that the cut keeps. -/
theorem keeps_iff
    (hpos : 0 < limit) (h : limit < quote.length) :
    Keeps quote limit (trimReplyQuoteTo quote limit) ↔
      Within limit (trimToSection quote (limit - 30))
        (quote.length - (trimToSection quote (limit - 30)).length) := by
  have hprefix := trimToSection_prefix quote (limit - 30)
  rw [trimReplyQuoteTo_of_lt hpos h]
  constructor
  · rintro ⟨_, hlong⟩
    obtain ⟨kept, hkept, hout, hwithin⟩ := hlong h
    rwa [kept_unique hprefix hkept hout]
  · intro hwithin
    exact ⟨fun hle => absurd h (by omega), fun _ => ⟨_, hprefix, rfl, hwithin⟩⟩

theorem within_iff {kept : List Char} {omitted : Nat} :
    Within limit kept omitted ↔
      kept.length + (marker omitted).length ≤ limit ∨
        limit < (marker omitted).length ∧ kept.length ≤ limit := by
  rw [Within, List.length_append]
  omega

theorem length_upTo
    (hpos : 0 < limit) (h : limit < quote.length) :
    ((upTo quote (limit - 30)).length : Int) =
      if 30 ≤ limit then limit - 30 else max 0 (quote.length - (30 - limit)) := by
  rw [upTo]
  split_ifs with h1 h2 h2
  · rw [List.length_take]
    omega
  · omega
  · omega
  · rw [List.length_take]
    omega

/-- **The reply quote and its budget.**  For every positive limit the quote is kept whole, or
as a prefix with the number of what was left out, within the limit, exactly if it fits or its
front breaks in time. -/
theorem trimReplyQuoteTo_keeps_iff
    (quote : List Char) {limit : Int} (hpos : 0 < limit) :
    Keeps quote limit (trimReplyQuoteTo quote limit) ↔
      quote.length ≤ limit ∨ BreaksInTime quote limit := by
  rcases lt_or_ge limit (quote.length : Int) with hlong | hfits
  · rw [keeps_iff hpos hlong, or_iff_right (not_le.mpr hlong)]
    have hfront := length_upTo hpos hlong
    rcases trimToSection_cut (show limit - 30 < quote.length by omega) with
      ⟨i, hi, htrim⟩ | ⟨hnone, htrim⟩
    · have hle : (quote.take i).length = i := by
        have hupTo := ( upTo_prefix quote (limit - 30)).length_le
        have hbefore := hi.le
        rw [List.length_take]
        omega
      rw [htrim, within_iff, hle]
      constructor
      · exact fun h => Or.inl ⟨i, hi, h⟩
      · rintro (⟨j, hj, h⟩ | ⟨hnone, _⟩)
        · rwa [hi.eq hj]
        · exact absurd hi (hnone i)
    · rw [htrim, within_iff]
      have hmarker := length_marker (quote.length - (upTo quote (limit - 30)).length)
      constructor
      · intro h
        refine Or.inr ⟨hnone, ?_, ?_⟩
        · split_ifs at hfront <;> omega
        · split_ifs at hfront <;> omega
      · rintro (⟨j, hj, h⟩ | ⟨_, hlonger, hsmall⟩)
        · exact absurd hj (hnone j)
        · refine Or.inr ⟨hlonger, ?_⟩
          split_ifs at hfront <;> omega
  · rw [trimReplyQuoteTo_of_le hpos hfits]
    exact iff_of_true ⟨fun _ => rfl, fun hlong => absurd hfits (not_le.mpr hlong)⟩ (Or.inl hfits)

/-- Sixty characters without a break. -/
def sixty : List Char := List.replicate 60 'a'

theorem trimReplyQuoteTo_keeps_iff_sixty :
    Keeps sixty 50 (trimReplyQuoteTo sixty 50) ↔
      sixty.length ≤ (50 : Int) ∨ BreaksInTime sixty 50 :=
  trimReplyQuoteTo_keeps_iff sixty (by decide)

/-- With a limit of fifty, twenty of them are kept and the marker adds 35. -/
theorem trimReplyQuoteTo_exceeds :
    ¬ ∀ (quote : List Char) (limit : Int), 0 < limit →
      Keeps quote limit (trimReplyQuoteTo quote limit) := by
  intro h
  have hwithin := (keeps_iff (by decide) (by decide)).mp (h sixty 50 (by decide))
  rw [within_iff, length_marker] at hwithin
  exact absurd hwithin (by decide)

end Trimming

end ReplyQuote
end Context
end DiploidAgent
