import DiploidAgent.Lib.Bisect
import DiploidAgent.Lib.Text
import Mathlib.Algebra.GroupWithZero.Nat

/-!
# Splitting a long text

`split_telegram_text` of `transport/telegram_format.py`.  A text that does not fit is cut
behind a line feed or a space, or in front of an inline code span, or where the room ends; a
code block that is open at the cut is closed there and opened again in the next chunk.

The text that goes into the chunks is the content, whatever the limits are
(`split_lossless`).
-/

namespace DiploidAgent
namespace Telegram
namespace SplitText

open Bisect Text

/-! ### Lengths -/

def utf16Width (c : Char) : Nat := if c.toNat < 0x10000 then 1 else 2

/-- `utf16_len`, of a text without lone surrogates. -/
def utf16Len (s : List Char) : Nat := (s.map utf16Width).sum

/-- `len_fn`: the built-in `len`, or another function. -/
inductive LenFn where
  | len
  | other (f : List Char → Int)

def LenFn.utf16 : LenFn := .other fun s => utf16Len s

def LenFn.length : LenFn → List Char → Int
  | .len, s => s.length
  | .other f, s => f s

structure Limits where
  maxLength : Int
  lenFn : LenFn
  reserve : Int

/-- `_safe_slice_budget`. -/
def safeSliceBudget (s : List Char) (budget : Int) (lenFn : List Char → Int) : Nat :=
  if lenFn s ≤ budget then s.length
  else bisect (fun mid => lenFn (s.take mid) ≤ budget) s.length 0 s.length

/-! ### Code blocks -/

def ticks : List Char := "```".toList

theorem eq_of_mem_ticks {c : Char} (h : c ∈ ticks) : c = '`' := by
  have hticks : ticks = List.replicate 3 '`' := rfl
  rw [hticks] at h
  exact List.eq_of_mem_replicate h

def fenceClose : List Char := "\n```".toList

/-- The line opens or closes a code block. -/
def isFence (line : List Char) : Bool := ticks.isPrefixOf (strip line)

/-- `tag.split()[0] if tag else ""`. -/
def firstWord (tag : List Char) : List Char := (strip tag).takeWhile fun c => !isSpace c

/-- One line of `_code_state`. -/
def codeLine (st : Bool × List Char) (line : List Char) : Bool × List Char :=
  if isFence line then
    if st.1 then (false, [])
    else (true, firstWord ((strip line).drop 3))
  else st

/-- `_code_state`. -/
def codeState (snippet : List Char) (startingInCode : Bool) (startingLang : List Char) :
    Bool × List Char :=
  (snippet.splitOn '\n').foldl codeLine (startingInCode, startingLang)

/-- `bool(re.search(r"(?m)^` + "```" + `", candidate))`. -/
def hasFencedBlock (candidate : List Char) : Bool :=
  (candidate.splitOn '\n').any fun line => ticks.isPrefixOf line

/-! ### The cut -/

def lastIndex (c : Char) : List Char → Option Nat
  | [] => none
  | d :: rest =>
      match lastIndex c rest with
      | some n => some (n + 1)
      | none => if d = c then some 0 else none

/-- `s.rfind(c)`. -/
def rfind (c : Char) (s : List Char) : Int :=
  match lastIndex c s with
  | some n => n
  | none => -1

/-- The end of the first delimiter rule: behind the last line feed, or the last space if
that is in the first half. -/
def delimiterCut (region : List Char) (cpLimit : Nat) : Nat :=
  let splitAt :=
    if rfind '\n' region < (cpLimit / 2 : Nat) then rfind ' ' region else rfind '\n' region
  if splitAt < 1 then cpLimit else splitAt.toNat + 1

/-- The number of backticks behind a backslash. -/
def escapedTicks : List Char → Nat
  | '\\' :: '`' :: rest => escapedTicks rest + 1
  | _ :: rest => escapedTicks rest
  | [] => 0

/-- `unescaped_backticks`. -/
def unescapedTicks (candidate : List Char) : Int :=
  candidate.count '`' - escapedTicks candidate

/-- The loop that looks for the last backtick without a backslash; each turn finds an
earlier one. -/
def backtrack (candidate : List Char) : Nat → Int → Int
  | 0, lastBt => lastBt
  | n + 1, lastBt =>
      if 0 < lastBt ∧ candidate[lastBt.toNat - 1]? = some '\\' then
        backtrack candidate n (rfind '`' (candidate.take lastBt.toNat))
      else lastBt

/-- The cut in front of an inline code span. -/
def inlineCut (candidate : List Char) (cpLimit : Nat) : Nat :=
  let lastBt := backtrack candidate candidate.length (rfind '`' candidate)
  if 0 < lastBt then
    let before := candidate.take lastBt.toNat
    let safeSplit := max (rfind ' ' before) (rfind '\n' before)
    if (cpLimit / 4 : Nat) < safeSplit then
      if candidate[safeSplit.toNat]? ≠ some '\\' then safeSplit.toNat + 1 else safeSplit.toNat
    else lastBt.toNat
  else max 1 cpLimit

/-- `split_at`. -/
def splitPoint (remaining : List Char) (cpLimit : Nat) : Nat :=
  let splitAt := delimiterCut (remaining.take cpLimit) cpLimit
  let candidate := remaining.take splitAt
  if hasFencedBlock candidate then splitAt
  else if unescapedTicks candidate % 2 = 1 then inlineCut candidate cpLimit
  else splitAt

/-! ### The loop -/

/-- The variables of the loop. -/
structure Pos where
  remaining : List Char
  carryLang : Option (List Char)
deriving DecidableEq

/-- The line that opens a carried block again. -/
def reopen : Option (List Char) → List Char
  | none => []
  | some lang => ticks ++ lang ++ ['\n']

/-- `_code_state` from the carried state. -/
def stateFrom (snippet : List Char) (carry : Option (List Char)) : Bool × List Char :=
  codeState snippet carry.isSome (carry.getD [])

/-- A chunk, as it is put together. -/
structure Part where
  opening : List Char
  body : List Char
  closing : List Char
deriving DecidableEq

def Part.chunk (part : Part) : List Char := part.opening ++ part.body ++ part.closing

section Loop

variable (lim : Limits)

/-- The rest fits in one final chunk. -/
def fitsFinal (p : Pos) : Bool :=
  let finalExtra :=
    if (stateFrom p.remaining p.carryLang).1 then lim.lenFn.length fenceClose else 0
  lim.lenFn.length (reopen p.carryLang) + lim.lenFn.length p.remaining + finalExtra ≤
    lim.maxLength - lim.reserve

/-- The final chunk.  Whether it is closed is asked of a scan that starts inside a block. -/
def finalPart (p : Pos) : Part where
  opening := reopen p.carryLang
  body := p.remaining
  closing :=
    let final := stateFrom p.remaining p.carryLang
    if final.1 && (codeState p.remaining true final.2).1 then fenceClose else []

/-- The room of a chunk, before the fallback. -/
def room (p : Pos) : Int :=
  lim.maxLength - lim.reserve - lim.lenFn.length (reopen p.carryLang) -
    lim.lenFn.length fenceClose

def headroom (p : Pos) : Int :=
  if room lim p < 1 then max 1 (lim.maxLength / 2) else room lim p

def cpLimit (p : Pos) : Nat :=
  match lim.lenFn with
  | .len => min (headroom lim p).toNat p.remaining.length
  | .other f => safeSliceBudget p.remaining (headroom lim p) f

/-- The tag that is carried on behind a body. -/
def carryAfter (body : List Char) (carry : Option (List Char)) : Option (List Char) :=
  if (stateFrom body carry).1 then some (stateFrom body carry).2 else none

def closeOf (carry : Option (List Char)) : List Char := if carry.isSome then fenceClose else []

def cutPart (p : Pos) : Part :=
  let body := p.remaining.take (splitPoint p.remaining (cpLimit lim p))
  { opening := reopen p.carryLang
    body := body
    closing := closeOf (carryAfter body p.carryLang) }

def cutPos (p : Pos) : Pos :=
  let splitAt := splitPoint p.remaining (cpLimit lim p)
  { remaining := p.remaining.drop splitAt
    carryLang := carryAfter (p.remaining.take splitAt) p.carryLang }

/-- The loop; the fuel is the number of passes. -/
def splitLoop : Nat → Pos → Option (List Part)
  | 0, _ => none
  | n + 1, p =>
      if p.remaining = [] then some []
      else if fitsFinal lim p then some [finalPart p]
      else (splitLoop n (cutPos lim p)).map (cutPart lim p :: ·)

def start (content : List Char) : Pos := { remaining := content, carryLang := none }

/-- `split_telegram_text`; `none` where the loop has not ended after so many passes. -/
def splitTelegramText (fuel : Nat) (content : List Char) : Option (List (List Char)) :=
  if lim.lenFn.length content ≤ lim.maxLength then some [content]
  else (splitLoop lim fuel (start content)).map (List.map Part.chunk)

end Loop

/-! ### Where the cut falls -/

section Cuts

variable {c : Char} {s candidate remaining region : List Char} {cpLimit : Nat}

theorem getElem?_of_lastIndex
    {n : Nat}
    (h : lastIndex c s = some n) :
    s[n]? = some c := by
  induction s generalizing n with
  | nil => cases h
  | cons d rest ih =>
      rw [lastIndex] at h
      cases hrest : lastIndex c rest with
      | some k =>
          rw [hrest] at h
          obtain rfl := Option.some.inj h
          exact ih hrest
      | none =>
          rw [hrest] at h
          dsimp only at h
          split_ifs at h with hd
          obtain rfl := Option.some.inj h
          exact congrArg some hd

/-- What `rfind` finds is at its index. -/
theorem rfind_cases
    (c : Char) (s : List Char) :
    rfind c s = -1 ∨ ∃ n : Nat, rfind c s = n ∧ s[n]? = some c := by
  unfold rfind
  cases hindex : lastIndex c s with
  | none => exact Or.inl rfl
  | some n => exact Or.inr ⟨n, rfl, getElem?_of_lastIndex hindex⟩

theorem rfind_lt
    (c : Char) (s : List Char) :
    rfind c s < s.length := by
  rcases rfind_cases c s with h | ⟨n, h, hget⟩
  · omega
  · have hlt := (List.getElem?_eq_some_iff.mp hget).1
    omega

theorem rfind_take_lt
    (c : Char) (s : List Char) {n : Int} (hn : 0 < n) :
    rfind c (s.take n.toNat) < n := by
  have hlt := rfind_lt c (s.take n.toNat)
  rw [List.length_take] at hlt
  omega

/-- A cut that is not the room's end is behind a delimiter. -/
theorem delimiterCut_cases
    (region : List Char) (cpLimit : Nat) :
    delimiterCut region cpLimit = cpLimit ∨
      ∃ n, delimiterCut region cpLimit = n + 1 ∧
        (region[n]? = some '\n' ∨ region[n]? = some ' ') := by
  unfold delimiterCut
  dsimp only
  split_ifs with hhalf hfound hfound
  · exact Or.inl rfl
  · rcases rfind_cases ' ' region with h | ⟨n, h, hget⟩
    · omega
    · exact Or.inr ⟨n, by omega, Or.inr hget⟩
  · exact Or.inl rfl
  · rcases rfind_cases '\n' region with h | ⟨n, h, hget⟩
    · omega
    · exact Or.inr ⟨n, by omega, Or.inl hget⟩

theorem delimiterCut_le
    (remaining : List Char) (cpLimit : Nat) :
    delimiterCut (remaining.take cpLimit) cpLimit ≤ cpLimit := by
  rcases delimiterCut_cases (remaining.take cpLimit) cpLimit with h | ⟨n, h, hget⟩
  · exact h.le
  · have hlt : n < (remaining.take cpLimit).length := by
      rcases hget with hget | hget <;> exact (List.getElem?_eq_some_iff.mp hget).1
    rw [List.length_take] at hlt
    omega

theorem delimiterCut_pos
    (region : List Char) (hpos : 0 < cpLimit) :
    0 < delimiterCut region cpLimit := by
  rcases delimiterCut_cases region cpLimit with h | ⟨n, h, _⟩ <;> omega

theorem backtrack_le
    (candidate : List Char) (n : Nat) (lastBt : Int) :
    backtrack candidate n lastBt ≤ lastBt := by
  induction n generalizing lastBt with
  | zero => exact Int.le_refl _
  | succ n ih =>
      unfold backtrack
      split_ifs with h
      · have hrest := ih (rfind '`' (candidate.take lastBt.toNat))
        have hlt := rfind_take_lt '`' candidate h.1
        omega
      · exact Int.le_refl _

theorem inlineCut_bounds
    (candidate : List Char) (cpLimit : Nat) :
    0 < inlineCut candidate cpLimit ∧
      inlineCut candidate cpLimit ≤ max candidate.length (max 1 cpLimit) := by
  unfold inlineCut
  dsimp only
  have hle := backtrack_le candidate candidate.length (rfind '`' candidate)
  have hlt := rfind_lt '`' candidate
  generalize backtrack candidate candidate.length (rfind '`' candidate) = lastBt at hle
  split_ifs with hbt hsafe hslash
  · have hspace := rfind_take_lt ' ' candidate hbt
    have hline := rfind_take_lt '\n' candidate hbt
    omega
  · have hspace := rfind_take_lt ' ' candidate hbt
    have hline := rfind_take_lt '\n' candidate hbt
    omega
  · omega
  · omega

/-- Where a character fits, one is cut off, and no more than fit. -/
theorem splitPoint_bounds
    (remaining : List Char) (hpos : 0 < cpLimit) :
    0 < splitPoint remaining cpLimit ∧ splitPoint remaining cpLimit ≤ cpLimit := by
  have hle := delimiterCut_le remaining cpLimit
  have hcut := delimiterCut_pos (remaining.take cpLimit) hpos
  unfold splitPoint
  dsimp only
  split_ifs with hfenced hodd
  · exact ⟨hcut, hle⟩
  · have hinline := inlineCut_bounds
      (remaining.take (delimiterCut (remaining.take cpLimit) cpLimit)) cpLimit
    rw [List.length_take] at hinline
    omega
  · exact ⟨hcut, hle⟩

/-- Where none fits, nothing is cut off. -/
@[simp] theorem splitPoint_zero
    (remaining : List Char) :
    splitPoint remaining 0 = 0 := by
  have hcut : delimiterCut (remaining.take 0) 0 = 0 :=
    Nat.le_zero.mp (delimiterCut_le remaining 0)
  have hodd : unescapedTicks (remaining.take 0) % 2 ≠ 1 := by
    rw [List.take_zero]
    decide
  unfold splitPoint
  dsimp only
  rw [hcut, if_neg hodd, ite_self]

end Cuts

/-! ### Nothing is lost -/

section Lossless

variable {lim : Limits}

/-- The chunks of a loop that carries a tag: a block that was closed at the end of a chunk is
opened at the start of the next one. -/
def Chained : Option (List Char) → List Part → Prop
  | _, [] => True
  | carry, [part] => part.opening = reopen carry ∧ (part.closing = [] ∨ part.closing = fenceClose)
  | carry, part :: next :: rest =>
      part.opening = reopen carry ∧ part.closing = closeOf (carryAfter part.body carry) ∧
        Chained (carryAfter part.body carry) (next :: rest)

theorem closeOf_cases
    (carry : Option (List Char)) :
    closeOf carry = [] ∨ closeOf carry = fenceClose := by
  cases carry with
  | none => exact Or.inl rfl
  | some lang => exact Or.inr rfl

theorem finalPart_closing
    (p : Pos) :
    (finalPart p).closing = [] ∨ (finalPart p).closing = fenceClose := by
  unfold finalPart
  dsimp only
  split_ifs
  · exact Or.inr rfl
  · exact Or.inl rfl

theorem chained_cons
    (p : Pos) {rest : List Part} (hrest : Chained (cutPos lim p).carryLang rest) :
    Chained p.carryLang (cutPart lim p :: rest) := by
  cases rest with
  | nil => exact ⟨rfl, closeOf_cases _⟩
  | cons next rest => exact ⟨rfl, rfl, hrest⟩

/-- The bodies are what the loop was given. -/
theorem splitLoop_lossless
    {fuel : Nat} {p : Pos} {parts : List Part}
    (h : splitLoop lim fuel p = some parts) :
    (parts.map Part.body).flatten = p.remaining ∧ Chained p.carryLang parts := by
  induction fuel generalizing p parts with
  | zero => cases h
  | succ n ih =>
      rw [splitLoop] at h
      split_ifs at h with hempty hfits
      · obtain rfl := Option.some.inj h
        exact ⟨hempty.symm, trivial⟩
      · obtain rfl := Option.some.inj h
        exact ⟨List.append_nil _, rfl, finalPart_closing p⟩
      · obtain ⟨rest, hrest, rfl⟩ := Option.map_eq_some_iff.mp h
        obtain ⟨hbodies, hchained⟩ := ih hrest
        refine ⟨?_, chained_cons p hchained⟩
        rw [List.map_cons, List.flatten_cons, hbodies]
        exact List.take_append_drop _ _

/-- The chunks are put together from parts whose bodies are the content. -/
theorem parts_of_split
    {fuel : Nat} {content : List Char} {chunks : List (List Char)}
    (h : splitTelegramText lim fuel content = some chunks) :
    ∃ parts : List Part, chunks = parts.map Part.chunk ∧
      (parts.map Part.body).flatten = content ∧ Chained none parts := by
  unfold splitTelegramText at h
  split_ifs at h with hshort
  · obtain rfl := Option.some.inj h
    exact ⟨[⟨[], content, []⟩], by simp [Part.chunk], by simp, rfl, Or.inl rfl⟩
  · obtain ⟨parts, hparts, rfl⟩ := Option.map_eq_some_iff.mp h
    obtain ⟨hbodies, hchained⟩ := splitLoop_lossless hparts
    exact ⟨parts, rfl, hbodies, hchained⟩

/-- **Lossless splitting.**  Whatever the limits and the length function are: what is in the
chunks besides the carried openings and the closings is the content, in order. -/
theorem split_lossless
    (lim : Limits) (fuel : Nat) (content : List Char) (chunks : List (List Char))
    (h : splitTelegramText lim fuel content = some chunks) :
    ∃ parts : List Part, chunks = parts.map Part.chunk ∧
      (parts.map Part.body).flatten = content ∧ Chained none parts :=
  parts_of_split h

/-- A code block that is cut and opened again. -/
theorem split_lossless_block :
    ∃ parts : List Part,
      ["```py\na = 1\n\n```".toList, "```py\nb = 2\n```".toList] = parts.map Part.chunk ∧
        (parts.map Part.body).flatten = "```py\na = 1\nb = 2\n```".toList ∧ Chained none parts :=
  split_lossless ⟨20, .utf16, 2⟩ 3 _ _ (by decide)

end Lossless

end SplitText
end Telegram
end DiploidAgent
