import Mathlib.Data.List.Basic
import Mathlib.Tactic.Common

/-!
# Reading UTF-8

Bytes are read as UTF-8, with one replacement character for every longest start of a
sequence that does not go on.  What is read up to an ASCII character does not depend on
what follows, and what is read from one on does not depend on what came before.
-/

namespace DiploidAgent
namespace Utf8

/-- A sequence that is not complete: how many bytes are missing, the value so far, and the
bounds of the next byte. -/
structure Pending where
  missing : Nat
  value : Nat
  low : UInt8
  high : UInt8
deriving DecidableEq

def replacement : Char := '\ufffd'

/-- The characters of a first byte, and what it starts. -/
def lead (b : UInt8) : List Char × Option Pending :=
  if b < 0x80 then ([Char.ofNat b.toNat], none)
  else if 0xc2 ≤ b ∧ b ≤ 0xdf then ([], some ⟨1, b.toNat - 0xc0, 0x80, 0xbf⟩)
  else if b = 0xe0 then ([], some ⟨2, 0, 0xa0, 0xbf⟩)
  else if b = 0xed then ([], some ⟨2, 0xd, 0x80, 0x9f⟩)
  else if 0xe1 ≤ b ∧ b ≤ 0xef then ([], some ⟨2, b.toNat - 0xe0, 0x80, 0xbf⟩)
  else if b = 0xf0 then ([], some ⟨3, 0, 0x90, 0xbf⟩)
  else if b = 0xf4 then ([], some ⟨3, 4, 0x80, 0x8f⟩)
  else if 0xf1 ≤ b ∧ b ≤ 0xf3 then ([], some ⟨3, b.toNat - 0xf0, 0x80, 0xbf⟩)
  else ([replacement], none)

/-- The characters of a byte behind a sequence, and what is not complete then.  A byte that
does not go on with the sequence is read again as a first one. -/
def feed : Option Pending → UInt8 → List Char × Option Pending
  | none, b => lead b
  | some p, b =>
      if p.low ≤ b ∧ b ≤ p.high then
        let value := p.value * 64 + (b.toNat - 0x80)
        if p.missing ≤ 1 then ([Char.ofNat value], none)
        else ([], some ⟨p.missing - 1, value, 0x80, 0xbf⟩)
      else (replacement :: (lead b).1, (lead b).2)

/-- What is left of a sequence at the end. -/
def close (st : Option Pending) : List Char := if st.isSome then [replacement] else []

def decodeFrom : Option Pending → List UInt8 → List Char
  | st, [] => close st
  | st, b :: rest => (feed st b).1 ++ decodeFrom (feed st b).2 rest

/-- `bytes.decode("utf-8", errors="replace")`. -/
def decode (bytes : List UInt8) : List Char := decodeFrom none bytes

section Decoding

variable {st : Option Pending} {b : UInt8}

theorem lead_of_ascii (h : b < 0x80) : lead b = ([Char.ofNat b.toNat], none) := if_pos h

/-- A byte that goes on with a sequence is no ASCII character. -/
def WellBounded (st : Option Pending) : Prop := ∀ p, st = some p → 0x80 ≤ p.low

theorem wellBounded_none : WellBounded none := fun _ h => by cases h

theorem wellBounded_lead (b : UInt8) : WellBounded (lead b).2 := by
  unfold lead WellBounded
  intro p hp
  split_ifs at hp <;> cases hp
  all_goals
    dsimp only
    decide

theorem WellBounded.feed
    (h : WellBounded st) (b : UInt8) :
    WellBounded (feed st b).2 := by
  cases st with
  | none => exact wellBounded_lead b
  | some p =>
      unfold Utf8.feed
      dsimp only
      split_ifs
      · exact wellBounded_none
      · intro q hq
        obtain rfl := Option.some.inj hq
        exact UInt8.le_refl _
      · exact wellBounded_lead b

/-- An ASCII character ends a sequence. -/
theorem feed_of_ascii
    (hst : WellBounded st) (h : b < 0x80) :
    feed st b = (close st ++ [Char.ofNat b.toNat], none) := by
  cases st with
  | none => exact lead_of_ascii h
  | some p =>
      have hout : ¬ (p.low ≤ b ∧ b ≤ p.high) := fun hin =>
        absurd (UInt8.lt_of_lt_of_le h (UInt8.le_trans (hst p rfl) hin.1)) (UInt8.lt_irrefl b)
      rw [feed, if_neg hout, lead_of_ascii h]
      rfl

theorem decodeFrom_ascii
    (hst : WellBounded st) (h : b < 0x80) (rest : List UInt8) :
    decodeFrom st (b :: rest) = close st ++ decode (b :: rest) := by
  rw [decodeFrom, feed_of_ascii hst h, decode, decodeFrom, feed_of_ascii wellBounded_none h]
  simp [close]

theorem decodeFrom_append_ascii
    (hst : WellBounded st) (h : b < 0x80) (l rest : List UInt8) :
    decodeFrom st (l ++ b :: rest) = decodeFrom st l ++ decode (b :: rest) := by
  induction l generalizing st with
  | nil => exact decodeFrom_ascii hst h rest
  | cons a l ih =>
      rw [List.cons_append, decodeFrom, decodeFrom, ih (hst.feed a), List.append_assoc]

theorem decode_cons_ascii
    (h : b < 0x80) (rest : List UInt8) :
    decode (b :: rest) = Char.ofNat b.toNat :: decode rest := by
  rw [decode, decodeFrom, feed_of_ascii wellBounded_none h]
  rfl

/-- An ASCII character parts the bytes. -/
theorem decode_append_ascii
    (h : b < 0x80) (l rest : List UInt8) :
    decode (l ++ b :: rest) = decode l ++ Char.ofNat b.toNat :: decode rest := by
  rw [decode, decodeFrom_append_ascii wellBounded_none h, decode_cons_ascii h]
  rfl

end Decoding

/-- Of four bytes that do not belong together, and one character. -/
example : decode [0xe2, 0x82, 0x41, 0x80, 0xf0, 0x9f, 0x98, 0x80] = ['\ufffd', 'A', '\ufffd', '😀'] := by
  decide

end Utf8
end DiploidAgent
