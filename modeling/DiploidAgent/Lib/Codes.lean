import DiploidAgent.Lib.Text
import DiploidAgent.Lib.Lines
import DiploidAgent.Lib.Separators

/-!
# Texts of code points

A `str` may hold surrogates that stand alone, for example from an escape of a JSON text.  No
file in UTF-8 holds one, and a text with one is not written.

What is read from a file has line feeds for its line ends (`newlines`).  A word without a
line end stands where it stood.
-/

namespace DiploidAgent
namespace Codes

open Separators Text

/-- A character, or one of the 2048 surrogates. -/
inductive Code where
  | char (c : Char)
  | lone (n : Fin 2048)
deriving DecidableEq

abbrev Str := List Code

/-- The text of what a file holds. -/
def lift (l : List Char) : Str := l.map Code.char

def str (s : String) : Str := lift s.toList

def feed : Code := .char '\n'

def carriage : Code := .char '\r'

/-- What a test of characters says; no such test holds of a surrogate. -/
def Code.is (p : Char → Bool) : Code → Bool
  | .char c => p c
  | .lone _ => false

/-- `str.split` without an argument. -/
def words (s : Str) : List Str := (s.splitOnP (Code.is isSpace)).filter (· ≠ [])

def joinWords (ws : List Str) : Str := [Code.char ' '].intercalate ws

/-- `str.strip` without an argument. -/
def strip (s : Str) : Str := (s.dropWhile (Code.is isSpace)).rdropWhile (Code.is isSpace)

/-- The first line of `str.splitlines`, and the empty text if there is none. -/
def firstLine (s : Str) : Str := s.takeWhile fun c => !c.is Lines.isBoundary

/-- `str.rstrip("\n")`. -/
def rstripFeeds (s : Str) : Str := s.rdropWhile (· == feed)

/-- The line ends as a file in text mode is read. -/
def newlines : Str → Str
  | [] => []
  | .char '\r' :: .char '\n' :: rest => feed :: newlines rest
  | .char '\r' :: rest => feed :: newlines rest
  | c :: rest => c :: newlines rest

/-- `str.encode`, as the characters that are written. -/
def encode : Str → Option (List Char)
  | [] => some []
  | .char c :: s => (encode s).map (c :: ·)
  | .lone _ :: _ => none

/-- No surrogate stands alone. -/
def Scalar (s : Str) : Prop := ∀ n, Code.lone n ∉ s

/-- No line end stands in the word. -/
def Solid (w : Str) : Prop := feed ∉ w ∧ carriage ∉ w

instance (w : Str) : Decidable (Solid w) := inferInstanceAs (Decidable (_ ∧ _))

section Encoding

variable {s : Str} {l : List Char}

theorem scalar_lift (l : List Char) : Scalar (lift l) := by
  intro n hn
  obtain ⟨c, -, hc⟩ := List.mem_map.mp hn
  cases hc

theorem scalar_append {s s' : Str} : Scalar (s ++ s') ↔ Scalar s ∧ Scalar s' := by
  simp only [Scalar, List.mem_append, not_or, forall_and]

theorem encode_lift (l : List Char) : encode (lift l) = some l := by
  induction l with
  | nil => rfl
  | cons c l ih =>
      have hstep : encode (lift (c :: l)) = (encode (lift l)).map (c :: ·) := rfl
      rw [hstep, ih]
      rfl

theorem encode_eq_some_iff : encode s = some l ↔ s = lift l := by
  constructor
  · intro h
    induction s generalizing l with
    | nil => cases h; rfl
    | cons c s ih =>
        cases c with
        | char c =>
            obtain ⟨l', hl', rfl⟩ := Option.map_eq_some_iff.mp h
            rw [ih hl']
            rfl
        | lone n => cases h
  · rintro rfl
    exact encode_lift l

theorem scalar_iff : Scalar s ↔ ∃ l, s = lift l := by
  constructor
  · intro h
    induction s with
    | nil => exact ⟨[], rfl⟩
    | cons c s ih =>
        obtain ⟨l, rfl⟩ := ih fun n hn => h n (List.mem_cons_of_mem _ hn)
        cases c with
        | char c => exact ⟨c :: l, rfl⟩
        | lone n => exact absurd List.mem_cons_self (h n)
  · rintro ⟨l, rfl⟩
    exact scalar_lift l

end Encoding

/-! ### Line ends -/

section Newlines

variable {w s s' t : Str}

/-- A character that is no carriage return before a line feed. -/
theorem newlines_cons {c : Code} {s : Str} (h : ¬ (c = carriage ∧ s.head? = some feed)) :
    newlines (c :: s) = (if c = carriage then feed else c) :: newlines s := by
  rw [newlines.eq_def]
  split
  next heq => cases heq
  next heq =>
    obtain ⟨rfl, rfl⟩ := List.cons.inj heq
    exact absurd ⟨rfl, rfl⟩ h
  next heq =>
    obtain ⟨rfl, rfl⟩ := List.cons.inj heq
    rfl
  next hreturn heq =>
    obtain ⟨rfl, rfl⟩ := List.cons.inj heq
    have hc : c ≠ carriage := hreturn
    rw [if_neg hc]

theorem newlines_cons_of_ne {c : Code} (hc : c ≠ carriage) (s : Str) :
    newlines (c :: s) = c :: newlines s :=
  (newlines_cons fun h => hc h.1).trans (by rw [if_neg hc])

theorem newlines_carriage_of_ne (h : s.head? ≠ some feed) :
    newlines (carriage :: s) = feed :: newlines s :=
  newlines_cons fun hpair => h hpair.2

/-- A text and what is read of it, by the line end in front. -/
theorem newlines_induct {motive : Str → Str → Prop} (nil : motive [] [])
    (pair : ∀ rest, motive rest (newlines rest) →
      motive (carriage :: feed :: rest) (feed :: newlines rest))
    (single : ∀ rest, rest.head? ≠ some feed → motive rest (newlines rest) →
      motive (carriage :: rest) (feed :: newlines rest))
    (other : ∀ c rest, c ≠ carriage → motive rest (newlines rest) →
      motive (c :: rest) (c :: newlines rest)) :
    ∀ s, motive s (newlines s)
  | [] => nil
  | c :: s => by
      have ih := newlines_induct nil pair single other s
      by_cases hc : c = carriage
      · subst hc
        by_cases hs : s.head? = some feed
        · obtain ⟨rest, rfl⟩ := List.head?_eq_some_iff.mp hs
          exact pair rest (newlines_induct nil pair single other rest)
        · rw [newlines_carriage_of_ne hs]
          exact single s hs ih
      · rw [newlines_cons_of_ne hc]
        exact other c s hc ih

/-- A carriage return is read as a line feed. -/
theorem newlines_carriage (s : Str) : ∃ t, newlines (carriage :: s) = feed :: t := by
  by_cases h : s.head? = some feed
  · obtain ⟨rest, rfl⟩ := List.head?_eq_some_iff.mp h
    exact ⟨newlines rest, rfl⟩
  · exact ⟨newlines s, newlines_carriage_of_ne h⟩

theorem newlines_eq_self (h : carriage ∉ s) : newlines s = s := by
  induction s with
  | nil => rfl
  | cons c s ih =>
      rw [newlines_cons_of_ne fun hc => h (hc ▸ List.mem_cons_self),
        ih fun hmem => h (List.mem_cons_of_mem c hmem)]

theorem carriage_notMem_newlines (s : Str) : carriage ∉ newlines s := by
  refine newlines_induct (motive := fun _ t => carriage ∉ t) List.not_mem_nil
    (fun rest ih => ?_) (fun rest _ ih => ?_) (fun c rest hc ih => ?_) s
  · exact List.not_mem_cons_of_ne_of_not_mem (by decide) ih
  · exact List.not_mem_cons_of_ne_of_not_mem (by decide) ih
  · exact List.not_mem_cons_of_ne_of_not_mem (Ne.symm hc) ih

theorem mem_newlines {c : Code} : c ∈ newlines s → c = feed ∨ c ∈ s := by
  refine newlines_induct (motive := fun s t => c ∈ t → c = feed ∨ c ∈ s)
    (fun h => absurd h List.not_mem_nil) (fun rest ih h => ?_) (fun rest _ ih h => ?_)
    (fun d rest _ ih h => ?_) s
  · rcases List.mem_cons.mp h with hc | hlater
    · exact Or.inl hc
    · exact (ih hlater).imp_right fun hmem => List.mem_cons_of_mem _ (List.mem_cons_of_mem _ hmem)
  · rcases List.mem_cons.mp h with hc | hlater
    · exact Or.inl hc
    · exact (ih hlater).imp_right fun hmem => List.mem_cons_of_mem _ hmem
  · rcases List.mem_cons.mp h with rfl | hlater
    · exact Or.inr List.mem_cons_self
    · exact (ih hlater).imp_right fun hmem => List.mem_cons_of_mem _ hmem

theorem Scalar.newlines (h : Scalar s) : Scalar (newlines s) := by
  intro n hn
  rcases mem_newlines hn with hfeed | hmem
  · cases hfeed
  · exact h n hmem

theorem length_newlines_le (s : Str) : (newlines s).length ≤ s.length := by
  refine newlines_induct (motive := fun s t => t.length ≤ s.length) (le_refl 0)
    (fun rest ih => ?_) (fun rest _ ih => ?_) (fun c rest _ ih => ?_) s
  · simp only [List.length_cons]
    omega
  · simp only [List.length_cons]
    omega
  · simp only [List.length_cons]
    omega

theorem newlines_append_left (h : carriage ∉ s) (s' : Str) :
    newlines (s ++ s') = s ++ newlines s' := by
  induction s with
  | nil => rfl
  | cons c s ih =>
      rw [List.cons_append, newlines_cons_of_ne fun hc => h (hc ▸ List.mem_cons_self),
        ih fun hmem => h (List.mem_cons_of_mem c hmem)]
      rfl

theorem newlines_append (s : Str) (h : s'.head? ≠ some feed) :
    newlines (s ++ s') = newlines s ++ newlines s' := by
  refine newlines_induct (motive := fun s t => newlines (s ++ s') = t ++ newlines s') rfl
    (fun rest ih => ?_) (fun rest hrest ih => ?_) (fun c rest hc ih => ?_) s
  · exact congrArg (feed :: ·) ih
  · have hhead : (rest ++ s').head? ≠ some feed := by
      cases rest with
      | nil => exact h
      | cons c rest => exact hrest
    rw [List.cons_append, newlines_carriage_of_ne hhead, ih]
    rfl
  · rw [List.cons_append, newlines_cons_of_ne hc, ih]
    rfl

/-- The first carriage return of a text is where it and what is read differ. -/
theorem carriage_notMem_of_newlines_append {x y : Str} (h : newlines s ++ x = s ++ y) :
    carriage ∉ s := by
  induction s with
  | nil => simp
  | cons c s ih =>
      by_cases hc : c = carriage
      · obtain ⟨t, ht⟩ := newlines_carriage s
        rw [hc, ht] at h
        cases (List.cons.inj h).1
      · rw [newlines_cons_of_ne hc] at h
        exact List.not_mem_cons_of_ne_of_not_mem (fun hne => hc hne.symm) (ih (List.cons.inj h).2)

theorem prefix_newlines_iff (hw : Solid w) : w <+: newlines s ↔ w <+: s := by
  induction w generalizing s with
  | nil => simp
  | cons a w ih =>
      have hwrest : Solid w :=
        ⟨fun h => hw.1 (List.mem_cons_of_mem a h), fun h => hw.2 (List.mem_cons_of_mem a h)⟩
      cases s with
      | nil => exact Iff.rfl
      | cons c s =>
          by_cases hc : c = carriage
          · obtain ⟨t, ht⟩ := newlines_carriage s
            rw [hc, ht, List.cons_prefix_cons, List.cons_prefix_cons]
            constructor
            · rintro ⟨rfl, _⟩
              exact absurd List.mem_cons_self hw.1
            · rintro ⟨rfl, _⟩
              exact absurd List.mem_cons_self hw.2
          · rw [newlines_cons_of_ne hc, List.cons_prefix_cons, List.cons_prefix_cons,
              ih hwrest]

theorem infix_newlines_iff (hw : Solid w) (hne : w ≠ []) : w <:+: newlines s ↔ w <:+: s := by
  refine newlines_induct (motive := fun s t => w <:+: t ↔ w <:+: s) Iff.rfl
    (fun rest ih => ?_) (fun rest _ ih => ?_) (fun c rest hc ih => ?_) s
  · have hsource : w <:+: carriage :: feed :: rest ↔ w <:+: rest := by
      rw [infix_cons_iff_of_notMem hw.2 hne, infix_cons_iff_of_notMem hw.1 hne]
    exact ((infix_cons_iff_of_notMem hw.1 hne _).trans ih).trans hsource.symm
  · exact ((infix_cons_iff_of_notMem hw.1 hne _).trans ih).trans
      (infix_cons_iff_of_notMem hw.2 hne rest).symm
  · have hhead : newlines (c :: rest) = c :: newlines rest := newlines_cons_of_ne hc rest
    rw [List.infix_cons_iff, List.infix_cons_iff, ih, ← hhead, prefix_newlines_iff hw]

theorem newlines_append_solid (s : Str) (hw : Solid w) : newlines (s ++ w) = newlines s ++ w := by
  rw [newlines_append s fun h => hw.1 (List.mem_of_head? h), newlines_eq_self hw.2]

theorem newlines_append_word (s s' : Str) (hw : Solid w) (hne : w ≠ []) :
    newlines (s ++ (w ++ s')) = newlines s ++ (w ++ newlines s') := by
  have hhead : (w ++ s').head? ≠ some feed := fun h =>
    hw.1 (List.mem_of_head? ((List.head?_append_of_ne_nil w hne).symm.trans h))
  rw [newlines_append s hhead, newlines_append_left hw.2]

/-- A word is cut at where it stood. -/
theorem cutAt_newlines (hw : Solid w) (hne : w ≠ []) :
    cutAt w (newlines s) = (cutAt w s).map fun r => (newlines r.1, newlines r.2) := by
  cases hcut : cutAt w s with
  | none =>
      rw [cutAt_eq_none_iff hne] at hcut
      exact (cutAt_eq_none_iff hne).mpr fun h => hcut ((infix_newlines_iff hw hne).mp h)
  | some r =>
      obtain ⟨before, after⟩ := r
      obtain ⟨rfl, hnot⟩ := (cutAt_eq_some_iff hne).mp hcut
      have hstart : Solid w.dropLast :=
        ⟨fun h => hw.1 (List.mem_of_mem_dropLast h), fun h => hw.2 (List.mem_of_mem_dropLast h)⟩
      refine (cutAt_eq_some_iff hne).mpr ⟨newlines_append_word before after hw hne, fun h => ?_⟩
      rw [← newlines_append_solid before hstart] at h
      exact hnot ((infix_newlines_iff hw hne).mp h)

end Newlines

end Codes
end DiploidAgent
