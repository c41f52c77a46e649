import Mathlib.Data.List.Basic
import Mathlib.Tactic.Common

/-!
# Splitting text at line boundaries

`str.splitlines` cuts at more characters than the line feed that a writer ends
its lines with.  A text of lines is read back line by line exactly as far as
the lines hold none of them.
-/

namespace DiploidAgent
namespace Lines

/-- The line boundaries of `str.splitlines`; a carriage return and the line feed
after it are one. -/
def isBoundary (c : Char) : Bool :=
  c == '\n' || c == '\r' || c == '\x0b' || c == '\x0c' || c == '\x1c' || c == '\x1d' ||
    c == '\x1e' || c == '\u0085' || c == '\u2028' || c == '\u2029'

/-- `str.splitlines`. -/
def splitLines : List Char → List (List Char)
  | [] => []
  | '\r' :: '\n' :: rest => [] :: splitLines rest
  | c :: rest =>
      if isBoundary c then [] :: splitLines rest
      else
        match splitLines rest with
        | [] => [[c]]
        | l :: ls => (c :: l) :: ls

/-- No character of the text is a line boundary. -/
def Unbroken (l : List Char) : Prop :=
  ∀ c ∈ l, isBoundary c = false

instance (l : List Char) : Decidable (Unbroken l) :=
  List.decidableBAll _ l

theorem unbroken_nil :
    Unbroken [] :=
  fun _ h => nomatch h

theorem unbroken_append
    {l l' : List Char} :
    Unbroken (l ++ l') ↔ Unbroken l ∧ Unbroken l' := by
  simp only [Unbroken, List.mem_append]
  constructor
  · intro h
    exact ⟨fun c hc => h c (Or.inl hc), fun c hc => h c (Or.inr hc)⟩
  · rintro ⟨h, h'⟩ c (hc | hc)
    · exact h c hc
    · exact h' c hc

theorem unbroken_cons
    {c : Char} {l : List Char} :
    Unbroken (c :: l) ↔ isBoundary c = false ∧ Unbroken l := by
  simp [Unbroken]

theorem splitLines_cons_of_not_boundary
    {c : Char} (hc : isBoundary c = false)
    (rest : List Char) :
    splitLines (c :: rest) =
      match splitLines rest with
      | [] => [[c]]
      | l :: ls => (c :: l) :: ls := by
  rw [splitLines.eq_def]
  split
  · rename_i h
    cases h
  · rename_i h
    obtain ⟨rfl, rfl⟩ := List.cons.inj h
    cases hc
  · rename_i h
    obtain ⟨rfl, rfl⟩ := List.cons.inj h
    rw [hc]
    rfl

theorem splitLines_cons_of_boundary
    {c : Char} (hc : isBoundary c = true) (hreturn : c ≠ '\r')
    (rest : List Char) :
    splitLines (c :: rest) = [] :: splitLines rest := by
  rw [splitLines.eq_def]
  split
  · rename_i h
    cases h
  · rename_i h
    obtain ⟨rfl, rfl⟩ := List.cons.inj h
    exact absurd rfl hreturn
  · rename_i h
    obtain ⟨rfl, rfl⟩ := List.cons.inj h
    rw [hc]
    rfl

/-- The text up to a boundary is a line. -/
theorem splitLines_append_boundary
    {l : List Char} (hl : Unbroken l)
    {c : Char} (hc : isBoundary c = true) (hreturn : c ≠ '\r')
    (rest : List Char) :
    splitLines (l ++ c :: rest) = l :: splitLines rest := by
  induction l with
  | nil => exact splitLines_cons_of_boundary hc hreturn rest
  | cons d l ih =>
      obtain ⟨hd, hrest⟩ := unbroken_cons.mp hl
      rw [List.cons_append, splitLines_cons_of_not_boundary hd, ih hrest]

/-- A character that is no carriage return before a line feed. -/
theorem splitLines_cons
    {c : Char} {rest : List Char} (h : ¬ (c = '\r' ∧ rest.head? = some '\n')) :
    splitLines (c :: rest) =
      if isBoundary c then [] :: splitLines rest
      else
        match splitLines rest with
        | [] => [[c]]
        | l :: ls => (c :: l) :: ls := by
  rw [splitLines.eq_def]
  split
  · rename_i heq
    cases heq
  · rename_i heq
    obtain ⟨rfl, rfl⟩ := List.cons.inj heq
    exact absurd ⟨rfl, rfl⟩ h
  · rename_i heq
    obtain ⟨rfl, rfl⟩ := List.cons.inj heq
    rfl

/-- A carriage return and the line feed after it are one boundary. -/
theorem splitLines_pair (rest : List Char) :
    splitLines ('\r' :: '\n' :: rest) = [] :: splitLines rest := rfl

theorem splitLines_ne_nil
    (c : Char) (rest : List Char) :
    splitLines (c :: rest) ≠ [] := by
  rw [splitLines.eq_def]
  split
  · rename_i heq
    cases heq
  · exact List.cons_ne_nil _ _
  · split_ifs
    · exact List.cons_ne_nil _ _
    · split <;> exact List.cons_ne_nil _ _

/-- The lines of a text that ends its last line are cut the same way whatever
follows. -/
theorem splitLines_append_newline (rest : List Char) :
    ∀ l : List Char,
      splitLines (l ++ '\n' :: rest) = splitLines (l ++ ['\n']) ++ splitLines rest
  | [] => rfl
  | c :: l => by
      have ih := splitLines_append_newline rest l
      by_cases hpair : c = '\r' ∧ (l = [] ∨ l.head? = some '\n')
      · obtain ⟨rfl, rfl | hhead⟩ := hpair
        · rfl
        · obtain ⟨l, rfl⟩ := List.head?_eq_some_iff.mp hhead
          have ih' := splitLines_append_newline rest l
          simp only [List.cons_append]
          rw [splitLines_pair, splitLines_pair, ih']
          rfl
      · have hcut : ∀ r : List Char, ¬ (c = '\r' ∧ (l ++ '\n' :: r).head? = some '\n') := by
          rintro r ⟨hc, hr⟩
          cases l with
          | nil => exact hpair ⟨hc, Or.inl rfl⟩
          | cons d l => exact hpair ⟨hc, Or.inr hr⟩
        simp only [List.cons_append]
        rw [splitLines_cons (hcut rest), splitLines_cons (hcut []), ih]
        split_ifs
        · rfl
        · cases hl : splitLines (l ++ ['\n']) with
          | nil =>
              cases l with
              | nil => exact absurd hl (splitLines_ne_nil _ _)
              | cons d l => exact absurd hl (splitLines_ne_nil _ _)
          | cons first ls => rfl

/-- Nothing follows the last boundary. -/
def Ended (l : List Char) : Prop := ∀ c ∈ l.getLast?, isBoundary c = true

/-- The lines behind a boundary are cut by themselves, but for a line feed behind a carriage
return. -/
theorem splitLines_append_of_ended (rest : List Char) (hrest : rest.head? ≠ some '\n') :
    ∀ l : List Char, Ended l → splitLines (l ++ rest) = splitLines l ++ splitLines rest
  | [], _ => rfl
  | c :: l, h => by
      have hlater : l ≠ [] → Ended l := fun hne d hd =>
        h d (by rwa [List.getLast?_cons_of_ne_nil hne])
      by_cases hpair : c = '\r' ∧ l.head? = some '\n'
      · obtain ⟨rfl, hhead⟩ := hpair
        obtain ⟨l, rfl⟩ := List.head?_eq_some_iff.mp hhead
        have hend : Ended l := fun d hd => by
          refine h d ?_
          rw [List.getLast?_cons_of_ne_nil (List.cons_ne_nil _ _),
            List.getLast?_cons_of_ne_nil (List.ne_nil_of_mem (List.mem_of_getLast? hd))]
          exact hd
        have ih := splitLines_append_of_ended rest hrest l hend
        simp only [List.cons_append]
        rw [splitLines_pair, splitLines_pair, ih]
        rfl
      · have hcut : ¬ (c = '\r' ∧ (l ++ rest).head? = some '\n') := by
          rintro ⟨hc, hr⟩
          cases l with
          | nil => exact hrest hr
          | cons d l => exact hpair ⟨hc, hr⟩
        rw [List.cons_append, splitLines_cons hcut, splitLines_cons hpair]
        by_cases hnil : l = []
        · subst hnil
          have hc : isBoundary c = true := h c rfl
          rw [if_pos hc, if_pos hc]
          rfl
        · have ih := splitLines_append_of_ended rest hrest l (hlater hnil)
          rw [ih]
          split_ifs
          · rfl
          · cases hl : splitLines l with
            | nil =>
                obtain ⟨d, l, rfl⟩ := List.exists_cons_of_ne_nil hnil
                exact absurd hl (splitLines_ne_nil d l)
            | cons first ls => rfl

theorem splitLines_of_unbroken {l : List Char} (h : Unbroken l) (hne : l ≠ []) :
    splitLines l = [l] := by
  induction l with
  | nil => exact absurd rfl hne
  | cons c l ih =>
      obtain ⟨hc, hl⟩ := unbroken_cons.mp h
      rw [splitLines_cons_of_not_boundary hc]
      cases l with
      | nil => rfl
      | cons d l => rw [ih hl (List.cons_ne_nil d l)]

/-- No line holds a boundary. -/
theorem unbroken_of_mem_splitLines :
    ∀ {l line : List Char}, line ∈ splitLines l → Unbroken line
  | [], _, h => absurd h List.not_mem_nil
  | c :: l, line, h => by
      by_cases hpair : c = '\r' ∧ l.head? = some '\n'
      · obtain ⟨rfl, hhead⟩ := hpair
        obtain ⟨l, rfl⟩ := List.head?_eq_some_iff.mp hhead
        rw [splitLines_pair] at h
        rcases List.mem_cons.mp h with rfl | h
        · exact unbroken_nil
        · exact unbroken_of_mem_splitLines h
      · rw [splitLines_cons hpair] at h
        split at h
        · rcases List.mem_cons.mp h with rfl | h
          · exact unbroken_nil
          · exact unbroken_of_mem_splitLines h
        next hc =>
          have hc : isBoundary c = false := Bool.eq_false_iff.mpr hc
          split at h
          · obtain rfl := List.mem_singleton.mp h
            exact unbroken_cons.mpr ⟨hc, unbroken_nil⟩
          next first ls hl =>
            have hfirst : ∀ {line}, line ∈ splitLines l → Unbroken line :=
              fun h => unbroken_of_mem_splitLines h
            rw [hl] at hfirst
            rcases List.mem_cons.mp h with rfl | h
            · exact unbroken_cons.mpr ⟨hc, hfirst List.mem_cons_self⟩
            · exact hfirst (List.mem_cons_of_mem _ h)

/-- Lines that are joined with line feeds come back. -/
theorem splitLines_intercalate {lines : List (List Char)} (hne : lines ≠ [])
    (h : ∀ line ∈ lines, Unbroken line) :
    splitLines (['\n'].intercalate lines ++ ['\n']) = lines := by
  induction lines with
  | nil => exact absurd rfl hne
  | cons line lines ih =>
      obtain ⟨hline, hlines⟩ := List.forall_mem_cons.mp h
      have hfeed : isBoundary '\n' = true := rfl
      cases lines with
      | nil =>
          rw [List.intercalate_singleton,
            splitLines_append_boundary hline hfeed (by decide)]
          rfl
      | cons next lines =>
          rw [List.intercalate_cons_cons, List.append_assoc, List.append_assoc,
            List.singleton_append, splitLines_append_boundary hline hfeed (by decide),
            ih (List.cons_ne_nil _ _) hlines]

/-- A line feed at the end ends the last line, or adds a blank one. -/
theorem splitLines_concat_newline :
    ∀ l : List Char,
      splitLines (l ++ ['\n']) = splitLines l ∨ splitLines (l ++ ['\n']) = splitLines l ++ [[]]
  | [] => Or.inr rfl
  | ['\r'] => Or.inl rfl
  | c :: d :: l => by
      by_cases hpair : c = '\r' ∧ d = '\n'
      · obtain ⟨rfl, rfl⟩ := hpair
        simp only [List.cons_append]
        rw [splitLines_pair, splitLines_pair]
        exact (splitLines_concat_newline l).imp (congrArg _) (congrArg (List.cons []))
      · have hcut : ∀ r : List Char, ¬ (c = '\r' ∧ (d :: r).head? = some '\n') := fun r h =>
          hpair ⟨h.1, Option.some.inj h.2⟩
        simp only [List.cons_append]
        rw [splitLines_cons (hcut (l ++ ['\n'])), splitLines_cons (hcut l), ← List.cons_append]
        have hlater := splitLines_concat_newline (d :: l)
        cases hl : splitLines (d :: l) with
        | nil => exact absurd hl (splitLines_ne_nil d l)
        | cons first ls =>
            rw [hl] at hlater
            rcases hlater with h | h
            · exact Or.inl (by rw [h])
            · refine Or.inr ?_
              rw [h]
              split_ifs <;> rfl
  | [c] => by
      by_cases hreturn : c = '\r'
      · rw [hreturn]
        exact Or.inl rfl
      · have hcut : ∀ r : List Char, ¬ (c = '\r' ∧ r.head? = some '\n') := fun r h => hreturn h.1
        rw [List.singleton_append, splitLines_cons (hcut ['\n']), splitLines_cons (hcut [])]
        split_ifs
        · exact Or.inr rfl
        · exact Or.inl rfl

end Lines
end DiploidAgent
