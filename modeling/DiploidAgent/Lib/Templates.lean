import DiploidAgent.Lib.Codes

/-!
# Replacement templates

The replacement of `re.sub` is a template: what stands behind a backslash is an escape, a
reference to a group, or an error.  Of a pattern without groups the only one to refer to is
the whole match.

A text is a template of itself exactly if no backslash in it stands before a letter, a digit
or another backslash.  If one does, the result does not even start with the text
(`inert_of_prefix_template`).
-/

namespace DiploidAgent
namespace Templates

open Codes Separators

def backslash : Code := .char '\\'

/-- The characters that mean something behind a backslash. -/
def special : Code → Bool := Code.is fun c => c.isAlphanum || c == '\\'

def isOctal : Code → Bool := Code.is fun c => '0' ≤ c && c ≤ '7'

/-- `int(text, 8)`. -/
def octalValue (digits : Str) : Nat :=
  digits.foldl (fun n d =>
    match d with
    | .char c => 8 * n + (c.toNat - '0'.toNat)
    | .lone _ => n) 0

/-- The escapes of one letter. -/
def control : Char → Option Char
  | 'a' => some '\x07'
  | 'b' => some '\x08'
  | 'f' => some '\x0c'
  | 'n' => some '\n'
  | 'r' => some '\r'
  | 't' => some '\t'
  | 'v' => some '\x0b'
  | '\\' => some '\\'
  | _ => none

/-- Behind `\g`: the length of a reference to the whole match.  Every other reference is an
error. -/
def group : Str → Option Nat
  | .char '<' :: rest =>
      let zeros := rest.takeWhile fun c => c = .char '0'
      if zeros ≠ [] ∧ (rest.drop zeros.length).head? = some (.char '>') then
        some (zeros.length + 2)
      else none
  | _ => none

/-- What is written for a backslash and what follows it, and how many characters that is. -/
def escape (found : Str) : Str → Option (Str × Nat)
  | [] => none
  | .lone n :: _ => some ([backslash, .lone n], 1)
  | .char c :: rest =>
      if c = 'g' then (group rest).map fun n => (found, n + 1)
      else if c = '0' then
        let digits := (rest.take 2).takeWhile isOctal
        some ([.char (Char.ofNat (octalValue digits))], digits.length + 1)
      else if c.isDigit then
        let digits := .char c :: rest.take 2
        if digits.length = 3 ∧ digits.all isOctal ∧ octalValue digits ≤ 255 then
          some ([.char (Char.ofNat (octalValue digits))], 3)
        else none
      else
        match control c with
        | some d => some ([.char d], 1)
        | none => if c.isAlpha then none else some ([backslash, .char c], 1)

/-- What a template writes; `skip` characters belong to the escape before. -/
def templateFrom (found : Str) : Nat → Str → Option Str
  | _, [] => some []
  | skip + 1, _ :: rest => templateFrom found skip rest
  | 0, c :: rest =>
      if c = backslash then
        (escape found rest).bind fun r => (templateFrom found r.2 rest).map (r.1 ++ ·)
      else (templateFrom found 0 rest).map (c :: ·)

/-- What a template writes for a match; `none` is an error of the template. -/
def template (found repl : Str) : Option Str := templateFrom found 0 repl

/-- No backslash stands before a special character. -/
def Inert (s : Str) : Prop := ∀ c, special c = true → ¬ [backslash, c] <:+: s

section Steps

variable {found rest out e : Str} {c : Code} {n : Nat}

theorem templateFrom_eq_drop (found : Str) (n : Nat) (s : Str) :
    templateFrom found n s = template found (s.drop n) := by
  induction n generalizing s with
  | zero => rfl
  | succ n ih =>
      cases s with
      | nil => rfl
      | cons c s => exact ih s

theorem template_cons_of_ne (hc : c ≠ backslash) :
    template found (c :: rest) = (template found rest).map (c :: ·) := by
  rw [template, templateFrom, if_neg hc]
  rfl

theorem template_backslash :
    template found (backslash :: rest) =
      (escape found rest).bind fun r => (template found (rest.drop r.2)).map (r.1 ++ ·) := by
  rw [template, templateFrom, if_pos rfl]
  simp only [templateFrom_eq_drop]

/-- Text without a backslash is copied. -/
theorem template_append {s : Str} (h : backslash ∉ s) (t : Str) :
    template found (s ++ t) = (template found t).map (s ++ ·) := by
  induction s with
  | nil => cases hrest : template found t <;> simp [hrest]
  | cons c s ih =>
      rw [List.cons_append, template_cons_of_ne fun hc => h (hc ▸ List.mem_cons_self),
        ih fun hmem => h (List.mem_cons_of_mem c hmem), Option.map_map]
      rfl

theorem special_of_isDigit {c : Char} (h : c.isDigit = true) : special (.char c) = true := by
  simp [special, Code.is, Char.isAlphanum, h]

theorem special_of_isOctal {c : Code} (h : isOctal c = true) : special c = true := by
  cases c with
  | lone n => cases h
  | char c =>
      have hrange : '0' ≤ c ∧ c ≤ '7' := by simpa [isOctal, Code.is] using h
      refine special_of_isDigit ?_
      rw [Char.isDigit, Bool.and_eq_true, decide_eq_true_eq, decide_eq_true_eq]
      exact ⟨hrange.1, UInt32.le_trans hrange.2 (by decide)⟩

theorem special_of_control {c d : Char} (h : control c = some d) : special (.char c) = true := by
  unfold control at h
  split at h
  iterate 8 rfl
  cases h

theorem special_eq_false {c : Char} (hdigit : c.isDigit = false) (halpha : c.isAlpha = false)
    (h : control c = none) :
    special (.char c) = false := by
  have hne : c ≠ '\\' := by
    rintro rfl
    cases h
  simp [special, Code.is, Char.isAlphanum, hdigit, halpha, hne]

/-- An escape keeps both characters, or writes the match, or writes one character for
special ones. -/
theorem escape_cases (h : escape found rest = some (out, n)) :
    (∃ c rest', rest = c :: rest' ∧ special c = false ∧ out = [backslash, c] ∧ n = 1) ∨
      out = found ∨
      ∃ d, out = [d] ∧ rest.take n ≠ [] ∧ ∀ c ∈ rest.take n, special c = true := by
  cases rest with
  | nil => cases h
  | cons c rest =>
      cases c with
      | lone k =>
          obtain ⟨rfl, rfl⟩ := Prod.mk.inj (Option.some.inj h)
          exact Or.inl ⟨_, rest, rfl, rfl, rfl, rfl⟩
      | char c =>
          rw [escape] at h
          by_cases hg : c = 'g'
          · rw [if_pos hg] at h
            obtain ⟨k, _, heq⟩ := Option.map_eq_some_iff.mp h
            exact Or.inr (Or.inl (Prod.mk.inj heq).1.symm)
          rw [if_neg hg] at h
          by_cases hzero : c = '0'
          · -- an octal escape of at most three digits
            rw [if_pos hzero] at h
            obtain ⟨rfl, rfl⟩ := Prod.mk.inj (Option.some.inj h)
            have hheads : (rest.take 2).takeWhile isOctal <+: rest :=
              (List.takeWhile_prefix _).trans (List.take_prefix 2 rest)
            have htake := List.prefix_iff_eq_take.mp hheads
            refine Or.inr (Or.inr ⟨_, rfl, by simp, ?_⟩)
            rw [List.take_succ_cons, ← htake]
            refine List.forall_mem_cons.mpr ⟨hzero ▸ rfl, fun d hd => ?_⟩
            exact special_of_isOctal (List.mem_takeWhile_imp hd)
          rw [if_neg hzero] at h
          by_cases hdigit : c.isDigit
          · rw [if_pos hdigit] at h
            by_cases hoctal : (Code.char c :: rest.take 2).length = 3 ∧
                (Code.char c :: rest.take 2).all isOctal ∧
                octalValue (Code.char c :: rest.take 2) ≤ 255
            · dsimp only at h
              rw [if_pos hoctal] at h
              obtain ⟨rfl, rfl⟩ := Prod.mk.inj (Option.some.inj h)
              refine Or.inr (Or.inr ⟨_, rfl, by simp, fun d hd => ?_⟩)
              exact special_of_isOctal (List.all_eq_true.mp hoctal.2.1 d hd)
            · dsimp only at h
              rw [if_neg hoctal] at h
              cases h
          rw [if_neg hdigit] at h
          cases hcontrol : control c with
          | some d =>
              rw [hcontrol] at h
              obtain ⟨rfl, rfl⟩ := Prod.mk.inj (Option.some.inj h)
              refine Or.inr (Or.inr ⟨_, rfl, by simp, ?_⟩)
              exact List.forall_mem_singleton.mpr (special_of_control hcontrol)
          | none =>
              rw [hcontrol] at h
              by_cases halpha : c.isAlpha
              · dsimp only at h
                rw [if_pos halpha] at h
                cases h
              · dsimp only at h
                rw [if_neg halpha] at h
                obtain ⟨rfl, rfl⟩ := Prod.mk.inj (Option.some.inj h)
                have hspecial := special_eq_false (by simpa using hdigit) (by simpa using halpha)
                  hcontrol
                exact Or.inl ⟨_, rest, rfl, hspecial, rfl, rfl⟩

/-- What is no special character is kept. -/
theorem escape_of_not_special (hc : special c = false) :
    escape found (c :: rest) = some ([backslash, c], 1) := by
  cases c with
  | lone n => rfl
  | char c =>
      have hcases : c.isAlphanum = false ∧ c ≠ '\\' := by simpa [special, Code.is] using hc
      have hparts : c.isAlpha = false ∧ c.isDigit = false := by
        simpa [Char.isAlphanum] using hcases.1
      have hcontrol : control c = none := by
        cases h : control c with
        | none => rfl
        | some d => exact absurd (special_of_control h) (by simp [hc])
      have hg : c ≠ 'g' := by rintro rfl; cases hparts.1
      have hzero : c ≠ '0' := by rintro rfl; cases hparts.2
      rw [escape, if_neg hg, if_neg hzero, if_neg (by simp [hparts.2]), hcontrol]
      dsimp only
      rw [if_neg (by simp [hparts.1])]

end Steps

/-! ### Inert texts -/

section Inert

variable {found s e : Str} {c first : Code}

theorem inert_nil : Inert [] := fun c _ h => by cases List.infix_nil.mp h

theorem inert_cons_of_ne (hc : c ≠ backslash) : Inert (c :: s) ↔ Inert s := by
  refine forall₂_congr fun d _ => not_congr ?_
  rw [List.infix_cons_iff, List.cons_prefix_cons]
  exact or_iff_right fun h => hc h.1.symm

/-- Behind a backslash that keeps its character the text goes on. -/
theorem inert_backslash_cons (hc : special c = false) :
    Inert (backslash :: c :: s) ↔ Inert s := by
  have hne : c ≠ backslash := by
    rintro rfl
    cases hc
  refine Iff.trans ?_ (inert_cons_of_ne hne)
  refine forall₂_congr fun d hd => not_congr ?_
  rw [List.infix_cons_iff, List.cons_prefix_cons, List.cons_prefix_cons]
  refine or_iff_right fun h => ?_
  rw [h.2.1, hc] at hd
  cases hd

theorem Inert.head
    (h : Inert (backslash :: c :: s)) :
    special c = false := by
  by_contra hc
  exact h c (by simpa using hc) ⟨[], s, rfl⟩

/-- A text that is inert and does not end with a backslash is a template of itself. -/
theorem template_of_inert (found : Str) (h : Inert s) (hlast : s.getLast? ≠ some backslash) :
    template found s = some s := by
  induction hn : s.length using Nat.strong_induction_on generalizing s with
  | _ n ih =>
      cases s with
      | nil => rfl
      | cons c s =>
          by_cases hc : c = backslash
          · subst hc
            cases s with
            | nil => exact absurd rfl hlast
            | cons d s =>
                have hkept := h.head
                have hend : s.getLast? ≠ some backslash := fun hs => hlast (by
                  rw [List.getLast?_cons, List.getLast?_cons, hs]
                  rfl)
                have hrest := ih s.length (by simp at hn; omega)
                  ((inert_backslash_cons hkept).mp h) hend rfl
                rw [template_backslash, escape_of_not_special hkept, Option.bind_some,
                  List.drop_one, List.tail_cons, hrest]
                rfl
          · have hend : s.getLast? ≠ some backslash := fun hs => hlast (by
              rw [List.getLast?_cons, hs]
              rfl)
            have hrest := ih s.length (by simp at hn; omega) ((inert_cons_of_ne hc).mp h) hend rfl
            rw [template_cons_of_ne hc, hrest]
            rfl

/-- The result falls behind the text and never catches up: a match starts with a character
that the text in between does not hold. -/
theorem not_prefix_of_template
    (ahead : Str) (hfound : found.head? = some first) (hfirst : special first = false)
    (hahead : ahead ≠ []) (hnot : first ∉ ahead) (h : template found s = some e) :
    ¬ ahead ++ s <+: e := by
  induction hn : s.length using Nat.strong_induction_on generalizing s ahead e with
  | _ n ih =>
      intro hheads
      obtain ⟨p, ahead, rfl⟩ := List.exists_cons_of_ne_nil hahead
      have hp : first ≠ p := fun heq => hnot (heq ▸ List.mem_cons_self)
      have hrest : first ∉ ahead := fun hmem => hnot (List.mem_cons_of_mem p hmem)
      cases s with
      | nil =>
          cases h
          cases List.prefix_nil.mp hheads
      | cons c s =>
          by_cases hc : c = backslash
          · subst hc
            rw [template_backslash] at h
            obtain ⟨⟨out, k⟩, hescape, hout⟩ := Option.bind_eq_some_iff.mp h
            obtain ⟨e, he, rfl⟩ := Option.map_eq_some_iff.mp hout
            dsimp only at he hheads
            rcases escape_cases hescape with
              ⟨d, s, rfl, hd, rfl, rfl⟩ | rfl | ⟨d, rfl, hne, hspecial⟩
            · obtain ⟨rfl, htail⟩ := List.cons_prefix_cons.mp hheads
              cases ahead with
              | nil =>
                  obtain ⟨rfl, _⟩ := List.cons_prefix_cons.mp htail
                  cases hd
              | cons q ahead =>
                  obtain ⟨rfl, hmore⟩ := List.cons_prefix_cons.mp htail
                  obtain ⟨hfirstq, hbehind'⟩ := not_or.mp fun h => hrest (List.mem_cons.mpr h)
                  have hkeep : first ∉ ahead ++ [backslash, q] := by simp [hbehind', hp, hfirstq]
                  refine ih s.length (by simp at hn; omega) (ahead ++ [backslash, q]) (by simp) hkeep
                    (s := s) he rfl ?_
                  rw [List.append_assoc]
                  exact hmore
            · obtain ⟨found, rfl⟩ := List.head?_eq_some_iff.mp hfound
              exact hp (List.cons_prefix_cons.mp hheads).1.symm
            · have htail := (List.cons_prefix_cons.mp hheads).2
              have hbehind : first ∉ backslash :: s.take k := by
                intro hmem
                have hmeans : special first = true := by
                  rcases List.mem_cons.mp hmem with rfl | hlater
                  · rfl
                  · exact hspecial first hlater
                rw [hfirst] at hmeans
                cases hmeans
              refine ih (s.drop k).length (by simp at hn ⊢; omega) (ahead ++ backslash :: s.take k)
                (by simp) (by simp [hrest, hbehind]) he rfl ?_
              rw [List.append_assoc, List.cons_append, List.take_append_drop]
              exact htail
          · rw [template_cons_of_ne hc] at h
            obtain ⟨e, he, rfl⟩ := Option.map_eq_some_iff.mp h
            obtain ⟨rfl, htail⟩ := List.cons_prefix_cons.mp hheads
            refine ih s.length (by simp at hn; omega) (ahead ++ [p]) (by simp) (by simp [hrest, hp])
              he rfl ?_
            rw [List.append_assoc]
            exact htail

/-- A template whose result starts with the template itself is inert. -/
theorem inert_of_prefix_template
    (hfound : found.head? = some first) (hfirst : special first = false)
    (h : template found s = some e) (hheads : s <+: e) :
    Inert s := by
  induction hn : s.length using Nat.strong_induction_on generalizing s e with
  | _ n ih =>
      cases s with
      | nil => exact inert_nil
      | cons c s =>
          by_cases hc : c = backslash
          · subst hc
            rw [template_backslash] at h
            obtain ⟨⟨out, k⟩, hescape, hout⟩ := Option.bind_eq_some_iff.mp h
            obtain ⟨e, he, rfl⟩ := Option.map_eq_some_iff.mp hout
            dsimp only at he hheads
            rcases escape_cases hescape with
              ⟨d, s, rfl, hd, rfl, rfl⟩ | rfl | ⟨d, rfl, hne, hspecial⟩
            · have htail := (List.cons_prefix_cons.mp (List.cons_prefix_cons.mp hheads).2).2
              exact (inert_backslash_cons hd).mpr
                (ih s.length (by simp at hn; omega) he htail rfl)
            · obtain ⟨found, rfl⟩ := List.head?_eq_some_iff.mp hfound
              obtain ⟨rfl, _⟩ := List.cons_prefix_cons.mp hheads
              cases hfirst
            · refine absurd ?_ (not_prefix_of_template (s.take k) hfound hfirst hne ?_ he)
              · rw [List.take_append_drop]
                exact (List.cons_prefix_cons.mp hheads).2
              · intro hmem
                have hmeans := hspecial first hmem
                rw [hfirst] at hmeans
                cases hmeans
          · rw [template_cons_of_ne hc] at h
            obtain ⟨e, he, rfl⟩ := Option.map_eq_some_iff.mp h
            exact (inert_cons_of_ne hc).mpr (ih s.length (by simp at hn; omega) he
              (List.cons_prefix_cons.mp hheads).2 rfl)

end Inert

end Templates
end DiploidAgent
