import Mathlib.Data.List.Basic
import Mathlib.Data.List.DropRight
import Mathlib.Tactic.Common

/-!
# Text helpers of Python's `str`

White space as `str.isspace` knows it, the strip methods, integers padded with zeros, and
`int` of a text.
-/

namespace DiploidAgent
namespace Text

/-- `str.isspace` of a character. -/
def isSpace (c : Char) : Bool :=
  let n := c.toNat
  (9 ≤ n && n ≤ 13) || (28 ≤ n && n ≤ 32) || n == 0x85 || n == 0xa0 || n == 0x1680 ||
    (0x2000 ≤ n && n ≤ 0x200a) || n == 0x2028 || n == 0x2029 || n == 0x202f || n == 0x205f ||
    n == 0x3000

/-- `str.lstrip` without an argument. -/
def lstrip (s : List Char) : List Char := s.dropWhile isSpace

/-- `str.rstrip` without an argument. -/
def rstrip (s : List Char) : List Char := (s.reverse.dropWhile isSpace).reverse

/-- `str.strip` without an argument. -/
def strip (s : List Char) : List Char := rstrip (lstrip s)

/-- The format `0wd` of an integer. -/
def padInt (w : Nat) (n : Int) : List Char :=
  if n < 0 then '-' :: (Nat.toDigits 10 n.natAbs).leftpad (w - 1) '0'
  else (Nat.toDigits 10 n.natAbs).leftpad w '0'

/-- The digits of a literal; single underscores may stand between them. -/
def literalDigits : List Char → Option (List Char)
  | [] => none
  | [c] => if c.isDigit then some [c] else none
  | c :: '_' :: rest => if c.isDigit then (literalDigits rest).map (c :: ·) else none
  | c :: rest => if c.isDigit then (literalDigits rest).map (c :: ·) else none

/-- The value of a literal without a sign. -/
def literalValue (s : List Char) : Option Int :=
  (literalDigits s).map fun ds => (Nat.ofDigitChars 10 ds 0 : Int)

/-- `int` of a text in ASCII digits. -/
def intOf (s : List Char) : Option Int :=
  match strip s with
  | '-' :: ds => (literalValue ds).map fun n => -n
  | '+' :: ds => literalValue ds
  | ds => literalValue ds

section Literals

theorem isSpace_of_isDigit
    {c : Char} (h : c.isDigit = true) :
    isSpace c = false := by
  have hrange : 48 ≤ c.toNat ∧ c.toNat ≤ 57 := by
    simpa [Char.isDigit, UInt32.le_iff_toNat_le] using h
  simp [isSpace]
  omega

theorem strip_eq_self
    {s : List Char} (h : ∀ c ∈ s, isSpace c = false) :
    strip s = s := by
  have hdrop : ∀ t : List Char, (∀ c ∈ t, isSpace c = false) → t.dropWhile isSpace = t := by
    intro t ht
    cases t with
    | nil => rfl
    | cons c t => exact List.dropWhile_cons_of_neg (by simp [ht c List.mem_cons_self])
  unfold strip lstrip rstrip
  rw [hdrop s h, hdrop s.reverse fun c hc => h c (List.mem_reverse.mp hc), List.reverse_reverse]

theorem strip_strip
    (s : List Char) :
    strip (strip s) = strip s := by
  have hhead : lstrip (strip s) = strip s := by
    rw [lstrip, List.dropWhile_eq_self_iff]
    intro hl
    have hpre : strip s <+: lstrip s :=
      List.rdropWhile_prefix isSpace (lstrip s)
    rw [hpre.getElem hl]
    exact List.dropWhile_get_zero_not isSpace s _
  calc strip (strip s)
      _ = rstrip (strip s) := by rw [strip, hhead]
      _ = strip s := List.rdropWhile_idempotent isSpace (lstrip s)

theorem isSpace_of_strip_eq_nil
    {s : List Char} (h : strip s = []) :
    ∀ c ∈ s, isSpace c = true := by
  have hright : ∀ c ∈ lstrip s, isSpace c = true := by
    have hdrop := List.dropWhile_eq_nil_iff.mp (List.reverse_eq_nil_iff.mp h)
    exact fun c hc => hdrop c (List.mem_reverse.mpr hc)
  have hnil : lstrip s = [] := by
    rw [← List.dropWhile_eq_nil_iff] at hright
    exact (List.dropWhile_idempotent isSpace s).symm.trans hright
  exact List.dropWhile_eq_nil_iff.mp hnil

theorem literalDigits_eq_self
    {ds : List Char} (hne : ds ≠ []) (h : ∀ c ∈ ds, c.isDigit = true) :
    literalDigits ds = some ds := by
  induction ds with
  | nil => exact absurd rfl hne
  | cons c ds ih =>
      have hc := h c List.mem_cons_self
      cases ds with
      | nil => rw [literalDigits, if_pos hc]
      | cons d ds =>
          have hd : d ≠ '_' := fun heq => by
            have hdigit := h d (List.mem_cons_of_mem _ List.mem_cons_self)
            rw [heq] at hdigit
            cases hdigit
          have hrest := ih (List.cons_ne_nil d ds) fun e he => h e (List.mem_cons_of_mem _ he)
          rw [literalDigits, if_pos hc, hrest, Option.map_some]
          · exact List.cons_ne_nil d ds
          · exact fun rest heq => hd (List.cons.inj heq).1

/-- `int(str(n))`. -/
theorem intOf_toDigits
    (n : Nat) :
    intOf (Nat.toDigits 10 n) = some (n : Int) := by
  have hdigits : ∀ c ∈ Nat.toDigits 10 n, c.isDigit = true := fun c hc =>
    Nat.isDigit_of_mem_toDigits (by omega) (by omega) hc
  have hvalue : literalValue (Nat.toDigits 10 n) = some (n : Int) := by
    rw [literalValue, literalDigits_eq_self Nat.toDigits_ne_nil hdigits, Option.map_some,
      Nat.ofDigitChars_ten_toDigits]
  unfold intOf
  rw [strip_eq_self fun c hc => isSpace_of_isDigit (hdigits c hc)]
  cases hds : Nat.toDigits 10 n with
  | nil => exact absurd hds Nat.toDigits_ne_nil
  | cons c ds =>
      have hc := hdigits c (hds ▸ List.mem_cons_self)
      rw [hds] at hvalue
      split
      · rename_i heq
        rw [(List.cons.inj heq).1] at hc
        cases hc
      · rename_i heq
        rw [(List.cons.inj heq).1] at hc
        cases hc
      · exact hvalue

end Literals

section Padding

theorem ofDigitChars_leftpad
    (w n : Nat) :
    Nat.ofDigitChars 10 ((Nat.toDigits 10 n).leftpad w '0') 0 = n := by
  have hzeros : ∀ k (ds : List Char),
      Nat.ofDigitChars 10 (List.replicate k '0' ++ ds) 0 = Nat.ofDigitChars 10 ds 0 := by
    intro k ds
    induction k with
    | zero => rfl
    | succ k ih =>
        rw [List.replicate_succ, List.cons_append, Nat.ofDigitChars_cons]
        exact ih
  rw [List.leftpad, hzeros, Nat.ofDigitChars_ten_toDigits]

theorem isDigit_leftpad
    {w n : Nat} {c : Char} (hc : c ∈ (Nat.toDigits 10 n).leftpad w '0') :
    c.isDigit = true := by
  rw [List.leftpad, List.mem_append] at hc
  rcases hc with hc | hc
  · rw [List.eq_of_mem_replicate hc]
    rfl
  · exact Nat.isDigit_of_mem_toDigits (by omega) (by omega) hc

/-- A text of digits ends where a character that is no digit follows. -/
theorem digits_append_inj
    {ds ds' : List Char} (hds : ∀ c ∈ ds, c.isDigit = true) (hds' : ∀ c ∈ ds', c.isDigit = true)
    {d : Char} (hd : d.isDigit = false) {rest rest' : List Char}
    (h : ds ++ d :: rest = ds' ++ d :: rest') :
    ds = ds' ∧ rest = rest' := by
  have htake : ∀ l r : List Char, (∀ c ∈ l, c.isDigit = true) →
      (l ++ d :: r).takeWhile Char.isDigit = l := by
    intro l r hl
    rw [List.takeWhile_append_of_pos hl, List.takeWhile_cons_of_neg (by simp [hd]),
      List.append_nil]
  have hsame : ds = ds' := by
    rw [← htake ds rest hds, h, htake ds' rest' hds']
  subst hsame
  exact ⟨rfl, (List.cons.inj (List.append_cancel_left h)).2⟩

/-- A padded number ends where a character that is no digit follows. -/
theorem padInt_append_inj
    {w : Nat} {n n' : Int} {d : Char} (hd : d.isDigit = false) {rest rest' : List Char}
    (h : padInt w n ++ d :: rest = padInt w n' ++ d :: rest') :
    n = n' ∧ rest = rest' := by
  have hdigits : ∀ (v : Nat) (m m' : Int), (Nat.toDigits 10 m.natAbs).leftpad v '0' ++ d :: rest =
      (Nat.toDigits 10 m'.natAbs).leftpad v '0' ++ d :: rest' →
      m.natAbs = m'.natAbs ∧ rest = rest' := by
    intro v m m' heq
    obtain ⟨hpad, hrest⟩ := digits_append_inj (fun _ => isDigit_leftpad) (fun _ => isDigit_leftpad)
      hd heq
    refine ⟨?_, hrest⟩
    rw [← ofDigitChars_leftpad v m.natAbs, hpad, ofDigitChars_leftpad]
  have hsign : ∀ (v : Nat) (m : Int) (r r' : List Char),
      (Nat.toDigits 10 m.natAbs).leftpad v '0' ++ d :: r ≠ '-' :: r' := by
    intro v m r r' heq
    cases hpad : (Nat.toDigits 10 m.natAbs).leftpad v '0' with
    | nil =>
        have hne := Nat.toDigits_ne_nil (b := 10) (n := m.natAbs)
        rw [List.leftpad, List.append_eq_nil_iff] at hpad
        exact hne hpad.2
    | cons c ds =>
        have hdigit := isDigit_leftpad (hpad ▸ List.mem_cons_self : c ∈ _)
        rw [hpad] at heq
        rw [(List.cons.inj heq).1] at hdigit
        cases hdigit
  unfold padInt at h
  split_ifs at h with hneg hneg' hneg'
  · obtain ⟨habs, hrest⟩ := hdigits _ _ _ (List.cons.inj h).2
    exact ⟨by omega, hrest⟩
  · exact absurd h.symm (hsign _ _ _ _)
  · exact absurd h (hsign _ _ _ _)
  · obtain ⟨habs, hrest⟩ := hdigits _ _ _ h
    exact ⟨by omega, hrest⟩

end Padding

end Text
end DiploidAgent
