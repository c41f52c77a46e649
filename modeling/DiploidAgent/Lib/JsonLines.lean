import DiploidAgent.Lib.Json
import DiploidAgent.Lib.Lines

/-!
# Flat JSON objects, one a line

A writer that leaves U+0085, U+2028 and U+2029 as they are, and a reader that
cuts the text at every line boundary.  An object none of whose strings holds one
of the three is one line (`lines_of_clean`); any other object is cut into lines
of which none is read as an object with members (`lines_of_broken`), so it is
lost without a trace.
-/

namespace DiploidAgent
namespace JsonText

open Lines

universe u

variable {F : Type u}

/-- A line boundary that the writer does not escape. -/
def isRawBoundary (c : Char) : Bool :=
  c == '\u0085' || c == '\u2028' || c == '\u2029'

/-- The string holds no unescaped line boundary. -/
def CleanText (s : List Char) : Prop :=
  ∀ c ∈ s, isRawBoundary c = false

instance (s : List Char) : Decidable (CleanText s) :=
  List.decidableBAll _ s

def Scalar.Clean : Scalar F → Prop
  | .str s => CleanText s
  | _ => True

instance : (v : Scalar F) → Decidable v.Clean
  | .str s => inferInstanceAs (Decidable (CleanText s))
  | .null => isTrue trivial
  | .bool _ => isTrue trivial
  | .int _ => isTrue trivial
  | .float _ => isTrue trivial

section Escapes

theorem digitChar_unbroken :
    ∀ n < 16, isBoundary (Nat.digitChar n) = false := by
  decide

/-- The escapes leave three boundaries. -/
theorem unbroken_escapeChar
    (c : Char) :
    Unbroken (escapeChar c) ↔ isRawBoundary c = false := by
  unfold escapeChar
  split_ifs with hquote hslash hb hf hn hr ht hcontrol
  · subst hquote; decide
  · subst hslash; decide
  · subst hb; decide
  · subst hf; decide
  · subst hn; decide
  · subst hr; decide
  · subst ht; decide
  · have hhigh := digitChar_unbroken (c.toNat / 16) (by omega)
    have hlow := digitChar_unbroken (c.toNat % 16) (by omega)
    have hraw : isRawBoundary c = false := by
      cases h : isRawBoundary c with
      | false => rfl
      | true =>
          simp only [isRawBoundary, Bool.or_eq_true, beq_iff_eq] at h
          rcases h with (rfl | rfl) | rfl <;> exact absurd hcontrol (by decide)
    simp [unbroken_cons, unbroken_nil, hhigh, hlow, hraw]
    decide
  · have hsame : isBoundary c = isRawBoundary c := by
      have hne : ∀ d : Char, d.toNat < 32 → (c == d) = false := by
        intro d hd
        refine beq_false_of_ne ?_
        rintro rfl
        exact hcontrol hd
      simp [isBoundary, isRawBoundary, hne '\n' (by decide), hne '\r' (by decide),
        hne '\x0b' (by decide), hne '\x0c' (by decide), hne '\x1c' (by decide),
        hne '\x1d' (by decide), hne '\x1e' (by decide)]
    simp [unbroken_cons, unbroken_nil, hsame]

theorem unbroken_escape
    (s : List Char) :
    Unbroken (escape s) ↔ CleanText s := by
  induction s with
  | nil => exact iff_of_true unbroken_nil fun _ h => nomatch h
  | cons c s ih =>
      rw [escape, List.flatMap_cons, unbroken_append, ← escape, unbroken_escapeChar, ih]
      simp [CleanText]

theorem escapeChar_rawBoundary
    {c : Char} (hc : isRawBoundary c = true) :
    escapeChar c = [c] := by
  simp only [isRawBoundary, Bool.or_eq_true, beq_iff_eq] at hc
  rcases hc with (rfl | rfl) | rfl <;> rfl

theorem isBoundary_of_raw
    {c : Char} (hc : isRawBoundary c = true) :
    isBoundary c = true ∧ c ≠ '\r' := by
  simp only [isRawBoundary, Bool.or_eq_true, beq_iff_eq] at hc
  rcases hc with (rfl | rfl) | rfl <;> decide

/-- A string is clean, or has a first unescaped boundary. -/
theorem clean_or_first
    (s : List Char) :
    CleanText s ∨ ∃ p c q, s = p ++ c :: q ∧ CleanText p ∧ isRawBoundary c = true := by
  induction s with
  | nil => exact Or.inl fun _ h => nomatch h
  | cons d s ih =>
      cases hd : isRawBoundary d with
      | true => exact Or.inr ⟨[], d, s, rfl, (fun _ h => nomatch h), hd⟩
      | false =>
          rcases ih with hs | ⟨p, c, q, rfl, hp, hc⟩
          · exact Or.inl (List.forall_mem_cons.mpr ⟨hd, hs⟩)
          · exact Or.inr ⟨d :: p, c, q, rfl, List.forall_mem_cons.mpr ⟨hd, hp⟩, hc⟩

/-- A string is clean, or has a last unescaped boundary. -/
theorem clean_or_last
    (s : List Char) :
    CleanText s ∨ ∃ p c q, s = p ++ c :: q ∧ isRawBoundary c = true ∧ CleanText q := by
  induction s with
  | nil => exact Or.inl fun _ h => nomatch h
  | cons d s ih =>
      rcases ih with hs | ⟨p, c, q, rfl, hc, hq⟩
      · cases hd : isRawBoundary d with
        | true => exact Or.inr ⟨[], d, s, rfl, hd, hs⟩
        | false => exact Or.inl (List.forall_mem_cons.mpr ⟨hd, hs⟩)
      · exact Or.inr ⟨d :: p, c, q, rfl, hc, hq⟩

end Escapes

/-! ### Fragments -/

section Fragments

variable {N : FloatText F}

/-- The text is not read as an object with members. -/
def NoMembers (N : FloatText F) (text : List Char) : Prop :=
  ∀ ms, loads N text = some (.obj ms) → ms = []

/-- An object with members is read from a brace and the text of its members. -/
theorem readValue_obj
    {n : Nat} {text rest : List Char} {ms : List (List Char × Value F)}
    (h : readValue N n text = some (.obj ms, rest))
    (hne : ms ≠ []) :
    ∃ text' k, text = '{' :: text' ∧ expect '}' text' = none ∧
      readMembers N k text' = some (ms, rest) := by
  cases n with
  | zero => cases h
  | succ n =>
      cases text with
      | nil => cases h
      | cons c text' =>
          rw [readValue] at h
          split_ifs at h with hquote hbrace hbracket hnull htrue hfalse
          · cases hread : readString text' <;> rw [hread] at h <;> cases h
          · subst hbrace
            refine ⟨text', n, rfl, ?_⟩
            cases hclose : expect '}' text' with
            | some r =>
                rw [hclose] at h
                cases h
                exact absurd rfl hne
            | none =>
                rw [hclose] at h
                dsimp only at h
                cases hread : readMembers N n text' with
                | none =>
                    rw [hread] at h
                    cases h
                | some r =>
                    rw [hread] at h
                    cases h
                    exact ⟨rfl, rfl⟩
          · cases hclose : expect ']' text' with
            | some r =>
                rw [hclose] at h
                cases h
            | none =>
                rw [hclose] at h
                dsimp only at h
                cases hread : readItems N n text' <;> rw [hread] at h <;> cases h
          · cases hread : readLiteral ['n', 'u', 'l', 'l'] (c :: text') <;> rw [hread] at h <;>
              cases h
          · cases hread : readLiteral ['t', 'r', 'u', 'e'] (c :: text') <;> rw [hread] at h <;>
              cases h
          · cases hread : readLiteral ['f', 'a', 'l', 's', 'e'] (c :: text') <;>
              rw [hread] at h <;> cases h
          · cases hread : readNumber N ((c :: text').takeWhile isNumberChar) <;>
              rw [hread] at h <;> cases h

/-- A text is no object with members if no members can be read after its opening
brace. -/
theorem noMembers_of_readMembers
    {text : List Char}
    (h : ∀ text', skipWs text = '{' :: text' → expect '}' text' = none →
      ∀ k, readMembers N k text' = none) :
    NoMembers N text := by
  intro ms hloads
  by_contra hne
  unfold loads at hloads
  cases hvalue : readValue N (text.length + 1) (skipWs text) with
  | none =>
      rw [hvalue] at hloads
      cases hloads
  | some r =>
      rw [hvalue] at hloads
      dsimp only at hloads
      split_ifs at hloads
      obtain ⟨value, rest⟩ := r
      obtain rfl : value = .obj ms := Option.some.inj hloads
      obtain ⟨text', k, htext, hclose, hread⟩ := readValue_obj hvalue hne
      rw [h text' htext hclose k] at hread
      cases hread

/-- Text up to an unclosed string: the members before it, its key, and what there is
of it. -/
def openText (N : FloatText F) (key s : List Char) : List (List Char × Scalar F) → List Char
  | [] => writeString key ++ ':' :: '"' :: escape s
  | m :: ms => writeMember N m ++ ',' :: openText N key s ms

theorem readMembers_one
    (text : List Char) :
    readMembers N 1 text = none := by
  rw [readMembers]
  cases expect '"' text with
  | none => rfl
  | some rest =>
      dsimp only
      cases readString rest with
      | none => rfl
      | some r =>
          dsimp only
          cases expect ':' r.2 <;> rfl

theorem readMembers_openText
    (key s : List Char) (ms : List (List Char × Scalar F)) (n : Nat) :
    readMembers N n (openText N key s ms) = none := by
  induction ms generalizing n with
  | nil =>
      cases n with
      | zero => rfl
      | succ n =>
          have htext : openText N key s [] =
              '"' :: (escape key ++ '"' :: (':' :: '"' :: escape s)) := by
            simp [openText, writeString]
          rw [htext, readMembers, expect_self rfl]
          dsimp only
          rw [readString_escape]
          dsimp only
          rw [expect_self rfl]
          have hskip : skipWs ('"' :: escape s) = '"' :: escape s := rfl
          have hvalue : readValue N n ('"' :: escape s) = none := by
            cases n with
            | zero => rfl
            | succ n =>
                rw [readValue, if_pos rfl, readString_open]
                rfl
          dsimp only
          rw [hskip, hvalue]
  | cons m ms ih =>
      cases n with
      | zero => rfl
      | succ n =>
          cases n with
          | zero => exact readMembers_one _
          | succ n =>
              rw [openText, readMembers_member m (endsNumber_cons rfl _), expect_self rfl]
              dsimp only
              rw [ih]
              rfl

/-- The line before the first boundary is no object. -/
theorem noMembers_openText
    (key s : List Char) (ms : List (List Char × Scalar F)) :
    NoMembers N ('{' :: openText N key s ms) := by
  refine noMembers_of_readMembers fun text' htext _ k => ?_
  obtain rfl : openText N key s ms = text' := (List.cons.inj htext).2
  exact readMembers_openText key s ms k

/-- An escape starts with a backslash; other characters are no quotes and no
controls. -/
theorem escapeChar_eq
    (c : Char) :
    (∃ t, escapeChar c = '\\' :: t) ∨ (escapeChar c = [c] ∧ c ≠ '"' ∧ 32 ≤ c.toNat) := by
  unfold escapeChar
  split_ifs with hquote hslash hb hf hn hr ht hcontrol
  · exact Or.inl ⟨_, rfl⟩
  · exact Or.inl ⟨_, rfl⟩
  · exact Or.inl ⟨_, rfl⟩
  · exact Or.inl ⟨_, rfl⟩
  · exact Or.inl ⟨_, rfl⟩
  · exact Or.inl ⟨_, rfl⟩
  · exact Or.inl ⟨_, rfl⟩
  · exact Or.inl ⟨_, rfl⟩
  · exact Or.inr ⟨rfl, hquote, by omega⟩

/-- White space before a string's text is only spaces. -/
theorem skipWs_escape
    {rest : List Char} (hrest : skipWs rest = rest)
    (s : List Char) :
    ∃ s', skipWs (escape s ++ rest) = escape s' ++ rest := by
  induction s with
  | nil => exact ⟨[], hrest⟩
  | cons c s ih =>
      have hstop : ∀ d t, escapeChar c = d :: t → isWs d = false →
          skipWs (escape (c :: s) ++ rest) = escape (c :: s) ++ rest := by
        intro d t hd hws
        rw [escape, List.flatMap_cons, hd]
        exact List.dropWhile_cons_of_neg (by simp [hws])
      rcases escapeChar_eq c with ⟨t, ht⟩ | ⟨hc, _, hprint⟩
      · exact ⟨c :: s, hstop _ _ ht rfl⟩
      · cases hws : isWs c with
        | false => exact ⟨c :: s, hstop _ _ hc hws⟩
        | true =>
            obtain ⟨s', hs'⟩ := ih
            refine ⟨s', ?_⟩
            rw [escape, List.flatMap_cons, hc, ← escape, ← hs']
            exact List.dropWhile_cons_of_pos hws

/-- An escaped string starts with no quote, and with a brace only if it is one. -/
theorem escape_cons_start
    {c d : Char} {s t : List Char}
    (h : escape (c :: s) = d :: t) :
    d ≠ '"' ∧ (d = '{' → t = escape s) := by
  rw [escape, List.flatMap_cons, ← escape] at h
  rcases escapeChar_eq c with ⟨t', ht⟩ | ⟨hc, hquote, _⟩
  · rw [ht] at h
    obtain ⟨rfl, -⟩ := List.cons.inj h
    exact ⟨by decide, fun hbrace => absurd hbrace (by decide)⟩
  · rw [hc] at h
    obtain ⟨rfl, rfl⟩ := List.cons.inj h
    exact ⟨hquote, fun _ => rfl⟩

theorem escape_ne_nil
    (c : Char) (s : List Char) :
    ∃ d t, escape (c :: s) = d :: t := by
  rw [escape, List.flatMap_cons]
  rcases escapeChar_eq c with ⟨t, ht⟩ | ⟨hc, _⟩
  · exact ⟨_, _, by rw [ht]; rfl⟩
  · exact ⟨_, _, by rw [hc]; rfl⟩

/-- What stands after the text of a string that is no last value: nothing, or the
closing quote and the start of the next key. -/
def AfterText (rest : List Char) : Prop :=
  rest = [] ∨ ∃ d more, rest = '"' :: ',' :: '"' :: d :: more ∧ isWs d = false ∧ d ≠ ':'

/-- What can stand after the text of a string so that no member is read from there: nothing, or
a quote after which no key can be read. -/
def DeadEnd (rest : List Char) : Prop :=
  rest = [] ∨ ∃ after, rest = '"' :: after ∧
    ∀ key more, readString after = some (key, more) → expect ':' more = none

theorem AfterText.deadEnd {rest : List Char} (h : AfterText rest) : DeadEnd rest := by
  rcases h with rfl | ⟨d, more, rfl, hws, hcolon⟩
  · exact Or.inl rfl
  · refine Or.inr ⟨_, rfl, fun key more' hread => ?_⟩
    have hkey : readString (',' :: '"' :: d :: more) = some ([','], d :: more) := rfl
    rw [hkey] at hread
    cases hread
    exact expect_of_ne hws hcolon more

theorem DeadEnd.skipWs_eq {rest : List Char} (h : DeadEnd rest) : skipWs rest = rest := by
  rcases h with rfl | ⟨after, rfl, _⟩ <;> rfl

/-- No members are read from inside a string: the first quote closes it, and what comes after
that would have to be a key. -/
theorem readMembers_escape
    (s : List Char) {rest : List Char} (hrest : DeadEnd rest) (n : Nat) :
    readMembers N n (escape s ++ rest) = none := by
  cases n with
  | zero => rfl
  | succ n =>
      rw [readMembers]
      obtain ⟨s', hs'⟩ := skipWs_escape hrest.skipWs_eq s
      cases s' with
      | nil =>
          rcases hrest with rfl | ⟨after, rfl, hnoKey⟩
          · have hnone : expect '"' (escape s ++ []) = none := by
              simp only [expect, hs']
              rfl
            rw [hnone]
          · have hquote : expect '"' (escape s ++ '"' :: after) = some after := by
              simp only [expect, hs']
              rfl
            rw [hquote]
            dsimp only
            cases hread : readString after with
            | none => rfl
            | some r =>
                dsimp only
                rw [hnoKey r.1 r.2 hread]
      | cons c s' =>
          obtain ⟨d, t, hd⟩ := escape_ne_nil c s'
          have hnone : expect '"' (escape s ++ rest) = none := by
            simp only [expect, hs', hd, List.cons_append]
            rw [if_neg (escape_cons_start hd).1]
          rw [hnone]

/-- A line that starts inside a string is no object. -/
theorem noMembers_escape
    (s : List Char) {rest : List Char} (hrest : DeadEnd rest) :
    NoMembers N (escape s ++ rest) := by
  refine noMembers_of_readMembers fun text' htext _ k => ?_
  obtain ⟨s', hs'⟩ := skipWs_escape hrest.skipWs_eq s
  rw [hs'] at htext
  cases s' with
  | nil => rcases hrest with rfl | ⟨after, rfl, _⟩ <;> cases htext
  | cons c s' =>
      obtain ⟨d, t, hd⟩ := escape_ne_nil c s'
      rw [hd] at htext
      obtain ⟨rfl, rfl⟩ := List.cons.inj htext
      rw [(escape_cons_start hd).2 rfl]
      exact readMembers_escape s' hrest k

end Fragments

/-! ### The lines of an object -/

section ObjectLines

variable {N : FloatText F}

/-- A key whose text holds no boundary and cannot be taken for punctuation. -/
structure PlainKey (key : List Char) : Prop where
  clean : CleanText key
  start : ∃ d more, escape key = d :: more ∧ isWs d = false ∧ d ≠ ':'

/-- Keys are plain and the last value is no broken string. -/
structure LineShape (ms : List (List Char × Scalar F)) : Prop where
  keys : ∀ m ∈ ms, PlainKey m.1
  last : ∀ m, ms.getLast? = some m → m.2.Clean

theorem LineShape.tail
    {m : List Char × Scalar F} {ms : List (List Char × Scalar F)}
    (h : LineShape (m :: ms)) :
    LineShape ms := by
  refine ⟨fun m' hm' => h.keys m' (List.mem_cons_of_mem _ hm'), fun m' hm' => h.last m' ?_⟩
  cases ms with
  | nil => cases hm'
  | cons m'' ms => rwa [List.getLast?_cons_cons]

theorem unbroken_number
    {token : List Char} (h : ∀ c ∈ token, isNumberChar c = true) :
    Unbroken token := by
  intro c hc
  have hnum := h c hc
  cases hb : isBoundary c with
  | false => rfl
  | true =>
      simp only [isBoundary, Bool.or_eq_true, beq_iff_eq] at hb
      rcases hb with (((((((((rfl | rfl) | rfl) | rfl) | rfl) | rfl) | rfl) | rfl) | rfl) | rfl) <;>
        cases hnum

theorem unbroken_writeString
    {s : List Char} (hs : CleanText s) :
    Unbroken (writeString s) := by
  rw [writeString, List.cons_append, unbroken_cons, unbroken_append]
  exact ⟨rfl, (unbroken_escape s).mpr hs, by decide⟩

theorem unbroken_writeScalar
    {v : Scalar F} (hv : v.Clean) :
    Unbroken (writeScalar N v) := by
  cases v with
  | null => exact (by decide : Unbroken ['n', 'u', 'l', 'l'])
  | bool b =>
      cases b with
      | true => exact (by decide : Unbroken ['t', 'r', 'u', 'e'])
      | false => exact (by decide : Unbroken ['f', 'a', 'l', 's', 'e'])
  | int n => exact unbroken_number (numeral_writeInt n)
  | float x => exact unbroken_number (N.numeral x)
  | str s => exact unbroken_writeString hv

/-- `,"key":`, the text before a value. -/
def keyText (key : List Char) : List Char := ',' :: (writeString key ++ [':'])

theorem unbroken_keyText
    {key : List Char} (h : CleanText key) :
    Unbroken (keyText key) := by
  rw [keyText, unbroken_cons, unbroken_append]
  exact ⟨rfl, unbroken_writeString h, by decide⟩

theorem writeTail_cons
    (m : List Char × Scalar F) (ms : List (List Char × Scalar F)) :
    writeTail N (m :: ms) = keyText m.1 ++ (writeScalar N m.2 ++ writeTail N ms) := by
  simp [writeTail, writeMember, keyText]

theorem escape_append
    (p q : List Char) :
    escape (p ++ q) = escape p ++ escape q :=
  List.flatMap_append

theorem escape_rawBoundary
    {c : Char} (hc : isRawBoundary c = true)
    (p q : List Char) :
    escape (p ++ c :: q) = escape p ++ c :: escape q := by
  rw [escape_append]
  congr 1
  rw [escape, List.flatMap_cons, escapeChar_rawBoundary hc]
  rfl

/-- Text that no continuation makes an object. -/
def Poisoned (N : FloatText F) (text : List Char) : Prop :=
  ∀ more, NoMembers N (text ++ more)

theorem Poisoned.append
    {text : List Char} (h : Poisoned N text)
    (more : List Char) :
    Poisoned N (text ++ more) := by
  intro more'
  rw [List.append_assoc]
  exact h _

/-- No line of the rest of an object is an object, from a value on. -/
def NoLineFromValue (N : FloatText F) (ms : List (List Char × Scalar F)) : Prop :=
  ∀ text v, Poisoned N text → Unbroken text → (ms = [] → v.Clean) →
    ∀ l ∈ splitLines (text ++ (writeScalar N v ++ (writeTail N ms ++ ['\n']))), NoMembers N l

/-- The same from inside a string. -/
theorem noLine_escape
    {m : List Char × Scalar F} {ms : List (List Char × Scalar F)}
    (hshape : LineShape (m :: ms))
    (hvalue : NoLineFromValue N ms)
    (s : List Char) :
    ∀ l ∈ splitLines (escape s ++ '"' :: (writeTail N (m :: ms) ++ ['\n'])), NoMembers N l := by
  induction hlen : s.length using Nat.strongRecOn generalizing s with
  | ind n ih =>
      rcases clean_or_first s with hclean | ⟨p, c, q, rfl, hp, hc⟩
      · have hkey := hshape.keys m List.mem_cons_self
        obtain ⟨d, more, hstart, hws, hcolon⟩ := hkey.start
        have htext : escape s ++ '"' :: (writeTail N (m :: ms) ++ ['\n']) =
            (escape s ++ '"' :: keyText m.1) ++
              (writeScalar N m.2 ++ (writeTail N ms ++ ['\n'])) := by
          rw [writeTail_cons]
          simp
        have hpoison : Poisoned N (escape s ++ '"' :: keyText m.1) := by
          intro more'
          have hrest : AfterText ('"' :: keyText m.1 ++ more') :=
            Or.inr ⟨d, more ++ '"' :: ':' :: more', by simp [keyText, writeString, hstart],
              hws, hcolon⟩
          simpa using noMembers_escape s hrest.deadEnd
        rw [htext]
        refine hvalue _ _ hpoison ?_ fun hnil => hshape.last m (by rw [hnil]; rfl)
        rw [unbroken_append, unbroken_cons]
        exact ⟨(unbroken_escape s).mpr hclean, rfl, unbroken_keyText hkey.clean⟩
      · obtain ⟨hbound, hreturn⟩ := isBoundary_of_raw hc
        rw [escape_rawBoundary hc, List.append_assoc, List.cons_append,
          splitLines_append_boundary ((unbroken_escape p).mpr hp) hbound hreturn]
        intro l hl
        rcases List.mem_cons.mp hl with rfl | hl
        · simpa using noMembers_escape (N := N) p (Or.inl rfl)
        · exact ih q.length (by simp only [List.length_append, List.length_cons] at hlen; omega) q
            rfl l hl

/-- The induction over the members still to be written. -/
theorem noLineFromValue
    {ms : List (List Char × Scalar F)} (hshape : LineShape ms) :
    NoLineFromValue N ms := by
  induction ms with
  | nil =>
      intro text v hpoison hun hclean l hl
      have hline : Unbroken (text ++ (writeScalar N v ++ ['}'])) := by
        rw [unbroken_append, unbroken_append]
        exact ⟨hun, unbroken_writeScalar (hclean rfl), by decide⟩
      have htext : text ++ (writeScalar N v ++ (writeTail N [] ++ ['\n'])) =
          (text ++ (writeScalar N v ++ ['}'])) ++ '\n' :: [] := by
        simp [writeTail]
      rw [htext, splitLines_append_boundary hline rfl (by decide)] at hl
      obtain rfl := List.mem_singleton.mp hl
      exact hpoison _
  | cons m ms ih =>
      intro text v hpoison hun _ l hl
      have hnext := ih hshape.tail
      have hplain : v.Clean → NoMembers N l := by
        intro hclean
        have htext : text ++ (writeScalar N v ++ (writeTail N (m :: ms) ++ ['\n'])) =
            (text ++ (writeScalar N v ++ keyText m.1)) ++
              (writeScalar N m.2 ++ (writeTail N ms ++ ['\n'])) := by
          rw [writeTail_cons]
          simp
        rw [htext] at hl
        refine hnext _ _ (hpoison.append _) ?_ (fun hnil => hshape.last m (by rw [hnil]; rfl)) l hl
        rw [unbroken_append, unbroken_append]
        exact ⟨hun, unbroken_writeScalar hclean,
          unbroken_keyText (hshape.keys m List.mem_cons_self).clean⟩
      cases v with
      | str s =>
          rcases clean_or_first s with hclean | ⟨p, c, q, rfl, hp, hc⟩
          · exact hplain hclean
          · obtain ⟨hbound, hreturn⟩ := isBoundary_of_raw hc
            have htext : text ++ (writeScalar N (.str (p ++ c :: q)) ++
                (writeTail N (m :: ms) ++ ['\n'])) =
                (text ++ '"' :: escape p) ++ c :: (escape q ++
                  '"' :: (writeTail N (m :: ms) ++ ['\n'])) := by
              simp [writeScalar, writeString, escape_rawBoundary hc]
            have hfirst : Unbroken (text ++ '"' :: escape p) := by
              rw [unbroken_append, unbroken_cons]
              exact ⟨hun, rfl, (unbroken_escape p).mpr hp⟩
            rw [htext, splitLines_append_boundary hfirst hbound hreturn] at hl
            rcases List.mem_cons.mp hl with rfl | hl
            · exact hpoison _
            · exact noLine_escape hshape hnext q l hl
      | null => exact hplain trivial
      | bool b => exact hplain trivial
      | int n => exact hplain trivial
      | float x => exact hplain trivial

theorem unbroken_writeTail
    {ms : List (List Char × Scalar F)}
    (hkeys : ∀ m ∈ ms, PlainKey m.1) (hclean : ∀ m ∈ ms, m.2.Clean) :
    Unbroken (writeTail N ms) := by
  induction ms with
  | nil => exact (by decide : Unbroken ['}'])
  | cons m ms ih =>
      obtain ⟨hkey, hkeys⟩ := List.forall_mem_cons.mp hkeys
      obtain ⟨hvalue, hclean⟩ := List.forall_mem_cons.mp hclean
      rw [writeTail_cons, unbroken_append, unbroken_append]
      exact ⟨unbroken_keyText hkey.clean, unbroken_writeScalar hvalue, ih hkeys hclean⟩

/-- An object is its tail with the first comma turned into the opening brace. -/
theorem writeObject_cons
    (m : List Char × Scalar F) (ms : List (List Char × Scalar F)) :
    writeObject N (m :: ms) = '{' :: (writeTail N (m :: ms)).tail := by
  simp [writeObject, writeTail]

/-- An object without unescaped boundaries is one line. -/
theorem lines_of_clean
    {ms : List (List Char × Scalar F)}
    (hkeys : ∀ m ∈ ms, PlainKey m.1) (hclean : ∀ m ∈ ms, m.2.Clean) :
    splitLines (writeObject N ms ++ ['\n']) = [writeObject N ms] := by
  have hun : Unbroken (writeObject N ms) := by
    cases ms with
    | nil => exact (by decide : Unbroken ['{', '}'])
    | cons m ms =>
        have htail := unbroken_writeTail (N := N) hkeys hclean
        rw [writeObject_cons, unbroken_cons]
        exact ⟨rfl, fun c hc => htail c (List.mem_of_mem_tail hc)⟩
  exact splitLines_append_boundary hun rfl (by decide) []

/-- The members before the first broken one, and the text up to its boundary. -/
theorem broken_split
    {ms : List (List Char × Scalar F)}
    (hkeys : ∀ m ∈ ms, PlainKey m.1)
    (hbroken : ¬ ∀ m ∈ ms, m.2.Clean) :
    ∃ pre key p c q post, ms = pre ++ (key, .str (p ++ c :: q)) :: post ∧
      isRawBoundary c = true ∧ Unbroken (openText N key p pre) ∧
      (writeTail N ms).tail =
        openText N key p pre ++ c :: (escape q ++ '"' :: writeTail N post) := by
  induction ms with
  | nil => exact absurd (fun _ h => nomatch h) hbroken
  | cons m ms ih =>
      obtain ⟨hkey, hkeys⟩ := List.forall_mem_cons.mp hkeys
      by_cases hm : m.2.Clean
      · have hrest : ¬ ∀ m ∈ ms, m.2.Clean := fun h =>
          hbroken (List.forall_mem_cons.mpr ⟨hm, h⟩)
        obtain ⟨pre, key, p, c, q, post, hms, hc, hun, htext⟩ := ih hkeys hrest
        refine ⟨m :: pre, key, p, c, q, post, by rw [hms]; rfl, hc, ?_, ?_⟩
        · rw [openText, writeMember, unbroken_append, unbroken_append, unbroken_cons, unbroken_cons]
          exact ⟨⟨unbroken_writeString hkey.clean, rfl, unbroken_writeScalar hm⟩, rfl, hun⟩
        · cases ms with
          | nil => exact absurd (fun _ h => nomatch h) hrest
          | cons m' ms =>
              rw [openText, List.append_assoc, List.cons_append, ← htext]
              simp [writeTail]
      · obtain ⟨key, v⟩ := m
        cases v with
        | str s =>
            rcases clean_or_first s with hclean | ⟨p, c, q, rfl, hp, hc⟩
            · exact absurd hclean hm
            · refine ⟨[], key, p, c, q, ms, rfl, hc, ?_, ?_⟩
              · rw [openText, unbroken_append, unbroken_cons, unbroken_cons]
                exact ⟨unbroken_writeString hkey.clean, rfl, rfl, (unbroken_escape p).mpr hp⟩
              · simp [writeTail, writeMember, writeScalar, writeString, openText,
                  escape_rawBoundary hc]
        | null => exact absurd trivial hm
        | bool b => exact absurd trivial hm
        | int n => exact absurd trivial hm
        | float x => exact absurd trivial hm

theorem LineShape.suffix
    {ms : List (List Char × Scalar F)}
    (pre : List (List Char × Scalar F)) (h : LineShape (pre ++ ms)) :
    LineShape ms := by
  induction pre with
  | nil => exact h
  | cons m pre ih => exact ih h.tail

/-- No line of an object with an unescaped boundary is an object with members. -/
theorem lines_of_broken
    {ms : List (List Char × Scalar F)} (hshape : LineShape ms)
    (hbroken : ¬ ∀ m ∈ ms, m.2.Clean) :
    ∀ l ∈ splitLines (writeObject N ms ++ ['\n']), NoMembers N l := by
  obtain ⟨pre, key, p, c, q, post, hms, hc, hun, htext⟩ :=
    broken_split (N := N) hshape.keys hbroken
  obtain ⟨hbound, hreturn⟩ := isBoundary_of_raw hc
  have hobject : writeObject N ms ++ ['\n'] =
      ('{' :: openText N key p pre) ++ c :: (escape q ++ '"' :: (writeTail N post ++ ['\n'])) := by
    cases ms with
    | nil => simp at hms
    | cons m ms =>
        rw [writeObject_cons, htext]
        simp
  have hsuffix : LineShape ((key, .str (p ++ c :: q)) :: post) := (hms ▸ hshape).suffix pre
  have hfirst : Unbroken ('{' :: openText N key p pre) := unbroken_cons.mpr ⟨rfl, hun⟩
  rw [hobject, splitLines_append_boundary hfirst hbound hreturn]
  intro l hl
  rcases List.mem_cons.mp hl with rfl | hl
  · exact noMembers_openText key p pre
  · cases post with
    | nil =>
        have hclean : CleanText (p ++ c :: q) := hsuffix.last _ rfl
        have hraw := hclean c (by simp)
        rw [hc] at hraw
        cases hraw
    | cons m post =>
        exact noLine_escape hsuffix.tail (noLineFromValue hsuffix.tail.tail) q l hl

/-- The lines of a file of objects are the lines of its objects. -/
theorem lines_of_objects
    (rows : List (List (List Char × Scalar F))) :
    splitLines (rows.flatMap fun ms => writeObject N ms ++ ['\n']) =
      rows.flatMap fun ms => splitLines (writeObject N ms ++ ['\n']) := by
  induction rows with
  | nil => rfl
  | cons ms rows ih =>
      rw [List.flatMap_cons, List.flatMap_cons, ← ih, List.append_assoc]
      exact splitLines_append_newline _ _

end ObjectLines

end JsonText
end DiploidAgent
