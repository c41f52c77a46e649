import Mathlib.Data.List.Basic
import Mathlib.Tactic.Common

/-!
# JSON text

A reader of JSON text and a writer of flat objects in compact form, and that the
reader gives back what the writer wrote (`loads_writeObject`).  Strings are
written with the short escapes, `\u00XX` for the other control characters, and
every other character as it is.  How floats are written and read is a parameter
with its laws.
-/

namespace DiploidAgent
namespace JsonText

universe u

/-- The JSON values without members. -/
inductive Scalar (F : Type u) where
  | null
  | bool (b : Bool)
  | int (n : Int)
  | float (x : F)
  | str (s : List Char)

inductive Value (F : Type u) where
  | scalar (v : Scalar F)
  | arr (items : List (Value F))
  | obj (members : List (List Char × Value F))

/-! ### Characters -/

/-- JSON white space. -/
def isWs (c : Char) : Bool :=
  c == ' ' || c == '\t' || c == '\n' || c == '\r'

/-- The characters of a number. -/
def isNumberChar (c : Char) : Bool :=
  c.isDigit || c == '-' || c == '+' || c == '.' || c == 'e' || c == 'E'

/-- The value of a hexadecimal digit. -/
def hexValue (c : Char) : Option Nat :=
  if '0' ≤ c ∧ c ≤ '9' then some (c.toNat - 48)
  else if 'a' ≤ c ∧ c ≤ 'f' then some (c.toNat - 87)
  else if 'A' ≤ c ∧ c ≤ 'F' then some (c.toNat - 55)
  else none

/-- The value of four hexadecimal digits. -/
def hex4 (a b c d : Char) : Option Nat := do
  let a ← hexValue a
  let b ← hexValue b
  let c ← hexValue c
  let d ← hexValue d
  some (4096 * a + 256 * b + 16 * c + d)

/-- The character after a backslash. -/
def shortEscape (c : Char) : Option Char :=
  if c = '"' then some '"'
  else if c = '\\' then some '\\'
  else if c = '/' then some '/'
  else if c = 'b' then some '\x08'
  else if c = 'f' then some '\x0c'
  else if c = 'n' then some '\n'
  else if c = 'r' then some '\r'
  else if c = 't' then some '\t'
  else none

/-- A character inside a string literal. -/
def escapeChar (c : Char) : List Char :=
  if c = '"' then ['\\', '"']
  else if c = '\\' then ['\\', '\\']
  else if c = '\x08' then ['\\', 'b']
  else if c = '\x0c' then ['\\', 'f']
  else if c = '\n' then ['\\', 'n']
  else if c = '\r' then ['\\', 'r']
  else if c = '\t' then ['\\', 't']
  else if c.toNat < 32 then
    ['\\', 'u', '0', '0', Nat.digitChar (c.toNat / 16), Nat.digitChar (c.toNat % 16)]
  else [c]

/-- The inside of a string literal. -/
def escape (s : List Char) : List Char := s.flatMap escapeChar

/-! ### Numbers -/

/-- A decimal without leading zeros. -/
def readNat (ds : List Char) : Option Nat :=
  if ds ≠ [] ∧ ds.all Char.isDigit = true ∧ (ds.head? = some '0' → ds = ['0']) then
    some (Nat.ofDigitChars 10 ds 0)
  else none

/-- An integer literal. -/
def readInt : List Char → Option Int
  | '-' :: ds => (readNat ds).map fun n : Nat => -(n : Int)
  | ds => (readNat ds).map Int.ofNat

def writeInt (n : Int) : List Char :=
  if n < 0 then '-' :: Nat.toDigits 10 n.natAbs else Nat.toDigits 10 n.natAbs

/-- How floats are written and read: what is written is read back, and is a
number but no integer literal. -/
structure FloatText (F : Type u) where
  write : F → List Char
  read : List Char → Option F
  read_write : ∀ x, read (write x) = some x
  write_ne_nil : ∀ x, write x ≠ []
  numeral : ∀ x, ∀ c ∈ write x, isNumberChar c = true
  not_int : ∀ x, readInt (write x) = none

variable {F : Type u}

/-- The number of a token. -/
def readNumber (N : FloatText F) (token : List Char) : Option (Scalar F) :=
  match readInt token with
  | some n => some (.int n)
  | none => (N.read token).map .float

/-! ### The reader -/

def skipWs (text : List Char) : List Char := text.dropWhile isWs

/-- The rest of a string literal and what follows it.  An escaped surrogate pair is
one character; an escaped lone surrogate is no `Char` and is refused. -/
def readString : List Char → Option (List Char × List Char)
  | [] => none
  | '"' :: rest => some ([], rest)
  | '\\' :: 'u' :: a :: b :: c :: d :: rest =>
      match hex4 a b c d with
      | none => none
      | some n =>
          if 0xd800 ≤ n ∧ n < 0xe000 then
            match rest with
            | '\\' :: 'u' :: a' :: b' :: c' :: d' :: rest' =>
                match hex4 a' b' c' d' with
                | none => none
                | some m =>
                    if n < 0xdc00 ∧ 0xdc00 ≤ m ∧ m < 0xe000 then
                      (readString rest').map fun r =>
                        (Char.ofNat (0x10000 + (n - 0xd800) * 1024 + (m - 0xdc00)) :: r.1, r.2)
                    else none
            | _ => none
          else (readString rest).map fun r => (Char.ofNat n :: r.1, r.2)
  | '\\' :: c :: rest =>
      match shortEscape c with
      | none => none
      | some c => (readString rest).map fun r => (c :: r.1, r.2)
  | c :: rest =>
      if c.toNat < 32 then none else (readString rest).map fun r => (c :: r.1, r.2)

/-- What follows the character `c`, if that comes next after white space. -/
def expect (c : Char) (text : List Char) : Option (List Char) :=
  match skipWs text with
  | [] => none
  | d :: rest => if d = c then some rest else none

/-- The rest of a text that starts with a literal. -/
def readLiteral (literal text : List Char) : Option (List Char) :=
  if literal.isPrefixOf text then some (text.drop literal.length) else none

mutual

/-- The value at the start of a text, and what follows it. -/
def readValue (N : FloatText F) : Nat → List Char → Option (Value F × List Char)
  | 0, _ => none
  | _ + 1, [] => none
  | n + 1, c :: rest =>
      if c = '"' then (readString rest).map fun r => (.scalar (.str r.1), r.2)
      else if c = '{' then
        match expect '}' rest with
        | some rest => some (.obj [], rest)
        | none => (readMembers N n rest).map fun r => (.obj r.1, r.2)
      else if c = '[' then
        match expect ']' rest with
        | some rest => some (.arr [], rest)
        | none => (readItems N n rest).map fun r => (.arr r.1, r.2)
      else if c = 'n' then
        (readLiteral ['n', 'u', 'l', 'l'] (c :: rest)).map fun r => (.scalar .null, r)
      else if c = 't' then
        (readLiteral ['t', 'r', 'u', 'e'] (c :: rest)).map fun r => (.scalar (.bool true), r)
      else if c = 'f' then
        (readLiteral ['f', 'a', 'l', 's', 'e'] (c :: rest)).map fun r =>
          (.scalar (.bool false), r)
      else
        (readNumber N ((c :: rest).takeWhile isNumberChar)).map fun v =>
          (.scalar v, (c :: rest).dropWhile isNumberChar)

/-- The members of an object up to its closing brace. -/
def readMembers (N : FloatText F) :
    Nat → List Char → Option (List (List Char × Value F) × List Char)
  | 0, _ => none
  | n + 1, text =>
      match expect '"' text with
      | none => none
      | some rest =>
          match readString rest with
          | none => none
          | some (key, rest) =>
              match expect ':' rest with
              | none => none
              | some rest =>
                  match readValue N n (skipWs rest) with
                  | none => none
                  | some (value, rest) =>
                      match expect ',' rest with
                      | some rest =>
                          (readMembers N n rest).map fun r => ((key, value) :: r.1, r.2)
                      | none => (expect '}' rest).map fun rest => ([(key, value)], rest)

/-- The items of an array up to its closing bracket. -/
def readItems (N : FloatText F) : Nat → List Char → Option (List (Value F) × List Char)
  | 0, _ => none
  | n + 1, text =>
      match readValue N n (skipWs text) with
      | none => none
      | some (value, rest) =>
          match expect ',' rest with
          | some rest => (readItems N n rest).map fun r => (value :: r.1, r.2)
          | none => (expect ']' rest).map fun rest => ([value], rest)

end

/-- `json.loads`.  Every nested call reads at least one character, so the length of
the text is enough fuel. -/
def loads (N : FloatText F) (text : List Char) : Option (Value F) :=
  match readValue N (text.length + 1) (skipWs text) with
  | none => none
  | some (value, rest) => if skipWs rest = [] then some value else none

/-! ### The writer -/

def writeString (s : List Char) : List Char := '"' :: escape s ++ ['"']

def writeScalar (N : FloatText F) : Scalar F → List Char
  | .null => ['n', 'u', 'l', 'l']
  | .bool true => ['t', 'r', 'u', 'e']
  | .bool false => ['f', 'a', 'l', 's', 'e']
  | .int n => writeInt n
  | .float x => N.write x
  | .str s => writeString s

def writeMember (N : FloatText F) (m : List Char × Scalar F) : List Char :=
  writeString m.1 ++ ':' :: writeScalar N m.2

/-- The members after the first, and the closing brace. -/
def writeTail (N : FloatText F) : List (List Char × Scalar F) → List Char
  | [] => ['}']
  | m :: ms => ',' :: (writeMember N m ++ writeTail N ms)

/-- A flat object in compact form. -/
def writeObject (N : FloatText F) : List (List Char × Scalar F) → List Char
  | [] => ['{', '}']
  | m :: ms => '{' :: (writeMember N m ++ writeTail N ms)

/-! ### Reading back -/

section Strings

theorem hexValue_digitChar :
    ∀ n < 16, hexValue (Nat.digitChar n) = some n := by
  decide

/-- A control character is read back from its two digits. -/
theorem hex4_control
    {n : Nat} (hn : n < 32) :
    hex4 '0' '0' (Nat.digitChar (n / 16)) (Nat.digitChar (n % 16)) = some n := by
  have hzero : hexValue '0' = some 0 := by decide
  have hhigh := hexValue_digitChar (n / 16) (by omega)
  have hlow := hexValue_digitChar (n % 16) (by omega)
  simp only [hex4, hzero, hhigh, hlow, Option.bind_eq_bind, Option.bind_some]
  congr 1
  omega

theorem readString_plain
    {c : Char} (hquote : c ≠ '"') (hslash : c ≠ '\\') (hcontrol : ¬ c.toNat < 32)
    (rest : List Char) :
    readString (c :: rest) = (readString rest).map fun r => (c :: r.1, r.2) := by
  rw [readString.eq_def]
  split
  · rename_i h
    cases h
  · rename_i h
    exact absurd (List.cons.inj h).1 hquote
  · rename_i h
    exact absurd (List.cons.inj h).1 hslash
  · rename_i h
    exact absurd (List.cons.inj h).1 hslash
  · rename_i h
    obtain ⟨rfl, rfl⟩ := List.cons.inj h
    rw [if_neg hcontrol]

/-- An escaped character is read back. -/
theorem readString_escapeChar
    (c : Char) (rest : List Char) :
    readString (escapeChar c ++ rest) = (readString rest).map fun r => (c :: r.1, r.2) := by
  unfold escapeChar
  split_ifs with hquote hslash hb hf hn hr ht hcontrol
  · subst hquote
    rfl
  · subst hslash
    rfl
  · subst hb
    rfl
  · subst hf
    rfl
  · subst hn
    rfl
  · subst hr
    rfl
  · subst ht
    rfl
  · simp only [List.cons_append, List.nil_append]
    rw [readString.eq_def]
    simp only [hex4_control hcontrol]
    rw [if_neg (by omega), Char.ofNat_toNat]
  · exact readString_plain hquote hslash hcontrol rest

theorem readString_escape
    (s rest : List Char) :
    readString (escape s ++ '"' :: rest) = some (s, rest) := by
  induction s with
  | nil => rfl
  | cons c s ih =>
      rw [escape, List.flatMap_cons, List.append_assoc, readString_escapeChar]
      rw [← escape, ih]
      rfl

/-- A string literal without its closing quote is not read. -/
theorem readString_open
    (s : List Char) :
    readString (escape s) = none := by
  induction s with
  | nil => rfl
  | cons c s ih =>
      rw [escape, List.flatMap_cons, readString_escapeChar, ← escape, ih]
      rfl

end Strings

section Numbers

theorem head_toDigits
    (n : Nat) :
    (Nat.toDigits 10 n).head? = some '0' → n = 0 := by
  induction n using Nat.strongRecOn with
  | ind n ih =>
      intro hhead
      by_cases hlt : n < 10
      · rw [Nat.toDigits_of_lt_base hlt] at hhead
        have hdigit : ∀ m < 10, Nat.digitChar m = '0' → m = 0 := by decide
        exact hdigit n hlt (Option.some.inj hhead)
      · rw [Nat.toDigits_of_base_le (by omega) (by omega)] at hhead
        have hne : Nat.toDigits 10 (n / 10) ≠ [] := Nat.toDigits_ne_nil
        rw [List.head?_append_of_ne_nil _ hne] at hhead
        have := ih (n / 10) (by omega) hhead
        omega

theorem readNat_toDigits
    (n : Nat) :
    readNat (Nat.toDigits 10 n) = some n := by
  unfold readNat
  rw [if_pos, Nat.ofDigitChars_ten_toDigits]
  refine ⟨Nat.toDigits_ne_nil, ?_, fun hhead => ?_⟩
  · rw [List.all_eq_true]
    intro c hc
    exact Nat.isDigit_of_mem_toDigits (by omega) (by omega) hc
  · rw [head_toDigits n hhead]
    rfl

theorem readInt_writeInt
    (n : Int) :
    readInt (writeInt n) = some n := by
  unfold writeInt
  split_ifs with hneg
  · simp only [readInt, readNat_toDigits, Option.map_some]
    congr 1
    omega
  · have hpos : readInt (Nat.toDigits 10 n.natAbs) =
        (readNat (Nat.toDigits 10 n.natAbs)).map Int.ofNat := by
      cases hd : Nat.toDigits 10 n.natAbs with
      | nil => rfl
      | cons c ds =>
          have hdigit : c.isDigit = true :=
            Nat.isDigit_of_mem_toDigits (b := 10) (n := n.natAbs) (by omega) (by omega)
              (by rw [hd]; exact List.mem_cons_self)
          unfold readInt
          split
          · rename_i h
            rw [(List.cons.inj h).1] at hdigit
            cases hdigit
          · rfl
    rw [hpos, readNat_toDigits, Option.map_some, Int.ofNat_eq_natCast]
    congr 1
    omega

theorem numeral_writeInt
    (n : Int) :
    ∀ c ∈ writeInt n, isNumberChar c = true := by
  have hdigits : ∀ c ∈ Nat.toDigits 10 n.natAbs, isNumberChar c = true := by
    intro c hc
    have hdigit : c.isDigit = true := Nat.isDigit_of_mem_toDigits (by omega) (by omega) hc
    simp [isNumberChar, hdigit]
  unfold writeInt
  split_ifs
  · intro c hc
    rcases List.mem_cons.mp hc with rfl | hc
    · rfl
    · exact hdigits c hc
  · exact hdigits

theorem writeInt_ne_nil
    (n : Int) :
    writeInt n ≠ [] := by
  unfold writeInt
  split_ifs
  · exact List.cons_ne_nil _ _
  · exact Nat.toDigits_ne_nil

end Numbers

section Values

variable {N : FloatText F}

/-- A number ends where the text `rest` starts. -/
def EndsNumber (rest : List Char) : Prop :=
  ∀ c ∈ rest.head?, isNumberChar c = false

theorem takeWhile_token
    {token rest : List Char}
    (htoken : ∀ c ∈ token, isNumberChar c = true) (hrest : EndsNumber rest) :
    (token ++ rest).takeWhile isNumberChar = token ∧
      (token ++ rest).dropWhile isNumberChar = rest := by
  have hstop : rest.takeWhile isNumberChar = [] ∧ rest.dropWhile isNumberChar = rest := by
    cases rest with
    | nil => exact ⟨rfl, rfl⟩
    | cons c rest =>
        have hc := hrest c rfl
        exact ⟨List.takeWhile_cons_of_neg (by simp [hc]),
          List.dropWhile_cons_of_neg (by simp [hc])⟩
  rw [List.takeWhile_append_of_pos htoken, List.dropWhile_append_of_pos htoken, hstop.1, hstop.2,
    List.append_nil]
  exact ⟨rfl, rfl⟩

theorem readValue_number
    {token rest : List Char} {v : Scalar F}
    (hne : token ≠ []) (htoken : ∀ c ∈ token, isNumberChar c = true)
    (hread : readNumber N token = some v) (hrest : EndsNumber rest)
    (n : Nat) :
    readValue N (n + 1) (token ++ rest) = some (.scalar v, rest) := by
  obtain ⟨htake, hdrop⟩ := takeWhile_token htoken hrest
  cases token with
  | nil => exact absurd rfl hne
  | cons c token =>
      have hc : isNumberChar c = true := htoken c List.mem_cons_self
      have hother : ∀ d, isNumberChar d = false → c ≠ d := by
        rintro d hd rfl
        rw [hc] at hd
        cases hd
      rw [List.cons_append] at htake hdrop ⊢
      rw [readValue, if_neg (hother _ rfl), if_neg (hother _ rfl), if_neg (hother _ rfl),
        if_neg (hother _ rfl), if_neg (hother _ rfl), if_neg (hother _ rfl), htake, hdrop, hread]
      rfl

theorem readNumber_writeInt
    (n : Int) :
    readNumber N (writeInt n) = some (.int n) := by
  simp [readNumber, readInt_writeInt]

theorem readNumber_write
    (x : F) :
    readNumber N (N.write x) = some (.float x) := by
  simp [readNumber, N.not_int, N.read_write]

/-- A scalar is read back. -/
theorem readValue_writeScalar
    (v : Scalar F) {rest : List Char} (hrest : EndsNumber rest)
    (n : Nat) :
    readValue N (n + 1) (writeScalar N v ++ rest) = some (.scalar v, rest) := by
  cases v with
  | null => rfl
  | bool b => cases b <;> rfl
  | int i =>
      exact readValue_number (writeInt_ne_nil i) (numeral_writeInt i) (readNumber_writeInt i)
        hrest n
  | float x =>
      exact readValue_number (N.write_ne_nil x) (N.numeral x) (readNumber_write x) hrest n
  | str s =>
      have htext : writeScalar N (.str s) ++ rest = '"' :: (escape s ++ '"' :: rest) := by
        simp [writeScalar, writeString]
      rw [htext, readValue, if_pos rfl, readString_escape]
      rfl

/-- A scalar does not start with white space. -/
theorem skipWs_writeScalar
    (v : Scalar F) (rest : List Char) :
    skipWs (writeScalar N v ++ rest) = writeScalar N v ++ rest := by
  have hnumber : ∀ token : List Char, token ≠ [] → (∀ c ∈ token, isNumberChar c = true) →
      skipWs (token ++ rest) = token ++ rest := by
    intro token hne htoken
    cases token with
    | nil => exact absurd rfl hne
    | cons c token =>
        have hc : isWs c = false := by
          have hnum := htoken c List.mem_cons_self
          cases hws : isWs c with
          | false => rfl
          | true =>
              simp only [isWs, Bool.or_eq_true, beq_iff_eq] at hws
              rcases hws with ((rfl | rfl) | rfl) | rfl <;> cases hnum
        exact List.dropWhile_cons_of_neg (by simp [hc])
  cases v with
  | null => rfl
  | bool b => cases b <;> rfl
  | int i => exact hnumber _ (writeInt_ne_nil i) (numeral_writeInt i)
  | float x => exact hnumber _ (N.write_ne_nil x) (N.numeral x)
  | str s => rfl

end Values

section Members

variable {N : FloatText F}

theorem expect_self
    {c : Char} (hc : isWs c = false) (rest : List Char) :
    expect c (c :: rest) = some rest := by
  have hskip : skipWs (c :: rest) = c :: rest := List.dropWhile_cons_of_neg (by simp [hc])
  simp [expect, hskip]

theorem expect_of_ne
    {c d : Char} (hd : isWs d = false) (hne : d ≠ c) (rest : List Char) :
    expect c (d :: rest) = none := by
  have hskip : skipWs (d :: rest) = d :: rest := List.dropWhile_cons_of_neg (by simp [hd])
  simp [expect, hskip, hne]

/-- One member is read up to its value. -/
theorem readMembers_member
    (m : List Char × Scalar F) {rest : List Char} (hrest : EndsNumber rest)
    (n : Nat) :
    readMembers N (n + 2) (writeMember N m ++ rest) =
      match expect ',' rest with
      | some rest =>
          (readMembers N (n + 1) rest).map fun r => ((m.1, .scalar m.2) :: r.1, r.2)
      | none => (expect '}' rest).map fun rest => ([(m.1, .scalar m.2)], rest) := by
  have htext : writeMember N m ++ rest =
      '"' :: (escape m.1 ++ '"' :: (':' :: (writeScalar N m.2 ++ rest))) := by
    simp [writeMember, writeString]
  rw [htext, readMembers, expect_self rfl]
  dsimp only
  rw [readString_escape]
  dsimp only
  rw [expect_self rfl]
  dsimp only
  rw [skipWs_writeScalar, readValue_writeScalar m.2 hrest]

theorem endsNumber_cons
    {c : Char} (hc : isNumberChar c = false) (rest : List Char) :
    EndsNumber (c :: rest) := by
  intro d hd
  obtain rfl := Option.some.inj hd
  exact hc

/-- The members of a flat object are read back. -/
theorem readMembers_writeTail
    (m : List Char × Scalar F) (ms : List (List Char × Scalar F)) (rest : List Char)
    {n : Nat} (hn : ms.length + 2 ≤ n) :
    readMembers N n (writeMember N m ++ (writeTail N ms ++ rest)) =
      some ((m :: ms).map fun e => (e.1, .scalar e.2), rest) := by
  induction ms generalizing m n with
  | nil =>
      obtain ⟨k, rfl⟩ : ∃ k, n = k + 2 := ⟨n - 2, by simp at hn; omega⟩
      have htail : writeTail N [] ++ rest = '}' :: rest := rfl
      rw [htail, readMembers_member m (endsNumber_cons rfl rest),
        expect_of_ne rfl (by decide), expect_self rfl]
      rfl
  | cons m' ms ih =>
      obtain ⟨k, rfl⟩ : ∃ k, n = k + 2 := ⟨n - 2, by simp at hn; omega⟩
      have htail : writeTail N (m' :: ms) ++ rest =
          ',' :: (writeMember N m' ++ (writeTail N ms ++ rest)) := by
        simp [writeTail]
      rw [htail, readMembers_member m (endsNumber_cons rfl _), expect_self rfl]
      dsimp only
      rw [ih m' (by simp at hn ⊢; omega)]
      rfl

end Members

theorem length_writeTail
    (N : FloatText F) (ms : List (List Char × Scalar F)) :
    ms.length < (writeTail N ms).length := by
  induction ms with
  | nil => exact Nat.zero_lt_one
  | cons m ms ih =>
      simp only [writeTail, List.length_cons, List.length_append]
      omega

/-- What the writer wrote is read back. -/
theorem loads_writeObject
    (N : FloatText F) (ms : List (List Char × Scalar F)) :
    loads N (writeObject N ms) = some (.obj (ms.map fun e => (e.1, .scalar e.2))) := by
  cases ms with
  | nil => rfl
  | cons m ms =>
      have hfuel : ms.length + 2 ≤ (writeObject N (m :: ms)).length := by
        have htail := length_writeTail N ms
        simp only [writeObject, List.length_cons, List.length_append]
        omega
      have hread := readMembers_writeTail (N := N) m ms [] hfuel
      have hbrace : expect '}' (writeMember N m ++ writeTail N ms) = none := by
        simpa [writeMember, writeString] using expect_of_ne (d := '"') rfl (by decide) _
      have hskip : skipWs (writeObject N (m :: ms)) =
          '{' :: (writeMember N m ++ writeTail N ms) := rfl
      rw [List.append_nil] at hread
      unfold loads
      rw [hskip, readValue, if_neg (by decide), if_pos rfl, hbrace]
      dsimp only
      rw [hread]
      rfl

end JsonText
end DiploidAgent
