import DiploidAgent.Lib.JsonLines

/-!
# Writing nested JSON

`json.dumps` of any value in its default form, with and without `ensure_ascii`, and
that the reader gives back what it wrote (`loads_dumps`).  With `ensure_ascii`, or
where no string holds U+0085, U+2028 or U+2029, the text is one line
(`unbroken_dumps`), and a file of such texts, one a line, is cut into exactly these
texts (`splitLines_dumps`).
-/

namespace DiploidAgent
namespace JsonText

open Lines

universe u

variable {F : Type u}

/-! ### The writer -/

/-- The escape of a code unit. -/
def unicodeEscape (n : Nat) : List Char :=
  ['\\', 'u', Nat.digitChar (n / 4096 % 16), Nat.digitChar (n / 256 % 16),
    Nat.digitChar (n / 16 % 16), Nat.digitChar (n % 16)]

/-- A character of a string with `ensure_ascii`. -/
def asciiChar (c : Char) : List Char :=
  if c.toNat < 127 then escapeChar c
  else if c.toNat < 0x10000 then unicodeEscape c.toNat
  else
    unicodeEscape (0xd800 + (c.toNat - 0x10000) / 1024) ++
      unicodeEscape (0xdc00 + (c.toNat - 0x10000) % 1024)

def dumpsChar (ascii : Bool) (c : Char) : List Char :=
  if ascii then asciiChar c else escapeChar c

def dumpsString (ascii : Bool) (s : List Char) : List Char :=
  '"' :: (s.flatMap (dumpsChar ascii) ++ ['"'])

def dumpsScalar (ascii : Bool) (N : FloatText F) : Scalar F → List Char
  | .str s => dumpsString ascii s
  | v => writeScalar N v

mutual

/-- `json.dumps`. -/
def dumps (ascii : Bool) (N : FloatText F) : Value F → List Char
  | .scalar v => dumpsScalar ascii N v
  | .arr [] => ['[', ']']
  | .arr (v :: vs) => '[' :: (dumps ascii N v ++ dumpsItems ascii N vs)
  | .obj [] => ['{', '}']
  | .obj ((k, v) :: ms) =>
      '{' :: (dumpsString ascii k ++ ':' :: ' ' :: (dumps ascii N v ++ dumpsMembers ascii N ms))

/-- The items after the first, and the closing bracket. -/
def dumpsItems (ascii : Bool) (N : FloatText F) : List (Value F) → List Char
  | [] => [']']
  | v :: vs => ',' :: ' ' :: (dumps ascii N v ++ dumpsItems ascii N vs)

/-- The members after the first, and the closing brace. -/
def dumpsMembers (ascii : Bool) (N : FloatText F) : List (List Char × Value F) → List Char
  | [] => ['}']
  | (k, v) :: ms =>
      ',' :: ' ' :: (dumpsString ascii k ++ ':' :: ' ' ::
        (dumps ascii N v ++ dumpsMembers ascii N ms))

end

/-! ### The parts of a value -/

/-- The value under a key of an object; the last one counts. -/
def member (ms : List (List Char × Value F)) (key : String) : Option (Value F) :=
  (ms.reverse.find? fun m => m.1 == key.toList).map Prod.snd

def Value.text (s : String) : Value F := .scalar (.str s.toList)

def Value.text? : Value F → Option String
  | .scalar (.str s) => some (String.ofList s)
  | _ => none

def Value.bool? : Value F → Option Bool
  | .scalar (.bool b) => some b
  | _ => none

def Value.texts? : Value F → Option (List String)
  | .arr items => items.mapM Value.text?
  | _ => none

@[simp] theorem text?_text
    (s : String) :
    (Value.text s : Value F).text? = some s := by
  simp [Value.text, Value.text?]

@[simp] theorem texts?_map_text
    (ss : List String) :
    (Value.arr (ss.map Value.text) : Value F).texts? = some ss := by
  rw [Value.texts?]
  induction ss with
  | nil => rfl
  | cons s ss ih => simp [ih]

/-- Text without floats. -/
def noFloats : FloatText Empty where
  write x := x.elim
  read _ := none
  read_write x := x.elim
  write_ne_nil x := x.elim
  numeral x := x.elim
  not_int x := x.elim

/-! ### Reading back -/

section Strings

theorem hex4_unicode
    {n : Nat} (hn : n < 0x10000) :
    hex4 (Nat.digitChar (n / 4096 % 16)) (Nat.digitChar (n / 256 % 16))
      (Nat.digitChar (n / 16 % 16)) (Nat.digitChar (n % 16)) = some n := by
  have h₃ := hexValue_digitChar (n / 4096 % 16) (by omega)
  have h₂ := hexValue_digitChar (n / 256 % 16) (by omega)
  have h₁ := hexValue_digitChar (n / 16 % 16) (by omega)
  have h₀ := hexValue_digitChar (n % 16) (by omega)
  simp only [hex4, h₃, h₂, h₁, h₀, Option.bind_eq_bind, Option.bind_some]
  congr 1
  omega

theorem readString_unicode
    {n : Nat} (hn : n < 0x10000) (hplain : n < 0xd800 ∨ 0xe000 ≤ n)
    (rest : List Char) :
    readString (unicodeEscape n ++ rest) =
      (readString rest).map fun r => (Char.ofNat n :: r.1, r.2) := by
  rw [unicodeEscape]
  simp only [List.cons_append, List.nil_append]
  rw [readString.eq_def]
  simp only [hex4_unicode hn]
  rw [if_neg (by omega)]

theorem readString_surrogates
    {n m : Nat} (hn : 0xd800 ≤ n) (hn' : n < 0xdc00) (hm : 0xdc00 ≤ m) (hm' : m < 0xe000)
    (rest : List Char) :
    readString (unicodeEscape n ++ (unicodeEscape m ++ rest)) =
      (readString rest).map fun r =>
        (Char.ofNat (0x10000 + (n - 0xd800) * 1024 + (m - 0xdc00)) :: r.1, r.2) := by
  rw [unicodeEscape, unicodeEscape]
  simp only [List.cons_append, List.nil_append]
  rw [readString.eq_def]
  simp only [hex4_unicode (show n < 0x10000 by omega), hex4_unicode (show m < 0x10000 by omega)]
  rw [if_pos (by omega), if_pos (by omega)]

theorem toNat_valid
    (c : Char) :
    c.toNat < 0xd800 ∨ (0xe000 ≤ c.toNat ∧ c.toNat < 0x110000) := by
  rcases c.valid with h | ⟨h, h'⟩
  · exact Or.inl h
  · refine Or.inr ⟨?_, h'⟩
    have hval : c.toNat = c.val.toNat := rfl
    omega

theorem readString_dumpsChar
    (ascii : Bool) (c : Char) (rest : List Char) :
    readString (dumpsChar ascii c ++ rest) =
      (readString rest).map fun r => (c :: r.1, r.2) := by
  have hvalid := toNat_valid c
  unfold dumpsChar asciiChar
  split_ifs with hascii hlow hplane
  · exact readString_escapeChar c rest
  · rw [readString_unicode hplane (by omega), Char.ofNat_toNat]
  · have hcode : 0x10000 + (0xd800 + (c.toNat - 0x10000) / 1024 - 0xd800) * 1024 +
        (0xdc00 + (c.toNat - 0x10000) % 1024 - 0xdc00) = c.toNat := by
      omega
    rw [List.append_assoc,
      readString_surrogates (by omega) (by omega) (by omega) (by omega), hcode, Char.ofNat_toNat]
  · exact readString_escapeChar c rest

theorem readString_dumpsString
    (ascii : Bool) (s rest : List Char) :
    readString (s.flatMap (dumpsChar ascii) ++ '"' :: rest) = some (s, rest) := by
  induction s with
  | nil => rfl
  | cons c s ih =>
      rw [List.flatMap_cons, List.append_assoc, readString_dumpsChar, ih]
      rfl

end Strings

section Values

variable {N : FloatText F}

theorem readValue_dumpsScalar
    (ascii : Bool) (v : Scalar F) {rest : List Char} (hrest : EndsNumber rest)
    (n : Nat) :
    readValue N (n + 1) (dumpsScalar ascii N v ++ rest) = some (.scalar v, rest) := by
  cases v with
  | str s =>
      have htext : dumpsScalar ascii N (.str s) ++ rest =
          '"' :: (s.flatMap (dumpsChar ascii) ++ '"' :: rest) := by
        simp [dumpsScalar, dumpsString]
      rw [htext, readValue, if_pos rfl, readString_dumpsString]
      rfl
  | null => exact readValue_writeScalar .null hrest n
  | bool b => exact readValue_writeScalar (.bool b) hrest n
  | int i => exact readValue_writeScalar (.int i) hrest n
  | float x => exact readValue_writeScalar (.float x) hrest n

/-- A value starts with no white space and is no closing bracket or brace. -/
theorem dumps_start
    (ascii : Bool) (v : Value F) :
    ∃ c t, dumps ascii N v = c :: t ∧ isWs c = false ∧ c ≠ ']' ∧ c ≠ '}' := by
  have hnumber : ∀ token : List Char, token ≠ [] → (∀ c ∈ token, isNumberChar c = true) →
      ∃ c t, token = c :: t ∧ isWs c = false ∧ c ≠ ']' ∧ c ≠ '}' := by
    intro token hne htoken
    cases token with
    | nil => exact absurd rfl hne
    | cons c token =>
        have hnum := htoken c List.mem_cons_self
        have hother : ∀ d, isNumberChar d = false → c ≠ d := by
          rintro d hd rfl
          rw [hnum] at hd
          cases hd
        refine ⟨c, token, rfl, ?_, hother ']' (by decide), hother '}' (by decide)⟩
        simp [isWs, hother ' ' (by decide), hother '\t' (by decide), hother '\n' (by decide),
          hother '\r' (by decide)]
  cases v with
  | scalar v =>
      cases v with
      | null => exact ⟨_, _, rfl, by decide, by decide, by decide⟩
      | bool b => cases b <;> exact ⟨_, _, rfl, by decide, by decide, by decide⟩
      | int i => exact hnumber _ (writeInt_ne_nil i) (numeral_writeInt i)
      | float x => exact hnumber _ (N.write_ne_nil x) (N.numeral x)
      | str s => exact ⟨_, _, rfl, by decide, by decide, by decide⟩
  | arr items =>
      cases items with
      | nil => exact ⟨_, _, rfl, by decide, by decide, by decide⟩
      | cons v vs => exact ⟨_, _, by rw [dumps], by decide, by decide, by decide⟩
  | obj members =>
      cases members with
      | nil => exact ⟨_, _, rfl, by decide, by decide, by decide⟩
      | cons m ms => exact ⟨_, _, by rw [dumps], by decide, by decide, by decide⟩

theorem skipWs_dumps
    (ascii : Bool) (v : Value F) (rest : List Char) :
    skipWs (dumps ascii N v ++ rest) = dumps ascii N v ++ rest ∧
      skipWs (' ' :: (dumps ascii N v ++ rest)) = dumps ascii N v ++ rest := by
  obtain ⟨c, t, hstart, hws, _, _⟩ := dumps_start (N := N) ascii v
  have hskip : skipWs (dumps ascii N v ++ rest) = dumps ascii N v ++ rest := by
    rw [hstart, List.cons_append]
    exact List.dropWhile_cons_of_neg (by simp [hws])
  have hspace : isWs ' ' = true := rfl
  exact ⟨hskip, (List.dropWhile_cons_of_pos hspace).trans hskip⟩

theorem endsNumber_dumpsItems
    (ascii : Bool) (vs : List (Value F)) (rest : List Char) :
    EndsNumber (dumpsItems ascii N vs ++ rest) := by
  cases vs <;> exact endsNumber_cons rfl _

theorem endsNumber_dumpsMembers
    (ascii : Bool) (ms : List (List Char × Value F)) (rest : List Char) :
    EndsNumber (dumpsMembers ascii N ms ++ rest) := by
  cases ms <;> exact endsNumber_cons rfl _

/-- What `readItems` makes of the text after an item. -/
def moreItems (N : FloatText F) (n : Nat) (text : List Char) :
    Option (List (Value F) × List Char) :=
  match expect ',' text with
  | some rest => readItems N n rest
  | none => (expect ']' text).map fun rest => ([], rest)

/-- What `readMembers` makes of the text after a member. -/
def moreMembers (N : FloatText F) (n : Nat) (text : List Char) :
    Option (List (List Char × Value F) × List Char) :=
  match expect ',' text with
  | some rest => readMembers N n rest
  | none => (expect '}' text).map fun rest => ([], rest)

theorem readItems_of_value
    {n : Nat} {text rest : List Char} {v : Value F}
    (hread : readValue N n (skipWs text) = some (v, rest)) :
    readItems N (n + 1) text = (moreItems N n rest).map fun r => (v :: r.1, r.2) := by
  rw [readItems, hread]
  unfold moreItems
  dsimp only
  cases expect ',' rest with
  | some rest' => rfl
  | none => cases expect ']' rest <;> rfl

theorem readMembers_of_value
    {n : Nat} {rest : List Char} {v : Value F} (ascii : Bool) (k : List Char) (text : List Char)
    (hread : readValue N n (skipWs (' ' :: text)) = some (v, rest))
    {before : List Char} (hbefore : skipWs before = dumpsString ascii k ++ ':' :: ' ' :: text) :
    readMembers N (n + 1) before = (moreMembers N n rest).map fun r => ((k, v) :: r.1, r.2) := by
  have hkey : expect '"' before =
      some (k.flatMap (dumpsChar ascii) ++ '"' :: (':' :: ' ' :: text)) := by
    unfold expect
    rw [hbefore, dumpsString, List.cons_append]
    dsimp only
    rw [if_pos rfl, List.append_assoc]
    rfl
  rw [readMembers, hkey]
  dsimp only
  rw [readString_dumpsString]
  dsimp only
  rw [expect_self rfl]
  dsimp only
  rw [hread]
  unfold moreMembers
  dsimp only
  cases expect ',' rest with
  | some rest' => rfl
  | none => cases expect '}' rest <;> rfl

theorem length_pos_dumps
    (ascii : Bool) (v : Value F) :
    0 < (dumps ascii N v).length := by
  obtain ⟨c, t, hstart, _⟩ := dumps_start (N := N) ascii v
  rw [hstart]
  exact Nat.succ_pos _

theorem length_pos_dumpsItems
    (ascii : Bool) (vs : List (Value F)) :
    0 < (dumpsItems ascii N vs).length := by
  cases vs <;> exact Nat.succ_pos _

mutual

/-- A value is read back; the length of its text is enough fuel. -/
theorem readValue_dumps (ascii : Bool) :
    ∀ (v : Value F) (n : Nat) (rest : List Char),
      (dumps ascii N v).length ≤ n → EndsNumber rest →
      readValue N n (dumps ascii N v ++ rest) = some (v, rest)
  | .scalar v, 0, rest, hn, _ => by
      have hpos := length_pos_dumps (N := N) ascii (.scalar v)
      omega
  | .scalar v, n + 1, rest, _, hrest => readValue_dumpsScalar ascii v hrest n
  | .arr [], 0, rest, hn, _ => by cases hn
  | .arr [], n + 1, rest, _, _ => by
      simp only [dumps, List.cons_append, List.nil_append]
      rw [readValue, if_neg (by decide), if_neg (by decide), if_pos rfl, expect_self rfl]
  | .arr (v :: vs), 0, rest, hn, _ => by cases hn
  | .arr (v :: vs), 1, rest, hn, _ => by
      have hv := length_pos_dumps (N := N) ascii v
      have hvs := length_pos_dumpsItems (N := N) ascii vs
      simp only [dumps, List.length_cons, List.length_append] at hn
      omega
  | .arr (v :: vs), n + 2, rest, hn, _ => by
      have hv := length_pos_dumps (N := N) ascii v
      have hvs := length_pos_dumpsItems (N := N) ascii vs
      simp only [dumps, List.length_cons, List.length_append] at hn
      obtain ⟨c, t, hstart, hws, hbracket, _⟩ := dumps_start (N := N) ascii v
      have hopen : expect ']' (dumps ascii N v ++ (dumpsItems ascii N vs ++ rest)) = none := by
        rw [hstart, List.cons_append]
        exact expect_of_ne hws hbracket _
      have hread : readValue N n (skipWs (dumps ascii N v ++ (dumpsItems ascii N vs ++ rest))) =
          some (v, dumpsItems ascii N vs ++ rest) := by
        rw [(skipWs_dumps ascii v _).1]
        exact readValue_dumps ascii v n _ (by omega) (endsNumber_dumpsItems ascii vs rest)
      simp only [dumps, List.cons_append, List.append_assoc]
      rw [readValue, if_neg (by decide), if_neg (by decide), if_pos rfl, hopen]
      dsimp only
      rw [readItems_of_value hread, moreItems_dumps ascii vs n rest (by omega)]
      rfl
  | .obj [], 0, rest, hn, _ => by cases hn
  | .obj [], n + 1, rest, _, _ => by
      simp only [dumps, List.cons_append, List.nil_append]
      rw [readValue, if_neg (by decide), if_pos rfl, expect_self rfl]
  | .obj ((k, v) :: ms), 0, rest, hn, _ => by cases hn
  | .obj ((k, v) :: ms), 1, rest, hn, _ => by
      have hv := length_pos_dumps (N := N) ascii v
      simp only [dumps, List.length_cons, List.length_append] at hn
      omega
  | .obj ((k, v) :: ms), n + 2, rest, hn, _ => by
      have hv := length_pos_dumps (N := N) ascii v
      simp only [dumps, List.length_cons, List.length_append] at hn
      have hopen : ∀ text, expect '}' (dumpsString ascii k ++ text) = none := by
        intro text
        rw [dumpsString, List.cons_append]
        exact expect_of_ne rfl (by decide) _
      have hskip : ∀ text, skipWs (dumpsString ascii k ++ text) = dumpsString ascii k ++ text := by
        intro text
        rw [dumpsString, List.cons_append]
        exact List.dropWhile_cons_of_neg (by decide)
      have hread : readValue N n
          (skipWs (' ' :: (dumps ascii N v ++ (dumpsMembers ascii N ms ++ rest)))) =
          some (v, dumpsMembers ascii N ms ++ rest) := by
        rw [(skipWs_dumps ascii v _).2]
        exact readValue_dumps ascii v n _ (by omega) (endsNumber_dumpsMembers ascii ms rest)
      simp only [dumps, List.cons_append, List.append_assoc]
      rw [readValue, if_neg (by decide), if_pos rfl, hopen]
      dsimp only
      rw [readMembers_of_value ascii k _ hread (hskip _),
        moreMembers_dumps ascii ms n rest (by omega)]
      rfl

theorem moreItems_dumps (ascii : Bool) :
    ∀ (vs : List (Value F)) (n : Nat) (rest : List Char),
      (dumpsItems ascii N vs).length ≤ n + 1 →
      moreItems N n (dumpsItems ascii N vs ++ rest) = some (vs, rest)
  | [], n, rest, _ => by
      simp only [dumpsItems, List.cons_append, List.nil_append]
      rw [moreItems, expect_of_ne rfl (by decide)]
      dsimp only
      rw [expect_self rfl]
      rfl
  | v :: vs, 0, rest, hn => by
      simp only [dumpsItems, List.length_cons] at hn
      omega
  | v :: vs, n + 1, rest, hn => by
      have hv := length_pos_dumps (N := N) ascii v
      have hvs := length_pos_dumpsItems (N := N) ascii vs
      simp only [dumpsItems, List.length_cons, List.length_append] at hn
      have hread : readValue N n
          (skipWs (' ' :: (dumps ascii N v ++ (dumpsItems ascii N vs ++ rest)))) =
          some (v, dumpsItems ascii N vs ++ rest) := by
        rw [(skipWs_dumps ascii v _).2]
        exact readValue_dumps ascii v n _ (by omega) (endsNumber_dumpsItems ascii vs rest)
      simp only [dumpsItems, List.cons_append, List.append_assoc]
      rw [moreItems, expect_self rfl]
      dsimp only
      rw [readItems_of_value hread, moreItems_dumps ascii vs n rest (by omega)]
      rfl

theorem moreMembers_dumps (ascii : Bool) :
    ∀ (ms : List (List Char × Value F)) (n : Nat) (rest : List Char),
      (dumpsMembers ascii N ms).length ≤ n + 1 →
      moreMembers N n (dumpsMembers ascii N ms ++ rest) = some (ms, rest)
  | [], n, rest, _ => by
      simp only [dumpsMembers, List.cons_append, List.nil_append]
      rw [moreMembers, expect_of_ne rfl (by decide)]
      dsimp only
      rw [expect_self rfl]
      rfl
  | (k, v) :: ms, 0, rest, hn => by
      simp only [dumpsMembers, List.length_cons] at hn
      omega
  | (k, v) :: ms, n + 1, rest, hn => by
      have hv := length_pos_dumps (N := N) ascii v
      simp only [dumpsMembers, List.length_cons, List.length_append] at hn
      have hskip : ∀ text, skipWs (' ' :: (dumpsString ascii k ++ text)) =
          dumpsString ascii k ++ text := by
        intro text
        rw [dumpsString, List.cons_append]
        rfl
      have hread : readValue N n
          (skipWs (' ' :: (dumps ascii N v ++ (dumpsMembers ascii N ms ++ rest)))) =
          some (v, dumpsMembers ascii N ms ++ rest) := by
        rw [(skipWs_dumps ascii v _).2]
        exact readValue_dumps ascii v n _ (by omega) (endsNumber_dumpsMembers ascii ms rest)
      simp only [dumpsMembers, List.cons_append, List.append_assoc]
      rw [moreMembers, expect_self rfl]
      dsimp only
      rw [readMembers_of_value ascii k _ hread (hskip _),
        moreMembers_dumps ascii ms n rest (by omega)]
      rfl

end

/-- **Round trip.**  `json.loads` gives back what `json.dumps` wrote. -/
theorem loads_dumps
    (ascii : Bool) (v : Value F) :
    loads N (dumps ascii N v) = some v := by
  have hskip := (skipWs_dumps (N := N) ascii v []).1
  have hread := readValue_dumps (N := N) ascii v ((dumps ascii N v).length + 1) []
    (Nat.le_succ _) (fun _ hc => nomatch hc)
  rw [List.append_nil] at hskip hread
  rw [loads, hskip, hread]
  rfl

/-- The line feed behind the text does not matter. -/
theorem loads_dumps_newline
    (ascii : Bool) (v : Value F) :
    loads N (dumps ascii N v ++ ['\n']) = some v := by
  have hread := readValue_dumps (N := N) ascii v ((dumps ascii N v ++ ['\n']).length + 1) ['\n']
    (by rw [List.length_append]; omega) (endsNumber_cons rfl _)
  rw [loads, (skipWs_dumps ascii v ['\n']).1, hread]
  rfl

/-- What is read from lines is read from each of them. -/
theorem mapM_loads_iff
    {lines : List (List Char)} {values : List (Value F)} :
    lines.mapM (loads N) = some values ↔ lines.map (loads N) = values.map some := by
  induction lines generalizing values with
  | nil => cases values <;> simp
  | cons line lines ih =>
      cases values with
      | nil => simp [Option.bind_eq_some_iff]
      | cons v values => simp [Option.bind_eq_some_iff, ← ih]

end Values

/-! ### Lines -/

mutual

/-- No string of the value holds an unescaped line boundary. -/
def Value.isClean : Value F → Bool
  | .scalar (.str s) => s.all fun c => !isRawBoundary c
  | .scalar _ => true
  | .arr vs => cleanItems vs
  | .obj ms => cleanMembers ms

def cleanItems : List (Value F) → Bool
  | [] => true
  | v :: vs => v.isClean && cleanItems vs

def cleanMembers : List (List Char × Value F) → Bool
  | [] => true
  | (k, v) :: ms => (k.all fun c => !isRawBoundary c) && (v.isClean && cleanMembers ms)

end

section OneLine

variable {N : FloatText F} {ascii : Bool}

/-- The writer keeps the text of the string on one line. -/
def OnOneLine (ascii : Bool) (s : List Char) : Prop :=
  ascii = true ∨ (s.all fun c => !isRawBoundary c) = true

theorem unbroken_unicodeEscape
    (n : Nat) :
    Unbroken (unicodeEscape n) := by
  have h₃ := digitChar_unbroken (n / 4096 % 16) (by omega)
  have h₂ := digitChar_unbroken (n / 256 % 16) (by omega)
  have h₁ := digitChar_unbroken (n / 16 % 16) (by omega)
  have h₀ := digitChar_unbroken (n % 16) (by omega)
  simp only [unicodeEscape, unbroken_cons, h₃, h₂, h₁, h₀]
  exact ⟨rfl, rfl, trivial, trivial, trivial, trivial, unbroken_nil⟩

theorem unbroken_asciiChar
    (c : Char) :
    Unbroken (asciiChar c) := by
  unfold asciiChar
  split_ifs with hlow
  · rw [unbroken_escapeChar]
    cases h : isRawBoundary c with
    | false => rfl
    | true =>
        simp only [isRawBoundary, Bool.or_eq_true, beq_iff_eq] at h
        rcases h with (rfl | rfl) | rfl <;> exact absurd hlow (by decide)
  · exact unbroken_unicodeEscape _
  · exact unbroken_append.mpr ⟨unbroken_unicodeEscape _, unbroken_unicodeEscape _⟩

theorem unbroken_dumpsString
    {s : List Char} (hs : OnOneLine ascii s) :
    Unbroken (dumpsString ascii s) := by
  have hchars : Unbroken (s.flatMap (dumpsChar ascii)) := by
    intro d hd
    obtain ⟨c, hc, hd⟩ := List.mem_flatMap.mp hd
    cases ascii with
    | true => exact unbroken_asciiChar c d hd
    | false =>
        have hclean := List.all_eq_true.mp (hs.resolve_left Bool.false_ne_true) c hc
        exact (unbroken_escapeChar c).mpr (by simpa using hclean) d hd
  rw [dumpsString, unbroken_cons, unbroken_append]
  exact ⟨rfl, hchars, by decide⟩

theorem unbroken_dumpsScalar
    {v : Scalar F} (hv : ascii = true ∨ (Value.scalar v).isClean = true) :
    Unbroken (dumpsScalar ascii N v) := by
  cases v with
  | str s => exact unbroken_dumpsString hv
  | null => exact @unbroken_writeScalar F N .null trivial
  | bool b => exact @unbroken_writeScalar F N (.bool b) trivial
  | int n => exact @unbroken_writeScalar F N (.int n) trivial
  | float x => exact @unbroken_writeScalar F N (.float x) trivial

mutual

/-- A clean value, and any value in ASCII, is one line. -/
theorem unbroken_dumps :
    ∀ v : Value F, ascii = true ∨ v.isClean = true → Unbroken (dumps ascii N v)
  | .scalar _, h => unbroken_dumpsScalar h
  | .arr [], _ => (by decide : Unbroken ['[', ']'])
  | .arr (v :: vs), h => by
      simp only [Value.isClean, cleanItems, Bool.and_eq_true, or_and_left] at h
      rw [dumps, unbroken_cons, unbroken_append]
      exact ⟨rfl, unbroken_dumps v h.1, unbroken_dumpsItems vs h.2⟩
  | .obj [], _ => (by decide : Unbroken ['{', '}'])
  | .obj ((k, v) :: ms), h => by
      simp only [Value.isClean, cleanMembers, Bool.and_eq_true, or_and_left] at h
      rw [dumps, unbroken_cons, unbroken_append, unbroken_cons, unbroken_cons, unbroken_append]
      exact ⟨rfl, unbroken_dumpsString h.1, rfl, rfl, unbroken_dumps v h.2.1,
        unbroken_dumpsMembers ms h.2.2⟩

theorem unbroken_dumpsItems :
    ∀ vs : List (Value F), ascii = true ∨ cleanItems vs = true →
      Unbroken (dumpsItems ascii N vs)
  | [], _ => (by decide : Unbroken [']'])
  | v :: vs, h => by
      simp only [cleanItems, Bool.and_eq_true, or_and_left] at h
      rw [dumpsItems, unbroken_cons, unbroken_cons, unbroken_append]
      exact ⟨rfl, rfl, unbroken_dumps v h.1, unbroken_dumpsItems vs h.2⟩

theorem unbroken_dumpsMembers :
    ∀ ms : List (List Char × Value F), ascii = true ∨ cleanMembers ms = true →
      Unbroken (dumpsMembers ascii N ms)
  | [], _ => (by decide : Unbroken ['}'])
  | (k, v) :: ms, h => by
      simp only [cleanMembers, Bool.and_eq_true, or_and_left] at h
      rw [dumpsMembers, unbroken_cons, unbroken_cons, unbroken_append, unbroken_cons,
        unbroken_cons, unbroken_append]
      exact ⟨rfl, rfl, unbroken_dumpsString h.1, rfl, rfl, unbroken_dumps v h.2.1,
        unbroken_dumpsMembers ms h.2.2⟩

end

/-- The lines of a file whose texts are one line each. -/
theorem splitLines_dumps
    {vs : List (Value F)} (h : ascii = true ∨ ∀ v ∈ vs, v.isClean = true) :
    splitLines (vs.flatMap fun v => dumps ascii N v ++ ['\n']) = vs.map (dumps ascii N) := by
  induction vs with
  | nil => rfl
  | cons v vs ih =>
      have hfirst : Unbroken (dumps ascii N v) :=
        unbroken_dumps v (h.imp_right fun hvs => hvs v List.mem_cons_self)
      have hrest := ih (h.imp_right fun hvs w hw => hvs w (List.mem_cons_of_mem _ hw))
      rw [List.flatMap_cons, List.append_assoc, List.map_cons, ← hrest]
      exact splitLines_append_boundary hfirst rfl (by decide) _

end OneLine

/-! ### The last line of a flat object -/

section LastLine

variable {N : FloatText F} {ms : List (List Char × Scalar F)}

/-- The members of a flat object. -/
def flat (ms : List (List Char × Scalar F)) : List (List Char × Value F) :=
  ms.map fun m => (m.1, .scalar m.2)

theorem dumpsString_false (s : List Char) : dumpsString false s = '"' :: (escape s ++ ['"']) :=
  rfl

theorem cleanMembers_flat
    (h : ∀ m ∈ ms, PlainKey m.1 ∧ m.2.Clean) :
    cleanMembers (flat ms) = true := by
  induction ms with
  | nil => rfl
  | cons m ms ih =>
      obtain ⟨⟨hkey, hvalue⟩, hms⟩ := List.forall_mem_cons.mp h
      have hchars : ∀ {s : List Char}, CleanText s → (s.all fun c => !isRawBoundary c) = true :=
        fun hs => List.all_eq_true.mpr fun c hc => by rw [hs c hc]; rfl
      have hscalar : (Value.scalar m.2).isClean = true := by
        cases hm : m.2 with
        | str s =>
            rw [hm] at hvalue
            exact hchars hvalue
        | _ => rfl
      rw [flat, List.map_cons, cleanMembers, hchars hkey.clean, hscalar, ← flat, ih hms]
      rfl

/-- No key can be read after the closing quote of a value of a flat object. -/
theorem deadEnd_dumpsMembers
    (hkeys : ∀ m ∈ ms, PlainKey m.1) :
    DeadEnd ('"' :: dumpsMembers false N (flat ms)) := by
  refine Or.inr ⟨_, rfl, fun key more hread => ?_⟩
  cases ms with
  | nil => cases hread
  | cons m ms =>
      obtain ⟨d, after, hstart, hws, hcolon⟩ := (hkeys m List.mem_cons_self).start
      have htext : dumpsMembers false N (flat (m :: ms)) = ',' :: ' ' :: '"' :: d ::
          (after ++ '"' :: ':' :: ' ' ::
            (dumps false N (.scalar m.2) ++ dumpsMembers false N (flat ms))) := by
        rw [flat, List.map_cons, dumpsMembers, dumpsString_false, hstart]
        simp [flat]
      rw [htext] at hread
      cases hread
      exact expect_of_ne hws hcolon _

/-- The members from the last broken string on. -/
theorem dumpsMembers_of_broken
    (hkeys : ∀ m ∈ ms, PlainKey m.1) (hbroken : ¬ ∀ m ∈ ms, m.2.Clean) :
    ∃ front c q post, dumpsMembers false N (flat ms) =
        front ++ c :: (escape q ++ '"' :: dumpsMembers false N (flat post)) ∧
      isRawBoundary c = true ∧ CleanText q ∧ ∀ m ∈ post, PlainKey m.1 ∧ m.2.Clean := by
  induction ms with
  | nil => exact absurd (fun _ h => nomatch h) hbroken
  | cons m ms ih =>
      have hlater := (List.forall_mem_cons.mp hkeys).2
      by_cases hrest : ∀ m ∈ ms, m.2.Clean
      · have hm : ¬ m.2.Clean := fun h => hbroken (List.forall_mem_cons.mpr ⟨h, hrest⟩)
        obtain ⟨key, v⟩ := m
        cases v with
        | str s =>
            rcases clean_or_last s with hclean | ⟨p, c, q, rfl, hc, hq⟩
            · exact absurd hclean hm
            · refine ⟨',' :: ' ' :: (dumpsString false key ++ ':' :: ' ' :: '"' :: escape p), c, q,
                ms, ?_, hc, hq, fun m hm => ⟨hlater m hm, hrest m hm⟩⟩
              have hvalue : dumps false N (.scalar (.str (p ++ c :: q))) =
                  '"' :: (escape p ++ c :: (escape q ++ ['"'])) := by
                rw [dumps, dumpsScalar, dumpsString_false, escape_rawBoundary hc]
                simp
              rw [flat, List.map_cons, dumpsMembers, hvalue]
              simp [flat]
        | null => exact absurd trivial hm
        | bool b => exact absurd trivial hm
        | int n => exact absurd trivial hm
        | float x => exact absurd trivial hm
      · obtain ⟨front, c, q, post, htext, hc, hq, hpost⟩ := ih hlater hrest
        refine ⟨',' :: ' ' :: (dumpsString false m.1 ++ ':' :: ' ' ::
          (dumps false N (.scalar m.2) ++ front)), c, q, post, ?_, hc, hq, hpost⟩
        rw [flat, List.map_cons, dumpsMembers, ← flat, htext]
        simp

/-- The text of a broken object ends in a line that is no object with members. -/
theorem lastLine_of_broken
    (hkeys : ∀ m ∈ ms, PlainKey m.1) (hbroken : ¬ ∀ m ∈ ms, m.2.Clean) :
    ∃ front c last, dumps false N (.obj (flat ms)) = front ++ c :: last ∧
      isRawBoundary c = true ∧ last ≠ [] ∧ Unbroken last ∧ NoMembers N last := by
  obtain ⟨front, c, q, post, htext, hc, hq, hpost⟩ := dumpsMembers_of_broken (N := N) hkeys hbroken
  have hplain : ∀ m ∈ post, PlainKey m.1 := fun m hm => (hpost m hm).1
  have hunbroken : Unbroken (escape q ++ '"' :: dumpsMembers false N (flat post)) := by
    rw [unbroken_append, unbroken_cons]
    exact ⟨(unbroken_escape q).mpr hq, rfl,
      unbroken_dumpsMembers (flat post) (Or.inr (cleanMembers_flat hpost))⟩
  have hpunctuation : ∀ d, isRawBoundary d = false → d ≠ c := by
    rintro d hd rfl
    rw [hc] at hd
    cases hd
  cases ms with
  | nil => exact absurd (fun _ h => nomatch h) hbroken
  | cons m ms =>
      rw [flat, List.map_cons, dumpsMembers] at htext
      cases front with
      | nil => exact absurd (List.cons.inj htext).1 (hpunctuation ',' rfl)
      | cons d front =>
          cases front with
          | nil => exact absurd (List.cons.inj (List.cons.inj htext).2).1 (hpunctuation ' ' rfl)
          | cons e front =>
              refine ⟨'{' :: front, c, _, ?_, hc, by simp, hunbroken,
                noMembers_escape q (deadEnd_dumpsMembers hplain)⟩
              rw [flat, List.map_cons, dumps, (List.cons.inj (List.cons.inj htext).2).2]
              rfl

end LastLine

end JsonText
end DiploidAgent
