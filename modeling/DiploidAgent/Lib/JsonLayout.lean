import DiploidAgent.Lib.JsonDumps

/-!
# The layout of JSON texts

`json.dumps` with an indent of two, and that the reader gives back what it wrote
(`loads_dumpsIndent`): the reader skips the line feeds and the spaces.  The default form has no
line feed and no carriage return, whatever the strings of the value hold (`noReturn_dumps`).
-/

namespace DiploidAgent
namespace JsonText

universe u

variable {F : Type u}

/-- The line feed and the indent of a depth. -/
def newline (depth : Nat) : List Char := '\n' :: List.replicate (2 * depth) ' '

mutual

/-- `json.dumps` with `indent=2`, for a value at a depth. -/
def dumpsIndent (ascii : Bool) (N : FloatText F) : Nat → Value F → List Char
  | _, .scalar v => dumpsScalar ascii N v
  | _, .arr [] => ['[', ']']
  | depth, .arr (v :: vs) =>
      '[' :: (newline (depth + 1) ++
        (dumpsIndent ascii N (depth + 1) v ++ indentItems ascii N depth vs))
  | _, .obj [] => ['{', '}']
  | depth, .obj ((k, v) :: ms) =>
      '{' :: (newline (depth + 1) ++ (dumpsString ascii k ++ ':' :: ' ' ::
        (dumpsIndent ascii N (depth + 1) v ++ indentMembers ascii N depth ms)))

/-- The items after the first, and the closing bracket. -/
def indentItems (ascii : Bool) (N : FloatText F) : Nat → List (Value F) → List Char
  | depth, [] => newline depth ++ [']']
  | depth, v :: vs =>
      ',' :: (newline (depth + 1) ++
        (dumpsIndent ascii N (depth + 1) v ++ indentItems ascii N depth vs))

/-- The members after the first, and the closing brace. -/
def indentMembers (ascii : Bool) (N : FloatText F) :
    Nat → List (List Char × Value F) → List Char
  | depth, [] => newline depth ++ ['}']
  | depth, (k, v) :: ms =>
      ',' :: (newline (depth + 1) ++ (dumpsString ascii k ++ ':' :: ' ' ::
        (dumpsIndent ascii N (depth + 1) v ++ indentMembers ascii N depth ms)))

end

section Reading

variable {N : FloatText F}

theorem skipWs_newline
    (depth : Nat) (text : List Char) :
    skipWs (newline depth ++ text) = skipWs text := by
  have hblank : ∀ c ∈ newline depth, isWs c = true := by
    intro c hc
    rcases List.mem_cons.mp hc with rfl | hc
    · rfl
    · rw [List.eq_of_mem_replicate hc]
      rfl
  exact List.dropWhile_append_of_pos hblank

theorem expect_newline
    (c : Char) (depth : Nat) (text : List Char) :
    expect c (newline depth ++ text) = expect c text := by
  rw [expect, skipWs_newline, ← expect]

/-- Both writers start a value alike. -/
theorem dumpsIndent_start
    (ascii : Bool) (depth : Nat) (v : Value F) :
    ∃ c t, dumpsIndent ascii N depth v = c :: t ∧ isWs c = false ∧ c ≠ ']' := by
  cases v with
  | scalar v =>
      obtain ⟨c, t, hstart, hws, hbracket, _⟩ := @dumps_start F N ascii (.scalar v)
      exact ⟨c, t, by rw [dumpsIndent, ← hstart, dumps], hws, hbracket⟩
  | arr items =>
      cases items with
      | nil => exact ⟨_, _, by rw [dumpsIndent], by decide, by decide⟩
      | cons v vs => exact ⟨_, _, by rw [dumpsIndent], by decide, by decide⟩
  | obj members =>
      cases members with
      | nil => exact ⟨_, _, by rw [dumpsIndent], by decide, by decide⟩
      | cons m ms => exact ⟨_, _, by rw [dumpsIndent], by decide, by decide⟩

theorem skipWs_dumpsIndent
    (ascii : Bool) (depth : Nat) (v : Value F) (rest : List Char) :
    skipWs (dumpsIndent ascii N depth v ++ rest) = dumpsIndent ascii N depth v ++ rest := by
  obtain ⟨c, t, hstart, hws, _⟩ := dumpsIndent_start (N := N) ascii depth v
  rw [hstart, List.cons_append]
  exact List.dropWhile_cons_of_neg (by simp [hws])

theorem skipWs_dumpsString
    (ascii : Bool) (k text : List Char) :
    skipWs (dumpsString ascii k ++ text) = dumpsString ascii k ++ text := by
  rw [dumpsString, List.cons_append]
  exact List.dropWhile_cons_of_neg (by decide)

theorem length_pos_dumpsIndent
    (ascii : Bool) (depth : Nat) (v : Value F) :
    0 < (dumpsIndent ascii N depth v).length := by
  obtain ⟨c, t, hstart, _⟩ := dumpsIndent_start (N := N) ascii depth v
  rw [hstart]
  exact Nat.succ_pos _

theorem endsNumber_indentItems
    (ascii : Bool) (depth : Nat) (vs : List (Value F)) (rest : List Char) :
    EndsNumber (indentItems ascii N depth vs ++ rest) := by
  cases vs <;> exact endsNumber_cons rfl _

theorem endsNumber_indentMembers
    (ascii : Bool) (depth : Nat) (ms : List (List Char × Value F)) (rest : List Char) :
    EndsNumber (indentMembers ascii N depth ms ++ rest) := by
  cases ms <;> exact endsNumber_cons rfl _

theorem length_newline (depth : Nat) : (newline depth).length = 2 * depth + 1 := by
  simp [newline]

/-- The items from one on, when it is read. -/
theorem readItems_indent
    (ascii : Bool) (v : Value F) (depth n : Nat) (rest : List Char)
    (hvalue : readValue N n (dumpsIndent ascii N (depth + 1) v ++ rest) = some (v, rest)) :
    readItems N (n + 1) (newline (depth + 1) ++ (dumpsIndent ascii N (depth + 1) v ++ rest)) =
      (moreItems N n rest).map fun r => (v :: r.1, r.2) := by
  refine readItems_of_value ?_
  rw [skipWs_newline, skipWs_dumpsIndent]
  exact hvalue

/-- The members from one on, when its value is read. -/
theorem readMembers_indent
    (ascii : Bool) (k : List Char) (v : Value F) (depth n : Nat) (rest : List Char)
    (hvalue : readValue N n (dumpsIndent ascii N (depth + 1) v ++ rest) = some (v, rest)) :
    readMembers N (n + 1) (newline (depth + 1) ++ (dumpsString ascii k ++
        ':' :: ' ' :: (dumpsIndent ascii N (depth + 1) v ++ rest))) =
      (moreMembers N n rest).map fun r => ((k, v) :: r.1, r.2) := by
  have hspace : isWs ' ' = true := rfl
  have hread : readValue N n
      (skipWs (' ' :: (dumpsIndent ascii N (depth + 1) v ++ rest))) = some (v, rest) := by
    rw [skipWs, List.dropWhile_cons_of_pos hspace, ← skipWs, skipWs_dumpsIndent]
    exact hvalue
  refine readMembers_of_value ascii k _ hread ?_
  rw [skipWs_newline, skipWs_dumpsString]

mutual

/-- An indented value is read back; the length of its text is enough fuel. -/
theorem readValue_dumpsIndent (ascii : Bool) :
    ∀ (v : Value F) (depth n : Nat) (rest : List Char),
      (dumpsIndent ascii N depth v).length ≤ n → EndsNumber rest →
      readValue N n (dumpsIndent ascii N depth v ++ rest) = some (v, rest)
  | .scalar v, depth, 0, rest, hn, _ => by
      have hpos := length_pos_dumpsIndent (N := N) ascii depth (.scalar v)
      omega
  | .scalar v, depth, n + 1, rest, _, hrest => by
      rw [dumpsIndent]
      exact readValue_dumpsScalar ascii v hrest n
  | .arr [], depth, n, rest, hn, _ => by
      simp only [dumpsIndent, List.length_cons, List.length_nil] at hn
      obtain ⟨n, rfl⟩ := Nat.exists_eq_add_of_le' (show 1 ≤ n by omega)
      simp only [dumpsIndent, List.cons_append, List.nil_append]
      rw [readValue, if_neg (by decide), if_neg (by decide), if_pos rfl, expect_self rfl]
  | .arr (v :: vs), depth, n, rest, hn, _ => by
      have hv := length_pos_dumpsIndent (N := N) ascii (depth + 1) v
      simp only [dumpsIndent, List.length_cons, List.length_append, length_newline] at hn
      obtain ⟨n, rfl⟩ := Nat.exists_eq_add_of_le' (show 2 ≤ n by omega)
      obtain ⟨c, t, hstart, hws, hbracket⟩ := dumpsIndent_start (N := N) ascii (depth + 1) v
      have hopen : ∀ text, expect ']' (newline (depth + 1) ++
          (dumpsIndent ascii N (depth + 1) v ++ text)) = none := by
        intro text
        rw [expect_newline, hstart, List.cons_append]
        exact expect_of_ne hws hbracket _
      have hread := readItems_indent (N := N) ascii v depth n (indentItems ascii N depth vs ++ rest)
        (readValue_dumpsIndent ascii v (depth + 1) n _ (by omega)
          (endsNumber_indentItems ascii depth vs rest))
      simp only [dumpsIndent, List.cons_append, List.append_assoc]
      rw [readValue, if_neg (by decide), if_neg (by decide), if_pos rfl, hopen]
      dsimp only
      rw [hread, moreItems_indent ascii vs depth n rest (by omega)]
      rfl
  | .obj [], depth, n, rest, hn, _ => by
      simp only [dumpsIndent, List.length_cons, List.length_nil] at hn
      obtain ⟨n, rfl⟩ := Nat.exists_eq_add_of_le' (show 1 ≤ n by omega)
      simp only [dumpsIndent, List.cons_append, List.nil_append]
      rw [readValue, if_neg (by decide), if_pos rfl, expect_self rfl]
  | .obj ((k, v) :: ms), depth, n, rest, hn, _ => by
      have hv := length_pos_dumpsIndent (N := N) ascii (depth + 1) v
      simp only [dumpsIndent, List.length_cons, List.length_append, length_newline] at hn
      obtain ⟨n, rfl⟩ := Nat.exists_eq_add_of_le' (show 2 ≤ n by omega)
      have hopen : ∀ text, expect '}' (newline (depth + 1) ++ (dumpsString ascii k ++ text)) =
          none := by
        intro text
        rw [expect_newline, dumpsString, List.cons_append]
        exact expect_of_ne rfl (by decide) _
      have hread := readMembers_indent (N := N) ascii k v depth n
        (indentMembers ascii N depth ms ++ rest)
        (readValue_dumpsIndent ascii v (depth + 1) n _ (by omega)
          (endsNumber_indentMembers ascii depth ms rest))
      simp only [dumpsIndent, List.cons_append, List.append_assoc]
      rw [readValue, if_neg (by decide), if_pos rfl, hopen]
      dsimp only
      rw [hread, moreMembers_indent ascii ms depth n rest (by omega)]
      rfl

theorem moreItems_indent (ascii : Bool) :
    ∀ (vs : List (Value F)) (depth n : Nat) (rest : List Char),
      (indentItems ascii N depth vs).length ≤ n + 1 →
      moreItems N n (indentItems ascii N depth vs ++ rest) = some (vs, rest)
  | [], depth, n, rest, _ => by
      simp only [indentItems, List.cons_append, List.nil_append, List.append_assoc]
      rw [moreItems, expect_newline, expect_of_ne rfl (by decide)]
      dsimp only
      rw [expect_newline, expect_self rfl]
      rfl
  | v :: vs, depth, n, rest, hn => by
      have hv := length_pos_dumpsIndent (N := N) ascii (depth + 1) v
      simp only [indentItems, List.length_cons, List.length_append, length_newline] at hn
      obtain ⟨n, rfl⟩ := Nat.exists_eq_add_of_le' (show 1 ≤ n by omega)
      have hread := readItems_indent (N := N) ascii v depth n (indentItems ascii N depth vs ++ rest)
        (readValue_dumpsIndent ascii v (depth + 1) n _ (by omega)
          (endsNumber_indentItems ascii depth vs rest))
      simp only [indentItems, List.cons_append, List.append_assoc]
      rw [moreItems, expect_self rfl]
      dsimp only
      rw [hread, moreItems_indent ascii vs depth n rest (by omega)]
      rfl

theorem moreMembers_indent (ascii : Bool) :
    ∀ (ms : List (List Char × Value F)) (depth n : Nat) (rest : List Char),
      (indentMembers ascii N depth ms).length ≤ n + 1 →
      moreMembers N n (indentMembers ascii N depth ms ++ rest) = some (ms, rest)
  | [], depth, n, rest, _ => by
      simp only [indentMembers, List.cons_append, List.nil_append, List.append_assoc]
      rw [moreMembers, expect_newline, expect_of_ne rfl (by decide)]
      dsimp only
      rw [expect_newline, expect_self rfl]
      rfl
  | (k, v) :: ms, depth, n, rest, hn => by
      have hv := length_pos_dumpsIndent (N := N) ascii (depth + 1) v
      simp only [indentMembers, List.length_cons, List.length_append, length_newline] at hn
      obtain ⟨n, rfl⟩ := Nat.exists_eq_add_of_le' (show 1 ≤ n by omega)
      have hread := readMembers_indent (N := N) ascii k v depth n
        (indentMembers ascii N depth ms ++ rest)
        (readValue_dumpsIndent ascii v (depth + 1) n _ (by omega)
          (endsNumber_indentMembers ascii depth ms rest))
      simp only [indentMembers, List.cons_append, List.append_assoc]
      rw [moreMembers, expect_self rfl]
      dsimp only
      rw [hread, moreMembers_indent ascii ms depth n rest (by omega)]
      rfl

end

/-- `json.loads` gives back what `json.dumps` wrote with an indent. -/
theorem loads_dumpsIndent
    (ascii : Bool) (v : Value F) :
    loads N (dumpsIndent ascii N 0 v) = some v := by
  have hskip := skipWs_dumpsIndent (N := N) ascii 0 v []
  have hread := readValue_dumpsIndent (N := N) ascii v 0 ((dumpsIndent ascii N 0 v).length + 1) []
    (Nat.le_succ _) (fun _ hc => by cases hc)
  rw [List.append_nil] at hskip hread
  rw [loads, hskip, hread]
  rfl

end Reading

/-! ### The default form is one line -/

/-- The text has no line feed and no carriage return. -/
def NoReturn (text : List Char) : Prop := ∀ c ∈ text, c ≠ '\n' ∧ c ≠ '\r'

instance (text : List Char) : Decidable (NoReturn text) :=
  List.decidableBAll _ text

section OneLine

open Lines

variable {N : FloatText F} {ascii : Bool}

theorem noReturn_append
    {l l' : List Char} :
    NoReturn (l ++ l') ↔ NoReturn l ∧ NoReturn l' :=
  List.forall_mem_append

theorem noReturn_cons
    {c : Char} {l : List Char} (hc : c ≠ '\n' ∧ c ≠ '\r') :
    NoReturn (c :: l) ↔ NoReturn l :=
  List.forall_mem_cons.trans (and_iff_right hc)

theorem noReturn_of_unbroken
    {l : List Char} (h : Unbroken l) :
    NoReturn l := by
  intro c hc
  have hboundary := h c hc
  constructor
  · rintro rfl
    cases hboundary
  · rintro rfl
    cases hboundary

theorem noReturn_dumpsChar
    (c : Char) :
    NoReturn (dumpsChar ascii c) := by
  cases ascii with
  | true => exact noReturn_of_unbroken (unbroken_asciiChar c)
  | false =>
      cases hraw : isRawBoundary c with
      | false => exact noReturn_of_unbroken ((unbroken_escapeChar c).mpr hraw)
      | true =>
          have hself : dumpsChar false c = [c] := escapeChar_rawBoundary hraw
          rw [hself, NoReturn, List.forall_mem_singleton]
          constructor
          · rintro rfl
            cases hraw
          · rintro rfl
            cases hraw

theorem noReturn_dumpsString
    (s : List Char) :
    NoReturn (dumpsString ascii s) := by
  rw [dumpsString, noReturn_cons (by decide), noReturn_append]
  refine ⟨?_, by decide⟩
  intro d hd
  obtain ⟨c, _, hd⟩ := List.mem_flatMap.mp hd
  exact noReturn_dumpsChar c d hd

theorem noReturn_dumpsScalar
    (v : Scalar F) :
    NoReturn (dumpsScalar ascii N v) := by
  cases v with
  | str s => exact noReturn_dumpsString s
  | null => exact noReturn_of_unbroken (@unbroken_writeScalar F N .null trivial)
  | bool b => exact noReturn_of_unbroken (@unbroken_writeScalar F N (.bool b) trivial)
  | int n => exact noReturn_of_unbroken (@unbroken_writeScalar F N (.int n) trivial)
  | float x => exact noReturn_of_unbroken (@unbroken_writeScalar F N (.float x) trivial)

mutual

/-- The text of a value is one line. -/
theorem noReturn_dumps :
    ∀ v : Value F, NoReturn (dumps ascii N v)
  | .scalar v => noReturn_dumpsScalar v
  | .arr [] => (by decide : NoReturn ['[', ']'])
  | .arr (v :: vs) => by
      rw [dumps, noReturn_cons (by decide), noReturn_append]
      exact ⟨noReturn_dumps v, noReturn_dumpsItems vs⟩
  | .obj [] => (by decide : NoReturn ['{', '}'])
  | .obj ((k, v) :: ms) => by
      rw [dumps, noReturn_cons (by decide), noReturn_append, noReturn_cons (by decide),
        noReturn_cons (by decide), noReturn_append]
      exact ⟨noReturn_dumpsString k, noReturn_dumps v, noReturn_dumpsMembers ms⟩

theorem noReturn_dumpsItems :
    ∀ vs : List (Value F), NoReturn (dumpsItems ascii N vs)
  | [] => (by decide : NoReturn [']'])
  | v :: vs => by
      rw [dumpsItems, noReturn_cons (by decide), noReturn_cons (by decide), noReturn_append]
      exact ⟨noReturn_dumps v, noReturn_dumpsItems vs⟩

theorem noReturn_dumpsMembers :
    ∀ ms : List (List Char × Value F), NoReturn (dumpsMembers ascii N ms)
  | [] => (by decide : NoReturn ['}'])
  | (k, v) :: ms => by
      rw [dumpsMembers, noReturn_cons (by decide), noReturn_cons (by decide), noReturn_append,
        noReturn_cons (by decide), noReturn_cons (by decide), noReturn_append]
      exact ⟨noReturn_dumpsString k, noReturn_dumps v, noReturn_dumpsMembers ms⟩

end

end OneLine

end JsonText
end DiploidAgent
