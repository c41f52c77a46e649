import DiploidAgent.Cron.Store
import DiploidAgent.Lib.JsonDumps
import DiploidAgent.Lib.Text
import DiploidAgent.Memory.Recall

/-!
# The plugin incidents

`PluginIncidentStore` of `plugin_incidents.py`: one JSON object a line, written with
`ensure_ascii=False` and read with `strip` and `splitlines`.

The writer leaves U+0085, U+2028 and U+2029 as they are, and the reader takes them for the ends
of lines.  What is cut off behind such a character is read as a line of its own, which is no
incident; so a log reads back where none of the incidents that are asked for holds one of them
(`recent_iff`).
-/

namespace DiploidAgent
namespace Plugins
namespace Incidents

open JsonText Lines
open Recall (universalNewlines universalNewlines_eq_self)
open Text (isSpace strip lstrip rstrip)

universe u

variable {F : Type u}

section Model

/-- A digit of `uuid4().hex`. -/
def isHexDigit (c : Char) : Bool := c.isDigit || ('a' ≤ c && c ≤ 'f')

/-- `PluginIncident`; the id is the front of a UUID in hexadecimal. -/
structure Incident (F : Type u) where
  id : List Char
  ts : F
  plugin : List Char
  chatId : List Char
  phase : List Char
  error : List Char
  action : List Char
  hex : ∀ c ∈ id, isHexDigit c = true

/-- `asdict`. -/
def Incident.members (i : Incident F) : List (List Char × Scalar F) :=
  [(['i', 'd'], .str i.id),
    (['t', 's'], .float i.ts),
    (['p', 'l', 'u', 'g', 'i', 'n'], .str i.plugin),
    (['c', 'h', 'a', 't', '_', 'i', 'd'], .str i.chatId),
    (['p', 'h', 'a', 's', 'e'], .str i.phase),
    (['e', 'r', 'r', 'o', 'r'], .str i.error),
    (['a', 'c', 't', 'i', 'o', 'n'], .str i.action)]

/-- The object of an incident. -/
def Incident.value (i : Incident F) : Value F := .obj (flat i.members)

/-- `record`, in a file that may not be there yet. -/
def record (N : FloatText F) (file : Option (List Char)) (i : Incident F) : Option (List Char) :=
  some (file.getD [] ++ (dumps false N i.value ++ ['\n']))

/-- `lines[-limit:]`. -/
def lastLines (lines : List (List Char)) (limit : Nat) : List (List Char) :=
  if limit = 0 then lines else lines.drop (lines.length - limit)

/-- `recent`; without a value it raises. -/
def recent (N : FloatText F) (file : Option (List Char)) (limit : Nat) : Option (List (Value F)) :=
  match file with
  | none => some []
  | some text =>
      (lastLines (splitLines (strip (universalNewlines text))) limit).mapM (loads N)

/-- The file after a sequence of incidents. -/
def recorded (N : FloatText F) (incidents : List (Incident F)) : Option (List Char) :=
  incidents.foldl (record N) none

/-- None of the texts of an incident holds an unescaped line boundary. -/
def Incident.Clean (i : Incident F) : Prop :=
  CleanText i.plugin ∧ CleanText i.chatId ∧ CleanText i.phase ∧ CleanText i.error ∧
    CleanText i.action

end Model

section Texts

variable {N : FloatText F}

theorem plainKeys (i : Incident F) : ∀ m ∈ i.members, PlainKey m.1 := by
  simp only [Incident.members, List.forall_mem_cons]
  refine ⟨?_, ?_, ?_, ?_, ?_, ?_, ?_, fun _ h => nomatch h⟩ <;>
    exact ⟨by decide, _, _, rfl, by decide, by decide⟩

theorem clean_id (i : Incident F) : CleanText i.id := by
  intro c hc
  have hhex := i.hex c hc
  by_contra hraw
  rw [Bool.not_eq_false, isRawBoundary, Bool.or_eq_true, Bool.or_eq_true, beq_iff_eq, beq_iff_eq,
    beq_iff_eq] at hraw
  rcases hraw with (rfl | rfl) | rfl <;> cases hhex

theorem clean_members_iff (i : Incident F) : (∀ m ∈ i.members, m.2.Clean) ↔ i.Clean := by
  simp only [Incident.members, List.forall_mem_cons, Scalar.Clean, Incident.Clean]
  have hid := clean_id i
  tauto

/-- What `record` appends. -/
def entry (N : FloatText F) (i : Incident F) : List Char := dumps false N i.value ++ ['\n']

/-- The text of the log. -/
def log (N : FloatText F) (incidents : List (Incident F)) : List Char :=
  incidents.flatMap (entry N)

theorem foldl_record (incidents : List (Incident F)) (text : List Char) :
    incidents.foldl (record N) (some text) = some (text ++ log N incidents) := by
  induction incidents generalizing text with
  | nil => rw [List.foldl_nil, log, List.flatMap_nil, List.append_nil]
  | cons i incidents ih =>
      rw [List.foldl_cons, record, Option.getD_some, ih, log, log, List.flatMap_cons,
        List.append_assoc]
      rfl

theorem recorded_cons (i : Incident F) (incidents : List (Incident F)) :
    recorded N (i :: incidents) = some (log N (i :: incidents)) :=
  foldl_record incidents (entry N i)

theorem log_append (early late : List (Incident F)) :
    log N (early ++ late) = log N early ++ log N late := List.flatMap_append

theorem log_singleton (i : Incident F) : log N [i] = entry N i := by
  rw [log, List.flatMap_cons, List.flatMap_nil, List.append_nil]

/-- An incident is written as an object from brace to brace. -/
theorem dumps_value (N : FloatText F) (i : Incident F) :
    ∃ inner, dumps false N i.value = '{' :: (inner ++ ['}']) := by
  have hmembers : ∀ ms : List (List Char × Value F),
      ∃ inner, dumpsMembers false N ms = inner ++ ['}'] := by
    intro ms
    induction ms with
    | nil => exact ⟨[], rfl⟩
    | cons m ms ih =>
        obtain ⟨inner, hinner⟩ := ih
        exact ⟨',' :: ' ' :: (dumpsString false m.1 ++ ':' :: ' ' :: (dumps false N m.2 ++ inner)),
          by simp [dumpsMembers, hinner]⟩
  obtain ⟨inner, hinner⟩ := hmembers (flat i.members.tail)
  refine ⟨dumpsString false ['i', 'd'] ++ ':' :: ' ' :: (dumpsString false i.id ++ inner), ?_⟩
  have hvalue : dumps false N i.value = '{' :: (dumpsString false ['i', 'd'] ++ ':' :: ' ' ::
      (dumpsString false i.id ++ dumpsMembers false N (flat i.members.tail))) := rfl
  rw [hvalue, hinner]
  simp

/-! ### The lines -/

theorem head_log (incidents : List (Incident F)) : (log N incidents).head? ≠ some '\n' := by
  cases incidents with
  | nil => exact fun h => nomatch h
  | cons i incidents =>
      obtain ⟨inner, hinner⟩ := dumps_value N i
      rw [log, List.flatMap_cons, entry, hinner, List.cons_append, List.cons_append,
        List.head?_cons]
      decide

theorem ended_log (incidents : List (Incident F)) : Ended (log N incidents) := by
  cases incidents using List.reverseRecOn with
  | nil => exact fun c hc => nomatch hc
  | append_singleton early i =>
      intro c hc
      rw [log_append, log_singleton, entry, ← List.append_assoc, List.getLast?_concat] at hc
      rw [← Option.some.inj hc]
      rfl

theorem splitLines_log_append (early late : List (Incident F)) :
    splitLines (log N (early ++ late)) = splitLines (log N early) ++ splitLines (log N late) := by
  rw [log_append]
  exact splitLines_append_of_ended _ (head_log late) _ (ended_log early)

theorem splitLines_log_of_clean {incidents : List (Incident F)} (h : ∀ i ∈ incidents, i.Clean) :
    splitLines (log N incidents) = incidents.map fun i => dumps false N i.value := by
  have hvalues : ∀ v ∈ incidents.map Incident.value, v.isClean = true := by
    intro v hv
    obtain ⟨i, hi, rfl⟩ := List.mem_map.mp hv
    have hmembers := (clean_members_iff i).mpr (h i hi)
    exact cleanMembers_flat fun m hm => ⟨plainKeys i m hm, hmembers m hm⟩
  have hlines : splitLines ((incidents.map Incident.value).flatMap fun v =>
      dumps false N v ++ ['\n']) = (incidents.map Incident.value).map (dumps false N) :=
    splitLines_dumps (Or.inr hvalues)
  rw [List.flatMap_map, List.map_map] at hlines
  exact hlines

/-- The last line of an incident that is cut is not read as one. -/
theorem splitLines_entry_of_broken {i : Incident F} (h : ¬ i.Clean) :
    ∃ front last, splitLines (log N [i]) = front ++ [last] ∧ last ≠ [] ∧ NoMembers N last := by
  obtain ⟨front, c, last, htext, hc, hne, hunbroken, hlast⟩ :=
    lastLine_of_broken (N := N) (plainKeys i) fun hclean => h ((clean_members_iff i).mp hclean)
  have hended : Ended (front ++ [c]) := by
    intro d hd
    rw [List.getLast?_concat] at hd
    rw [← Option.some.inj hd]
    exact (isBoundary_of_raw hc).1
  have hhead : (last ++ ['\n']).head? ≠ some '\n' := by
    obtain ⟨d, rest, rfl⟩ := List.exists_cons_of_ne_nil hne
    intro hd
    have hfeed := (unbroken_cons.mp hunbroken).1
    rw [Option.some.inj hd] at hfeed
    cases hfeed
  have hwhole : splitLines (last ++ ['\n']) = [last] :=
    splitLines_append_boundary hunbroken rfl (by decide) []
  refine ⟨splitLines (front ++ [c]), last, ?_, hne, hlast⟩
  calc splitLines (log N [i])
      _ = splitLines (front ++ [c] ++ (last ++ ['\n'])) := by
        rw [log_singleton, entry, Incident.value, htext]
        simp
      _ = splitLines (front ++ [c]) ++ [last] := by
        rw [splitLines_append_of_ended _ hhead _ hended, hwhole]

/-- The lines of an incident, of which the last is not blank. -/
theorem splitLines_entry (i : Incident F) :
    ∃ front last, splitLines (log N [i]) = front ++ [last] ∧ last ≠ [] := by
  by_cases h : i.Clean
  · refine ⟨[], dumps false N i.value, splitLines_log_of_clean (List.forall_mem_singleton.mpr h),
      fun hnil => ?_⟩
    obtain ⟨inner, hinner⟩ := dumps_value N i
    rw [hinner] at hnil
    cases hnil
  · obtain ⟨front, last, hlines, hne, -⟩ := splitLines_entry_of_broken (N := N) h
    exact ⟨front, last, hlines, hne⟩

/-- The lines of a log are those of the stripped text. -/
theorem splitLines_strip_log (incidents : List (Incident F)) :
    splitLines (strip (log N incidents)) = splitLines (log N incidents) := by
  cases incidents using List.reverseRecOn with
  | nil => rfl
  | append_singleton early i =>
      obtain ⟨inner, hinner⟩ := dumps_value N i
      have hlog : log N (early ++ [i]) = log N early ++ '{' :: (inner ++ ['}']) ++ ['\n'] := by
        rw [log_append, log_singleton, entry, hinner, List.append_assoc]
      have hbrace : ∃ rest, log N early ++ '{' :: (inner ++ ['}']) = '{' :: (rest ++ ['}']) := by
        cases early with
        | nil => exact ⟨inner, rfl⟩
        | cons first early =>
            obtain ⟨inner', hinner'⟩ := dumps_value N first
            refine ⟨inner' ++ '}' :: '\n' :: (log N early ++ '{' :: inner), ?_⟩
            rw [log, List.flatMap_cons, entry, hinner', ← log]
            simp
      obtain ⟨rest, hrest⟩ := hbrace
      have hstrip : strip (log N (early ++ [i])) = '{' :: (rest ++ ['}']) := by
        have hleft : lstrip (log N (early ++ [i])) = log N (early ++ [i]) := by
          rw [hlog, hrest]
          rfl
        have hright : (log N (early ++ [i])).reverse = '\n' :: '}' :: ('{' :: rest).reverse := by
          rw [hlog, hrest, List.reverse_concat, ← List.cons_append, List.reverse_concat]
        have hdrop : ('\n' :: '}' :: ('{' :: rest).reverse).dropWhile isSpace =
            '}' :: ('{' :: rest).reverse := rfl
        rw [strip, hleft, rstrip, hright, hdrop, List.reverse_cons, List.reverse_reverse]
        rfl
      rw [hlog, hrest] at hstrip ⊢
      rw [hstrip]
      rcases splitLines_concat_newline ('{' :: (rest ++ ['}'])) with h | h
      · exact h.symm
      · -- A blank line at the end is none that an incident has.
        obtain ⟨front, last, hlast, hne⟩ := splitLines_entry (N := N) i
        have hlines : splitLines (log N early) ++ front ++ [last] =
            splitLines ('{' :: (rest ++ ['}'])) ++ [[]] := by
          rw [← h, ← hrest, ← hlog, splitLines_log_append, hlast, List.append_assoc]
        exact absurd (List.singleton_injective (List.append_inj_right' hlines rfl)) hne

/-- No entry holds a carriage return. -/
theorem return_notMem_log (incidents : List (Incident F)) : '\r' ∉ log N incidents := by
  have hescape : ∀ s : List Char, '\r' ∉ escape s := by
    intro s hmem
    obtain ⟨c, -, hc⟩ := List.mem_flatMap.mp hmem
    cases hraw : isRawBoundary c with
    | true =>
        rw [escapeChar_rawBoundary hraw] at hc
        exact (isBoundary_of_raw hraw).2 (List.mem_singleton.mp hc).symm
    | false => exact Bool.noConfusion ((unbroken_escapeChar c).mpr hraw '\r' hc)
  have hstring : ∀ s : List Char, '\r' ∉ dumpsString false s := by
    intro s
    simp [dumpsString_false, hescape]
  have hscalar : ∀ v : Scalar F, '\r' ∉ dumps false N (.scalar v) := by
    intro v hmem
    cases v with
    | str s => exact hstring s hmem
    | null => exact Bool.noConfusion (unbroken_dumpsScalar (Or.inr rfl) '\r' hmem)
    | bool b => exact Bool.noConfusion (unbroken_dumpsScalar (Or.inr rfl) '\r' hmem)
    | int n => exact Bool.noConfusion (unbroken_dumpsScalar (Or.inr rfl) '\r' hmem)
    | float x => exact Bool.noConfusion (unbroken_dumpsScalar (Or.inr rfl) '\r' hmem)
  have hmembers : ∀ ms : List (List Char × Scalar F), '\r' ∉ dumpsMembers false N (flat ms) := by
    intro ms
    induction ms with
    | nil => exact (by decide : '\r' ∉ ['}'])
    | cons m ms ih =>
        rw [flat, List.map_cons, ← flat, dumpsMembers]
        simp [hstring, hscalar, ih]
  intro hmem
  obtain ⟨i, -, hi⟩ := List.mem_flatMap.mp hmem
  have hvalue : entry N i = '{' :: (dumpsString false ['i', 'd'] ++ ':' :: ' ' ::
      (dumps false N (.scalar (.str i.id)) ++ dumpsMembers false N (flat i.members.tail))) ++
        ['\n'] := rfl
  rw [hvalue] at hi
  simp [hstring, hscalar, hmembers] at hi

end Texts

section Results

variable {N : FloatText F}

/-- `recent` reads the last lines of the log. -/
theorem recent_recorded (incidents : List (Incident F)) (limit : Nat) :
    recent N (recorded N incidents) limit =
      (lastLines (splitLines (log N incidents)) limit).mapM (loads N) := by
  cases incidents with
  | nil =>
      have hlines : lastLines [] limit = [] := by
        rw [lastLines, List.drop_nil, ite_self]
      have hnone : splitLines (log N []) = [] := rfl
      rw [hnone, hlines]
      rfl
  | cons i incidents =>
      rw [recorded_cons, recent, universalNewlines_eq_self (return_notMem_log _),
        splitLines_strip_log]

/-- The last lines of a text whose last lines are known. -/
theorem lastLines_append (lines late : List (List Char)) {limit : Nat} (hpos : 0 < limit)
    (hle : late.length ≤ limit) :
    ∃ front, lastLines (lines ++ late) limit = front ++ late ∧
      (late.length = limit ∨ lines = [] → front = []) := by
  refine ⟨lines.drop (lines.length + late.length - limit), ?_, ?_⟩
  · have hsplit : lines.length + late.length - limit ≤ lines.length := by omega
    rw [lastLines, if_neg (by omega), List.length_append, List.drop_append_of_le_length hsplit]
  · rintro (hall | rfl)
    · exact List.drop_eq_nil_iff.mpr (by omega)
    · exact List.drop_nil

/-- The last incident that is cut. -/
theorem last_broken {incidents : List (Incident F)} (h : ¬ ∀ i ∈ incidents, i.Clean) :
    ∃ pre i post, incidents = pre ++ i :: post ∧ ¬ i.Clean ∧ ∀ i ∈ post, i.Clean := by
  induction incidents with
  | nil => exact absurd (fun _ hi => nomatch hi) h
  | cons i incidents ih =>
      by_cases hrest : ∀ i ∈ incidents, i.Clean
      · exact ⟨[], i, incidents, rfl,
          fun hi => h (List.forall_mem_cons.mpr ⟨hi, hrest⟩), hrest⟩
      · obtain ⟨pre, j, post, rfl, hj, hpost⟩ := ih hrest
        exact ⟨i :: pre, j, post, rfl, hj, hpost⟩

/-- The last incidents read back exactly when none of them holds an unescaped line boundary.
Otherwise the rest of the last one that does stands on a line of its own. -/
theorem recent_iff (N : FloatText F) (incidents : List (Incident F)) (limit : Nat)
    (hpos : 0 < limit) :
    recent N (recorded N incidents) limit =
        some ((incidents.drop (incidents.length - limit)).map Incident.value) ↔
      ∀ i ∈ incidents.drop (incidents.length - limit), i.Clean := by
  rw [recent_recorded]
  have hsplit := List.take_append_drop (incidents.length - limit) incidents
  have hearly : (incidents.drop (incidents.length - limit)).length = limit ∨
      incidents.take (incidents.length - limit) = [] := by
    rcases Nat.lt_or_ge incidents.length limit with h | h
    · exact Or.inr (by rw [Nat.sub_eq_zero_of_le h.le, List.take_zero])
    · exact Or.inl (by rw [List.length_drop]; omega)
  have hlate : (incidents.drop (incidents.length - limit)).length ≤ limit := by
    rw [List.length_drop]
    omega
  generalize incidents.take (incidents.length - limit) = early at hsplit hearly
  generalize incidents.drop (incidents.length - limit) = late at hsplit hearly hlate ⊢
  subst hsplit
  rw [splitLines_log_append]
  constructor
  · intro hread
    by_contra hbroken
    obtain ⟨pre, i, post, rfl, hi, hpost⟩ := last_broken hbroken
    obtain ⟨front, last, hlines, -, hlast⟩ := splitLines_entry_of_broken (N := N) hi
    have hcut : splitLines (log N early) ++ splitLines (log N (pre ++ i :: post)) =
        (splitLines (log N early) ++ splitLines (log N pre) ++ front) ++
          last :: post.map fun i => dumps false N i.value := by
      rw [← List.singleton_append, splitLines_log_append, splitLines_log_append, hlines,
        splitLines_log_of_clean hpost]
      simp
    rw [List.length_append, List.length_cons] at hlate
    obtain ⟨front', hkept, -⟩ := lastLines_append
      (splitLines (log N early) ++ splitLines (log N pre) ++ front)
      (last :: post.map fun i => dumps false N i.value) hpos
      (by rw [List.length_cons, List.length_map]; omega)
    rw [hcut, hkept, mapM_loads_iff, List.map_append, List.map_cons, List.map_append,
      List.map_cons, List.map_append, List.map_cons] at hread
    obtain ⟨hvalue, -⟩ := List.cons.inj (List.append_inj_right' hread (by simp))
    exact List.cons_ne_nil _ _ (hlast _ hvalue)
  · intro hclean
    rw [splitLines_log_of_clean hclean]
    obtain ⟨front, hlines, hfront⟩ := lastLines_append (splitLines (log N early))
      (late.map fun i => dumps false N i.value) hpos (by rwa [List.length_map])
    have hall : (late.map fun i => dumps false N i.value).length = limit ∨
        splitLines (log N early) = [] := by
      rw [List.length_map]
      exact hearly.imp_right fun hnil => by rw [hnil]; rfl
    rw [hlines, hfront hall, List.nil_append, mapM_loads_iff, List.map_map, List.map_map]
    exact List.map_congr_left fun i _ => loads_dumps false i.value

/-- A plugin whose error has a line separator in it. -/
def separatedIncident : Incident Int where
  id := ['0', 'a', '1', 'b']
  ts := 1700000000
  plugin := ['m', 'e', 'm']
  chatId := ['7']
  phase := ['l', 'o', 'a', 'd']
  error := ['b', 'a', 'd', '\u2028', 'k', 'e', 'y']
  action := []
  hex := List.all_eq_true.mp rfl

/-- The next failure. -/
def plainIncident : Incident Int where
  id := ['0', 'a', '1', 'c']
  ts := 1700000060
  plugin := ['m', 'e', 'm']
  chatId := ['7']
  phase := ['l', 'o', 'a', 'd']
  error := ['b', 'a', 'd', ' ', 'k', 'e', 'y']
  action := ['o', 'f', 'f']
  hex := List.all_eq_true.mp rfl

/-- The log is written, and reading it raises. -/
theorem recent_raises :
    recent Cron.wholeSeconds (recorded Cron.wholeSeconds [separatedIncident]) 100 = none := by
  rfl

/-- What is asked for may still be read behind it. -/
theorem recent_one :
    0 < 1 ∧ recent Cron.wholeSeconds
      (recorded Cron.wholeSeconds [separatedIncident, plainIncident]) 1 =
        some [plainIncident.value] :=
  ⟨by decide,
    (recent_iff Cron.wholeSeconds [separatedIncident, plainIncident] 1 (by decide)).mpr
      (List.forall_mem_singleton.mpr
        (by decide : CleanText _ ∧ CleanText _ ∧ CleanText _ ∧ CleanText _ ∧ CleanText _))⟩

end Results

end Incidents
end Plugins
end DiploidAgent
