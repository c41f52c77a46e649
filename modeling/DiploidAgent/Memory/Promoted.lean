import DiploidAgent.Lib.Firsts
import DiploidAgent.Lib.Histories
import DiploidAgent.Lib.Words
import DiploidAgent.Memory.Recall

/-!
# The promoted pocket

`append` and `tidy` of `memory_promoted.py`: a fact that the pocket does not hold is written
behind the file, and then the lines with a key that was there before are dropped and the
oldest ones past the cap.

A line is written behind what is there, also when the last line is not ended, and a fact that
is there leaves the file as it is; apart from that the pocket keeps its facts
(`pocket_kept_iff`).
-/

namespace DiploidAgent
namespace Promoted

open Firsts Lines Text Words
open Histories (Throughout)
open Recall (universalNewlines universalNewlines_eq_self)

/-! ### The pocket -/

/-- The loop of `normalize_line`; there are at most as many rounds as characters. -/
def dropDashes : Nat → List Char → List Char
  | n + 1, '-' :: rest => dropDashes n (lstrip rest)
  | _, text => text

/-- `normalize_line`. -/
def normalizeLine (line : List Char) : List Char :=
  let text := strip line
  joinWords (words (dropDashes text.length text))

/-- The lines that are not blank. -/
def entries (raw : List Char) : List (List Char) :=
  (splitLines (universalNewlines raw)).filter fun line => strip line ≠ []

/-- `l[-n:]`. -/
def lastLines {α : Type} (n : Int) (l : List α) : List α :=
  if 0 < n then l.rtake n.toNat else l.drop n.natAbs

/-- `deduped[-max_lines:]` when there are more. -/
def cut {α : Type} (maxLines : Int) (l : List α) : List α :=
  if maxLines ≠ 0 ∧ maxLines < l.length then lastLines maxLines l else l

/-- The lines with a key, the first of each. -/
def dedupe (lines : List (List Char)) : List (List Char) :=
  firsts normalizeLine (fun key => key ≠ []) [] lines

/-- `tidy`. -/
def tidy (maxLines : Int) : Option (List Char) → Option (List Char)
  | none => none
  | some raw =>
      let lines := entries raw
      let deduped := cut maxLines (dedupe lines)
      if deduped = lines then some raw
      else some (['\n'].intercalate deduped ++ ['\n'])

/-- The line of a fact. -/
def bullet (content : List Char) : List Char := '-' :: ' ' :: strip content

def existing (file : Option (List Char)) : List (List Char) :=
  file.elim [] fun raw => (splitLines (universalNewlines raw)).map normalizeLine

/-- `append`. -/
def append (maxLines : Int) (file : Option (List Char)) (content : List Char) :
    Option (List Char) :=
  if normalizeLine content ∈ existing file then file
  else tidy maxLines (some (file.getD [] ++ (bullet content ++ ['\n'])))

/-! ### What is claimed -/

/-- A fact of a single line. -/
structure Fact where
  content : List Char
  unbroken : Unbroken (strip content)

def Fact.key (fact : Fact) : List Char := normalizeLine fact.content

/-- The keys of the lines of a pocket. -/
def keys (file : Option (List Char)) : List (List Char) :=
  (entries (file.getD [])).map normalizeLine

/-- The facts in the order of their first lines, and the appended one behind them. -/
def facts (file : Option (List Char)) (fact : Fact) : List (List Char) :=
  ((keys file).filter fun key => key ≠ []).eraseDups ++ [fact.key]

/-- One of the oldest, with as many facts behind it as the cap allows. -/
def Evicted (maxLines : Int) (file : Option (List Char)) (fact : Fact) (key : List Char) : Prop :=
  0 < maxLines ∧
    ∃ older newer, facts file fact = older ++ key :: newer ∧ maxLines ≤ newer.length

/-- Different keys, and no more lines than the cap. -/
def Tidy (maxLines : Int) (file : Option (List Char)) : Prop :=
  (keys file).Nodup ∧ (maxLines ≠ 0 → (keys file).length ≤ maxLines)

/-- What an append makes of a pocket. -/
structure Kept (maxLines : Int) (before : Option (List Char)) (fact : Fact)
    (after : Option (List Char)) : Prop where
  tidy : Tidy maxLines after
  present : fact.key ∈ keys after
  remain : ∀ key ∈ keys before, key ≠ [] → key ∈ keys after ∨ Evicted maxLines before fact key

/-- What stands behind the last line boundary. -/
def lastLine (raw : List Char) : List Char := raw.rtakeWhile fun c => !isBoundary c

/-- The condition on an append: a pocket that holds the fact is tidy, and another one has at
most dashes and white space behind its last line. -/
def AppendOk (maxLines : Int) (before : Option (List Char)) (fact : Fact) : Prop :=
  if fact.key ∈ keys before then Tidy maxLines before
  else fact.key ≠ [] ∧ 0 ≤ maxLines ∧ normalizeLine (lastLine (before.getD [])) = []

/-! ### Normal lines -/

section Normal

variable {line text content : List Char}

/-- A dash or white space. -/
def isMark (c : Char) : Bool := c == '-' || isSpace c

theorem dropWhile_isMark_lstrip (text : List Char) :
    (lstrip text).dropWhile isMark = text.dropWhile isMark := by
  induction text with
  | nil => rfl
  | cons c text ih =>
      by_cases hc : isSpace c = true
      · have hmark : isMark c = true := by simp [isMark, hc]
        rw [lstrip, List.dropWhile_cons_of_pos hc, List.dropWhile_cons_of_pos hmark]
        exact ih
      · rw [lstrip, List.dropWhile_cons_of_neg hc]

theorem head_lstrip (text : List Char) : ∀ c ∈ (lstrip text).head?, isSpace c = false := by
  intro c hc
  have hne : lstrip text ≠ [] := by
    rintro hnil
    rw [hnil] at hc
    cases hc
  rw [List.head?_eq_some_head hne] at hc
  obtain rfl := Option.some.inj hc
  exact List.head_dropWhile_not isSpace hne

theorem dropDashes_eq
    {n : Nat} (hn : text.length ≤ n) (hhead : ∀ c ∈ text.head?, isSpace c = false) :
    dropDashes n text = text.dropWhile isMark := by
  induction n generalizing text with
  | zero =>
      obtain rfl := List.length_eq_zero_iff.mp (Nat.le_zero.mp hn)
      rfl
  | succ n ih =>
      cases text with
      | nil => rfl
      | cons c text =>
          by_cases hc : c = '-'
          · subst hc
            have hmark : isMark '-' = true := rfl
            have hle : (lstrip text).length ≤ n :=
              (List.length_dropWhile_le _ _).trans (Nat.le_of_succ_le_succ hn)
            rw [dropDashes, ih hle (head_lstrip text), dropWhile_isMark_lstrip,
              List.dropWhile_cons_of_pos hmark]
          · have hmark : isMark c = false := by
              simp [isMark, hc, hhead c rfl]
            rw [List.dropWhile_cons_of_neg (by simp [hmark]), dropDashes]
            exact fun _ rest _ heq => hc (List.cons.inj heq).1

/-- The key of a line. -/
theorem normalizeLine_eq (line : List Char) :
    normalizeLine line = joinWords (words (line.dropWhile isMark)) := by
  have hpre : strip line <+: lstrip line := List.rdropWhile_prefix isSpace (lstrip line)
  have hhead : ∀ c ∈ (strip line).head?, isSpace c = false := by
    intro c hc
    obtain ⟨rest, hrest⟩ := List.head?_eq_some_iff.mp hc
    obtain ⟨more, hmore⟩ := hpre
    refine head_lstrip line c ?_
    rw [← hmore, hrest]
    rfl
  have hspace : ∃ ws, lstrip line = strip line ++ ws ∧ ∀ c ∈ ws, isSpace c = true :=
    ⟨(lstrip line).rtakeWhile isSpace, List.rdropWhile_append_rtakeWhile.symm,
      fun c hc => List.mem_rtakeWhile_imp hc⟩
  obtain ⟨ws, hws, hall⟩ := hspace
  have hall' : ∀ c ∈ ws, isMark c = true := fun c hc => by simp [isMark, hall c hc]
  dsimp only [normalizeLine]
  rw [dropDashes_eq le_rfl hhead, ← dropWhile_isMark_lstrip line, hws, List.dropWhile_append]
  split
  next hempty =>
    rw [List.isEmpty_iff.mp hempty, List.dropWhile_eq_nil_iff.mpr hall']
  next => rw [words_append_space hall]

theorem normalizeLine_strip (content : List Char) :
    normalizeLine (strip content) = normalizeLine content := by
  unfold normalizeLine
  rw [strip_strip]

theorem visible_normalizeLine (line : List Char) :
    visible (normalizeLine line) = visible (line.dropWhile isMark) := by
  rw [normalizeLine_eq, visible_joinWords_words]

/-- A line without a key. -/
theorem normalizeLine_eq_nil_iff : normalizeLine line = [] ↔ ∀ c ∈ line, isMark c = true := by
  rw [← List.dropWhile_eq_nil_iff]
  constructor
  · intro h
    have hvisible := visible_normalizeLine line
    rw [h] at hvisible
    cases hrest : line.dropWhile isMark with
    | nil => rfl
    | cons c rest =>
        have hne : line.dropWhile isMark ≠ [] := hrest ▸ List.cons_ne_nil c rest
        have hnot := List.head_dropWhile_not isMark hne
        have hspace := visible_eq_nil_iff.mp hvisible.symm c (hrest ▸ List.mem_cons_self)
        simp [hrest, isMark, hspace] at hnot
  · intro h
    rw [normalizeLine_eq, h]
    rfl

theorem normalizeLine_of_blank
    (h : strip line = []) :
    normalizeLine line = [] :=
  normalizeLine_eq_nil_iff.mpr fun c hc => by simp [isMark, isSpace_of_strip_eq_nil h c hc]

/-- A fact behind dashes has its own key. -/
theorem normalizeLine_bullet
    (h : normalizeLine line = []) :
    normalizeLine (line ++ bullet content) = normalizeLine content := by
  have hmarks : ∀ c ∈ line ++ ['-', ' '], isMark c = true := by
    intro c hc
    rcases List.mem_append.mp hc with hc | hc
    · exact normalizeLine_eq_nil_iff.mp h c hc
    · exact List.all_eq_true.mp (by decide : ['-', ' '].all isMark = true) c hc
  have hshape : line ++ bullet content = (line ++ ['-', ' ']) ++ strip content := by
    simp [bullet]
  rw [← normalizeLine_strip content, normalizeLine_eq, hshape, List.dropWhile_append,
    List.dropWhile_eq_nil_iff.mpr hmarks, normalizeLine_eq]
  rfl

/-- A fact behind a line that is not ended has another key. -/
theorem normalizeLine_bullet_ne
    (h : normalizeLine line ≠ []) :
    normalizeLine (line ++ bullet content) ≠ normalizeLine content := by
  intro heq
  have hrest : line.dropWhile isMark ≠ [] := fun hnil =>
    h (normalizeLine_eq_nil_iff.mpr (List.dropWhile_eq_nil_iff.mp hnil))
  have hvisible := congrArg visible heq
  rw [← normalizeLine_strip content, visible_normalizeLine, visible_normalizeLine,
    List.dropWhile_append, if_neg (by simpa using hrest), visible_append] at hvisible
  have hlen := congrArg List.length hvisible
  have hdash : visible (bullet content) = '-' :: visible (strip content) := rfl
  have hle : (visible ((strip content).dropWhile isMark)).length ≤
      (visible (strip content)).length :=
    ((List.dropWhile_sublist isMark).filter _).length_le
  rw [List.length_append, hdash, List.length_cons] at hlen
  omega

end Normal

/-! ### The lines of a pocket -/

section Pocket

variable {maxLines : Int} {file : Option (List Char)} {fact : Fact} {raw content : List Char}

theorem splitLines_universalNewlines (raw : List Char) :
    splitLines (universalNewlines raw) = splitLines raw := by
  have hhead : ∀ l : List Char, l.head? ≠ some '\n' →
      splitLines ('\r' :: l) = [] :: splitLines l := fun l hl =>
    splitLines_cons fun h => hl h.2
  have hfeed : ∀ l : List Char, splitLines ('\n' :: l) = [] :: splitLines l := fun l =>
    splitLines_cons_of_boundary rfl (by decide) l
  fun_induction universalNewlines raw with
  | case1 => rfl
  | case2 rest ih => rw [hfeed, splitLines_pair, ih]
  | case3 rest hpair ih =>
      have hnot : rest.head? ≠ some '\n' := fun h => by
        obtain ⟨rest', rfl⟩ := List.head?_eq_some_iff.mp h
        exact hpair rest' rfl
      rw [hfeed, hhead rest hnot, ih]
  | case4 c rest hpair hreturn ih =>
      have hc : c ≠ '\r' := fun h => hreturn h
      rw [splitLines_cons fun h => hc h.1, splitLines_cons fun h => hc h.1, ih]

theorem entries_eq (raw : List Char) :
    entries raw = (splitLines raw).filter fun line => strip line ≠ [] := by
  rw [entries, splitLines_universalNewlines]

/-- The text up to the last boundary. -/
def ended (raw : List Char) : List Char := raw.rdropWhile fun c => !isBoundary c

theorem ended_append_lastLine (raw : List Char) : ended raw ++ lastLine raw = raw :=
  List.rdropWhile_append_rtakeWhile

theorem ended_ended (raw : List Char) : Ended (ended raw) := by
  intro c hc
  have hne : ended raw ≠ [] := fun hnil => by
    rw [hnil] at hc
    cases hc
  rw [List.getLast?_eq_some_getLast hne] at hc
  obtain rfl := Option.some.inj hc
  have hlast := List.rdropWhile_last_not (fun c => !isBoundary c) raw hne
  rw [Bool.not_eq_true, Bool.not_eq_false'] at hlast
  exact hlast

theorem unbroken_lastLine (raw : List Char) : Unbroken (lastLine raw) := fun c hc => by
  simpa using List.mem_rtakeWhile_imp hc

theorem unbroken_bullet (fact : Fact) : Unbroken (bullet fact.content) :=
  unbroken_cons.mpr ⟨rfl, unbroken_cons.mpr ⟨rfl, fact.unbroken⟩⟩

/-- A line of its own behind the last boundary. -/
theorem splitLines_lastLine (raw : List Char) :
    splitLines raw = splitLines (ended raw) ++
      if lastLine raw = [] then [] else [lastLine raw] := by
  have hhead : (lastLine raw).head? ≠ some '\n' := fun h => by
    have hmem := List.mem_of_head? h
    cases unbroken_lastLine raw _ hmem
  conv_lhs => rw [← ended_append_lastLine raw]
  rw [splitLines_append_of_ended _ hhead _ (ended_ended raw)]
  split
  next hnil => rw [hnil]; rfl
  next hne => rw [splitLines_of_unbroken (unbroken_lastLine raw) hne]

theorem splitLines_append_bullet (raw : List Char) (fact : Fact) :
    splitLines (raw ++ (bullet fact.content ++ ['\n'])) =
      splitLines (ended raw) ++ [lastLine raw ++ bullet fact.content] := by
  have hline : Unbroken (lastLine raw ++ bullet fact.content) :=
    unbroken_append.mpr ⟨unbroken_lastLine raw, unbroken_bullet fact⟩
  have hhead : (lastLine raw ++ bullet fact.content ++ ['\n']).head? ≠ some '\n' := fun h => by
    rw [List.head?_append_of_ne_nil _ (by simp [bullet])] at h
    cases hline _ (List.mem_of_head? h)
  conv_lhs => rw [← ended_append_lastLine raw]
  rw [List.append_assoc, ← List.append_assoc (lastLine raw),
    splitLines_append_of_ended _ hhead _ (ended_ended raw),
    splitLines_append_boundary hline rfl (by decide)]
  rfl

theorem strip_bullet_ne_nil (line content : List Char) : strip (line ++ bullet content) ≠ [] := by
  intro h
  have hdash := isSpace_of_strip_eq_nil h '-' (by simp [bullet])
  cases hdash

/-- The keys of the ended lines, and what the last line adds. -/
def endedKeys (raw : List Char) : List (List Char) := (entries (ended raw)).map normalizeLine

theorem keys_some (raw : List Char) :
    keys (some raw) = endedKeys raw ++
      if strip (lastLine raw) = [] then [] else [normalizeLine (lastLine raw)] := by
  rw [keys, Option.getD_some, entries_eq, splitLines_lastLine, List.filter_append,
    List.map_append, endedKeys, entries_eq]
  congr 1
  by_cases hnil : lastLine raw = []
  · rw [if_pos hnil, hnil]
    rfl
  · rw [if_neg hnil]
    by_cases hblank : strip (lastLine raw) = []
    · rw [if_pos hblank, List.filter_cons_of_neg (by simpa using hblank)]
      rfl
    · rw [if_neg hblank, List.filter_cons_of_pos (by simpa using hblank)]
      rfl

theorem keys_append_bullet (raw : List Char) (fact : Fact) :
    (entries (raw ++ (bullet fact.content ++ ['\n']))).map normalizeLine =
      endedKeys raw ++ [normalizeLine (lastLine raw ++ bullet fact.content)] := by
  rw [entries_eq, splitLines_append_bullet, List.filter_append, List.map_append, endedKeys,
    entries_eq, List.filter_cons_of_pos (by simpa using strip_bullet_ne_nil _ _)]
  rfl

/-! ### Tidying -/

theorem cut_suffix {α : Type} (maxLines : Int) (l : List α) : cut maxLines l <:+ l := by
  unfold cut lastLines
  split
  · split
    · exact List.drop_suffix _ _
    · exact List.drop_suffix _ _
  · exact List.suffix_rfl

theorem map_cut {α β : Type} (f : α → β) (maxLines : Int) (l : List α) :
    (cut maxLines l).map f = cut maxLines (l.map f) := by
  unfold cut lastLines
  rw [List.length_map]
  split
  · split
    · rw [List.rtake, List.rtake, List.map_drop, List.length_map]
    · rw [List.map_drop]
  · rfl

/-- A tidied pocket has the lines that are kept. -/
theorem entries_tidy (maxLines : Int) (raw : List Char) :
    entries ((tidy maxLines (some raw)).getD []) = cut maxLines (dedupe (entries raw)) := by
  have hsub : (cut maxLines (dedupe (entries raw))).Sublist (entries raw) :=
    (cut_suffix _ _).sublist.trans (firsts_sublist [] (entries raw))
  dsimp only [tidy]
  split
  next hsame => exact hsame.symm
  next =>
    rw [Option.getD_some, entries_eq]
    by_cases hnil : cut maxLines (dedupe (entries raw)) = []
    · rw [hnil]
      rfl
    · have hmem : ∀ line ∈ cut maxLines (dedupe (entries raw)),
          line ∈ splitLines raw ∧ strip line ≠ [] := by
        intro line hline
        have h := hsub.subset hline
        rw [entries_eq, List.mem_filter] at h
        simpa using h
      rw [splitLines_intercalate hnil fun line h => unbroken_of_mem_splitLines (hmem line h).1,
        List.filter_eq_self]
      exact fun line h => by simpa using (hmem line h).2

/-- The keys of the lines, the first of each. -/
def firstKeys (ks : List (List Char)) : List (List Char) :=
  (ks.filter fun key => key ≠ []).eraseDups

theorem map_dedupe (lines : List (List Char)) :
    (dedupe lines).map normalizeLine = firstKeys (lines.map normalizeLine) := by
  rw [dedupe, map_firsts, firstKeys]
  simp

theorem mem_firstKeys {ks : List (List Char)} {key : List Char} :
    key ∈ firstKeys ks ↔ key ∈ ks ∧ key ≠ [] := by
  simp [firstKeys]

theorem nodup_firstKeys (ks : List (List Char)) : (firstKeys ks).Nodup := by
  have h : ((firsts id (fun key : List Char => key ≠ []) [] ks).map id).Nodup :=
    nodup_map_firsts [] ks
  rw [map_firsts] at h
  simpa [firstKeys] using h

section Cut

variable {α : Type} {l : List α} {a : α}

theorem cut_of_nonneg
    (h : 0 ≤ maxLines) :
    (maxLines = 0 ∧ cut maxLines l = l) ∨
      (0 < maxLines ∧ cut maxLines l = l.rtake maxLines.toNat) := by
  have hcases : 0 = maxLines ∨ 0 < maxLines := by omega
  unfold cut lastLines
  rcases hcases with rfl | hpos
  · exact Or.inl ⟨rfl, rfl⟩
  · refine Or.inr ⟨hpos, ?_⟩
    split
    · rfl
    next hfew => rw [Rolling.rtake_of_length_le (by omega)]

theorem length_cut_le
    (h : 0 ≤ maxLines) (hne : maxLines ≠ 0) :
    (cut maxLines l).length ≤ maxLines := by
  obtain ⟨hpos, heq⟩ := (cut_of_nonneg (l := l) h).resolve_left fun h => hne h.1
  rw [heq, Rolling.length_rtake]
  omega

theorem mem_cut_concat
    (h : 0 ≤ maxLines) :
    a ∈ cut maxLines (l ++ [a]) := by
  rcases cut_of_nonneg (l := l ++ [a]) h with ⟨_, heq⟩ | ⟨hpos, heq⟩
  · rw [heq]
    exact List.mem_concat_self
  · have hle : (l ++ [a]).length - maxLines.toNat ≤ l.length := by
      rw [List.length_append, List.length_singleton]
      omega
    rw [heq, List.rtake, List.drop_append_of_le_length hle]
    exact List.mem_concat_self

theorem mem_cut_or
    (h : 0 ≤ maxLines) (ha : a ∈ l) :
    a ∈ cut maxLines l ∨
      (0 < maxLines ∧ ∃ older newer, l = older ++ a :: newer ∧ maxLines ≤ newer.length) := by
  by_cases hkept : a ∈ cut maxLines l
  · exact Or.inl hkept
  · rcases cut_of_nonneg (l := l) h with ⟨_, heq⟩ | ⟨hpos, heq⟩
    · rw [heq] at hkept
      exact absurd ha hkept
    · rw [heq] at hkept
      obtain ⟨older, newer, heq, hlen⟩ := exists_of_notMem_rtake ha hkept
      exact Or.inr ⟨hpos, older, newer, heq, by omega⟩

end Cut

/-! ### Appending -/

theorem keys_getD (file : Option (List Char)) : keys (some (file.getD [])) = keys file := rfl

theorem mem_existing_of_mem_keys {key : List Char} (h : key ∈ keys file) : key ∈ existing file := by
  cases file with
  | none => cases h
  | some raw =>
      obtain ⟨line, hline, rfl⟩ := List.mem_map.mp h
      exact List.mem_map_of_mem (List.mem_filter.mp hline).1

/-- A key is that of a line which is not blank. -/
theorem mem_keys_of_mem_existing {key : List Char} (hne : key ≠ []) (h : key ∈ existing file) :
    key ∈ keys file := by
  cases file with
  | none => cases h
  | some raw =>
      obtain ⟨line, hline, rfl⟩ := List.mem_map.mp h
      refine List.mem_map_of_mem (List.mem_filter.mpr ⟨hline, ?_⟩)
      simpa using fun hblank => hne (normalizeLine_of_blank hblank)

theorem append_of_mem_keys
    (h : fact.key ∈ keys file) :
    append maxLines file fact.content = file :=
  if_pos (mem_existing_of_mem_keys h)

/-- The keys behind an append that writes. -/
theorem keys_append
    (h : fact.key ∉ existing file) :
    keys (append maxLines file fact.content) =
      cut maxLines (firstKeys (endedKeys (file.getD []) ++
        [normalizeLine (lastLine (file.getD []) ++ bullet fact.content)])) := by
  have hwrite : append maxLines file fact.content =
      tidy maxLines (some (file.getD [] ++ (bullet fact.content ++ ['\n']))) := if_neg h
  rw [hwrite, keys, entries_tidy, map_cut, map_dedupe, keys_append_bullet]

theorem mem_keys_append
    (hout : fact.key ∉ keys file) (h : fact.key ∈ keys (append maxLines file fact.content)) :
    fact.key ≠ [] ∧ normalizeLine (lastLine (file.getD [])) = [] := by
  by_cases hexisting : fact.key ∈ existing file
  · have hsame : append maxLines file fact.content = file := if_pos hexisting
    exact absurd (hsame ▸ h) hout
  · rw [keys_append hexisting] at h
    obtain ⟨hmem, hne⟩ := mem_firstKeys.mp ((cut_suffix _ _).subset h)
    refine ⟨hne, ?_⟩
    by_contra hglued
    rcases List.mem_append.mp hmem with hended | hlast
    · refine hout ?_
      rw [← keys_getD, keys_some]
      exact List.mem_append_left _ hended
    · exact normalizeLine_bullet_ne hglued (List.mem_singleton.mp hlast).symm

/-- What an append that writes leaves, when nothing stands behind the last boundary. -/
theorem keys_append_eq_cut_facts
    (maxLines : Int) (hout : fact.key ∉ keys file) (hne : fact.key ≠ [])
    (hlast : normalizeLine (lastLine (file.getD [])) = []) :
    keys (append maxLines file fact.content) = cut maxLines (facts file fact) ∧
      (facts file fact).Nodup := by
  have hkeys : (keys file).filter (fun key => key ≠ []) =
      (endedKeys (file.getD [])).filter fun key => key ≠ [] := by
    rw [← keys_getD, keys_some, List.filter_append, hlast]
    split
    · rw [List.filter_nil, List.append_nil]
    · rw [List.filter_cons_of_neg (by simp), List.filter_nil, List.append_nil]
  have hfacts : firstKeys (endedKeys (file.getD []) ++ [fact.key]) = facts file fact := by
    have hnew : [fact.key].removeAll ((keys file).filter fun key => key ≠ []) = [fact.key] := by
      simp [List.removeAll, hout]
    rw [firstKeys, List.filter_append, ← hkeys, List.filter_cons_of_pos (by simpa using hne),
      List.filter_nil, List.eraseDups_append, hnew]
    rfl
  have hexisting : fact.key ∉ existing file := fun h => hout (mem_keys_of_mem_existing hne h)
  rw [keys_append hexisting, normalizeLine_bullet hlast]
  exact ⟨congrArg _ hfacts, hfacts ▸ nodup_firstKeys _⟩

/-- **One append.**  It keeps the pocket under its condition, and only then. -/
theorem append_kept_iff (maxLines : Int) (file : Option (List Char)) (fact : Fact) :
    Kept maxLines file fact (append maxLines file fact.content) ↔
      AppendOk maxLines file fact := by
  unfold AppendOk
  by_cases hmem : fact.key ∈ keys file
  · rw [if_pos hmem, append_of_mem_keys hmem]
    exact ⟨fun h => h.tidy, fun h => ⟨h, hmem, fun key hkey _ => Or.inl hkey⟩⟩
  · rw [if_neg hmem]
    constructor
    · intro h
      obtain ⟨hne, hlast⟩ := mem_keys_append hmem h.present
      refine ⟨hne, ?_, hlast⟩
      by_contra hneg
      have hlen := h.tidy.2 (by omega)
      omega
    · rintro ⟨hne, hcap, hlast⟩
      obtain ⟨hkeys, hnodup⟩ := keys_append_eq_cut_facts maxLines hmem hne hlast
      refine ⟨⟨?_, fun hset => ?_⟩, ?_, fun key hkey hkne => ?_⟩
      · exact hkeys ▸ hnodup.sublist (cut_suffix _ _).sublist
      · exact hkeys ▸ length_cut_le hcap hset
      · exact hkeys ▸ mem_cut_concat hcap
      · have hfact : key ∈ facts file fact :=
          List.mem_append_left _ (mem_firstKeys.mpr ⟨hkey, hkne⟩)
        exact hkeys ▸ mem_cut_or hcap hfact

/-! ### Runs -/

/-- After every append of a run the pocket is kept, just when every append meets its
condition in the state it is made in. -/
theorem pocket_kept_iff (maxLines : Int) (file : Option (List Char)) (calls : List Fact) :
    Throughout (fun f fact => append maxLines f fact.content)
        (fun f fact => Kept maxLines f fact (append maxLines f fact.content)) file calls ↔
      Throughout (fun f fact => append maxLines f fact.content) (AppendOk maxLines) file
        calls := by
  unfold Throughout
  simp only [append_kept_iff]

theorem lastLine_concat_newline (raw : List Char) : lastLine (raw ++ ['\n']) = [] :=
  List.rtakeWhile_concat_neg _ _ _ (by decide)

/-- What an append writes ends its last line. -/
theorem lastLine_append
    (h : fact.key ∉ existing file) :
    lastLine ((append maxLines file fact.content).getD []) = [] := by
  have hwrite : append maxLines file fact.content =
      tidy maxLines (some (file.getD [] ++ (bullet fact.content ++ ['\n']))) := if_neg h
  rw [hwrite]
  dsimp only [tidy]
  split
  · rw [Option.getD_some, ← List.append_assoc]
    exact lastLine_concat_newline _
  · exact lastLine_concat_newline _

/-- A tidy pocket with an ended last line. -/
def Good (maxLines : Int) (file : Option (List Char)) : Prop :=
  Tidy maxLines file ∧ normalizeLine (lastLine (file.getD [])) = []

theorem Good.appendOk
    (h : Good maxLines file) (hcap : 0 ≤ maxLines) (hne : fact.key ≠ []) :
    AppendOk maxLines file fact := by
  unfold AppendOk
  split
  · exact h.1
  · exact ⟨hne, hcap, h.2⟩

theorem Good.append
    (h : Good maxLines file) (hcap : 0 ≤ maxLines) (hne : fact.key ≠ []) :
    Good maxLines (append maxLines file fact.content) := by
  by_cases hmem : fact.key ∈ keys file
  · rwa [append_of_mem_keys hmem]
  · have hkept := (append_kept_iff maxLines file fact).mpr (h.appendOk hcap hne)
    refine ⟨hkept.tidy, ?_⟩
    rw [lastLine_append fun hexisting => hmem (mem_keys_of_mem_existing hne hexisting)]
    rfl

/-- **Runs.**  A good pocket keeps all facts that have a key. -/
theorem kept_of_good
    {calls : List Fact} (h : Good maxLines file) (hcap : 0 ≤ maxLines)
    (hkeys : ∀ fact ∈ calls, fact.key ≠ []) :
    Throughout (fun f fact => append maxLines f fact.content)
      (fun f fact => Kept maxLines f fact (append maxLines f fact.content)) file calls := by
  have hmem : ∀ {before fact}, before ++ [fact] <+: calls → fact ∈ calls := fun hprefix =>
    hprefix.subset (List.mem_append_right _ List.mem_cons_self)
  rw [pocket_kept_iff]
  intro before fact hprefix
  have hbefore : Throughout (fun f fact => append maxLines f fact.content)
      (fun _ fact => fact.key ≠ []) file before := fun earlier fact hearlier =>
    hkeys fact (hmem ((hearlier.trans (List.prefix_append before [_])).trans hprefix))
  have hgood : Good maxLines (before.foldl (fun f fact => append maxLines f fact.content) file) :=
    hbefore.keeps h fun f fact hf hne => hf.append hcap hne
  exact hgood.appendOk hcap (hkeys fact (hmem hprefix))

def factOf (content : String) (h : Unbroken (strip content.toList)) : Fact :=
  ⟨content.toList, h⟩

/-- The last line of the file is not ended: the new fact and the old one are lost. -/
theorem glued_to_last_line :
    let file := some "- tea".toList
    let fact := factOf "milk" (by decide)
    append 20 file fact.content = some "- tea- milk\n".toList ∧
      ¬ Throughout (fun f fact => append 20 f fact.content)
        (fun f fact => Kept 20 f fact (append 20 f fact.content)) file [fact] := by
  refine ⟨by decide +kernel, fun h => ?_⟩
  have hpresent := (h [] (factOf "milk" (by decide)) List.prefix_rfl).present
  exact absurd hpresent (by decide +kernel)

end Pocket

end Promoted
end DiploidAgent
