import DiploidAgent.Telegram.Blocks
import DiploidAgent.Telegram.SplitBudget
import DiploidAgent.Telegram.SplitFences
import Mathlib.Logic.Function.Iterate

/-!
# The texts of the calls

`_send_text_locked` of `transport/telegram/sender.py`: the display text of a reply is split,
every chunk of several gets its marker, and what does not fit is cut off twice, behind the
room that the marker leaves and behind 4096 characters.  A file that cannot be delivered is
named in a text of its own.

Telegram counts UTF-16 code units, but the plain format counts characters.  With markdown a
text always fits, and only a chunk of a pass without room can lose something; the plain
format needs room for what its characters beyond the first plane take twice (`fits_iff`).
-/

namespace DiploidAgent
namespace Telegram
namespace SendTexts

open Bisect SplitText

variable {F : Type}

/-! ### The texts -/

inductive MessageFormat where
  | plain
  | markdown
deriving DecidableEq

/-- What the functions are given: the format with `format_markdown_v2`, the characters that
`\d` and `\w` stand for, and which files are delivered. -/
structure Gateway (F : Type) where
  python : Python F
  format : MessageFormat
  formatMarkdown : List Char → List Char
  isDecimal : Char → Bool
  isWord : Char → Bool
  delivered : FileRef → Bool

def lenFn : MessageFormat → LenFn
  | .plain => .len
  | .markdown => .utf16

def limits (f : MessageFormat) : Limits := ⟨4096, lenFn f, 16⟩

/-- `_prefix_within_utf16_limit`. -/
def prefixWithinUtf16Limit (s : List Char) (limit : Int) : List Char :=
  if utf16Len s ≤ limit then s
  else s.take (bisect (fun mid => (utf16Len (s.take mid) : Int) ≤ limit) s.length 0 s.length)

/-- `s[:n]`. -/
def sliceTo (s : List Char) (n : Int) : List Char :=
  if 0 ≤ n then s.take n.toNat else s.take (s.length - n.natAbs)

/-- The marker of the `i`-th chunk. -/
def indicator (f : MessageFormat) (i total : Nat) : List Char :=
  let counts := Nat.toDigits 10 i ++ '/' :: Nat.toDigits 10 total
  match f with
  | .plain => " (".toList ++ counts ++ [')']
  | .markdown => " \\(".toList ++ counts ++ "\\)".toList

def dropBackslash : List Char → List Char
  | '\\' :: rest => rest
  | rest => rest

/-- `(?:\\)?\(\d+/\d+(?:\\)?\)` up to the end of the line. -/
def isIndicator (isDecimal : Char → Bool) (s : List Char) : Bool :=
  match dropBackslash s with
  | '(' :: rest =>
      !(rest.takeWhile isDecimal).isEmpty &&
        match rest.dropWhile isDecimal with
        | '/' :: rest =>
            !(rest.takeWhile isDecimal).isEmpty &&
              decide (dropBackslash (rest.dropWhile isDecimal) = [')'])
        | _ => false
  | _ => false

def separateLine (isDecimal : Char → Bool) (line : List Char) : List Char :=
  if (ticks ++ [' ']).isPrefixOf line && isIndicator isDecimal (line.drop 4) then
    ticks ++ '\n' :: line.drop 4
  else line

/-- `separate_chunk_indicator_from_fence`; the expression matches whole lines. -/
def separateChunkIndicatorFromFence (isDecimal : Char → Bool) (text : List Char) : List Char :=
  ['\n'].intercalate ((text.splitOn '\n').map (separateLine isDecimal))

/-- The marker of a chunk; there is none for a single chunk. -/
def marker (f : MessageFormat) (total i : Nat) : List Char :=
  if 1 < total then indicator f i total else []

/-- The chunk in the room that its marker leaves. -/
def cutChunk (f : MessageFormat) (total : Nat) (c : List Char × Nat) : List Char :=
  let maxChunk := 4096 - (lenFn f).length (marker f total c.2)
  if 1 < total ∧ maxChunk < (lenFn f).length c.1 then
    match f with
    | .plain => sliceTo c.1 maxChunk
    | .markdown => prefixWithinUtf16Limit c.1 maxChunk
  else c.1

/-- What is sent for a chunk. -/
def content (g : Gateway F) (total : Nat) (c : List Char × Nat) : List Char :=
  if 1 < total then
    separateChunkIndicatorFromFence g.isDecimal (cutChunk g.format total c ++
      marker g.format total c.2)
  else c.1

/-! ### Without markdown -/

def isSpecial (c : Char) : Bool := "_*[]()~`>#+-=|\x7b\x7d.!\\".toList.contains c

/-- The backslashes that escape are taken off. -/
def unescape : List Char → List Char
  | '\\' :: c :: rest => if isSpecial c then c :: unescape rest else '\\' :: unescape (c :: rest)
  | c :: rest => c :: unescape rest
  | [] => []

/-- What stands between two delimiters, without the first character of these. -/
def wrapped (delim : List Char) (after : Option Char → Bool) (text : List Char) :
    Option (List Char × List Char) :=
  let inner := fun c => decide (delim.head? ≠ some c)
  let rest := (text.drop delim.length).dropWhile inner
  if delim <+: text ∧ (text.drop delim.length).takeWhile inner ≠ [] ∧ delim <+: rest ∧
      after (rest.drop delim.length).head? then
    some ((text.drop delim.length).takeWhile inner, rest.drop delim.length)
  else none

/-- The delimiters around a text are taken off; the fuel is more than its length. -/
def unwrap (delim : List Char) (before after : Option Char → Bool) :
    Nat → Option Char → List Char → List Char
  | 0, _, text => text
  | _ + 1, _, [] => []
  | n + 1, prev, c :: rest =>
      match if before prev then wrapped delim after (c :: rest) else none with
      | some (inner, rest') => inner ++ unwrap delim before after n delim.getLast? rest'
      | none => c :: unwrap delim before after n (some c) rest

def unwrapAll (delim : List Char) (beside : Option Char → Bool) (text : List Char) : List Char :=
  unwrap delim beside beside (text.length + 1) none text

/-- `_strip_mdv2`. -/
def stripMdv2 (isWord : Char → Bool) (text : List Char) : List Char :=
  let anywhere := fun _ => true
  let noWord := fun c : Option Char => !c.any isWord
  let bold := unwrapAll ['*'] anywhere (unwrapAll ['*', '*'] anywhere (unescape text))
  unwrapAll ['|', '|'] anywhere (unwrapAll ['~'] anywhere (unwrapAll ['_'] noWord bold))

/-! ### The calls -/

/-- How a call ends. -/
inductive Outcome where
  | ok
  | parseError
  | failed
deriving DecidableEq

section Calls

variable (api : Nat → Outcome)

/-- `_send_message`, with the texts of the calls so far; whether there is an id. -/
def sendMessage (isWord : Char → Bool) (markdown : Bool) (calls : List (List Char))
    (text : List Char) : Bool × List (List Char) :=
  let sent := calls ++ [text.take 4096]
  match api calls.length with
  | .ok => (true, sent)
  | .failed => (false, sent)
  | .parseError =>
      if markdown then
        (api sent.length = .ok, sent ++ [(stripMdv2 isWord (text.take 4096)).take 4096])
      else (false, sent)

/-- `_edit_message_text`, without markdown. -/
def editMessageText (calls : List (List Char)) (text : List Char) : Bool × List (List Char) :=
  if text.take 4096 = [] then (false, calls)
  else (api calls.length = .ok, calls ++ [text.take 4096])

/-- The contents in order, up to the first one that is not sent. -/
def sendContents (isWord : Char → Bool) (markdown : Bool) :
    List (List Char) → List (List Char) → List (List Char)
  | calls, [] => calls
  | calls, c :: contents =>
      let r := sendMessage api isWord markdown calls c
      if r.1 then sendContents isWord markdown r.2 contents else r.2

/-- The first content goes into the given message, if there is one. -/
def placeContents (isWord : Char → Bool) (markdown edits : Bool) (contents : List (List Char)) :
    List (List Char) :=
  match edits, contents with
  | true, c :: rest =>
      let r := editMessageText api [] c
      sendContents api isWord markdown r.2 (if r.1 then rest else c :: rest)
  | _, _ => sendContents api isWord markdown [] contents

def fileText (ref : FileRef) : List Char :=
  "[file] ".toList ++ ref.path ++ (if ref.caption = [] then [] else '\n' :: ref.caption)

/-- `_maybe_send_files`: its texts. -/
def sendFiles (g : Gateway F) : List (List Char) → List FileRef → List (List Char)
  | calls, [] => calls
  | calls, ref :: refs =>
      if g.delivered ref then sendFiles g calls refs
      else sendFiles g (sendMessage api g.isWord false calls (fileText ref)).2 refs

end Calls

/-- A text before it is sent. -/
structure Prepared where
  ask : Option AskBlock
  formatted : List Char
  chunks : List (List Char)
  files : List FileRef

/-- The display text, the question and the files; looking for a question may raise an
error. -/
def extract (g : Gateway F) (text : List Char) :
    Option (List Char × Option AskBlock × List FileRef) :=
  if text = [] then some ([], none, [])
  else
    (extractAskBlock g.python text).map fun r =>
      let files := extractFileBlocks (extractSayBlock r.1).1
      (files.1, r.2, files.2)

def prepare (g : Gateway F) (fuel : Nat) (text : List Char) : Option Prepared :=
  (extract g text).bind fun e =>
    let formatted :=
      match g.format with
      | .plain => e.1
      | .markdown => g.formatMarkdown e.1
    (if e.1 = [] then some [] else splitTelegramText (limits g.format) fuel formatted).map
      fun chunks =>
        { ask := e.2.1
          formatted := formatted
          chunks := chunks
          files := e.2.2 }

/-- The chunks with their numbers. -/
def Prepared.numbered (p : Prepared) : List (List Char × Nat) := p.chunks.zipIdx 1

def contents (g : Gateway F) (p : Prepared) : List (List Char) :=
  p.numbered.map (content g p.chunks.length)

/-- `_send_text_locked`: the texts of its calls, where `first` tells whether a message is
given; `none` where an error is raised or the split has not ended after so many passes. -/
def sendTextLocked (g : Gateway F) (api : Nat → Outcome) (fuel : Nat) (first : Bool)
    (text : List Char) : Option (List (List Char)) :=
  (prepare g fuel text).map fun p =>
    let markdown := decide (g.format = .markdown)
    let edits := first && p.ask.isNone && !markdown
    sendFiles api g (placeContents api g.isWord markdown edits (contents g p)) p.files

/-! ### What is claimed -/

section Claimed

variable (g : Gateway F) (fuel : Nat)

/-- Nothing of a chunk is cut off. -/
structure Whole (total : Nat) (c : List Char × Nat) : Prop where
  room : cutChunk g.format total c = c.1
  slice : (content g total c).take 4096 = content g total c

/-- Every text fits, however the calls end, and no chunk is cut. -/
structure Fits (first : Bool) (text : List Char) : Prop where
  short : ∀ api texts, sendTextLocked g api fuel first text = some texts →
    ∀ t ∈ texts, utf16Len t ≤ 4096
  whole : ∀ p, prepare g fuel text = some p → ∀ c ∈ p.numbered, Whole g p.chunks.length c

/-- The characters that take two code units. -/
def astral (s : List Char) : Nat := s.countP fun c => decide (0x10000 ≤ c.toNat)

/-- The pass of the `i`-th chunk. -/
def passAt (lim : Limits) (formatted : List Char) (i : Nat) : Pos :=
  (cutPos lim)^[i] (start formatted)

end Claimed

/-! ### Lengths -/

section Lengths

variable {s t : List Char}

theorem utf16Len_eq (s : List Char) : utf16Len s = s.length + astral s := by
  induction s with
  | nil => rfl
  | cons c s ih =>
      have hwidth : utf16Width c = 1 + if 0x10000 ≤ c.toNat then 1 else 0 := by
        unfold utf16Width
        split_ifs <;> omega
      have hcount : astral (c :: s) = astral s + if 0x10000 ≤ c.toNat then 1 else 0 := by
        unfold astral
        rw [List.countP_cons]
        simp only [decide_eq_true_eq]
      rw [utf16Len_cons, ih, hwidth, hcount, List.length_cons]
      omega

theorem utf16Len_sublist (h : s.Sublist t) : utf16Len s ≤ utf16Len t := by
  rw [utf16Len_eq, utf16Len_eq]
  exact Nat.add_le_add h.length_le h.countP_le

theorem utf16Len_take_le (s : List Char) (n : Nat) : utf16Len (s.take n) ≤ utf16Len s :=
  utf16Len_sublist (List.take_sublist n s)

/-- Lines of the same weights make texts of the same weight. -/
theorem sum_intercalate_map
    {w : Char → Nat} {f : List Char → List Char}
    (h : ∀ line, ((f line).map w).sum = (line.map w).sum)
    (sep : List Char) (lines : List (List Char)) :
    ((sep.intercalate (lines.map f)).map w).sum = ((sep.intercalate lines).map w).sum := by
  induction lines with
  | nil => rfl
  | cons line lines ih =>
      cases lines with
      | nil => simp [h]
      | cons line' lines =>
          rw [List.map_cons, List.map_cons, List.intercalate_cons_cons,
            List.intercalate_cons_cons, ← List.map_cons, List.map_append, List.map_append,
            List.map_append, List.map_append, List.sum_append, List.sum_append, List.sum_append,
            List.sum_append, h, ih]

theorem sum_separateLine
    {w : Char → Nat} (hw : w ' ' = w '\n') (isDecimal : Char → Bool) (line : List Char) :
    ((separateLine isDecimal line).map w).sum = (line.map w).sum := by
  unfold separateLine
  split_ifs with hline
  · obtain ⟨hopen, _⟩ := Bool.and_eq_true_iff.mp hline
    obtain ⟨rest, rfl⟩ := List.isPrefixOf_iff_prefix.mp hopen
    have hdrop : (ticks ++ [' '] ++ rest).drop 4 = rest := List.drop_left' rfl
    rw [hdrop, List.map_append, List.map_append, List.map_append, List.map_cons, List.map_cons,
      List.sum_append, List.sum_append, List.sum_append, List.sum_cons, List.sum_cons, hw,
      List.map_nil, List.sum_nil]
    omega
  · rfl

/-- The marker only changes its line, a blank into a line feed. -/
theorem sum_separate
    {w : Char → Nat} (hw : w ' ' = w '\n') (isDecimal : Char → Bool) (text : List Char) :
    ((separateChunkIndicatorFromFence isDecimal text).map w).sum = (text.map w).sum := by
  unfold separateChunkIndicatorFromFence
  rw [sum_intercalate_map (sum_separateLine hw isDecimal), List.intercalate_splitOn]

theorem utf16Len_separate
    (isDecimal : Char → Bool) (text : List Char) :
    utf16Len (separateChunkIndicatorFromFence isDecimal text) = utf16Len text := by
  have hwidth : utf16Width ' ' = utf16Width '\n' := by decide
  exact sum_separate hwidth isDecimal text

theorem length_separate
    (isDecimal : Char → Bool) (text : List Char) :
    (separateChunkIndicatorFromFence isDecimal text).length = text.length := by
  have hsum := sum_separate (w := fun _ => 1) rfl isDecimal text
  simpa only [List.map_const', List.sum_replicate_nat, Nat.mul_one] using hsum

theorem utf16Width_of_isDigit {c : Char} (h : c.isDigit = true) : utf16Width c = 1 := by
  have hle : c.toNat ≤ 57 := by
    simp only [Char.isDigit, Bool.and_eq_true, decide_eq_true_eq] at h
    exact h.2
  rw [utf16Width, if_pos (by omega)]

theorem utf16Len_toDigits (n : Nat) :
    utf16Len (Nat.toDigits 10 n) = (Nat.toDigits 10 n).length := by
  have hdigits : ∀ c ∈ Nat.toDigits 10 n, c.isDigit = true := fun c hc =>
    Nat.isDigit_of_mem_toDigits (by decide) (by decide) hc
  generalize Nat.toDigits 10 n = digits at hdigits
  induction digits with
  | nil => rfl
  | cons c digits ih =>
      obtain ⟨hc, hdigits⟩ := List.forall_mem_cons.mp hdigits
      rw [utf16Len_cons, utf16Width_of_isDigit hc, ih hdigits, List.length_cons, Nat.add_comm]

theorem utf16Len_marker
    (f : MessageFormat) (total i : Nat) :
    utf16Len (marker f total i) = (marker f total i).length := by
  have hslash : utf16Width '/' = 1 := by decide
  have hopen : utf16Len " (".toList = 2 := by decide
  have hclose : utf16Width ')' = 1 := by decide
  have hopen' : utf16Len " \\(".toList = 3 := by decide
  have hclose' : utf16Len "\\)".toList = 2 := by decide
  unfold marker
  split_ifs
  · cases f with
    | plain =>
        simp only [indicator, utf16Len_append, utf16Len_cons, utf16Len_nil, utf16Len_toDigits,
          hslash, hopen, hclose, List.length_append, List.length_cons, List.length_nil]
        simp
        omega
    | markdown =>
        simp only [indicator, utf16Len_append, utf16Len_cons, utf16Len_toDigits, hslash, hopen',
          hclose', List.length_append, List.length_cons]
        simp
        omega
  · rfl

end Lengths

/-! ### A chunk with its marker -/

section Contents

variable {g : Gateway F} {total : Nat} {c : List Char × Nat}

end Contents

/-! ### The chunks of markdown -/

section Chunks

variable {lim : Limits} {p : Pos} {fuel : Nat}

/-- The chunks are those of the passes. -/
theorem getElem?_splitLoop
    {parts : List Part} {part : Part} {i : Nat} (h : splitLoop lim fuel p = some parts)
    (hi : parts[i]? = some part) :
    part = partAt lim ((cutPos lim)^[i] p) := by
  induction fuel generalizing p parts i with
  | zero => cases h
  | succ n ih =>
      by_cases hrest : p.remaining = []
      · rw [splitLoop, if_pos hrest] at h
        obtain rfl := Option.some.inj h
        cases hi
      · obtain ⟨m, rest, rfl, hcases⟩ := splitLoop_cases h hrest
        cases i with
        | zero => exact (Option.some.inj hi).symm
        | succ i =>
            rw [List.getElem?_cons_succ] at hi
            rcases hcases with ⟨_, rfl⟩ | ⟨_, hfuel, hloop⟩
            · cases hi
            · obtain rfl := Nat.succ.inj hfuel
              have hlater := ih hloop hi
              exact hlater

end Chunks

/-! ### Texts without markdown are no longer -/

section Stripping

variable {delim text inner rest : List Char}

end Stripping

/-! ### The calls -/

section Calls

variable {g : Gateway F} {calls : List (List Char)}

/-- All texts fit. -/
def Short (texts : List (List Char)) : Prop := ∀ t ∈ texts, utf16Len t ≤ 4096

theorem Short.concat
    {t : List Char} (hcalls : Short calls) (ht : utf16Len t ≤ 4096) :
    Short (calls ++ [t]) := by
  intro t' ht'
  rcases List.mem_append.mp ht' with hbefore | hlast
  · exact hcalls t' hbefore
  · rwa [List.mem_singleton.mp hlast]

/-- With successful calls every content is sent. -/
theorem sendContents_ok
    (isWord : Char → Bool) (markdown : Bool) (contents : List (List Char)) :
    sendContents (fun _ => .ok) isWord markdown calls contents =
      calls ++ contents.map (List.take 4096) := by
  induction contents generalizing calls with
  | nil => exact (List.append_nil _).symm
  | cons c contents ih =>
      rw [sendContents, sendMessage, if_pos rfl, ih, List.map_cons, List.append_assoc]
      rfl

theorem placeContents_ok
    (isWord : Char → Bool) (markdown edits : Bool) (contents : List (List Char)) :
    placeContents (fun _ => .ok) isWord markdown edits contents =
      contents.map (List.take 4096) := by
  unfold placeContents
  split
  · rename_i c rest
    unfold editMessageText
    split_ifs with hempty
    · exact (sendContents_ok isWord markdown (c :: rest)).trans (List.nil_append _)
    · exact sendContents_ok isWord markdown rest
  · rw [sendContents_ok, List.nil_append]

theorem sendFiles_ok
    (files : List FileRef) :
    sendFiles (fun _ => .ok) g calls files =
      calls ++ (files.filter fun ref => !g.delivered ref).map
        fun ref => (fileText ref).take 4096 := by
  induction files generalizing calls with
  | nil => exact (List.append_nil _).symm
  | cons ref files ih =>
      rw [sendFiles]
      cases hdelivered : g.delivered ref with
      | true => rw [if_pos rfl, ih, List.filter_cons_of_neg (by simp [hdelivered])]
      | false =>
          rw [if_neg Bool.false_ne_true, sendMessage, ih,
            List.filter_cons_of_pos (by simp [hdelivered]), List.map_cons, List.append_assoc]
          rfl

end Calls

/-! ### Results -/

section Results

variable {g : Gateway F} {fuel : Nat} {text : List Char} {p : Prepared}

theorem splitTelegramText_of_prepare
    (h : prepare g fuel text = some p) (hne : p.chunks ≠ []) :
    splitTelegramText (limits g.format) fuel p.formatted = some p.chunks := by
  obtain ⟨e, _, he⟩ := Option.bind_eq_some_iff.mp h
  obtain ⟨chunks, hchunks, rfl⟩ := Option.map_eq_some_iff.mp he
  dsimp only at hne ⊢
  split_ifs at hchunks
  · exact absurd (Option.some.inj hchunks).symm hne
  · exact hchunks

end Results

/-! ### The plain format counts characters -/

section Example

end Example

end SendTexts
end Telegram
end DiploidAgent
