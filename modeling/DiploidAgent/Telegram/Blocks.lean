import DiploidAgent.Lib.JsonDumps
import DiploidAgent.Lib.Text
import DiploidAgent.Telegram.Interactive

/-!
# Fenced blocks in a reply

A reply may hold fenced blocks of three kinds: a question in JSON, a text to be spoken,
and files to be sent.  A block is found by a regular expression with the greedy and lazy
parts of the source, so that the first match in its order counts.
-/

namespace DiploidAgent
namespace Telegram

open JsonText Text

variable {F : Type}

/-! ### The expression of a fence -/

/-- The end of a line, before its line feed. -/
def atLineEnd : List Char → Bool
  | [] => true
  | c :: _ => c == '\n'

/-- White space before the rest of an expression, the longest run first. -/
def spaces {α : Type} (next : List Char → Option α) : List Char → Option α
  | [] => next []
  | c :: rest =>
      if isSpace c then (spaces next rest).or (next (c :: rest)) else next (c :: rest)

/-- Any text before the rest of an expression, the shortest first. -/
def shortest {α : Type} (next : List Char → Option α) : List Char → Option (List Char × α)
  | [] => (next []).map fun r => ([], r)
  | c :: rest =>
      match next (c :: rest) with
      | some r => some ([], r)
      | none => (shortest next rest).map fun r => (c :: r.1, r.2)

def literal {α : Type} (l : List Char) (next : List Char → Option α) (text : List Char) :
    Option α :=
  if l.isPrefixOf text then next (text.drop l.length) else none

/-- A fence at the start of a line: its body, and what follows it. -/
def fence (tag : List Char) : List Char → Option (List Char × List Char) :=
  literal ("```".toList ++ tag) (spaces (literal ['\n'] (shortest (literal "\n```".toList
    (spaces fun rest => if atLineEnd rest then some rest else none)))))

/-- The first fence of a text: what stands before it, its body, and what follows. -/
def findFence (tag : List Char) : Bool → List Char → Option (List Char × List Char × List Char)
  | _, [] => none
  | lineStart, c :: rest =>
      match if lineStart then fence tag (c :: rest) else none with
      | some (body, after) => some ([], body, after)
      | none =>
          (findFence tag (c == '\n') rest).map fun r => (c :: r.1, r.2.1, r.2.2)

/-- A text with a fence is more than white space. -/
theorem exists_of_findFence
    {tag text : List Char} {lineStart : Bool} {found : List Char × List Char × List Char}
    (h : findFence tag lineStart text = some found) :
    ∃ c ∈ text, isSpace c = false := by
  induction text generalizing lineStart found with
  | nil => cases h
  | cons c rest ih =>
      rw [findFence] at h
      split at h
      · rename_i hfence
        split_ifs at hfence
        obtain ⟨hopen, _⟩ := Option.ite_none_right_eq_some.mp hfence
        have hticks := (List.isPrefixOf_iff_prefix.mp hopen).subset
        refine ⟨"```".toList.head (by decide), hticks ?_, by decide⟩
        exact List.mem_append_left _ (List.head_mem _)
      · obtain ⟨found', hfound, _⟩ := Option.map_eq_some_iff.mp h
        obtain ⟨c', hc', hspace⟩ := ih hfound
        exact ⟨c', List.mem_cons_of_mem _ hc', hspace⟩

/-- A text without the mark of a fence has none. -/
theorem findFence_eq_none
    {tag text : List Char} (lineStart : Bool) (h : ¬ "```".toList ++ tag <:+: text) :
    findFence tag lineStart text = none := by
  induction text generalizing lineStart with
  | nil => rfl
  | cons c rest ih =>
      have hnone : (if lineStart then fence tag (c :: rest) else none) = none := by
        split
        · refine if_neg fun hopen => h ?_
          exact (List.isPrefixOf_iff_prefix.mp hopen).isInfix
        · rfl
      rw [findFence, hnone, ih _ fun hin => h (hin.trans (List.suffix_cons c rest).isInfix)]
      rfl

/-! ### Questions -/

/-- What the functions use of Python: the reader of floats, whether one is zero, and the
text of a list or a dict. -/
structure Python (F : Type) where
  floats : FloatText F
  isZero : F → Bool
  repr : Value F → List Char

/-- `bool` of a value. -/
def truthy (P : Python F) : Value F → Bool
  | .scalar .null => false
  | .scalar (.bool b) => b
  | .scalar (.int n) => n != 0
  | .scalar (.float x) => !P.isZero x
  | .scalar (.str s) => !s.isEmpty
  | .arr items => !items.isEmpty
  | .obj ms => !ms.isEmpty

/-- `str` of a value. -/
def str (P : Python F) : Value F → List Char
  | .scalar .null => "None".toList
  | .scalar (.bool true) => "True".toList
  | .scalar (.bool false) => "False".toList
  | .scalar (.int n) => writeInt n
  | .scalar (.float x) => P.floats.write x
  | .scalar (.str s) => s
  | .arr items => P.repr (.arr items)
  | .obj ms => P.repr (.obj ms)

/-- The lower case of a character, if that is an ASCII letter or a digit. -/
def lowerLetter (c : Char) : Option Char :=
  if 'A' ≤ c ∧ c ≤ 'Z' then some (Char.ofNat (c.toNat + 32))
  else if 'a' ≤ c ∧ c ≤ 'z' then some c
  else if c.isDigit then some c
  else if c = '\u212a' then some 'k'
  else if c = '\u0130' then some 'i'
  else none

def otherEscapeForms : List String :=
  ["otherpleasespecify", "otherspleasespecify", "otherandspecify", "othersandspecify",
    "otherspecify", "othersspecify"]

/-- `_is_open_ended_escape`. -/
def isOpenEndedEscape (option : List Char) : Bool :=
  otherEscapeForms.contains (String.ofList (option.filterMap lowerLetter))

/-- The question of a block that has none: the last line before it. -/
def questionBefore (before : List Char) : List Char :=
  let before := rstrip before
  let last := strip (before.reverse.takeWhile (· != '\n')).reverse
  if last = [] then strip before else last

/-- The block of a dict; a question or label that is no text is taken as its text. -/
def askBlock? (P : Python F) (ms : List (List Char × Value F)) (before : List Char) :
    Option AskBlock :=
  match member ms "options" with
  | some (.arr raw) =>
      let options := raw.map (str P)
      let cancellable := ((member ms "cancellable").all (truthy P)) || options.any isOpenEndedEscape
      let kept := (options.filter fun o => !isOpenEndedEscape o).map String.ofList
      if h : kept = [] then none
      else some {
        question := String.ofList (
          match (member ms "question").filter (truthy P) with
          | some q => str P q
          | none => questionBefore before)
        options := kept
        cancellable := cancellable
        cancelLabel := String.ofList (
          match (member ms "cancel_label").filter (truthy P) with
          | some label => str P label
          | none => if cancellable then "Cancel".toList else [])
        nonempty := h }
  | _ => none

/-- `extract_ask_block`: the text without the block, and the block, if there is one.  A
body that is JSON but no dict raises an error. -/
def extractAskBlock (P : Python F) (text : List Char) : Option (List Char × Option AskBlock) :=
  match findFence "ask".toList true text with
  | none => some (text, none)
  | some (before, body, after) =>
      match loads P.floats (strip body) with
      | none => some (text, none)
      | some (.obj ms) =>
          match askBlock? P ms before with
          | none => some (text, none)
          | some b => some (strip (before ++ after), some b)
      | some _ => none

theorem strip_ne_nil_of_ask
    {P : Python F} {text display : List Char} {b : AskBlock}
    (h : extractAskBlock P text = some (display, some b)) :
    strip text ≠ [] := by
  intro hblank
  unfold extractAskBlock at h
  cases hfence : findFence "ask".toList true text with
  | none =>
      rw [hfence] at h
      cases h
  | some found =>
      obtain ⟨c, hc, hspace⟩ := exists_of_findFence hfence
      rw [isSpace_of_strip_eq_nil hblank c hc] at hspace
      cases hspace

/-! ### Spoken text and files -/

/-- `extract_say_block`. -/
def extractSayBlock (text : List Char) : List Char × Option (List Char) :=
  match findFence "say".toList true text with
  | none => (text, none)
  | some (before, body, after) =>
      if strip body = [] then (text, none) else (strip (before ++ after), some (strip body))

structure FileRef where
  path : List Char
  caption : List Char
deriving DecidableEq

/-- The file of a body: its first line, with the rest as the caption. -/
def fileRef? (body : List Char) : Option FileRef :=
  if strip body = [] then none
  else some {
    path := strip ((strip body).takeWhile (· != '\n'))
    caption := strip (((strip body).dropWhile (· != '\n')).drop 1) }

/-- The text without the file blocks, and the files in order. -/
def cutFiles : Nat → Bool → List Char → List Char × List FileRef
  | 0, _, text => (text, [])
  | n + 1, lineStart, text =>
      match findFence "file".toList lineStart text with
      | none => (text, [])
      | some (before, body, after) =>
          let r := cutFiles n false after
          (before ++ r.1, (fileRef? body).toList ++ r.2)

/-- `extract_file_blocks`. -/
def extractFileBlocks (text : List Char) : List Char × List FileRef :=
  let r := cutFiles (text.length + 1) true text
  (strip r.1, r.2)

/-- What is left of a text without its spoken part and its files. -/
def shown (display : List Char) : List Char :=
  (extractFileBlocks (extractSayBlock display).1).1

end Telegram
end DiploidAgent
