import DiploidAgent.Lib.Templates
import DiploidAgent.Lib.Histories

/-!
# The handoff stub

`write_handoff_stub` of `handoff.py`: before a context-pressure fold the harness leaves a
block in the self-state file.  A file with a block gets the new one in its place, a file with
a heading of the model's own is left alone, and to every other file the block is appended.

What is pasted into the block is a template where the block is replaced, it may end the
block, and no surrogate in it is written; apart from that, and from line ends that are
carriage returns, the file keeps what is around its one block (`stub_kept_iff`).

Reads and writes that the system refuses are left out.
-/

namespace DiploidAgent
namespace Handoff

open Codes Separators Templates
open Histories (Throughout)

/-! ### The stub -/

def markerOpen : Str := str "<!-- harness-handoff -->"

def markerClose : Str := str "<!-- /harness-handoff -->"

def heading : Str := str "## next-self"

/-- What `str` makes of the values in a snapshot; a falsy one is the empty text. -/
structure Snapshot where
  currentIntent : Str
  userMessage : Str
  lastSideEffect : Str

/-- What `json.loads` makes of a snapshot file. -/
inductive JsonFile where
  /-- an `OSError` or a `ValueError`: there is none, or it is no JSON -/
  | unread
  /-- a `RecursionError`, which is neither: it is nested too deeply -/
  | tooDeep
  /-- no object -/
  | other
  | object (snapshot : Snapshot)

/-- `_last_turn_snapshot`; `none` is raised. -/
def lastTurnSnapshot : List JsonFile → Option Snapshot
  | [] => some ⟨[], [], []⟩
  | .object snapshot :: _ => some snapshot
  | .tooDeep :: _ => none
  | _ :: files => lastTurnSnapshot files

/-- A time as `isoformat` writes it. -/
structure Moment where
  text : List Char
  plain : ∀ c ∈ text, c ∈ "0123456789-:T+".toList

/-- The arguments of `_stub_block`, and its time. -/
structure Stub where
  sessionNumber : Nat
  turnNumber : Nat
  moment : Moment
  intent : Str
  sideEffect : Str
  arriving : Str

/-- `text or default`. -/
def orElse (text default : Str) : Str := if text = [] then default else text

def digits (n : Nat) : Str := lift (Nat.toDigits 10 n)

/-- The first line of the block. -/
def note (stub : Stub) : Str :=
  str "Harness-written stub at the " ++ str "context-pressure fold (session " ++
    digits stub.sessionNumber ++ str ", before turn " ++ digits stub.turnNumber ++ str ", " ++
    lift stub.moment.text ++
    (str "). The previous turn may " ++ str "not have survived to write " ++
      str "its own handoff — if a " ++ str "fresher `## next-self` " ++
      str "appears elsewhere in this " ++ str "file, prefer it.")

def record : Str :=
  str "- durable record: " ++ str "chat_MEMORY.md + persona " ++
    str "MEMORY.md + chat_open_items" ++ str ".jsonl; live thread: " ++
    str "chat_transcript.jsonl tail"

def intentText (stub : Stub) : Str := orElse stub.intent (str "(none recorded)")

def sideEffectText (stub : Stub) : Str := orElse stub.sideEffect (str "(none recorded)")

def arrivingText (stub : Stub) : Str := orElse stub.arriving (str "(none)")

def lines (stub : Stub) : List Str :=
  [note stub, str "- last durable intent: " ++ intentText stub,
    str "- last side effect: " ++ sideEffectText stub,
    str "- message arriving at the fold: " ++ arrivingText stub, record]

/-- `_stub_block`. -/
def stubBlock (stub : Stub) : Str :=
  heading ++ [feed, feed] ++
    [feed].intercalate (markerOpen :: (lines stub ++ [markerClose])) ++ [feed]

/-! ### Writing it -/

/-- `text.rsplit(sep, 1)[0]`. -/
def beforeLast (sep text : Str) : Str :=
  match cutAt sep.reverse text.reverse with
  | none => text
  | some (_, before) => before.reverse

/-- `block.split(_MARKER_OPEN, 1)[1].rsplit(_MARKER_CLOSE, 1)[0]`. -/
def innerOf (block : Str) : Str :=
  match cutAt markerOpen block with
  | none => []
  | some (_, rest) => beforeLast markerClose rest

/-- The first match of `_MARKER_RE`: what is before it, between the markers, and behind it. -/
def firstBlock (text : Str) : Option (Str × Str × Str) :=
  (cutAt markerOpen text).bind fun r =>
    (cutAt markerClose r.2).map fun r' => (r.1, r'.1, r'.2)

/-- `_MARKER_RE.sub(repl, text, count=1)`; `none` is an error of the template, also if
nothing matches. -/
def subFirst (repl text : Str) : Option Str :=
  match firstBlock text with
  | none => (template [] repl).map fun _ => text
  | some (before, old, after) =>
      (template (markerOpen ++ old ++ markerClose) repl).map fun new => before ++ new ++ after

inductive Outcome where
  | returned (wrote : Bool)
  | raised
deriving DecidableEq

/-- A file; `none` is one that does not exist. -/
abbrev File := Option (List Char)

/-- `path.write_text`.  A text that cannot be encoded leaves the file empty, and the
`UnicodeEncodeError` is no `OSError`. -/
def writeText (text : Str) : Outcome × File :=
  match encode text with
  | none => (.raised, some [])
  | some written => (.returned true, some written)

def content (file : File) : Str := lift (file.getD [])

/-- The part of `write_handoff_stub` behind `_stub_block`. -/
def writeStub (stub : Stub) (file : File) : Outcome × File :=
  let text := newlines (content file)
  let block := stubBlock stub
  if markerOpen <:+: text then
    match subFirst (markerOpen ++ innerOf block ++ markerClose) text with
    | none => (.raised, file)
    | some new => writeText new
  else if heading <:+: text then (.returned false, file)
  else writeText (rstripFeeds text ++ (if strip text = [] then [] else [feed, feed]) ++ block)

/-- What a call finds beside the self-state file. -/
structure Call where
  sessionNumber : Nat
  turnNumber : Nat
  moment : Moment
  interrupted : JsonFile
  active : JsonFile
  arriving : Str

/-- `" ".join(text.split())[:n]`. -/
def clip (n : Nat) (text : Str) : Str := (joinWords (words text)).take n

def intentOf (snapshot : Snapshot) : Str :=
  let intent := clip 300 snapshot.currentIntent
  if intent = [] then (firstLine (strip snapshot.userMessage)).take 200 else intent

def Call.stub (call : Call) : Option Stub :=
  (lastTurnSnapshot [call.interrupted, call.active]).map fun snapshot =>
    { sessionNumber := call.sessionNumber
      turnNumber := call.turnNumber
      moment := call.moment
      intent := intentOf snapshot
      sideEffect := clip 300 snapshot.lastSideEffect
      arriving := clip 300 call.arriving }

/-- `write_handoff_stub`. -/
def writeHandoffStub (file : File) (call : Call) : Outcome × File :=
  match call.stub with
  | none => (.raised, file)
  | some stub => writeStub stub file

/-- The file behind a call. -/
def step (file : File) (call : Call) : File := (writeHandoffStub file call).2

/-! ### What is claimed -/

/-- What stands between the markers. -/
def body (stub : Stub) : Str := [feed].intercalate ([] :: (lines stub ++ [[]]))

def marked (stub : Stub) : Str := markerOpen ++ body stub ++ markerClose

/-- A heading that the harness has not written. -/
def Authored (text : Str) : Prop := heading <:+: text ∧ ¬ markerOpen <:+: text

/-- The block stands in the place of the first one, or behind the text without its last line
feeds. -/
inductive Placed (stub : Stub) : Str → Str → Prop
  | inPlace {text before old after : Str} (h : firstBlock text = some (before, old, after)) :
      Placed stub text (before ++ marked stub ++ after)
  | appended {text ends ends' : Str} (h : firstBlock (text ++ ends) = none)
      (hends : ∀ c ∈ ends, c = feed) (hends' : ∀ c ∈ ends', c = feed) :
      Placed stub (text ++ ends) (text ++ ends' ++ stubBlock stub)

/-- The block is the only one. -/
def Single (stub : Stub) (text : Str) : Prop :=
  ∃ before after, firstBlock text = some (before, body stub, after) ∧ firstBlock after = none

/-- What is claimed of a call and what it leaves. -/
structure Kept (file : File) (call : Call) (result : Outcome × File) : Prop where
  returned : result.1 ≠ .raised
  authored : Authored (content file) → result.2 = file
  current : ¬ Authored (content file) → ∃ stub, call.stub = some stub ∧
    Placed stub (content file) (content result.2) ∧ Single stub (content result.2)

/-- The texts that are pasted. -/
def pasted (stub : Stub) : List Str := [intentText stub, sideEffectText stub, arrivingText stub]

/-- No line end is a carriage return, except in the block, and there is no second block. -/
def Sound (text : Str) : Prop :=
  match firstBlock text with
  | none => ¬ markerOpen <:+: text ∧ carriage ∉ text
  | some (before, _, after) => carriage ∉ before ∧ carriage ∉ after ∧ firstBlock after = none

/-- A text that can be written and does not end the block; one that replaces a block has no
escape. -/
structure Fits (replaces : Prop) (text : Str) : Prop where
  scalar : Scalar text
  unclosed : ¬ markerClose <:+: text
  inert : replaces → Inert text

/-- The condition of a call. -/
def StubOk (file : File) (call : Call) : Prop :=
  ∃ stub, call.stub = some stub ∧
    (Authored (content file) ∨
      Sound (content file) ∧ ∀ text ∈ pasted stub, Fits (markerOpen <:+: content file) text)

/-! ### The block -/

section Block

variable {w : Str} {stub : Stub}

/-- A character that starts neither a marker nor an escape. -/
def tame : Code → Bool := Code.is fun c => c != '<' && c != '\\'

/-- A word whose first character stands in none of the fixed texts of the block. -/
structure Foreign (w : Str) : Prop where
  ne_nil : w ≠ []
  feed : feed ∉ w
  head : ∀ c ∈ w.head?, tame c = false

theorem foreign_close : Foreign markerClose := ⟨by decide, by decide, by decide⟩

theorem foreign_escape {c : Code} (hc : special c = true) : Foreign [backslash, c] := by
  refine ⟨by simp, ?_, by simp; rfl⟩
  have hne : c ≠ feed := by
    rintro rfl
    cases hc
  exact List.not_mem_cons_of_ne_of_not_mem (by decide)
    (List.not_mem_cons_of_ne_of_not_mem hne.symm List.not_mem_nil)

theorem foreign_lone (n : Fin 2048) : Foreign [.lone n] :=
  ⟨by simp, by simp [feed], by simp; rfl⟩

theorem Foreign.not_infix (hw : Foreign w) {s : Str} (hs : ∀ c ∈ s, tame c = true) :
    ¬ w <:+: s := by
  intro h
  obtain ⟨c, w', rfl⟩ := List.exists_cons_of_ne_nil hw.ne_nil
  have htame := hs c (h.subset List.mem_cons_self)
  rw [hw.head c rfl] at htame
  cases htame

theorem Foreign.infix_append_iff (hw : Foreign w) {s : Str} (hs : ∀ c ∈ s, tame c = true)
    (s' : Str) :
    w <:+: s ++ s' ↔ w <:+: s' := by
  refine ⟨fun h => infix_of_append_left h (fun c hc hmem => ?_) hw.ne_nil, fun h =>
    h.trans (List.suffix_append s s').isInfix⟩
  have htame := hs c hmem
  rw [hw.head c hc] at htame
  cases htame

theorem tame_digits (n : Nat) : ∀ c ∈ digits n, tame c = true := by
  intro c hc
  obtain ⟨d, hd, rfl⟩ := List.mem_map.mp hc
  have hdigit := Nat.isDigit_of_mem_toDigits (by decide) (by decide) hd
  have hopen : d ≠ '<' := by rintro rfl; cases hdigit
  have hescape : d ≠ '\\' := by rintro rfl; cases hdigit
  simp [tame, Code.is, hopen, hescape]

/-- The characters of a literal, one by one. -/
theorem tame_str {s : String} {l : List Char} (hs : s.toList = l)
    (hl : (l.all fun d => tame (.char d)) = true) : ∀ c ∈ str s, tame c = true := by
  intro c hc
  rw [str, hs] at hc
  obtain ⟨d, hd, rfl⟩ := List.mem_map.mp hc
  exact List.all_eq_true.mp hl d hd

theorem tame_moment (moment : Moment) : ∀ c ∈ lift moment.text, tame c = true := by
  intro c hc
  obtain ⟨d, hd, rfl⟩ := List.mem_map.mp hc
  have hall : ∀ c ∈ str "0123456789-:T+", tame c = true := tame_str String.toList_ofList rfl
  exact hall _ (List.mem_map_of_mem (moment.plain d hd))

theorem tame_note (stub : Stub) : ∀ c ∈ note stub, tame c = true := by
  simp only [note, List.forall_mem_append]
  refine ⟨⟨⟨⟨⟨⟨⟨?_, ?_⟩, tame_digits _⟩, ?_⟩, tame_digits _⟩, ?_⟩, tame_moment _⟩,
    ⟨⟨⟨⟨?_, ?_⟩, ?_⟩, ?_⟩, ?_⟩, ?_⟩ <;>
    exact tame_str String.toList_ofList rfl

theorem tame_record : ∀ c ∈ record, tame c = true := by
  simp only [record, List.forall_mem_append]
  refine ⟨⟨⟨⟨?_, ?_⟩, ?_⟩, ?_⟩, ?_⟩ <;> exact tame_str String.toList_ofList rfl

/-- Between lines of one's own the block holds such a word where it is pasted. -/
theorem Foreign.infix_block_iff (hw : Foreign w) {first last : Str} (hfirst : ¬ w <:+: first)
    (hlast : ¬ w <:+: last) (stub : Stub) :
    w <:+: [Codes.feed].intercalate (first :: (lines stub ++ [last])) ↔
      ∃ text ∈ pasted stub, w <:+: text := by
  have hnote := hw.not_infix (tame_note stub)
  have hrecord := hw.not_infix tame_record
  have hintent := hw.infix_append_iff (s := str "- last durable intent: ")
    (tame_str String.toList_ofList rfl) (intentText stub)
  have heffect := hw.infix_append_iff (s := str "- last side effect: ")
    (tame_str String.toList_ofList rfl) (sideEffectText stub)
  have harriving := hw.infix_append_iff (s := str "- message arriving at the fold: ")
    (tame_str String.toList_ofList rfl) (arrivingText stub)
  rw [infix_intercalate_iff hw.feed hw.ne_nil]
  simp [lines, pasted, hfirst, hlast, hnote, hrecord, hintent, heffect, harriving]

theorem marked_eq (stub : Stub) :
    marked stub = [feed].intercalate (markerOpen :: (lines stub ++ [markerClose])) :=
  (intercalate_frame feed markerOpen markerClose (lines stub)).symm

theorem stubBlock_eq (stub : Stub) :
    stubBlock stub = (heading ++ [feed, feed]) ++
      (markerOpen ++ (body stub ++ (markerClose ++ [feed]))) := by
  rw [stubBlock, ← marked_eq, marked]
  simp only [List.append_assoc]

theorem beforeLast_append (s : Str) :
    beforeLast markerClose (s ++ (markerClose ++ [feed])) = s := by
  have hnone : ¬ markerClose.reverse <:+: [feed] ++ markerClose.reverse.dropLast := by
    rw [infix_append_dropLast_iff (by decide) (by decide)]
    exact fun h => absurd (h.subset (a := .char '<') (by decide)) (by decide)
  have hcut : cutAt markerClose.reverse ([feed] ++ (markerClose.reverse ++ s.reverse)) =
      some ([feed], s.reverse) := cutAt_append (by decide) hnone s.reverse
  have hshape : (s ++ (markerClose ++ [feed])).reverse =
      [feed] ++ (markerClose.reverse ++ s.reverse) := by simp
  rw [beforeLast, hshape, hcut]
  exact List.reverse_reverse s

/-- The new block is cut out of its section as it was put in. -/
theorem innerOf_stubBlock (stub : Stub) : innerOf (stubBlock stub) = body stub := by
  have hnone : ¬ markerOpen <:+: heading ++ [feed, feed] ++ markerOpen.dropLast := by
    rw [infix_append_dropLast_iff (by decide) (by decide)]
    exact fun h => absurd (h.subset (a := .char '<') (by decide)) (by decide)
  have hcut : cutAt markerOpen (stubBlock stub) =
      some (heading ++ [feed, feed], body stub ++ (markerClose ++ [feed])) :=
    stubBlock_eq stub ▸ cutAt_append (by decide) hnone _
  rw [innerOf, hcut]
  exact beforeLast_append (body stub)

theorem unclosed_body_iff (stub : Stub) :
    markerClose <:+: body stub ↔ ∃ text ∈ pasted stub, markerClose <:+: text :=
  foreign_close.infix_block_iff (by decide) (by decide) stub

theorem inert_marked_iff (stub : Stub) :
    Inert (marked stub) ↔ ∀ text ∈ pasted stub, Inert text := by
  have hmarker : ∀ {c : Code} {m : Str}, backslash ∉ m → ¬ [backslash, c] <:+: m :=
    fun hm h => hm (h.subset List.mem_cons_self)
  have hblock : ∀ c, special c = true → ([backslash, c] <:+: marked stub ↔
      ∃ text ∈ pasted stub, [backslash, c] <:+: text) := fun c hc => by
    rw [marked_eq]
    exact (foreign_escape hc).infix_block_iff (hmarker (by decide)) (hmarker (by decide)) stub
  constructor
  · intro h text htext c hc hin
    exact h c hc ((hblock c hc).mpr ⟨text, htext, hin⟩)
  · intro h c hc hin
    obtain ⟨text, htext, hin⟩ := (hblock c hc).mp hin
    exact h text htext c hc hin

theorem scalar_marked_iff (stub : Stub) :
    Scalar (marked stub) ↔ ∀ text ∈ pasted stub, Scalar text := by
  have hblock : ∀ n, Code.lone n ∈ marked stub ↔ ∃ text ∈ pasted stub, Code.lone n ∈ text := by
    intro n
    have hopen : ¬ [Code.lone n] <:+: markerOpen := fun h =>
      scalar_lift _ n (h.subset List.mem_cons_self)
    have hclose : ¬ [Code.lone n] <:+: markerClose := fun h =>
      scalar_lift _ n (h.subset List.mem_cons_self)
    rw [marked_eq, ← List.singleton_infix_iff, (foreign_lone n).infix_block_iff hopen hclose]
    simp only [List.singleton_infix_iff]
  constructor
  · intro h text htext n hn
    exact h n ((hblock n).mpr ⟨text, htext, hn⟩)
  · intro h n hn
    obtain ⟨text, htext, hn⟩ := (hblock n).mp hn
    exact h text htext n hn

end Block

/-! ### The first block -/

section FirstBlock

variable {stub : Stub} {text before old after : Str}

theorem solid_open : Solid markerOpen := by decide

theorem solid_close : Solid markerClose := by decide

theorem firstBlock_eq_some_iff :
    firstBlock text = some (before, old, after) ↔
      text = before ++ (markerOpen ++ (old ++ (markerClose ++ after))) ∧
        ¬ markerOpen <:+: before ∧ ¬ markerClose <:+: old := by
  have hopen : ∀ {s}, markerOpen <:+: s ++ markerOpen.dropLast ↔ markerOpen <:+: s :=
    infix_append_dropLast_iff (by decide) (by decide)
  have hclose : ∀ {s}, markerClose <:+: s ++ markerClose.dropLast ↔ markerClose <:+: s :=
    infix_append_dropLast_iff (by decide) (by decide)
  rw [firstBlock, Option.bind_eq_some_iff]
  constructor
  · rintro ⟨⟨before', rest⟩, hcut, hrest⟩
    obtain ⟨⟨old', after'⟩, hcut', heq⟩ := Option.map_eq_some_iff.mp hrest
    cases heq
    rw [cutAt_eq_some_iff (by decide), hopen] at hcut
    rw [cutAt_eq_some_iff (by decide), hclose] at hcut'
    dsimp only at hcut'
    exact ⟨hcut'.1 ▸ hcut.1, hcut.2, hcut'.2⟩
  · rintro ⟨rfl, hbefore, hold⟩
    refine ⟨(before, old ++ (markerClose ++ after)), ?_, ?_⟩
    · exact (cutAt_eq_some_iff (by decide)).mpr ⟨rfl, hopen.not.mpr hbefore⟩
    · have hcut : cutAt markerClose (old ++ (markerClose ++ after)) = some (old, after) :=
        (cutAt_eq_some_iff (by decide)).mpr ⟨rfl, hclose.not.mpr hold⟩
      rw [hcut]
      rfl

theorem firstBlock_eq_none (h : ¬ markerOpen <:+: text) : firstBlock text = none := by
  rw [firstBlock, cutAt_eq_none h]
  rfl

theorem open_of_firstBlock (h : firstBlock text = some (before, old, after)) :
    markerOpen <:+: text := by
  by_contra hnot
  rw [firstBlock_eq_none hnot] at h
  cases h

theorem firstBlock_newlines (text : Str) :
    firstBlock (newlines text) =
      (firstBlock text).map fun r => (newlines r.1, newlines r.2.1, newlines r.2.2) := by
  rw [firstBlock, firstBlock, cutAt_newlines solid_open (by decide)]
  cases cutAt markerOpen text with
  | none => rfl
  | some r =>
      rw [Option.map_some, Option.bind_some, Option.bind_some,
        cutAt_newlines solid_close (by decide)]
      cases cutAt markerClose r.2 with
      | none => rfl
      | some r' => rfl

/-- Behind a text without a block the new one is the first. -/
theorem firstBlock_marked (h : ¬ markerOpen <:+: before)
    (hpasted : ∀ text ∈ pasted stub, ¬ markerClose <:+: text) (after : Str) :
    firstBlock (before ++ marked stub ++ after) = some (before, body stub, after) := by
  refine firstBlock_eq_some_iff.mpr ⟨by simp only [marked, List.append_assoc], h, fun hin => ?_⟩
  obtain ⟨text, htext, hclose⟩ := (unclosed_body_iff stub).mp hin
  exact hpasted text htext hclose

theorem single_iff (h : ¬ markerOpen <:+: before) :
    Single stub (before ++ marked stub ++ after) ↔
      (∀ text ∈ pasted stub, ¬ markerClose <:+: text) ∧ firstBlock after = none := by
  constructor
  · rintro ⟨before', after', hfirst, hnone⟩
    have hin := (firstBlock_eq_some_iff.mp hfirst).2.2
    have hpasted : ∀ text ∈ pasted stub, ¬ markerClose <:+: text := fun text htext hclose =>
      hin ((unclosed_body_iff stub).mpr ⟨text, htext, hclose⟩)
    rw [firstBlock_marked h hpasted] at hfirst
    cases hfirst
    exact ⟨hpasted, hnone⟩
  · rintro ⟨hpasted, hnone⟩
    exact ⟨before, after, firstBlock_marked h hpasted after, hnone⟩

end FirstBlock

/-! ### One call -/

section Calls

variable {stub : Stub} {file : File} {call : Call} {text text' before old after : Str}

theorem content_writeText (h : (writeText text).1 ≠ .raised) :
    content (writeText text).2 = text := by
  unfold writeText at h ⊢
  cases hencode : encode text with
  | none =>
      rw [hencode] at h
      exact absurd rfl h
  | some written => exact (encode_eq_some_iff.mp hencode).symm

theorem returned_writeText (h : Scalar text) : (writeText text).1 ≠ .raised := by
  obtain ⟨l, rfl⟩ := scalar_iff.mp h
  rw [writeText, encode_lift]
  exact fun h => by cases h

theorem scalar_content (file : File) : Scalar (content file) := scalar_lift _

theorem placed_iff :
    Placed stub text text' ↔
      (∃ before old after, firstBlock text = some (before, old, after) ∧
        text' = before ++ marked stub ++ after) ∨
      (firstBlock text = none ∧ ∃ start ends ends', text = start ++ ends ∧
        (∀ c ∈ ends, c = feed) ∧ (∀ c ∈ ends', c = feed) ∧
        text' = start ++ ends' ++ stubBlock stub) := by
  constructor
  · intro h
    cases h with
    | inPlace hblock => exact Or.inl ⟨_, _, _, hblock, rfl⟩
    | appended hnone hends hends' => exact Or.inr ⟨hnone, _, _, _, rfl, hends, hends', rfl⟩
  · rintro (⟨before, old, after, hblock, rfl⟩ | ⟨hnone, start, ends, ends', rfl, hends, hends',
      rfl⟩)
    · exact Placed.inPlace hblock
    · exact Placed.appended hnone hends hends'

/-- What is claimed where the heading is not the model's own. -/
structure Current (stub : Stub) (text : Str) (result : Outcome × File) : Prop where
  returned : result.1 ≠ .raised
  placed : Placed stub text (content result.2)
  single : Single stub (content result.2)

theorem pasted_fit_iff (stub : Stub) (replaces : Prop) :
    (∀ text ∈ pasted stub, Fits replaces text) ↔
      Scalar (marked stub) ∧ (∀ text ∈ pasted stub, ¬ markerClose <:+: text) ∧
        (replaces → Inert (marked stub)) := by
  rw [scalar_marked_iff, inert_marked_iff]
  constructor
  · intro hfit
    exact ⟨fun text ht => (hfit text ht).scalar, fun text ht => (hfit text ht).unclosed,
      fun hreplaces text ht => (hfit text ht).inert hreplaces⟩
  · rintro ⟨hscalar, hclose, hinert⟩ text ht
    exact ⟨hscalar text ht, hclose text ht, fun hreplaces => hinert hreplaces text ht⟩

/-! #### Replacing -/

/-- A call that finds a block. -/
theorem writeStub_of_firstBlock (h : firstBlock (content file) = some (before, old, after)) :
    writeStub stub file =
      match template (markerOpen ++ newlines old ++ markerClose) (marked stub) with
      | none => (.raised, file)
      | some new => writeText (newlines before ++ new ++ newlines after) := by
  have hopen : markerOpen <:+: newlines (content file) :=
    (infix_newlines_iff solid_open (by decide)).mpr (open_of_firstBlock h)
  have hsub : subFirst (marked stub) (newlines (content file)) =
      (template (markerOpen ++ newlines old ++ markerClose) (marked stub)).map fun new =>
        newlines before ++ new ++ newlines after := by
    rw [subFirst, firstBlock_newlines, h]
    rfl
  dsimp only [writeStub]
  rw [if_pos hopen, innerOf_stubBlock, ← marked, hsub]
  cases template (markerOpen ++ newlines old ++ markerClose) (marked stub) with
  | none => rfl
  | some new => rfl

theorem getLast_marked (stub : Stub) : (marked stub).getLast? ≠ some backslash := by
  rw [marked, List.getLast?_append_of_ne_nil _ (by decide)]
  decide

/-- The template writes the block, and what is behind it is not changed, exactly if the block
is inert. -/
theorem new_eq_iff {found new : Str} (hfound : found.head? = some (.char '<'))
    (h : template found (marked stub) = some new) :
    new ++ newlines after = marked stub ++ after ↔
      Inert (marked stub) ∧ carriage ∉ after := by
  constructor
  · intro heq
    have hprefix : marked stub <+: new := by
      refine List.prefix_of_prefix_length_le ⟨after, heq.symm⟩ (List.prefix_append _ _) ?_
      have hlen := congrArg List.length heq
      have hle := length_newlines_le after
      rw [List.length_append, List.length_append] at hlen
      omega
    have hinert := inert_of_prefix_template hfound rfl h hprefix
    rw [template_of_inert found hinert (getLast_marked stub)] at h
    obtain rfl := Option.some.inj h
    have hafter := List.append_cancel_left heq
    exact ⟨hinert, hafter ▸ carriage_notMem_newlines after⟩
  · rintro ⟨hinert, hafter⟩
    rw [template_of_inert found hinert (getLast_marked stub)] at h
    rw [Option.some.inj h, newlines_eq_self hafter]

theorem replaced_iff (h : firstBlock (content file) = some (before, old, after)) :
    Current stub (content file) (writeStub stub file) ↔
      Sound (content file) ∧ ∀ text ∈ pasted stub, Fits (markerOpen <:+: content file) text := by
  have hopen := open_of_firstBlock h
  obtain ⟨hcontent, hbefore, hold⟩ := firstBlock_eq_some_iff.mp h
  have hfound : (markerOpen ++ newlines old ++ markerClose).head? = some (.char '<') := rfl
  have hsound : Sound (content file) ↔
      carriage ∉ before ∧ carriage ∉ after ∧ firstBlock after = none := by
    rw [Sound, h]
  rw [hsound, pasted_fit_iff, forall_prop_of_true hopen, writeStub_of_firstBlock h]
  cases htemplate : template (markerOpen ++ newlines old ++ markerClose) (marked stub) with
  | none =>
      refine ⟨fun hcurrent => absurd rfl hcurrent.returned, fun hok => ?_⟩
      rw [template_of_inert _ hok.2.2.2 (getLast_marked stub)] at htemplate
      cases htemplate
  | some new =>
      dsimp only
      constructor
      · intro hcurrent
        have hwritten := content_writeText hcurrent.returned
        have hplaced := hcurrent.placed
        have hsingle := hcurrent.single
        have hscalar := scalar_content (writeText (newlines before ++ new ++ newlines after)).2
        rw [placed_iff, h] at hplaced
        obtain ⟨_, _, _, heq, htext⟩ := hplaced.resolve_right fun hnone => by cases hnone.1
        cases heq
        rw [htext] at hsingle hscalar
        obtain ⟨hclose, hnone⟩ := (single_iff hbefore).mp hsingle
        rw [hwritten, List.append_assoc, List.append_assoc] at htext
        have hreturn := carriage_notMem_of_newlines_append htext
        rw [newlines_eq_self hreturn] at htext
        obtain ⟨hinert, hafter⟩ := (new_eq_iff hfound htemplate).mp (List.append_cancel_left htext)
        exact ⟨⟨hreturn, hafter, hnone⟩, (scalar_append.mp (scalar_append.mp hscalar).1).2, hclose,
          hinert⟩
      · rintro ⟨⟨hreturn, hafter, hnone⟩, hscalar, hclose, hinert⟩
        have htext : newlines before ++ new ++ newlines after = before ++ marked stub ++ after := by
          rw [newlines_eq_self hreturn, List.append_assoc, List.append_assoc,
            (new_eq_iff hfound htemplate).mpr ⟨hinert, hafter⟩]
        have hall : Scalar (before ++ marked stub ++ after) := by
          have hparts := scalar_content file
          rw [hcontent] at hparts
          simp only [scalar_append] at hparts ⊢
          exact ⟨⟨hparts.1, hscalar⟩, hparts.2.2.2.2⟩
        have hreturned := returned_writeText hall
        have hwritten := content_writeText hreturned
        rw [htext]
        refine ⟨hreturned, ?_, ?_⟩
        · rw [hwritten]
          exact Placed.inPlace h
        · rw [hwritten]
          exact (single_iff hbefore).mpr ⟨hclose, hnone⟩

/-! #### Appending -/

/-- What stands before the appended section. -/
def front (text : Str) : Str := rstripFeeds text ++ if strip text = [] then [] else [feed, feed]

theorem writeStub_of_unmarked (hopen : ¬ markerOpen <:+: content file)
    (hhead : ¬ heading <:+: content file) :
    writeStub stub file = writeText (front (newlines (content file)) ++ stubBlock stub) := by
  have hopen' : ¬ markerOpen <:+: newlines (content file) :=
    (infix_newlines_iff solid_open (by decide)).not.mpr hopen
  have hhead' : ¬ heading <:+: newlines (content file) :=
    (infix_newlines_iff (by decide) (by decide)).not.mpr hhead
  dsimp only [writeStub]
  rw [if_neg hopen', if_neg hhead']
  rfl

/-- The text without its last line feeds, and line feeds. -/
theorem front_eq (text : Str) :
    ∃ ends, front text = rstripFeeds text ++ ends ∧ ∀ c ∈ ends, c = feed := by
  refine ⟨_, rfl, ?_⟩
  split <;> simp

theorem rstripFeeds_append (text : Str) :
    ∃ ends, rstripFeeds text ++ ends = text ∧ ∀ c ∈ ends, c = feed := by
  refine ⟨text.rtakeWhile (· == feed), List.rdropWhile_append_rtakeWhile, fun c hc => ?_⟩
  simpa using List.mem_rtakeWhile_imp hc

theorem mem_front {c : Code} (h : c ∈ front text) : c = feed ∨ c ∈ text := by
  obtain ⟨ends, heq, hends⟩ := front_eq text
  rw [heq] at h
  rcases List.mem_append.mp h with hmem | hmem
  · exact Or.inr ((List.rdropWhile_prefix _ _).subset hmem)
  · exact Or.inl (hends c hmem)

theorem open_front (h : ¬ markerOpen <:+: text) :
    ¬ markerOpen <:+: front text ++ (heading ++ [feed, feed]) := by
  obtain ⟨ends, heq, hends⟩ := front_eq text
  intro hin
  rw [heq, List.append_assoc] at hin
  have hlast : ∀ c ∈ markerOpen.getLast?, c ∉ ends ++ (heading ++ [feed, feed]) := by
    intro c hc hmem
    obtain rfl : c = .char '>' := by
      have hend : markerOpen.getLast? = some (.char '>') := by decide
      exact (Option.some.inj (hend.symm.trans hc)).symm
    rcases List.mem_append.mp hmem with hmem | hmem
    · cases hends _ hmem
    · exact absurd hmem (by decide)
  have hstripped := infix_of_append_right hin hlast (by decide)
  exact h (hstripped.trans (List.rdropWhile_prefix _ _).isInfix)

theorem scalar_front (h : Scalar text) : Scalar (front text) := by
  intro n hn
  rcases mem_front hn with hfeed | hmem
  · cases hfeed
  · exact h n hmem

theorem appended_eq (text : Str) (stub : Stub) :
    front text ++ stubBlock stub =
      front text ++ (heading ++ [feed, feed]) ++ marked stub ++ [feed] := by
  rw [stubBlock_eq, marked]
  simp only [List.append_assoc]

theorem appended_iff (hopen : ¬ markerOpen <:+: content file)
    (hhead : ¬ heading <:+: content file) :
    Current stub (content file) (writeStub stub file) ↔
      Sound (content file) ∧ ∀ text ∈ pasted stub, Fits (markerOpen <:+: content file) text := by
  have hnone := firstBlock_eq_none hopen
  have hsound : Sound (content file) ↔ carriage ∉ content file := by
    rw [Sound, hnone]
    exact and_iff_right hopen
  have hfree : ¬ markerOpen <:+: newlines (content file) :=
    (infix_newlines_iff solid_open (by decide)).not.mpr hopen
  have hsingle : Single stub (front (newlines (content file)) ++ (heading ++ [feed, feed]) ++
      marked stub ++ [feed]) ↔
        (∀ text ∈ pasted stub, ¬ markerClose <:+: text) ∧ firstBlock [feed] = none :=
    single_iff (open_front hfree)
  have hlast : firstBlock [feed] = none := by decide
  have hfits : (∀ text ∈ pasted stub, Fits (markerOpen <:+: content file) text) ↔
      Scalar (marked stub) ∧ ∀ text ∈ pasted stub, ¬ markerClose <:+: text := by
    rw [pasted_fit_iff]
    exact and_congr_right fun _ => and_iff_left fun h => absurd h hopen
  rw [hsound, hfits, writeStub_of_unmarked hopen hhead]
  constructor
  · intro hcurrent
    have hwritten := content_writeText hcurrent.returned
    have hscalar := scalar_content
      (writeText (front (newlines (content file)) ++ stubBlock stub)).2
    obtain ⟨_, start, ends, ends', hstart, hends, hends', htext⟩ :=
      (placed_iff.mp hcurrent.placed).resolve_left fun ⟨_, _, _, hsome, _⟩ => by
        rw [hnone] at hsome
        cases hsome
    have hclose := hcurrent.single
    rw [hwritten] at hscalar hclose htext
    rw [appended_eq] at hscalar hclose
    refine ⟨?_, (scalar_append.mp (scalar_append.mp hscalar).1).2, (hsingle.mp hclose).1⟩
    have hfront := List.append_cancel_right htext
    intro hreturn
    rw [hstart] at hreturn
    rcases List.mem_append.mp hreturn with hmem | hmem
    · have hmem' : carriage ∈ front (newlines (content file)) :=
        hfront ▸ List.mem_append_left _ hmem
      rcases mem_front hmem' with hfeed | hlater
      · cases hfeed
      · exact carriage_notMem_newlines _ hlater
    · cases hends _ hmem
  · rintro ⟨hreturn, hscalar, hclose⟩
    have hall : Scalar (front (newlines (content file)) ++ stubBlock stub) := by
      have hfeeds := scalar_lift ['\n', '\n']
      simp only [appended_eq, scalar_append]
      exact ⟨⟨⟨scalar_front (scalar_content file).newlines, scalar_lift _, hfeeds⟩, hscalar⟩,
        scalar_lift ['\n']⟩
    have hreturned := returned_writeText hall
    have hwritten := content_writeText hreturned
    refine ⟨hreturned, ?_, ?_⟩
    · rw [hwritten, newlines_eq_self hreturn]
      obtain ⟨ends, hends, hfeeds⟩ := rstripFeeds_append (content file)
      obtain ⟨ends', hends', hfeeds'⟩ := front_eq (content file)
      exact placed_iff.mpr (Or.inr ⟨hnone, rstripFeeds (content file), ends, ends', hends.symm,
        hfeeds, hfeeds', by rw [hends']⟩)
    · rw [hwritten, appended_eq]
      exact hsingle.mpr ⟨hclose, hlast⟩

/-! #### Every call -/

/-- A marker without its end is never closed. -/
theorem not_current_of_unclosed (hopen : markerOpen <:+: content file)
    (hnone : firstBlock (content file) = none) :
    ¬ Current stub (content file) (writeStub stub file) := by
  have hopen' : markerOpen <:+: newlines (content file) :=
    (infix_newlines_iff solid_open (by decide)).mpr hopen
  have hnone' : firstBlock (newlines (content file)) = none := by
    rw [firstBlock_newlines, hnone]
    rfl
  dsimp only [writeStub, subFirst]
  rw [if_pos hopen', hnone']
  cases template [] (markerOpen ++ innerOf (stubBlock stub) ++ markerClose) with
  | none => exact fun hcurrent => hcurrent.returned rfl
  | some new =>
      intro hcurrent
      obtain ⟨before, after, hfirst, _⟩ := hcurrent.single
      have hwritten : content (writeText (newlines (content file))).2 =
          newlines (content file) := content_writeText hcurrent.returned
      rw [← hwritten] at hnone'
      cases hnone'.symm.trans hfirst

theorem current_iff (hnot : ¬ Authored (content file)) :
    Current stub (content file) (writeStub stub file) ↔
      Sound (content file) ∧ ∀ text ∈ pasted stub, Fits (markerOpen <:+: content file) text := by
  by_cases hopen : markerOpen <:+: content file
  · cases hblock : firstBlock (content file) with
    | none =>
        refine ⟨fun h => absurd h (not_current_of_unclosed hopen hblock), fun h => ?_⟩
        have hsound := h.1
        rw [Sound, hblock] at hsound
        exact absurd hopen hsound.1
    | some r => exact replaced_iff hblock
  · exact appended_iff hopen fun hhead => hnot ⟨hhead, hopen⟩

theorem writeStub_of_authored (h : Authored (content file)) :
    writeStub stub file = (.returned false, file) := by
  have hopen : ¬ markerOpen <:+: newlines (content file) :=
    (infix_newlines_iff solid_open (by decide)).not.mpr h.2
  have hhead : heading <:+: newlines (content file) :=
    (infix_newlines_iff (by decide) (by decide)).mpr h.1
  dsimp only [writeStub]
  rw [if_neg hopen, if_pos hhead]

theorem writeHandoffStub_of_stub (h : call.stub = some stub) :
    writeHandoffStub file call = writeStub stub file := by
  rw [writeHandoffStub, h]

/-- **One call.**  It keeps what is claimed under its condition, and only then. -/
theorem writeHandoffStub_kept_iff (file : File) (call : Call) :
    Kept file call (writeHandoffStub file call) ↔ StubOk file call := by
  cases hstub : call.stub with
  | none =>
      refine ⟨fun h => absurd ?_ h.returned, fun ⟨stub, hsome, _⟩ => ?_⟩
      · rw [writeHandoffStub, hstub]
      · rw [hstub] at hsome
        cases hsome
  | some stub =>
      have hok : StubOk file call ↔ Authored (content file) ∨ Sound (content file) ∧
          ∀ text ∈ pasted stub, Fits (markerOpen <:+: content file) text := by
        rw [StubOk, hstub]
        simp
      rw [hok, writeHandoffStub_of_stub hstub]
      by_cases hauthored : Authored (content file)
      · rw [writeStub_of_authored hauthored]
        refine ⟨fun _ => Or.inl hauthored, fun _ => ⟨by simp, fun _ => rfl, fun hnot => ?_⟩⟩
        exact absurd hauthored hnot
      · rw [or_iff_right hauthored, ← current_iff hauthored]
        constructor
        · intro h
          obtain ⟨stub', hstub', hplaced, hsingle⟩ := h.current hauthored
          obtain rfl := Option.some.inj (hstub.symm.trans hstub')
          exact ⟨h.returned, hplaced, hsingle⟩
        · intro h
          exact ⟨h.returned, fun h' => absurd h' hauthored, fun _ =>
            ⟨stub, hstub, h.placed, h.single⟩⟩

end Calls

/-! ### Repeated calls -/

section Runs

variable {stub : Stub} {file : File} {call : Call}

/-- After every call of a run the file is kept, just when every call meets its condition in
the state it is made in. -/
theorem stub_kept_iff (file : File) (calls : List Call) :
    Throughout step (fun f call => Kept f call (writeHandoffStub f call)) file calls ↔
      Throughout step StubOk file calls := by
  unfold Throughout
  simp only [writeHandoffStub_kept_iff]

/-- A call whose texts fit in every place. -/
def Plain (call : Call) : Prop :=
  ∃ stub, call.stub = some stub ∧ ∀ text ∈ pasted stub, Fits True text

/-- A file with a heading of the model's own, or a sound one. -/
def Good (file : File) : Prop := Authored (content file) ∨ Sound (content file)

theorem Plain.stubOk (hcall : Plain call) (hfile : Good file) : StubOk file call := by
  obtain ⟨stub, hstub, hfits⟩ := hcall
  refine ⟨stub, hstub, hfile.imp_right fun hsound => ⟨hsound, fun text ht => ?_⟩⟩
  exact ⟨(hfits text ht).scalar, (hfits text ht).unclosed, fun _ => (hfits text ht).inert trivial⟩

theorem sound_marked {before after : Str} (hopen : ¬ markerOpen <:+: before)
    (hpasted : ∀ text ∈ pasted stub, ¬ markerClose <:+: text) (hbefore : carriage ∉ before)
    (hafter : carriage ∉ after) (hnone : firstBlock after = none) :
    Sound (before ++ marked stub ++ after) := by
  rw [Sound, firstBlock_marked hopen hpasted]
  exact ⟨hbefore, hafter, hnone⟩

theorem sound_writeStub (hnot : ¬ Authored (content file)) (hsound : Sound (content file))
    (hfits : ∀ text ∈ pasted stub, Fits (markerOpen <:+: content file) text) :
    Sound (content (writeStub stub file).2) := by
  have hcurrent := (current_iff hnot).mpr ⟨hsound, hfits⟩
  have hpasted : ∀ text ∈ pasted stub, ¬ markerClose <:+: text := fun text ht =>
    (hfits text ht).unclosed
  cases hblock : firstBlock (content file) with
  | none =>
      rw [Sound, hblock] at hsound
      have hhead : ¬ heading <:+: content file := fun h => hnot ⟨h, hsound.1⟩
      have hunmarked : writeStub stub file = _ := writeStub_of_unmarked hsound.1 hhead
      have hreturned := hcurrent.returned
      rw [hunmarked, newlines_eq_self hsound.2] at hreturned ⊢
      rw [content_writeText hreturned, appended_eq]
      refine sound_marked (open_front hsound.1) hpasted (fun hmem => ?_) (by decide) (by decide)
      rcases List.mem_append.mp hmem with hmem | hmem
      · exact (mem_front hmem).elim (fun h => by cases h) hsound.2
      · exact absurd hmem (by decide)
  | some r =>
      obtain ⟨before, old, after⟩ := r
      rw [Sound, hblock] at hsound
      obtain ⟨_, hopen, _⟩ := firstBlock_eq_some_iff.mp hblock
      have hplaced := hcurrent.placed
      rw [placed_iff, hblock] at hplaced
      obtain ⟨_, _, _, heq, htext⟩ := hplaced.resolve_right fun hnone => by cases hnone.1
      cases heq
      rw [htext]
      exact sound_marked hopen hpasted hsound.1 hsound.2.1 hsound.2.2

theorem good_step (hfile : Good file) (hcall : Plain call) : Good (step file call) := by
  obtain ⟨stub, hstub, hok⟩ := hcall.stubOk hfile
  rw [step, writeHandoffStub_of_stub hstub]
  by_cases hauthored : Authored (content file)
  · rw [writeStub_of_authored hauthored]
    exact hfile
  · obtain ⟨hsound, hfits⟩ := hok.resolve_left hauthored
    exact Or.inr (sound_writeStub hauthored hsound hfits)

/-- **Runs.**  Calls whose texts fit keep a good file, however many there are. -/
theorem kept_of_good {calls : List Call} (hfile : Good file) (hcalls : ∀ call ∈ calls, Plain call) :
    Throughout step (fun f call => Kept f call (writeHandoffStub f call)) file calls := by
  have hmem : ∀ {before call}, before ++ [call] <+: calls → call ∈ calls := fun hprefix =>
    hprefix.subset (List.mem_append_right _ List.mem_cons_self)
  rw [stub_kept_iff]
  intro before call hprefix
  have hbefore : Throughout step (fun _ call => Plain call) file before :=
    fun earlier call hearlier =>
      hcalls call (hmem ((hearlier.trans (List.prefix_append before [_])).trans hprefix))
  exact (hcalls call (hmem hprefix)).stubOk
    (hbefore.keeps hfile fun f call hf hplain => good_step hf hplain)

def exampleMoment : Moment where
  text := "2026-01-01T00:00:00+00:00".toList
  plain := by
    have hall : ("2026-01-01T00:00:00+00:00".toList.all fun c =>
        "0123456789-:T+".toList.contains c) = true := by decide +kernel
    exact fun c hc => List.contains_iff_mem.mp (List.all_eq_true.mp hall c hc)

def exampleCall (arriving : String) : Call :=
  ⟨1, 2, exampleMoment, .unread, .unread, str arriving⟩

theorem backslash_notMem {s : Str} (h : ∀ c ∈ s, tame c = true) : backslash ∉ s := fun hmem => by
  cases h backslash hmem

/-- An escape that is unknown, in the message and nowhere before it. -/
theorem raised_of_escape {stub : Stub} {before old after s t : Str}
    (hblock : firstBlock (content file) = some (before, old, after))
    (hintent : backslash ∉ intentText stub) (heffect : backslash ∉ sideEffectText stub)
    (hs : backslash ∉ s) (harriving : arrivingText stub = s ++ backslash :: .char 'd' :: t) :
    (writeStub stub file).1 = .raised := by
  have hmarked : ∃ front behind, marked stub = front ++ backslash :: .char 'd' :: behind ∧
      backslash ∉ front := by
    refine ⟨markerOpen ++ ([feed] ++ (note stub ++ ([feed] ++ (str "- last durable intent: " ++
      (intentText stub ++ ([feed] ++ (str "- last side effect: " ++ (sideEffectText stub ++
      ([feed] ++ (str "- message arriving at the fold: " ++ s)))))))))),
      t ++ ([feed] ++ (record ++ ([feed] ++ markerClose))), ?_, ?_⟩
    · rw [marked, body, lines, harriving]
      simp [List.intercalate]
    · have hnote := backslash_notMem (tame_note stub)
      have hfirst : backslash ∉ str "- last durable intent: " :=
        backslash_notMem (tame_str String.toList_ofList rfl)
      have hsecond : backslash ∉ str "- last side effect: " :=
        backslash_notMem (tame_str String.toList_ofList rfl)
      have hthird : backslash ∉ str "- message arriving at the fold: " :=
        backslash_notMem (tame_str String.toList_ofList rfl)
      have hopen : backslash ∉ markerOpen := by decide
      have hfeed : backslash ∉ [feed] := by decide
      simp only [List.mem_append, not_or]
      exact ⟨hopen, hfeed, hnote, hfeed, hfirst, hintent, hfeed, hsecond, heffect, hfeed, hthird,
        hs⟩
  obtain ⟨front, behind, hmarked, hfront⟩ := hmarked
  rw [writeStub_of_firstBlock hblock, hmarked, template_append hfront, template_backslash]
  rfl

/-- A message with a path arrives when there is a block: the template has an unknown escape,
and the error is raised. -/
theorem path_in_message_raised :
    let file := some "<!-- harness-handoff -->old<!-- /harness-handoff -->".toList
    let call := exampleCall "open C:\\dir"
    (writeHandoffStub file call).1 = .raised ∧
      ¬ Throughout step (fun f call => Kept f call (writeHandoffStub f call)) file [call] := by
  have hblock : firstBlock (content
      (some "<!-- harness-handoff -->old<!-- /harness-handoff -->".toList)) =
      some ([], str "old", []) := by
    have hfile : "<!-- harness-handoff -->old<!-- /harness-handoff -->".toList = _ :=
      String.toList_ofList
    have hopen : markerOpen = lift _ := congrArg lift String.toList_ofList
    have hclose : markerClose = lift _ := congrArg lift String.toList_ofList
    have hold : str "old" = lift _ := congrArg lift String.toList_ofList
    refine firstBlock_eq_some_iff.mpr ⟨?_, fun h => ?_, fun h => ?_⟩
    · rw [content, hfile, hopen, hclose, hold]
      rfl
    · exact absurd (List.infix_nil.mp h) (by decide)
    · exact absurd (h.subset (a := .char '<') (by decide)) (by decide)
  have hmessage : str "open C:\\dir" = lift _ := congrArg lift String.toList_ofList
  have hraised : (writeHandoffStub
      (some "<!-- harness-handoff -->old<!-- /harness-handoff -->".toList)
      (exampleCall "open C:\\dir")).1 = .raised := by
    have hstub : (exampleCall "open C:\\dir").stub =
        some ⟨1, 2, exampleMoment, [], [], str "open C:\\dir"⟩ := by
      rw [exampleCall, hmessage]
      rfl
    rw [writeHandoffStub, hstub]
    have hnone : backslash ∉ str "(none recorded)" :=
      backslash_notMem (tame_str String.toList_ofList rfl)
    refine raised_of_escape (s := str "open C:") (t := str "ir") hblock hnone hnone
      (backslash_notMem (tame_str String.toList_ofList rfl)) ?_
    rw [arrivingText, hmessage]
    have hfront : str "open C:" = lift _ := congrArg lift String.toList_ofList
    have hrest : str "ir" = lift _ := congrArg lift String.toList_ofList
    rw [hfront, hrest]
    rfl
  exact ⟨hraised, fun h => (h [] _ List.prefix_rfl).returned hraised⟩

end Runs

end Handoff
end DiploidAgent
