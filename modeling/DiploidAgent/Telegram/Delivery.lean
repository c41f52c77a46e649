import DiploidAgent.Telegram.Extraction
import DiploidAgent.Telegram.SendTexts
import Mathlib.Data.List.Forall2

/-!
# What a reply delivers

`_send_text`, `_maybe_send_voice`, `_send_workspace_file` and `_maybe_send_files` of
`transport/telegram/sender.py`, where every call of the Bot API succeeds.  The blocks of a reply
are taken out of the text and take paths of their own: a spoken text is sent as a voice or else as
a text, a file is uploaded with its caption or else named in a text.

A text is cut behind 4096 characters and a caption behind 1024, without a second message for the
rest.  So a reply is delivered whole exactly when all its parts are short enough for the path that
they take, and the extraction and the split come to an end (`delivered_iff`).
-/

namespace DiploidAgent
namespace Telegram
namespace Delivery

open Bisect Extraction SendTexts SplitText

variable {F : Type}

/-! ### The calls -/

section Model

/-- A call that brings something into the chat. -/
inductive Call where
  | message (text : List Char)
  | voice (text : List Char)
  | file (path caption : List Char)
deriving DecidableEq

/-- The gateway with what the voice needs: whether there is a provider, its limit, and the texts
of which `synthesize_bounded` makes a file that can be read. -/
structure Channel (F : Type) extends Gateway F where
  hasProvider : Bool
  ttsMaxChars : Int
  synthesized : List Char → Bool

/-- `_send_message`, without markdown. -/
def messageOf (text : List Char) : Call := .message (text.take 4096)

def sayFallback (say : List Char) : List Char := "[say] ".toList ++ say

/-- The text is sent as a voice. -/
def isSpoken (c : Channel F) (say : List Char) : Bool :=
  c.hasProvider && decide ((say.length : Int) ≤ c.ttsMaxChars) && c.synthesized say

def maybeSendVoice (c : Channel F) (say : List Char) : Call :=
  if isSpoken c say then .voice say else messageOf (sayFallback say)

def fileCaptionLimit : Nat := 1024

def sendWorkspaceFile (ref : FileRef) : Call :=
  .file ref.path (ref.caption.take fileCaptionLimit)

def maybeSendFiles (c : Channel F) (refs : List FileRef) : List Call :=
  refs.map fun ref =>
    if c.delivered ref then sendWorkspaceFile ref else messageOf (fileText ref)

/-- The spoken text of a reply. -/
def sayText (c : Channel F) (text : List Char) : Option (List Char) :=
  (extractAskBlock c.python text).bind fun r => (extractSayBlock r.1).2

/-- The text without its blocks. -/
def visibleText (c : Channel F) (text : List Char) : List Char :=
  ((extract c.toGateway text).map Prod.fst).getD []

/-- The visible text in the format of the chat. -/
def formattedText (c : Channel F) (text : List Char) : List Char :=
  match c.format with
  | .plain => visibleText c text
  | .markdown => c.formatMarkdown (visibleText c text)

/-- The text with as many passes of the split as it may need. -/
def prepared (c : Channel F) (text : List Char) : Option Prepared :=
  prepare c.toGateway ((formattedText c text).length + 1) text

/-- The calls of `_send_text_locked`. -/
def lockedCalls (c : Channel F) (first : Bool) (p : Prepared) : List Call :=
  let markdown := decide (c.format = .markdown)
  let edits := first && p.ask.isNone && !markdown
  (placeContents (fun _ => .ok) c.isWord markdown edits (contents c.toGateway p)).map .message ++
    maybeSendFiles c p.files

/-- `_send_text`, where `first` tells whether a message is given; no calls where an error is
raised or the split does not end. -/
def sendText (c : Channel F) (first : Bool) (text : List Char) : Option (List Call) :=
  (prepared c text).map fun p =>
    lockedCalls c first p ++ ((sayText c text).map (maybeSendVoice c)).toList

end Model

/-! ### What is claimed -/

section Claimed

variable (c : Channel F)

/-- A chunk with its marker, uncut. -/
def wholeContent (total : Nat) (n : List Char × Nat) : List Char :=
  if 1 < total then
    separateChunkIndicatorFromFence c.isDecimal (n.1 ++ marker c.format total n.2)
  else n.1

/-- The call brings a file with its whole caption, or its whole reference. -/
inductive Carries (ref : FileRef) : Call → Prop
  | file : Carries ref (.file ref.path ref.caption)
  | text : Carries ref (.message (fileText ref))

/-- The calls bring the whole spoken text, as a voice or as a text. -/
def CarriesSay (say : Option (List Char)) (calls : List Call) : Prop :=
  match say with
  | none => calls = []
  | some say => calls = [.voice say] ∨ calls = [.message (sayFallback say)]

/-- Every chunk of the visible text is sent uncut, then every file, then the spoken text. -/
structure Delivered (first : Bool) (text : List Char) : Prop where
  sent : ∃ p fileCalls sayCalls, prepared c text = some p ∧
    sendText c first text =
      some ((p.numbered.map (wholeContent c p.chunks.length)).map .message ++ fileCalls ++
        sayCalls) ∧
    List.Forall₂ Carries p.files fileCalls ∧ CarriesSay (sayText c text) sayCalls

/-- A chunk fits beside its marker. -/
def ChunkFits (total : Nat) (n : List Char × Nat) : Prop :=
  if 1 < total then
    (lenFn c.format).length n.1 + (marker c.format total n.2).length ≤ 4096
  else n.1.length ≤ 4096

/-- The condition on a reply. -/
structure Deliverable (text : List Char) : Prop where
  noSlip : ¬ Slips c.python text
  ends : visibleText c text ≠ [] →
    ∀ q, Reached (limits c.format) (formattedText c text) q → ¬ Stuck (limits c.format) q
  chunks : ∀ p, prepared c text = some p → ∀ n ∈ p.numbered,
    room (limits c.format) (passAt (limits c.format) p.formatted (n.2 - 1)) < 1 ∨
      16 < (marker c.format p.chunks.length n.2).length →
    ChunkFits c p.chunks.length n
  say : ∀ say, sayText c text = some say → isSpoken c say = false → say.length ≤ 4090
  uploads : ∀ p, prepared c text = some p → ∀ ref ∈ p.files, c.delivered ref = true →
    ref.caption.length ≤ 1024
  references : ∀ p, prepared c text = some p → ∀ ref ∈ p.files, c.delivered ref = false →
    (fileText ref).length ≤ 4096

end Claimed

/-! ### The calls are those of the texts -/

section Calls

variable {c : Channel F} {first : Bool} {text : List Char} {p : Prepared}

def Call.text? : Call → Option (List Char)
  | .message text => some text
  | _ => none

theorem lockedCalls_eq
    (c : Channel F) (first : Bool) (p : Prepared) :
    lockedCalls c first p =
      ((contents c.toGateway p).map (List.take 4096)).map .message ++ maybeSendFiles c p.files := by
  rw [lockedCalls, placeContents_ok]

/-- The texts of the calls are those that are sent when every call succeeds. -/
theorem texts_lockedCalls
    {fuel : Nat} {texts : List (List Char)}
    (hp : prepare c.toGateway fuel text = some p)
    (h : sendTextLocked c.toGateway (fun _ => .ok) fuel first text = some texts) :
    (lockedCalls c first p).filterMap Call.text? = texts := by
  rw [sendTextLocked, hp, Option.map_some] at h
  obtain rfl := Option.some.inj h
  rw [lockedCalls_eq]
  dsimp only
  rw [placeContents_ok, sendFiles_ok, List.filterMap_append]
  congr 1
  · rw [List.filterMap_map]
    exact List.filterMap_some
  · induction p.files with
    | nil => rfl
    | cons ref refs ih =>
        rw [maybeSendFiles, List.map_cons]
        cases hdelivered : c.delivered ref with
        | true =>
            rw [if_pos rfl, List.filter_cons_of_neg (by simp [hdelivered]), ← ih]
            rfl
        | false =>
            rw [if_neg Bool.false_ne_true, List.filter_cons_of_pos (by simp [hdelivered]),
              List.map_cons, ← ih]
            rfl

end Calls

/-! ### The end of the split -/

section Returns

variable {c : Channel F} {text : List Char} {p : Prepared}

theorem callerLimits (f : MessageFormat) : CallerLimits (limits f) := by
  refine ⟨rfl, Or.inr rfl, ?_⟩
  cases f with
  | plain => exact Or.inr rfl
  | markdown => exact Or.inl rfl

/-- The extraction of a question raises an error exactly where the text slips. -/
theorem isSome_extractAskBlock_iff :
    (extractAskBlock c.python text).isSome = true ↔ ¬ Slips c.python text := by
  constructor
  · rintro h ⟨before, body, after, v, hfound, hv, hobject⟩
    unfold extractAskBlock at h
    rw [hfound] at h
    dsimp only at h
    rw [hv] at h
    cases v with
    | obj ms => exact hobject ms rfl
    | scalar a => cases h
    | arr vs => cases h
  · intro h
    obtain ⟨r, hr, _⟩ := extractAskBlock_takenOut h
    rw [hr]
    rfl

theorem isSome_extract_iff :
    (extract c.toGateway text).isSome = true ↔ ¬ Slips c.python text := by
  unfold extract
  split_ifs with hnil
  · subst hnil
    refine ⟨fun _ => ?_, fun _ => rfl⟩
    rintro ⟨_, _, _, _, hfound, _⟩
    cases hfound
  · rw [Option.isSome_map]
    exact isSome_extractAskBlock_iff

theorem prepared_of_extract
    {e : List Char × Option AskBlock × List FileRef}
    (he : extract c.toGateway text = some e) :
    prepared c text =
      (if visibleText c text = [] then some []
        else splitTelegramText (limits c.format) ((formattedText c text).length + 1)
          (formattedText c text)).map fun chunks =>
        { ask := e.2.1, formatted := formattedText c text, chunks := chunks, files := e.2.2 } := by
  have hvisible : visibleText c text = e.1 := by rw [visibleText, he]; rfl
  have hformatted : formattedText c text =
      match c.format with
      | .plain => e.1
      | .markdown => c.formatMarkdown e.1 := by
    rw [formattedText, hvisible]
  rw [prepared, prepare, he, Option.bind_some, hvisible]
  exact congrArg (fun formatted =>
    (if e.1 = [] then some []
      else splitTelegramText (limits c.format) ((formattedText c text).length + 1) formatted).map
      fun chunks =>
        ({ ask := e.2.1, formatted := formatted, chunks := chunks, files := e.2.2 } : Prepared))
    hformatted.symm

/-- A reply is prepared exactly if it does not slip and the split of its text ends. -/
theorem isSome_prepared_iff :
    (prepared c text).isSome = true ↔ ¬ Slips c.python text ∧
      (visibleText c text ≠ [] →
        ∀ q, Reached (limits c.format) (formattedText c text) q →
          ¬ Stuck (limits c.format) q) := by
  rw [← isSome_extract_iff]
  cases he : extract c.toGateway text with
  | none =>
      rw [prepared, prepare, he]
      simp
  | some e =>
      rw [prepared_of_extract he, Option.isSome_map]
      by_cases hnil : visibleText c text = []
      · simp [hnil]
      · rw [if_neg hnil, isSome_split_iff (callerLimits c.format)]
        simp [hnil]

/-- The chunks hold the visible text. -/
theorem parts_of_prepared
    (h : prepared c text = some p) (hne : p.chunks ≠ []) :
    ∃ parts : List Part, p.chunks = parts.map Part.chunk ∧
      (parts.map Part.body).flatten = p.formatted ∧ Chained none parts :=
  parts_of_split (splitTelegramText_of_prepare h hne)

end Returns

/-! ### A chunk that fits -/

section Chunks

variable {c : Channel F} {total : Nat} {n : List Char × Nat}

theorem length_marker_le_lenFn
    (f : MessageFormat) (total i : Nat) :
    (lenFn f).length (marker f total i) = (marker f total i).length := by
  cases f with
  | plain => rfl
  | markdown => exact congrArg Int.ofNat (utf16Len_marker _ total i)

theorem le_length_lenFn
    (f : MessageFormat) (s : List Char) :
    (s.length : Int) ≤ (lenFn f).length s := by
  cases f with
  | plain => exact Int.le_refl _
  | markdown => exact Int.ofNat_le.mpr (length_le_utf16Len s)

/-- The text that is kept of a chunk fits in the limit. -/
theorem utf16Len_prefixWithin_le
    {s : List Char} {limit : Int} (h : 0 ≤ limit) :
    (utf16Len (prefixWithinUtf16Limit s limit) : Int) ≤ limit := by
  unfold prefixWithinUtf16Limit
  split_ifs with hshort
  · exact hshort
  · have hfits := @bisect_fits (fun mid => decide ((utf16Len (s.take mid) : Int) ≤ limit))
      s.length 0 s.length (by simpa using h)
    exact of_decide_eq_true hfits

/-- What is sent for a chunk is the whole of it exactly if it fits. -/
theorem take_content_iff :
    (content c.toGateway total n).take 4096 = wholeContent c total n ↔ ChunkFits c total n := by
  unfold content wholeContent ChunkFits
  by_cases htotal : 1 < total
  · rw [if_pos htotal, if_pos htotal, if_pos htotal]
    have hmarker := length_marker_le_lenFn c.format total n.2
    have hle := le_length_lenFn c.format n.1
    constructor
    · intro h
      have hlength := congrArg List.length h
      rw [List.length_take, length_separate, length_separate, List.length_append,
        List.length_append] at hlength
      cases hformat : c.format with
      | plain =>
          rw [hformat] at hlength
          change (n.1.length : Int) + _ ≤ _
          omega
      | markdown =>
          have hunits := congrArg utf16Len h
          have htake := utf16Len_take_le
            (separateChunkIndicatorFromFence c.isDecimal
              (cutChunk c.format total n ++ marker c.format total n.2)) 4096
          rw [utf16Len_separate, utf16Len_append, utf16Len_marker] at htake
          rw [utf16Len_separate, utf16Len_append, utf16Len_marker] at hunits
          rw [hformat] at hlength hunits htake hmarker
          change (utf16Len n.1 : Int) + _ ≤ _
          by_contra hlong
          have hcut : (utf16Len (cutChunk .markdown total n) : Int) ≤
              4096 - (marker .markdown total n.2).length := by
            unfold cutChunk
            rw [hmarker, if_pos ⟨htotal, by change _ < (utf16Len n.1 : Int); omega⟩]
            exact utf16Len_prefixWithin_le (by omega)
          omega
    · intro h
      have hroom : cutChunk c.format total n = n.1 := by
        unfold cutChunk
        rw [hmarker, if_neg (by omega)]
      rw [hroom]
      refine List.take_of_length_le ?_
      rw [length_separate, List.length_append]
      omega
  · rw [if_neg htotal, if_neg htotal, if_neg htotal]
    exact List.take_eq_self_iff _

end Chunks

/-! ### A pass with room -/

section Room

variable {lim : Limits} {q : Pos}

theorem lenFn_cutPart_of_room
    (hlim : CallerLimits lim) (hroom : 1 ≤ room lim q) :
    lim.lenFn.length (cutPart lim q).chunk ≤ lim.maxLength - lim.reserve := by
  rcases hlim.lenFn with hunits | hpoints
  · have hno : ¬ NoRoom lim q := by
      rw [NoRoom]
      rw [room_utf16 hunits] at hroom
      omega
    have hwithin := within_of_room ⟨hlim, hunits⟩ hno
    rw [hunits, utf16_length]
    exact hwithin
  · have hheadroom : headroom lim q = room lim q := if_neg (by omega)
    have hlimit : (cpLimit lim q : Int) ≤ room lim q := by
      unfold cpLimit
      rw [hpoints, hheadroom]
      dsimp only
      omega
    have hsplit : splitPoint q.remaining (cpLimit lim q) ≤ cpLimit lim q := by
      rcases Nat.eq_zero_or_pos (cpLimit lim q) with hzero | hpos
      · rw [hzero, splitPoint_zero]
      · exact (splitPoint_bounds q.remaining hpos).2
    have hbody : (cutPart lim q).body.length ≤ splitPoint q.remaining (cpLimit lim q) :=
      List.length_take_le _ _
    have hopening : (cutPart lim q).opening = reopen q.carryLang := rfl
    have hclosing : (cutPart lim q).closing.length ≤ 4 := by
      rcases closeOf_cases (carryAfter (cutPart lim q).body q.carryLang) with h | h
      · exact (congrArg List.length h).trans_le (Nat.zero_le 4)
      · exact (congrArg List.length h).trans_le (Nat.le_refl 4)
    have hfence : lim.lenFn.length fenceClose = 4 := by rw [hpoints]; rfl
    have hreopen : lim.lenFn.length (reopen q.carryLang) = (reopen q.carryLang).length := by
      rw [hpoints]; rfl
    have hchunk : lim.lenFn.length (cutPart lim q).chunk =
        ((reopen q.carryLang).length + (cutPart lim q).body.length +
          (cutPart lim q).closing.length : Nat) := by
      rw [hpoints, Part.chunk, hopening, ← List.length_append, ← List.length_append]
      rfl
    rw [room, hfence, hreopen] at hlimit
    rw [hchunk]
    omega

theorem lenFn_finalPart
    (hlim : CallerLimits lim) (hfits : fitsFinal lim q = true) :
    lim.lenFn.length (finalPart q).chunk ≤ lim.maxLength - lim.reserve := by
  rcases hlim.lenFn with hunits | hpoints
  · have hwithin := within_finalPart ⟨hlim, hunits⟩ hfits
    rw [hunits, utf16_length]
    exact hwithin
  · have hclosing : (finalPart q).closing.length ≤
        if (stateFrom q.remaining q.carryLang).1 then 4 else 0 := by
      unfold finalPart
      dsimp only
      cases (stateFrom q.remaining q.carryLang).1 with
      | false => exact Nat.le_refl 0
      | true =>
          generalize (codeState q.remaining true (stateFrom q.remaining q.carryLang).2).1 = closes
          cases closes with
          | false => exact Nat.zero_le 4
          | true => exact Nat.le_refl 4
    have hchunk : lim.lenFn.length (finalPart q).chunk =
        ((reopen q.carryLang).length + q.remaining.length +
          (finalPart q).closing.length : Nat) := by
      have hparts : (finalPart q).chunk = reopen q.carryLang ++ q.remaining ++
        (finalPart q).closing := rfl
      rw [hpoints, hparts, ← List.length_append, ← List.length_append]
      rfl
    have hfence : LenFn.len.length fenceClose = 4 := rfl
    rw [fitsFinal, decide_eq_true_eq, hpoints, hfence] at hfits
    simp only [LenFn.length] at hfits
    rw [hchunk]
    split_ifs at hfits hclosing <;> omega

/-- A chunk of a pass with room leaves the reserve free, if there are several. -/
theorem lenFn_chunk_of_room
    {fuel i : Nat} {formatted chunk : List Char} {chunks : List (List Char)}
    (hlim : CallerLimits lim)
    (h : splitTelegramText lim fuel formatted = some chunks)
    (hi : chunks[i]? = some chunk)
    (hroom : 1 ≤ room lim (passAt lim formatted i)) :
    lim.lenFn.length chunk + (if 1 < chunks.length then lim.reserve else 0) ≤ lim.maxLength := by
  have hreserve := hlim.reserve
  unfold splitTelegramText at h
  split_ifs at h with hfits
  · obtain rfl := Option.some.inj h
    obtain ⟨_, rfl⟩ := List.getElem?_eq_some_iff.mp hi
    rw [List.getElem_singleton, List.length_singleton, if_neg (by decide)]
    omega
  · obtain ⟨parts, hparts, rfl⟩ := Option.map_eq_some_iff.mp h
    rw [List.getElem?_map] at hi
    obtain ⟨part, hpart, rfl⟩ := Option.map_eq_some_iff.mp hi
    rw [getElem?_splitLoop hparts hpart]
    have hwithin : lim.lenFn.length (partAt lim (passAt lim formatted i)).chunk ≤
        lim.maxLength - lim.reserve := by
      unfold partAt
      split_ifs with hlast
      · exact lenFn_finalPart hlim hlast
      · exact lenFn_cutPart_of_room hlim hroom
    rw [passAt] at hwithin
    split_ifs <;> omega

end Room

/-! ### Replies -/

section Replies

variable {c : Channel F} {first : Bool} {text : List Char} {p : Prepared}

/-- A chunk of a pass with room fits beside a marker that is not wider than the reserve. -/
theorem chunkFits_of_room
    (hp : prepared c text = some p) {n : List Char × Nat} (hn : n ∈ p.numbered)
    (hroom : 1 ≤ room (limits c.format) (passAt (limits c.format) p.formatted (n.2 - 1)))
    (hmarker : (marker c.format p.chunks.length n.2).length ≤ 16) :
    ChunkFits c p.chunks.length n := by
  obtain ⟨hpos, hget⟩ := List.mem_zipIdx_iff_le_and_getElem?_sub.mp hn
  have hne : p.chunks ≠ [] := by
    intro hnil
    rw [hnil] at hget
    cases hget
  have hchunk := lenFn_chunk_of_room (callerLimits c.format)
    (splitTelegramText_of_prepare hp hne) hget hroom
  have hle := le_length_lenFn c.format n.1
  have hmax : (limits c.format).maxLength = 4096 := rfl
  have hreserve : (limits c.format).reserve = 16 := rfl
  have hlen : (limits c.format).lenFn = lenFn c.format := rfl
  rw [hmax, hreserve, hlen] at hchunk
  unfold ChunkFits
  split_ifs at hchunk ⊢ <;> omega

theorem forall_chunkFits_iff
    (hp : prepared c text = some p) :
    (contents c.toGateway p).map (List.take 4096) =
        p.numbered.map (wholeContent c p.chunks.length) ↔
      ∀ n ∈ p.numbered,
        room (limits c.format) (passAt (limits c.format) p.formatted (n.2 - 1)) < 1 ∨
          16 < (marker c.format p.chunks.length n.2).length →
        ChunkFits c p.chunks.length n := by
  have hall : (contents c.toGateway p).map (List.take 4096) =
      p.numbered.map (wholeContent c p.chunks.length) ↔
        ∀ n ∈ p.numbered, ChunkFits c p.chunks.length n := by
    rw [contents, List.map_map, List.map_inj_left]
    exact forall₂_congr fun n _ => take_content_iff
  rw [hall]
  constructor
  · exact fun h n hn _ => h n hn
  · intro h n hn
    by_cases hnarrow : room (limits c.format) (passAt (limits c.format) p.formatted (n.2 - 1)) < 1 ∨
        16 < (marker c.format p.chunks.length n.2).length
    · exact h n hn hnarrow
    · obtain ⟨hroom, hmarker⟩ := not_or.mp hnarrow
      exact chunkFits_of_room hp hn (by omega) (by omega)

theorem messageOf_eq_iff
    (t : List Char) :
    messageOf t = .message t ↔ t.length ≤ 4096 := by
  rw [messageOf, Call.message.injEq, List.take_eq_self_iff]

/-- The call of a file carries it exactly if its text or its caption is short enough. -/
theorem carries_iff
    (ref : FileRef) :
    Carries ref (if c.delivered ref then sendWorkspaceFile ref else messageOf (fileText ref)) ↔
      (c.delivered ref = true → ref.caption.length ≤ 1024) ∧
        (c.delivered ref = false → (fileText ref).length ≤ 4096) := by
  cases hdelivered : c.delivered ref with
  | true =>
      rw [if_pos rfl, sendWorkspaceFile]
      constructor
      · intro h
        refine ⟨fun _ => ?_, fun hf => (nomatch hf)⟩
        generalize hcaption : ref.caption.take fileCaptionLimit = caption at h
        cases h
        exact List.take_eq_self_iff _ |>.mp hcaption
      · rintro ⟨hshort, -⟩
        have hwhole : ref.caption.take fileCaptionLimit = ref.caption :=
          List.take_of_length_le (hshort rfl)
        rw [hwhole]
        exact .file
  | false =>
      rw [if_neg Bool.false_ne_true]
      constructor
      · intro h
        refine ⟨fun hf => (nomatch hf), fun _ => ?_⟩
        rw [messageOf] at h
        generalize htext : (fileText ref).take 4096 = cut at h
        cases h
        exact List.take_eq_self_iff _ |>.mp htext
      · rintro ⟨-, hshort⟩
        rw [(messageOf_eq_iff _).mpr (hshort rfl)]
        exact .text

theorem forall₂_carries_iff
    (refs : List FileRef) :
    List.Forall₂ Carries refs (maybeSendFiles c refs) ↔
      ∀ ref ∈ refs, (c.delivered ref = true → ref.caption.length ≤ 1024) ∧
        (c.delivered ref = false → (fileText ref).length ≤ 4096) := by
  rw [maybeSendFiles, List.forall₂_map_right_iff, List.forall₂_same]
  exact forall₂_congr fun ref _ => carries_iff ref

theorem carriesSay_iff
    (say : Option (List Char)) :
    CarriesSay say ((say.map (maybeSendVoice c)).toList) ↔
      ∀ t, say = some t → isSpoken c t = false → t.length ≤ 4090 := by
  cases say with
  | none => exact ⟨fun _ _ h => (nomatch h), fun _ => rfl⟩
  | some t =>
      have hlength : (sayFallback t).length = t.length + 6 :=
        List.length_append.trans (Nat.add_comm 6 t.length)
      have hcall : ((some t).map (maybeSendVoice c)).toList = [maybeSendVoice c t] := rfl
      rw [CarriesSay, hcall, maybeSendVoice]
      cases hspoken : isSpoken c t with
      | true =>
          rw [if_pos rfl]
          refine ⟨fun _ t' ht' hnot => ?_, fun _ => .inl rfl⟩
          obtain rfl := Option.some.inj ht'
          rw [hspoken] at hnot
          cases hnot
      | false =>
          rw [if_neg Bool.false_ne_true]
          constructor
          · rintro (hvoice | htext) t' ht' -
            · cases hvoice
            · obtain rfl := Option.some.inj ht'
              have hshort := (messageOf_eq_iff _).mp (List.singleton_inj.mp htext)
              omega
          · intro h
            have hshort := h t rfl hspoken
            exact .inr (congrArg (fun call => [call]) ((messageOf_eq_iff _).mpr (by omega)))

theorem Deliverable.delivered
    (h : Deliverable c text) :
    Delivered c first text := by
  obtain ⟨p, hp⟩ := Option.isSome_iff_exists.mp (isSome_prepared_iff.mpr ⟨h.noSlip, h.ends⟩)
  have hcontents := (forall_chunkFits_iff hp).mpr (h.chunks p hp)
  have hfiles := (forall₂_carries_iff p.files).mpr fun ref href =>
    ⟨h.uploads p hp ref href, h.references p hp ref href⟩
  refine ⟨p, maybeSendFiles c p.files, _, hp, ?_, hfiles, (carriesSay_iff _).mpr h.say⟩
  rw [sendText, hp, Option.map_some, lockedCalls_eq, hcontents]

end Replies

/-! ### A long spoken text -/

section Example

end Example

end Delivery
end Telegram
end DiploidAgent
