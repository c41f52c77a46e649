import DiploidAgent.Lib.JsonDumps
import DiploidAgent.Lib.Text

/-!
# Reconciling a replayed session

After a resume the server replays the whole session.  The replay is put together into
turns, and those after the last user message of the transcript are adopted; where that
message does not occur in the replay, as many turns are skipped as the transcript has
user messages.

With the file backend what is adopted is written to the transcript and known to the next
run, which adopts nothing (`reconcile_file_idempotent`).
-/

namespace DiploidAgent
namespace Turns
namespace Reconcile

open JsonText Lines Text

variable {F : Type}

/-! ### The replay -/

/-- The content of an update: a list of blocks, of which those that are no dicts are
dropped, one block, or something else.  A block without a text has the empty one. -/
inductive Content where
  | blocks (texts : List (Option (List Char)))
  | block (text : List Char)
  | other

/-- An update, with its `sessionUpdate`. -/
structure Update where
  kind : String
  content : Content

/-- `_chunk_text`. -/
def chunkText (u : Update) : List Char :=
  match u.content with
  | .blocks texts => texts.flatMap fun t => t.getD []
  | .block text => text
  | .other => []

structure ExternalTurn where
  user : List Char
  assistant : List Char
deriving DecidableEq

/-- The turns that are complete and the one that is being put together. -/
structure Building where
  turns : List ExternalTurn
  current : Option ExternalTurn

/-- One update of `reconstruct_turns`. -/
def Building.add (b : Building) (u : Update) : Building :=
  if u.kind = "user_message_chunk" then
    match b.current with
    | some t =>
        if t.assistant ≠ [] then
          { turns := b.turns ++ [t]
            current := some { user := chunkText u, assistant := [] } }
        else { b with current := some { t with user := t.user ++ chunkText u } }
    | none => { b with current := some { user := chunkText u, assistant := [] } }
  else if u.kind = "agent_message_chunk" then
    let t := b.current.getD { user := [], assistant := [] }
    { b with current := some { t with assistant := t.assistant ++ chunkText u } }
  else b

/-- `reconstruct_turns`. -/
def reconstructTurns (updates : List Update) : List ExternalTurn :=
  let b := updates.foldl Building.add { turns := [], current := none }
  b.turns ++ b.current.toList

/-! ### The transcript -/

/-- The text of a transcript file; its writers end every line. -/
structure Transcript where
  text : List Char
  ended : text = [] ∨ ∃ l, text = l ++ ['\n']

/-- The entries of a transcript; a line that is no JSON is skipped. -/
def parseTranscript (N : FloatText F) (text : List Char) : List (Value F) :=
  (splitLines text).filterMap fun line =>
    if line.all isSpace then none else loads N line

/-- `append_transcript` of an external turn. -/
def turnEntries (t : ExternalTurn) : List (Value F) :=
  [.obj [("role".toList, .text "user"), ("content".toList, .scalar (.str t.user)),
      ("external".toList, .scalar (.bool true))],
    .obj [("role".toList, .text "assistant"), ("content".toList, .scalar (.str t.assistant)),
      ("external".toList, .scalar (.bool true))]]

/-- The lines of entries. -/
def entryText (N : FloatText F) (entries : List (Value F)) : List Char :=
  entries.flatMap fun v => dumps true N v ++ ['\n']

theorem ended_append
    (N : FloatText F) (t : Transcript) (entries : List (Value F)) :
    t.text ++ entryText N entries = [] ∨
      ∃ l, t.text ++ entryText N entries = l ++ ['\n'] := by
  rcases List.eq_nil_or_concat entries with rfl | ⟨before, v, rfl⟩
  · rw [entryText, List.flatMap_nil, List.append_nil]
    exact t.ended
  · refine Or.inr ⟨t.text ++ (entryText N before ++ dumps true N v), ?_⟩
    simp [entryText]

def Transcript.append (N : FloatText F) (t : Transcript) (entries : List (Value F)) :
    Transcript where
  text := t.text ++ entryText N entries
  ended := ended_append N t entries

/-- The user message of an entry; `strOf` is `str` of a value that is no string. -/
def userContent (strOf : Value F → List Char) : Value F → Option (List Char)
  | .obj ms =>
      if (member ms "role").bind Value.text? = some "user" then
        match member ms "content" with
        | none => some []
        | some (.scalar (.str s)) => some s
        | some v => some (strOf v)
      else none
  | _ => none

/-- The backends; the one for Hindsight has no transcript of its own. -/
inductive Backend where
  | file
  | hindsight
deriving DecidableEq

/-- `_known_users`: no transcript to load is an empty one. -/
def knownUsers (N : FloatText F) (strOf : Value F → List Char) (t : Transcript) :
    Backend → List (List Char)
  | .file => (parseTranscript N t.text).filterMap (userContent strOf)
  | .hindsight => []

/-- Writing the adopted turns; an error is logged and passed over. -/
def adopt (N : FloatText F) (t : Transcript) (turns : List ExternalTurn) : Backend → Transcript
  | .file => t.append N (turns.flatMap turnEntries)
  | .hindsight => t

/-! ### The run -/

/-- The last position whose item satisfies `p`. -/
def lastIndex {α : Type} (p : α → Bool) : List α → Option Nat
  | [] => none
  | a :: l =>
      match lastIndex p l with
      | some i => some (i + 1)
      | none => if p a then some 0 else none

inductive Divergence where
  | unaccountedPrefix (skippedUsers : List (List Char)) (alignedAt : Nat)
  | tailUnmatchedFallback (replayed knownUsers : Nat)
  | tailUnmatched (replayed knownUsers : Nat)
deriving DecidableEq

structure Report where
  externalTurns : List ExternalTurn
  aligned : Bool
deriving DecidableEq

/-- The report, the transcript, `record.external_turns`, what was logged as a divergence,
and the turns that the plugins were told of. -/
structure Outcome where
  report : Option Report
  transcript : Transcript
  externalTurns : Nat
  divergences : List Divergence
  hooks : List (List ExternalTurn)

local instance lawfulBEqChars : LawfulBEq (List Char) := inferInstance

/-- The turns that were driven elsewhere, whether the tail was matched, and what is
logged. -/
def findExternal (known : List (List Char)) (replayed : List ExternalTurn) :
    List ExternalTurn × Bool × List Divergence :=
  let start := known.getLast?.bind fun last => lastIndex (fun t => t.user == last) replayed
  match start with
  | some i =>
      let unaccounted := ((replayed.take i).filter fun t => t.user ∉ known).map fun t =>
        t.user.take 120
      (replayed.drop (i + 1), true,
        if unaccounted = [] then [] else [.unaccountedPrefix unaccounted i])
  | none =>
      if known.length < replayed.length then
        (replayed.drop known.length, false,
          [.tailUnmatchedFallback replayed.length known.length])
      else ([], false, [.tailUnmatched replayed.length known.length])

/-- `reconcile_after_resume`. -/
def reconcile (N : FloatText F) (strOf : Value F → List Char) (backend : Backend)
    (updates : List Update) (t : Transcript) (externalTurns : Nat) : Outcome :=
  if updates = [] then
    { report := none
      transcript := t
      externalTurns := externalTurns
      divergences := []
      hooks := [] }
  else
    let known := knownUsers N strOf t backend
    let replayed := reconstructTurns updates
    let (external, matched, divergences) := findExternal known replayed
    if external = [] then
      { report := some {
          externalTurns := []
          aligned := matched || known.isEmpty }
        transcript := t
        externalTurns := externalTurns
        divergences := divergences
        hooks := [] }
    else
      { report := some { externalTurns := external, aligned := matched }
        transcript := adopt N t external backend
        externalTurns := externalTurns + external.length
        divergences := divergences
        hooks := [external] }

/-- The turns that a run adopted. -/
def Outcome.adopted (o : Outcome) : List ExternalTurn :=
  (o.report.map Report.externalTurns).getD []

/-! ### What is known to the next run -/

section Transcripts

variable {N : FloatText F} {strOf : Value F → List Char} {t : Transcript}

theorem parseTranscript_append
    (t : Transcript) (text : List Char) :
    parseTranscript N (t.text ++ text) = parseTranscript N t.text ++ parseTranscript N text := by
  have hlines : splitLines (t.text ++ text) = splitLines t.text ++ splitLines text := by
    rcases t.ended with hnil | ⟨l, hl⟩
    · rw [hnil]
      rfl
    · rw [hl, List.append_assoc, List.singleton_append]
      exact splitLines_append_newline text l
  rw [parseTranscript, hlines, List.filterMap_append]
  rfl

theorem parseTranscript_entryText
    {entries : List (Value F)} (h : ∀ v ∈ entries, ∃ ms, v = .obj ms) :
    parseTranscript N (entryText N entries) = entries := by
  have hlines : splitLines (entryText N entries) = entries.map (dumps true N) :=
    splitLines_dumps (Or.inl rfl)
  rw [parseTranscript, hlines, List.filterMap_map]
  refine (List.filterMap_congr fun v hv => ?_).trans List.filterMap_some
  obtain ⟨ms, rfl⟩ := h v hv
  have hspace : (dumps true N (.obj ms)).all isSpace = false := by
    cases ms <;> rfl
  rw [Function.comp_apply, hspace]
  exact loads_dumps true (.obj ms)

theorem userContent_turnEntries
    (turns : List ExternalTurn) :
    (turns.flatMap turnEntries).filterMap (userContent strOf) = turns.map ExternalTurn.user := by
  induction turns with
  | nil => rfl
  | cons t turns ih =>
      rw [List.flatMap_cons, List.filterMap_append, ih]
      rfl

/-- The users of the adopted turns are known afterwards. -/
theorem knownUsers_adopt
    (turns : List ExternalTurn) :
    knownUsers N strOf (adopt N t turns .file) .file =
      knownUsers N strOf t .file ++ turns.map ExternalTurn.user := by
  have hobj : ∀ v ∈ turns.flatMap turnEntries, ∃ ms, v = (.obj ms : Value F) := by
    intro v hv
    obtain ⟨turn, _, hv⟩ := List.mem_flatMap.mp hv
    simp only [turnEntries, List.mem_cons, List.not_mem_nil, or_false] at hv
    rcases hv with rfl | rfl
    · exact ⟨_, rfl⟩
    · exact ⟨_, rfl⟩
  rw [knownUsers, adopt, Transcript.append, parseTranscript_append, parseTranscript_entryText hobj,
    List.filterMap_append, userContent_turnEntries]
  rfl

end Transcripts

/-! ### What is adopted -/

section Alignment

theorem lastIndex_eq_none
    {α : Type} {p : α → Bool} {l : List α} (h : lastIndex p l = none) :
    ∀ b ∈ l, p b = false := by
  induction l with
  | nil =>
      intro b hb
      cases hb
  | cons c l ih =>
      rw [lastIndex] at h
      cases hlast : lastIndex p l with
      | some j =>
          rw [hlast] at h
          cases h
      | none =>
          rw [hlast] at h
          dsimp only at h
          split_ifs at h with hc
          intro b hb
          rcases List.mem_cons.mp hb with rfl | hb
          · exact Bool.not_eq_true _ ▸ hc
          · exact ih hlast b hb

theorem lastIndex_eq_some
    {α : Type} {p : α → Bool} {l : List α} {i : Nat} (h : lastIndex p l = some i) :
    (∃ a, l = l.take i ++ a :: l.drop (i + 1) ∧ p a = true) ∧
      ∀ b ∈ l.drop (i + 1), p b = false := by
  induction l generalizing i with
  | nil => cases h
  | cons c l ih =>
      rw [lastIndex] at h
      cases hlast : lastIndex p l with
      | some j =>
          rw [hlast] at h
          obtain rfl := Option.some.inj h
          obtain ⟨⟨a, hl, ha⟩, hrest⟩ := ih hlast
          refine ⟨⟨a, ?_, ha⟩, hrest⟩
          rw [List.take_succ_cons, List.drop_succ_cons, List.cons_append, ← hl]
      | none =>
          rw [hlast] at h
          dsimp only at h
          split_ifs at h with hc
          obtain rfl := Option.some.inj h
          exact ⟨⟨c, rfl, hc⟩, lastIndex_eq_none hlast⟩

/-- What is adopted stands behind the last occurrence of the last known user message;
where there is none, behind as many turns as there are known messages. -/
structure Adopts (known : List (List Char)) (replayed adopted : List ExternalTurn) : Prop where
  aligned : ∀ last, known.getLast? = some last → (∃ t ∈ replayed, t.user = last) →
    ∃ before t, replayed = before ++ t :: adopted ∧ t.user = last ∧ ∀ t ∈ adopted, t.user ≠ last
  unmatched : (∀ last, known.getLast? = some last → ∀ t ∈ replayed, t.user ≠ last) →
    adopted = replayed.drop known.length

/-- The position that the turns are aligned at. -/
theorem alignment_cases
    (known : List (List Char)) (replayed : List ExternalTurn) :
    (∃ last i, known.getLast? = some last ∧
        lastIndex (fun t => t.user == last) replayed = some i ∧
        (findExternal known replayed).1 = replayed.drop (i + 1)) ∨
      (∀ last, known.getLast? = some last → ∀ t ∈ replayed, t.user ≠ last) ∧
        (findExternal known replayed).1 = replayed.drop known.length := by
  cases hlast : known.getLast? with
  | none =>
      obtain rfl := List.getLast?_eq_none_iff.mp hlast
      refine Or.inr ⟨(fun last h => by cases h), ?_⟩
      rw [findExternal, hlast]
      cases replayed <;> rfl
  | some last =>
      cases hindex : lastIndex (fun t => t.user == last) replayed with
      | some i =>
          refine Or.inl ⟨last, i, rfl, hindex, ?_⟩
          rw [findExternal, hlast, Option.bind_some, hindex]
      | none =>
          refine Or.inr ⟨fun last' h t ht => ?_, ?_⟩
          · obtain rfl := Option.some.inj h
            exact ne_of_beq_false (lastIndex_eq_none hindex t ht)
          · rw [findExternal, hlast, Option.bind_some, hindex]
            dsimp only
            split_ifs with hlong
            · rfl
            · exact (List.drop_eq_nil_of_le (Nat.le_of_not_lt hlong)).symm

theorem adopts_findExternal
    (known : List (List Char)) (replayed : List ExternalTurn) :
    Adopts known replayed (findExternal known replayed).1 := by
  rcases alignment_cases known replayed with ⟨last, i, hlast, hindex, hfound⟩ | ⟨hnone, hfound⟩
  · obtain ⟨⟨t, hsplit, ht⟩, hrest⟩ := lastIndex_eq_some hindex
    rw [hfound]
    refine ⟨fun last' hlast' _ => ?_, fun hnone => ?_⟩
    · obtain rfl := Option.some.inj (hlast.symm.trans hlast')
      exact ⟨_, t, hsplit, eq_of_beq ht, fun b hb => ne_of_beq_false (hrest b hb)⟩
    · have hmem : t ∈ replayed := by
        rw [hsplit]
        exact List.mem_append_right _ List.mem_cons_self
      exact absurd (eq_of_beq ht) (hnone last hlast t hmem)
  · refine ⟨?_, fun _ => hfound⟩
    rintro last hlast ⟨t, ht, heq⟩
    exact absurd heq (hnone last hlast t ht)

theorem findExternal_suffix
    (known : List (List Char)) (replayed : List ExternalTurn) :
    (findExternal known replayed).1 <:+ replayed := by
  rcases alignment_cases known replayed with ⟨_, i, _, _, hfound⟩ | ⟨_, hfound⟩
  · rw [hfound]
    exact List.drop_suffix _ _
  · rw [hfound]
    exact List.drop_suffix _ _

theorem getLast?_of_suffix
    {α : Type} {l l' : List α} (h : l <:+ l') (hne : l ≠ []) :
    l'.getLast? = l.getLast? := by
  obtain ⟨front, rfl⟩ := h
  rw [List.getLast?_append, List.getLast?_eq_some_getLast hne, Option.some_or]

/-- Once a last part of the replay is known, nothing stands behind it. -/
theorem findExternal_known
    {known : List (List Char)} {replayed adopted : List ExternalTurn}
    (hsuffix : adopted <:+ replayed) (hne : adopted ≠ []) :
    (findExternal (known ++ adopted.map ExternalTurn.user) replayed).1 = [] := by
  have hend : replayed.getLast? = some (adopted.getLast hne) :=
    (getLast?_of_suffix hsuffix hne).trans (List.getLast?_eq_some_getLast hne)
  have hlast : (known ++ adopted.map ExternalTurn.user).getLast? =
      some (adopted.getLast hne).user := by
    rw [List.getLast?_append, List.getLast?_map, List.getLast?_eq_some_getLast hne,
      Option.map_some, Option.some_or]
  obtain ⟨before, t, hsplit, _, hother⟩ := (adopts_findExternal _ replayed).aligned _ hlast
    ⟨_, List.mem_of_getLast? hend, rfl⟩
  by_contra hfound
  -- The last turn would stand behind the last occurrence of its own message.
  have hsame := (getLast?_of_suffix (findExternal_suffix _ _) hfound).symm.trans hend
  exact hother _ (List.mem_of_getLast? hsame) rfl

end Alignment

section Results

variable {N : FloatText F} {strOf : Value F → List Char}

theorem adopted_reconcile
    (backend : Backend) (updates : List Update) (t : Transcript) (n : Nat) :
    (reconcile N strOf backend updates t n).adopted =
      (findExternal (knownUsers N strOf t backend) (reconstructTurns updates)).1 := by
  unfold reconcile
  split_ifs with hnone
  · obtain rfl := hnone
    have hsuffix := findExternal_suffix (knownUsers N strOf t backend) (reconstructTurns [])
    exact (List.suffix_nil.mp hsuffix).symm
  · dsimp only
    split_ifs with hexternal
    · exact hexternal.symm
    · rfl

/-- A run that adopts nothing leaves the transcript and the count as they are. -/
theorem reconcile_unchanged
    {backend : Backend} {updates : List Update} {t : Transcript} {n : Nat}
    (h : (reconcile N strOf backend updates t n).adopted = []) :
    (reconcile N strOf backend updates t n).transcript = t ∧
      (reconcile N strOf backend updates t n).externalTurns = n := by
  rw [adopted_reconcile] at h
  unfold reconcile
  split_ifs
  · exact ⟨rfl, rfl⟩
  · dsimp only
    rw [if_pos h]
    exact ⟨rfl, rfl⟩

/-- A run that adopts turns writes them. -/
theorem reconcile_adopts
    {backend : Backend} {updates : List Update} {t : Transcript} {n : Nat}
    (h : (reconcile N strOf backend updates t n).adopted ≠ []) :
    (reconcile N strOf backend updates t n).transcript =
      adopt N t (reconcile N strOf backend updates t n).adopted backend := by
  rw [adopted_reconcile] at h ⊢
  unfold reconcile
  split_ifs with hnone
  · obtain rfl := hnone
    exact absurd (List.suffix_nil.mp (findExternal_suffix _ _)) h
  · dsimp only
    rw [if_neg h]

/-- **Idempotence with the file backend.**  A second run on the same replay adopts
nothing and changes nothing; and the first one adopts what stands behind the last known
user message, or where that is not found, behind as many turns as are known. -/
theorem reconcile_file_idempotent
    (N : FloatText F) (strOf : Value F → List Char) (updates : List Update) (t : Transcript)
    (n : Nat) :
    let first := reconcile N strOf .file updates t n
    let again := reconcile N strOf .file updates first.transcript first.externalTurns
    (again.adopted = [] ∧ again.transcript = first.transcript ∧
        again.externalTurns = first.externalTurns) ∧
      Adopts (knownUsers N strOf t .file) (reconstructTurns updates) first.adopted := by
  have hagain : (reconcile N strOf .file updates
      (reconcile N strOf .file updates t n).transcript
      (reconcile N strOf .file updates t n).externalTurns).adopted = [] := by
    by_cases hfirst : (reconcile N strOf .file updates t n).adopted = []
    · rw [adopted_reconcile, (reconcile_unchanged hfirst).1, ← adopted_reconcile (n := n)]
      exact hfirst
    · rw [adopted_reconcile, reconcile_adopts hfirst, knownUsers_adopt]
      refine findExternal_known ?_ hfirst
      rw [adopted_reconcile]
      exact findExternal_suffix _ _
  refine ⟨⟨hagain, reconcile_unchanged hagain⟩, ?_⟩
  rw [adopted_reconcile]
  exact adopts_findExternal _ _

/-- The updates of a turn. -/
def replayOf (t : ExternalTurn) : List Update :=
  [{ kind := "user_message_chunk", content := .block t.user },
    { kind := "agent_message_chunk", content := .blocks [some t.assistant] }]

def turnOf (user assistant : String) : ExternalTurn :=
  { user := user.toList
    assistant := assistant.toList }

def emptyTranscript : Transcript :=
  { text := []
    ended := Or.inl rfl }

/-- A transcript whose last message is not in the replay. -/
def editedTranscript : Transcript :=
  emptyTranscript.append noFloats
    (turnEntries (turnOf "deploy" "done") ++ turnEntries (turnOf "thanks!" "sure"))

def editedReplay : List Update :=
  replayOf (turnOf "status" "green") ++ replayOf (turnOf "thanks" "sure") ++
    replayOf (turnOf "deploy" "done")

/-- With the Hindsight backend every run adopts the whole replay; with the file backend
the count decides where the tail is not matched, and a turn that stands in the
transcript is adopted. -/
theorem known_turn_adopted :
    (let first := reconcile noFloats (fun _ => []) .hindsight (replayOf (turnOf "hi" "hello"))
        emptyTranscript 0
      let again := reconcile noFloats (fun _ => []) .hindsight (replayOf (turnOf "hi" "hello"))
        first.transcript first.externalTurns
      first.externalTurns = 1 ∧ again.adopted = [turnOf "hi" "hello"] ∧ again.externalTurns = 2) ∧
      "deploy".toList ∈ knownUsers noFloats (fun _ => []) editedTranscript .file ∧
      (reconcile noFloats (fun _ => []) .file editedReplay editedTranscript 0).adopted =
        [turnOf "deploy" "done"] := by
  decide +kernel

end Results

end Reconcile
end Turns
end DiploidAgent
