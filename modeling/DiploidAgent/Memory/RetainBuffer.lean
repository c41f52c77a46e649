import DiploidAgent.Lib.JsonDumps
import DiploidAgent.Lib.Runs
import DiploidAgent.Lib.Text

/-!
# The turn-retain buffer

`TurnRetainBuffer` batches turn pairs into documents.  A document covers the pairs of
one session that stand at the front of the buffer; a failed call keeps the buffer, so
that a buffer may hold the pairs of several sessions until a later flush splits them.
The buffer is written to a file after each operation and read back by a new instance.

Across every sequence of appends, flushes, failures and restarts no pair is lost or
told twice (`turns_conserved`).
-/

namespace DiploidAgent
namespace RetainBuffer

open JsonText Lines Text Runs

variable {F : Type}

/-! ### Entries and documents -/

/-- A buffered turn pair. -/
structure Entry where
  content : String
  turn : Int
  session : Int
  model : String
  context : Option String
  timestamp : String
deriving DecidableEq

/-- What one buffer is constructed with. -/
structure Config where
  bundleTurns : Int
  chatId : String
  personaName : String

inductive Role where
  | pair
  | pairBundle
deriving DecidableEq

structure Metadata where
  role : Role
  chatId : String
  persona : String
  model : String
  turn : Int
  turns : List Int
  session : Int
deriving DecidableEq

structure MemoryItem where
  content : List Char
  context : Option String
  timestamp : String
  documentId : List Char
  sessionNumber : Int
  metadata : Metadata
  tags : List String
deriving DecidableEq

/-- The text between two contents of a document. -/
def separator : List Char := "\n\n---\n\n".toList

def documentId (cfg : Config) (session first last : Int) (bundled : Bool) : List Char :=
  if bundled then
    "turns-".toList ++ cfg.chatId.toList ++ '-' :: (padInt 6 session ++ '-' ::
      (padInt 6 first ++ '-' :: padInt 6 last))
  else
    "turn-".toList ++ cfg.chatId.toList ++ '-' :: (padInt 6 session ++ '-' :: padInt 6 first)

/-- The pairs of a document: a run of one session. -/
structure Document where
  first : Entry
  more : List Entry
  oneSession : ∀ e ∈ more, e.session = first.session

namespace Document

def entries (d : Document) : List Entry := d.first :: d.more

def last (d : Document) : Entry := d.entries.getLast (List.cons_ne_nil d.first d.more)

def bundled (d : Document) : Bool := 1 < d.entries.length

def id (cfg : Config) (d : Document) : List Char :=
  documentId cfg d.first.session d.first.turn d.last.turn d.bundled

/-- The item that is retained; `now` stands in for an empty timestamp. -/
def item (cfg : Config) (now : String) (d : Document) : MemoryItem :=
  { content := separator.intercalate (d.entries.map fun e => e.content.toList)
    context := d.entries.findSome? fun e => e.context.filter (· ≠ "")
    timestamp := if d.last.timestamp = "" then now else d.last.timestamp
    documentId := d.id cfg
    sessionNumber := d.first.session
    metadata := {
      role := if d.bundled then .pairBundle else .pair
      chatId := cfg.chatId
      persona := cfg.personaName
      model := d.last.model
      turn := d.last.turn
      turns := d.entries.map Entry.turn
      session := d.first.session }
    tags := ["turn", "chat:" ++ cfg.chatId, "session:" ++ toString d.first.session,
      "persona:" ++ cfg.personaName] }

end Document

/-! ### The file -/

def textOrNull : Option String → Value F
  | none => .scalar .null
  | some s => .scalar (.str s.toList)

/-- An entry as the dict that is written. -/
def Entry.members (e : Entry) : List (List Char × Value F) :=
  [("content".toList, .scalar (.str e.content.toList)),
    ("turn".toList, .scalar (.int e.turn)),
    ("session".toList, .scalar (.int e.session)),
    ("model".toList, .scalar (.str e.model.toList)),
    ("context".toList, textOrNull e.context),
    ("timestamp".toList, .scalar (.str e.timestamp.toList))]

def Entry.toJson (e : Entry) : Value F := .obj e.members

/-- The value under a key. -/
def field (ms : List (List Char × Value F)) (key : String) : Option (Value F) :=
  (ms.reverse.find? fun m => m.1 == key.toList).map Prod.snd

def asText : Option (Value F) → Option String
  | some (.scalar (.str s)) => some (String.ofList s)
  | _ => none

def asInt : Option (Value F) → Option Int
  | some (.scalar (.int n)) => some n
  | _ => none

def asTextOrNull : Option (Value F) → Option (Option String)
  | none => some none
  | some (.scalar .null) => some none
  | some (.scalar (.str s)) => some (some (String.ofList s))
  | some _ => none

/-- A dict with a content as an entry.  No buffer writes a dict without the other
members. -/
def Entry.ofJson? : Value F → Option Entry
  | .obj ms => do
      let content ← asText (field ms "content")
      if content = "" then none
      else
        let turn ← asInt (field ms "turn")
        let session ← asInt (field ms "session")
        let model ← asText (field ms "model")
        let context ← asTextOrNull (field ms "context")
        let timestamp ← asText (field ms "timestamp")
        some { content, turn, session, model, context, timestamp }
  | _ => none

/-- One line of `load`. -/
def loadLine (N : FloatText F) (line : List Char) : Option Entry :=
  if line.all isSpace then none else (loads N line).bind Entry.ofJson?

/-- `load` of a new buffer. -/
def load (N : FloatText F) : Option (List Char) → List Entry
  | none => []
  | some text => (splitLines text).filterMap (loadLine N)

/-- `write`: an empty buffer has no file. -/
def write (N : FloatText F) (entries : List Entry) : Option (List Char) :=
  if entries = [] then none
  else some (entries.flatMap fun e => dumps true N e.toJson ++ ['\n'])

/-! ### Operations -/

/-- A buffer with its file, and the documents that were retained. -/
structure State where
  entries : List Entry
  file : Option (List Char)
  retained : List Document

def initial : State :=
  { entries := []
    file := none
    retained := [] }

def sameSession (e e' : Entry) : Bool := e'.session == e.session

/-- The document at the front of the buffer. -/
def front (e : Entry) (es : List Entry) : Document :=
  { first := e
    more := es.takeWhile (sameSession e)
    oneSession := fun _ he => by
      simpa [sameSession] using List.all_eq_true.mp List.all_takeWhile _ he }

/-- The loop of `flush`: `fails k` tells whether the `k`-th call of `retain` raises.
Every round removes an entry, so the length of the buffer is enough fuel. -/
def flushLoop (fails : Nat → Bool) : Nat → Nat → List Entry → List Document →
    List Entry × List Document
  | 0, _, entries, retained => (entries, retained)
  | _ + 1, _, [], retained => ([], retained)
  | fuel + 1, k, e :: es, retained =>
      if fails k then (e :: es, retained)
      else
        flushLoop fails fuel (k + 1) (es.dropWhile (sameSession e))
          (retained ++ [front e es])

/-- `flush`; the file is written after the last call. -/
def flush (N : FloatText F) (fails : Nat → Bool) (s : State) : State :=
  let out := flushLoop fails s.entries.length 0 s.entries s.retained
  { entries := out.1
    file := write N out.1
    retained := out.2 }

/-- `append`: a new session flushes first, and a full bundle flushes. -/
def append (N : FloatText F) (cfg : Config) (before after : Nat → Bool) (e : Entry) (s : State) :
    State :=
  let s :=
    match s.entries with
    | [] => s
    | first :: _ => if first.session ≠ e.session then flush N before s else s
  let s := { s with entries := s.entries ++ [e] }
  if max 1 cfg.bundleTurns ≤ s.entries.length then flush N after s
  else { s with file := write N s.entries }

/-- A new buffer over the same file. -/
def restart (N : FloatText F) (s : State) : State :=
  { s with entries := load N s.file }

inductive Op where
  | append (e : Entry) (before after : Nat → Bool)
  | flush (fails : Nat → Bool)
  | restart

/-- A turn pair has a content. -/
def step (N : FloatText F) (cfg : Config) (s : State) : Op → Option State
  | .append e before after => if e.content = "" then none else some (append N cfg before after e s)
  | .flush fails => some (flush N fails s)
  | .restart => some (restart N s)

/-- The pairs that a sequence of operations appends. -/
def appended : List Op → List Entry
  | [] => []
  | .append e _ _ :: ops => e :: appended ops
  | _ :: ops => appended ops

section RoundTrip

variable {N : FloatText F}

theorem ofJson_toJson
    {e : Entry} (h : e.content ≠ "") :
    Entry.ofJson? (e.toJson : Value F) = some e := by
  have hcontent : field (e.members : List (List Char × Value F)) "content" =
      some (.scalar (.str e.content.toList)) := rfl
  have hturn : field (e.members : List (List Char × Value F)) "turn" =
      some (.scalar (.int e.turn)) := rfl
  have hsession : field (e.members : List (List Char × Value F)) "session" =
      some (.scalar (.int e.session)) := rfl
  have hmodel : field (e.members : List (List Char × Value F)) "model" =
      some (.scalar (.str e.model.toList)) := rfl
  have hcontext : field (e.members : List (List Char × Value F)) "context" =
      some (textOrNull e.context) := rfl
  have htimestamp : field (e.members : List (List Char × Value F)) "timestamp" =
      some (.scalar (.str e.timestamp.toList)) := rfl
  have hnull : asTextOrNull (some (textOrNull e.context : Value F)) = some e.context := by
    cases e.context <;> simp [textOrNull, asTextOrNull]
  rw [Entry.toJson, Entry.ofJson?, hcontent, hturn, hsession, hmodel, hcontext, htimestamp, hnull]
  simp [asText, asInt, h]

theorem loadLine_dumps
    {e : Entry} (h : e.content ≠ "") :
    loadLine N (dumps true N e.toJson) = some e := by
  have hspace : (dumps true N e.toJson).all isSpace = false := rfl
  rw [loadLine, hspace, loads_dumps]
  exact ofJson_toJson h

/-- What is written is loaded. -/
theorem load_write
    {entries : List Entry} (h : ∀ e ∈ entries, e.content ≠ "") :
    load N (write N entries) = entries := by
  have hlines : splitLines (entries.flatMap fun e => dumps true N e.toJson ++ ['\n']) =
      entries.map fun e => dumps true N e.toJson := by
    have hall : splitLines ((entries.map Entry.toJson).flatMap fun v =>
        dumps true N v ++ ['\n']) = (entries.map Entry.toJson).map (dumps true N) :=
      splitLines_dumps (Or.inl rfl)
    rw [List.flatMap_map, List.map_map] at hall
    exact hall
  unfold write
  split_ifs with hnil
  · exact hnil.symm
  · rw [load, hlines, List.filterMap_map]
    exact (List.filterMap_congr fun e he => loadLine_dumps (h e he)).trans List.filterMap_some

end RoundTrip

section Flush

variable {fails : Nat → Bool}

theorem entries_front
    (e : Entry) (es : List Entry) :
    (front e es).entries ++ es.dropWhile (sameSession e) = e :: es := by
  rw [Document.entries, front, List.cons_append, List.takeWhile_append_dropWhile]

/-- A flush moves pairs from the front of the buffer to the documents. -/
theorem flushLoop_moves
    (fuel k : Nat) (entries : List Entry) (retained : List Document) :
    (flushLoop fails fuel k entries retained).2.flatMap Document.entries ++
        (flushLoop fails fuel k entries retained).1 =
      retained.flatMap Document.entries ++ entries := by
  induction fuel generalizing k entries retained with
  | zero => rfl
  | succ fuel ih =>
      cases entries with
      | nil => rfl
      | cons e es =>
          rw [flushLoop]
          split_ifs
          · rfl
          · rw [ih, List.flatMap_append, List.append_assoc]
            simp only [List.flatMap_cons, List.flatMap_nil, List.append_nil]
            rw [entries_front]

/-- The buffer keeps its last pairs. -/
theorem flushLoop_suffix
    (fuel k : Nat) (entries : List Entry) (retained : List Document) :
    (flushLoop fails fuel k entries retained).1 <:+ entries := by
  induction fuel generalizing k entries retained with
  | zero => exact List.suffix_rfl
  | succ fuel ih =>
      cases entries with
      | nil => exact List.suffix_rfl
      | cons e es =>
          rw [flushLoop]
          split_ifs
          · exact List.suffix_rfl
          · exact (ih ..).trans ((List.dropWhile_suffix _).trans (List.suffix_cons e es))

/-- A flush stops at an empty buffer or at a failure. -/
theorem flushLoop_stops
    (fuel k : Nat) (entries : List Entry) (retained : List Document)
    (hfuel : entries.length ≤ fuel) :
    (flushLoop fails fuel k entries retained).1 = [] ∨ ∃ k' < k + fuel, fails k' = true := by
  induction fuel generalizing k entries retained with
  | zero => exact Or.inl (List.length_eq_zero_iff.mp (Nat.le_zero.mp hfuel))
  | succ fuel ih =>
      cases entries with
      | nil => exact Or.inl rfl
      | cons e es =>
          rw [flushLoop]
          split_ifs with hfail
          · exact Or.inr ⟨k, by omega, hfail⟩
          · have hshorter := (List.dropWhile_suffix (sameSession e) (l := es)).length_le
            rw [List.length_cons] at hfuel
            rcases ih (k + 1) (es.dropWhile (sameSession e)) (retained ++ [front e es]) (by omega)
              with hempty | ⟨k', hk', hfail'⟩
            · exact Or.inl hempty
            · exact Or.inr ⟨k', by omega, hfail'⟩

end Flush

section Steps

variable {N : FloatText F} {cfg : Config} {past : List Entry} {s s' : State}

/-- What every operation keeps: the pairs of the documents and of the buffer are the
appended ones, and the file holds the buffer. -/
structure Kept (N : FloatText F) (past : List Entry) (s : State) : Prop where
  pairs : s.retained.flatMap Document.entries ++ s.entries = past
  contents : ∀ e ∈ s.entries, e.content ≠ ""
  file : s.file = write N s.entries

theorem kept_initial :
    Kept N [] initial :=
  ⟨rfl, (fun _ h => by cases h), rfl⟩

theorem kept_flush
    (h : Kept N past s) (fails : Nat → Bool) :
    Kept N past (flush N fails s) where
  pairs := (flushLoop_moves ..).trans h.pairs
  contents e he := h.contents e ((flushLoop_suffix ..).subset he)
  file := rfl

/-- A flush leaves pairs only when a call failed. -/
theorem flush_empties
    (s : State) {fails : Nat → Bool} (hall : ∀ k, fails k = false) :
    (flush N fails s).entries = [] := by
  rcases flushLoop_stops s.entries.length 0 s.entries s.retained (Nat.le_refl _)
    with hempty | ⟨k, _, hk⟩
  · exact hempty
  · rw [hall k] at hk
    cases hk

theorem kept_append
    (h : Kept N past s) (before after : Nat → Bool) {e : Entry} (he : e.content ≠ "") :
    Kept N (past ++ [e]) (append N cfg before after e s) := by
  have hboundary : Kept N past (match s.entries with
      | [] => s
      | first :: _ => if first.session ≠ e.session then flush N before s else s) := by
    split
    · exact h
    · split_ifs
      · exact kept_flush h before
      · exact h
  unfold append
  generalize (match s.entries with
      | [] => s
      | first :: _ => if first.session ≠ e.session then flush N before s else s) = s₁ at hboundary
  have hpairs : s₁.retained.flatMap Document.entries ++ (s₁.entries ++ [e]) = past ++ [e] := by
    rw [← List.append_assoc, hboundary.pairs]
  have hcontents : ∀ e' ∈ s₁.entries ++ [e], e'.content ≠ "" := by
    intro e' he'
    rcases List.mem_append.mp he' with he' | he'
    · exact hboundary.contents e' he'
    · obtain rfl := List.mem_singleton.mp he'
      exact he
  dsimp only
  split_ifs
  · exact kept_flush (s := { s₁ with
        entries := s₁.entries ++ [e]
        file := write N (s₁.entries ++ [e]) }) ⟨hpairs, hcontents, rfl⟩ after
  · exact ⟨hpairs, hcontents, rfl⟩

/-- A new buffer holds what the old one held. -/
theorem restart_eq
    (h : Kept N past s) :
    restart N s = s := by
  have hload : load N s.file = s.entries := by
    rw [h.file, load_write h.contents]
  rw [restart, hload]

theorem kept_step
    {op : Op} (h : Kept N past s) (hstep : step N cfg s op = some s') :
    Kept N (past ++ appended [op]) s' := by
  cases op with
  | append e before after =>
      simp only [step] at hstep
      split_ifs at hstep with he
      obtain rfl := Option.some.inj hstep
      exact kept_append h before after he
  | flush fails =>
      obtain rfl := Option.some.inj hstep
      have hpast : past ++ appended [Op.flush fails] = past := List.append_nil past
      rw [hpast]
      exact kept_flush h fails
  | restart =>
      obtain rfl := Option.some.inj hstep
      have hpast : past ++ appended [Op.restart] = past := List.append_nil past
      rw [hpast, restart_eq h]
      exact h

theorem appended_cons
    (op : Op) (ops : List Op) :
    appended (op :: ops) = appended [op] ++ appended ops := by
  cases op <;> rfl

theorem kept_run
    (ops : List Op) (h : Kept N past s) (hrun : run (step N cfg) s ops = some s') :
    Kept N (past ++ appended ops) s' := by
  induction ops generalizing past s with
  | nil =>
      obtain rfl : s = s' := by simpa using hrun
      rw [appended, List.append_nil]
      exact h
  | cons op ops ih =>
      obtain ⟨t, ht, hrest⟩ := run_cons_eq_some.mp hrun
      rw [appended_cons, ← List.append_assoc]
      exact ih (kept_step h ht) hrest

end Steps

section Ids

variable {cfg : Config}

/-- The session and the first turn can be read off a document id. -/
theorem id_inj
    {d d' : Document} (h : d.id cfg = d'.id cfg) :
    d.first.session = d'.first.session ∧ d.first.turn = d'.first.turn := by
  have hdash : ('-' : Char).isDigit = false := rfl
  have hkinds : ∀ l l' : List Char,
      "turns-".toList ++ cfg.chatId.toList ++ l ≠ "turn-".toList ++ cfg.chatId.toList ++ l' := by
    intro l l' heq
    have hfifth := congrArg (·[4]?) heq
    simp at hfifth
  have hpair : ∀ {session session' : Int} {l l' : List Char},
      padInt 6 session ++ '-' :: l = padInt 6 session' ++ '-' :: l' →
      session = session' ∧ l = l' := fun heq => padInt_append_inj hdash heq
  unfold Document.id documentId at h
  split_ifs at h
  · have htail := (List.cons.inj (List.append_cancel_left h)).2
    obtain ⟨hsession, htail⟩ := hpair htail
    exact ⟨hsession, (hpair htail).1⟩
  · exact absurd h (hkinds _ _)
  · exact absurd h.symm (hkinds _ _)
  · have htail := (List.cons.inj (List.append_cancel_left h)).2
    obtain ⟨hsession, htail⟩ := hpair htail
    exact ⟨hsession, (hpair (congrArg (· ++ ['-']) htail)).1⟩

/-- The first pairs of the documents stand in the documents in order. -/
theorem firsts_sublist
    (ds : List Document) :
    (ds.map Document.first).Sublist (ds.flatMap Document.entries) := by
  induction ds with
  | nil => exact List.Sublist.refl _
  | cons d ds ih =>
      rw [List.map_cons, List.flatMap_cons, Document.entries, List.cons_append]
      exact (ih.trans (List.sublist_append_right d.more _)).cons_cons d.first

theorem nodup_ids
    {ds : List Document}
    (h : ((ds.flatMap Document.entries).map fun e => (e.session, e.turn)).Nodup) :
    (ds.map (Document.id cfg)).Nodup := by
  have hfirsts := h.sublist ((firsts_sublist ds).map fun e => (e.session, e.turn))
  rw [List.map_map, List.Nodup, List.pairwise_map] at hfirsts
  rw [List.Nodup, List.pairwise_map]
  refine hfirsts.imp fun hne heq => hne ?_
  obtain ⟨hsession, hturn⟩ := id_inj heq
  exact Prod.ext hsession hturn

end Ids

section Results

/-- **Conservation.**  The turns of the retained documents and then the buffered ones
are the appended turns in order; a document covers one session, and no two documents
share an id unless two turns share their numbers. -/
theorem turns_conserved
    (N : FloatText F) (cfg : Config) (now : String) (ops : List Op) (s : State)
    (hrun : run (step N cfg) initial ops = some s) :
    s.retained.flatMap Document.entries ++ s.entries = appended ops ∧
      (∀ d ∈ s.retained, (d.item cfg now).metadata.turns = d.entries.map Entry.turn ∧
        ∀ e ∈ d.entries, e.session = (d.item cfg now).sessionNumber) ∧
      (((appended ops).map fun e => (e.session, e.turn)).Nodup →
        (s.retained.map fun d => (d.item cfg now).documentId).Nodup) := by
  have hkept := kept_run ops (kept_initial (N := N)) hrun
  rw [List.nil_append] at hkept
  refine ⟨hkept.pairs, fun d _ => ⟨rfl, fun e he => ?_⟩, fun hnodup => ?_⟩
  · rcases List.mem_cons.mp he with rfl | he
    · rfl
    · exact d.oneSession e he
  · rw [← hkept.pairs, List.map_append] at hnodup
    exact nodup_ids (hnodup.sublist (List.sublist_append_left _ _))

/-- The pairs of two sessions; the second call of the boundary flush fails. -/
def mixedRun : List Op :=
  let pair turn session : Entry :=
    { content := "hi", turn := turn, session := session, model := "swe-1-7", context := none
      timestamp := "2026-01-01T00:00:00+00:00" }
  [.append (pair 1 1) (fun _ => false) (fun _ => false),
    .append (pair 1 2) (fun _ => true) (fun _ => true),
    .append (pair 2 2) (fun k => k == 1) (fun _ => true),
    .restart,
    .flush fun _ => false]

def mixedConfig : Config :=
  { bundleTurns := 4
    chatId := "chat-1"
    personaName := "iris" }

theorem turns_conserved_mixedRun :
    ∃ s, run (step noFloats mixedConfig) initial mixedRun = some s ∧
      s.retained.flatMap Document.entries ++ s.entries = appended mixedRun := by
  have hsome : (run (step noFloats mixedConfig) initial mixedRun).isSome = true := by decide
  exact ⟨_, run_eq_getD hsome,
    (turns_conserved noFloats mixedConfig "" mixedRun _ (run_eq_getD hsome)).1⟩

end Results

end RetainBuffer
end DiploidAgent
