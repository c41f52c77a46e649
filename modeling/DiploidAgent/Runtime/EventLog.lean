import DiploidAgent.Lib.Dict
import DiploidAgent.Lib.Follow
import DiploidAgent.Lib.JsonDumps
import DiploidAgent.Lib.Runs
import DiploidAgent.Lib.Text
import DiploidAgent.Cron.Store

/-!
# The event log of a chat

`EventLog` numbers the events of a chat and keeps the last ones in a ring, which a new
instance loads from the file of the chat.  A client asks for the events after the last
number it received.

A loaded ring is the tail of the log exactly as far as the events of that tail are one
line each, and as far as the chat has its directory to itself.  Where every restart
finds such tails, no number is used twice and no client misses an event without being
told (`log_continuous`).
-/

namespace DiploidAgent
namespace EventLog

open Follow JsonText Lines Runs Text

variable {F : Type}

/-! ### Events -/

def ringMax : Nat := 500

/-- `isinstance(event.get("seq"), int)`: a bool is an int. -/
def seqOf (ms : List (List Char × Value F)) : Option Int :=
  match member ms "seq" with
  | some (.scalar (.int n)) => some n
  | some (.scalar (.bool b)) => some (if b then 1 else 0)
  | _ => none

/-- A dict with a number. -/
structure Event (F : Type) where
  members : List (List Char × Value F)
  seq : Int
  numbered : seqOf members = some seq

/-- A dict as an event, if it has a number. -/
def Event.ofMembers? (ms : List (List Char × Value F)) : Option (Event F) :=
  match h : seqOf ms with
  | some n => some ⟨ms, n, h⟩
  | none => none

/-- The event that `append` stores. -/
def newEvent (seq : Int) (ts : F) (kind chatId : String) (payload : List (List Char × Value F)) :
    Event F where
  members := [("seq".toList, .scalar (.int seq)),
    ("ts".toList, .scalar (.float ts)),
    ("kind".toList, .scalar (.str kind.toList)),
    ("chat_id".toList, .scalar (.str chatId.toList)),
    ("payload".toList, .obj payload)]
  seq := seq
  numbered := rfl

/-- The text of an event. -/
def Event.text (N : FloatText F) (e : Event F) : List Char := dumps false N (.obj e.members)

/-- One line of the file. -/
def loadLine (N : FloatText F) (line : List Char) : Option (Event F) :=
  if line.all isSpace then none
  else
    match loads N line with
    | some (.obj ms) => Event.ofMembers? ms
    | _ => none

/-- `_ring` of a chat that is not loaded. -/
def loadRing (N : FloatText F) : Option (List Char) → List (Event F)
  | none => []
  | some text => ((splitLines text).rtake ringMax).filterMap (loadLine N)

def nextSeq (ring : List (Event F)) : Int :=
  match ring.getLast? with
  | some e => e.seq + 1
  | none => 1

/-- What `since` returns. -/
structure Reply (F : Type) where
  events : List (Event F)
  nextSeq : Int
  truncated : Bool

/-- `since` when it returns; a call that waits sees the ring of that moment. -/
def since (ring : List (Event F)) (cursor : Int) (limit : Nat) : Reply F :=
  { events := (ring.filter fun e => decide (cursor < e.seq)).take limit
    nextSeq := nextSeq ring
    truncated :=
      match ring with
      | [] => false
      | e :: _ => decide (cursor < e.seq - 1) }

/-! ### The log and its clients -/

/-- A client of a chat: the last number it received, what it received, whether a reply
was flagged, and how many events there were when a reply was last empty. -/
structure Client (F : Type) where
  cursor : Int
  received : List (Event F)
  truncated : Bool
  settled : Nat

def Client.new : Client F :=
  { cursor := 0
    received := []
    truncated := false
    settled := 0 }

/-- The rings that are loaded, the file of each directory, the events that `append`
returned, and the clients. -/
structure State (F : Type) where
  rings : Dict String (List (Event F))
  files : Dict String (List Char)
  log : Dict String (List (Event F))
  clients : String → Nat → Client F

def initial : State F :=
  { rings := Dict.empty
    files := Dict.empty
    log := Dict.empty
    clients := fun _ _ => Client.new }

namespace State

/-- The events of a chat. -/
def events (s : State F) (chat : String) : List (Event F) := (s.log.get chat).getD []

/-- `_ring`. -/
def ring (N : FloatText F) (dirOf : String → String) (s : State F) (chat : String) :
    List (Event F) :=
  match s.rings.get chat with
  | some ring => ring
  | none => loadRing N (s.files.get (dirOf chat))

/-- The ring of the chat is loaded. -/
def withRing (s : State F) (chat : String) (ring : List (Event F)) : State F :=
  { s with rings := s.rings.set chat ring }

end State

/-- `append`. -/
def append (N : FloatText F) (dirOf : String → String) (s : State F)
    (chat kind : String) (ts : F) (payload : List (List Char × Value F)) : State F :=
  let ring := s.ring N dirOf chat
  let e := newEvent (nextSeq ring) ts kind chat payload
  let before := (s.files.get (dirOf chat)).getD []
  { s with
    rings := s.rings.set chat ((ring ++ [e]).rtake ringMax)
    files := s.files.set (dirOf chat) (before ++ (e.text N ++ ['\n']))
    log := s.log.set chat (s.events chat ++ [e]) }

/-- What a client makes of a reply. -/
def Client.take (c : Client F) (reply : Reply F) (total : Nat) : Client F :=
  { cursor :=
      match reply.events.getLast? with
      | some e => e.seq
      | none => c.cursor
    received := c.received ++ reply.events
    truncated := c.truncated || reply.truncated
    settled := if reply.events.isEmpty then total else c.settled }

/-- A client asks for the events after its last one. -/
def poll (N : FloatText F) (dirOf : String → String) (s : State F)
    (chat : String) (client limit : Nat) : State F :=
  let ring := s.ring N dirOf chat
  let c := s.clients chat client
  let c := c.take (since ring c.cursor limit) (s.events chat).length
  { s.withRing chat ring with
    clients := fun chat' client' =>
      if chat' = chat ∧ client' = client then c else s.clients chat' client' }

inductive Op (F : Type) where
  | append (chat kind : String) (ts : F) (payload : List (List Char × Value F))
  | nextSeq (chat : String)
  | poll (chat : String) (client limit : Nat)
  | restart

/-- The chat of an operation. -/
def Op.chat? : Op F → Option String
  | .append chat _ _ _ => some chat
  | .nextSeq chat => some chat
  | .poll chat _ _ => some chat
  | .restart => none

/-- A restart is a new `EventLog` over the same directory. -/
def step (N : FloatText F) (dirOf : String → String) (s : State F) : Op F → Option (State F)
  | .append chat kind ts payload => some (append N dirOf s chat kind ts payload)
  | .nextSeq chat => some (s.withRing chat (s.ring N dirOf chat))
  | .poll chat client limit => if 0 < limit then some (poll N dirOf s chat client limit) else none
  | .restart => some { s with rings := Dict.empty }

/-! ### What is claimed -/

/-- The numbers of the log increase; a client receives events in order and none twice,
and all events, up to those that an empty reply has vouched for at least, unless a reply
was flagged. -/
structure Continuous (s : State F) : Prop where
  increasing : ∀ chat, (s.events chat).Pairwise fun e e' => e.seq < e'.seq
  inOrder : ∀ chat client, ((s.clients chat client).received).Sublist (s.events chat)
  complete : ∀ chat client, (s.clients chat client).truncated = false →
    (s.clients chat client).received <+: s.events chat ∧
      (s.clients chat client).settled ≤ (s.clients chat client).received.length

/-- At a restart every event in a ring is one line; the chat of an operation does not
share its directory with another chat that has events. -/
def Regular (dirOf : String → String) (s : State F) (op : Op F) : Prop :=
  (op.chat? = none →
    ∀ ring ∈ s.rings.values, ∀ e ∈ ring, cleanMembers e.members = true) ∧
  ∀ chat ∈ op.chat?, ∀ other ∈ s.log.keys, dirOf other = dirOf chat → other = chat

instance (dirOf : String → String) (s : State F) (op : Op F) : Decidable (Regular dirOf s op) :=
  inferInstanceAs (Decidable (_ ∧ _))

/-! ### Loading a ring -/

section Loading

variable {N : FloatText F} {l : List (Event F)}

/-- The text of the events one a line. -/
def fileText (N : FloatText F) (l : List (Event F)) : List Char :=
  l.flatMap fun e => e.text N ++ ['\n']

theorem fileText_append
    (l l' : List (Event F)) :
    fileText N (l ++ l') = fileText N l ++ fileText N l' :=
  List.flatMap_append

theorem ofMembers_members
    (e : Event F) :
    Event.ofMembers? e.members = some e := by
  obtain ⟨ms, n, h⟩ := e
  unfold Event.ofMembers?
  split
  · rename_i n' h'
    obtain rfl : n = n' := Option.some.inj (h.symm.trans h')
    rfl
  · rename_i h'
    rw [h] at h'
    cases h'

theorem loadLine_text
    (e : Event F) :
    loadLine N (e.text N) = some e := by
  have hspace : (e.text N).all isSpace = false := by
    rw [Event.text]
    cases e.members <;> rfl
  rw [loadLine, hspace, Event.text, loads_dumps]
  exact ofMembers_members e

theorem splitLines_fileText
    (h : ∀ e ∈ l, cleanMembers e.members = true) :
    splitLines (fileText N l) = l.map (Event.text N) := by
  have hclean : ∀ v ∈ l.map fun e => Value.obj e.members, v.isClean = true := by
    intro v hv
    obtain ⟨e, he, rfl⟩ := List.mem_map.mp hv
    rw [Value.isClean]
    exact h e he
  have hall : splitLines ((l.map fun e => Value.obj e.members).flatMap fun v =>
      dumps false N v ++ ['\n']) = (l.map fun e => Value.obj e.members).map (dumps false N) :=
    splitLines_dumps (Or.inr hclean)
  rw [List.flatMap_map, List.map_map] at hall
  exact hall

/-- What stands before a line does not change how it is cut. -/
theorem splitLines_fileText_append
    (l : List (Event F)) (rest : List Char) :
    splitLines (fileText N l ++ rest) = splitLines (fileText N l) ++ splitLines rest := by
  rcases List.eq_nil_or_concat l with rfl | ⟨before, e, rfl⟩
  · rfl
  · have hend : fileText N (before ++ [e]) = (fileText N before ++ e.text N) ++ ['\n'] := by
      rw [fileText_append, fileText, fileText, List.flatMap_cons, List.flatMap_nil,
        List.append_nil, List.append_assoc]
    rw [List.concat_eq_append, hend, List.append_assoc, List.singleton_append]
    exact splitLines_append_newline rest _

/-- Where the events at the end of the file are one line each, they are loaded. -/
theorem loadRing_fileText
    (h : ∀ e ∈ l.rtake ringMax, cleanMembers e.members = true) :
    loadRing N (some (fileText N l)) = l.rtake ringMax := by
  have hsplit : fileText N l =
      fileText N (l.take (l.length - ringMax)) ++ fileText N (l.rtake ringMax) := by
    rw [← fileText_append, List.rtake, List.take_append_drop]
  have hlength : ((l.rtake ringMax).map (Event.text N)).length = min ringMax l.length := by
    rw [List.length_map, List.rtake, List.length_drop]
    omega
  have htail : (splitLines (fileText N (l.take (l.length - ringMax))) ++
      (l.rtake ringMax).map (Event.text N)).rtake ringMax =
        (l.rtake ringMax).map (Event.text N) := by
    refine rtake_append (by omega) ?_
    rcases Nat.le_total ringMax l.length with hlong | hshort
    · exact Or.inl (by omega)
    · rw [Nat.sub_eq_zero_of_le hshort, List.take_zero]
      exact Or.inr rfl
  rw [loadRing, hsplit, splitLines_fileText_append, splitLines_fileText h, htail,
    List.filterMap_map]
  exact (List.filterMap_congr fun e _ => loadLine_text e).trans List.filterMap_some

end Loading

/-! ### One reply -/

section Replies

variable {cap : Nat} {l : List (Event F)}

theorem nextSeq_rtake
    (hcap : 0 < cap) (h : Numbered Event.seq 0 l) :
    nextSeq (l.rtake cap) = l.length + 1 := by
  unfold nextSeq
  rw [getLast?_rtake hcap]
  cases hlast : l.getLast? with
  | none =>
      obtain rfl := List.getLast?_eq_none_iff.mp hlast
      rfl
  | some e =>
      have hseq := h.getLast? hlast
      dsimp only
      omega

/-- Where a reply starts. -/
def replyStart (cap : Nat) (l : List (Event F)) (position : Nat) : Nat :=
  max position (l.length - cap)

theorem since_events
    (h : Numbered Event.seq 0 l) (position limit : Nat) :
    (since (l.rtake cap) position limit).events =
      (l.drop (replyStart cap l position)).take limit := by
  have htail : Numbered Event.seq ((l.length - cap : Nat) : Int) (l.rtake cap) := by
    have hdrop := h.drop (i := l.length - cap) (Nat.sub_le _ _)
    rwa [Int.zero_add] at hdrop
  have hstart : l.length - cap + ((position : Int) - ((l.length - cap : Nat) : Int)).toNat =
      replyStart cap l position := by
    unfold replyStart
    omega
  unfold since
  dsimp only
  rw [htail.filter_lt, List.rtake, List.drop_drop, hstart]

/-- A reply that is not flagged starts where the client stands. -/
theorem since_not_truncated
    (h : Numbered Event.seq 0 l) {position limit : Nat}
    (hcap : 0 < cap) (hnot : (since (l.rtake cap) position limit).truncated = false) :
    replyStart cap l position = position := by
  have htail := h.drop (i := l.length - cap) (Nat.sub_le _ _)
  unfold since at hnot
  dsimp only at hnot
  rw [← List.rtake] at htail
  cases hring : l.rtake cap with
  | nil =>
      rw [List.rtake, List.drop_eq_nil_iff] at hring
      unfold replyStart
      omega
  | cons e ring =>
      rw [hring] at hnot htail
      have hfirst := htail.1
      have hreach : ¬ ((position : Int) < e.seq - 1) := by simpa using hnot
      unfold replyStart
      omega

/-- The number of the last event of a reply. -/
theorem seq_getLast_reply
    (h : Numbered Event.seq 0 l) {start limit : Nat} (hstart : start ≤ l.length)
    {e : Event F} (he : ((l.drop start).take limit).getLast? = some e) :
    e.seq = ((start + ((l.drop start).take limit).length : Nat) : Int) := by
  have hseq := ((h.drop hstart).take limit).getLast? he
  rw [hseq]
  omega

end Replies

/-! ### What every regular operation keeps -/

section Steps

variable {N : FloatText F} {dirOf : String → String} {s s' : State F}

/-- The log is numbered from one on; rings are its tail, and a file is its text. -/
structure Inv (N : FloatText F) (dirOf : String → String) (s : State F) : Prop where
  numbered : ∀ chat, Numbered Event.seq 0 (s.events chat)
  ring : ∀ chat ring, s.rings.get chat = some ring → ring = (s.events chat).rtake ringMax
  unloaded : ∀ chat, s.rings.get chat = none →
    ∀ e ∈ (s.events chat).rtake ringMax, cleanMembers e.members = true
  file : ∀ chat ∈ s.log.keys, s.files.get (dirOf chat) = some (fileText N (s.events chat))
  owned : ∀ dir text, s.files.get dir = some text → ∃ chat ∈ s.log.keys, dirOf chat = dir
  follows : ∀ chat client, ∃ position : Nat,
    (s.clients chat client).cursor = position ∧
      Follows (s.events chat) (s.clients chat client).received position
        (s.clients chat client).truncated
  settled : ∀ chat client, (s.clients chat client).truncated = false →
    (s.clients chat client).settled ≤ (s.clients chat client).received.length

theorem inv_initial :
    Inv N dirOf (initial : State F) where
  numbered _ := trivial
  ring _ _ h := by cases h
  unloaded chat _ e he := by
    rw [State.events, initial, Dict.get_empty, Option.getD_none, List.rtake_nil] at he
    cases he
  file _ h := by cases h
  owned _ _ h := by cases h
  follows _ _ := ⟨0, rfl, follows_start []⟩
  settled _ _ _ := Nat.zero_le _

theorem ringMax_pos : 0 < ringMax := by decide

theorem events_of_not_mem
    {chat : String} (h : chat ∉ s.log.keys) :
    s.events chat = [] := by
  rw [State.events, (s.log.get_eq_none_iff chat).mpr h, Option.getD_none]

/-- The chat has its directory to itself. -/
def Alone (dirOf : String → String) (s : State F) (chat : String) : Prop :=
  ∀ other ∈ s.log.keys, dirOf other = dirOf chat → other = chat

/-- The file of a chat that has its directory to itself. -/
theorem file_eq
    (h : Inv N dirOf s) {chat : String} (halone : Alone dirOf s chat) :
    s.files.get (dirOf chat) =
      if chat ∈ s.log.keys then some (fileText N (s.events chat)) else none := by
  split_ifs with hmem
  · exact h.file chat hmem
  · cases hfile : s.files.get (dirOf chat) with
    | none => rfl
    | some text =>
        obtain ⟨other, hother, hdir⟩ := h.owned _ _ hfile
        exact absurd (halone other hother hdir ▸ hother) hmem

theorem fileText_eq
    (h : Inv N dirOf s) {chat : String} (halone : Alone dirOf s chat) :
    (s.files.get (dirOf chat)).getD [] = fileText N (s.events chat) := by
  rw [file_eq h halone]
  split_ifs with hmem
  · rfl
  · rw [events_of_not_mem hmem]
    rfl

/-- A ring is the tail of the log. -/
theorem ring_eq
    (h : Inv N dirOf s) {chat : String} (halone : Alone dirOf s chat) :
    s.ring N dirOf chat = (s.events chat).rtake ringMax := by
  unfold State.ring
  cases hring : s.rings.get chat with
  | some ring => exact h.ring chat ring hring
  | none =>
      dsimp only
      rw [file_eq h halone]
      split_ifs with hmem
      · exact loadRing_fileText (h.unloaded chat hring)
      · rw [events_of_not_mem hmem, List.rtake_nil]
        rfl

theorem inv_withRing
    (h : Inv N dirOf s) {chat : String} (halone : Alone dirOf s chat) :
    Inv N dirOf (s.withRing chat (s.ring N dirOf chat)) := by
  refine { h with ring := ?_, unloaded := ?_ }
  · intro other ring hring
    simp only [State.withRing, Dict.get_set] at hring
    split_ifs at hring with hother
    · obtain rfl := Option.some.inj hring
      obtain rfl := hother
      exact ring_eq h halone
    · exact h.ring other ring hring
  · intro other hring
    simp only [State.withRing, Dict.get_set] at hring
    split_ifs at hring
    exact h.unloaded other hring

section Append

variable {chat kind : String} {ts : F} {payload : List (List Char × Value F)}

theorem events_append
    (other : String) :
    (append N dirOf s chat kind ts payload).events other =
      if chat = other then
        s.events chat ++ [newEvent (nextSeq (s.ring N dirOf chat)) ts kind chat payload]
      else s.events other := by
  unfold State.events append
  dsimp only
  rw [Dict.get_set]
  split_ifs <;> rfl

theorem mem_keys_append
    (other : String) :
    other ∈ (append N dirOf s chat kind ts payload).log.keys ↔
      other = chat ∨ other ∈ s.log.keys :=
  mem_keys_putEntry ..

theorem inv_append
    (h : Inv N dirOf s) (halone : Alone dirOf s chat) :
    Inv N dirOf (append N dirOf s chat kind ts payload) where
  numbered other := by
    rw [events_append]
    split_ifs
    · refine (h.numbered chat).concat ?_
      rw [ring_eq h halone, newEvent, nextSeq_rtake ringMax_pos (h.numbered chat), Int.zero_add]
    · exact h.numbered other
  ring other ring hring := by
    rw [events_append]
    simp only [append, Dict.get_set] at hring
    split_ifs at hring ⊢ with hother
    · obtain rfl := Option.some.inj hring
      rw [ring_eq h halone]
      exact rtake_concat _
    · exact h.ring other ring hring
  unloaded other hring := by
    rw [events_append]
    simp only [append, Dict.get_set] at hring
    split_ifs at hring ⊢ with hother
    exact h.unloaded other hring
  file other hother := by
    have hend : ∀ (l : List (Event F)) (e : Event F),
        fileText N (l ++ [e]) = fileText N l ++ (e.text N ++ ['\n']) := by
      intro l e
      rw [fileText_append, fileText, fileText, List.flatMap_cons, List.flatMap_nil,
        List.append_nil]
    rw [events_append, append]
    dsimp only
    rcases (mem_keys_append other).mp hother with rfl | hmem
    · rw [Dict.get_set_self, if_pos rfl, hend, fileText_eq h halone]
    · by_cases heq : chat = other
      · obtain rfl := heq
        rw [Dict.get_set_self, if_pos rfl, hend, fileText_eq h halone]
      · have hdir : dirOf chat ≠ dirOf other := fun hdir =>
          heq (halone other hmem hdir.symm).symm
        rw [Dict.get_set_of_ne _ hdir, if_neg heq]
        exact h.file other hmem
  owned dir text hfile := by
    rw [append] at hfile
    dsimp only at hfile
    rw [Dict.get_set] at hfile
    split_ifs at hfile with hdir
    · exact ⟨chat, (mem_keys_append chat).mpr (Or.inl rfl), hdir⟩
    · obtain ⟨other, hother, heq⟩ := h.owned dir text hfile
      exact ⟨other, (mem_keys_append other).mpr (Or.inr hother), heq⟩
  follows other client := by
    obtain ⟨position, hcursor, hfollows⟩ := h.follows other client
    refine ⟨position, hcursor, ?_⟩
    rw [events_append]
    split_ifs with heq
    · obtain rfl := heq
      exact hfollows.grow _
    · exact hfollows
  settled := h.settled

end Append

section Poll

variable {chat : String} {client limit : Nat}

/-- What one reply does to a client that follows the log. -/
theorem follows_take
    (hnum : Numbered Event.seq 0 (s.events chat)) (hlimit : 0 < limit)
    {c : Client F} {position : Nat} (hcursor : c.cursor = position)
    (hfollows : Follows (s.events chat) c.received position c.truncated)
    {c' : Client F}
    (hc' : c' = c.take (since ((s.events chat).rtake ringMax) c.cursor limit)
      (s.events chat).length) :
    ∃ position' : Nat, c'.cursor = position' ∧
      Follows (s.events chat) c'.received position' c'.truncated := by
  have hstart : replyStart ringMax (s.events chat) position ≤ (s.events chat).length :=
    max_le hfollows.within (Nat.sub_le _ _)
  rw [hcursor] at hc'
  have hevents : (since ((s.events chat).rtake ringMax) position limit).events =
      ((s.events chat).drop (replyStart ringMax (s.events chat) position)).take limit :=
    since_events hnum position limit
  have hflag : (since ((s.events chat).rtake ringMax) position limit).truncated = false →
      replyStart ringMax (s.events chat) position = position :=
    since_not_truncated hnum ringMax_pos
  obtain rfl := hc'
  refine ⟨replyStart ringMax (s.events chat) position +
    (((s.events chat).drop (replyStart ringMax (s.events chat) position)).take limit).length,
    ?_, ?_⟩
  · unfold Client.take
    dsimp only
    rw [hevents]
    cases hlast : (((s.events chat).drop
        (replyStart ringMax (s.events chat) position)).take limit).getLast? with
    | some e => exact seq_getLast_reply hnum hstart hlast
    | none =>
        -- An empty reply is at the end of the log, where the client already stands.
        have hempty := List.getLast?_eq_none_iff.mp hlast
        have hend := reply_empty hlimit hempty
        have hwithin := hfollows.within
        have hpos := ringMax_pos
        dsimp only
        rw [hempty, hcursor, List.length_nil]
        unfold replyStart at hend ⊢
        omega
  · unfold Client.take
    dsimp only
    rw [hevents]
    refine hfollows.read limit (Nat.le_max_left _ _) hstart fun hnot => ?_
    rw [Bool.or_eq_false_iff] at hnot
    exact ⟨hnot.1, hflag hnot.2⟩

/-- An empty reply tells a client that was not told of a gap that it has everything. -/
theorem settled_take
    (hnum : Numbered Event.seq 0 (s.events chat)) (hlimit : 0 < limit)
    {c : Client F} {position : Nat} (hcursor : c.cursor = position)
    (hfollows : Follows (s.events chat) c.received position c.truncated)
    (hsettled : c.truncated = false → c.settled ≤ c.received.length)
    {c' : Client F}
    (hc' : c' = c.take (since ((s.events chat).rtake ringMax) c.cursor limit)
      (s.events chat).length)
    (hnot : c'.truncated = false) :
    c'.settled ≤ c'.received.length := by
  rw [hcursor] at hc'
  have hevents : (since ((s.events chat).rtake ringMax) position limit).events =
      ((s.events chat).drop (replyStart ringMax (s.events chat) position)).take limit :=
    since_events hnum position limit
  have hflag : (since ((s.events chat).rtake ringMax) position limit).truncated = false →
      replyStart ringMax (s.events chat) position = position :=
    since_not_truncated hnum ringMax_pos
  obtain rfl := hc'
  unfold Client.take at hnot ⊢
  dsimp only at hnot ⊢
  rw [Bool.or_eq_false_iff] at hnot
  rw [List.length_append]
  split_ifs with hempty
  · rw [List.isEmpty_iff, hevents, hflag hnot.2] at hempty
    have hend := reply_empty hlimit hempty
    rw [hfollows.complete hnot.1, List.length_take]
    omega
  · exact Nat.le_add_right_of_le (hsettled hnot.1)

theorem inv_poll
    (h : Inv N dirOf s) (halone : Alone dirOf s chat) (hlimit : 0 < limit) :
    Inv N dirOf (poll N dirOf s chat client limit) := by
  refine { inv_withRing h halone with follows := ?_, settled := ?_ }
  · intro other client'
    obtain ⟨position, hcursor, hfollows⟩ := h.follows other client'
    unfold poll
    dsimp only
    rw [ring_eq h halone]
    split_ifs with heq
    · obtain ⟨rfl, rfl⟩ := heq
      exact follows_take (h.numbered other) hlimit hcursor hfollows rfl
    · exact ⟨position, hcursor, hfollows⟩
  · intro other client'
    obtain ⟨position, hcursor, hfollows⟩ := h.follows other client'
    unfold poll
    dsimp only
    rw [ring_eq h halone]
    split_ifs with heq
    · obtain ⟨rfl, rfl⟩ := heq
      exact settled_take (h.numbered other) hlimit hcursor hfollows (h.settled other client') rfl
    · exact h.settled other client'

end Poll

theorem inv_restart
    (h : Inv N dirOf s)
    (hclean : ∀ ring ∈ s.rings.values, ∀ e ∈ ring, cleanMembers e.members = true) :
    Inv N dirOf { s with rings := Dict.empty } := by
  refine { h with ring := fun chat ring hring => ?_, unloaded := fun chat _ => ?_ }
  · cases hring
  · cases hring : s.rings.get chat with
    | none => exact h.unloaded chat hring
    | some ring =>
        have htail := hclean ring (Dict.mem_values_of_get hring)
        rw [h.ring chat ring hring] at htail
        exact htail

theorem inv_step
    {op : Op F} (h : Inv N dirOf s) (hreg : Regular dirOf s op)
    (hstep : step N dirOf s op = some s') :
    Inv N dirOf s' := by
  cases op with
  | append chat kind ts payload =>
      obtain rfl := Option.some.inj hstep
      exact inv_append h (hreg.2 chat rfl)
  | nextSeq chat =>
      obtain rfl := Option.some.inj hstep
      exact inv_withRing h (hreg.2 chat rfl)
  | poll chat client limit =>
      simp only [step] at hstep
      split_ifs at hstep with hlimit
      obtain rfl := Option.some.inj hstep
      exact inv_poll h (hreg.2 chat rfl) hlimit
  | restart =>
      obtain rfl := Option.some.inj hstep
      exact inv_restart h (hreg.1 rfl)

theorem Inv.continuous
    (h : Inv N dirOf s) :
    Continuous s where
  increasing chat := (h.numbered chat).increasing
  inOrder chat client := by
    obtain ⟨position, _, hfollows⟩ := h.follows chat client
    exact hfollows.inOrder.trans (List.take_sublist _ _)
  complete chat client hnot := by
    obtain ⟨position, _, hfollows⟩ := h.follows chat client
    refine ⟨?_, h.settled chat client hnot⟩
    rw [hfollows.complete hnot]
    exact List.take_prefix _ _

end Steps

section Results

/-- **Continuity.**  Where every restart finds rings of one-line events and no chat
shares the directory of another, numbers are never used twice, and each client receives
each event once and in order, unless a reply told it that events are missing. -/
theorem log_continuous
    (N : FloatText F) (dirOf : String → String) (s : State F)
    (h : Reach (step N dirOf) (Regular dirOf) initial s) :
    Continuous s :=
  (h.invariant inv_initial fun _ _ _ => inv_step).continuous

/-- In such a run `next_seq` is the number of the next event. -/
theorem nextSeq_ring
    {N : FloatText F} {dirOf : String → String} {s : State F}
    (h : Reach (step N dirOf) (Regular dirOf) initial s)
    {chat : String} (halone : Alone dirOf s chat) :
    nextSeq (s.ring N dirOf chat) = (s.events chat).length + 1 := by
  have hinv := h.invariant inv_initial fun _ _ _ => inv_step
  rw [ring_eq hinv halone]
  exact nextSeq_rtake ringMax_pos (hinv.numbered chat)

/-- An event with a text, one before a restart and one after it, and two polls. -/
def restartRun (text : String) : List (Op Int) :=
  [.append "chat-1" "turn" 1700000000 [("text".toList, .scalar (.str text.toList))],
    .poll "chat-1" 0 500,
    .restart,
    .append "chat-1" "turn" 1700000060 [("text".toList, .scalar (.str "done".toList))],
    .poll "chat-1" 0 500]

theorem log_continuous_restartRun :
    ∃ s, run (step Cron.wholeSeconds id) initial (restartRun "line one\nline two") = some s ∧
      Continuous s := by
  have hsome : (run (step Cron.wholeSeconds id) initial
      (restartRun "line one\nline two")).isSome = true := by decide +kernel
  have hreg : Guarded (step Cron.wholeSeconds id) (Regular id) initial
      (restartRun "line one\nline two") :=
    guarded_of_checkRun (fun s op => decide (Regular id s op)) (fun _ _ => of_decide_eq_true)
      (by decide +kernel)
  exact ⟨_, run_eq_getD hsome, log_continuous _ _ _ (reach_of_run (run_eq_getD hsome) hreg)⟩

/-- After a restart an event with a line separator in its text is not loaded: the next
event has its number, and the client waits for ever although no reply was flagged. -/
theorem seq_reused :
    ∃ s, run (step Cron.wholeSeconds id) initial (restartRun "line one\u2028line two") = some s ∧
      (s.events "chat-1").map Event.seq = [1, 1] ∧
      (s.clients "chat-1" 0).received.length = 1 ∧
      (s.clients "chat-1" 0).truncated = false ∧ ¬ Continuous s := by
  have hout : (run (step Cron.wholeSeconds id) initial
      (restartRun "line one\u2028line two")).map (fun s =>
        ((s.events "chat-1").map Event.seq, (s.clients "chat-1" 0).received.length,
          (s.clients "chat-1" 0).truncated)) = some ([1, 1], 1, false) := by
    decide +kernel
  obtain ⟨s, hrun, hs⟩ := Option.map_eq_some_iff.mp hout
  simp only [Prod.mk.injEq] at hs
  refine ⟨s, hrun, hs.1, hs.2.1, hs.2.2, fun h => ?_⟩
  have hseqs := List.pairwise_map.mpr (h.increasing "chat-1")
  rw [hs.1] at hseqs
  exact absurd hseqs (by decide)

end Results

end EventLog
end DiploidAgent
