import DiploidAgent.Lib.Follow
import DiploidAgent.Lib.JsonOrder
import DiploidAgent.Lib.Text
import DiploidAgent.Memory.Recall

/-!
# The last wake event

`AcpLifecycleLog`: one line of ASCII an event, trimmed from the head, and searched from its end.

The search for one event of a chat reads ten lines and no more, whatever chat they are of.  So it
finds the last wake event of the chat that the log has kept when fewer than ten events follow it
there, and nothing when more do (`lastWakeEventFor_run`).
-/

namespace DiploidAgent
namespace Acp
namespace LifecycleLog

open JsonText Lines Follow
open Recall (universalNewlines universalNewlines_eq_self)
open Text (strip isSpace_of_strip_eq_nil)

universe u

variable {F : Type u}

section Model

/-- `AcpLifecycleEvent`, with what is no JSON in the detail already replaced by its text. -/
structure AcpLifecycleEvent (F : Type u) where
  event : List Char
  timestamp : List Char
  chatId : Option (List Char) := none
  sessionId : Option (List Char) := none
  model : Option (List Char) := none
  reason : Option (List Char) := none
  detail : Option (Value F) := none
  pid : Option Int := none
  transportGen : Option Int := none

/-- What the context provider gives; without one, and when it fails, nothing. -/
structure Identity where
  pid : Option Int := none
  transportGen : Option Int := none

/-- The event that `write` makes of its arguments. -/
def stamped (context : Identity) (e : AcpLifecycleEvent F) : AcpLifecycleEvent F :=
  { e with
    pid := e.pid.or context.pid
    transportGen := e.transportGen.or context.transportGen }

def orNull (v : Option (Value F)) : Value F := v.getD (.scalar .null)

def textOrNull (s : Option (List Char)) : Value F := orNull (s.map fun s => .scalar (.str s))

def intOrNull (n : Option Int) : Value F := orNull (n.map fun n => .scalar (.int n))

/-- `asdict`, in the order of `sort_keys`. -/
def AcpLifecycleEvent.members (e : AcpLifecycleEvent F) : List (List Char × Value F) :=
  [(['c', 'h', 'a', 't', '_', 'i', 'd'], textOrNull e.chatId),
    (['d', 'e', 't', 'a', 'i', 'l'], orNull (e.detail.map sortKeys)),
    (['e', 'v', 'e', 'n', 't'], .scalar (.str e.event)),
    (['m', 'o', 'd', 'e', 'l'], textOrNull e.model),
    (['p', 'i', 'd'], intOrNull e.pid),
    (['r', 'e', 'a', 's', 'o', 'n'], textOrNull e.reason),
    (['s', 'e', 's', 's', 'i', 'o', 'n', '_', 'i', 'd'], textOrNull e.sessionId),
    (['t', 'i', 'm', 'e', 's', 't', 'a', 'm', 'p'], .scalar (.str e.timestamp)),
    (['t', 'r', 'a', 'n', 's', 'p', 'o', 'r', 't', '_', 'g', 'e', 'n'], intOrNull e.transportGen)]

/-- The object of an event. -/
def AcpLifecycleEvent.value (e : AcpLifecycleEvent F) : Value F := .obj e.members

/-! ### The file -/

/-- The lines of a text file, each with its line feed. -/
def fileLines : List Char → List (List Char)
  | [] => []
  | c :: rest =>
      if c = '\n' then [c] :: fileLines rest
      else
        match fileLines rest with
        | [] => [[c]]
        | l :: ls => (c :: l) :: ls

/-- `_read_tail`. -/
def readTail (n : Nat) (text : List Char) : List (List Char) :=
  ((fileLines (universalNewlines text)).filter fun line => strip line ≠ []).rtake n

/-- The first half of `write`, under the lock. -/
def append (N : FloatText F) (file : Option (List Char)) (e : AcpLifecycleEvent F) :
    Option (List Char) :=
  some (file.getD [] ++ (dumps true N e.value ++ ['\n']))

/-- `max(1, max_lines)`. -/
def kept (maxLines : Int) : Nat := (max 1 maxLines).toNat

/-- `_trim_if_needed`. -/
def trimIfNeeded (maxLines : Int) : Option (List Char) → Option (List Char)
  | none => none
  | some text =>
      let lines := readTail (kept maxLines + 1) text
      if lines.length ≤ kept maxLines then some text
      else some (lines.rtake (kept maxLines)).flatten

/-- What happens to the file.  The two halves of a call take the lock each for itself, so those of
other threads may come between them. -/
inductive Step (F : Type u) where
  | append (context : Identity) (e : AcpLifecycleEvent F)
  | trim (maxLines : Int)

def step (N : FloatText F) (file : Option (List Char)) : Step F → Option (List Char)
  | .append context e => append N file (stamped context e)
  | .trim maxLines => trimIfNeeded maxLines file

def run (N : FloatText F) (steps : List (Step F)) : Option (List Char) := steps.foldl (step N) none

/-! ### The search -/

/-- `.get` of a dictionary. -/
def get (ms : List (List Char × Value F)) (key : List Char) : Option (Value F) :=
  (ms.reverse.find? fun m => m.1 == key).map Prod.snd

/-- A value that equals the text. -/
def isText (s : List Char) : Option (Value F) → Bool
  | some (.scalar (.str s')) => s' == s
  | _ => false

/-- `types is None or v in types`; a list or a dictionary has no hash. -/
def isOneOf (types : Option (List (List Char))) (v : Option (Value F)) : Option Bool :=
  match types, v with
  | none, _ => some true
  | some types, some (.scalar (.str s)) => some (types.contains s)
  | some _, some (.arr _) => none
  | some _, some (.obj _) => none
  | some _, _ => some false

/-- The loop over the events, the latest first. -/
def collect (chatId : List Char) (types : Option (List (List Char))) (limit : Nat) :
    List (Value F) → List (Value F) → Option (List (Value F))
  | results, [] => some results
  | results, .obj ms :: events =>
      if isText chatId (get ms ['c', 'h', 'a', 't', '_', 'i', 'd']) then
        match isOneOf types (get ms ['e', 'v', 'e', 'n', 't']) with
        | none => none
        | some false => collect chatId types limit results events
        | some true =>
            if limit ≤ results.length + 1 then some (results ++ [.obj ms])
            else collect chatId types limit (results ++ [.obj ms]) events
      else collect chatId types limit results events
  | _, _ :: _ => none

/-- `recent_events_for`; without a value it raises. -/
def recentEventsFor (N : FloatText F) (file : Option (List Char)) (chatId : List Char)
    (types : Option (List (List Char))) (limit : Nat) : Option (List (Value F)) :=
  match file with
  | none => some []
  | some text =>
      match (readTail (limit * 10) text).mapM (loads N) with
      | none => none
      | some events => (collect chatId types limit [] events.reverse).map List.reverse

def wakeTypes : List (List Char) :=
  ["transport.restart".toList, "session.resume.success".toList, "session.load.success".toList,
    "rehydrate.resume.success".toList, "rehydrate.session_alive.success".toList,
    "rehydrate.new_session.success".toList, "rehydrate.timeout".toList, "rehydrate.start".toList,
    "rehydrate.transport_restart_failure".toList, "session.new".toList,
    "session.new.success".toList]

/-- `last_wake_event_for`. -/
def lastWakeEventFor (N : FloatText F) (file : Option (List Char)) (chatId : List Char) :
    Option (Option (Value F)) :=
  (recentEventsFor N file chatId (some wakeTypes) 1).map List.head?

/-! ### What is claimed -/

/-- The events that the log has kept. -/
def retain (events : List (AcpLifecycleEvent F)) : Step F → List (AcpLifecycleEvent F)
  | .append context e => events ++ [stamped context e]
  | .trim maxLines => events.rtake (kept maxLines)

def retained (steps : List (Step F)) : List (AcpLifecycleEvent F) := steps.foldl retain []

/-- A wake-relevant event of the chat. -/
def AcpLifecycleEvent.Wakes (chatId : List Char) (e : AcpLifecycleEvent F) : Prop :=
  e.chatId = some chatId ∧ e.event ∈ wakeTypes

instance (chatId : List Char) (e : AcpLifecycleEvent F) : Decidable (e.Wakes chatId) :=
  inferInstanceAs (Decidable (_ ∧ _))

end Model

section Reading

variable {N : FloatText F} {events : List (AcpLifecycleEvent F)}

/-- The line of an event. -/
def line (N : FloatText F) (e : AcpLifecycleEvent F) : List Char := dumps true N e.value ++ ['\n']

/-- The file of the events that are kept. -/
def text (N : FloatText F) (events : List (AcpLifecycleEvent F)) : List Char :=
  events.flatMap (line N)

theorem unbroken_value (e : AcpLifecycleEvent F) : Unbroken (dumps true N e.value) :=
  unbroken_dumps e.value (Or.inl rfl)

theorem feed_notMem_value (e : AcpLifecycleEvent F) : '\n' ∉ dumps true N e.value :=
  fun hmem => Bool.noConfusion (unbroken_value e '\n' hmem)

theorem return_notMem_text (events : List (AcpLifecycleEvent F)) : '\r' ∉ text N events := by
  intro hmem
  obtain ⟨e, -, he⟩ := List.mem_flatMap.mp hmem
  rcases List.mem_append.mp he with he | he
  · exact Bool.noConfusion (unbroken_value e '\r' he)
  · exact absurd he (by decide)

theorem fileLines_append {l : List Char} (h : '\n' ∉ l) (rest : List Char) :
    fileLines (l ++ '\n' :: rest) = (l ++ ['\n']) :: fileLines rest := by
  induction l with
  | nil => rw [List.nil_append, List.nil_append, fileLines, if_pos rfl]
  | cons c l ih =>
      have hc : c ≠ '\n' := fun hc => h (hc ▸ List.mem_cons_self)
      rw [List.cons_append, fileLines, if_neg hc, ih fun hmem => h (List.mem_cons_of_mem c hmem)]
      rfl

theorem fileLines_text (events : List (AcpLifecycleEvent F)) :
    fileLines (text N events) = events.map (line N) := by
  induction events with
  | nil => rfl
  | cons e events ih =>
      rw [text, List.flatMap_cons, line, List.append_assoc, List.singleton_append,
        fileLines_append (feed_notMem_value e), ← text, ih]
      rfl

/-- No line of the file is blank. -/
theorem strip_line_ne_nil (e : AcpLifecycleEvent F) : strip (line N e) ≠ [] := by
  intro hblank
  have hbrace : '{' ∈ line N e := List.mem_append_left _ List.mem_cons_self
  exact Bool.noConfusion (isSpace_of_strip_eq_nil hblank '{' hbrace)

theorem rtake_map {α β : Type*} (f : α → β) (l : List α) (n : Nat) :
    (l.map f).rtake n = (l.rtake n).map f := by
  rw [List.rtake, List.rtake, List.length_map, List.map_drop]

theorem rtake_rtake {α : Type*} (l : List α) (n : Nat) :
    (l.rtake (n + 1)).rtake n = l.rtake n := by
  rw [List.rtake, List.rtake, List.rtake, List.drop_drop, List.length_drop]
  congr 1
  omega

/-- `_read_tail` gives the last lines. -/
theorem readTail_text (n : Nat) (events : List (AcpLifecycleEvent F)) :
    readTail n (text N events) = (events.rtake n).map (line N) := by
  have hfilter : (events.map (line N)).filter (fun line => strip line ≠ []) =
      events.map (line N) := by
    refine List.filter_eq_self.mpr fun l hl => ?_
    obtain ⟨e, -, rfl⟩ := List.mem_map.mp hl
    exact decide_eq_true (strip_line_ne_nil e)
  rw [readTail, universalNewlines_eq_self (return_notMem_text events), fileLines_text, hfilter,
    rtake_map]

/-- The file holds the events. -/
def Holds (N : FloatText F) (file : Option (List Char)) (events : List (AcpLifecycleEvent F)) :
    Prop :=
  file = some (text N events) ∨ file = none ∧ events = []

theorem Holds.step {file : Option (List Char)} (h : Holds N file events) (op : Step F) :
    Holds N (step N file op) (retain events op) := by
  cases op with
  | append context e =>
      have hfile : file.getD [] = text N events := by
        rcases h with rfl | ⟨rfl, rfl⟩ <;> rfl
      refine Or.inl ?_
      rw [LifecycleLog.step, append, hfile, retain, text, text, List.flatMap_append,
        List.flatMap_singleton]
      rfl
  | trim maxLines =>
      rcases h with rfl | ⟨rfl, rfl⟩
      · refine Or.inl ?_
        rw [LifecycleLog.step, trimIfNeeded, readTail_text, List.length_map, retain]
        split_ifs with hshort
        · have hall : events.rtake (kept maxLines) = events := by
            rw [List.rtake, List.length_drop] at hshort
            rw [List.rtake, Nat.sub_eq_zero_of_le (by omega), List.drop_zero]
          rw [hall]
        · rw [rtake_map, rtake_rtake, text, List.flatMap_def]
      · exact Or.inr ⟨rfl, by rw [retain, List.rtake_nil]⟩

/-- After any steps the file holds the events that were kept. -/
theorem holds_run (N : FloatText F) (steps : List (Step F)) :
    Holds N (run N steps) (retained steps) := by
  have hfold : ∀ (file : Option (List Char)) (events : List (AcpLifecycleEvent F)),
      Holds N file events → Holds N (steps.foldl (step N) file) (steps.foldl retain events) := by
    induction steps with
    | nil => exact fun _ _ h => h
    | cons op steps ih => exact fun _ _ h => ih _ _ (h.step op)
  exact hfold none [] (Or.inr ⟨rfl, rfl⟩)

end Reading

section Searching

variable {N : FloatText F} {events : List (AcpLifecycleEvent F)} {chatId : List Char}
  {types : Option (List (List Char))} {limit : Nat}

/-- The events that a search is for. -/
def matching (chatId : List Char) (types : Option (List (List Char))) (e : AcpLifecycleEvent F) :
    Bool :=
  e.chatId == some chatId && (types.map fun types => types.contains e.event).getD true

theorem isText_get_value (e : AcpLifecycleEvent F) :
    isText chatId (get e.members ['c', 'h', 'a', 't', '_', 'i', 'd']) =
      (e.chatId == some chatId) := by
  have hget : get e.members ['c', 'h', 'a', 't', '_', 'i', 'd'] = some (textOrNull e.chatId) := rfl
  rw [hget]
  cases e.chatId <;> rfl

theorem isOneOf_get_value (e : AcpLifecycleEvent F) :
    isOneOf types (get e.members ['e', 'v', 'e', 'n', 't']) =
      some ((types.map fun types => types.contains e.event).getD true) := by
  have hget : get e.members ['e', 'v', 'e', 'n', 't'] = some (.scalar (.str e.event)) := rfl
  rw [hget]
  cases types <;> rfl

/-- The loop finds the events that match, up to the limit. -/
theorem collect_values (results : List (Value F)) (hroom : results.length < limit) :
    collect chatId types limit results (events.map AcpLifecycleEvent.value) =
      some (results ++ ((events.filter (matching chatId types)).take
        (limit - results.length)).map AcpLifecycleEvent.value) := by
  induction events generalizing results with
  | nil => rw [List.map_nil, collect, List.filter_nil, List.take_nil, List.map_nil, List.append_nil]
  | cons e events ih =>
      rw [List.map_cons, AcpLifecycleEvent.value, collect, isText_get_value, isOneOf_get_value,
        List.filter_cons, matching]
      cases hchat : e.chatId == some chatId with
      | false => exact ih results hroom
      | true =>
          cases htype : (types.map fun types => types.contains e.event).getD true with
          | false => exact ih results hroom
          | true =>
              rw [if_pos rfl, Bool.and_self, if_pos rfl]
              obtain ⟨n, hn⟩ : ∃ n, limit - results.length = n + 1 :=
                ⟨limit - results.length - 1, by omega⟩
              rw [hn, List.take_succ_cons, List.map_cons]
              dsimp only
              split_ifs with hfull
              · obtain rfl : n = 0 := by omega
                rw [List.take_zero, List.map_nil]
                rfl
              · have hlength : (results ++ [Value.obj e.members]).length = results.length + 1 := by
                  rw [List.length_append, List.length_singleton]
                rw [ih _ (by omega), hlength, List.append_assoc]
                have hless : limit - (results.length + 1) = n := by omega
                rw [hless]
                rfl

/-- A search reads ten lines for each event that it is for. -/
theorem recentEventsFor_run (N : FloatText F) (steps : List (Step F)) (hlimit : 0 < limit) :
    recentEventsFor N (run N steps) chatId types limit =
      some (((((retained steps).rtake (limit * 10)).filter (matching chatId types)).rtake
        limit).map AcpLifecycleEvent.value) := by
  rcases holds_run N steps with hfile | ⟨hfile, hnone⟩
  · have hread : (((retained steps).rtake (limit * 10)).map (line N)).mapM (loads N) =
        some (((retained steps).rtake (limit * 10)).map AcpLifecycleEvent.value) := by
      rw [mapM_loads_iff, List.map_map, List.map_map]
      exact List.map_congr_left fun e _ => loads_dumps_newline true e.value
    rw [hfile, recentEventsFor, readTail_text, hread]
    dsimp only
    rw [← List.map_reverse, collect_values [] hlimit, Option.map_some, List.nil_append,
      ← List.map_reverse, List.length_nil, Nat.sub_zero, List.filter_reverse,
      ← List.rtake_eq_reverse_take_reverse]
  · rw [hfile, hnone, recentEventsFor, List.rtake_nil, List.filter_nil, List.rtake_nil,
      List.map_nil]

/-- The search for the last wake event. -/
theorem lastWakeEventFor_eq (N : FloatText F) (steps : List (Step F)) (chatId : List Char) :
    lastWakeEventFor N (run N steps) chatId =
      some ((((retained steps).rtake 10).filter fun e => e.Wakes chatId).getLast?.map
        AcpLifecycleEvent.value) := by
  have hmatching : matching chatId (some wakeTypes) =
      fun e : AcpLifecycleEvent F => decide (e.Wakes chatId) := by
    funext e
    rw [matching, Option.map_some, Option.getD_some, Bool.eq_iff_iff, Bool.and_eq_true,
      beq_iff_eq, List.contains_iff_mem, decide_eq_true_iff]
    rfl
  have hhead : ∀ l : List (AcpLifecycleEvent F),
      ((l.rtake 1).map AcpLifecycleEvent.value).head? =
        l.getLast?.map AcpLifecycleEvent.value := by
    intro l
    cases l using List.reverseRecOn with
    | nil => rfl
    | append_singleton l e =>
        rw [List.rtake_concat_succ, List.rtake_zero, List.getLast?_concat]
        rfl
  rw [lastWakeEventFor, recentEventsFor_run N steps Nat.one_pos, Option.map_some, hhead, hmatching]

end Searching

section Results

variable {N : FloatText F}

/-- The last ten of a list with an event in it. -/
theorem rtake_split {α : Type*} (pre post : List α) (e : α) (n : Nat) :
    (pre ++ e :: post).rtake n =
      if post.length < n then pre.rtake (n - (post.length + 1)) ++ e :: post else post.rtake n := by
  have hlength : (pre ++ e :: post).length = pre.length + (post.length + 1) := by
    rw [List.length_append, List.length_cons]
  split_ifs with h
  · rw [List.rtake, hlength, List.rtake, List.drop_append_of_le_length (by omega)]
    congr 2
    omega
  · have hassoc : pre ++ e :: post = (pre ++ [e]) ++ post := by simp
    have hpre : (pre ++ [e]).length = pre.length + 1 := by simp
    rw [List.rtake, hlength, hassoc, List.drop_append, List.rtake, hpre,
      List.drop_eq_nil_iff.mpr (by rw [hpre]; omega), List.nil_append]
    congr 1
    omega

/-- The last wake event of a chat that the log has kept is found when fewer than ten events, of
whatever chats, follow it there; else, and when there is none, nothing is found. -/
theorem lastWakeEventFor_run (N : FloatText F) (steps : List (Step F)) (chatId : List Char) :
    (∀ pre e post, retained steps = pre ++ e :: post → e.Wakes chatId →
      (∀ e' ∈ post, ¬ e'.Wakes chatId) →
      lastWakeEventFor N (run N steps) chatId =
        some (if post.length < 10 then some e.value else none)) ∧
    ((∀ e ∈ retained steps, ¬ e.Wakes chatId) →
      lastWakeEventFor N (run N steps) chatId = some none) := by
  have hquiet : ∀ {l : List (AcpLifecycleEvent F)}, (∀ e ∈ l, ¬ e.Wakes chatId) → ∀ n,
      (l.rtake n).filter (fun e => e.Wakes chatId) = [] := by
    intro l hl n
    refine List.filter_eq_nil_iff.mpr fun e he hwakes => ?_
    exact hl e (List.mem_of_mem_drop he) (of_decide_eq_true hwakes)
  rw [lastWakeEventFor_eq]
  constructor
  · intro pre e post hretained he hpost
    rw [hretained, rtake_split]
    split_ifs with hten
    · have hnone : post.filter (fun e => e.Wakes chatId) = [] := by
        have hall := hquiet hpost post.length
        rwa [List.rtake, Nat.sub_self, List.drop_zero] at hall
      rw [List.filter_append, List.filter_cons, if_pos (decide_eq_true he), hnone,
        List.getLast?_concat]
      rfl
    · rw [hquiet hpost]
      rfl
  · intro hnone
    rw [hquiet hnone]
    rfl

/-- Whole calls of `write`, without a context. -/
def writes (maxLines : Int) (events : List (AcpLifecycleEvent F)) : List (Step F) :=
  events.flatMap fun e => [.append {} e, .trim maxLines]

/-- A log that is not full keeps what is written. -/
theorem retained_writes {maxLines : Int} {events : List (AcpLifecycleEvent F)}
    (h : events.length ≤ kept maxLines) : retained (writes maxLines events) = events := by
  have hfold : ∀ (later early : List (AcpLifecycleEvent F)),
      early.length + later.length ≤ kept maxLines →
        (writes maxLines later).foldl retain early = early ++ later := by
    intro later
    induction later with
    | nil => exact fun early _ => (List.append_nil early).symm
    | cons e later ih =>
        intro early hroom
        rw [List.length_cons] at hroom
        have hstamped : stamped {} e = e := by
          rw [stamped, Option.or_none, Option.or_none]
        have hlater : (early ++ [e]).length + later.length ≤ kept maxLines := by
          rw [List.length_append, List.length_singleton]
          omega
        have hfull : (early ++ [e]).length ≤ kept maxLines := by omega
        have hcall : retain (retain early (.append {} e)) (.trim maxLines) = early ++ [e] := by
          rw [retain, retain, hstamped, List.rtake, Nat.sub_eq_zero_of_le hfull, List.drop_zero]
        rw [writes, List.flatMap_cons, List.foldl_append, List.foldl_cons, List.foldl_cons,
          List.foldl_nil, hcall, ← writes, ih (early ++ [e]) hlater, List.append_assoc]
        rfl
  exact hfold events [] (by rwa [List.length_nil, Nat.zero_add])

/-- The session of a chat is made. -/
def sessionNew (chatId : List Char) : AcpLifecycleEvent Empty where
  event := "session.new".toList
  timestamp := []
  chatId := some chatId

/-- The session of a chat is made, and then those of others. -/
def busyEvents (others : Nat) : List (AcpLifecycleEvent Empty) :=
  sessionNew ['7'] :: List.replicate others (sessionNew ['8'])

theorem wakes_sessionNew (chatId : List Char) : (sessionNew chatId).Wakes chatId :=
  ⟨rfl, List.mem_of_getElem? (i := 9) rfl⟩

theorem not_wakes_others (others : Nat) :
    ∀ e ∈ List.replicate others (sessionNew ['8']), ¬ e.Wakes ['7'] := by
  rintro e he ⟨hchat, -⟩
  rw [List.eq_of_mem_replicate he] at hchat
  cases hchat

/-- The log has kept the event of the chat, and the search says that there is none. -/
theorem lastWakeEventFor_misses :
    (∃ e ∈ retained (writes 10000 (busyEvents 10)), e.Wakes ['7']) ∧
      lastWakeEventFor noFloats (run noFloats (writes 10000 (busyEvents 10))) ['7'] =
        some none := by
  have hretained : retained (writes 10000 (busyEvents 10)) = busyEvents 10 :=
    retained_writes (by decide)
  have hten : (busyEvents 10).rtake 10 = List.replicate 10 (sessionNew ['8']) := rfl
  rw [lastWakeEventFor_eq, hretained]
  refine ⟨⟨sessionNew ['7'], List.mem_cons_self, wakes_sessionNew ['7']⟩, ?_⟩
  rw [hten, List.filter_eq_nil_iff.mpr fun e he h => not_wakes_others 10 e he (of_decide_eq_true h)]
  rfl

/-- One session fewer, and it is found. -/
theorem lastWakeEventFor_nine :
    lastWakeEventFor noFloats (run noFloats (writes 10000 (busyEvents 9))) ['7'] =
      some (some (sessionNew ['7']).value) :=
  (lastWakeEventFor_run noFloats (writes 10000 (busyEvents 9)) ['7']).1 [] (sessionNew ['7'])
    (List.replicate 9 (sessionNew ['8'])) (retained_writes (by decide)) (wakes_sessionNew ['7'])
    (not_wakes_others 9)

end Results

end LifecycleLog
end Acp
end DiploidAgent
