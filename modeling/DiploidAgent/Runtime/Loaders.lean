import DiploidAgent.Cron.Store
import DiploidAgent.Lib.JsonDumps
import DiploidAgent.Lib.LineLoader
import DiploidAgent.Lib.Text
import DiploidAgent.Runtime.DispatchStore

/-!
# Loading the stores

`WakeQueue._load`, `DispatchStore.load`, `PlanManager._load` and `load_store`, on a file of
any lines.  Each of them skips a line that fails with an error it catches, but the errors
they catch are not all that a line can fail with: a value that is no object fails in the
constructors with an error of another type, a dispatch and a session record are put into
their tables behind the `try`, and the dispatches are swept and written at the end.

The conditions under which a file is loaded, and then as if the malformed lines were not
there, are `corrupt_lines_skipped_iff`.  `model_validate` is a parameter, and so is what the
interpreter does with floats, with the depth of a value, and with the keys of a dict.
-/

namespace DiploidAgent
namespace Loaders

open Dispatches JsonText LineLoader Lines

/-- The classes of the errors that occur; `pydantic.ValidationError` is a `ValueError`. -/
inductive PyError where
  | jsonDecodeError
  | valueError
  | keyError
  | typeError
  | attributeError
  | overflowError
  | recursionError
  | runtimeError
deriving DecidableEq

/-- `isinstance(e, ValueError)`. -/
def PyError.isValueError : PyError → Bool
  | .jsonDecodeError | .valueError => true
  | _ => false

/-- What the interpreter does. -/
structure Python (F κ : Type) where
  /-- `json.loads`. -/
  loads : List Char → Except PyError (Value F)
  /-- The key of a dict; the same one for values that are equal. -/
  keyOf : Scalar F → κ
  zero : F
  isZero : F → Bool
  addOne : F → F
  /-- `<` of two numbers. -/
  before : Scalar F → Scalar F → Bool
  /-- `now - stamp > _TERMINAL_RETENTION_SECONDS`, unless the number fits no float. -/
  tooOld : Scalar F → Option Bool

/-- The members of a record, by the names of its fields. -/
abbrev Row (F : Type) := List (List Char × Value F)

section Model

variable {F κ π : Type} [DecidableEq κ] (E : Python F κ)

/-! ### Values -/

def Row.field (r : Row F) (name : String) : Value F := (member r name).getD (.scalar .null)

/-- The truth of a value. -/
def isTruthy : Value F → Bool
  | .scalar .null => false
  | .scalar (.bool b) => b
  | .scalar (.int n) => n ≠ 0
  | .scalar (.float x) => !E.isZero x
  | .scalar (.str s) => !s.isEmpty
  | .arr items => !items.isEmpty
  | .obj ms => !ms.isEmpty

/-- A number; `True` and `False` are numbers too. -/
def number? : Value F → Option (Scalar F)
  | .scalar (.bool b) => some (.bool b)
  | .scalar (.int n) => some (.int n)
  | .scalar (.float x) => some (.float x)
  | _ => none

/-- A list and an object are no keys of a dict. -/
def hashKey : Value F → Except PyError κ
  | .scalar v => .ok (E.keyOf v)
  | _ => .error .typeError

/-- `v + 1`. -/
def plusOne : Value F → Except PyError (Scalar F)
  | .scalar (.bool b) => .ok (.int ((if b then 1 else 0) + 1))
  | .scalar (.int n) => .ok (.int (n + 1))
  | .scalar (.float x) => .ok (.float (E.addOne x))
  | _ => .error .typeError

/-- `data[key]`. -/
def subscript (data : Value F) (key : String) : Except PyError (Value F) :=
  match data with
  | .obj ms =>
      match member ms key with
      | some v => .ok v
      | none => .error .keyError
  | _ => .error .typeError

/-- `data.get(key, default)` of a dict. -/
def getMember (data : Value F) (key : String) (default : Value F) : Value F :=
  match data with
  | .obj ms => (member ms key).getD default
  | _ => default

/-! ### Records -/

/-- A field of a dataclass; without a default it is required. -/
structure DataField (F : Type) where
  name : String
  default : Option (Value F)

/-- `cls(**{k: v for k, v in data.items() if k in valid_fields})`. -/
def fromItems (fields : List (DataField F)) : Value F → Except PyError (Row F)
  | .obj ms =>
      fields.mapM fun f =>
        match member ms f.name, f.default with
        | some v, _ => .ok (f.name.toList, v)
        | none, some v => .ok (f.name.toList, v)
        | none, none => .error .typeError
  | _ => .error .attributeError

def flag (b : Bool) : Option (Value F) := some (.scalar (.bool b))

def count (n : Int) : Option (Value F) := some (.scalar (.int n))

def nothing : Option (Value F) := some (.scalar .null)

/-- The fields of `WakeEvent`. -/
def wakeEventFields : List (DataField F) :=
  [⟨"id", none⟩, ⟨"chat_id", none⟩, ⟨"reason", none⟩, ⟨"priority", none⟩,
    ⟨"scheduled_at", none⟩, ⟨"payload", some (.obj [])⟩, ⟨"silent", flag true⟩,
    ⟨"created_at", some (.scalar (.float E.zero))⟩, ⟨"ready", flag false⟩, ⟨"attempts", count 0⟩,
    ⟨"leased_until", nothing⟩]

/-- `WakeEvent.from_dict`. -/
def wakeEventFromDict : Value F → Except PyError (Row F) := fromItems (wakeEventFields E)

/-- The fields of `SessionRecord`, with the two defaults that `from_dict` sets. -/
def sessionRecordFields : List (DataField F) :=
  [⟨"chat_id", none⟩, ⟨"session_number", count 1⟩, ⟨"session_id", none⟩, ⟨"model", none⟩,
    ⟨"persona", some (.text "default-persona")⟩, ⟨"cwd", none⟩, ⟨"created_at", none⟩,
    ⟨"updated_at", none⟩, ⟨"turn_number", count 0⟩, ⟨"pending_turn_number", nothing⟩,
    ⟨"label", nothing⟩, ⟨"parent", nothing⟩, ⟨"last_stop_reason", nothing⟩,
    ⟨"persona_memory_exceeded", flag false⟩, ⟨"chat_memory_exceeded", flag false⟩,
    ⟨"cumulative_metrics", nothing⟩, ⟨"last_turn_metrics", nothing⟩,
    ⟨"first_turn_metrics", nothing⟩, ⟨"enabled_mcp_servers", nothing⟩,
    ⟨"disabled_mcp_servers", nothing⟩, ⟨"enabled_skills", nothing⟩,
    ⟨"disabled_skills", nothing⟩, ⟨"plugin_overrides", nothing⟩,
    ⟨"pressure_handoff_done", flag false⟩, ⟨"external_turns", count 0⟩]

/-- `SessionRecord.from_dict`. -/
def sessionRecordFromDict : Value F → Except PyError (Row F) := fromItems sessionRecordFields

/-- `Dispatch`, with fields of any JSON type but the status. -/
structure DispatchRow (F : Type) where
  id : Value F
  chatId : Value F
  sessionId : Value F
  status : DispatchStatus
  result : Value F
  context : Value F
  metadata : Value F
  type : Value F
  startedAt : Value F
  finishedAt : Value F
  summary : Value F
  stopReason : Value F
  cancelled : Value F
  isPartial : Value F
  timedOut : Value F
  fullResultPath : Value F

/-- `DispatchStatus(value)`. -/
def dispatchStatus (v : Value F) : Except PyError DispatchStatus :=
  match v.text? with
  | some "pending" => .ok .pending
  | some "completed" => .ok .completed
  | some "failed" => .ok .failed
  | some "timeout" => .ok .timeout
  | some "cancelled" => .ok .cancelled
  | _ => .error .valueError

/-- `Dispatch.from_dict`. -/
def dispatchFromDict (data : Value F) : Except PyError (DispatchRow F) := do
  let id ← subscript data "id"
  let chatId ← subscript data "chat_id"
  let sessionId ← subscript data "session_id"
  let status ← dispatchStatus (← subscript data "status")
  .ok {
    id, chatId, sessionId, status
    result := getMember data "result" (.scalar .null)
    context := getMember data "context" (.scalar .null)
    metadata := getMember data "metadata" (.obj [])
    type := getMember data "type" (.text "dispatch")
    startedAt := getMember data "started_at" (.scalar .null)
    finishedAt := getMember data "finished_at" (.scalar .null)
    summary := getMember data "summary" (.scalar .null)
    stopReason := getMember data "stop_reason" (.scalar .null)
    cancelled := getMember data "cancelled" (.scalar (.bool false))
    isPartial := getMember data "partial" (.scalar (.bool false))
    timedOut := getMember data "timed_out" (.scalar (.bool false))
    fullResultPath := getMember data "full_result_path" (.scalar .null) }

/-! ### The loops -/

def isBlank (line : List Char) : Bool := line.all Text.isSpace

/-- What a line holds: a blank one nothing, and the others what reading them gives. -/
def holds {ρ : Type} (reads : List Char → Except PyError ρ) (line : List Char) : Option ρ :=
  if isBlank line then none else (reads line).toOption

/-- The records of the well-formed lines of a file. -/
def recordsOf {ρ : Type} (reads : List Char → Except PyError ρ) (text : List Char) : List ρ :=
  (splitLines text).filterMap (holds reads)

/-- The loop of a loader over a text. -/
def loadText {ρ τ : Type} (outcome : List Char → Outcome PyError ρ) (put : τ → ρ → τ) (t : τ)
    (text : List Char) : Except PyError τ :=
  loadLines put t ((splitLines text).map fun line =>
    if isBlank line then .skipped else outcome line)

/-- `(json.JSONDecodeError, KeyError, TypeError)`. -/
def catchesTypes : PyError → Bool
  | .jsonDecodeError | .keyError | .typeError => true
  | _ => false

/-- `(json.JSONDecodeError, KeyError, ValueError)`. -/
def catchesValues (e : PyError) : Bool := e.isValueError || e == .keyError

def setEntry {ρ : Type} (m : Dict κ ρ) (e : κ × ρ) : Dict κ ρ := m.set e.1 e.2

/-- A record under its id. -/
def underKey {ρ : Type} (id : Value F) (r : ρ) : Except PyError (κ × ρ) :=
  (hashKey E id).map fun k => (k, r)

/-- A wake event of a value. -/
def keyedWakeEvent (data : Value F) : Except PyError (κ × Row F) :=
  wakeEventFromDict E data >>= fun event => underKey E (event.field "id") event

def readWakeEvent (line : List Char) : Except PyError (κ × Row F) :=
  E.loads line >>= keyedWakeEvent E

/-- `WakeQueue._load`. -/
def loadWakeQueue (text : List Char) : Except PyError (Dict κ (Row F)) :=
  loadText (fun line => attempt catchesTypes (readWakeEvent E line)) setEntry Dict.empty text

/-- A plan under its id; `model_validate` is pydantic's. -/
def readPlan (modelValidate : Value F → Except PyError π) (planId : π → String)
    (line : List Char) : Except PyError (String × π) :=
  E.loads line >>= fun data => (modelValidate data).map fun plan => (planId plan, plan)

/-- `PlanManager._load`. -/
def loadPlans (modelValidate : Value F → Except PyError π) (planId : π → String)
    (text : List Char) : Except PyError (Dict String π) :=
  loadText (fun line => attempt catchesValues (readPlan E modelValidate planId line)) setEntry
    Dict.empty text

/-- `self._dispatches[dispatch.id] = dispatch`. -/
def keyedDispatch (d : DispatchRow F) : Except PyError (κ × DispatchRow F) := underKey E d.id d

def readDispatch (line : List Char) : Except PyError (κ × DispatchRow F) :=
  E.loads line >>= dispatchFromDict >>= keyedDispatch E

/-- The loop of `DispatchStore.load`; the assignment stands behind the `try`. -/
def readDispatches (text : List Char) : Except PyError (Dict κ (DispatchRow F)) :=
  loadText (fun line => (attempt catchesValues (E.loads line >>= dispatchFromDict)).andThen
    (keyedDispatch E)) setEntry Dict.empty text

/-- `_age_key`. -/
def ageKey (d : DispatchRow F) : Value F :=
  if isTruthy E d.finishedAt then d.finishedAt
  else if isTruthy E d.startedAt then d.startedAt
  else .scalar (.float E.zero)

/-- `now - stamp > _TERMINAL_RETENTION_SECONDS`. -/
def expired (stamp : Value F) : Except PyError Bool :=
  match number? stamp with
  | none => .error .typeError
  | some n =>
      match E.tooOld n with
      | none => .error .overflowError
      | some b => .ok b

/-- One turn of the first loop of `_evict_terminal`. -/
def evictExpired (m : Dict κ (DispatchRow F)) (e : κ × DispatchRow F) :
    Except PyError (Dict κ (DispatchRow F)) :=
  if isTruthy E (ageKey E e.2) then
    (expired E (ageKey E e.2)).map fun old => if old then m.erase e.1 else m
  else .ok m

def terminalEntries (m : Dict κ (DispatchRow F)) : List (κ × DispatchRow F) :=
  m.entries.filter fun e => e.2.status.isTerminal

/-- `a` is not after `b` by their age keys, which are numbers once the first loop is done. -/
def notAfter (a b : κ × DispatchRow F) : Bool :=
  match number? (ageKey E a.2), number? (ageKey E b.2) with
  | some x, some y => !E.before y x
  | _, _ => true

/-- `_evict_terminal`. -/
def evictTerminal (m : Dict κ (DispatchRow F)) : Except PyError (Dict κ (DispatchRow F)) :=
  ((terminalEntries m).foldlM (evictExpired E) m).map fun m =>
    let remaining := terminalEntries m
    if terminalMaxKept < remaining.length then
      ((remaining.mergeSort (notAfter E)).take (remaining.length - terminalMaxKept)).foldl
        (fun m e => m.erase e.1) m
    else m

/-- `_save`, with `json.dumps(dispatch.to_dict(), default=str)`: the table and the file. -/
def saveDispatches (dumps : DispatchRow F → Except PyError (List Char))
    (m : Dict κ (DispatchRow F)) : Except PyError (Dict κ (DispatchRow F) × List Char) := do
  let m ← evictTerminal E m
  let lines ← m.values.mapM dumps
  .ok (m, (lines.map (· ++ ['\n'])).flatten)

/-- `DispatchStore.load`. -/
def loadDispatches (dumps : DispatchRow F → Except PyError (List Char)) (text : List Char) :
    Except PyError (Dict κ (DispatchRow F) × List Char) :=
  readDispatches E text >>= saveDispatches E dumps

/-- `ChatState`. -/
structure ChatRow (F κ : Type) where
  sessions : Dict κ (Row F) := Dict.empty
  nextSessionNumber : Scalar F := .int 1

/-- The keys of a session record, and the number behind its own. -/
structure StoredRecord (F κ : Type) where
  chatId : κ
  sessionNumber : κ
  next : Scalar F
  record : Row F

/-- What `load_store` computes of a record behind the `try`. -/
def storedRecord (record : Row F) : Except PyError (StoredRecord F κ) := do
  let chatId ← hashKey E (record.field "chat_id")
  let sessionNumber ← hashKey E (record.field "session_number")
  let next ← plusOne E (record.field "session_number")
  .ok { chatId, sessionNumber, next, record }

def readStored (line : List Char) : Except PyError (StoredRecord F κ) :=
  E.loads line >>= sessionRecordFromDict >>= storedRecord E

def putRecord (m : Dict κ (ChatRow F κ)) (r : StoredRecord F κ) : Dict κ (ChatRow F κ) :=
  let state := (m.get r.chatId).getD {}
  m.set r.chatId {
    sessions := state.sessions.set r.sessionNumber r.record
    nextSessionNumber :=
      if E.before state.nextSessionNumber r.next then r.next else state.nextSessionNumber }

/-- `load_store`. -/
def loadStore (text : List Char) : Except PyError (Dict κ (ChatRow F κ)) :=
  loadText (fun line => (attempt catchesTypes (E.loads line >>= sessionRecordFromDict)).andThen
    (storedRecord E)) (putRecord E) Dict.empty text

end Model

/-! ### Lines that are not skipped -/

section Fatal

variable {F κ π : Type} [DecidableEq κ] (E : Python F κ)

def IsObject : Value F → Prop
  | .obj _ => True
  | _ => False

/-- The line does not hold JSON, and the error is of a class that is not caught. -/
def UncaughtText (catches : PyError → Bool) (line : List Char) : Prop :=
  ∃ e, E.loads line = .error e ∧ catches e = false

/-- The line holds a value with this property. -/
def HoldsValue (P : Value F → Prop) (line : List Char) : Prop := ∃ v, E.loads line = .ok v ∧ P v

/-- The lines that `WakeQueue._load` fails at. -/
def FatalWakeLine (line : List Char) : Prop :=
  isBlank line = false ∧
    (UncaughtText E catchesTypes line ∨ HoldsValue E (fun v => ¬ IsObject v) line)

/-- The lines that `DispatchStore.load` fails at: besides, a dispatch whose id is no key. -/
def FatalDispatchLine (line : List Char) : Prop :=
  isBlank line = false ∧
    (UncaughtText E catchesValues line ∨ HoldsValue E (fun v => ¬ IsObject v) line ∨
      HoldsValue E (fun v => ∃ d, dispatchFromDict v = .ok d ∧ ¬ ∃ s, d.id = .scalar s) line)

/-- The dispatches that the sweep and the writing behind the loop fail at: a stamp that is no
number or fits no float, and a record that cannot be written. -/
structure Sweepable (dumps : DispatchRow F → Except PyError (List Char))
    (m : Dict κ (DispatchRow F)) : Prop where
  stamps : ∀ e ∈ terminalEntries m, isTruthy E (ageKey E e.2) = true →
    ∃ n, number? (ageKey E e.2) = some n ∧ (E.tooOld n).isSome = true
  written : ∀ m', evictTerminal E m = .ok m' → ∀ d ∈ m'.values, ∃ text, dumps d = .ok text

/-- The lines that `PlanManager._load` fails at. -/
def FatalPlanLine (modelValidate : Value F → Except PyError π) (line : List Char) : Prop :=
  isBlank line = false ∧
    (UncaughtText E catchesValues line ∨
      HoldsValue E (fun v => ∃ e, modelValidate v = .error e ∧ catchesValues e = false) line)

/-- The lines that `load_store` fails at: besides values that are no objects, a record whose
chat is no key or whose number is no number. -/
def FatalStoreLine (line : List Char) : Prop :=
  isBlank line = false ∧
    (UncaughtText E catchesTypes line ∨ HoldsValue E (fun v => ¬ IsObject v) line ∨
      HoldsValue E (fun v => ∃ r, sessionRecordFromDict v = .ok r ∧
        ((¬ ∃ s, r.field "chat_id" = .scalar s) ∨
          number? (r.field "session_number") = none)) line)

end Fatal

section Loading

variable {F κ : Type} {E : Python F κ} {ρ ρ' τ : Type}
variable {catches : PyError → Bool} {line : List Char}

section Loops

variable {outcome : List Char → Outcome PyError ρ} {Fatal : List Char → Prop}

/-- A loader whose loop reads a record where `reads` does. -/
theorem loadText_eq_iff
    {reads : List Char → Except PyError ρ}
    (hreads : ∀ line r, outcome line = .record r ↔ reads line = .ok r)
    (hfatal : ∀ line, (isBlank line = false ∧ ∃ e, outcome line = .failed e) ↔ Fatal line)
    (put : τ → ρ → τ) (t : τ) (text : List Char) :
    loadText outcome put t text = .ok ((recordsOf reads text).foldl put t) ↔
      ∀ line ∈ splitLines text, ¬ Fatal line := by
  unfold loadText recordsOf
  rw [loadLines_eq_iff]
  · refine forall₂_congr fun line _ => ?_
    rw [← hfatal]
    cases isBlank line <;> simp
  · intro line r
    unfold holds
    cases isBlank line with
    | true => simp
    | false =>
        rw [if_neg Bool.false_ne_true, if_neg Bool.false_ne_true, hreads]
        cases reads line <;> simp [Except.toOption]

theorem loadText_of_ok
    (hfatal : ∀ line, (isBlank line = false ∧ ∃ e, outcome line = .failed e) ↔ Fatal line)
    {put : τ → ρ → τ} {t t' : τ} {text : List Char} (h : loadText outcome put t text = .ok t') :
    ∀ line ∈ splitLines text, ¬ Fatal line := by
  intro line hline hfails
  obtain ⟨hblank, e, he⟩ := (hfatal line).mpr hfails
  refine loadLines_of_ok h line hline e ?_
  rw [if_neg (by simp [hblank]), he]

end Loops

theorem bind_eq_error_iff
    {x : Except PyError ρ} {f : ρ → Except PyError ρ'} {e : PyError} :
    (x >>= f) = .error e ↔ x = .error e ∨ ∃ v, x = .ok v ∧ f v = .error e := by
  cases x <;> simp [bind, Except.bind]

/-- A line that is not caught: its text, or what is made of its value. -/
theorem attempt_loads_failed_iff
    (build : Value F → Except PyError ρ) :
    (∃ e, attempt catches (E.loads line >>= build) = .failed e) ↔
      UncaughtText E catches line ∨
        HoldsValue E (fun v => ∃ e, build v = .error e ∧ catches e = false) line := by
  rw [attempt_failed_iff]
  constructor
  · rintro ⟨e, he, hcaught⟩
    rcases bind_eq_error_iff.mp he with htext | ⟨v, hv, hbuild⟩
    · exact Or.inl ⟨e, htext, hcaught⟩
    · exact Or.inr ⟨v, hv, e, hbuild, hcaught⟩
  · rintro (⟨e, htext, hcaught⟩ | ⟨v, hv, e, hbuild, hcaught⟩)
    · exact ⟨e, bind_eq_error_iff.mpr (Or.inl htext), hcaught⟩
    · exact ⟨e, bind_eq_error_iff.mpr (Or.inr ⟨v, hv, hbuild⟩), hcaught⟩

/-! ### What the constructors fail with -/

theorem mapM_eq_error
    {f : ρ → Except PyError ρ'} {l : List ρ} {e : PyError}
    (h : l.mapM f = .error e) :
    ∃ x ∈ l, f x = .error e := by
  induction l with
  | nil => cases h
  | cons x l ih =>
      rw [List.mapM_cons] at h
      rcases bind_eq_error_iff.mp h with hx | ⟨y, _, hrest⟩
      · exact ⟨x, List.mem_cons_self, hx⟩
      · rcases bind_eq_error_iff.mp hrest with hl | ⟨ys, _, hpure⟩
        · obtain ⟨z, hz, hfz⟩ := ih hl
          exact ⟨z, List.mem_cons_of_mem x hz, hfz⟩
        · cases hpure

/-- A dataclass of an object fails with a `TypeError`, and of anything else with another. -/
theorem fromItems_uncaught_iff
    (fields : List (DataField F)) (v : Value F) :
    (∃ e, fromItems fields v = .error e ∧ catchesTypes e = false) ↔ ¬ IsObject v := by
  cases v with
  | obj ms =>
      refine iff_of_false ?_ fun h => h trivial
      rintro ⟨e, he, hcaught⟩
      obtain ⟨f, _, hf⟩ := mapM_eq_error he
      split at hf
      · cases hf
      · cases hf
      · obtain rfl := Except.error.inj hf
        cases hcaught
  | _ => exact iff_of_true ⟨.attributeError, rfl, rfl⟩ id

theorem dispatchStatus_error
    {v : Value F} {e : PyError} (h : dispatchStatus v = .error e) :
    e = .valueError := by
  unfold dispatchStatus at h
  split at h <;> cases h
  rfl

theorem subscript_error
    {ms : List (List Char × Value F)} {key : String} {e : PyError}
    (h : subscript (.obj ms) key = .error e) :
    e = .keyError := by
  unfold subscript at h
  dsimp only at h
  split at h <;> cases h
  rfl

/-- A dispatch of an object fails with errors that are caught. -/
theorem dispatchFromDict_uncaught_iff
    (v : Value F) :
    (∃ e, dispatchFromDict v = .error e ∧ catchesValues e = false) ↔ ¬ IsObject v := by
  cases v with
  | obj ms =>
      refine iff_of_false ?_ fun h => h trivial
      rintro ⟨e, he, hcaught⟩
      have herror : e = .keyError ∨ e = .valueError := by
        unfold dispatchFromDict at he
        rcases bind_eq_error_iff.mp he with h | ⟨_, _, he⟩
        · exact Or.inl (subscript_error h)
        rcases bind_eq_error_iff.mp he with h | ⟨_, _, he⟩
        · exact Or.inl (subscript_error h)
        rcases bind_eq_error_iff.mp he with h | ⟨_, _, he⟩
        · exact Or.inl (subscript_error h)
        rcases bind_eq_error_iff.mp he with h | ⟨_, _, he⟩
        · exact Or.inl (subscript_error h)
        rcases bind_eq_error_iff.mp he with h | ⟨_, _, he⟩
        · exact Or.inr (dispatchStatus_error h)
        · cases he
      rcases herror with rfl | rfl <;> cases hcaught
  | _ => exact iff_of_true ⟨.typeError, rfl, rfl⟩ id

theorem map_eq_error_iff
    {x : Except PyError ρ} {f : ρ → ρ'} {e : PyError} :
    x.map f = .error e ↔ x = .error e := by
  cases x <;> simp [Except.map]

theorem hashKey_error
    {v : Value F} {e : PyError} (h : hashKey E v = .error e) :
    e = .typeError := by
  cases v <;> cases h <;> rfl

theorem hashKey_error_iff
    (v : Value F) :
    (∃ e, hashKey E v = .error e) ↔ ¬ ∃ s, v = .scalar s := by
  cases v <;> simp [hashKey]

theorem plusOne_error_iff
    (v : Value F) :
    (∃ e, plusOne E v = .error e) ↔ number? v = none := by
  cases v with
  | scalar s => cases s <;> simp [plusOne, number?]
  | _ => simp [plusOne, number?]

theorem keyedDispatch_error_iff
    (d : DispatchRow F) :
    (∃ e, keyedDispatch E d = .error e) ↔ ¬ ∃ s, d.id = .scalar s := by
  rw [← @hashKey_error_iff _ _ E]
  exact exists_congr fun e => map_eq_error_iff

theorem storedRecord_error_iff
    (r : Row F) :
    (∃ e, storedRecord E r = .error e) ↔
      (¬ ∃ s, r.field "chat_id" = .scalar s) ∨ number? (r.field "session_number") = none := by
  have hnext := @plusOne_error_iff _ _ E (r.field "session_number")
  unfold storedRecord
  generalize r.field "chat_id" = chatId at *
  generalize r.field "session_number" = sessionNumber at *
  cases chatId with
  | scalar c =>
      rw [← hnext]
      cases sessionNumber with
      | scalar n => simp [hashKey, bind_eq_error_iff]
      | _ => simp [hashKey, plusOne, bind_eq_error_iff]
  | _ => simp [hashKey, bind_eq_error_iff]

theorem ok_bind_iff
    {x : Except PyError ρ} {f : ρ → Except PyError ρ'} {r : ρ'} :
    (x >>= f) = .ok r ↔ ∃ v, x = .ok v ∧ f v = .ok r := by
  cases x <;> simp [bind, Except.bind]

/-- An id that is no key is caught. -/
theorem keyedWakeEvent_uncaught_iff
    (v : Value F) :
    (∃ e, keyedWakeEvent E v = .error e ∧ catchesTypes e = false) ↔ ¬ IsObject v := by
  rw [← fromItems_uncaught_iff (wakeEventFields E)]
  refine exists_congr fun e => and_congr_left fun hcaught => ?_
  rw [keyedWakeEvent, bind_eq_error_iff]
  refine or_iff_left ?_
  rintro ⟨event, _, hkey⟩
  rw [hashKey_error (map_eq_error_iff.mp hkey)] at hcaught
  cases hcaught

theorem wakeLine_failed_iff
    (line : List Char) :
    (isBlank line = false ∧
        ∃ e, attempt catchesTypes (readWakeEvent E line) = .failed e) ↔
      FatalWakeLine E line := by
  refine and_congr_right fun _ => ?_
  rw [readWakeEvent, attempt_loads_failed_iff]
  simp only [keyedWakeEvent_uncaught_iff]

/-- A loader that puts a record into its table behind the `try`. -/
theorem behindTry_failed_iff
    (build : Value F → Except PyError ρ) (store : ρ → Except PyError ρ') :
    (∃ e, ((attempt catches (E.loads line >>= build)).andThen store) = .failed e) ↔
      UncaughtText E catches line ∨
        HoldsValue E (fun v => ∃ e, build v = .error e ∧ catches e = false) line ∨
          HoldsValue E (fun v => ∃ r, build v = .ok r ∧ ∃ e, store r = .error e) line := by
  rw [andThen_failed_iff, attempt_loads_failed_iff, or_assoc]
  refine or_congr_right (or_congr_right ?_)
  constructor
  · rintro ⟨r, e, hrecord, hstore⟩
    obtain ⟨v, hv, hbuild⟩ := ok_bind_iff.mp (attempt_eq_record_iff.mp hrecord)
    exact ⟨v, hv, r, hbuild, e, hstore⟩
  · rintro ⟨v, hv, r, hbuild, e, hstore⟩
    exact ⟨r, e, attempt_eq_record_iff.mpr (ok_bind_iff.mpr ⟨v, hv, hbuild⟩), hstore⟩

theorem behindTry_record_iff
    (build : Value F → Except PyError ρ) (store : ρ → Except PyError ρ') (r : ρ') :
    ((attempt catches (E.loads line >>= build)).andThen store) = .record r ↔
      (E.loads line >>= build >>= store) = .ok r := by
  rw [andThen_eq_record_iff, ok_bind_iff]
  exact exists_congr fun r => and_congr_left fun _ => attempt_eq_record_iff

theorem dispatchLine_failed_iff
    (line : List Char) :
    (isBlank line = false ∧ ∃ e, ((attempt catchesValues
        (E.loads line >>= dispatchFromDict)).andThen (keyedDispatch E)) = .failed e) ↔
      FatalDispatchLine E line := by
  refine and_congr_right fun _ => ?_
  rw [behindTry_failed_iff]
  simp only [dispatchFromDict_uncaught_iff, keyedDispatch_error_iff]

theorem planLine_failed_iff
    {π : Type} (modelValidate : Value F → Except PyError π) (planId : π → String)
    (line : List Char) :
    (isBlank line = false ∧
        ∃ e, attempt catchesValues (readPlan E modelValidate planId line) = .failed e) ↔
      FatalPlanLine E modelValidate line := by
  refine and_congr_right fun _ => ?_
  rw [readPlan, attempt_loads_failed_iff]
  simp only [map_eq_error_iff]

theorem storeLine_failed_iff
    (line : List Char) :
    (isBlank line = false ∧ ∃ e, ((attempt catchesTypes
        (E.loads line >>= sessionRecordFromDict)).andThen (storedRecord E)) = .failed e) ↔
      FatalStoreLine E line := by
  refine and_congr_right fun _ => ?_
  rw [behindTry_failed_iff]
  simp only [sessionRecordFromDict, fromItems_uncaught_iff, storedRecord_error_iff]

/-! ### The sweep behind the loop -/

theorem foldlM_isOk_iff
    {f : τ → ρ → Except PyError τ} {P : ρ → Prop}
    (hf : ∀ t x, (∃ t', f t x = .ok t') ↔ P x) (t : τ) (l : List ρ) :
    (∃ t', l.foldlM f t = .ok t') ↔ ∀ x ∈ l, P x := by
  induction l generalizing t with
  | nil => simp [pure, Except.pure]
  | cons x l ih =>
      rw [List.foldlM_cons, List.forall_mem_cons, ← hf t x]
      constructor
      · rintro ⟨t', h⟩
        obtain ⟨u, hu, hrest⟩ := ok_bind_iff.mp h
        exact ⟨⟨u, hu⟩, (ih u).mp ⟨t', hrest⟩⟩
      · rintro ⟨⟨u, hu⟩, hl⟩
        obtain ⟨t', hrest⟩ := (ih u).mpr hl
        exact ⟨t', ok_bind_iff.mpr ⟨u, hu, hrest⟩⟩

theorem mapM_isOk_iff
    (f : ρ → Except PyError ρ') (l : List ρ) :
    (∃ l', l.mapM f = .ok l') ↔ ∀ x ∈ l, ∃ y, f x = .ok y := by
  induction l with
  | nil => simp [pure, Except.pure]
  | cons x l ih =>
      rw [List.mapM_cons, List.forall_mem_cons, ← ih]
      constructor
      · rintro ⟨l', h⟩
        obtain ⟨y, hy, hrest⟩ := ok_bind_iff.mp h
        obtain ⟨ys, hys, _⟩ := ok_bind_iff.mp hrest
        exact ⟨⟨y, hy⟩, ys, hys⟩
      · rintro ⟨⟨y, hy⟩, ys, hys⟩
        exact ⟨y :: ys, ok_bind_iff.mpr ⟨y, hy, ok_bind_iff.mpr ⟨ys, hys, rfl⟩⟩⟩

theorem expired_isOk_iff
    (stamp : Value F) :
    (∃ b, expired E stamp = .ok b) ↔ ∃ n, number? stamp = some n ∧ (E.tooOld n).isSome = true := by
  unfold expired
  cases number? stamp with
  | none => simp
  | some n => cases htoo : E.tooOld n <;> simp [htoo]

variable [DecidableEq κ]

theorem evictTerminal_isOk_iff
    (m : Dict κ (DispatchRow F)) :
    (∃ m', evictTerminal E m = .ok m') ↔
      ∀ e ∈ terminalEntries m, isTruthy E (ageKey E e.2) = true →
        ∃ n, number? (ageKey E e.2) = some n ∧ (E.tooOld n).isSome = true := by
  have hstep : ∀ (m : Dict κ (DispatchRow F)) (e : κ × DispatchRow F),
      (∃ m', evictExpired E m e = .ok m') ↔ (isTruthy E (ageKey E e.2) = true →
        ∃ n, number? (ageKey E e.2) = some n ∧ (E.tooOld n).isSome = true) := by
    intro m e
    rw [← expired_isOk_iff]
    unfold evictExpired
    cases isTruthy E (ageKey E e.2) with
    | false => simp
    | true => cases expired E (ageKey E e.2) <;> simp [Except.map]
  rw [← foldlM_isOk_iff hstep m, evictTerminal]
  cases (terminalEntries m).foldlM (evictExpired E) m <;> simp [Except.map]

theorem saveDispatches_isOk_iff
    (dumps : DispatchRow F → Except PyError (List Char)) (m : Dict κ (DispatchRow F)) :
    (∃ stored, saveDispatches E dumps m = .ok stored) ↔ Sweepable E dumps m := by
  unfold saveDispatches
  constructor
  · rintro ⟨stored, h⟩
    obtain ⟨m', hevict, hrest⟩ := ok_bind_iff.mp h
    obtain ⟨lines, hlines, _⟩ := ok_bind_iff.mp hrest
    refine ⟨(evictTerminal_isOk_iff m).mp ⟨m', hevict⟩, fun m'' hevict' => ?_⟩
    obtain rfl := Except.ok.inj (hevict.symm.trans hevict')
    exact (mapM_isOk_iff dumps m'.values).mp ⟨lines, hlines⟩
  · intro hsweep
    obtain ⟨m', hevict⟩ := (evictTerminal_isOk_iff m).mpr hsweep.stamps
    obtain ⟨lines, hlines⟩ := (mapM_isOk_iff dumps m'.values).mpr (hsweep.written m' hevict)
    exact ⟨_, ok_bind_iff.mpr ⟨m', hevict, ok_bind_iff.mpr ⟨lines, hlines, rfl⟩⟩⟩

/-- **Corrupt lines are skipped.**  Each loader loads a file, and then as if its malformed
lines were not there, exactly when no line is fatal to it; the dispatches also have to pass the
sweep. -/
theorem corrupt_lines_skipped_iff
    (E : Python F κ) (dumps : DispatchRow F → Except PyError (List Char)) {π : Type}
    (modelValidate : Value F → Except PyError π) (planId : π → String) (text : List Char) :
    (loadWakeQueue E text = .ok (tableOf (recordsOf (readWakeEvent E) text)) ↔
      ∀ line ∈ splitLines text, ¬ FatalWakeLine E line) ∧
    ((∃ stored, loadDispatches E dumps text = .ok stored ∧
        saveDispatches E dumps (tableOf (recordsOf (readDispatch E) text)) = .ok stored) ↔
      (∀ line ∈ splitLines text, ¬ FatalDispatchLine E line) ∧
        Sweepable E dumps (tableOf (recordsOf (readDispatch E) text))) ∧
    (loadPlans E modelValidate planId text =
        .ok (tableOf (recordsOf (readPlan E modelValidate planId) text)) ↔
      ∀ line ∈ splitLines text, ¬ FatalPlanLine E modelValidate line) ∧
    (loadStore E text = .ok ((recordsOf (readStored E) text).foldl (putRecord E) Dict.empty) ↔
      ∀ line ∈ splitLines text, ¬ FatalStoreLine E line) := by
  have hdispatches := loadText_eq_iff (fun line => behindTry_record_iff dispatchFromDict
    (keyedDispatch E)) (dispatchLine_failed_iff (E := E)) setEntry Dict.empty text
  refine ⟨?_, ?_, ?_, ?_⟩
  · exact loadText_eq_iff (fun _ _ => attempt_eq_record_iff) wakeLine_failed_iff _ _ text
  · rw [← saveDispatches_isOk_iff]
    constructor
    · rintro ⟨stored, hload, hsave⟩
      obtain ⟨m, hread, _⟩ := ok_bind_iff.mp hload
      exact ⟨loadText_of_ok dispatchLine_failed_iff hread, stored, hsave⟩
    · rintro ⟨hlines, stored, hsave⟩
      exact ⟨stored, ok_bind_iff.mpr ⟨_, hdispatches.mpr hlines, hsave⟩, hsave⟩
  · exact loadText_eq_iff (fun _ _ => attempt_eq_record_iff)
      (planLine_failed_iff modelValidate planId) _ _ text
  · exact loadText_eq_iff (fun _ => behindTry_record_iff _ _) storeLine_failed_iff _ _ text

/-- Of the events with one id the last one is loaded. -/
theorem last_event_wins
    {text : List Char} {m : Dict κ (Row F)} (h : loadWakeQueue E text = .ok m) (k : κ) :
    m.get k = ((recordsOf (readWakeEvent E) text).reverse.find? fun e => e.1 = k).map
      Prod.snd := by
  have hall : loadWakeQueue E text = .ok (tableOf (recordsOf (readWakeEvent E) text)) :=
    (loadText_eq_iff (fun _ _ => attempt_eq_record_iff) wakeLine_failed_iff _ _ text).mpr
      (loadText_of_ok wakeLine_failed_iff h)
  obtain rfl := Except.ok.inj (h.symm.trans hall)
  exact get_tableOf _ k

end Loading

/-! ### A line that holds `null` -/

section Null

/-- The number of a value, of floats that are whole. -/
def wholeNumber : Scalar Int → Option Int
  | .bool b => some (if b then 1 else 0)
  | .int n => some n
  | .float n => some n
  | _ => none

/-- Whole floats, at the time 1700000000. -/
def wholePython : Python Int (Option Int × List Char) where
  loads line :=
    match JsonText.loads Cron.wholeSeconds line with
    | some v => .ok v
    | none => .error .jsonDecodeError
  keyOf
    | .str s => (none, '"' :: s)
    | v => (wholeNumber v, [])
  zero := 0
  isZero n := n = 0
  addOne n := n + 1
  before x y :=
    match wholeNumber x, wholeNumber y with
    | some m, some n => m < n
    | _, _ => false
  tooOld v := (wholeNumber v).map fun n => terminalRetentionSeconds < 1700000000 - n

theorem null_line_fatal :
    ¬ loadWakeQueue wholePython "null".toList =
        .ok (tableOf (recordsOf (readWakeEvent wholePython) "null".toList)) ∧
      ¬ (∃ stored, loadDispatches wholePython (fun _ => .ok []) "null".toList = .ok stored) ∧
      ¬ loadStore wholePython "null".toList =
        .ok ((recordsOf (readStored wholePython) "null".toList).foldl (putRecord wholePython)
          Dict.empty) := by
  have hwake : loadWakeQueue wholePython "null".toList = .error .attributeError := rfl
  have hdispatches : loadDispatches wholePython (fun _ => .ok []) "null".toList =
      .error .typeError := rfl
  have hstore : loadStore wholePython "null".toList = .error .attributeError := rfl
  rw [hwake, hdispatches, hstore]
  exact ⟨fun h => (by cases h), fun ⟨_, h⟩ => (by cases h), fun h => (by cases h)⟩

end Null

end Loaders
end DiploidAgent
