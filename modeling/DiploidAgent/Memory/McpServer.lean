import DiploidAgent.Acp.LifecycleLog
import DiploidAgent.Lib.Asking
import DiploidAgent.Lib.Dict
import DiploidAgent.Lib.JsonLayout

/-!
# The memory server on stdin and stdout

`StdioMcpServer` and `MemoryMcpServer`: one message a line, one line for its answer, and one
request to the harness for a call of a memory tool.

What is written are the answers to the messages read, each under the id of its request, with
what the harness said about this very request (`requests_served`).  The loop outlives every
line that is no JSON, and ends before the input only at a request that is malformed or where
the harness gives no object.
-/

namespace DiploidAgent
namespace McpServer

open JsonText Asking
open Acp.LifecycleLog (fileLines fileLines_append)
open Recall (universalNewlines universalNewlines_eq_self)
open Text (isSpace lstrip rstrip strip intOf)


variable {F : Type}

section Model

/-! ### Values -/

/-- What Python makes of floats and of what is no scalar: whether a float is zero, `int` of one
and `str` of an array or an object. -/
structure Python (F : Type) where
  zero : F → Bool
  trunc : F → Option Int
  repr : Value F → List Char

variable (N : FloatText F) (P : Python F)

mutual

/-- A loaded value: an object is a `dict`, which holds one value for a key. -/
def asDict : Value F → Value F
  | .scalar v => .scalar v
  | .arr vs => .arr (asDictItems vs)
  | .obj ms => .obj (asDictMembers [] ms)

def asDictItems : List (Value F) → List (Value F)
  | [] => []
  | v :: vs => asDict v :: asDictItems vs

def asDictMembers (d : List (List Char × Value F)) :
    List (List Char × Value F) → List (List Char × Value F)
  | [] => d
  | (k, v) :: ms => asDictMembers (putEntry k (asDict v) d) ms

end

/-- The members of a `dict`; `.get` raises on anything else. -/
def members : Value F → Option (List (List Char × Value F))
  | .obj ms => some ms
  | _ => none

def null : Value F := .scalar .null

/-- `==` with a text. -/
def isText (s : String) : Value F → Bool
  | .scalar (.str t) => t == s.toList
  | _ => false

def truthy : Value F → Bool
  | .scalar .null => false
  | .scalar (.bool b) => b
  | .scalar (.int n) => n != 0
  | .scalar (.float x) => !P.zero x
  | .scalar (.str s) => !s.isEmpty
  | .arr vs => !vs.isEmpty
  | .obj ms => !ms.isEmpty

/-- `request.get(key) or {}`. -/
def orEmpty (v : Option (Value F)) : Value F :=
  match v with
  | some v => if truthy P v then v else .obj []
  | none => .obj []

/-- `int`. -/
def toInt : Value F → Option Int
  | .scalar (.bool b) => some (if b then 1 else 0)
  | .scalar (.int n) => some n
  | .scalar (.float x) => P.trunc x
  | .scalar (.str s) => intOf s
  | _ => none

/-- `str`. -/
def display : Value F → List Char
  | .scalar .null => "None".toList
  | .scalar (.bool b) => if b then "True".toList else "False".toList
  | .scalar (.int n) => writeInt n
  | .scalar (.float x) => N.write x
  | .scalar (.str s) => s
  | v => P.repr v

/-- `in`, for a text on its left. -/
def contains (s : String) : Value F → Option Bool
  | .scalar (.str t) => some (decide (s.toList <:+: t))
  | .arr vs => some (vs.any (isText s))
  | .obj ms => some (ms.any fun m => m.1 == s.toList)
  | _ => none

/-! ### The harness -/

/-- A request to the harness. -/
inductive Call (F : Type) where
  | get (path : List Char)
  | post (path : List Char) (json : Value F)

/-- What comes back: the JSON of the response, or the text of the exception. -/
inductive Answer (F : Type) where
  | body (v : Value F)
  | failed (text : List Char)

/-- The value of `_request`. -/
def Answer.value : Answer F → Value F
  | .body v => v
  | .failed text => .obj [("error".toList, .scalar (.str text))]

/-- `_request`; `harness n` is the answer to the request after `n` others. -/
def request (harness : Nat → Answer F) (call : Call F) : Action (Call F) (Value F) := do
  let answer ← ask harness call
  pure answer.value

/-! ### Messages -/

def reply (reqId : Value F) (key : String) (v : Value F) : Value F :=
  .obj [("jsonrpc".toList, .text "2.0"), ("id".toList, reqId), (key.toList, v)]

def errorResponse (reqId : Value F) (message : List Char) : Value F :=
  reply reqId "error"
    (.obj [("code".toList, .scalar (.int (-32602))), ("message".toList, .scalar (.str message))])

def toolResult (reqId text : Value F) (isError : Bool) : Value F :=
  reply reqId "result"
    (.obj [("content".toList, .arr [.obj [("type".toList, .text "text"), ("text".toList, text)]]),
      ("isError".toList, .scalar (.bool isError))])

def DEFAULT_PROTOCOL_VERSION : String := "2024-11-05"

/-- A server: what it says of itself, its tools, and what it does with the name, the arguments
and the id of a `tools/call`. -/
structure Server (F : Type) where
  name : String
  version : String
  tools : List (Value F)
  callTool : Value F → Value F → Value F → Action (Call F) (Value F)

/-- The answer to `initialize`. -/
def greeting (S : Server F) (reqId protocol : Value F) : Value F :=
  reply reqId "result"
    (.obj [("protocolVersion".toList, protocol),
      ("capabilities".toList, .obj [("tools".toList, .obj [])]),
      ("serverInfo".toList,
        .obj [("name".toList, .text S.name), ("version".toList, .text S.version)])])

/-- `_handle`. -/
def handle (S : Server F) (req : Value F) : Action (Call F) (Option (Value F)) := do
  let ms ← orRaise (members req)
  let method := (member ms "method").getD null
  let reqId := (member ms "id").getD null
  let params := orEmpty P (member ms "params")
  if isText "initialize" method then do
    let ps ← orRaise (members params)
    let protocol := (member ps "protocolVersion").getD (.text DEFAULT_PROTOCOL_VERSION)
    pure (some (greeting S reqId protocol))
  else if isText "notifications/initialized" method then pure none
  else if isText "ping" method then pure (some (reply reqId "result" (.obj [])))
  else if isText "tools/list" method then
    pure (some (reply reqId "result" (.obj [("tools".toList, .arr S.tools)])))
  else if isText "tools/call" method then do
    let ps ← orRaise (members params)
    let name := (member ps "name").getD null
    let arguments := orEmpty P (member ps "arguments")
    let response ← S.callTool name arguments reqId
    pure (some response)
  else pure (some (errorResponse reqId ("Unknown method: ".toList ++ display N P method)))

/-! ### The base class -/

/-- `StdioMcpServer` as it stands, without a subclass. -/
def stdioMcpServer (name : String) (version : String) : Server F where
  name := name
  version := version
  tools := []
  callTool := fun name _ reqId =>
    pure (errorResponse reqId
      ("Tool ".toList ++ display N P name ++ " not implemented".toList))

/-! ### The memory server -/

/-- The properties of a tool's input. -/
def inputSchema (properties : List (String × Value F)) (required : List String) : Value F :=
  .obj ([("type".toList, .text "object"),
    ("properties".toList, .obj (properties.map fun p => (p.1.toList, p.2)))] ++
    if required = [] then [] else [("required".toList, .arr (required.map .text))])

def tool (name description : String) (schema : Value F) : Value F :=
  .obj [("name".toList, .text name), ("description".toList, .text description),
    ("inputSchema".toList, schema)]

def ofType (type : String) : Value F := .obj [("type".toList, .text type)]

def textArray : Value F :=
  .obj [("type".toList, .text "array"), ("items".toList, ofType "string")]

/-- `MEMORY_KINDS`, sorted. -/
def MEMORY_KINDS : List String :=
  ["agreement", "decision", "fact", "plan", "preference", "project", "state", "watchpoint"]

def kindSchema : Value F :=
  .obj [("type".toList, .text "string"), ("enum".toList, .arr (MEMORY_KINDS.map .text)),
    ("description".toList, .text "Typed route: restrict recall to a canonical memory class.")]

/-- `_tools`. -/
def memoryTools : List (Value F) :=
  [tool "memory_recall" "Recall memories matching a query and optional tags."
      (inputSchema [("query", ofType "string"), ("tags", textArray), ("kind", kindSchema),
        ("max_tokens", ofType "integer")] ["query"]),
    tool "memory_retain" "Retain a new observation with optional tags."
      (inputSchema [("content", ofType "string"), ("tags", textArray),
        ("context", ofType "string")] ["content"]),
    tool "memory_promote" "Promote a fact to the persona memory."
      (inputSchema [("fact", ofType "string")] ["fact"]),
    tool "memory_status" "Return memory backend status." (inputSchema [] [])]

/-- The argument of a key as a member of the body, when it is given. -/
def given (key : String) (v : Option (Value F)) : List (List Char × Value F) :=
  (v.map fun v => (key.toList, v)).toList

variable (harness : Nat → Answer F) (chatId : List Char)

/-- The end of a tool that posts: the `reply` of the harness, or all that it said. -/
def post (path : String) (body : List (List Char × Value F)) (reqId : Value F) :
    Action (Call F) (Value F) := do
  let result ← request harness (.post path.toList (.obj body))
  let rs ← orRaise (members result)
  let said := (member rs "reply").getD null
  let text := if truthy P said then said else .scalar (.str (dumps false N result))
  let isError ← orRaise (contains "error" result)
  pure (toolResult reqId text isError)

/-- `_call_tool`. -/
def callTool (name arguments reqId : Value F) : Action (Call F) (Value F) :=
  let chat := ("chat_id".toList, .scalar (.str chatId))
  if isText "memory_recall" name then do
    let args ← orRaise (members arguments)
    let budget ← orRaise (match member args "max_tokens" with
      | some v => (toInt P v).map fun n => given "max_tokens" (some (.scalar (.int n)))
      | none => some [])
    post N P harness "/recall"
      ([chat, ("query".toList, (member args "query").getD (.text "")),
        ("tags".toList, (member args "tags").getD (.arr []))] ++
        (given "kind" (member args "kind") ++ budget)) reqId
  else if isText "memory_retain" name then do
    let args ← orRaise (members arguments)
    post N P harness "/retain"
      ([chat, ("content".toList, (member args "content").getD (.text "")),
        ("tags".toList, (member args "tags").getD (.arr []))] ++
        given "context" (member args "context")) reqId
  else if isText "memory_promote" name then do
    let args ← orRaise (members arguments)
    post N P harness "/promote"
      [chat, ("message".toList, (member args "fact").getD (.text ""))] reqId
  else if isText "memory_status" name then do
    let result ← request harness (.get ("/status/".toList ++ chatId))
    let isError ← orRaise (contains "error" result)
    pure (toolResult reqId (.scalar (.str (dumpsIndent false N 0 result))) isError)
  else pure (errorResponse reqId ("Unknown tool: ".toList ++ display N P name))

/-- `MemoryMcpServer`. -/
def memoryMcpServer : Server F where
  name := "diploid-memory"
  version := "0.1.0"
  tools := memoryTools
  callTool := fun name arguments reqId =>
    if ["memory_recall", "memory_retain", "memory_promote", "memory_status"].any
        fun s => isText s name then
      callTool N P harness chatId name arguments reqId
    else pure (errorResponse reqId ("Unknown tool: ".toList ++ display N P name))

/-! ### The loop -/

/-- `_write`. -/
def line (message : Value F) : List Char := dumps false N message ++ ['\n']

/-- What one line has the server write, if anything; `describe` is the text of a decoding
error. -/
def serve (describe : List Char → List Char) (S : Server F) (text : List Char) :
    Action (Call F) (Option (Value F)) :=
  let text := strip text
  if text = [] then pure none
  else
    match (loads N text).map asDict with
    | none => pure (some (errorResponse null ("Invalid JSON: ".toList ++ describe text)))
    | some (.arr requests) => do
        let response ← each (handle N P S) requests
        let response := response.filterMap id
        pure (if response.isEmpty then none else some (.arr response))
    | some request => handle N P S request

/-- What the server has written, what it has asked, and whether it has read all its input. -/
structure Session (F : Type) where
  written : List Char := []
  calls : List (Call F) := []
  atEnd : Bool := true

/-- `run`, over the lines that `readline` gives. -/
def run (describe : List Char → List Char) (S : Server F) :
    Session F → List (List Char) → Session F
  | s, [] => s
  | s, text :: rest =>
      match serve N P describe S text s.calls with
      | (some message, calls) =>
          run describe S
            { s with written := s.written ++ (message.map (line N)).getD [], calls := calls } rest
      | (none, calls) => { s with calls := calls, atEnd := false }

/-- `run` on an input. -/
def session (describe : List Char → List Char) (S : Server F) (input : List Char) : Session F :=
  run N P describe S {} (fileLines (universalNewlines input))

end Model

/-! ### What a request is answered -/

section Requests

variable (N : FloatText F) (P : Python F) (chatId : List Char)

def methodOf (ms : List (List Char × Value F)) : Value F := (member ms "method").getD null

def idOf (ms : List (List Char × Value F)) : Value F := (member ms "id").getD null

/-- A text of the arguments; without it, the empty one. -/
def textOf (args : List (List Char × Value F)) (key : String) : Value F :=
  (member args key).getD (.text "")

/-- The request to the harness that a call of a memory tool makes. -/
inductive Asks (name arguments : Value F) : Call F → Prop
  | recall {args rest : List (List Char × Value F)}
      (hname : isText "memory_recall" name = true) (hargs : arguments = .obj args) :
      Asks name arguments (.post "/recall".toList
        (.obj (("chat_id".toList, .scalar (.str chatId)) ::
          ("query".toList, textOf args "query") :: rest)))
  | retain {args rest : List (List Char × Value F)}
      (hname : isText "memory_retain" name = true) (hargs : arguments = .obj args) :
      Asks name arguments (.post "/retain".toList
        (.obj (("chat_id".toList, .scalar (.str chatId)) ::
          ("content".toList, textOf args "content") :: rest)))
  | promote {args : List (List Char × Value F)}
      (hname : isText "memory_promote" name = true) (hargs : arguments = .obj args) :
      Asks name arguments (.post "/promote".toList
        (.obj [("chat_id".toList, .scalar (.str chatId)),
          ("message".toList, textOf args "fact")]))
  | status (hname : isText "memory_status" name = true) :
      Asks name arguments (.get ("/status/".toList ++ chatId))

/-- The text of a tool's result says what the harness said: it is the `reply`, or it reads as all
of the answer. -/
def Tells (answer text : Value F) : Prop :=
  (∃ rs, answer = .obj rs ∧ member rs "reply" = some text ∧ truthy P text = true) ∨
    ∃ t, text = .scalar (.str t) ∧ loads N t = some answer

def isMemoryTool (name : Value F) : Bool :=
  ["memory_recall", "memory_retain", "memory_promote", "memory_status"].any fun s => isText s name

/-- A request, its response, and what the harness was asked for it and answered. -/
inductive Answered : Value F → Option (Value F) → List (Call F × Answer F) → Prop
  | silent {ms : List (List Char × Value F)}
      (hmethod : isText "notifications/initialized" (methodOf ms) = true) :
      Answered (.obj ms) none []
  | result {ms : List (List Char × Value F)} {v : Value F}
      (hmethod : ["initialize", "ping", "tools/list"].any
        (fun s => isText s (methodOf ms)) = true) :
      Answered (.obj ms) (some (reply (idOf ms) "result" v)) []
  | unknownMethod {ms : List (List Char × Value F)} {message : List Char}
      (hmethod : ["initialize", "notifications/initialized", "ping", "tools/list",
        "tools/call"].any (fun s => isText s (methodOf ms)) = false) :
      Answered (.obj ms) (some (errorResponse (idOf ms) message)) []
  | unknownTool {ms ps : List (List Char × Value F)} {message : List Char}
      (hmethod : isText "tools/call" (methodOf ms) = true)
      (hparams : orEmpty P (member ms "params") = .obj ps)
      (hname : isMemoryTool ((member ps "name").getD null) = false) :
      Answered (.obj ms) (some (errorResponse (idOf ms) message)) []
  | told {ms ps : List (List Char × Value F)} {call : Call F} {answer : Answer F}
      {text : Value F} {isError : Bool}
      (hmethod : isText "tools/call" (methodOf ms) = true)
      (hparams : orEmpty P (member ms "params") = .obj ps)
      (hasks : Asks chatId ((member ps "name").getD null) (orEmpty P (member ps "arguments")) call)
      (htells : Tells N P answer.value text)
      (herror : contains "error" answer.value = some isError) :
      Answered (.obj ms) (some (toolResult (idOf ms) text isError)) [(call, answer)]

/-- The arguments of a memory tool that make it raise. -/
def badArguments (name arguments : Value F) : Bool :=
  if isText "memory_status" name then false
  else
    match members arguments with
    | none => true
    | some args =>
        isText "memory_recall" name &&
          ((member args "max_tokens").map (toInt P)).any Option.isNone

/-- The requests that make the server raise. -/
def malformed : Value F → Bool
  | .obj ms =>
      if isText "initialize" (methodOf ms) then
        (members (orEmpty P (member ms "params"))).isNone
      else if isText "tools/call" (methodOf ms) then
        match members (orEmpty P (member ms "params")) with
        | none => true
        | some ps =>
            isMemoryTool ((member ps "name").getD null) &&
              badArguments P ((member ps "name").getD null) (orEmpty P (member ps "arguments"))
      else false
  | _ => true

/-- A response tells what the harness answered to the one request of a tool call. -/
def Told (N : FloatText F) (P : Python F) (asks : Call F → Prop) (reqId response : Value F)
    (log : List (Call F × Answer F)) : Prop :=
  ∃ call answer text isError, log = [(call, answer)] ∧
    response = toolResult reqId text isError ∧ asks call ∧
      Tells N P answer.value text ∧ contains "error" answer.value = some isError

/-- An answer of the harness so far is no object. -/
def NoObject (harness : Nat → Answer F) (calls : List (Call F)) : Prop :=
  ∃ n < calls.length, members (harness n).value = none

end Requests

section Handling

variable {N : FloatText F} {P : Python F} {harness : Nat → Answer F} {chatId : List Char}

theorem eq_of_members
    {v : Value F} {ms : List (List Char × Value F)} (h : members v = some ms) :
    v = .obj ms := by
  cases v with
  | obj ms' => exact congrArg Value.obj (Option.some.inj h)
  | scalar v => cases h
  | arr vs => cases h

/-- A value is one text only. -/
theorem isText_of_ne
    {s : String} {v : Value F} (h : isText s v = true) (s' : String) (hne : s.toList ≠ s'.toList) :
    isText s' v = false := by
  cases v with
  | scalar v =>
      cases v with
      | str t =>
          have ht : t = s.toList := by simpa [isText] using h
          simp [isText, ht, hne]
      | null => rfl
      | bool b => rfl
      | int n => rfl
      | float x => rfl
  | arr vs => rfl
  | obj ms => rfl

theorem request_bind
    {α : Type} (call : Call F) (f : Value F → Action (Call F) α) :
    (request harness call >>= f) = ask harness call >>= fun answer => f answer.value := by
  rfl

theorem post_meets
    (path : String) (body : List (List Char × Value F)) (reqId : Value F) :
    Meets harness (post N P harness path body reqId)
      (Told N P (· = Call.post path.toList (.obj body)) reqId)
      (NoObject harness) := by
  rw [post, request_bind]
  refine Meets.ask fun answer => ?_
  refine Meets.orRaise (fun rs hrs => ?_) ?_
  · have hobj := eq_of_members hrs
    refine Meets.orRaise (fun isError herror => ?_) ?_
    · refine Meets.pure ⟨_, answer, _, isError, rfl, rfl, rfl, ?_, herror⟩
      split_ifs with hsaid
      · refine Or.inl ⟨rs, hobj, ?_, hsaid⟩
        cases hreply : member rs "reply" with
        | some v => rfl
        | none =>
            rw [hreply] at hsaid
            cases hsaid
      · exact Or.inr ⟨_, rfl, loads_dumps false answer.value⟩
    · intro hcontains
      rw [hobj] at hcontains
      cases hcontains
  · rintro hv calls ⟨n, hn, rfl⟩
    exact ⟨n, hn, hv⟩

/-- A call of a memory tool makes one request, and raises only at bad arguments or an answer that
is no object. -/
theorem callTool_meets
    (name arguments reqId : Value F)
    (hname : isMemoryTool name = true) :
    Meets harness (callTool N P harness chatId name arguments reqId)
      (Told N P (Asks chatId name arguments) reqId)
      (fun calls => badArguments P name arguments = true ∨ NoObject harness calls) := by
  have hpost : ∀ {path : String} {body : List (List Char × Value F)},
      Asks chatId name arguments (.post path.toList (.obj body)) →
      Meets harness (post N P harness path body reqId) (Told N P (Asks chatId name arguments) reqId)
        (fun calls => badArguments P name arguments = true ∨ NoObject harness calls) := by
    intro path body hasks
    refine (post_meets path body reqId).mono ?_ fun calls hcalls => Or.inr hcalls
    rintro response log ⟨_, answer, text, isError, hlog, hresponse, rfl, htells⟩
    exact ⟨_, answer, text, isError, hlog, hresponse, hasks, htells⟩
  have hbad : isText "memory_status" name = false → members arguments = none →
      badArguments P name arguments = true := by
    intro hstatus hnone
    simp [badArguments, hstatus, hnone]
  rw [callTool]
  split_ifs with hrecall hretain hpromote hstatus
  · have hstatus := isText_of_ne hrecall "memory_status" (by decide)
    refine Meets.orRaise (fun args hargs => ?_) fun hnone calls => Or.inl (hbad hstatus hnone)
    refine Meets.orRaise (fun budget hbudget => ?_) ?_
    · exact hpost (Asks.recall hrecall (eq_of_members hargs))
    · intro hbudget calls
      refine Or.inl ?_
      cases hmax : member args "max_tokens" with
      | none =>
          rw [hmax] at hbudget
          cases hbudget
      | some v =>
          rw [hmax] at hbudget
          have hint : toInt P v = none := Option.map_eq_none_iff.mp hbudget
          simp [badArguments, hstatus, hargs, hrecall, hmax, hint]
  · have hstatus := isText_of_ne hretain "memory_status" (by decide)
    refine Meets.orRaise (fun args hargs => ?_) fun hnone calls => Or.inl (hbad hstatus hnone)
    exact hpost (Asks.retain hretain (eq_of_members hargs))
  · have hstatus := isText_of_ne hpromote "memory_status" (by decide)
    refine Meets.orRaise (fun args hargs => ?_) fun hnone calls => Or.inl (hbad hstatus hnone)
    exact hpost (Asks.promote hpromote (eq_of_members hargs))
  · rw [request_bind]
    refine Meets.ask fun answer => ?_
    refine Meets.orRaise (fun isError herror => ?_) ?_
    · exact Meets.pure ⟨_, answer, _, isError, rfl, rfl, Asks.status hstatus,
        Or.inr ⟨_, rfl, loads_dumpsIndent false answer.value⟩, herror⟩
    · rintro hcontains calls ⟨n, hn, rfl⟩
      refine Or.inr ⟨n, hn, ?_⟩
      cases hv : (harness n).value with
      | obj ms =>
          rw [hv] at hcontains
          cases hcontains
      | scalar v => rfl
      | arr vs => rfl
  · simp [isMemoryTool, hrecall, hretain, hpromote, hstatus] at hname

/-- One request. -/
theorem handle_meets
    (req : Value F) :
    Meets harness (handle N P (memoryMcpServer N P harness chatId) req)
      (Answered N P chatId req)
      (fun calls => malformed P req = true ∨ NoObject harness calls) := by
  rw [handle]
  refine Meets.orRaise (fun ms hms => ?_) ?_
  · cases eq_of_members hms
    dsimp only
    split_ifs with hinit hsilent hping hlist hcall
    · refine Meets.orRaise (fun ps hps => ?_) ?_
      · refine Meets.pure (Answered.result ?_)
        simp [methodOf, hinit]
      · intro hps calls
        exact Or.inl (by simp [malformed, methodOf, hinit, hps])
    · exact Meets.pure (Answered.silent hsilent)
    · refine Meets.pure (Answered.result ?_)
      simp [methodOf, hping]
    · refine Meets.pure (Answered.result ?_)
      simp [methodOf, hlist]
    · refine Meets.orRaise (fun ps hps => ?_) ?_
      · have hparams := eq_of_members hps
        rw [memoryMcpServer]
        dsimp only
        split_ifs with htool
        · refine Meets.bind (callTool_meets _ _ _ htool |>.mono (fun _ _ h => h) ?_) ?_
          · rintro calls (hbad | hcalls)
            · refine Or.inl ?_
              simp [malformed, methodOf, hinit, hcall, hps, isMemoryTool, htool, hbad]
            · exact Or.inr hcalls
          · rintro response log ⟨call, answer, text, isError, rfl, rfl, hasks, htells, herror⟩
            exact Meets.pure (Answered.told hcall hparams hasks htells herror)
        · refine Meets.pure (Answered.unknownTool hcall hparams ?_)
          exact Bool.eq_false_iff.mpr htool
      · intro hps calls
        exact Or.inl (by simp [malformed, methodOf, hinit, hcall, hps])
    · refine Meets.pure (Answered.unknownMethod ?_)
      simp [methodOf, hinit, hsilent, hping, hlist, hcall]
  · intro hms calls
    refine Or.inl ?_
    cases req with
    | obj ms => cases hms
    | scalar v => rfl
    | arr vs => rfl

end Handling

/-! ### What a session writes and asks -/

section Sessions

variable (N : FloatText F) (P : Python F) (chatId : List Char)

/-- A line that is no JSON, a request, or a batch of requests. -/
inductive Message (F : Type) where
  | unreadable
  | single (request : Value F)
  | batch (requests : List (Value F))

def Message.requests : Message F → List (Value F)
  | .unreadable => []
  | .single r => [r]
  | .batch rs => rs

def toMessage : Value F → Message F
  | .arr rs => .batch rs
  | r => .single r

/-- The message of a line. -/
def readMessage (text : List Char) : Message F :=
  (((loads N text).map asDict).map toMessage).getD .unreadable

/-- The messages of an input; blank lines are none. -/
def messages (input : List Char) : List (Message F) :=
  (((fileLines (universalNewlines input)).map strip).filter fun text => text ≠ []).map
    (readMessage N)

/-- A message, its answer, and what the harness was asked for it and answered. -/
structure Turn (F : Type) where
  message : Message F
  answer : Option (Value F)
  log : List (Call F × Answer F)

/-- The answer to a batch, from those to its requests. -/
def batchAnswer (responses : List (Value F)) : Option (Value F) :=
  if responses.isEmpty then none else some (.arr responses)

/-- The message is answered, request by request. -/
inductive Turn.Right : Turn F → Prop
  | unreadable {text : List Char} : Turn.Right ⟨.unreadable, some (errorResponse null text), []⟩
  | single {r : Value F} {response : Option (Value F)} {log : List (Call F × Answer F)}
      (h : Answered N P chatId r response log) : Turn.Right ⟨.single r, response, log⟩
  | batch {rs : List (Value F)} {runs : List (Option (Value F) × List (Call F × Answer F))}
      (h : List.Forall₂ (fun r run => Answered N P chatId r run.1 run.2) rs runs) :
      Turn.Right ⟨.batch rs, batchAnswer ((runs.map Prod.fst).filterMap id),
        (runs.map Prod.snd).flatten⟩

/-- The message has a request that makes the server raise, or the harness gave no object. -/
def Message.Stuck (harness : Nat → Answer F) (m : Message F) (calls : List (Call F)) : Prop :=
  (∃ r ∈ m.requests, malformed P r = true) ∨ NoObject harness calls

/-- From `s` the server served these turns and came to `s'`, with the messages `rest` left. -/
structure Served (harness : Nat → Answer F) (s s' : Session F) (turns : List (Turn F))
    (rest : List (Message F)) : Prop where
  right : ∀ t ∈ turns, t.Right N P chatId
  written : s'.written = s.written ++ (turns.filterMap Turn.answer).flatMap (line N)
  calls : s.calls ++ (turns.flatMap Turn.log).map Prod.fst <+: s'.calls
  answers : Answers harness s.calls.length (turns.flatMap Turn.log)
  atEnd : s'.atEnd = true → rest = [] ∧ s'.calls = s.calls ++ (turns.flatMap Turn.log).map Prod.fst
  stopped : s'.atEnd = false → ∃ m ∈ rest.head?, m.Stuck P harness s'.calls

end Sessions

section Serving

variable {N : FloatText F} {P : Python F} {harness : Nat → Answer F} {chatId : List Char}
  {describe : List Char → List Char}

/-- A turn before those that were served. -/
theorem Served.cons
    {s s' : Session F} {turns : List (Turn F)} {rest : List (Message F)}
    {m : Message F} {answer : Option (Value F)} {log : List (Call F × Answer F)}
    (h : Served N P chatId harness
      ⟨s.written ++ (answer.map (line N)).getD [], s.calls ++ log.map Prod.fst, s.atEnd⟩
      s' turns rest)
    (hright : Turn.Right N P chatId ⟨m, answer, log⟩)
    (hlog : Answers harness s.calls.length log) :
    Served N P chatId harness s s' (⟨m, answer, log⟩ :: turns) rest := by
  have hcalls : s.calls ++ ((⟨m, answer, log⟩ :: turns : List (Turn F)).flatMap Turn.log).map
      Prod.fst = s.calls ++ log.map Prod.fst ++ (turns.flatMap Turn.log).map Prod.fst := by
    rw [List.flatMap_cons, List.map_append, List.append_assoc]
  constructor
  · exact List.forall_mem_cons.mpr ⟨hright, h.right⟩
  · rw [h.written]
    cases answer with
    | none => simp
    | some v => simp
  · rw [hcalls]
    exact h.calls
  · have hlen : s.calls.length + log.length = (s.calls ++ log.map Prod.fst).length := by simp
    refine answers_append hlog ?_
    rw [hlen]
    exact h.answers
  · rw [hcalls]
    exact h.atEnd
  · exact h.stopped

/-- One line that is not blank. -/
theorem serve_meets
    (text : List Char) (hblank : strip text ≠ []) :
    Meets harness (serve N P describe (memoryMcpServer N P harness chatId) text)
      (fun answer log => Turn.Right N P chatId ⟨readMessage N (strip text), answer, log⟩)
      ((readMessage N (strip text)).Stuck P harness) := by
  have hsingle : ∀ r : Value F, readMessage N (strip text) = .single r →
      Meets harness (handle N P (memoryMcpServer N P harness chatId) r)
        (fun answer log => Turn.Right N P chatId ⟨readMessage N (strip text), answer, log⟩)
        ((readMessage N (strip text)).Stuck P harness) := by
    intro r hr
    rw [hr]
    refine (handle_meets r).mono (fun response log h => Turn.Right.single h) fun calls hcalls => ?_
    exact hcalls.imp_left fun hbad => ⟨r, List.mem_singleton_self r, hbad⟩
  rw [serve]
  dsimp only
  rw [if_neg hblank]
  cases hread : (loads N (strip text)).map asDict with
  | none =>
      have hmessage : readMessage N (strip text) = .unreadable := by rw [readMessage, hread]; rfl
      rw [hmessage]
      exact Meets.pure Turn.Right.unreadable
  | some v =>
      have hmessage : readMessage N (strip text) = toMessage v := by rw [readMessage, hread]; rfl
      cases v with
      | scalar v => exact hsingle _ hmessage
      | obj ms => exact hsingle _ hmessage
      | arr rs =>
          rw [hmessage]
          dsimp only
          have hitem : ∀ r ∈ rs, Meets harness (handle N P (memoryMcpServer N P harness chatId) r)
              (Answered N P chatId r) ((Message.batch rs).Stuck P harness) := by
            intro r hr
            refine (handle_meets r).mono (fun _ _ h => h) fun calls hcalls => ?_
            exact hcalls.imp_left fun hbad => ⟨r, hr, hbad⟩
          refine (Meets.each hitem).bind ?_
          rintro _ _ ⟨runs, rfl, rfl, hall⟩
          refine Meets.pure ?_
          rw [List.append_nil]
          exact Turn.Right.batch hall

theorem run_served
    (lines : List (List Char)) :
    ∀ s : Session F, s.atEnd = true → ∃ turns rest,
      (((lines.map strip).filter fun text => text ≠ []).map (readMessage N)) =
        turns.map Turn.message ++ rest ∧
      Served N P chatId harness s
        (run N P describe (memoryMcpServer N P harness chatId) s lines) turns rest := by
  induction lines with
  | nil =>
      intro s hs
      refine ⟨[], [], rfl, by simp, ?_, ?_, rfl, ?_, ?_⟩
      · rw [run]
        simp
      · rw [run]
        simp
      · intro _
        rw [run]
        simp
      · intro hend
        rw [run, hs] at hend
        cases hend
  | cons text lines ih =>
      intro s hs
      by_cases hblank : strip text = []
      · have hserve : serve N P describe (memoryMcpServer N P harness chatId) text s.calls =
            (some none, s.calls) := by
          rw [serve]
          dsimp only
          rw [if_pos hblank]
          rfl
        obtain ⟨turns, rest, hmessages, hserved⟩ := ih s hs
        have hrun : run N P describe (memoryMcpServer N P harness chatId) s (text :: lines) =
            run N P describe (memoryMcpServer N P harness chatId) s lines := by
          rw [run, hserve]
          dsimp only
          rw [Option.map_none, Option.getD_none, List.append_nil]
        refine ⟨turns, rest, ?_, hrun ▸ hserved⟩
        rw [List.map_cons, hblank, List.filter_cons_of_neg (by simp)]
        exact hmessages
      · have hlines : ((((text :: lines).map strip).filter fun text => text ≠ []).map
            (readMessage N)) = readMessage N (strip text) ::
              (((lines.map strip).filter fun text => text ≠ []).map (readMessage N)) := by
          rw [List.map_cons, List.filter_cons_of_pos (by simpa using hblank), List.map_cons]
        rcases @serve_meets F N P harness chatId describe text hblank s.calls with
          ⟨answer, log, hserve, hlog, hright⟩ | ⟨calls, hserve, hle, hstuck⟩
        · obtain ⟨turns, rest, hmessages, hserved⟩ :=
            ih ⟨s.written ++ (answer.map (line N)).getD [], s.calls ++ log.map Prod.fst, s.atEnd⟩ hs
          have hrun : run N P describe (memoryMcpServer N P harness chatId) s (text :: lines) =
              run N P describe (memoryMcpServer N P harness chatId)
                ⟨s.written ++ (answer.map (line N)).getD [], s.calls ++ log.map Prod.fst, s.atEnd⟩
                lines := by
            rw [run, hserve]
          rw [hrun]
          refine ⟨⟨readMessage N (strip text), answer, log⟩ :: turns, rest, ?_, ?_⟩
          · rw [hlines, hmessages]
            rfl
          · exact hserved.cons hright hlog
        · refine ⟨[], _, hlines.trans (List.nil_append _).symm, ?_⟩
          have hrun : run N P describe (memoryMcpServer N P harness chatId) s (text :: lines) =
              { s with calls := calls, atEnd := false } := by
            rw [run, hserve]
          rw [hrun]
          refine ⟨by simp, by simp, by simpa using hle, rfl, ?_, fun _ => ⟨_, rfl, hstuck⟩⟩
          intro hend
          cases hend

theorem lines_written
    (vs : List (Value F)) :
    (fileLines (vs.flatMap (line N))).map (loads N) = vs.map some := by
  induction vs with
  | nil => rfl
  | cons v vs ih =>
      have hfeed : '\n' ∉ dumps false N v := fun hmem => (noReturn_dumps v '\n' hmem).1 rfl
      rw [List.flatMap_cons, line, List.append_assoc, List.singleton_append,
        fileLines_append hfeed, List.map_cons, ih, loads_dumps_newline, List.map_cons]

/-- What was written from the start. -/
theorem Served.lines
    {s : Session F} {turns : List (Turn F)} {rest : List (Message F)}
    (h : Served N P chatId harness {} s turns rest) :
    (fileLines s.written).map (loads N) = (turns.filterMap Turn.answer).map some := by
  have hwritten : s.written = (turns.filterMap Turn.answer).flatMap (line N) := by
    rw [h.written, List.nil_append]
  rw [hwritten]
  exact lines_written _

end Serving

/-! ### A client -/

section Clients

variable {N : FloatText F} {P : Python F} {harness : Nat → Answer F} {chatId : List Char}
  {ascii : Bool}

theorem strip_line
    {c d : Char} (hc : isSpace c = false) (hd : isSpace d = false)
    (t : List Char) :
    strip (c :: (t ++ [d]) ++ ['\n']) = c :: (t ++ [d]) := by
  have hleft : lstrip (c :: (t ++ [d]) ++ ['\n']) = c :: (t ++ [d]) ++ ['\n'] :=
    List.dropWhile_cons_of_neg (by simp [hc])
  have hreverse : (c :: (t ++ [d]) ++ ['\n']).reverse = '\n' :: d :: (t.reverse ++ [c]) := by simp
  have hfeed : isSpace '\n' = true := rfl
  have hstop : ¬ isSpace d = true := by simp [hd]
  rw [strip, hleft, rstrip, hreverse, List.dropWhile_cons_of_pos hfeed,
    List.dropWhile_cons_of_neg hstop]
  simp

theorem dumpsItems_concat
    (vs : List (Value F)) :
    ∃ t, dumpsItems ascii N vs = t ++ [']'] := by
  induction vs with
  | nil => exact ⟨[], rfl⟩
  | cons v vs ih =>
      obtain ⟨t, ht⟩ := ih
      refine ⟨',' :: ' ' :: (dumps ascii N v ++ t), ?_⟩
      rw [dumpsItems, ht]
      simp

theorem dumpsMembers_concat
    (ms : List (List Char × Value F)) :
    ∃ t, dumpsMembers ascii N ms = t ++ ['}'] := by
  induction ms with
  | nil => exact ⟨[], rfl⟩
  | cons m ms ih =>
      obtain ⟨t, ht⟩ := ih
      refine ⟨',' :: ' ' :: (dumpsString ascii m.1 ++ ':' :: ' ' :: (dumps ascii N m.2 ++ t)), ?_⟩
      rw [dumpsMembers, ht]
      simp

/-- An array or an object on a line of its own. -/
theorem strip_dumps
    {v : Value F} (hv : ∀ x, v ≠ .scalar x) :
    strip (dumps ascii N v ++ ['\n']) = dumps ascii N v := by
  cases v with
  | scalar x => exact absurd rfl (hv x)
  | arr vs =>
      cases vs with
      | nil => exact @strip_line '[' ']' rfl rfl []
      | cons v vs =>
          obtain ⟨t, ht⟩ := @dumpsItems_concat F N ascii vs
          rw [dumps, ht, ← List.append_assoc]
          exact strip_line rfl rfl _
  | obj ms =>
      cases ms with
      | nil => exact @strip_line '{' '}' rfl rfl []
      | cons m ms =>
          obtain ⟨t, ht⟩ := @dumpsMembers_concat F N ascii ms
          have htext : dumps ascii N (.obj (m :: ms)) =
              '{' :: (dumpsString ascii m.1 ++ ':' :: ' ' :: (dumps ascii N m.2 ++ t) ++
                ['}']) := by
            rw [dumps, ht]
            simp
          rw [htext]
          exact strip_line rfl rfl _

/-- The messages of a client that writes each on a line. -/
theorem messages_of_sent
    {sent : List (Value F)}
    (hdict : ∀ v ∈ sent, asDict v = v)
    (hvalue : ∀ v ∈ sent, ∀ x, v ≠ .scalar x) :
    messages N (sent.flatMap fun v => dumps ascii N v ++ ['\n']) = sent.map toMessage := by
  have hreturn : '\r' ∉ sent.flatMap fun v => dumps ascii N v ++ ['\n'] := by
    intro hmem
    obtain ⟨v, -, hv⟩ := List.mem_flatMap.mp hmem
    rcases List.mem_append.mp hv with hv | hv
    · exact (noReturn_dumps v '\r' hv).2 rfl
    · exact absurd hv (by decide)
  rw [messages, universalNewlines_eq_self hreturn]
  clear hreturn
  induction sent with
  | nil => rfl
  | cons v sent ih =>
      have hfeed : '\n' ∉ dumps ascii N v := fun hmem => (noReturn_dumps v '\n' hmem).1 rfl
      have hne : dumps ascii N v ≠ [] := List.ne_nil_of_length_pos (length_pos_dumps ascii v)
      have hread : readMessage N (dumps ascii N v) = toMessage v := by
        rw [readMessage, loads_dumps, Option.map_some, hdict v List.mem_cons_self]
        rfl
      rw [List.flatMap_cons, List.append_assoc, List.singleton_append, fileLines_append hfeed,
        List.map_cons, strip_dumps (hvalue v List.mem_cons_self),
        List.filter_cons_of_pos (by simpa using hne), List.map_cons, hread, List.map_cons,
        ih (fun w hw => hdict w (List.mem_cons_of_mem _ hw))
          fun w hw => hvalue w (List.mem_cons_of_mem _ hw)]

/-- **A client is served.**  A client that writes well-formed requests and batches, one a line,
to a server whose harness gives objects is answered to the end: the lines that it reads are the
answers to its messages, in their order, and the harness was asked once for every call of a
memory tool, in the order of the calls. -/
theorem client_served
    (describe : List Char → List Char)
    (sent : List (Value F))
    (hdict : ∀ v ∈ sent, asDict v = v)
    (hwell : ∀ v ∈ sent, ∀ r ∈ (toMessage v).requests, malformed P r = false)
    (hharness : ∀ n, (members (harness n).value).isSome = true) :
    let s := session N P describe (memoryMcpServer N P harness chatId)
      (sent.flatMap fun v => dumps ascii N v ++ ['\n'])
    ∃ turns : List (Turn F),
      turns.map Turn.message = sent.map toMessage ∧
      (∀ t ∈ turns, t.Right N P chatId) ∧
      (fileLines s.written).map (loads N) = (turns.filterMap Turn.answer).map some ∧
      s.calls = (turns.flatMap Turn.log).map Prod.fst ∧
      Answers harness 0 (turns.flatMap Turn.log) ∧
      s.atEnd = true := by
  intro s
  have hvalue : ∀ v ∈ sent, ∀ x, v ≠ .scalar x := by
    rintro v hv x rfl
    cases hwell _ hv (.scalar x) (List.mem_singleton_self _)
  obtain ⟨turns, rest, hturns, hserved⟩ :=
    @run_served F N P harness chatId describe
      (fileLines (universalNewlines (sent.flatMap fun v => dumps ascii N v ++ ['\n']))) {} rfl
  rw [← messages, messages_of_sent hdict hvalue] at hturns
  have hdone : s.atEnd = true := by
    by_contra hnot
    obtain ⟨m, hm, hstuck⟩ := hserved.stopped (Bool.eq_false_iff.mpr hnot)
    rcases hstuck with ⟨r, hr, hbad⟩ | ⟨n, _, hnone⟩
    · have hmem : m ∈ sent.map toMessage := by
        rw [hturns]
        exact List.mem_append_right _ (List.mem_of_mem_head? hm)
      obtain ⟨v, hv, rfl⟩ := List.mem_map.mp hmem
      rw [hwell v hv r hr] at hbad
      cases hbad
    · have hsome := hharness n
      rw [hnone] at hsome
      cases hsome
  obtain ⟨rfl, hasked⟩ := hserved.atEnd hdone
  exact ⟨turns, by rw [hturns, List.append_nil], hserved.right, hserved.lines, hasked,
    hserved.answers, hdone⟩

/-- A ping, and a status in a batch with a notification. -/
theorem client_served_statusBatch :
    ∃ turns : List (Turn Empty),
      turns.map Turn.message = [Message.single (.obj [("method".toList, .text "ping")]),
        .batch [.obj [("method".toList, .text "tools/call"),
          ("params".toList, .obj [("name".toList, .text "memory_status")])],
          .obj [("method".toList, .text "notifications/initialized")]]] ∧
      (∀ t ∈ turns, t.Right noFloats ⟨fun x => x.elim, fun x => x.elim, fun _ => []⟩ ['4']) := by
  obtain ⟨turns, hturns, hright, _⟩ := @client_served Empty noFloats
    ⟨fun x => x.elim, fun x => x.elim, fun _ => []⟩
    (fun _ => .body (.obj [("error".toList, .text "off")])) ['4'] true (fun _ => [])
    [.obj [("method".toList, .text "ping")],
      .arr [.obj [("method".toList, .text "tools/call"),
        ("params".toList, .obj [("name".toList, .text "memory_status")])],
        .obj [("method".toList, .text "notifications/initialized")]]]
    (by
      intro v hv
      rcases List.mem_pair.mp hv with rfl | rfl <;> rfl)
    (by
      intro v hv r hr
      rcases List.mem_pair.mp hv with rfl | rfl
      · rw [List.mem_singleton.mp hr]
        rfl
      · rcases List.mem_pair.mp hr with rfl | rfl <;> rfl)
    (fun _ => rfl)
  exact ⟨turns, hturns, hright⟩

end Clients

end McpServer
end DiploidAgent
