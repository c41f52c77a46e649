import DiploidAgent.Lib.JsonDumps

/-!
# The control socket

`ControlListener` of `acp_client/control.py`: the token of the listeners that share a path
(`_start`, `_bind`, `_adopt_owner_token`, `close`), and what the listening one does with a
connection (`_listen`).

The first `recv` that returns fewer than 4096 bytes counts as the end of the request.  So what the
listener does depends on how the socket cuts the bytes: a short piece before the last one leaves a
part of the request, and a request in full pieces alone leaves a `recv` that waits for a client
that waits for its answer (`serve_iff`).
-/

namespace DiploidAgent
namespace Acp
namespace ControlSocket

open JsonText

universe u

variable {F : Type u}

abbrev Bytes := List UInt8

/-- `on_service_restart` over a service and a reason.  It has no result where it raises, and the
result may be `None`. -/
abbrev Restarter (F : Type u) := Value F → Value F → Option (Option (List Char))

structure Listener (F : Type u) where
  serviceName : List Char
  onServiceRestart : Option (Restarter F)
  token : List Char
  tokenAdopted : Bool := false
  /-- The thread of the listener is alive. -/
  listening : Bool := false

section Tokens

/-- The listeners of one process on one path, with the entry of `_LIVE_LISTENERS`. -/
structure Process (F : Type u) where
  listeners : Nat → Listener F
  live : Option Nat

def Process.set (p : Process F) (i : Nat) (l : Listener F) : Process F :=
  { p with listeners := Function.update p.listeners i l }

/-- What `_bind` finds at the path once it has probed it, for as long as it does. -/
inductive PathState where
  | free
  | liveSelf
  | inUse
  | failed
deriving DecidableEq

def adoptOwnerToken (p : Process F) (i : Nat) : Process F :=
  match p.live with
  | none => p
  | some owner =>
      if owner = i then p
      else
        p.set i
          { p.listeners i with token := (p.listeners owner).token, tokenAdopted := true }

/-- A listener that held the token of another one gets one of its own. -/
def bind (p : Process F) (i : Nat) (path : PathState) (fresh : List Char) : Process F :=
  match path with
  | .liveSelf => adoptOwnerToken p i
  | .inUse => p
  | .failed => p
  | .free =>
      let l := p.listeners i
      { p.set i
          { l with
            token := if l.tokenAdopted then fresh else l.token
            tokenAdopted := false
            listening := true } with
        live := some i }

def start (p : Process F) (i : Nat) (path : PathState) (fresh : List Char) : Process F :=
  if (p.listeners i).onServiceRestart.isNone || (p.listeners i).listening then p
  else bind p i path fresh

def close (p : Process F) (i : Nat) : Process F :=
  { p.set i { p.listeners i with listening := false } with
    live := if p.live = some i then none else p.live }

inductive Op where
  | start (i : Nat) (path : PathState) (fresh : List Char)
  | close (i : Nat)

def step (p : Process F) : Op → Process F
  | .start i path fresh => start p i path fresh
  | .close i => close p i

end Tokens

section Connection

/-- What the listener reads of its process and of floats. -/
structure Host (F : Type u) where
  pid : Int
  isZero : F → Bool

def isTruthy (host : Host F) : Value F → Bool
  | .scalar .null => false
  | .scalar (.bool b) => b
  | .scalar (.int n) => n != 0
  | .scalar (.float x) => !host.isZero x
  | .scalar (.str s) => !s.isEmpty
  | .arr items => !items.isEmpty
  | .obj members => !members.isEmpty

def recvSize : Nat := 4096

/-- The bytes that the loop has read when it ends, and whether the client still waits. -/
@[ext] structure Received where
  data : Bytes
  waiting : Bool

/-- The loop over `conn.recv(4096)`, from the pieces that the calls return.  Past the last piece
the call blocks until the client gives up waiting and closes; then it returns no bytes. -/
def recvLoop (data : Bytes) : List Bytes → Received
  | [] => ⟨data, false⟩
  | chunk :: chunks =>
      if chunk = [] then ⟨data, false⟩
      else if chunk.length < recvSize then ⟨data ++ chunk, true⟩
      else recvLoop (data ++ chunk) chunks

/-- `data.decode("utf-8")`. -/
def decodeUtf8 (data : Bytes) : Option (List Char) :=
  data.toByteArray.utf8Decode?.map Array.toList

def parse (N : FloatText F) (data : Bytes) : Option (Value F) :=
  (decodeUtf8 data).bind (loads N)

def serviceOf (host : Host F) (l : Listener F) (ms : List (List Char × Value F)) : Value F :=
  match (member ms "service").filter (isTruthy host) with
  | some service => service
  | none => if l.serviceName = [] then .text "unknown.service" else .scalar (.str l.serviceName)

def reasonOf (ms : List (List Char × Value F)) : Value F :=
  (member ms "reason").getD (.text "")

def isText : Option (Value F) → List Char → Bool
  | some (.scalar (.str t)), s => t == s
  | _, _ => false

def okOr : Option (List Char) → List Char
  | some (c :: cs) => c :: cs
  | _ => "ok".toList

/-- The calls of `on_service_restart` and the status of the answer; no status where the call
raises. -/
def respond (host : Host F) (l : Listener F) (ms : List (List Char × Value F)) :
    List (Value F × Value F) × Option (List Char) :=
  if isText (member ms "action") "restart_service".toList then
    if !isText (member ms "token") l.token then ([], some "rejected: bad control token".toList)
    else
      match l.onServiceRestart with
      | none => ([], some "ignored".toList)
      | some restart =>
          ([(serviceOf host l ms, reasonOf ms)],
            (restart (serviceOf host l ms) (reasonOf ms)).map okOr)
  else ([], some "ok".toList)

def answerText (N : FloatText F) (host : Host F) (l : Listener F) (status : List Char) :
    List Char :=
  dumps true N
    (.obj [("status".toList, .scalar (.str status)), ("pid".toList, .scalar (.int host.pid)),
      ("service".toList, .scalar (.str l.serviceName))])

/-- What comes of one connection: the bytes that are decoded, the calls, and the answer as far as
the client gets one. -/
structure Exchange (F : Type u) where
  decoded : Option Bytes := none
  calls : List (Value F × Value F) := []
  answer : Option (List Char) := none

/-- What is done with the bytes of a request.  A text that is no JSON raises, and so does `.get`
on a value that is no object. -/
def handle (N : FloatText F) (host : Host F) (l : Listener F) (data : Bytes) : Exchange F :=
  if data = [] then {}
  else
    match parse N data with
    | some (.obj ms) =>
        { decoded := some data
          calls := (respond host l ms).1
          answer := (respond host l ms).2.map (answerText N host l) }
    | _ => { decoded := some data }

/-- One turn of `_listen`.  A client that has closed gets no answer: `sendall` raises. -/
def serve (N : FloatText F) (host : Host F) (l : Listener F) (chunks : List Bytes) : Exchange F :=
  let received := recvLoop [] chunks
  let exchange := handle N host l received.data
  if received.waiting then exchange else { exchange with answer := none }

end Connection

/-! ### Tokens -/

section Tokens

variable {p : Process F} {i j : Nat}

theorem listeners_set_of_ne
    {l : Listener F} (h : j ≠ i) :
    (p.set i l).listeners j = p.listeners j := by
  simp only [Process.set, Function.update_of_ne h]

/-- A listener that shares the path has the token of the one that owns it. -/
theorem token_start_liveSelf
    {fresh : List Char}
    (hcall : (p.listeners i).onServiceRestart.isSome = true)
    (hidle : (p.listeners i).listening = false)
    (hlive : p.live = some j) :
    ((start p i .liveSelf fresh).listeners i).token = (p.listeners j).token := by
  have hstart : start p i .liveSelf fresh = adoptOwnerToken p i := by
    simp [start, bind, hidle, Option.isNone_eq_false_iff.mpr hcall]
  have hadopt : start p i .liveSelf fresh = if j = i then p else
      p.set i { p.listeners i with token := (p.listeners j).token, tokenAdopted := true } := by
    rw [hstart, adoptOwnerToken, hlive]
  rw [hadopt]
  by_cases h : j = i
  · rw [if_pos h, h]
  · rw [if_neg h]
    simp [Process.set]

/-- A step that does not close a listening listener leaves it as it is. -/
theorem listener_step
    (o : Op)
    (hj : (p.listeners j).listening = true)
    (hclose : o ≠ .close j) :
    (step p o).listeners j = p.listeners j := by
  cases o with
  | close i =>
      have hne : j ≠ i := fun h => hclose (h ▸ rfl)
      exact listeners_set_of_ne hne
  | start i path fresh =>
      rw [step, start]
      split
      · rfl
      · rename_i hstart
        have hne : j ≠ i := by
          rintro rfl
          exact hstart (by simp [hj])
        cases path with
        | free => exact listeners_set_of_ne hne
        | inUse => rfl
        | failed => rfl
        | liveSelf =>
            rw [bind, adoptOwnerToken]
            split
            · rfl
            · split
              · rfl
              · exact listeners_set_of_ne hne

/-- The token of a listener stays the same for as long as it listens, whatever the other listeners
of the process do. -/
theorem listener_run
    (ops : List Op)
    (hj : (p.listeners j).listening = true)
    (hclose : Op.close j ∉ ops) :
    (ops.foldl step p).listeners j = p.listeners j := by
  induction ops generalizing p with
  | nil => rfl
  | cons o ops ih =>
      rw [List.mem_cons, not_or] at hclose
      have hstep := listener_step o hj (Ne.symm hclose.1)
      rw [List.foldl_cons, ih (hstep ▸ hj) hclose.2, hstep]

end Tokens

/-! ### Pieces -/

section Pieces

/-- One way the socket hands over what the client sent before it waits. -/
structure Delivery (sent : Bytes) where
  chunks : List Bytes
  ne_nil : ∀ c ∈ chunks, c ≠ []
  bounded : ∀ c ∈ chunks, c.length ≤ recvSize
  whole : chunks.flatten = sent

/-- Every piece but the last fills the buffer, and the last does not. -/
def EndsShort (chunks : List Bytes) : Prop :=
  ∃ full last, chunks = full ++ [last] ∧ (∀ c ∈ full, c.length = recvSize) ∧
    last.length < recvSize

theorem not_endsShort_nil : ¬ EndsShort [] := by
  rintro ⟨full, last, h, -⟩
  exact List.append_ne_nil_of_right_ne_nil full (List.cons_ne_nil last []) h.symm

theorem endsShort_cons_short
    {c : Bytes} {chunks : List Bytes} (hc : c.length < recvSize) :
    EndsShort (c :: chunks) ↔ chunks = [] := by
  constructor
  · rintro ⟨full, last, h, hfull, -⟩
    cases full with
    | nil => exact (List.cons_eq_cons.mp h).2
    | cons d full =>
        have hd : c = d := (List.cons_eq_cons.mp h).1
        have := hfull d List.mem_cons_self
        rw [← hd] at this
        omega
  · rintro rfl
    exact ⟨[], c, rfl, by simp, hc⟩

theorem endsShort_cons_full
    {c : Bytes} {chunks : List Bytes} (hc : c.length = recvSize) :
    EndsShort (c :: chunks) ↔ EndsShort chunks := by
  constructor
  · rintro ⟨full, last, h, hfull, hlast⟩
    cases full with
    | nil =>
        have hl : c = last := (List.cons_eq_cons.mp h).1
        rw [← hl] at hlast
        omega
    | cons d full =>
        exact ⟨full, last, (List.cons_eq_cons.mp h).2,
          fun x hx => hfull x (List.mem_cons_of_mem d hx), hlast⟩
  · rintro ⟨full, last, rfl, hfull, hlast⟩
    refine ⟨c :: full, last, rfl, ?_, hlast⟩
    intro x hx
    rcases List.mem_cons.mp hx with rfl | hx
    · exact hc
    · exact hfull x hx

/-- The loop ends with everything read while the client waits exactly on the pieces that end
short. -/
theorem recvLoop_iff
    (data : Bytes) (chunks : List Bytes)
    (hne : ∀ c ∈ chunks, c ≠ [])
    (hle : ∀ c ∈ chunks, c.length ≤ recvSize) :
    recvLoop data chunks = ⟨data ++ chunks.flatten, true⟩ ↔ EndsShort chunks := by
  induction chunks generalizing data with
  | nil => simp [recvLoop, not_endsShort_nil]
  | cons c chunks ih =>
      have hc : c ≠ [] := hne c List.mem_cons_self
      have hrest : ∀ d ∈ chunks, d ≠ [] := fun d hd => hne d (List.mem_cons_of_mem c hd)
      rw [recvLoop, if_neg hc, List.flatten_cons]
      by_cases hshort : c.length < recvSize
      · rw [if_pos hshort, endsShort_cons_short hshort]
        constructor
        · intro h
          have hnil : chunks.flatten = [] := by simpa using congrArg Received.data h
          cases chunks with
          | nil => rfl
          | cons d chunks =>
              have hd : d = [] := List.flatten_eq_nil_iff.mp hnil d List.mem_cons_self
              exact absurd hd (hrest d List.mem_cons_self)
        · rintro rfl
          simp
      · have hfull : c.length = recvSize := by
          have := hle c List.mem_cons_self
          omega
        rw [if_neg hshort, endsShort_cons_full hfull, ← List.append_assoc,
          ih (data ++ c) hrest (fun d hd => hle d (List.mem_cons_of_mem c hd))]

/-- The lengths that some delivery ends short on: a request of full pieces alone has none. -/
theorem exists_endsShort_iff
    (sent : Bytes) :
    (∃ d : Delivery sent, EndsShort d.chunks) ↔ ¬ recvSize ∣ sent.length := by
  constructor
  · rintro ⟨d, full, last, hchunks, hfull, hlast⟩ ⟨k, hk⟩
    have hpos : 0 < last.length :=
      List.length_pos_iff.mpr (d.ne_nil last (by rw [hchunks]; simp))
    have hsum : full.flatten.length = full.length * recvSize := by
      rw [List.length_flatten, List.eq_replicate_of_mem (a := recvSize) (l := full.map List.length)
        (by simpa using hfull)]
      simp
    have hlen : sent.length = full.length * recvSize + last.length := by
      rw [← d.whole, hchunks, List.flatten_append, List.length_append, hsum]
      simp
    have hmod : sent.length % recvSize = last.length := by
      rw [hlen, Nat.mul_add_mod_self_right, Nat.mod_eq_of_lt hlast]
    rw [hk, Nat.mul_mod_right] at hmod
    omega
  · intro h
    induction hn : sent.length using Nat.strongRecOn generalizing sent with
    | ind n ih =>
        subst hn
        by_cases hshort : sent.length < recvSize
        · have hne : sent ≠ [] := by
            rintro rfl
            exact h (Nat.dvd_zero recvSize)
          refine ⟨⟨[sent], by simpa using hne, by simpa using Nat.le_of_lt hshort, by simp⟩, ?_⟩
          exact ⟨[], sent, rfl, by simp, hshort⟩
        · have hdrop : (sent.drop recvSize).length = sent.length - recvSize := List.length_drop
          have hsize : 0 < recvSize := by decide
          have hrest : ¬ recvSize ∣ (sent.drop recvSize).length := by
            rw [hdrop]
            intro hdvd
            have hback := Nat.dvd_add hdvd (Nat.dvd_refl recvSize)
            rw [Nat.sub_add_cancel (by omega)] at hback
            exact h hback
          obtain ⟨d, hd⟩ := ih _ (by omega) (sent.drop recvSize) hrest rfl
          have htake : (sent.take recvSize).length = recvSize := by
            rw [List.length_take]
            omega
          have hpiece : sent.take recvSize ≠ [] := by
            intro hnil
            rw [hnil, List.length_nil] at htake
            omega
          refine ⟨⟨sent.take recvSize :: d.chunks, ?_, ?_, ?_⟩, (endsShort_cons_full htake).mpr hd⟩
          · exact List.forall_mem_cons.mpr ⟨hpiece, d.ne_nil⟩
          · exact List.forall_mem_cons.mpr ⟨Nat.le_of_eq htake, d.bounded⟩
          · rw [List.flatten_cons, d.whole, List.take_append_drop]

end Pieces

/-! ### Requests -/

section Requests

variable {N : FloatText F} {host : Host F} {l : Listener F} {restart : Restarter F}
  {sent : Bytes} {ms : List (List Char × Value F)}

/-- The bytes of a text. -/
def encodeUtf8 (text : List Char) : Bytes := text.flatMap String.utf8EncodeChar

theorem decodeUtf8_encodeUtf8
    (text : List Char) :
    decodeUtf8 (encodeUtf8 text) = some text := by
  rw [decodeUtf8, encodeUtf8, ← List.utf8Encode, List.utf8Decode?_utf8Encode]
  rfl

theorem parse_dumps
    (ascii : Bool) (v : Value F) :
    parse N (encodeUtf8 (dumps ascii N v)) = some v := by
  rw [parse, decodeUtf8_encodeUtf8, Option.bind_some, loads_dumps]

theorem ne_nil_of_parse
    {v : Value F} (h : parse N sent = some v) :
    sent ≠ [] := by
  rintro rfl
  have hnil : decodeUtf8 [] = some [] := decodeUtf8_encodeUtf8 []
  rw [parse, hnil] at h
  cases h

/-- A restart request with the token of the listener. -/
def HasToken (l : Listener F) (ms : List (List Char × Value F)) : Prop :=
  isText (member ms "token") l.token = true

/-- A request read whole: its own bytes are decoded, the callback is called once for the token and
never for another one, and the client gets an answer. -/
structure ReadWhole (host : Host F) (l : Listener F) (sent : Bytes)
    (ms : List (List Char × Value F)) (x : Exchange F) : Prop where
  decoded : x.decoded = some sent
  called : HasToken l ms → x.calls = [(serviceOf host l ms, reasonOf ms)]
  refused : ¬ HasToken l ms → x.calls = []
  answered : x.answer.isSome = true

theorem respond_of_token
    (haction : isText (member ms "action") "restart_service".toList = true)
    (hrestart : l.onServiceRestart = some restart)
    (h : HasToken l ms) :
    respond host l ms =
      ([(serviceOf host l ms, reasonOf ms)],
        (restart (serviceOf host l ms) (reasonOf ms)).map okOr) := by
  have htoken : ¬ (!isText (member ms "token") l.token) = true := by simpa [HasToken] using h
  rw [respond, if_pos haction, if_neg htoken, hrestart]

theorem respond_of_no_token
    (haction : isText (member ms "action") "restart_service".toList = true)
    (h : ¬ HasToken l ms) :
    respond host l ms = ([], some "rejected: bad control token".toList) := by
  rw [respond, if_pos haction, if_pos (by simpa [HasToken] using h)]

theorem handle_request
    (hsent : parse N sent = some (.obj ms)) :
    handle N host l sent =
      { decoded := some sent
        calls := (respond host l ms).1
        answer := (respond host l ms).2.map (answerText N host l) } := by
  rw [handle, if_neg (ne_nil_of_parse hsent), hsent]

theorem handle_decoded
    {data : Bytes} (h : data ≠ []) :
    (handle N host l data).decoded = some data := by
  rw [handle, if_neg h]
  split <;> rfl

theorem serve_decoded
    (chunks : List Bytes) :
    (serve N host l chunks).decoded = (handle N host l (recvLoop [] chunks).data).decoded := by
  unfold serve
  dsimp only
  split <;> rfl

/-- **When a request is read whole.**  A restart request is decoded as it was sent, passed on for
its token alone and answered exactly when the socket delivers it in full pieces and a last shorter
one, and the callback, where it is called, does not raise. -/
theorem serve_iff
    (hrestart : l.onServiceRestart = some restart)
    (hsent : parse N sent = some (.obj ms))
    (haction : isText (member ms "action") "restart_service".toList = true)
    (d : Delivery sent) :
    ReadWhole host l sent ms (serve N host l d.chunks) ↔
      EndsShort d.chunks ∧
        (HasToken l ms → (restart (serviceOf host l ms) (reasonOf ms)).isSome = true) := by
  have hloop := recvLoop_iff [] d.chunks d.ne_nil d.bounded
  rw [d.whole, List.nil_append] at hloop
  constructor
  · intro h
    have hwaits : (recvLoop [] d.chunks).waiting = true := by
      by_contra hno
      have hans := h.answered
      simp [serve, hno] at hans
    have hdata : (recvLoop [] d.chunks).data = sent := by
      have hdec := h.decoded
      rw [serve_decoded] at hdec
      by_cases hnil : (recvLoop [] d.chunks).data = []
      · rw [hnil] at hdec
        cases hdec
      · rw [handle_decoded hnil] at hdec
        exact Option.some.inj hdec
    have hread : recvLoop [] d.chunks = ⟨sent, true⟩ :=
      Received.ext hdata hwaits
    refine ⟨hloop.mp hread, ?_⟩
    intro htoken
    have hans := h.answered
    rw [serve, hread] at hans
    simp only [if_true, handle_request hsent, respond_of_token haction hrestart htoken] at hans
    simpa using hans
  · rintro ⟨hshort, hreturns⟩
    have hserve : serve N host l d.chunks = handle N host l sent := by
      rw [serve, hloop.mpr hshort]
      rfl
    rw [hserve, handle_request hsent]
    by_cases htoken : HasToken l ms
    · rw [respond_of_token haction hrestart htoken]
      exact ⟨rfl, fun _ => rfl, fun h => absurd htoken h, by simpa using hreturns htoken⟩
    · rw [respond_of_no_token haction htoken]
      exact ⟨rfl, fun h => absurd h htoken, fun _ => rfl, rfl⟩

def sampleListener : Listener Empty where
  serviceName := "agent.service".toList
  onServiceRestart := some fun _ _ => some (some "scheduled".toList)
  token := "t".toList
  listening := true

def sampleHost : Host Empty := ⟨1, fun x => nomatch x⟩

def sampleRequest : List (List Char × Value Empty) :=
  [("action".toList, .text "restart_service"), ("token".toList, .text "t")]

def sampleBytes : Bytes := encodeUtf8 (dumps true noFloats (.obj sampleRequest))

theorem length_sampleBytes : sampleBytes.length = 43 := rfl

/-- The request in one piece. -/
def inOnePiece : Delivery sampleBytes where
  chunks := [sampleBytes]
  ne_nil := by
    have h : sampleBytes ≠ [] := ne_nil_of_parse (parse_dumps true (.obj sampleRequest))
    simpa using h
  bounded := by simp [length_sampleBytes, recvSize]
  whole := by simp

theorem serve_iff_inOnePiece :
    ReadWhole sampleHost sampleListener sampleBytes sampleRequest
      (serve noFloats sampleHost sampleListener inOnePiece.chunks) :=
  (serve_iff rfl (parse_dumps true (.obj sampleRequest)) rfl inOnePiece).mpr
    ⟨(endsShort_cons_short (by rw [length_sampleBytes]; decide)).mpr rfl, fun _ => rfl⟩

/-- The request in two pieces, the first one short. -/
def inTwoPieces : Delivery sampleBytes where
  chunks := [sampleBytes.take 20, sampleBytes.drop 20]
  ne_nil := by
    have hfst : sampleBytes.take 20 ≠ [] := List.ne_nil_of_length_pos (by
      rw [List.length_take, length_sampleBytes]
      decide)
    have hsnd : sampleBytes.drop 20 ≠ [] := List.ne_nil_of_length_pos (by
      rw [List.length_drop, length_sampleBytes]
      decide)
    simp [hfst, hsnd]
  bounded := by simp [length_sampleBytes, recvSize]
  whole := by simp

/-- Of a request in two pieces the first is decoded alone. -/
theorem inTwoPieces_cut :
    ¬ ReadWhole sampleHost sampleListener sampleBytes sampleRequest
      (serve noFloats sampleHost sampleListener inTwoPieces.chunks) := by
  intro h
  have hdec := h.decoded
  have hlen : (sampleBytes.take 20).length = 20 := by
    rw [List.length_take, length_sampleBytes]
    rfl
  have hne : sampleBytes.take 20 ≠ [] := inTwoPieces.ne_nil _ List.mem_cons_self
  have hread : recvLoop [] inTwoPieces.chunks = ⟨sampleBytes.take 20, true⟩ := by
    rw [inTwoPieces, recvLoop, if_neg hne, if_pos (by rw [hlen]; decide), List.nil_append]
  rw [serve_decoded, hread, handle_decoded hne] at hdec
  have := congrArg List.length (Option.some.inj hdec)
  rw [hlen, length_sampleBytes] at this
  cases this

end Requests

end ControlSocket
end Acp
end DiploidAgent
