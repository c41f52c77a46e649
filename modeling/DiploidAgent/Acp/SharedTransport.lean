import Mathlib.Logic.Function.Basic
import DiploidAgent.Acp.McpServers
import DiploidAgent.Lib.Runs

/-!
# The calls of all chats on one transport

One ACP child serves all chats, and a call that asks for another list of MCP servers than the
recorded one restarts it (`_ensure_started_inner` of `acp_client/transport.py`).  Lists are
rendered per chat; `send_message` and `set_session_model` ask for the recorded one.

A generation is closed by a call only after a check that found two different keys, and then
with the prompts of all chats on it.  While all lists have one key no call closes it
(`closed_on_change`).
-/

namespace DiploidAgent
namespace Acp
namespace SharedTransport

open Runs McpServers

/-! ### The model -/

inductive Call where
  | createSession (servers : Option (List McpServer))
  | resumeSession (servers : Option (List McpServer))
  | sendMessage
  | setSessionModel

namespace Call

/-- The list handed to `_ensure_started`. -/
def servers : Call → Option (List McpServer)
  | .createSession servers => servers
  | .resumeSession servers => servers
  | _ => none

/-- The call has a prompt on its way while it runs. -/
def prompts : Call → Bool
  | .createSession _ => true
  | .sendMessage => true
  | _ => false

/-- What the coroutine of the call leaves in `_mcp_servers`. -/
def records (recorded : List McpServer) : Call → List McpServer
  | .resumeSession (some servers) => normalizeMcpServers servers
  | _ => recorded

end Call

/-- Where a call of a chat is: before the lifecycle lock; in `_ensure_started_inner` with its
target, and past a check that found another list recorded or a transport that is down; then
out of it, and with its coroutine on the loop. -/
inductive Pc where
  | idle
  | calling (chat : String) (call : Call)
  | targeted (chat : String) (call : Call) (target : List McpServer)
  | closing (chat : String) (call : Call) (target found : List McpServer)
  | starting (chat : String) (call : Call) (target : List McpServer)
  | started (chat : String) (call : Call)
  | running (chat : String) (call : Call)

/-- A prompt in flight. -/
structure Prompt where
  thread : Nat
  chat : String
deriving DecidableEq

/-- A generation closed by a call: the call with its target, the list that was recorded at
its check, and the chats with a prompt in flight. -/
structure Close where
  chat : String
  call : Call
  target : List McpServer
  found : List McpServer
  victims : List String

/-- `_mcp_servers`, whether the transport is initialized with a live child, its generation,
the holder of `_lifecycle_lock`, the prompts in flight on this generation, the calls, and
the generations that calls have closed. -/
structure State where
  recorded : List McpServer
  up : Bool
  generation : Nat
  lifecycle : Option Nat
  prompts : List Prompt
  pc : Nat → Pc
  closes : List Close

/-- A transport started with some list. -/
def initial (servers : List McpServer) : State :=
  { recorded := normalizeMcpServers servers
    up := true
    generation := 1
    lifecycle := none
    prompts := []
    pc := fun _ => .idle
    closes := [] }

def State.setPc (s : State) (t : Nat) (pc : Pc) : State :=
  { s with pc := Function.update s.pc t pc }

inductive Label where
  | call (t : Nat) (chat : String) (call : Call)
  | enter (t : Nat)
  /-- the check under `_lock`, with what `_is_transport_healthy` says -/
  | check (t : Nat) (healthy : Bool)
  /-- `_check_restart_backoff` raises -/
  | refuse (t : Nat)
  | close (t : Nat)
  | start (t : Nat)
  | failStart (t : Nat)
  /-- `_run`; `posted` tells whether there was a loop to run the coroutine of a transport
  that is down -/
  | launch (t : Nat) (posted : Bool)
  | finish (t : Nat)
  /-- the child dies, or the watchdog or `restart_transport` ends the generation -/
  | crash

/-- The check of `_ensure_started_inner`; an unhealthy transport is reset. -/
def checkAt (s : State) (t : Nat) (healthy : Bool) (chat : String) (call : Call)
    (target : List McpServer) : Option State :=
  if healthy then
    if s.up then
      some (if mcpServersKey target = mcpServersKey s.recorded then
        { s.setPc t (.started chat call) with lifecycle := none }
      else s.setPc t (.closing chat call target s.recorded))
    else none
  else
    some { s.setPc t (.starting chat call target) with
      up := false
      prompts := [] }

/-- The coroutine of a call begins, or fails on a transport that is down. -/
def launchAt (s : State) (t : Nat) (posted : Bool) (chat : String) (call : Call) : State :=
  if s.up then
    { s.setPc t (.running chat call) with
      recorded := call.records s.recorded
      prompts := if call.prompts then s.prompts ++ [⟨t, chat⟩] else s.prompts }
  else
    { s.setPc t .idle with
      recorded := if posted then call.records s.recorded else s.recorded }

def step (s : State) : Label → Option State
  | .call t chat call =>
      match s.pc t with
      | .idle => some (s.setPc t (.calling chat call))
      | _ => none
  | .enter t =>
      match s.pc t with
      | .calling chat call =>
          if s.lifecycle = none then
            let target := normalizeMcpServers (call.servers.getD s.recorded)
            some { s.setPc t (.targeted chat call target) with lifecycle := some t }
          else none
      | _ => none
  | .check t healthy =>
      match s.pc t with
      | .targeted chat call target => checkAt s t healthy chat call target
      | _ => none
  | .refuse t =>
      match s.pc t with
      | .closing .. => some { s.setPc t .idle with lifecycle := none }
      | _ => none
  | .close t =>
      match s.pc t with
      | .closing chat call target found =>
          some { s.setPc t (.targeted chat call target) with
            up := false
            prompts := []
            closes := s.closes ++ [⟨chat, call, target, found, s.prompts.map (·.chat)⟩] }
      | _ => none
  | .start t =>
      match s.pc t with
      | .starting chat call target =>
          some { s.setPc t (.started chat call) with
            recorded := target
            up := true
            generation := s.generation + 1
            lifecycle := none }
      | _ => none
  | .failStart t =>
      match s.pc t with
      | .starting .. => some { s.setPc t .idle with lifecycle := none }
      | _ => none
  | .launch t posted =>
      match s.pc t with
      | .started chat call => some (launchAt s t posted chat call)
      | _ => none
  | .finish t =>
      match s.pc t with
      | .running .. =>
          some { s.setPc t .idle with prompts := s.prompts.filter fun p => p.thread ≠ t }
      | _ => none
  | .crash =>
      some { s with
        up := false
        prompts := [] }

/-! ### What a step does -/

/-- The steps that go through. -/
inductive Moved (s : State) : Label → State → Prop
  | call {t : Nat} {chat : String} {call : Call}
      (hpc : s.pc t = .idle) :
      Moved s (.call t chat call) (s.setPc t (.calling chat call))
  | enter {t : Nat} {chat : String} {call : Call}
      (hpc : s.pc t = .calling chat call) :
      Moved s (.enter t) { s.setPc t
        (.targeted chat call (normalizeMcpServers (call.servers.getD s.recorded))) with
          lifecycle := some t }
  | ready {t : Nat} {chat : String} {call : Call} {target : List McpServer}
      (hpc : s.pc t = .targeted chat call target)
      (hkey : mcpServersKey target = mcpServersKey s.recorded) :
      Moved s (.check t true) { s.setPc t (.started chat call) with lifecycle := none }
  | changed {t : Nat} {chat : String} {call : Call} {target : List McpServer}
      (hpc : s.pc t = .targeted chat call target)
      (hkey : mcpServersKey target ≠ mcpServersKey s.recorded) :
      Moved s (.check t true) (s.setPc t (.closing chat call target s.recorded))
  | reset {t : Nat} {chat : String} {call : Call} {target : List McpServer}
      (hpc : s.pc t = .targeted chat call target) :
      Moved s (.check t false) { s.setPc t (.starting chat call target) with
        up := false
        prompts := [] }
  | refuse {t : Nat} {chat : String} {call : Call} {target found : List McpServer}
      (hpc : s.pc t = .closing chat call target found) :
      Moved s (.refuse t) { s.setPc t .idle with lifecycle := none }
  | close {t : Nat} {chat : String} {call : Call} {target found : List McpServer}
      (hpc : s.pc t = .closing chat call target found) :
      Moved s (.close t) { s.setPc t (.targeted chat call target) with
        up := false
        prompts := []
        closes := s.closes ++ [⟨chat, call, target, found, s.prompts.map (·.chat)⟩] }
  | start {t : Nat} {chat : String} {call : Call} {target : List McpServer}
      (hpc : s.pc t = .starting chat call target) :
      Moved s (.start t) { s.setPc t (.started chat call) with
        recorded := target
        up := true
        generation := s.generation + 1
        lifecycle := none }
  | failStart {t : Nat} {chat : String} {call : Call} {target : List McpServer}
      (hpc : s.pc t = .starting chat call target) :
      Moved s (.failStart t) { s.setPc t .idle with lifecycle := none }
  | launch {t : Nat} {posted : Bool} {chat : String} {call : Call} {pc : Pc}
      {recorded : List McpServer} {prompts : List Prompt}
      (hpc : s.pc t = .started chat call)
      (hnext : pc = .running chat call ∨ pc = .idle)
      (hrecorded : recorded = s.recorded ∨ recorded = call.records s.recorded) :
      Moved s (.launch t posted) { s.setPc t pc with
        recorded := recorded
        prompts := prompts }
  | finish {t : Nat} {chat : String} {call : Call} {prompts : List Prompt}
      (hpc : s.pc t = .running chat call) :
      Moved s (.finish t) { s.setPc t .idle with prompts := prompts }
  | crash :
      Moved s .crash { s with
        up := false
        prompts := [] }

section Steps

variable {s s' : State} {l : Label} {t : Nat} {chat : String} {call : Call}
  {target : List McpServer}

theorem moved_of_check {healthy : Bool}
    (hpc : s.pc t = .targeted chat call target)
    (h : checkAt s t healthy chat call target = some s') :
    Moved s (.check t healthy) s' := by
  unfold checkAt at h
  cases healthy with
  | true =>
      rw [if_pos rfl] at h
      split at h
      · by_cases hkey : mcpServersKey target = mcpServersKey s.recorded
        · rw [if_pos hkey] at h
          cases h
          exact .ready hpc hkey
        · rw [if_neg hkey] at h
          cases h
          exact .changed hpc hkey
      · cases h
  | false =>
      cases h
      exact .reset hpc

theorem moved_of_launch {posted : Bool} (hpc : s.pc t = .started chat call) :
    Moved s (.launch t posted) (launchAt s t posted chat call) := by
  unfold launchAt
  split
  · exact .launch hpc (.inl rfl) (.inr rfl)
  · cases posted with
    | true => exact .launch hpc (.inr rfl) (.inr rfl)
    | false => exact .launch hpc (.inr rfl) (.inl rfl)

theorem moved_of_step (h : step s l = some s') : Moved s l s' := by
  cases l with
  | call t chat call =>
      simp only [step] at h
      split at h
      · cases h
        exact .call (by assumption)
      · cases h
  | enter t =>
      simp only [step] at h
      split at h
      · split at h
        · cases h
          exact .enter (by assumption)
        · cases h
      · cases h
  | check t healthy =>
      simp only [step] at h
      split at h
      · exact moved_of_check (by assumption) h
      · cases h
  | refuse t =>
      simp only [step] at h
      split at h
      · cases h
        exact .refuse (by assumption)
      · cases h
  | close t =>
      simp only [step] at h
      split at h
      · cases h
        exact .close (by assumption)
      · cases h
  | start t =>
      simp only [step] at h
      split at h
      · cases h
        exact .start (by assumption)
      · cases h
  | failStart t =>
      simp only [step] at h
      split at h
      · cases h
        exact .failStart (by assumption)
      · cases h
  | launch t posted =>
      simp only [step] at h
      split at h
      · cases h
        exact moved_of_launch (by assumption)
      · cases h
  | finish t =>
      simp only [step] at h
      split at h
      · cases h
        exact .finish (by assumption)
      · cases h
  | crash =>
      cases h
      exact .crash

end Steps

/-! ### Why a generation is closed -/

/-- The target of a call that was given a list is that list. -/
def Asked (call : Call) (target : List McpServer) : Prop :=
  ∀ servers, call.servers = some servers → target = normalizeMcpServers servers

/-- What is known of a call with a target. -/
def Pc.Asks : Pc → Prop
  | .targeted _ call target => Asked call target
  | .closing _ call target found =>
      Asked call target ∧ mcpServersKey target ≠ mcpServersKey found
  | .starting _ call target => Asked call target
  | _ => True

/-- The call asked for another list than the one it found recorded. -/
def Close.Changed (c : Close) : Prop :=
  Asked c.call c.target ∧ mcpServersKey c.target ≠ mcpServersKey c.found

structure Reasons (s : State) : Prop where
  asks : ∀ t, (s.pc t).Asks
  changed : ∀ c ∈ s.closes, c.Changed

section Pcs

variable {P : Pc → Prop} {pcs : Nat → Pc} {pc : Pc}

/-- What holds of all calls holds after one has moved to a place where it holds. -/
theorem forall_update (t : Nat) (h : ∀ u, P (pcs u)) (hpc : P pc) :
    ∀ u, P (Function.update pcs t pc u) := by
  intro u
  by_cases hu : u = t
  · rw [hu, Function.update_self]
    exact hpc
  · rw [Function.update_of_ne hu]
    exact h u

end Pcs

section Invariants

variable {s s' : State} {l : Label}

theorem asked_getD (call : Call) (recorded : List McpServer) :
    Asked call (normalizeMcpServers (call.servers.getD recorded)) := by
  intro servers h
  rw [h]
  rfl

theorem reasons_initial (servers : List McpServer) : Reasons (initial servers) :=
  { asks := fun _ => trivial
    changed := fun c hc => by cases hc }

theorem reasons_step (h : Reasons s) (hstep : step s l = some s') : Reasons s' := by
  cases moved_of_step hstep with
  | @call t => exact ⟨forall_update t h.asks trivial, h.changed⟩
  | @enter t chat call hpc => exact ⟨forall_update t h.asks (asked_getD call _), h.changed⟩
  | @ready t => exact ⟨forall_update t h.asks trivial, h.changed⟩
  | @changed t chat call target hpc hkey =>
      have hasked := h.asks t
      rw [hpc] at hasked
      exact ⟨forall_update t h.asks ⟨hasked, hkey⟩, h.changed⟩
  | @reset t chat call target hpc =>
      have hasked := h.asks t
      rw [hpc] at hasked
      exact ⟨forall_update t h.asks hasked, h.changed⟩
  | @refuse t => exact ⟨forall_update t h.asks trivial, h.changed⟩
  | @close t chat call target found hpc =>
      have hasked := h.asks t
      rw [hpc] at hasked
      refine ⟨forall_update t h.asks hasked.1, fun c hc => ?_⟩
      rcases List.mem_append.mp hc with hold | hnew
      · exact h.changed c hold
      · rw [List.mem_singleton.mp hnew]
        exact hasked
  | @start t => exact ⟨forall_update t h.asks trivial, h.changed⟩
  | @failStart t => exact ⟨forall_update t h.asks trivial, h.changed⟩
  | @launch t posted chat call pc recorded prompts hpc hnext =>
      refine ⟨forall_update t h.asks ?_, h.changed⟩
      rcases hnext with rfl | rfl <;> trivial
  | @finish t => exact ⟨forall_update t h.asks trivial, h.changed⟩
  | crash => exact ⟨h.asks, h.changed⟩

/-! ### Calls that agree on the list -/

/-- The list that a call is given, if any, has the key. -/
def Call.Agrees (key : List Char) (call : Call) : Prop :=
  ∀ servers, call.servers = some servers → mcpServersKey (normalizeMcpServers servers) = key

/-- Every call that is made agrees. -/
def Agreed (key : List Char) (_ : State) : Label → Prop
  | .call _ _ call => call.Agrees key
  | _ => True

/-- A normalized list with the key. -/
def Has (key : List Char) (servers : List McpServer) : Prop :=
  normalizeMcpServers servers = servers ∧ mcpServersKey servers = key

/-- The call agrees, and no check has found another list. -/
def Pc.Agrees (key : List Char) : Pc → Prop
  | .idle => True
  | .calling _ call => call.Agrees key
  | .targeted _ call target => call.Agrees key ∧ Has key target
  | .closing .. => False
  | .starting _ call target => call.Agrees key ∧ Has key target
  | .started _ call => call.Agrees key
  | .running _ call => call.Agrees key

structure OneList (key : List Char) (s : State) : Prop where
  recorded : Has key s.recorded
  agrees : ∀ t, (s.pc t).Agrees key
  closes : s.closes = []

variable {key : List Char}

theorem has_normalize {servers : List McpServer}
    (h : mcpServersKey (normalizeMcpServers servers) = key) :
    Has key (normalizeMcpServers servers) :=
  ⟨normalize_normalize servers, h⟩

theorem Call.Agrees.target {call : Call} (h : call.Agrees key) (hrecorded : Has key s.recorded) :
    Has key (normalizeMcpServers (call.servers.getD s.recorded)) := by
  cases hservers : call.servers with
  | none =>
      rw [Option.getD_none, hrecorded.1]
      exact hrecorded
  | some servers => exact has_normalize (h servers hservers)

theorem Call.Agrees.records {call : Call} (h : call.Agrees key) (hrecorded : Has key s.recorded) :
    Has key (call.records s.recorded) := by
  cases call with
  | resumeSession servers =>
      cases servers with
      | none => exact hrecorded
      | some servers => exact has_normalize (h servers rfl)
  | _ => exact hrecorded

theorem oneList_initial (servers : List McpServer) :
    OneList (mcpServersKey (normalizeMcpServers servers)) (initial servers) :=
  { recorded := has_normalize rfl
    agrees := fun _ => trivial
    closes := rfl }

theorem oneList_step (h : OneList key s) (hcond : Agreed key s l) (hstep : step s l = some s') :
    OneList key s' := by
  have hat : ∀ {t pc}, s.pc t = pc → pc.Agrees key := by
    intro t pc hpc
    rw [← hpc]
    exact h.agrees t
  cases moved_of_step hstep with
  | @call t chat call => exact ⟨h.recorded, forall_update t h.agrees hcond, h.closes⟩
  | @enter t chat call hpc =>
      have hagrees : call.Agrees key := hat hpc
      have hnext : (Pc.targeted chat call _).Agrees key := ⟨hagrees, hagrees.target h.recorded⟩
      exact ⟨h.recorded, forall_update t h.agrees hnext, h.closes⟩
  | @ready t chat call target hpc =>
      have hnext : (Pc.started chat call).Agrees key := (hat hpc).1
      exact ⟨h.recorded, forall_update t h.agrees hnext, h.closes⟩
  | @changed t chat call target hpc hkey =>
      exact absurd ((hat hpc).2.2.trans h.recorded.2.symm) hkey
  | @reset t chat call target hpc =>
      have hbefore := hat hpc
      have hnext : (Pc.starting chat call target).Agrees key := hbefore
      exact ⟨h.recorded, forall_update t h.agrees hnext, h.closes⟩
  | @refuse t chat call target found hpc => exact (hat hpc).elim
  | @close t chat call target found hpc => exact (hat hpc).elim
  | @start t chat call target hpc =>
      have hnext : (Pc.started chat call).Agrees key := (hat hpc).1
      exact ⟨(hat hpc).2, forall_update t h.agrees hnext, h.closes⟩
  | @failStart t => exact ⟨h.recorded, forall_update t h.agrees trivial, h.closes⟩
  | @launch t posted chat call pc recorded prompts hpc hnext hrecorded =>
      have hagrees : call.Agrees key := hat hpc
      have hpc' : pc.Agrees key := by
        rcases hnext with rfl | rfl
        · exact hagrees
        · trivial
      refine ⟨?_, forall_update t h.agrees hpc', h.closes⟩
      rcases hrecorded with rfl | rfl
      · exact h.recorded
      · exact hagrees.records h.recorded
  | @finish t => exact ⟨h.recorded, forall_update t h.agrees trivial, h.closes⟩
  | crash => exact ⟨h.recorded, h.agrees, h.closes⟩

/-- While all lists have one key, no call closes the generation. -/
theorem closes_eq_nil {servers : List McpServer}
    (h : Reach step (Agreed (mcpServersKey (normalizeMcpServers servers))) (initial servers) s) :
    s.closes = [] :=
  (h.invariant (oneList_initial servers) fun _ _ _ => oneList_step).closes

/-- Every list given to a call is rendered for some chat, with the same servers enabled. -/
def Rendered (cfg : Config) (names : List String) (_ : State) : Label → Prop
  | .call _ _ call => ∀ servers, call.servers = some servers →
      ∃ chatId, servers = enabledServers cfg chatId names
  | _ => True

/-- It is enough that the enabled servers do not mention the chat. -/
theorem closes_eq_nil_of_plain {cfg : Config} {names : List String} {chatId : String}
    (hplain : ∀ server ∈ cfg.servers, enabled names server = true → server.plain = true)
    (h : Reach step (Rendered cfg names) (initial (enabledServers cfg chatId names)) s) :
    s.closes = [] := by
  refine closes_eq_nil (h.mono fun s l hcond => ?_)
  cases l with
  | call t chat call =>
      intro servers hservers
      obtain ⟨chatId', rfl⟩ := hcond servers hservers
      rw [enabledServers_congr cfg chatId' chatId names hplain]
  | _ => trivial

theorem step_close {t : Nat} {chat : String} {call : Call} {target found : List McpServer}
    (hpc : s.pc t = .closing chat call target found) :
    step s (.close t) = some { s.setPc t (.targeted chat call target) with
      up := false
      prompts := []
      closes := s.closes ++ [⟨chat, call, target, found, s.prompts.map (·.chat)⟩] } := by
  simp only [step, hpc]

/-- A call that finds another list closes the generation, with the prompts of all chats. -/
theorem close_of_changed {t : Nat} {chat : String} {call : Call} {target : List McpServer}
    (hpc : s.pc t = .targeted chat call target) (hup : s.up = true)
    (hkey : mcpServersKey target ≠ mcpServersKey s.recorded) :
    ∃ s', run step s [.check t true, .close t] = some s' ∧
      s'.closes = s.closes ++ [⟨chat, call, target, s.recorded, s.prompts.map (·.chat)⟩] := by
  have hcheck : step s (.check t true) =
      some (s.setPc t (.closing chat call target s.recorded)) := by
    simp [step, hpc, checkAt, hup, hkey]
  have hclosing : (s.setPc t (.closing chat call target s.recorded)).pc t =
      .closing chat call target s.recorded := Function.update_self ..
  have hclose := step_close hclosing
  exact ⟨_, run_cons_eq_some.mpr ⟨_, hcheck, run_cons_eq_some.mpr ⟨_, hclose, rfl⟩⟩, rfl⟩

end Invariants

/-! ### The main result -/

/-- A call closes the generation of a healthy transport only when it asks for a list with
another key than the one recorded at its check, and then it may close it with the prompts of
all chats; while all lists have one key no call closes it. -/
theorem closed_on_change (servers : List McpServer) :
    (∀ s, Reach step (fun _ _ => True) (initial servers) s →
      (∀ c ∈ s.closes, c.Changed) ∧
        ∀ t chat call target, s.pc t = .targeted chat call target → s.up = true →
          mcpServersKey target ≠ mcpServersKey s.recorded →
            ∃ s', run step s [.check t true, .close t] = some s' ∧
              s'.closes = s.closes ++
                [⟨chat, call, target, s.recorded, s.prompts.map (·.chat)⟩]) ∧
      ∀ s, Reach step (Agreed (mcpServersKey (normalizeMcpServers servers))) (initial servers) s →
        s.closes = [] := by
  refine ⟨fun s h => ⟨?_, ?_⟩, fun s h => closes_eq_nil h⟩
  · have hreasons : Reasons s :=
      h.invariant (reasons_initial servers) fun _ _ _ hs _ hstep => reasons_step hs hstep
    exact hreasons.changed
  · intro t chat call target hpc hup hkey
    exact close_of_changed hpc hup hkey

/-- One enabled server with the given arguments. -/
def oneServer (args : List String) : Config :=
  { servers := [{
      name := "notes"
      command := "notes-mcp"
      args := args }]
    sessionsRoot := "/srv/sessions"
    harnessUrl := "http://127.0.0.1:8000" }

/-- The list of a chat with that server. -/
def listOf (args : List String) (chatId : String) : List McpServer :=
  enabledServers (oneServer args) chatId ["notes"]

/-- Two chats create a session; the prompt of the first is in flight when the second asks. -/
def twoChats (args : List String) : List Label :=
  [.call 0 "alice" (.createSession (some (listOf args "alice"))), .enter 0, .check 0 true,
    .launch 0 true, .call 1 "bob" (.createSession (some (listOf args "bob"))), .enter 1,
    .check 1 true]

/-- Arguments that are the same for all chats. -/
def urlArgs : List String := ["--url", "\x7bharness_url\x7d"]

/-- Arguments that name the chat. -/
def chatArgs : List String := ["--chat", "\x7bchat_id\x7d"]

def agreesWith (key : List Char) (_ : State) : Label → Bool
  | .call _ _ call =>
      match call.servers with
      | some servers => mcpServersKey (normalizeMcpServers servers) = key
      | none => true
  | _ => true

theorem agreed_of_agreesWith (key : List Char) (s : State) (l : Label)
    (h : agreesWith key s l = true) :
    Agreed key s l := by
  cases l with
  | call t chat call =>
      intro servers hservers
      simp only [agreesWith, hservers] at h
      exact of_decide_eq_true h
  | _ => trivial

/-- The state with the prompts of both chats in flight. -/
def bothPrompts : State :=
  (run step (initial (listOf urlArgs "alice")) (twoChats urlArgs ++ [.launch 1 true])).getD
    (initial (listOf urlArgs "alice"))

theorem reach_bothPrompts :
    Reach step (Agreed (mcpServersKey (normalizeMcpServers (listOf urlArgs "alice"))))
      (initial (listOf urlArgs "alice")) bothPrompts := by
  have hrun : run step (initial (listOf urlArgs "alice")) (twoChats urlArgs ++ [.launch 1 true]) =
      some bothPrompts := run_eq_getD (by decide +kernel)
  refine reach_of_run hrun (guarded_of_checkRun (agreesWith _) (agreed_of_agreesWith _) ?_)
  decide +kernel

theorem closed_on_change_bothPrompts :
    bothPrompts.prompts = [⟨0, "alice"⟩, ⟨1, "bob"⟩] ∧ bothPrompts.closes = [] :=
  ⟨by decide +kernel, (closed_on_change (listOf urlArgs "alice")).2 bothPrompts reach_bothPrompts⟩

/-- With lists that name the chat, the session of the second chat closes the generation under
the prompt of the first. -/
theorem prompt_closed :
    (run step (initial (listOf chatArgs "alice")) (twoChats chatArgs ++ [.close 1])).map
      (fun s => s.closes.map fun c => (c.chat, c.victims)) = some [("bob", ["alice"])] := by
  decide +kernel

end SharedTransport
end Acp
end DiploidAgent
