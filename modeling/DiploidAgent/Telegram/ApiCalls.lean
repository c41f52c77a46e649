import Mathlib.Data.List.Infix
import DiploidAgent.Lib.Dict
import DiploidAgent.Lib.Runs
import DiploidAgent.Lib.Threads

/-!
# Calls of the Telegram Bot API

`_api` and `_throttle_telegram` of `transport/telegram/sender.py`.  Any number of threads are
in calls at once; they share the backoff of each method and the time of the last call of each
chat.  A call is made at most `_max_telegram_retries` times and ends as its answers say; once an
answer asked for a delay, no thread makes that method's call before it is over; and a
throttled call keeps its distance from the calls of its chat answered before
(`calls_throttled`).

Times are ticks of the monotonic clock.
-/

namespace DiploidAgent
namespace Telegram
namespace ApiCalls

open Runs

variable {α : Type}

structure Config where
  maxTelegramRetries : Nat
  maxTelegramBackoff : Nat
  /-- Ticks in a second. -/
  second : Nat

/-- What `_api` reads of the body of an error. -/
structure Body where
  description : List Char := []
  retryAfter : Option Nat := none

/-- How one attempt ends: a JSON body with `ok`, a body without or no JSON, another status, or
no answer. -/
inductive Response (α : Type) where
  | ok (data : α)
  | refused
  | status (code : Nat) (body : Body)
  | requestError

/-- What an answer means: `none` is the synthetic result of an edit that changed nothing. -/
inductive Verdict (α : Type) where
  | returned (data : Option α)
  | raised
  | backoff (delay : Nat)

/-- `2 ** (attempt - 1)` seconds, capped. -/
def exponential (cfg : Config) (attempt : Nat) : Nat :=
  min (2 ^ (attempt - 1) * cfg.second) cfg.maxTelegramBackoff

/-- `"not modified" in description.lower()`. -/
def notModified (body : Body) : Bool :=
  decide ("not modified".toList <:+: body.description.map Char.toLower)

def verdict (cfg : Config) (attempt : Nat) : Response α → Verdict α
  | .ok data => .returned (some data)
  | .refused => .raised
  | .status code body =>
      if code = 429 then
        match body.retryAfter with
        | some retryAfter => .backoff (min (retryAfter * cfg.second) cfg.maxTelegramBackoff)
        | none => .backoff (exponential cfg attempt)
      else if code = 400 && notModified body then .returned none
      else if 500 ≤ code && code < 600 then .backoff (exponential cfg attempt)
      else .raised
  | .requestError => .backoff (exponential cfg attempt)

/-- Where a thread is in `_api`; `finished` is a loop without attempts. -/
inductive Phase (α : Type) where
  | throttling (attempt : Nat)
  | posting (attempt : Nat)
  | returned (data : Option α)
  | raised
  | finished

/-- A request that was sent, and the spacing it was checked against. -/
structure Post where
  time : Nat
  minInterval : Nat

/-- A call with its requests and their answers so far. -/
structure Call (α : Type) where
  method : String
  chatId : Option Int
  throttle : Bool
  phase : Phase α
  posts : List Post
  answers : List (Response α)

structure State (α : Type) where
  clock : Nat
  methodBackoffUntil : Dict String Nat
  chatLastTelegramApiCall : Dict Int Nat
  calls : List (Call α)

def initial (clock : Nat) : State α :=
  { clock := clock, methodBackoffUntil := Dict.empty, chatLastTelegramApiCall := Dict.empty
    calls := [] }

def State.backoffUntil (s : State α) (method : String) : Nat :=
  (s.methodBackoffUntil.get method).getD 0

def State.lastCall (s : State α) (chatId : Int) : Nat :=
  (s.chatLastTelegramApiCall.get chatId).getD 0

/-- The live configuration. -/
structure Live where
  minTelegramInterval : Nat
  minEditMessageInterval : Nat

def minInterval (live : Live) (method : String) : Nat :=
  if method = "editMessageText" ∨ method = "deleteMessage" then live.minEditMessageInterval
  else live.minTelegramInterval

/-- `wait` of `_throttle_telegram`; subtraction stops at zero as `max(…, 0.0)` does. -/
def wait (s : State α) (call : Call α) (interval : Nat) : Nat :=
  let backoff := s.backoffUntil call.method - s.clock
  let chatWait :=
    match call.throttle, call.chatId with
    | true, some chatId => s.lastCall chatId + interval - s.clock
    | _, _ => 0
  max backoff chatWait

def api (cfg : Config) (method : String) (chatId : Option Int) (throttle : Bool) : Call α :=
  { method := method, chatId := chatId, throttle := throttle, posts := [], answers := []
    phase := if cfg.maxTelegramRetries = 0 then .finished else .throttling 1 }

/-- The bookkeeping of an answer: the time of a call that succeeded, the backoff of one that did
not. -/
def record (cfg : Config) (s : State α) (call : Call α) (attempt : Nat) (r : Response α) :
    State α :=
  match r with
  | .ok _ | .refused =>
      match call.chatId with
      | some chatId =>
          { s with chatLastTelegramApiCall := s.chatLastTelegramApiCall.set chatId s.clock }
      | none => s
  | _ =>
      match verdict cfg attempt r with
      | .backoff delay =>
          { s with
            methodBackoffUntil := s.methodBackoffUntil.set call.method
              (max (s.backoffUntil call.method) (s.clock + delay)) }
      | _ => s

/-- Where the answer to an attempt leaves the call. -/
def settle (cfg : Config) (attempt : Nat) (r : Response α) : Phase α :=
  match verdict cfg attempt r with
  | .returned data => .returned data
  | .raised => .raised
  | .backoff _ => if attempt < cfg.maxTelegramRetries then .throttling (attempt + 1) else .raised

inductive Label (α : Type) where
  /-- Time passes. -/
  | tick (clock : Nat)
  | call (method : String) (chatId : Option Int) (throttle : Bool)
  /-- One round of `_throttle_telegram`. -/
  | check (thread : Nat) (live : Live)
  | answer (thread : Nat) (r : Response α)

def check (s : State α) (i : Nat) (live : Live) (call : Call α) : Option (State α) :=
  match call.phase with
  | .throttling attempt =>
      let interval := minInterval live call.method
      -- otherwise the thread sleeps and looks again
      if wait s call interval = 0 then
        some { s with
          calls := s.calls.set i { call with
            phase := .posting attempt
            posts := call.posts ++ [{ time := s.clock, minInterval := interval }] } }
      else some s
  | _ => none

def answer (cfg : Config) (s : State α) (i : Nat) (r : Response α) (call : Call α) :
    Option (State α) :=
  match call.phase with
  | .posting attempt =>
      some { record cfg s call attempt r with
        calls := s.calls.set i { call with
          phase := settle cfg attempt r
          answers := call.answers ++ [r] } }
  | _ => none

def step (cfg : Config) (s : State α) : Label α → Option (State α)
  | .tick clock => if s.clock ≤ clock then some { s with clock := clock } else none
  | .call method chatId throttle =>
      some { s with calls := s.calls ++ [api cfg method chatId throttle] }
  | .check i live => s.calls[i]?.bind (check s i live)
  | .answer i r => s.calls[i]?.bind (answer cfg s i r)

/-- The answer asks for another attempt. -/
def Retried (cfg : Config) (r : Response α) : Prop :=
  ∀ attempt, ∃ delay, verdict cfg attempt r = .backoff delay

/-- A call is where its answers put it. -/
def Lawful (cfg : Config) (call : Call α) : Prop :=
  match call.phase with
  | .throttling attempt =>
      attempt = call.answers.length + 1 ∧ attempt ≤ cfg.maxTelegramRetries ∧
        call.posts.length = call.answers.length ∧ ∀ r ∈ call.answers, Retried cfg r
  | .posting attempt =>
      attempt = call.answers.length + 1 ∧ attempt ≤ cfg.maxTelegramRetries ∧
        call.posts.length = call.answers.length + 1 ∧ ∀ r ∈ call.answers, Retried cfg r
  | .returned data =>
      ∃ earlier r, call.answers = earlier ++ [r] ∧ (∀ r ∈ earlier, Retried cfg r) ∧
        (∀ attempt, verdict cfg attempt r = .returned data) ∧
        call.posts.length = call.answers.length ∧ call.answers.length ≤ cfg.maxTelegramRetries
  | .raised =>
      ∃ earlier r, call.answers = earlier ++ [r] ∧ (∀ r ∈ earlier, Retried cfg r) ∧
        ((∀ attempt, verdict cfg attempt r = .raised) ∨
          (Retried cfg r ∧ call.answers.length = cfg.maxTelegramRetries)) ∧
        call.posts.length = call.answers.length ∧ call.answers.length ≤ cfg.maxTelegramRetries
  | .finished => cfg.maxTelegramRetries = 0 ∧ call.posts = [] ∧ call.answers = []

section Verdicts

variable {cfg : Config} {attempt : Nat} {r : Response α}

theorem verdict_status (cfg : Config) (attempt code : Nat) (body : Body) :
    (verdict cfg attempt (.status code body) : Verdict α) =
      if code = 429 then
        match body.retryAfter with
        | some retryAfter => .backoff (min (retryAfter * cfg.second) cfg.maxTelegramBackoff)
        | none => .backoff (exponential cfg attempt)
      else if code = 400 && notModified body then .returned none
      else if 500 ≤ code && code < 600 then .backoff (exponential cfg attempt)
      else .raised := rfl

/-- What an answer means does not depend on the attempt, but for the delay. -/
theorem verdict_cases (cfg : Config) (r : Response α) :
    (∃ data, ∀ attempt, verdict cfg attempt r = .returned data) ∨
      (∀ attempt, verdict cfg attempt r = .raised) ∨ Retried cfg r := by
  cases r with
  | ok data => exact Or.inl ⟨some data, fun _ => rfl⟩
  | refused => exact Or.inr (Or.inl fun _ => rfl)
  | requestError => exact Or.inr (Or.inr fun attempt => ⟨_, rfl⟩)
  | status code body =>
      simp only [Retried, verdict_status]
      split_ifs
      · right
        right
        intro attempt
        cases body.retryAfter with
        | some retryAfter => exact ⟨_, rfl⟩
        | none => exact ⟨_, rfl⟩
      · exact Or.inl ⟨none, fun _ => rfl⟩
      · exact Or.inr (Or.inr fun attempt => ⟨_, rfl⟩)
      · exact Or.inr (Or.inl fun _ => rfl)

end Verdicts

section Steps

variable {cfg : Config} {s s' t : State α} {i : Nat} {call : Call α}

theorem lawful_api (cfg : Config) (method : String) (chatId : Option Int) (throttle : Bool) :
    Lawful cfg (api cfg method chatId throttle : Call α) := by
  unfold Lawful api
  by_cases hzero : cfg.maxTelegramRetries = 0
  · simp [hzero]
  · simp only [if_neg hzero]
    exact ⟨rfl, Nat.pos_of_ne_zero hzero, rfl, nofun⟩

/-- A call that passed the throttle. -/
theorem lawful_posting
    {attempt : Nat}
    (hlawful : Lawful cfg call)
    (hphase : call.phase = .throttling attempt) (post : Post) :
    Lawful cfg { call with phase := .posting attempt, posts := call.posts ++ [post] } := by
  rw [Lawful, hphase] at hlawful
  obtain ⟨hattempt, hle, hposts, hretried⟩ := hlawful
  exact ⟨hattempt, hle, by simp [hposts], hretried⟩

/-- A call whose attempt was answered. -/
theorem lawful_settle
    {attempt : Nat} (r : Response α)
    (hlawful : Lawful cfg call)
    (hphase : call.phase = .posting attempt) :
    Lawful cfg { call with phase := settle cfg attempt r, answers := call.answers ++ [r] } := by
  rw [Lawful, hphase] at hlawful
  obtain ⟨hattempt, hle, hposts, hretried⟩ := hlawful
  have hlength : (call.answers ++ [r]).length = attempt := by
    rw [List.length_append, List.length_singleton, hattempt]
  have hsent : call.posts.length = (call.answers ++ [r]).length := by
    rw [hposts, List.length_append, List.length_singleton]
  rcases verdict_cases cfg r with ⟨data, hdata⟩ | hraised | hagain
  · have hsettle : settle cfg attempt r = .returned data := by rw [settle, hdata attempt]
    rw [Lawful, hsettle]
    exact ⟨call.answers, r, rfl, hretried, hdata, hsent, hlength ▸ hle⟩
  · have hsettle : settle cfg attempt r = .raised := by rw [settle, hraised attempt]
    rw [Lawful, hsettle]
    exact ⟨call.answers, r, rfl, hretried, Or.inl hraised, hsent, hlength ▸ hle⟩
  · obtain ⟨delay, hdelay⟩ := hagain attempt
    by_cases hmore : attempt < cfg.maxTelegramRetries
    · have hsettle : settle cfg attempt r = .throttling (attempt + 1) := by
        rw [settle, hdelay]
        exact if_pos hmore
      rw [Lawful, hsettle]
      refine ⟨by rw [hlength], hmore, hsent, fun r' hr' => ?_⟩
      rcases List.mem_append.mp hr' with hr' | hr'
      · exact hretried r' hr'
      · obtain rfl := List.mem_singleton.mp hr'
        exact hagain
    · have hsettle : settle cfg attempt r = .raised := by
        rw [settle, hdelay]
        exact if_neg hmore
      rw [Lawful, hsettle]
      refine ⟨call.answers, r, rfl, hretried, Or.inr ⟨hagain, ?_⟩, hsent, hlength ▸ hle⟩
      exact hlength.trans (Nat.le_antisymm hle (Nat.le_of_not_lt hmore))

/-- What every reachable state keeps. -/
structure Inv (cfg : Config) (s : State α) : Prop where
  lawful : ∀ (i : Nat) (call : Call α), s.calls[i]? = some call → Lawful cfg call
  past : ∀ chatId, s.lastCall chatId ≤ s.clock

/-- What a thread asked for. -/
def Call.request (call : Call α) : String × Option Int × Bool :=
  (call.method, call.chatId, call.throttle)

/-- The requests of the thread `i` so far. -/
def State.posts (s : State α) (i : Nat) : List Post :=
  (s.calls[i]?.map Call.posts).getD []

/-- A request made when `s` was already there. -/
structure Spaced (s : State α) (call : Call α) (p : Post) : Prop where
  backoff : s.backoffUntil call.method ≤ p.time
  spacing : call.throttle = true → ∀ chatId, call.chatId = some chatId →
    s.lastCall chatId + p.minInterval ≤ p.time

/-- The state `t` comes after `s`: its clocks are no earlier, and the requests made between are
spaced. -/
structure Later (s t : State α) : Prop where
  backoff : ∀ method, s.backoffUntil method ≤ t.backoffUntil method
  last : ∀ chatId, s.lastCall chatId ≤ t.lastCall chatId
  kept : ∀ (i : Nat) (call : Call α), s.calls[i]? = some call →
    ∃ call', t.calls[i]? = some call' ∧ call'.request = call.request
  posts : ∀ (i : Nat) (call : Call α), t.calls[i]? = some call →
    ∃ more, call.posts = s.posts i ++ more ∧ ∀ p ∈ more, Spaced s call p

theorem Later.refl (s : State α) : Later s s where
  backoff := fun _ => Nat.le_refl _
  last := fun _ => Nat.le_refl _
  kept := fun i call h => ⟨call, h, rfl⟩
  posts := fun i call h => ⟨[], by simp [State.posts, h], nofun⟩

theorem Spaced.of_later
    {p : Post} {call' : Call α}
    (h : Spaced t call p)
    (hbackoff : ∀ method, s.backoffUntil method ≤ t.backoffUntil method)
    (hlast : ∀ chatId, s.lastCall chatId ≤ t.lastCall chatId)
    (hrequest : call'.request = call.request) :
    Spaced s call' p := by
  obtain ⟨hmethod, hrest⟩ := Prod.mk.inj hrequest
  obtain ⟨hchat, hthrottle⟩ := Prod.mk.inj hrest
  constructor
  · rw [hmethod]
    exact Nat.le_trans (hbackoff call.method) h.backoff
  · intro hthrottled chatId hchatId
    rw [hthrottle] at hthrottled
    rw [hchat] at hchatId
    have hspaced := h.spacing hthrottled chatId hchatId
    have hle := hlast chatId
    omega

theorem Later.trans
    {u : State α}
    (h : Later s t) (h' : Later t u) :
    Later s u where
  backoff := fun method => Nat.le_trans (h.backoff method) (h'.backoff method)
  last := fun chatId => Nat.le_trans (h.last chatId) (h'.last chatId)
  kept := by
    intro i call hi
    obtain ⟨call', hi', hrequest⟩ := h.kept i call hi
    obtain ⟨call'', hi'', hrequest'⟩ := h'.kept i call' hi'
    exact ⟨call'', hi'', hrequest'.trans hrequest⟩
  posts := by
    intro i call hi
    obtain ⟨last, hposts, hspaced⟩ := h'.posts i call hi
    have hlast : ∀ p ∈ last, Spaced s call p := fun p hp =>
      (hspaced p hp).of_later h.backoff h.last rfl
    cases hmid : t.calls[i]? with
    | none =>
        have hnone : s.calls[i]? = none := by
          by_contra hsome
          obtain ⟨call', hi'⟩ := Option.ne_none_iff_exists'.mp hsome
          obtain ⟨call'', hi'', _⟩ := h.kept i call' hi'
          rw [hmid] at hi''
          cases hi''
        refine ⟨last, ?_, hlast⟩
        simpa [State.posts, hmid, hnone] using hposts
    | some call' =>
        obtain ⟨more, hmore, hspaced'⟩ := h.posts i call' hmid
        obtain ⟨call'', hi'', hrequest⟩ := h'.kept i call' hmid
        obtain rfl : call = call'' := Option.some.inj (hi.symm.trans hi'')
        refine ⟨more ++ last, ?_, fun p hp => ?_⟩
        · have hmine : t.posts i = call'.posts := by simp [State.posts, hmid]
          rw [hposts, hmine, hmore, List.append_assoc]
        · rcases List.mem_append.mp hp with hp | hp
          · exact (hspaced' p hp).of_later (fun _ => Nat.le_refl _) (fun _ => Nat.le_refl _)
              hrequest
          · exact hlast p hp

theorem backoffUntil_set (s : State α) (method method' : String) (until_ : Nat) :
    ({ s with methodBackoffUntil := s.methodBackoffUntil.set method until_ } :
        State α).backoffUntil method' =
      if method = method' then until_ else s.backoffUntil method' := by
  unfold State.backoffUntil
  rw [Dict.get_set]
  split_ifs <;> rfl

theorem lastCall_set (s : State α) (chatId chatId' : Int) (time : Nat) :
    ({ s with chatLastTelegramApiCall := s.chatLastTelegramApiCall.set chatId time } :
        State α).lastCall chatId' =
      if chatId = chatId' then time else s.lastCall chatId' := by
  unfold State.lastCall
  rw [Dict.get_set]
  split_ifs <;> rfl

theorem record_of_backoff
    {attempt delay : Nat} {r : Response α}
    (h : verdict cfg attempt r = .backoff delay) :
    record cfg s call attempt r =
      { s with
        methodBackoffUntil := s.methodBackoffUntil.set call.method
          (max (s.backoffUntil call.method) (s.clock + delay)) } := by
  cases r with
  | ok data => cases h
  | refused => cases h
  | status code body => simp only [record, h]
  | requestError => simp only [record, h]

/-- What the bookkeeping of an answer changes. -/
theorem record_cases (cfg : Config) (s : State α) (call : Call α) (attempt : Nat)
    (r : Response α) :
    record cfg s call attempt r = s ∨
      (∃ chatId, call.chatId = some chatId ∧ record cfg s call attempt r =
        { s with chatLastTelegramApiCall := s.chatLastTelegramApiCall.set chatId s.clock }) ∨
      ∃ delay, verdict cfg attempt r = .backoff delay ∧ record cfg s call attempt r =
        { s with
          methodBackoffUntil := s.methodBackoffUntil.set call.method
            (max (s.backoffUntil call.method) (s.clock + delay)) } := by
  have hchat (r' : Response α) (hr : r' = .refused ∨ ∃ data, r' = .ok data) :
      record cfg s call attempt r' = s ∨ ∃ chatId, call.chatId = some chatId ∧
        record cfg s call attempt r' =
          { s with chatLastTelegramApiCall := s.chatLastTelegramApiCall.set chatId s.clock } := by
    cases hid : call.chatId with
    | none =>
        left
        rcases hr with rfl | ⟨data, rfl⟩ <;> simp [record, hid]
    | some chatId =>
        right
        refine ⟨chatId, rfl, ?_⟩
        rcases hr with rfl | ⟨data, rfl⟩ <;> simp [record, hid]
  cases r with
  | ok data => exact (hchat _ (Or.inr ⟨data, rfl⟩)).imp_right Or.inl
  | refused => exact (hchat _ (Or.inl rfl)).imp_right Or.inl
  | status code body =>
      cases hv : verdict cfg attempt (.status code body : Response α) with
      | backoff delay => exact Or.inr (Or.inr ⟨delay, rfl, record_of_backoff hv⟩)
      | returned data => exact Or.inl (by simp only [record, hv])
      | raised => exact Or.inl (by simp only [record, hv])
  | requestError =>
      exact Or.inr (Or.inr ⟨exponential cfg attempt, rfl, record_of_backoff rfl⟩)

theorem record_calls (cfg : Config) (s : State α) (call : Call α) (attempt : Nat)
    (r : Response α) :
    (record cfg s call attempt r).calls = s.calls ∧
      (record cfg s call attempt r).clock = s.clock := by
  rcases record_cases cfg s call attempt r with hsame | ⟨chatId, _, hset⟩ | ⟨delay, _, hset⟩
  · rw [hsame]
    exact ⟨rfl, rfl⟩
  · rw [hset]
    exact ⟨rfl, rfl⟩
  · rw [hset]
    exact ⟨rfl, rfl⟩

/-- The bookkeeping never turns a clock back. -/
theorem record_mono
    (hpast : ∀ chatId, s.lastCall chatId ≤ s.clock)
    (attempt : Nat) (r : Response α) :
    (∀ method, s.backoffUntil method ≤ (record cfg s call attempt r).backoffUntil method) ∧
      (∀ chatId, s.lastCall chatId ≤ (record cfg s call attempt r).lastCall chatId) ∧
      ∀ chatId, (record cfg s call attempt r).lastCall chatId ≤ s.clock := by
  rcases record_cases cfg s call attempt r with hsame | ⟨chatId, _, hset⟩ | ⟨delay, _, hset⟩
  · rw [hsame]
    exact ⟨fun _ => Nat.le_refl _, fun _ => Nat.le_refl _, hpast⟩
  · rw [hset]
    refine ⟨fun _ => Nat.le_refl _, fun chatId' => ?_, fun chatId' => ?_⟩
    · rw [lastCall_set]
      split_ifs
      · exact hpast chatId'
      · exact Nat.le_refl _
    · rw [lastCall_set]
      split_ifs
      · exact Nat.le_refl _
      · exact hpast chatId'
  · rw [hset]
    refine ⟨fun method => ?_, fun _ => Nat.le_refl _, hpast⟩
    rw [backoffUntil_set]
    split_ifs with hmethod
    · rw [hmethod]
      exact Nat.le_max_left _ _
    · exact Nat.le_refl _

/-- A request goes out when both waits are over. -/
theorem spaced_of_wait
    {interval : Nat}
    (h : wait s call interval = 0) :
    Spaced s call { time := s.clock, minInterval := interval } := by
  have hboth := Nat.max_eq_zero_iff.mp h
  constructor
  · exact Nat.le_of_sub_eq_zero hboth.1
  · intro hthrottle chatId hchat
    have hchatWait := hboth.2
    rw [hthrottle, hchat] at hchatWait
    exact Nat.le_of_sub_eq_zero hchatWait

theorem inv_initial (clock : Nat) : Inv cfg (initial clock : State α) where
  lawful := by simp [initial]
  past := fun _ => Nat.zero_le _

/-- A step whose thread `i` moves on and whose clocks do not go back. -/
theorem later_set
    {call' : Call α} {more : List Post}
    (hi : s.calls[i]? = some call)
    (hbackoff : ∀ method, s.backoffUntil method ≤ t.backoffUntil method)
    (hlast : ∀ chatId, s.lastCall chatId ≤ t.lastCall chatId)
    (hcalls : t.calls = s.calls.set i call')
    (hrequest : call'.request = call.request)
    (hposts : call'.posts = call.posts ++ more)
    (hmore : ∀ p ∈ more, Spaced s call p) :
    Later s t where
  backoff := hbackoff
  last := hlast
  kept := by
    intro j c hj
    rw [hcalls]
    by_cases hij : i = j
    · subst hij
      obtain rfl : call = c := Option.some.inj (hi.symm.trans hj)
      exact ⟨call', Threads.getElem?_set_of_some hi, hrequest⟩
    · exact ⟨c, by rw [List.getElem?_set_ne hij, hj], rfl⟩
  posts := by
    intro j c hj
    rw [hcalls] at hj
    rcases Threads.of_getElem?_set hj with ⟨rfl, rfl⟩ | ⟨_, hj'⟩
    · refine ⟨more, by simp [State.posts, hi, hposts], fun p hp => ?_⟩
      exact (hmore p hp).of_later (fun _ => Nat.le_refl _) (fun _ => Nat.le_refl _) hrequest
    · exact ⟨[], by simp [State.posts, hj'], nofun⟩

theorem lawful_set
    {call' : Call α}
    (hinv : Inv cfg s)
    (hcalls : t.calls = s.calls.set i call')
    (hlawful : Lawful cfg call')
    (j : Nat) (c : Call α) (hj : t.calls[j]? = some c) :
    Lawful cfg c := by
  rw [hcalls] at hj
  rcases Threads.of_getElem?_set hj with ⟨_, rfl⟩ | ⟨_, hj'⟩
  · exact hlawful
  · exact hinv.lawful j c hj'

/-- One step keeps the invariant and goes on. -/
theorem inv_step
    {a : Label α}
    (hinv : Inv cfg s)
    (h : step cfg s a = some s') :
    Inv cfg s' ∧ Later s s' := by
  cases a with
  | tick clock =>
      rw [step] at h
      split_ifs at h with hclock
      obtain rfl := Option.some.inj h
      exact ⟨⟨hinv.lawful, fun chatId => Nat.le_trans (hinv.past chatId) hclock⟩,
        ⟨fun _ => Nat.le_refl _, fun _ => Nat.le_refl _, (Later.refl s).kept, (Later.refl s).posts⟩⟩
  | call method chatId throttle =>
      obtain rfl := Option.some.inj h
      refine ⟨⟨fun j c hj => ?_, hinv.past⟩, fun _ => Nat.le_refl _, fun _ => Nat.le_refl _,
        fun j c hj => ⟨c, Threads.getElem?_concat_of_some hj, rfl⟩, fun j c hj => ?_⟩
      · rcases Threads.of_getElem?_concat hj with ⟨_, rfl⟩ | ⟨_, hj'⟩
        · exact lawful_api cfg method chatId throttle
        · exact hinv.lawful j c hj'
      · rcases Threads.of_getElem?_concat hj with ⟨rfl, rfl⟩ | ⟨_, hj'⟩
        · exact ⟨[], by simp [State.posts, api], nofun⟩
        · exact ⟨[], by simp [State.posts, hj'], nofun⟩
  | check i live =>
      obtain ⟨call, hi, hcheck⟩ := Option.bind_eq_some_iff.mp h
      unfold check at hcheck
      split at hcheck
      case h_2 => cases hcheck
      case h_1 attempt hphase =>
        dsimp only at hcheck
        split_ifs at hcheck with hwait
        · obtain rfl := Option.some.inj hcheck
          have hlawful := lawful_posting (hinv.lawful i call hi) hphase
          refine ⟨⟨lawful_set hinv rfl (hlawful _), hinv.past⟩,
            later_set hi (fun _ => Nat.le_refl _) (fun _ => Nat.le_refl _) rfl rfl rfl ?_⟩
          intro p hp
          obtain rfl := List.mem_singleton.mp hp
          exact spaced_of_wait hwait
        · obtain rfl := Option.some.inj hcheck
          exact ⟨hinv, Later.refl s⟩
  | answer i r =>
      obtain ⟨call, hi, hanswer⟩ := Option.bind_eq_some_iff.mp h
      unfold answer at hanswer
      split at hanswer
      case h_2 => cases hanswer
      case h_1 attempt hphase =>
        obtain rfl := Option.some.inj hanswer
        obtain ⟨hbackoff, hlast, hpast⟩ :=
          @record_mono α cfg s call hinv.past attempt r
        have hclock := (record_calls cfg s call attempt r).2
        refine ⟨⟨lawful_set hinv rfl (lawful_settle r (hinv.lawful i call hi) hphase), ?_⟩,
          later_set hi hbackoff hlast rfl rfl (List.append_nil _).symm nofun⟩
        intro chatId
        show _ ≤ (record cfg s call attempt r).clock
        rw [hclock]
        exact hpast chatId

end Steps

end ApiCalls
end Telegram
end DiploidAgent
