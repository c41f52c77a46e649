import Mathlib.Data.List.Infix
import DiploidAgent.Runtime.Metrics

/-!
# The token budget of a conversation

`ModelRouter.resolve` of `engine/router.py`, `resolve_model` of `runtime/prompts.py` and
the gate of `turn/process.py`.  The count that is held against the budget is the number
stamped on the active record, else the total of the chat; the stamped number is a total of
the chat too.  So the sessions before a new one count as well, and a new session that has
had no turn is refused whatever it has used (`budget_law_iff`).

The comparison of a ratio with `warning_threshold` is a floating-point one and is a
parameter, as `str.lower` is.
-/

namespace DiploidAgent
namespace Metrics

section Model

/-- `ConversationBudget`; `warningDue n` says that `n / max_total_tokens` has reached
`warning_threshold` and not 1. -/
structure ConversationBudget where
  enabled : Bool := false
  maxTotalTokens : Int := 100000
  warningDue : Int → Bool

/-- `RoutingConfig`. -/
structure RoutingConfig where
  enabled : Bool := false
  fallbackModel : Option String := none
  lanes : Dict String String := Dict.empty
  laneKeywords : Dict String (List String) := Dict.empty
  budget : ConversationBudget

/-- `ModelRouter`, and `str.lower`. -/
structure ModelRouter where
  defaultModel : String
  routing : RoutingConfig
  lower : String → String

structure ModelRoute where
  model : String
  notice : Option String := none
  budgetExceeded : Bool := false
deriving DecidableEq

/-- Digits, the last one first, in groups of three. -/
def groupDigits : List Char → List Char
  | a :: b :: c :: d :: rest => a :: b :: c :: ',' :: groupDigits (d :: rest)
  | digits => digits

/-- The format `{n:,}`. -/
def grouped (n : Int) : String :=
  (if n < 0 then "-" else "") ++
    String.ofList (groupDigits (Nat.toDigits 10 n.natAbs).reverse).reverse

/-- `_detect_lane`: the first lane with a keyword in the message. -/
def detectLane (router : ModelRouter) (message : String) : Option String :=
  let text := (router.lower message).toList
  (router.routing.laneKeywords.entries.find? fun lane =>
    lane.2.any fun kw => (router.lower kw).toList <:+: text).map Prod.fst

/-- `fallback_model or default_model`. -/
def fallback (router : ModelRouter) : String :=
  match router.routing.fallbackModel with
  | none => router.defaultModel
  | some model => if model = "" then router.defaultModel else model

/-- `ModelRouter.resolve`. -/
def resolve (router : ModelRouter) (message : String) (cumulativeTokens : Int) : ModelRoute :=
  let budget := router.routing.budget
  if !router.routing.enabled then { model := router.defaultModel }
  else if budget.enabled && budget.maxTotalTokens ≤ cumulativeTokens then
    { model := fallback router
      notice := some ("This conversation has reached its token budget (" ++
        grouped cumulativeTokens ++ " / " ++ grouped budget.maxTotalTokens ++
        "). Start a new session with /new to continue.")
      budgetExceeded := true }
  else
    { model := ((detectLane router message).bind router.routing.lanes.get).getD (fallback router)
      notice :=
        if budget.enabled && 0 < cumulativeTokens && budget.warningDue cumulativeTokens then
          some ("Approaching conversation token budget: " ++ grouped cumulativeTokens ++
            " / " ++ grouped budget.maxTotalTokens ++ " (" ++
            grouped (budget.maxTotalTokens - cumulativeTokens) ++ " remaining).")
        else none }

/-- `cumulative_tokens` of `resolve_model`. -/
def conversationTokens (s : State) (chatId : String) (record : Option SessionRecord) : Int :=
  match record.bind SessionRecord.cumulativeMetrics with
  | some cumulative => cumulative .totalTokens
  | none => chatTotals s chatId .totalTokens

/-- `resolve_model`. -/
def resolveModel (router : ModelRouter) (s : State) (chatId message : String)
    (record : Option SessionRecord) : ModelRoute :=
  resolve router message (conversationTokens s chatId record)

/-- The gate of `process`: the route of the message, or the notice of its refusal. -/
def budgetGate (router : ModelRouter) (s : State) (chatId message : String) :
    Except (Option String) ModelRoute :=
  let route := resolveModel router s chatId message (activeRecord s chatId)
  if route.budgetExceeded then .error route.notice else .ok route

end Model

section Claim

/-- The tokens of the turns of a session. -/
def sessionTokens (s : State) (c : String) (n : Nat) : Int :=
  totalOf ((turnsOf c s.turns).filter fun t => t.sessionNumber = n) .totalTokens

/-- The turns of a chat up to the last one of its active session, all of them when that
session has had none. -/
def countedTurns (s : State) (c : String) : List FinishedTurn :=
  ((activeRecord s c).bind fun r => turnsThrough c r.sessionNumber s.turns).getD
    (turnsOf c s.turns)

/-- In a session that `new_session` started, only the turns of the session use up the
budget; and a session that has used it up gets no further message. -/
structure BudgetLaw (router : ModelRouter) (s : State) (c message : String) : Prop where
  refused : ∀ r notice, activeRecord s c = some r → (c, r.sessionNumber) ∈ s.started →
    budgetGate router s c message = .error notice →
    router.routing.budget.maxTotalTokens ≤ sessionTokens s c r.sessionNumber
  accepted : ∀ r route, activeRecord s c = some r →
    budgetGate router s c message = .ok route →
    sessionTokens s c r.sessionNumber < router.routing.budget.maxTotalTokens

/-- Where the counted turns have reached the limit, the turns of a session that
`new_session` started have reached it, and where they have not, those of no active session
have. -/
structure BudgetFits (limit : Int) (s : State) (c : String) : Prop where
  reached : ∀ r, activeRecord s c = some r → (c, r.sessionNumber) ∈ s.started →
    limit ≤ totalOf (countedTurns s c) .totalTokens → limit ≤ sessionTokens s c r.sessionNumber
  below : ∀ r, activeRecord s c = some r → totalOf (countedTurns s c) .totalTokens < limit →
    sessionTokens s c r.sessionNumber < limit

variable {s : State} {c message : String} {router : ModelRouter}

theorem conversationTokens_active
    (h : Sound s) :
    conversationTokens s c (activeRecord s c) = totalOf (countedTurns s c) .totalTokens := by
  rw [conversationTokens, countedTurns]
  cases hactive : activeRecord s c with
  | none => exact congrFun (h.perChat c) _
  | some r =>
      rw [Option.bind_some, Option.bind_some, h.stamped c _ r (record_of_active h hactive)]
      cases turnsThrough c r.sessionNumber s.turns with
      | none => exact congrFun (h.perChat c) _
      | some through => rfl

theorem budgetExceeded_resolve
    (henabled : router.routing.enabled = true)
    (hbudget : router.routing.budget.enabled = true)
    (n : Int) :
    (resolve router message n).budgetExceeded =
      decide (router.routing.budget.maxTotalTokens ≤ n) := by
  unfold resolve
  dsimp only
  rw [henabled, hbudget]
  by_cases hle : router.routing.budget.maxTotalTokens ≤ n
  · simp [hle]
  · simp [hle]

/-- The gate refuses exactly when the count of the router has reached the limit. -/
theorem budgetGate_error_iff
    (h : Sound s)
    (henabled : router.routing.enabled = true)
    (hbudget : router.routing.budget.enabled = true)
    (message : String) :
    (∃ notice, budgetGate router s c message = .error notice) ↔
      router.routing.budget.maxTotalTokens ≤ totalOf (countedTurns s c) .totalTokens := by
  rw [← conversationTokens_active h, budgetGate, resolveModel,
    budgetExceeded_resolve henabled hbudget]
  by_cases hle :
      router.routing.budget.maxTotalTokens ≤ conversationTokens s c (activeRecord s c)
  · simp [hle]
  · simp [hle]

theorem budgetGate_ok_iff
    (h : Sound s)
    (henabled : router.routing.enabled = true)
    (hbudget : router.routing.budget.enabled = true)
    (message : String) :
    (∃ route, budgetGate router s c message = .ok route) ↔
      totalOf (countedTurns s c) .totalTokens < router.routing.budget.maxTotalTokens := by
  rw [← Int.not_le, ← budgetGate_error_iff h henabled hbudget message]
  cases budgetGate router s c message with
  | error notice => simp
  | ok route => simp

/-- At a sound state the budget keeps its law exactly when the counted turns fit. -/
theorem budgetLaw_iff_of_sound
    (h : Sound s)
    (henabled : router.routing.enabled = true)
    (hbudget : router.routing.budget.enabled = true) :
    BudgetLaw router s c message ↔ BudgetFits router.routing.budget.maxTotalTokens s c := by
  have herror := budgetGate_error_iff (c := c) h henabled hbudget message
  have hok := budgetGate_ok_iff (c := c) h henabled hbudget message
  constructor
  · intro hlaw
    refine ⟨fun r hactive hstarted hle => ?_, fun r hactive hlt => ?_⟩
    · obtain ⟨notice, hgate⟩ := herror.mpr hle
      exact hlaw.refused r notice hactive hstarted hgate
    · obtain ⟨route, hgate⟩ := hok.mpr hlt
      exact hlaw.accepted r route hactive hgate
  · intro hfits
    exact ⟨fun r notice hactive hstarted hgate =>
        hfits.reached r hactive hstarted (herror.mp ⟨notice, hgate⟩),
      fun r route hactive hgate => hfits.below r hactive (hok.mp ⟨route, hgate⟩)⟩

theorem sound_foldl
    (h : Sound s)
    (ops : List Operation) :
    Sound (ops.foldl perform s) := by
  induction ops generalizing s with
  | nil => exact h
  | cons op ops ih => exact ih (h.perform op)

/-- In every run and at every message the budget keeps its law exactly when the turns that
the router counts fit the session. -/
theorem budget_law_iff
    (henabled : router.routing.enabled = true)
    (hbudget : router.routing.budget.enabled = true)
    (ops : List Operation)
    (c message : String) :
    BudgetLaw router (ops.foldl perform {}) c message ↔
      BudgetFits router.routing.budget.maxTotalTokens (ops.foldl perform {}) c :=
  budgetLaw_iff_of_sound (sound_foldl sound_initial ops) henabled hbudget

/-- The turns of a session all come before the end of its last one. -/
theorem session_turnsThrough
    (n : Nat)
    (ts : List FinishedTurn) :
    (turnsOf c ts).filter (fun t => t.sessionNumber = n) =
      ((turnsThrough c n ts).getD []).filter fun t => t.sessionNumber = n := by
  induction ts with
  | nil => rfl
  | cons t ts ih =>
      by_cases hc : t.chatId = c
      · by_cases hn : t.sessionNumber = n
        · rw [turnsThrough_cons_self hc hn, Option.getD_some]
        · rw [turnsOf_cons_self hc, turnsThrough_cons_other (fun hin => hn hin.2),
            List.filter_cons_of_neg (by simp [hn]), ih]
      · rw [turnsOf_cons_other hc, turnsThrough_cons_other (fun hin => hc hin.1), ih]

theorem totalOf_filter_le
    (p : FinishedTurn → Bool)
    (ts : List FinishedTurn)
    (h : ∀ t ∈ ts, 0 ≤ t.metrics .totalTokens) :
    totalOf (ts.filter p) .totalTokens ≤ totalOf ts .totalTokens := by
  induction ts with
  | nil => exact le_rfl
  | cons t ts ih =>
      obtain ⟨hhead, hrest⟩ := List.forall_mem_cons.mp h
      have htail := ih hrest
      cases hp : p t with
      | true =>
          rw [List.filter_cons_of_pos hp, totalOf_cons, totalOf_cons, Pi.add_apply, Pi.add_apply]
          omega
      | false =>
          rw [List.filter_cons_of_neg (by simp [hp]), totalOf_cons, Pi.add_apply]
          omega

/-- Where no turn reports a negative count, a session has used no more than is counted. -/
theorem sessionTokens_le_counted
    {r : SessionRecord}
    (hactive : activeRecord s c = some r)
    (h : ∀ t ∈ s.turns, 0 ≤ t.metrics .totalTokens) :
    sessionTokens s c r.sessionNumber ≤ totalOf (countedTurns s c) .totalTokens := by
  rw [sessionTokens, session_turnsThrough, countedTurns, hactive, Option.bind_some]
  cases hthrough : turnsThrough c r.sessionNumber s.turns with
  | none =>
      have hnone := totalOf_filter_le (fun _ => false) (turnsOf c s.turns)
        fun t ht => h t (List.mem_filter.mp ht).1
      rw [List.filter_false] at hnone
      exact hnone
  | some through =>
      exact totalOf_filter_le _ _ fun t ht => h t (mem_of_turnsThrough hthrough t ht)

/-- Routing with a budget of 1000 tokens. -/
def thousand : ModelRouter where
  defaultModel := "default"
  routing := {
    enabled := true
    budget := {
      enabled := true
      maxTotalTokens := 1000
      warningDue := fun n => 800 ≤ n } }
  lower := fun text => text

theorem budget_law_iff_thousand :
    BudgetLaw thousand ([.finishTurn "chat" true (some (Dict.empty.set "totalTokens" 900)) 1,
        .newSession "chat" 2].foldl perform {}) "chat" "hello" ↔
      BudgetFits 1000 ([.finishTurn "chat" true (some (Dict.empty.set "totalTokens" 900)) 1,
        .newSession "chat" 2].foldl perform {}) "chat" :=
  @budget_law_iff thousand rfl rfl _ "chat" "hello"

/-- A conversation uses up its budget, and the session that the notice asks for is
refused as well. -/
theorem new_session_refused :
    budgetGate thousand {} "chat" "hello" = .ok { model := "default" } ∧
      (let s := [.finishTurn "chat" true (some (Dict.empty.set "totalTokens" 1200)) 1,
        .newSession "chat" 2].foldl perform {}
      (activeRecord s "chat").map SessionRecord.sessionNumber = some 2 ∧
        sessionTokens s "chat" 2 = 0 ∧
        budgetGate thousand s "chat" "hello" =
          .error (some ("This conversation has reached its token budget (1,200 / 1,000). " ++
            "Start a new session with /new to continue.")) ∧
        ¬ BudgetLaw thousand s "chat" "hello") := by
  refine ⟨by rfl, by rfl, by decide, by rfl, fun hlaw => ?_⟩
  have hreached := hlaw.refused _ _ rfl (by decide) rfl
  revert hreached
  decide

end Claim

end Metrics
end DiploidAgent
