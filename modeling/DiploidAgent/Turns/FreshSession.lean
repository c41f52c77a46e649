import DiploidAgent.Turns.Pipeline

/-!
# Fresh prompts and fresh sessions

A prompt that asks for a new session is written for a session without history.  `process`
carries the request to the engine call and to the record, for a user's message and for a
wake; the continuation of a dispatch drops it (`fresh_prompt_carried`).
-/

namespace DiploidAgent
namespace Turns
namespace Pipeline

open FollowUp

/-- The plugins let the prompt through to where it was to go. -/
def Passes (a : Answers) : Prop :=
  ∀ ctx, ∃ request, a.beforeEngineCall ctx = .inr {
    request := request
    sessionId := ctx.sessionId }

/-- `resume_session` gives back the id it was given. -/
def ResumesInPlace (b : Begun) (a : Answers) : Prop :=
  ∀ id old, a.resync = .ok id → b.oldId = some old → id = old

/-- Whatever the engine answers, a prompt that asks for a new session creates one, and the
turn gets a new record; one that does not ask goes to the session of the record. -/
structure Carried (cfg : Settings) (chat : ChatState) (b : Begun) : Prop where
  created : b.prompt.forceNewSession = true → ∀ a, Passes a →
    ∃ send, (callEngine cfg b a).sent = some send ∧ send.target = none
  recorded : b.prompt.forceNewSession = true → ∀ a, Passes a → ∀ fin o chat',
    finished cfg chat b a fin = some (o, chat') → recordIsNew b o = true
  kept : b.prompt.forceNewSession = false → ∀ a, Passes a → ResumesInPlace b a →
    ∀ send, (callEngine cfg b a).sent = some send →
      ∃ id, b.oldId = some id ∧ send.target = some id

@[simp] theorem orId_self (a : Option String) : orId a a = a := by
  unfold orId
  split <;> rfl

section Sent

variable {cfg : Settings} {b : Begun} {a : Answers}

/-- The recovery does not change where the turn's own prompt went. -/
theorem sent_callEngine : (callEngine cfg b a).sent = (firstTry b a).1 := by
  unfold callEngine
  split
  · rename_i h
    rw [h]
    unfold afterEmpty
    split <;> rfl
  · rename_i sent f resyncFailed h
    rw [h]
    unfold afterFailure
    split
    · dsimp only
      split
      · unfold afterEmpty
        split <;> rfl
      · rfl
      · rfl
    · rfl

@[simp] theorem sent_askEngine (send : Send) (idOf : TurnResult → Option String) :
    (askEngine a send idOf).1 = some send := by
  unfold askEngine
  cases a.prompt <;> rfl

/-- A turn that crosses a session boundary sends its prompt through session creation. -/
theorem sent_of_starts (hpass : Passes a) (hstarts : b.starts = true) :
    ∃ send, (callEngine cfg b a).sent = some send ∧ send.target = none := by
  obtain ⟨request, hgate⟩ := hpass b.callContext
  refine ⟨{
    target := none
    prompt := request }, ?_, rfl⟩
  simp [sent_callEngine, firstTry, hgate, callPassed, hstarts]

/-- Any other turn sends it to the session of the record. -/
theorem sent_of_not_starts
    (hpass : Passes a) (hresume : ResumesInPlace b a) (hstarts : b.starts = false)
    {send : Send} (hsent : (callEngine cfg b a).sent = some send) :
    send.target = b.oldId := by
  obtain ⟨request, hgate⟩ := hpass b.callContext
  have hctx : b.callContext.sessionId = b.oldId := by simp [Begun.callContext, hstarts]
  rw [sent_callEngine, firstTry, hgate, hctx] at hsent
  dsimp only [callPassed] at hsent
  rw [if_neg (by simp [hstarts])] at hsent
  split at hsent
  · rename_i hdrift
    cases hresync : a.resync with
    | error f =>
        rw [hresync] at hsent
        cases f <;> cases hsent
    | ok resumed =>
        have hsame : some resumed = b.oldId := by
          cases hold : b.oldId with
          | none => simp [resyncs, hold, truthy] at hdrift
          | some old => rw [hresume resumed old hresync hold]
        rw [hresync] at hsent
        dsimp only at hsent
        rw [sent_askEngine, hsame, orId_self, orId_self] at hsent
        exact (congrArg Send.target (Option.some.inj hsent)).symm
  · rw [sent_askEngine, orId_self] at hsent
    exact (congrArg Send.target (Option.some.inj hsent)).symm

end Sent

/-! ### Plain answers -/

/-- A recovery in which nothing works. -/
def noRecovery (first : PromptContext) (inputs : PromptInputs) : Recovery :=
  { resume := .error .stale
    resumePrompt := .error .stale
    alivePrompt := .error .stale
    create := .error .acp
    createAgain := .error .acp
    followUp := inputs
    first := first }

/-- What a plain engine answers. -/
def plainResult (b : Begun) : TurnResult :=
  { reply := "done"
    sessionId := b.oldId }

/-- The engine answers a prompt, and no plugin interferes. -/
def plain (b : Begun) : Answers :=
  { resync := .ok (b.oldId.getD "")
    prompt := .ok (plainResult b)
    onFailure := noRecovery b.prompt { formatted := "" }
    onEmpty := noRecovery b.prompt { formatted := "" } }

theorem passes_plain (b : Begun) : Passes (plain b) := fun ctx => ⟨ctx.request, rfl⟩

theorem resumesInPlace_plain (b : Begun) : ResumesInPlace b (plain b) := by
  intro id old h hold
  simp only [plain, hold, Option.getD_some, Except.ok.injEq] at h
  exact h.symm

/-- A plain follow-up turn sends its prompt to the old session, and keeps its record. -/
theorem plain_of_not_starts (cfg : Settings) {b : Begun} (hstarts : b.starts = false) :
    ∃ send o, send.target = b.oldId ∧ o.isNew = b.isNew ∧
      callEngine cfg b (plain b) = {
        sent := some send
        recovery := []
        ended := .outcome o } := by
  have hask : ∃ send id served, send.target = b.oldId ∧
      firstTry b (plain b) = (some send, .ok (plainResult b) id served) := by
    have hctx : b.callContext.sessionId = b.oldId := by simp [Begun.callContext, hstarts]
    change ∃ send id served, send.target = b.oldId ∧ callPassed b (plain b) b.callContext =
      (some send, .ok (plainResult b) id served)
    rw [callPassed, if_neg (by simp [hstarts]), hctx]
    split
    · rename_i hresync
      have hid : some (b.oldId.getD "") = b.oldId := by
        cases hold : b.oldId with
        | none => simp [resyncs, hold, truthy] at hresync
        | some id => rfl
      refine ⟨{
        target := orId b.oldId (orId (some (b.oldId.getD "")) b.oldId)
        prompt := b.callContext.request }, _, _, ?_, rfl⟩
      rw [hid, orId_self, orId_self]
    · exact ⟨{
        target := orId b.oldId b.oldId
        prompt := b.callContext.request }, _, _, orId_self b.oldId, rfl⟩
  obtain ⟨send, id, served, htarget, hfirst⟩ := hask
  refine ⟨send, {
    result := plainResult b
    sessionId := id
    useModel := b.useModel
    isNew := b.isNew
    served := served }, htarget, rfl, ?_⟩
  rw [callEngine, hfirst]
  rfl

/-! ### The main result -/

/-- The prompt of a follow-up turn goes where it asks to go exactly when the turn is no
continuation of a dispatch that asks for a new session, and a prompt that does not ask
finds a session id on the record. -/
theorem fresh_prompt_carried
    {cfg : Settings} {path : Path} {inp : TurnInputs} {chat chat' : ChatState} {b : Begun}
    (hbegin : beginTurn cfg path inp chat = some (chat', b)) (hfollow : b.isNew = false) :
    Carried cfg chat' b ↔
      (path = .continuation → asksForNewSession cfg inp chat = false) ∧
        (asksForNewSession cfg inp chat = false → (activeId chat).isSome) := by
  rcases begins hbegin with hstart | ⟨r, hturn⟩
  · rw [hstart.isNew] at hfollow
    cases hfollow
  have hstarts : b.starts = (decide (path ≠ .continuation) && asksForNewSession cfg inp chat) := by
    rw [Begun.starts, hturn.isNew, Bool.false_or, hturn.force]
  have hactive : activeId chat = b.oldId := by rw [activeId, hturn.active, hturn.oldId]; rfl
  rw [hactive]
  constructor
  · -- a plain engine shows where the prompt goes
    intro hcarried
    have hplain := plain_of_not_starts cfg (b := b)
    constructor
    · intro hpath
      by_contra hask
      rw [Bool.not_eq_false] at hask
      obtain ⟨send, o, -, hnew, hcall⟩ := hplain (by rw [hstarts, hpath]; rfl)
      have hfin : finished cfg chat' b (plain b) {
          chatId := ""
          now := 0 } = some (o, finalizeTurn chat' b o {
            chatId := ""
            now := 0 }) := by rw [finished, hcall]
      have hrecord := hcarried.recorded (hturn.asks.trans hask) _ (passes_plain b) _ _ _ hfin
      rw [recordIsNew, hnew, hturn.isNew, hturn.force, hpath] at hrecord
      cases hrecord
    · intro hask
      obtain ⟨send, o, htarget, -, hcall⟩ := hplain (by rw [hstarts, hask, Bool.and_false])
      obtain ⟨id, hid, -⟩ := hcarried.kept (hturn.asks.trans hask) _ (passes_plain b)
        (resumesInPlace_plain b) send (by rw [hcall])
      exact Option.isSome_iff_exists.mpr ⟨id, hid⟩
  · rintro ⟨hcontinue, hid⟩
    have hgo : b.prompt.forceNewSession = true → b.starts = true := by
      intro h
      have hask : asksForNewSession cfg inp chat = true := hturn.asks.symm.trans h
      have hpath : path ≠ .continuation := by
        intro hpath
        rw [hcontinue hpath] at hask
        cases hask
      rw [hstarts, hask, decide_eq_true hpath]
      rfl
    refine ⟨fun h a hpass => sent_of_starts hpass (hgo h), ?_, ?_⟩
    · intro h a hpass fin o chat'' hfin
      have hforce : b.forceNewSession = true := by
        simpa [Begun.starts, hturn.isNew] using hgo h
      simp [recordIsNew, hforce]
    · intro h a hpass hresume send hsent
      have hask : asksForNewSession cfg inp chat = false := hturn.asks.symm.trans h
      obtain ⟨id, hsome⟩ := Option.isSome_iff_exists.mp (hid hask)
      have hno : b.starts = false := by rw [hstarts, hask, Bool.and_false]
      exact ⟨id, hsome, (sent_of_not_starts hpass hresume hno hsent).trans hsome⟩

/-! ### A crowded session -/

def settings : Settings :=
  { engineModel := "model"
    engineContextWindow := some 1000
    proactiveSoulTokenBudget := 0
    maxShortTermChars := 0
    identityAnchor := "" }

/-- A session of a window of 1000 tokens whose last turn took 950 of them, and which has
had its handoff turn. -/
def crowdedRecord : SessionRecord :=
  { chatId := "chat"
    sessionNumber := 1
    updatedAt := 10
    turnNumber := 7
    sessionId := some "s1"
    model := ""
    lastStopReason := some "completed"
    enabledSkills := some []
    lastTurnMetrics := some {
      inputTokens := 950
      outputTokens := 20 }
    pressureHandoffDone := true }

def crowded : ChatState :=
  { sessions := Dict.empty.set 1 crowdedRecord
    nextSessionNumber := 2 }

def crowdedInputs : TurnInputs :=
  { currentModel := "model"
    useModel := "model"
    activeSkills := []
    prompt := {
      formatted := "Continue" }
    first := {
      formatted := "Continue"
      soulMode := .normal
      soulNotice := ""
      rehydrationReason := .none
      model := none
      forceNewSession := false
      compact := false } }

/-- A user's message in the crowded session goes to a new one. -/
theorem fresh_prompt_carried_crowded :
    ∃ turn, beginTurn settings .user crowdedInputs crowded = some turn ∧
      turn.2.prompt.forceNewSession = true ∧ Carried settings turn.1 turn.2 := by
  obtain ⟨turn, hturn⟩ := Option.isSome_iff_exists.mp
    (by decide +kernel : (beginTurn settings .user crowdedInputs crowded).isSome = true)
  have hnew : turn.2.isNew = false := by
    have h : (beginTurn settings .user crowdedInputs crowded).map (·.2.isNew) = some false := by
      decide +kernel
    rw [hturn] at h
    exact Option.some.inj h
  have hask : turn.2.prompt.forceNewSession = true := by
    have h : (beginTurn settings .user crowdedInputs crowded).map
        (·.2.prompt.forceNewSession) = some true := by decide +kernel
    rw [hturn] at h
    exact Option.some.inj h
  exact ⟨turn, hturn, hask,
    (fresh_prompt_carried hturn hnew).mpr ⟨by decide, by decide +kernel⟩⟩

/-- The continuation of a dispatch builds the prompt for a new session there too, tells the
model so, sends it to the old session, and makes no record. -/
theorem continuation_drops_fresh :
    (beginTurn settings .continuation crowdedInputs crowded).map (fun turn =>
      (turn.2.prompt.forceNewSession, turn.2.prompt.soulNotice,
        (callEngine settings turn.2 (plain turn.2)).sent.map (·.target),
        (finished settings turn.1 turn.2 (plain turn.2) {
          chatId := "chat"
          now := 20 }).map fun after => after.2.sessions.keys)) =
      some (true, freshNotice, some (some "s1"), some [1]) := by
  decide +kernel

end Pipeline
end Turns
end DiploidAgent
