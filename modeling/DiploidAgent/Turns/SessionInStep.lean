import DiploidAgent.Turns.FreshSession

/-!
# One record for each session

After a turn the active record carries the session that served the turn, and it has a
number of its own exactly when that session is another one than before.  Numbers and ids
go apart where a plugin answers for, or sends the prompt to, another session, and where a
turn that was not to start a session is rehydrated into a new one: that record is made
under the old number (`session_in_step_iff`).
-/

namespace DiploidAgent
namespace Turns
namespace Pipeline

open FollowUp

/-! ### The engine -/

/-- The id of a session that was just created. -/
def FreshId (b : Begun) (id : Option String) : Prop := truthy id = true ∧ id ≠ b.oldId

/-- A recovery in which the engine keeps to its protocol: a resumed session keeps its id,
and a created one has a new id. -/
structure Recovery.Honest (b : Begun) (rec : Recovery) : Prop where
  resume : ∀ id old, rec.resume = .ok id → b.oldId = some old → id = old
  create : ∀ r id, rec.create = .ok r → r.sessionId = some id → FreshId b (some id)
  createAgain : ∀ r id, rec.createAgain = .ok r → r.sessionId = some id → FreshId b (some id)

/-- An engine that keeps to its protocol: the result of a prompt carries the session that
it was sent to, or the one that was created for it. -/
structure Honest (b : Begun) (a : Answers) : Prop where
  resync : ResumesInPlace b a
  sent : ∀ send r s, (firstTry b a).1 = some send → a.prompt = .ok r →
    send.target = some s → r.sessionId = some s
  created : ∀ send r, (firstTry b a).1 = some send → a.prompt = .ok r →
    send.target = none → FreshId b r.sessionId
  onFailure : a.onFailure.Honest b
  onEmpty : a.onEmpty.Honest b

/-! ### The condition -/

/-- The old session answers once more, resumed or found alive. -/
def regains (cfg : Settings) (b : Begun) (rec : Recovery) : Bool :=
  canResumeRecord b.record b.activeSkills &&
    (if cfg.acpResumeEnabled && rec.resume.isOk then rec.resumePrompt.isOk else rec.alive)

/-- What it answers. -/
def regainedReply (cfg : Settings) (rec : Recovery) : Except Failure TurnResult :=
  if cfg.acpResumeEnabled && rec.resume.isOk then rec.resumePrompt else rec.alivePrompt

/-- A turn with an empty result, of session `id`, was to start a session anyway, or gets
the old one back. -/
def EmptyInStep (cfg : Settings) (b : Begun) (a : Answers) (id : Option String) : Prop :=
  b.isNew = true ∨ b.starts = false ∧ id = b.oldId ∧ regains cfg b a.onEmpty = true

/-- The same for a turn whose prompt failed. -/
def FailureInStep (cfg : Settings) (b : Begun) (a : Answers) : Prop :=
  b.isNew = true ∨ b.starts = false ∧ regains cfg b a.onFailure = true ∧
    ∀ r, regainedReply cfg a.onFailure = .ok r → isEmpty r = true →
      regains cfg b a.onEmpty = true

/-- A plugin's answer: it names a session, and another one than before exactly when the
turn was to start one. -/
def AnswerInStep (b : Begun) (given id : Option String) : Prop :=
  truthy id = true ∧ id = given ∧ (id ≠ b.oldId ↔ b.starts = true)

/-- An engine's result: the hook leaves its id, and a prompt that was not to start a
session was sent to the one of the record. -/
def ResultInStep (b : Begun) (ctx : EngineCallContext) (r : TurnResult)
    (id : Option String) : Prop :=
  id = r.sessionId ∧
    (b.starts = true ∨ truthy b.oldId = true ∧ orId ctx.sessionId b.oldId = b.oldId)

/-- The session id of an engine's result. -/
def resultId (b : Begun) (r : TurnResult) : Option String :=
  if b.starts then r.sessionId else followUpId b r

/-- The session of a follow-up prompt could not be brought back before it. -/
def ResyncLost (b : Begun) (a : Answers) (ctx : EngineCallContext) : Prop :=
  b.starts = false ∧ resyncs b ctx = true ∧ a.resync.isOk = false

/-- What the plugins and the engine answer keeps the record in step with the session. -/
def InStep (cfg : Settings) (b : Begun) (a : Answers) : Prop :=
  match a.beforeEngineCall b.callContext with
  | .inl cr =>
      let r := afterAnswer a (resultOf cr)
      let id := orId r.sessionId none
      if isEmpty r then EmptyInStep cfg b a id
      else AnswerInStep b (orId cr.sessionId b.oldId) id
  | .inr ctx =>
      ¬ ResyncLost b a ctx ∧
        match a.prompt with
        | .error _ => FailureInStep cfg b a
        | .ok r =>
            let r' := afterEngine a r
            let id := orId r'.sessionId (resultId b r)
            if isEmpty r' then EmptyInStep cfg b a id
            else ResultInStep b ctx r id

/-! ### Rehydration -/

section Rehydration

variable {cfg : Settings} {b : Begun} {rec : Recovery}

theorem fresh_of_startNewSession
    {answer : Except Failure TurnResult} {r : TurnResult} {id : String}
    (hfresh : ∀ r id, answer = .ok r → r.sessionId = some id → FreshId b (some id))
    (h : startNewSession answer = .ok (r, id)) :
    FreshId b (some id) := by
  unfold startNewSession at h
  cases answer with
  | error f => cases h
  | ok r' =>
      cases hid : r'.sessionId with
      | none => simp [hid] at h
      | some id' =>
          simp only [hid] at h
          cases h
          exact hfresh r id rfl hid

theorem fresh_of_rehydrateAgain
    {r : TurnResult} {id : String} {pctx : PromptContext}
    (hrec : rec.Honest b)
    (h : rehydrateAgain rec = .result r id pctx) :
    FreshId b (some id) := by
  unfold rehydrateAgain at h
  split at h
  · rename_i hstart
    cases h
    exact fresh_of_startNewSession hrec.createAgain hstart
  all_goals cases h

/-- The two attempts at a new session end in a fresh one. -/
theorem fresh_of_rehydrateNew
    {sends : List Send} {r : TurnResult} {id : String} {pctx : PromptContext}
    (hrec : rec.Honest b)
    (h : rehydrateNew rec = (sends, .result r id pctx)) :
    FreshId b (some id) := by
  unfold rehydrateNew at h
  split at h
  · rename_i hstart
    cases h
    exact fresh_of_startNewSession hrec.create hstart
  · cases h
  · cases h
  · split at h
    · exact fresh_of_rehydrateAgain hrec (congrArg Prod.snd h)
    · cases h

/-- How a rehydration can come back: with the old session, where it is allowed to and the
session is there, or with a new one. -/
inductive CameBack (b : Begun) (back : Bool) (reply : Except Failure TurnResult)
    (r : TurnResult) (id : String) : Prop
  | old (hback : back = true) (hid : b.oldId = some id) (hid' : truthy b.oldId = true)
      (hreply : reply = .ok r)
  | new (hback : back = false) (hfresh : FreshId b (some id))

theorem truthy_of_canResume (h : canResumeRecord b.record b.activeSkills = true) :
    truthy b.oldId = true := by
  unfold canResumeRecord at h
  cases hrecord : b.record with
  | none => simp [hrecord] at h
  | some r =>
      simp only [hrecord] at h
      split at h
      · cases h
      · rename_i hid
        simpa [Begun.oldId, hrecord] using hid

/-- The probe and what follows it. -/
theorem cameBack_probe
    {canResume resumed : Bool} {sends : List Send} {r : TurnResult} {id : String}
    {pctx : PromptContext}
    (hrec : rec.Honest b)
    (hcan : canResume = true → canResumeRecord b.record b.activeSkills = true)
    (h : rehydrateProbe cfg b.record canResume resumed rec = (sends, .result r id pctx)) :
    CameBack b (canResume && !resumed && rec.alive) rec.alivePrompt r id := by
  unfold rehydrateProbe at h
  have holdId : b.record.bind (·.sessionId) = b.oldId := rfl
  rw [holdId] at h
  cases hold : b.oldId with
  | none =>
      rw [hold] at h
      have hno : canResume = false := by
        by_contra hyes
        have := truthy_of_canResume (hcan (by simpa using hyes))
        simp [hold, truthy] at this
      exact .new (by simp [hno]) (fresh_of_rehydrateNew hrec h)
  | some old =>
      rw [hold] at h
      dsimp only at h
      split at h
      · rename_i hprobe
        obtain ⟨hcan', hresumed, halive⟩ := hprobe
        cases hreply : rec.alivePrompt with
        | error f => simp [hreply] at h
        | ok r' =>
            simp only [hreply] at h
            cases h
            refine .old (by simpa [hcan', halive] using hresumed) hold ?_ rfl
            exact truthy_of_canResume (hcan hcan')
      · rename_i hprobe
        refine .new ?_ (fresh_of_rehydrateNew hrec h)
        simpa [and_assoc] using hprobe

/-- How `_rehydrate` comes back. -/
theorem cameBack_rehydrate
    {restartFirst allow : Bool} {sends : List Send} {r : TurnResult} {id : String}
    {pctx : PromptContext}
    (hrec : rec.Honest b)
    (h : rehydrate cfg b.record b.activeSkills restartFirst allow rec =
      (sends, .result r id pctx)) :
    CameBack b (allow && regains cfg b rec) (regainedReply cfg rec) r id := by
  unfold rehydrate at h
  split at h
  · cases h
  dsimp only at h
  generalize hcanResume : (allow && canResumeRecord b.record b.activeSkills) = canResume at h
  have hcan : canResume = true → canResumeRecord b.record b.activeSkills = true := by
    intro hyes
    rw [hyes, Bool.and_eq_true] at hcanResume
    exact hcanResume.2
  have hback : (allow && regains cfg b rec) = (canResume &&
      (if cfg.acpResumeEnabled && rec.resume.isOk then rec.resumePrompt.isOk else rec.alive)) := by
    rw [← hcanResume, regains, Bool.and_assoc]
  rw [hback]
  split at h
  · rename_i henabled
    cases hresume : rec.resume with
    | error f =>
        have hprobe : rehydrateProbe cfg b.record canResume false rec =
            (sends, .result r id pctx) := by
          rw [hresume] at h
          cases f <;> first | exact h | cases h
        simpa [regainedReply, hresume, Except.isOk, Except.toBool] using
          cameBack_probe hrec hcan hprobe
    | ok resumed =>
        have hid : b.oldId = some resumed ∧ truthy b.oldId = true := by
          have htruthy := truthy_of_canResume (hcan henabled.2)
          cases hold : b.oldId with
          | none => simp [hold, truthy] at htruthy
          | some old => exact ⟨by rw [hrec.resume resumed old hresume hold], hold ▸ htruthy⟩
        rw [hresume] at h
        dsimp only at h
        cases hreply : rec.resumePrompt with
        | ok r' =>
            rw [hreply] at h
            cases h
            refine .old ?_ hid.1 hid.2 ?_
            · simp [henabled.1, henabled.2, Except.isOk, Except.toBool]
            · simp [regainedReply, henabled.1, hresume, hreply, Except.isOk, Except.toBool]
        | error f =>
            have hprobe : ∃ sends', rehydrateProbe cfg b.record canResume true rec =
                (sends', .result r id pctx) := by
              rw [hreply, show truthy (some resumed) = true from hid.1 ▸ hid.2] at h
              generalize hgen : rehydrateProbe cfg b.record canResume true rec = probed at h
              obtain ⟨sends', ended⟩ := probed
              cases f <;> cases h <;> exact ⟨sends', rfl⟩
            obtain ⟨sends', hprobe⟩ := hprobe
            have hnew := cameBack_probe hrec hcan hprobe
            cases hnew with
            | old hback => simp at hback
            | new _ hfresh =>
                exact .new (by simp [henabled.1, Except.isOk, Except.toBool]) hfresh
  · rename_i henabled
    have hnew := cameBack_probe hrec hcan h
    cases hc : canResume with
    | false =>
        cases hnew with
        | old hback => simp [hc] at hback
        | new _ hfresh => exact .new rfl hfresh
    | true =>
        have hoff : cfg.acpResumeEnabled = false := by simpa [hc] using henabled
        simpa [regainedReply, hoff, hc] using hnew

end Rehydration

/-! ### The outcome of a turn -/

/-- A new number is given to the record of the turn. -/
def numbered (b : Begun) (o : EngineCallOutcome) : Bool :=
  b.isNew || (b.forceNewSession && !o.isNew)

/-- What has to hold of an outcome for its record to be in step. -/
def OutcomeInStep (b : Begun) (o : EngineCallOutcome) : Prop :=
  truthy o.sessionId = true ∧ o.sessionId = o.served ∧
    (numbered b o = true ↔ o.sessionId ≠ b.oldId)

section Outcomes

variable {cfg : Settings} {b : Begun} {a : Answers}

theorem isNew_of_not_starts (h : b.starts = false) :
    b.isNew = false ∧ b.forceNewSession = false := by
  simpa [Begun.starts] using h

/-- The old session came back to a turn that was to follow up on it. -/
theorem inStep_of_old
    {useModel : String} {r : TurnResult} {id : String} {pctx : PromptContext}
    (hstarts : b.starts = false) (hid : b.oldId = some id) (hid' : truthy b.oldId = true) :
    OutcomeInStep b (recovered b useModel r id pctx) := by
  obtain ⟨hnew, hforce⟩ := isNew_of_not_starts hstarts
  have htruthy : truthy (some id) = true := (congrArg truthy hid).symm.trans hid'
  refine ⟨htruthy, rfl, ?_⟩
  simp [numbered, hnew, hforce, recovered, hid]

/-- A new session keeps the record in step only where the turn was to start one. -/
theorem inStep_of_fresh_iff
    {useModel : String} {r : TurnResult} {id : String} {pctx : PromptContext}
    (hfresh : FreshId b (some id)) :
    OutcomeInStep b (recovered b useModel r id pctx) ↔ b.isNew = true := by
  have hisNew : (recovered b useModel r id pctx).isNew = true := by
    simpa [recovered] using hfresh.2
  rw [OutcomeInStep, numbered, hisNew, Bool.not_true, Bool.and_false, Bool.or_false]
  constructor
  · rintro ⟨-, -, h⟩
    exact h.mpr hfresh.2
  · exact fun h => ⟨hfresh.1, rfl, iff_of_true h hfresh.2⟩

/-- An outcome whose result is not empty stands. -/
theorem afterEmpty_of_not_empty
    {sent : Option Send} {recovery : List Send} {o : EngineCallOutcome}
    (h : isEmpty o.result = false) :
    (afterEmpty cfg b a sent recovery o).ended = .outcome o := by
  simp [afterEmpty, h]

/-- After the rehydration of an empty reply. -/
theorem inStep_afterEmpty_iff
    {sent : Option Send} {recovery : List Send} {o o' : EngineCallOutcome}
    (ha : a.onEmpty.Honest b) (hempty : isEmpty o.result = true)
    (h : (afterEmpty cfg b a sent recovery o).ended = .outcome o') :
    OutcomeInStep b o' ↔ EmptyInStep cfg b a o.sessionId := by
  unfold afterEmpty at h
  rw [if_pos hempty] at h
  generalize hre : rehydrate cfg b.record b.activeSkills false
    (!b.starts && o.sessionId = b.oldId) a.onEmpty = rehydrated at h
  obtain ⟨more, ended⟩ := rehydrated
  cases ended with
  | gaveUp errored => cases h
  | raised f => cases h
  | result r id pctx =>
      cases h
      cases cameBack_rehydrate ha hre with
      | old hback hid hid' _ =>
          obtain ⟨⟨hstarts, hsame⟩, hregains⟩ : (b.starts = false ∧ o.sessionId = b.oldId) ∧
              regains cfg b a.onEmpty = true := by simpa using hback
          exact iff_of_true (inStep_of_old hstarts hid hid') (Or.inr ⟨hstarts, hsame, hregains⟩)
      | new hback hfresh =>
          rw [inStep_of_fresh_iff hfresh, EmptyInStep, or_iff_left]
          rintro ⟨hstarts, hsame, hregains⟩
          simp [hstarts, hsame, hregains] at hback

/-- A failure that is not worth a rehydration ends the turn. -/
theorem rehydrates_of_outcome
    {sent : Option Send} {f : Failure} {resyncFailed : Bool} {o : EngineCallOutcome}
    (h : (afterFailure cfg b a sent f resyncFailed).ended = .outcome o) :
    rehydrates f ≠ none := by
  intro hnone
  unfold afterFailure at h
  rw [hnone] at h
  cases f <;> cases h

/-- The old session came back, and may answer with nothing. -/
theorem inStep_afterOld_iff
    {sent : Option Send} {recovery : List Send} {r : TurnResult} {id : String}
    {pctx : PromptContext} {o : EngineCallOutcome}
    (ha : Honest b a) (hstarts : b.starts = false)
    (hregains : regains cfg b a.onFailure = true)
    (hid : b.oldId = some id) (hid' : truthy b.oldId = true)
    (hreply : regainedReply cfg a.onFailure = .ok r)
    (h : (afterEmpty cfg b a sent recovery (recovered b b.useModel r id pctx)).ended =
      .outcome o) :
    OutcomeInStep b o ↔ FailureInStep cfg b a := by
  have hnew := (isNew_of_not_starts hstarts).1
  by_cases hempty : isEmpty r = true
  · rw [inStep_afterEmpty_iff ha.onEmpty hempty h, EmptyInStep, FailureInStep]
    have hall : (∀ r', regainedReply cfg a.onFailure = .ok r' → isEmpty r' = true →
        regains cfg b a.onEmpty = true) ↔ regains cfg b a.onEmpty = true :=
      ⟨fun h => h r hreply hempty, fun h _ _ _ => h⟩
    simp [hall, hnew, hstarts, hregains, recovered, hid]
  · rw [afterEmpty_of_not_empty (show isEmpty (recovered b b.useModel r id pctx).result = false
      from Bool.eq_false_iff.mpr hempty)] at h
    cases h
    refine iff_of_true (inStep_of_old hstarts hid hid') (Or.inr ⟨hstarts, hregains, ?_⟩)
    intro r' hr' hempty'
    rw [hreply] at hr'
    cases hr'
    exact absurd hempty' hempty

/-- From a new session there is no way back to the old one. -/
theorem inStep_afterNew_iff
    {sent : Option Send} {recovery : List Send} {r : TurnResult} {id : String}
    {pctx : PromptContext} {o : EngineCallOutcome}
    (ha : Honest b a) (hfresh : FreshId b (some id))
    (h : (afterEmpty cfg b a sent recovery (recovered b b.useModel r id pctx)).ended =
      .outcome o) :
    OutcomeInStep b o ↔ b.isNew = true := by
  by_cases hempty : isEmpty r = true
  · rw [inStep_afterEmpty_iff ha.onEmpty hempty h, EmptyInStep, or_iff_left]
    rintro ⟨-, hsame, -⟩
    exact hfresh.2 hsame
  · rw [afterEmpty_of_not_empty (show isEmpty (recovered b b.useModel r id pctx).result = false
      from Bool.eq_false_iff.mpr hempty)] at h
    cases h
    exact inStep_of_fresh_iff hfresh

/-- After the rehydration of a failure, or of a session that could not be brought back. -/
theorem inStep_afterFailure_iff
    {sent : Option Send} {f : Failure} {resyncFailed : Bool} {o : EngineCallOutcome}
    (ha : Honest b a)
    (h : (afterFailure cfg b a sent f resyncFailed).ended = .outcome o) :
    OutcomeInStep b o ↔
      if resyncFailed then b.isNew = true else FailureInStep cfg b a := by
  have hworth := rehydrates_of_outcome h
  unfold afterFailure at h
  cases hf : rehydrates f with
  | none => exact absurd hf hworth
  | some restartFirst =>
      rw [hf] at h
      dsimp only at h
      generalize hre : rehydrate cfg b.record b.activeSkills restartFirst
        (!b.starts && !resyncFailed) a.onFailure = rehydrated at h
      obtain ⟨recovery, ended⟩ := rehydrated
      cases ended with
      | gaveUp errored => cases h
      | raised f' => cases h
      | result r id pctx =>
          cases cameBack_rehydrate ha.onFailure hre with
          | old hback hid hid' hreply =>
              obtain ⟨⟨hstarts, hresync⟩, hregains⟩ :
                  (b.starts = false ∧ resyncFailed = false) ∧
                    regains cfg b a.onFailure = true := by simpa using hback
              rw [if_neg (by simp [hresync])]
              exact inStep_afterOld_iff ha hstarts hregains hid hid' hreply h
          | new hback hfresh =>
              rw [inStep_afterNew_iff ha hfresh h]
              cases resyncFailed with
              | true => rfl
              | false =>
                  rw [if_neg (by simp), FailureInStep, or_iff_left]
                  rintro ⟨hstarts, hregains, -⟩
                  simp [hstarts, hregains] at hback

/-- A plugin's answer that stands. -/
theorem inStep_answer_iff {o : EngineCallOutcome} (hnew : o.isNew = b.isNew) :
    OutcomeInStep b o ↔ AnswerInStep b o.served o.sessionId := by
  have hnumbered : numbered b o = b.starts := by
    rw [numbered, hnew, Begun.starts]
    cases b.isNew <;> cases b.forceNewSession <;> rfl
  rw [OutcomeInStep, AnswerInStep, hnumbered, iff_comm (a := b.starts = true)]

/-- An engine's result that stands; `target` is where the prompt was sent. -/
theorem inStep_result_iff
    {ctx : EngineCallContext} {r : TurnResult} {o : EngineCallOutcome} {target : Option String}
    (hnew : o.isNew = b.isNew)
    (hserved : o.served = if target.isSome then target else r.sessionId)
    (htarget : target = if b.starts then none else orId ctx.sessionId b.oldId)
    (hsent : ∀ s, target = some s → r.sessionId = some s)
    (hcreated : target = none → FreshId b r.sessionId) :
    OutcomeInStep b o ↔ ResultInStep b ctx r o.sessionId := by
  have hserved' : o.served = r.sessionId := by
    rw [hserved]
    cases htgt : target with
    | none => rfl
    | some s => exact (hsent s htgt).symm
  rw [inStep_answer_iff hnew, AnswerInStep, ResultInStep, hserved']
  by_cases hstarts : b.starts = true
  · have hfresh := hcreated (by rw [htarget, if_pos hstarts])
    simp only [hstarts, iff_true, true_or, and_true]
    constructor
    · exact fun h => h.2.1
    · exact fun h => ⟨h ▸ hfresh.1, h, h ▸ hfresh.2⟩
  · rw [if_neg hstarts] at htarget
    simp only [hstarts, iff_false, not_not, false_or, Bool.false_eq_true]
    constructor
    · rintro ⟨htruthy, hid, hold⟩
      refine ⟨hid, hold ▸ htruthy, ?_⟩
      cases htgt : target with
      | none => exact absurd (hid ▸ hold) (hcreated htgt).2
      | some s => rw [← htarget, htgt, ← hsent s htgt, ← hid, hold]
    · rintro ⟨hid, htruthy, hsame⟩
      have hold : o.sessionId = b.oldId := by
        rw [hsame] at htarget
        cases htgt : target with
        | none => simp [← htarget, htgt, truthy] at htruthy
        | some s => rw [hid, hsent s htgt, ← htgt, htarget]
      exact ⟨hold ▸ htruthy, hid, hold⟩

theorem callPassed_of_lost
    {ctx : EngineCallContext} (h : ResyncLost b a ctx) :
    ∃ f resyncFailed, callPassed b a ctx = (none, .failed f resyncFailed) ∧
      (rehydrates f ≠ none → resyncFailed = true) := by
  obtain ⟨hstarts, hresyncs, hresync⟩ := h
  rw [callPassed, if_neg (by simp [hstarts]), if_pos hresyncs]
  cases hr : a.resync with
  | ok id => simp [hr, Except.isOk, Except.toBool] at hresync
  | error f => cases f <;> exact ⟨_, _, rfl, by decide⟩

theorem callPassed_of_not_lost
    {ctx : EngineCallContext} (hresume : ResumesInPlace b a) (h : ¬ ResyncLost b a ctx) :
    ∃ send, callPassed b a ctx = askEngine a send (resultId b) ∧
      send.target = if b.starts then none else orId ctx.sessionId b.oldId := by
  unfold callPassed
  split
  · rename_i hstarts
    have hid : resultId b = (·.sessionId) := funext fun r => if_pos hstarts
    exact ⟨_, by rw [hid], rfl⟩
  · rename_i hstarts
    have hid : resultId b = followUpId b := funext fun r => if_neg hstarts
    rw [hid]
    split
    · rename_i hresyncs
      cases hr : a.resync with
      | error f =>
          exact absurd ⟨by simpa using hstarts, hresyncs, by rw [hr]; rfl⟩ h
      | ok resumed =>
          have hsame : some resumed = b.oldId := by
            cases hold : b.oldId with
            | none => simp [resyncs, hold, truthy] at hresyncs
            | some old => rw [hresume resumed old hr hold]
          exact ⟨_, rfl, by rw [hsame, orId_self]⟩
    · exact ⟨_, rfl, rfl⟩

/-- The engine call, when no plugin answered in its place. -/
theorem inStep_passed_iff
    {ctx : EngineCallContext} {o : EngineCallOutcome}
    (ha : Honest b a) (hgate : a.beforeEngineCall b.callContext = .inr ctx)
    (hlost : ¬ ResyncLost b a ctx)
    (h : (callEngine cfg b a).ended = .outcome o) :
    OutcomeInStep b o ↔
      match a.prompt with
      | .error _ => FailureInStep cfg b a
      | .ok r =>
          if isEmpty (afterEngine a r) then
            EmptyInStep cfg b a (orId (afterEngine a r).sessionId (resultId b r))
          else ResultInStep b ctx r (orId (afterEngine a r).sessionId (resultId b r)) := by
  obtain ⟨send, hcall, htarget⟩ := callPassed_of_not_lost ha.resync hlost
  have hfirst : firstTry b a = askEngine a send (resultId b) := by
    rw [firstTry, hgate]
    exact hcall
  rw [callEngine, hfirst, askEngine] at h
  cases hprompt : a.prompt with
  | error f =>
      rw [hprompt] at h
      simpa using inStep_afterFailure_iff ha h
  | ok r =>
      rw [hprompt] at h
      dsimp only at h ⊢
      split
      · rename_i hempty
        exact inStep_afterEmpty_iff ha.onEmpty hempty h
      · rename_i hempty
        rw [afterEmpty_of_not_empty (Bool.eq_false_iff.mpr hempty)] at h
        have hsend : (firstTry b a).1 = some send := by rw [hfirst, sent_askEngine]
        cases h
        exact inStep_result_iff rfl rfl htarget (fun s => ha.sent send r s hsend hprompt)
          (ha.created send r hsend hprompt)

/-- The outcome is in step exactly when what the plugins and the engine answered is. -/
theorem inStep_callEngine_iff
    {o : EngineCallOutcome} (ha : Honest b a) (h : (callEngine cfg b a).ended = .outcome o) :
    OutcomeInStep b o ↔ InStep cfg b a := by
  unfold InStep
  cases hgate : a.beforeEngineCall b.callContext with
  | inl cr =>
      rw [callEngine, firstTry, hgate] at h
      dsimp only at h ⊢
      split
      · rename_i hempty
        exact inStep_afterEmpty_iff ha.onEmpty hempty h
      · rename_i hempty
        rw [afterEmpty_of_not_empty (Bool.eq_false_iff.mpr hempty)] at h
        cases h
        exact inStep_answer_iff rfl
  | inr ctx =>
      by_cases hlost : ResyncLost b a ctx
      · obtain ⟨f, resyncFailed, hcall, hfailed⟩ := callPassed_of_lost hlost
        rw [callEngine, firstTry, hgate] at h
        dsimp only at h
        rw [hcall] at h
        have hresync : resyncFailed = true := hfailed (rehydrates_of_outcome h)
        rw [inStep_afterFailure_iff ha h, if_pos hresync]
        simp [hlost, (isNew_of_not_starts hlost.1).1]
      · rw [inStep_passed_iff ha hgate hlost h]
        exact (and_iff_right hlost).symm

/-- A new session that a rehydration found counts as new. -/
theorem isNew_recovered
    {useModel : String} {r : TurnResult} {id : String} {pctx : PromptContext}
    {back : Bool} {reply : Except Failure TurnResult}
    (hcame : CameBack b back reply r id) (hback : back = false) :
    (recovered b useModel r id pctx).isNew = true := by
  cases hcame with
  | old hback' => rw [hback] at hback'; cases hback'
  | new _ hfresh => simpa [recovered] using hfresh.2

theorem isNew_afterEmpty
    {sent : Option Send} {recovery : List Send} {o o' : EngineCallOutcome}
    (ha : Honest b a) (hstarts : b.starts = true) (ho : o.isNew = true)
    (h : (afterEmpty cfg b a sent recovery o).ended = .outcome o') :
    o'.isNew = true := by
  unfold afterEmpty at h
  split at h
  · generalize hre : rehydrate cfg b.record b.activeSkills false
      (!b.starts && o.sessionId = b.oldId) a.onEmpty = rehydrated at h
    obtain ⟨more, ended⟩ := rehydrated
    cases ended with
    | gaveUp errored => cases h
    | raised f => cases h
    | result r id pctx =>
        cases h
        exact isNew_recovered (cameBack_rehydrate ha.onEmpty hre) (by simp [hstarts])
  · cases h
    exact ho

theorem isNew_afterFailure
    {sent : Option Send} {f : Failure} {resyncFailed : Bool} {o : EngineCallOutcome}
    (ha : Honest b a) (hstarts : b.starts = true)
    (h : (afterFailure cfg b a sent f resyncFailed).ended = .outcome o) :
    o.isNew = true := by
  have hworth := rehydrates_of_outcome h
  unfold afterFailure at h
  cases hf : rehydrates f with
  | none => exact absurd hf hworth
  | some restartFirst =>
      rw [hf] at h
      dsimp only at h
      generalize hre : rehydrate cfg b.record b.activeSkills restartFirst
        (!b.starts && !resyncFailed) a.onFailure = rehydrated at h
      obtain ⟨recovery, ended⟩ := rehydrated
      cases ended with
      | gaveUp errored => cases h
      | raised f' => cases h
      | result r id pctx =>
          exact isNew_afterEmpty ha hstarts
            (isNew_recovered (cameBack_rehydrate ha.onFailure hre) (by simp [hstarts])) h

/-- A turn that was to start a session ends with a new one. -/
theorem isNew_callEngine
    {o : EngineCallOutcome} (ha : Honest b a) (hnew : b.isNew = true)
    (h : (callEngine cfg b a).ended = .outcome o) :
    o.isNew = true := by
  have hstarts : b.starts = true := by rw [Begun.starts, hnew, Bool.true_or]
  unfold callEngine at h
  split at h
  · exact isNew_afterEmpty ha hstarts hnew h
  · exact isNew_afterFailure ha hstarts h

end Outcomes

/-! ### The record after the turn -/

/-- Every record lies under its number, and the next number is above them all. -/
def Numbered (chat : ChatState) : Prop :=
  ∀ n r, chat.sessions.get n = some r → r.sessionNumber = n ∧ n < chat.nextSessionNumber

/-- The records were all updated before now. -/
def Before (chat : ChatState) (now : Int) : Prop :=
  ∀ n r, chat.sessions.get n = some r → r.updatedAt < now

section Records

variable {chat chat' : ChatState} {r : SessionRecord} {now : Int}

theorem get_put (n : Nat) :
    (put chat r).sessions.get n =
      if r.sessionNumber = n then some r else chat.sessions.get n :=
  Dict.get_set ..

theorem get_of_active (h : activeRecord chat = some r) :
    ∃ n, chat.sessions.get n = some r :=
  Dict.exists_get_of_mem_values (List.argmax_mem h)

theorem get_of_active_numbered (hnumbers : Numbered chat) (h : activeRecord chat = some r) :
    chat.sessions.get r.sessionNumber = some r := by
  obtain ⟨n, hget⟩ := get_of_active h
  rw [(hnumbers n r hget).1]
  exact hget

/-- The record that was just updated is the active one. -/
theorem activeRecord_put (hclock : Before chat now) (hnow : r.updatedAt = now) :
    activeRecord (put chat r) = some r := by
  have hval : ∀ x ∈ (put chat r).sessions.values, x = r ∨ x.updatedAt < r.updatedAt := by
    intro x hx
    obtain ⟨n, hget⟩ := Dict.exists_get_of_mem_values hx
    rw [get_put] at hget
    split at hget
    · exact Or.inl (Option.some.inj hget).symm
    · exact Or.inr (hnow ▸ hclock n x hget)
  have hmem : r ∈ (put chat r).sessions.values :=
    Dict.mem_values_of_get (by rw [get_put, if_pos rfl])
  refine List.argmax_eq_some_iff.mpr ⟨hmem, ?_, ?_⟩
  · intro x hx
    rcases hval x hx with rfl | hlt
    · exact le_refl _
    · exact hlt.le
  · intro x hx hle
    rcases hval x hx with rfl | hlt
    · exact le_refl _
    · exact absurd hlt (not_lt.mpr hle)

theorem before_put (hclock : Before chat now) (hr : r.updatedAt < now) :
    Before (put chat r) now := by
  intro n x hget
  rw [get_put] at hget
  split at hget
  · cases hget
    exact hr
  · exact hclock n x hget

theorem before_reserveOn (hclock : Before chat now) :
    Before (reserveOn { chat with nextSessionNumber := chat.nextSessionNumber + 1 }
      (activeRecord chat)).1 now := by
  cases hactive : activeRecord chat with
  | none => exact hclock
  | some r =>
      obtain ⟨n, hget⟩ := get_of_active hactive
      have hclock' : Before
          { chat with nextSessionNumber := chat.nextSessionNumber + 1 } now := hclock
      exact before_put hclock' (hclock n r hget)

end Records

/-- The record of a session after a turn: it names the session that served the turn, and
has a number that no record had before exactly when that is another session. -/
def OneRecord (chat : ChatState) (served : Option String) (chat' : ChatState) : Prop :=
  ∃ r, activeRecord chat' = some r ∧ truthy r.sessionId = true ∧ r.sessionId = served ∧
    (chat.sessions.get r.sessionNumber = none ↔ r.sessionId ≠ activeId chat)

section Turns

variable {cfg : Settings} {path : Path} {inp : TurnInputs} {chat chat' chat'' : ChatState}
  {b : Begun} {a : Answers} {fin : Finish} {o : EngineCallOutcome}

/-- The number under which a finished turn is recorded. -/
def recordNumber (chat : ChatState) (b : Begun) (o : EngineCallOutcome) : Nat :=
  if o.isNew then b.sessionNumber
  else if b.forceNewSession then chat.nextSessionNumber
  else ((b.record.map (·.sessionNumber)).getD 0)

/-- `_finalize_turn` leaves the turn's record as the active one. -/
theorem activeRecord_finalizeTurn
    (hclock : Before chat fin.now) (hrecord : b.record.isSome ∨ recordIsNew b o = true) :
    ∃ r, activeRecord (finalizeTurn chat b o fin) = some r ∧ r.sessionId = o.sessionId ∧
      r.sessionNumber = recordNumber chat b o := by
  unfold finalizeTurn recordNumber
  by_cases hnew : o.isNew = true
  · simp only [recordIsNew, hnew, Bool.true_or, if_true]
    exact ⟨_, activeRecord_put hclock rfl, rfl, rfl⟩
  · by_cases hforce : b.forceNewSession = true
    · simp only [recordIsNew, hnew, hforce, Bool.or_true, if_true, Bool.false_eq_true, if_false]
      exact ⟨_, activeRecord_put hclock rfl, rfl, rfl⟩
    · have hkeeps : recordIsNew b o = false := by simp [recordIsNew, hnew, hforce]
      cases hr : b.record with
      | none => simp [hr, hkeeps] at hrecord
      | some r =>
          simp only [hkeeps, hnew, hforce, if_false, Bool.false_eq_true]
          exact ⟨_, activeRecord_put hclock rfl, rfl, rfl⟩

/-- The number is one that no record had exactly when the turn is given a number. -/
theorem get_recordNumber
    (hbegin : beginTurn cfg path inp chat = some (chat', b))
    (hnumbers : Numbered chat) (hisNew : b.isNew = true → o.isNew = true) :
    chat.sessions.get (recordNumber chat' b o) = none ↔ numbered b o = true := by
  have hnext : chat.sessions.get chat.nextSessionNumber = none := by
    cases hget : chat.sessions.get chat.nextSessionNumber with
    | none => rfl
    | some r => exact absurd (hnumbers _ r hget).2 (lt_irrefl _)
  rcases begins hbegin with hstart | ⟨r, hturn⟩
  · have hnew := hisNew hstart.isNew
    simp [recordNumber, numbered, hnew, hstart.isNew, hstart.number, hnext]
  · obtain ⟨r', hrecord, hnumber, -, hchat⟩ := hturn.record
    have hget := get_of_active_numbered hnumbers hturn.active
    have hnext' : chat'.nextSessionNumber = chat.nextSessionNumber := by rw [hchat]; rfl
    cases hnew : o.isNew <;> cases hforce : b.forceNewSession <;>
      simp [recordNumber, numbered, hnew, hforce, hturn.isNew, hturn.number, hrecord, hnumber,
        hget, hnext, hnext']

/-- The chat that a turn begins with was updated before as well. -/
theorem before_begin
    (hbegin : beginTurn cfg path inp chat = some (chat', b)) (hclock : Before chat fin.now) :
    Before chat' fin.now := by
  rcases begins hbegin with hstart | ⟨r, hturn⟩
  · rw [hstart.chat]
    exact before_reserveOn hclock
  · obtain ⟨r', -, -, htime, hchat⟩ := hturn.record
    obtain ⟨n, hget⟩ := get_of_active hturn.active
    rw [hchat]
    exact before_put hclock (htime ▸ hclock n r hget)

/-- After a turn the active record and the session that served it are in step exactly when
no plugin answered for, or sent the prompt to, another session, and no turn that was to
follow up on a session lost it. -/
theorem session_in_step_iff
    (hbegin : beginTurn cfg path inp chat = some (chat', b))
    (hfin : finished cfg chat' b a fin = some (o, chat''))
    (hnumbers : Numbered chat) (hclock : Before chat fin.now) (ha : Honest b a) :
    OneRecord chat o.served chat'' ↔ InStep cfg b a := by
  obtain ⟨hended, hchat⟩ : (callEngine cfg b a).ended = .outcome o ∧
      finalizeTurn chat' b o fin = chat'' := by
    unfold finished at hfin
    split at hfin
    · rename_i hended
      cases hfin
      exact ⟨hended, rfl⟩
    · cases hfin
    · cases hfin
  have hisNew : b.isNew = true → o.isNew = true := fun h => isNew_callEngine ha h hended
  have hold : activeId chat = b.oldId := by
    rcases begins hbegin with hstart | ⟨r, hturn⟩
    · exact hstart.oldId.symm
    · rw [activeId, hturn.active, hturn.oldId]
      rfl
  have hrecord : b.record.isSome ∨ recordIsNew b o = true := by
    rcases begins hbegin with hstart | ⟨r, hturn⟩
    · exact Or.inr (by rw [recordIsNew, hisNew hstart.isNew, Bool.true_or])
    · obtain ⟨r', hr', -⟩ := hturn.record
      exact Or.inl (by rw [hr']; rfl)
  obtain ⟨r, hactive, hid, hnumber⟩ :=
    activeRecord_finalizeTurn (before_begin hbegin hclock) hrecord
  have hnew := get_recordNumber hbegin hnumbers hisNew
  rw [← inStep_callEngine_iff ha hended, ← hchat, OneRecord, OutcomeInStep, hold]
  constructor
  · rintro ⟨r', hactive', htruthy, hserved, hiff⟩
    rw [hactive] at hactive'
    cases hactive'
    rw [hnumber, hnew, hid] at hiff
    exact ⟨hid ▸ htruthy, hid ▸ hserved, hiff⟩
  · rintro ⟨htruthy, hserved, hiff⟩
    refine ⟨r, hactive, hid ▸ htruthy, hid ▸ hserved, ?_⟩
    rw [hnumber, hnew, hid]
    exact hiff

theorem numbered_put
    {r : SessionRecord} (hnumbers : Numbered chat) (hr : r.sessionNumber < chat.nextSessionNumber) :
    Numbered (put chat r) := by
  intro n x hget
  rw [get_put] at hget
  split at hget
  · rename_i hn
    cases hget
    exact ⟨hn, hn ▸ hr⟩
  · exact hnumbers n x hget

/-- The next number is taken. -/
theorem numbered_take (hnumbers : Numbered chat) :
    Numbered { chat with nextSessionNumber := chat.nextSessionNumber + 1 } :=
  fun n r hget => ⟨(hnumbers n r hget).1, Nat.lt_succ_of_lt (hnumbers n r hget).2⟩

/-- A turn keeps the numbers in order. -/
theorem numbered_begin
    (hbegin : beginTurn cfg path inp chat = some (chat', b)) (hnumbers : Numbered chat) :
    Numbered chat' ∧ b.sessionNumber < chat'.nextSessionNumber ∧
      ∀ r, b.record = some r → r.sessionNumber < chat'.nextSessionNumber := by
  rcases begins hbegin with hstart | ⟨r, hturn⟩
  · have htake := numbered_take hnumbers
    have hrecord : b.record = (activeRecord chat).map reserved := hstart.record
    rw [hstart.chat, hstart.number, hrecord]
    cases hactive : activeRecord chat with
    | none => exact ⟨htake, Nat.lt_succ_self _, fun r h => by cases h⟩
    | some r =>
        have hlt := (hnumbers _ r (get_of_active_numbered hnumbers hactive)).2
        refine ⟨numbered_put htake (Nat.lt_succ_of_lt hlt), Nat.lt_succ_self _, ?_⟩
        intro r' h
        cases h
        exact Nat.lt_succ_of_lt hlt
  · obtain ⟨r', hrecord, hnumber, -, hchat⟩ := hturn.record
    have hlt := (hnumbers _ r (get_of_active_numbered hnumbers hturn.active)).2
    rw [hchat, hturn.number]
    refine ⟨numbered_put hnumbers (hnumber ▸ hlt), hlt, ?_⟩
    intro r'' h
    rw [hrecord] at h
    cases h
    exact hnumber ▸ hlt

theorem numbered_finalizeTurn
    (hnumbers : Numbered chat) (hnumber : b.sessionNumber < chat.nextSessionNumber)
    (hrecord : ∀ r, b.record = some r → r.sessionNumber < chat.nextSessionNumber) :
    Numbered (finalizeTurn chat b o fin) := by
  unfold finalizeTurn
  split
  · split
    · exact numbered_put hnumbers hnumber
    · exact numbered_put (numbered_take hnumbers) (Nat.lt_succ_self _)
  · cases hr : b.record with
    | none => exact hnumbers
    | some r => exact numbered_put hnumbers (hrecord r hr)

/-- The next turn finds the numbers as this one found them. -/
theorem numbered_finished
    (hbegin : beginTurn cfg path inp chat = some (chat', b))
    (hfin : finished cfg chat' b a fin = some (o, chat'')) (hnumbers : Numbered chat) :
    Numbered chat'' := by
  obtain ⟨hchat, hnumber, hrecord⟩ := numbered_begin hbegin hnumbers
  unfold finished at hfin
  split at hfin
  · cases hfin
    exact numbered_finalizeTurn hchat hnumber hrecord
  · cases hfin
  · cases hfin

end Turns

/-! ### Turns of a crowded session -/

/-- A plain engine keeps to its protocol. -/
theorem honest_plain {b : Begun} (hstarts : b.starts = false) (hid : truthy b.oldId = true) :
    Honest b (plain b) := by
  obtain ⟨send', o, htarget, -, hcall⟩ := plain_of_not_starts settings hstarts
  have hsend : ∀ send, (firstTry b (plain b)).1 = some send → send.target = b.oldId := by
    intro send h
    have hsent : (callEngine settings b (plain b)).sent = (firstTry b (plain b)).1 :=
      sent_callEngine
    rw [← hsent, hcall] at h
    cases h
    exact htarget
  have hrec : ∀ first inputs, (noRecovery first inputs).Honest b := fun first inputs =>
    { resume := fun id old h => by cases h
      create := fun r id h => by cases h
      createAgain := fun r id h => by cases h }
  refine ⟨resumesInPlace_plain b, ?_, ?_, hrec _ _, hrec _ _⟩
  · intro send r s h hr htgt
    cases hr
    exact (hsend send h).symm.trans htgt
  · intro send r h hr htgt
    rw [← hsend send h, htgt] at hid
    cases hid

theorem inStep_plain (cfg : Settings) {b : Begun} (hstarts : b.starts = false)
    (hid : truthy b.oldId = true) :
    InStep cfg b (plain b) := by
  have hctx : b.callContext.sessionId = b.oldId := by simp [Begun.callContext, hstarts]
  have hor : ∀ x, orId b.oldId x = b.oldId := fun x => if_pos hid
  change ¬ ResyncLost b (plain b) b.callContext ∧
    ResultInStep b b.callContext (plainResult b) (orId b.oldId (resultId b (plainResult b)))
  rw [hor]
  constructor
  · rintro ⟨-, -, hlost⟩
    cases hlost
  · exact ⟨rfl, Or.inr ⟨hid, by rw [hctx, hor]⟩⟩

/-- The continuation that drops the fresh session at least leaves the record in step. -/
theorem session_in_step_continuation :
    ∃ turn after, beginTurn settings .continuation crowdedInputs crowded = some turn ∧
      finished settings turn.1 turn.2 (plain turn.2) {
        chatId := "chat"
        now := 20 } = some after ∧
      OneRecord crowded after.1.served after.2 := by
  obtain ⟨turn, hturn⟩ := Option.isSome_iff_exists.mp
    (by decide +kernel : (beginTurn settings .continuation crowdedInputs crowded).isSome = true)
  have hfacts : (beginTurn settings .continuation crowdedInputs crowded).map (fun turn =>
      (turn.2.starts, truthy turn.2.oldId)) = some (false, true) := by decide +kernel
  rw [hturn] at hfacts
  obtain ⟨hstarts, hid⟩ : turn.2.starts = false ∧ truthy turn.2.oldId = true := by
    simpa using hfacts
  obtain ⟨send, o, -, -, hcall⟩ := plain_of_not_starts settings hstarts
  have hfinished : finished settings turn.1 turn.2 (plain turn.2) {
      chatId := "chat"
      now := 20 } = some (o, finalizeTurn turn.1 turn.2 o {
        chatId := "chat"
        now := 20 }) := by
    rw [finished, hcall]
  refine ⟨turn, _, hturn, hfinished, ?_⟩
  have hnumbers : Numbered crowded := by
    intro n r hget
    rw [crowded, Dict.get_set] at hget
    split at hget
    · cases hget
      exact ⟨by assumption, by subst_vars; decide⟩
    · cases hget
  have hclock : Before crowded 20 := by
    intro n r hget
    rw [crowded, Dict.get_set] at hget
    split at hget
    · cases hget
      decide
    · cases hget
  exact (session_in_step_iff hturn hfinished hnumbers hclock (honest_plain hstarts hid)).mpr
    (inStep_plain settings hstarts hid)

/-- The session of a follow-up turn is gone, and the turn is answered by a new one. -/
def gone (b : Begun) : Answers :=
  { plain b with
    prompt := .error .stale
    onFailure := { noRecovery b.prompt { formatted := "" } with
      create := .ok {
        reply := "done"
        sessionId := some "s2" } } }

/-- A plugin answers without naming a session. -/
def answered (b : Begun) : Answers :=
  { plain b with
    beforeEngineCall := fun _ => .inl {
      reply := "done" } }

/-- The number and the session id of the active record after a continuation in the crowded
session. -/
def afterContinuation (answers : Begun → Answers) : Option (Nat × Option String) :=
  (beginTurn settings .continuation crowdedInputs crowded).bind fun turn =>
    (finished settings turn.1 turn.2 (answers turn.2) {
      chatId := "chat"
      now := 20 }).bind fun after =>
        (activeRecord after.2).map fun r => (r.sessionNumber, r.sessionId)

/-- The new session is recorded under the number of the old one; after a plugin's answer
the record has no session at all. -/
theorem new_session_under_old_number :
    afterContinuation gone = some (1, some "s2") ∧ afterContinuation answered = some (1, none) := by
  decide +kernel

end Pipeline
end Turns
end DiploidAgent
