import DiploidAgent.Lib.Runs
import DiploidAgent.Sessions.Store

/-!
# Turns and session operations

The operations of `turn/process.py`, `turn/dispatch.py`, `turn/pipeline.py` and
`turn/session.py` as far as they move session and turn numbers.  An operation of
a chat is cut where another step can come in between: it takes numbers and
reserves, its engine call runs, it stores the record and hands the turn to
`record_turn`, and it appends the record.  A kill can fall into every gap; what
was reserved and appended in one go is one step, since a kill before the append
leaves nothing of it.

One operation of a chat runs at a time (`_active_turns`, `_session_ops`).  What
the engine, the plugins and the clock decide is in the label.
-/

namespace DiploidAgent
namespace Sessions

/-- Where the operation of a chat stands. -/
inductive Phase where
  | idle
  /-- `process` and `continue_turn`: the engine runs. -/
  | turn (isNew : Bool) (sessionNumber turnNumber : Nat)
  /-- `_start_fresh_session` and `_branch_session`: the engine runs. -/
  | fresh (sessionNumber : Nat)
  /-- `_resume_session` with a prompt: the engine runs. -/
  | resuming (sessionNumber : Nat)
  /-- After `record_turn`, before `append_record`. -/
  | recorded (sessionNumber : Nat)
deriving DecidableEq

/-- The registry, the operations in flight, and what has been done so far: the
session numbers handed out or found in the file, the turns recorded, newest
first, and the sessions whose record has counted a turn that was not reserved
and has not been written since. -/
structure Sys where
  store : Store
  phase : String → Phase := fun _ => .idle
  handedOut : List (String × Nat)
  recorded : List (String × Nat × Nat) := []
  unsaved : List (String × Nat) := []

/-- The steps of a chat. -/
inductive Act where
  | startTurn (isNew : Bool)
  | finishTurn (now : Int) (outcomeNew forceNewSession raised : Bool)
  | startFresh
  | finishFresh (now : Int) (raised : Bool)
  | resumePrompt (sessionNumber : Nat)
  | finishResume (now : Int) (raised : Bool)
  | resumeProbe (sessionNumber : Nat) (now : Int) (raised : Bool)
  | append (prunes : Option Int)
  | fail
  | touch (now : Option Int)
  | prune (now : Int)
  | compact
  | restart (now : Int)

def setPhase (s : Sys) (c : String) (p : Phase) : Sys :=
  { s with phase := Function.update s.phase c p }

/-- `next_session_number`. -/
def allocate (s : Sys) (c : String) : Sys :=
  { s with
    store := takeSessionNumber s.store c
    handedOut := (c, nextSessionNumber s.store c) :: s.handedOut }

/-- `append_record`. -/
def appendOf (s : Sys) (r : SessionRecord) : Sys :=
  { s with
    store := appendRecord s.store r
    unsaved := s.unsaved.filter (· != (r.chatId, r.sessionNumber)) }

/-- `reserve_turn_number` and `append_record`. -/
def reserve (s : Sys) (r : SessionRecord) : Sys :=
  appendOf { s with store := putRecord s.store r.reserveTurnNumber } r.reserveTurnNumber

/-- `consume_turn_number` on a record that is then stored, and `record_turn`
unless something raises before it. -/
def finish (s : Sys) (r : SessionRecord) (now : Int) (raised : Bool) : Sys :=
  let r' := { r.consumeTurnNumber with updatedAt := now }
  let s' := { s with store := putRecord s.store r' }
  if raised then setPhase s' r.chatId .idle
  else
    setPhase { s' with recorded := (r.chatId, r.sessionNumber, r'.turnNumber) :: s.recorded }
      r.chatId (.recorded r.sessionNumber)

/-- `_create_record`. -/
def createRecord (c : String) (n : Nat) (now : Int) : SessionRecord :=
  { chatId := c, sessionNumber := n, updatedAt := now }

/-- `compact_store`. -/
def compactOf (s : Sys) : Sys :=
  { s with store := compactStore s.store, unsaved := [] }

/-- `prune_and_compact`. -/
def pruneOf (cfg : PruneConfig) (now : Int) (s : Sys) (c : String) : Sys :=
  { s with
    store := pruneAndCompact cfg now s.store c
    unsaved := if cfg.enabled then [] else s.unsaved }

/-- A new process: `load_store`, and `prune_all` when pruning is on. -/
def restartOf (cfg : PruneConfig) (now : Int) (s : Sys) : Sys :=
  { s with
    store := pruneAll cfg now (loadStore s.store.file)
    phase := fun _ => .idle }

/-- One step of a chat; a kill and a restart end the operations of all chats. -/
def step (cfg : PruneConfig) (s : Sys) (a : String × Act) : Option Sys :=
  let c := a.1
  match a.2, s.phase c with
  | .startTurn isNew, .idle =>
      match activeRecord s.store c with
      | none =>
          some (setPhase (allocate s c) c (.turn true (nextSessionNumber s.store c) 1))
      | some r =>
          if isNew then
            some (setPhase (reserve (allocate s c) r) c
              (.turn true (nextSessionNumber s.store c) r.reservedTurnNumber))
          else
            some (setPhase (reserve s r) c (.turn false r.sessionNumber r.reservedTurnNumber))
  | .finishTurn now outcomeNew forceNewSession raised, .turn isNew n k =>
      if isNew || outcomeNew then
        some (finish s { createRecord c n now with pendingTurnNumber := some k } now raised)
      else if forceNewSession then
        some (finish (allocate s c)
          { createRecord c (nextSessionNumber s.store c) now with pendingTurnNumber := some k }
          now raised)
      else (record s.store c n).map fun r => finish s r now raised
  | .startFresh, .idle =>
      some (setPhase (allocate s c) c (.fresh (nextSessionNumber s.store c)))
  | .finishFresh now raised, .fresh n => some (finish s (createRecord c n now) now raised)
  | .resumePrompt n, .idle =>
      if (activeRecord s.store c).any fun r => r.sessionNumber == n then none
      else (record s.store c n).map fun r => setPhase (reserve s r) c (.resuming n)
  | .finishResume now raised, .resuming n =>
      (record s.store c n).map fun r => finish s r now raised
  | .resumeProbe n now raised, .idle =>
      if (activeRecord s.store c).any fun r => r.sessionNumber == n then none
      else (record s.store c n).map fun r =>
        finish { s with unsaved := (c, n) :: s.unsaved } r now raised
  | .append prunes, .recorded n =>
      (record s.store c n).map fun r =>
        match prunes with
        | none => setPhase (appendOf s r) c .idle
        | some now => setPhase (pruneOf cfg now (appendOf s r) c) c .idle
  | .fail, p => if p = .idle then none else some (setPhase s c .idle)
  | .touch now, _ =>
      (activeRecord s.store c).map fun r =>
        let r' := { r with updatedAt := now.getD r.updatedAt }
        appendOf { s with store := putRecord s.store r' } r'
  | .prune now, .idle => some (pruneOf cfg now s c)
  | .compact, _ => some (compactOf s)
  | .restart now, _ => some (restartOf cfg now s)
  | _, _ => none

/-- `step` as a relation: one constructor for each way a step goes through. -/
inductive Moves (cfg : PruneConfig) (s : Sys) (c : String) : Act → Sys → Prop
  | startFirst {isNew : Bool}
      (hphase : s.phase c = .idle) (hactive : activeRecord s.store c = none) :
      Moves cfg s c (.startTurn isNew)
        (setPhase (allocate s c) c (.turn true (nextSessionNumber s.store c) 1))
  | startNew {r : SessionRecord}
      (hphase : s.phase c = .idle) (hactive : activeRecord s.store c = some r) :
      Moves cfg s c (.startTurn true)
        (setPhase (reserve (allocate s c) r) c
          (.turn true (nextSessionNumber s.store c) r.reservedTurnNumber))
  | startNext {r : SessionRecord}
      (hphase : s.phase c = .idle) (hactive : activeRecord s.store c = some r) :
      Moves cfg s c (.startTurn false)
        (setPhase (reserve s r) c (.turn false r.sessionNumber r.reservedTurnNumber))
  | finishNew {isNew outcomeNew forceNewSession raised : Bool} {n k : Nat} {now : Int}
      (hphase : s.phase c = .turn isNew n k) :
      Moves cfg s c (.finishTurn now outcomeNew forceNewSession raised)
        (finish s { createRecord c n now with pendingTurnNumber := some k } now raised)
  | finishForced {isNew outcomeNew raised : Bool} {n k : Nat} {now : Int}
      (hphase : s.phase c = .turn isNew n k) :
      Moves cfg s c (.finishTurn now outcomeNew true raised)
        (finish (allocate s c)
          { createRecord c (nextSessionNumber s.store c) now with pendingTurnNumber := some k }
          now raised)
  | finishOld {outcomeNew forceNewSession raised : Bool} {n k : Nat} {now : Int}
      {r : SessionRecord}
      (hphase : s.phase c = .turn false n k) (hrec : record s.store c n = some r) :
      Moves cfg s c (.finishTurn now outcomeNew forceNewSession raised) (finish s r now raised)
  | startFresh
      (hphase : s.phase c = .idle) :
      Moves cfg s c .startFresh
        (setPhase (allocate s c) c (.fresh (nextSessionNumber s.store c)))
  | finishFresh {n : Nat} {now : Int} {raised : Bool}
      (hphase : s.phase c = .fresh n) :
      Moves cfg s c (.finishFresh now raised) (finish s (createRecord c n now) now raised)
  | resumePrompt {n : Nat} {r : SessionRecord}
      (hphase : s.phase c = .idle) (hrec : record s.store c n = some r) :
      Moves cfg s c (.resumePrompt n) (setPhase (reserve s r) c (.resuming n))
  | finishResume {n : Nat} {now : Int} {raised : Bool} {r : SessionRecord}
      (hphase : s.phase c = .resuming n) (hrec : record s.store c n = some r) :
      Moves cfg s c (.finishResume now raised) (finish s r now raised)
  | resumeProbe {n : Nat} {now : Int} {raised : Bool} {r : SessionRecord}
      (hphase : s.phase c = .idle) (hrec : record s.store c n = some r) :
      Moves cfg s c (.resumeProbe n now raised)
        (finish { s with unsaved := (c, n) :: s.unsaved } r now raised)
  | append {n : Nat} {r : SessionRecord}
      (hphase : s.phase c = .recorded n) (hrec : record s.store c n = some r) :
      Moves cfg s c (.append none) (setPhase (appendOf s r) c .idle)
  | appendPrune {n : Nat} {now : Int} {r : SessionRecord}
      (hphase : s.phase c = .recorded n) (hrec : record s.store c n = some r) :
      Moves cfg s c (.append (some now)) (setPhase (pruneOf cfg now (appendOf s r) c) c .idle)
  | fail
      (hphase : s.phase c ≠ .idle) :
      Moves cfg s c .fail (setPhase s c .idle)
  | touch {now : Option Int} {r : SessionRecord}
      (hactive : activeRecord s.store c = some r) :
      Moves cfg s c (.touch now)
        (appendOf { s with store := putRecord s.store { r with updatedAt := now.getD r.updatedAt } }
          { r with updatedAt := now.getD r.updatedAt })
  | prune {now : Int}
      (hphase : s.phase c = .idle) :
      Moves cfg s c (.prune now) (pruneOf cfg now s c)
  | compact :
      Moves cfg s c .compact (compactOf s)
  | restart {now : Int} :
      Moves cfg s c (.restart now) (restartOf cfg now s)

theorem moves_of_step
    {cfg : PruneConfig} {s s' : Sys} {c : String} {a : Act}
    (h : step cfg s (c, a) = some s') :
    Moves cfg s c a s' := by
  unfold step at h
  cases a with
  | startTurn isNew =>
      cases hphase : s.phase c <;> simp only [hphase, reduceCtorEq] at h
      cases hactive : activeRecord s.store c with
      | none =>
          rw [hactive] at h
          obtain rfl := Option.some.inj h
          exact .startFirst hphase hactive
      | some r =>
          rw [hactive] at h
          cases isNew with
          | true =>
              obtain rfl := Option.some.inj h
              exact .startNew hphase hactive
          | false =>
              obtain rfl := Option.some.inj h
              exact .startNext hphase hactive
  | finishTurn now outcomeNew forceNewSession raised =>
      cases hphase : s.phase c with
      | turn isNew n k =>
          simp only [hphase] at h
          split_ifs at h with hnew hforce
          · obtain rfl := Option.some.inj h
            exact .finishNew hphase
          · obtain rfl := Option.some.inj h
            subst hforce
            exact .finishForced hphase
          · obtain ⟨r, hrec, rfl⟩ := Option.map_eq_some_iff.mp h
            have hold : isNew = false := by
              cases isNew
              · rfl
              · exact absurd rfl hnew
            subst hold
            exact .finishOld hphase hrec
      | _ => simp only [hphase, reduceCtorEq] at h
  | startFresh =>
      cases hphase : s.phase c <;> simp only [hphase, reduceCtorEq] at h
      obtain rfl := Option.some.inj h
      exact .startFresh hphase
  | finishFresh now raised =>
      cases hphase : s.phase c <;> simp only [hphase, reduceCtorEq] at h
      obtain rfl := Option.some.inj h
      exact .finishFresh hphase
  | resumePrompt n =>
      cases hphase : s.phase c <;> simp only [hphase, reduceCtorEq] at h
      split_ifs at h
      obtain ⟨r, hrec, rfl⟩ := Option.map_eq_some_iff.mp h
      exact .resumePrompt hphase hrec
  | finishResume now raised =>
      cases hphase : s.phase c <;> simp only [hphase, reduceCtorEq] at h
      obtain ⟨r, hrec, rfl⟩ := Option.map_eq_some_iff.mp h
      exact .finishResume hphase hrec
  | resumeProbe n now raised =>
      cases hphase : s.phase c <;> simp only [hphase, reduceCtorEq] at h
      split_ifs at h
      obtain ⟨r, hrec, rfl⟩ := Option.map_eq_some_iff.mp h
      exact .resumeProbe hphase hrec
  | append prunes =>
      cases hphase : s.phase c <;> simp only [hphase, reduceCtorEq] at h
      obtain ⟨r, hrec, rfl⟩ := Option.map_eq_some_iff.mp h
      cases prunes with
      | none => exact .append hphase hrec
      | some now => exact .appendPrune hphase hrec
  | fail =>
      by_cases hphase : s.phase c = .idle
      · simp [hphase] at h
      · have hrun : some (setPhase s c .idle) = some s' := by
          cases hp : s.phase c <;> simp_all
        obtain rfl := Option.some.inj hrun
        exact .fail hphase
  | touch now =>
      obtain ⟨r, hactive, rfl⟩ := Option.map_eq_some_iff.mp h
      exact .touch hactive
  | prune now =>
      cases hphase : s.phase c <;> simp only [hphase, reduceCtorEq] at h
      obtain rfl := Option.some.inj h
      exact .prune hphase
  | compact =>
      obtain rfl := Option.some.inj h
      exact .compact
  | restart now =>
      obtain rfl := Option.some.inj h
      exact .restart

/-- The first process on a registry file. -/
def started (cfg : PruneConfig) (now : Int) (file : List (Option SessionRecord)) : Sys :=
  { store := pruneAll cfg now (loadStore file)
    handedOut := file.reduceOption.map fun r => (r.chatId, r.sessionNumber) }

end Sessions
end DiploidAgent
