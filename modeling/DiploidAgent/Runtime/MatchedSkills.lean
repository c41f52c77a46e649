import DiploidAgent.Runtime.LastToggle

/-!
# Matched skills

What a message matches is kept for the turn in a map of its own, but the end of the turn
stamps all active names on the record, which later turns read as what the commands
enabled.  A finished turn whose message matched a skill that is not enabled leaves it
enabled; and a new record forgets the disabled names, so what a later message matches
depends on the turns before.  Where no finished turn does the first and no message finds
the second, a turn has the enabled skills and those of its own message
(`matched_once`).
-/

namespace DiploidAgent
namespace McpSkills

open Runs

/-- The skills that commands and defaults enable. -/
def persistent (cfg : Settings) : List Command → Names
  | [] => defaultActiveSkills cfg
  | c :: earlier =>
      if c.kind = .skill then c.toggle (persistent cfg earlier) else persistent cfg earlier

/-- The skills that a message matches among those that the commands did not disable. -/
def ownMatches (cfg : Settings) (commands : List Command) (listed : List Skill)
    (message : String) : Names :=
  matchSkills cfg listed message
    ((allNames listed).filter fun name => latest commands .skill name ≠ some false)

/-- The skills of a turn are those that commands and defaults enable and those that its
own message matches. -/
def MatchedOnce (cfg : Settings) (t : Seen) : Prop :=
  t.active .skill = persistent cfg t.commands ∪ ownMatches cfg t.commands t.listed t.message

instance (cfg : Settings) (t : Seen) : Decidable (MatchedOnce cfg t) :=
  inferInstanceAs (Decidable (t.active .skill =
    persistent cfg t.commands ∪ ownMatches cfg t.commands t.listed t.message))

/-- The condition: commands are steady, a message matches no skill that is neither
enabled nor its own match, and a turn that is stamped matched enabled skills only. -/
def Unleaked (cfg : Settings) (st : State) : Label → Prop
  | .command c => Steady cfg st (.command c)
  | .process listed message _ _ _ =>
      matchAndActivateSkills cfg st.record listed message ⊆
        persistent cfg st.commands ∪ ownMatches cfg st.commands listed message
  | .finish .stops => True
  | .finish _ => st.matched ⊆ persistent cfg st.commands

section Matching

variable {cfg : Settings} {listed : List Skill} {message : String}

/-- More enabled skills match more. -/
theorem matchSkills_mono
    {enabled enabled' : Names}
    (h : enabled ⊆ enabled') :
    matchSkills cfg listed message enabled ⊆ matchSkills cfg listed message enabled' := by
  intro name hname
  simp only [matchSkills, List.mem_toFinset, List.mem_map, List.mem_filter,
    decide_eq_true_eq] at hname ⊢
  obtain ⟨skill, ⟨⟨hlisted, henabled⟩, htriggered⟩, rfl⟩ := hname
  exact ⟨skill, ⟨⟨hlisted, Finset.image_subset_image h henabled⟩, htriggered⟩, rfl⟩

end Matching

section Invariant

variable {cfg : Settings} {st st' : State}

/-- The record enables what commands and defaults enable, and what it disables was
disabled by commands. -/
structure Persists (cfg : Settings) (st : State) : Prop where
  enabled : baseSkills cfg st.record = persistent cfg st.commands
  disabled : ∀ name ∈ (st.record.bind Record.disabledSkills).getD ∅,
    latest st.commands .skill name = some false

theorem persists_initial : Persists cfg initial :=
  ⟨rfl, fun name hname => absurd hname (Finset.notMem_empty name)⟩

theorem disabled_command
    {record : Record} {c : Command} {commands : List Command}
    (h : ∀ name ∈ record.disabledSkills.getD ∅, latest commands .skill name = some false) :
    ∀ name ∈ (c.apply cfg record).disabledSkills.getD ∅,
      latest (c :: commands) .skill name = some false := by
  obtain ⟨kind, skill, enable⟩ := c
  intro name hname
  rw [latest_cons]
  cases kind with
  | mcp =>
      have hold : name ∈ record.disabledSkills.getD ∅ := by
        cases enable <;> exact hname
      simpa using h name hold
  | skill =>
      cases enable with
      | true =>
          obtain ⟨hne, hold⟩ := Finset.mem_erase.mp hname
          rw [if_neg (fun hsame => hne hsame.2.symm)]
          exact h name hold
      | false =>
          rcases Finset.mem_insert.mp hname with rfl | hold
          · simp
          · split_ifs
            · rfl
            · exact h name hold

theorem persists_command
    {record : Record} {c : Command}
    (h : Persists cfg st)
    (hrecord : st.record = some record)
    (hsteady : Steady cfg st (.command c)) :
    Persists cfg (runCommand cfg st c) := by
  rw [runCommand_of_some hrecord]
  refine ⟨?_, disabled_command ?_⟩
  · dsimp only
    by_cases hkind : c.kind = .skill
    · rw [baseSkills_command hrecord hsteady hkind, h.enabled, persistent, if_pos hkind]
    · rw [baseSkills_apply, if_neg hkind, ← hrecord, h.enabled, persistent, if_neg hkind]
  · intro name hname
    refine h.disabled name ?_
    rw [hrecord]
    exact hname

theorem persists_finalizeTurn
    (h : Persists cfg st)
    (hmatched : st.matched ⊆ persistent cfg st.commands)
    (recordIsNew : Bool) :
    Persists cfg (finalizeTurn cfg st recordIsNew) := by
  refine ⟨?_, fun name hname => h.disabled name ?_⟩
  · rw [baseSkills_finalizeTurn, activeSkillNames, h.enabled]
    exact Finset.union_eq_left.mpr hmatched
  · unfold finalizeTurn at hname
    dsimp only at hname
    cases hrecord : st.record with
    | none =>
        rw [hrecord] at hname
        exact absurd hname (Finset.notMem_empty name)
    | some old =>
        rw [hrecord] at hname
        cases recordIsNew with
        | true => exact absurd hname (Finset.notMem_empty name)
        | false => exact hname

/-- The turn of a message that matches no more than it may. -/
theorem matchedOnce_process
    {listed : List Skill} {message : String}
    (h : Persists cfg st)
    (hown : matchAndActivateSkills cfg st.record listed message ⊆
      persistent cfg st.commands ∪ ownMatches cfg st.commands listed message) :
    activeSkillNames cfg st.record (matchAndActivateSkills cfg st.record listed message) =
      persistent cfg st.commands ∪ ownMatches cfg st.commands listed message := by
  rw [activeSkillNames, h.enabled]
  refine Finset.Subset.antisymm (Finset.union_subset Finset.subset_union_left hown) ?_
  refine Finset.union_subset_union_right (matchSkills_mono fun name hname => ?_)
  obtain ⟨hlisted, hlatest⟩ := Finset.mem_filter.mp hname
  exact Finset.mem_sdiff.mpr ⟨hlisted, fun hdisabled => hlatest (h.disabled name hdisabled)⟩

theorem matched_step
    {a : Label}
    (h : Persists cfg st ∧ ∀ t ∈ st.turns, MatchedOnce cfg t)
    (hunleaked : Unleaked cfg st a)
    (hstep : step cfg st a = some st') :
    Persists cfg st' ∧ ∀ t ∈ st'.turns, MatchedOnce cfg t := by
  obtain ⟨hpersists, hseen⟩ := h
  cases a with
  | command c =>
      obtain rfl := Option.some.inj hstep
      cases hrecord : st.record with
      | none =>
          rw [runCommand_of_none hrecord]
          exact ⟨hpersists, hseen⟩
      | some record =>
          refine ⟨persists_command hpersists hrecord hunleaked, ?_⟩
          rw [runCommand_of_some hrecord]
          exact hseen
  | process listed message modelChanged hardTimeoutBefore forceNewSession =>
      simp only [step] at hstep
      split at hstep
      · cases hstep
      · obtain rfl := Option.some.inj hstep
        refine ⟨⟨hpersists.enabled, hpersists.disabled⟩, fun t ht => ?_⟩
        rcases List.mem_cons.mp ht with rfl | ht
        · exact matchedOnce_process hpersists hunleaked
        · exact hseen t ht
  | finish outcome =>
      obtain ⟨turn, _, rfl⟩ := Option.map_eq_some_iff.mp hstep
      cases outcome with
      | answers => exact ⟨persists_finalizeTurn hpersists hunleaked _, hseen⟩
      | rehydrates sameSession => exact ⟨persists_finalizeTurn hpersists hunleaked _, hseen⟩
      | stops => exact ⟨⟨hpersists.enabled, hpersists.disabled⟩, hseen⟩

end Invariant

section Results

variable {cfg : Settings} {st : State}

theorem matchedOnce_of_reach
    (h : Reach (step cfg) (Unleaked cfg) initial st) :
    ∀ t ∈ st.turns, MatchedOnce cfg t := by
  have hboth : Persists cfg st ∧ ∀ t ∈ st.turns, MatchedOnce cfg t :=
    h.invariant ⟨persists_initial, fun _ ht => (nomatch ht)⟩
      fun _ _ _ hst hunleaked hstep => matched_step hst hunleaked hstep
  exact hboth.2

/-- **Matched skills last one turn.**  In every run whose steps leak nothing a turn has
the skills that commands and defaults enable and those of its own message, so two turns
with the same commands and message have the same skills. -/
theorem matched_once
    (cfg : Settings) (st : State)
    (h : Reach (step cfg) (Unleaked cfg) initial st) :
    (∀ t ∈ st.turns, MatchedOnce cfg t) ∧
    ∀ st', Reach (step cfg) (Unleaked cfg) initial st' → ∀ t ∈ st.turns, ∀ t' ∈ st'.turns,
      t.commands = t'.commands → t.listed = t'.listed → t.message = t'.message →
      t.active .skill = t'.active .skill := by
  refine ⟨matchedOnce_of_reach h, fun st' h' t ht t' ht' hcommands hlisted hmessage => ?_⟩
  have hfirst := matchedOnce_of_reach h t ht
  have hsecond := matchedOnce_of_reach h' t' ht'
  rw [MatchedOnce, hcommands, hlisted, hmessage] at hfirst
  exact hfirst.trans hsecond.symm

/-- No default skills. -/
def noDefaults : Settings where
  lower := asciiLower

/-- A turn that matches a skill. -/
def reviewTurn : List Label :=
  [.process [reviewSkill] "Please review this" false false false, .finish .answers]

/-- The skill that the message matches is enabled before and disabled after. -/
def enabledRun : List Label :=
  plainTurn ++ .command ⟨.skill, "review", true⟩ :: reviewTurn ++
    .command ⟨.skill, "review", false⟩ :: plainTurn

/-- A check of the condition. -/
def unleakedCheck (cfg : Settings) (st : State) : Label → Bool
  | .command c => steadyCheck cfg st (.command c)
  | .process listed message _ _ _ =>
      decide (matchAndActivateSkills cfg st.record listed message ⊆
        persistent cfg st.commands ∪ ownMatches cfg st.commands listed message)
  | .finish _ => decide (st.matched ⊆ persistent cfg st.commands)

theorem unleaked_of_check
    {a : Label}
    (h : unleakedCheck cfg st a = true) :
    Unleaked cfg st a := by
  cases a with
  | command c =>
      have hsteady : steadyCheck cfg st (.command c) = true := h
      exact steady_of_check hsteady
  | process listed message a b c =>
      have hown : matchAndActivateSkills cfg st.record listed message ⊆
          persistent cfg st.commands ∪ ownMatches cfg st.commands listed message :=
        of_decide_eq_true h
      exact hown
  | finish outcome =>
      have hmatched : st.matched ⊆ persistent cfg st.commands := of_decide_eq_true h
      cases outcome with
      | stops => trivial
      | answers => exact hmatched
      | rehydrates sameSession => exact hmatched

theorem matched_once_enabledRun :
    ∃ st, run (step noDefaults) initial enabledRun = some st ∧
      ∀ t ∈ st.turns, MatchedOnce noDefaults t := by
  have hrun := run_eq_getD (show
    (run (step noDefaults) initial enabledRun).isSome = true by decide)
  have hguarded : Guarded (step noDefaults) (Unleaked noDefaults) initial enabledRun :=
    guarded_of_checkRun (unleakedCheck noDefaults) (fun _ _ => unleaked_of_check) (by decide)
  exact ⟨_, hrun, (matched_once noDefaults _ (reach_of_run hrun hguarded)).1⟩

/-- A turn after one that matched a skill still has the skill. -/
theorem matched_skill_stays :
    ∃ st, run (step noDefaults) initial (reviewTurn ++ plainTurn) = some st ∧
      ¬ ∀ t ∈ st.turns, MatchedOnce noDefaults t := by
  have hrun := run_eq_getD (show
    (run (step noDefaults) initial (reviewTurn ++ plainTurn)).isSome = true by decide)
  refine ⟨_, hrun, fun honce => ?_⟩
  have hlast := honce _ (List.mem_cons_self ..)
  exact absurd hlast (by decide)

end Results

end McpSkills
end DiploidAgent
