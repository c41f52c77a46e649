import DiploidAgent.Runtime.McpSkills

/-!
# The last toggle wins

For MCP servers the record keeps a list of the disabled names, every new record takes
it over, and the latest command about a server decides.  For skills a new record starts
without one, so a message may match a skill that was disabled on an earlier record, and
the finished turn enables it; and a command that finds no enabled skill starts again
from the defaults.  Where neither happens the latest command decides as well
(`last_toggle_wins`).
-/

namespace DiploidAgent
namespace McpSkills

open Runs

/-- A set of names follows the latest commands. -/
structure Follows (commands : List Command) (kind : Kind) (names : Names) : Prop where
  on : ∀ name, latest commands kind name = some true → name ∈ names
  off : ∀ name, latest commands kind name = some false → name ∉ names

/-- In every turn the names of a kind follow the latest commands, and a command about
one name leaves the names that no command was about as they are. -/
structure TogglesWin (st : State) (kind : Kind) : Prop where
  follows : ∀ t ∈ st.turns, Follows t.commands kind (t.active kind)
  others : ∀ c ∈ st.toggles, ∀ name, latest c.earlier kind name = none →
    ¬ (c.command.kind = kind ∧ c.command.name = name) →
    (name ∈ c.before kind ↔ name ∈ c.after kind)

/-- No skill of a set was disabled by the latest command about it. -/
def NoneDisabled (st : State) (names : Names) : Prop :=
  ∀ name ∈ names, latest st.commands .skill name ≠ some false

instance (st : State) (names : Names) : Decidable (NoneDisabled st names) :=
  inferInstanceAs (Decidable (∀ name ∈ names, latest st.commands .skill name ≠ some false))

/-- The condition: a command about a skill does not find an empty list while another
skill is a default, and no skill whose latest command is a disable is matched by the
message of a turn, or still matched when a turn is stamped. -/
def Steady (cfg : Settings) (st : State) : Label → Prop
  | .command c => c.kind = .skill → st.record.bind Record.enabledSkills = some ∅ →
      defaultActiveSkills cfg ⊆ {c.name}
  | .process listed message _ _ _ =>
      NoneDisabled st (matchAndActivateSkills cfg st.record listed message)
  | .finish .stops => True
  | .finish _ => NoneDisabled st st.matched

section Follows

variable {commands : List Command} {kind : Kind} {names : Names}

theorem Follows.toggle
    (h : Follows commands kind names)
    {c : Command}
    (hkind : c.kind = kind) :
    Follows (c :: commands) kind (c.toggle names) := by
  have hcons : ∀ name, latest (c :: commands) kind name =
      if c.name = name then some c.enable else latest commands kind name := by
    intro name
    simp [latest_cons, hkind]
  refine ⟨fun name hlatest => ?_, fun name hlatest => ?_⟩
  · rw [hcons] at hlatest
    rw [mem_toggle]
    by_cases hname : c.name = name
    · rw [if_pos hname] at hlatest ⊢
      exact Option.some.inj hlatest
    · rw [if_neg hname] at hlatest ⊢
      exact h.on name hlatest
  · rw [hcons] at hlatest
    rw [mem_toggle]
    by_cases hname : c.name = name
    · rw [if_pos hname] at hlatest ⊢
      exact fun hon => nomatch hon.symm.trans (Option.some.inj hlatest)
    · rw [if_neg hname] at hlatest ⊢
      exact h.off name hlatest

theorem Follows.other
    (h : Follows commands kind names)
    {c : Command}
    (hkind : c.kind ≠ kind) :
    Follows (c :: commands) kind names := by
  have hsame : ∀ name, latest (c :: commands) kind name = latest commands kind name := by
    intro name
    rw [latest_cons, if_neg (fun hc => hkind hc.1)]
  exact ⟨fun name hlatest => h.on name (hsame name ▸ hlatest),
    fun name hlatest => h.off name (hsame name ▸ hlatest)⟩

/-- Names that are not disabled may join. -/
theorem Follows.union
    (h : Follows commands kind names)
    {more : Names}
    (hmore : ∀ name ∈ more, latest commands kind name ≠ some false) :
    Follows commands kind (names ∪ more) := by
  refine ⟨fun name hlatest => Finset.mem_union_left _ (h.on name hlatest),
    fun name hlatest hmem => ?_⟩
  rcases Finset.mem_union.mp hmem with hmem | hmem
  · exact h.off name hlatest hmem
  · exact hmore name hmem hlatest

theorem follows_nil (kind : Kind) (names : Names) : Follows [] kind names :=
  ⟨fun _ h => (nomatch h), fun _ h => (nomatch h)⟩

theorem togglesWin_initial (kind : Kind) : TogglesWin initial kind :=
  ⟨fun _ ht => (nomatch ht), fun _ ht => (nomatch ht)⟩

/-- An accepted command. -/
theorem runCommand_of_some
    {cfg : Settings} {st : State} {record : Record}
    (hrecord : st.record = some record)
    (c : Command) :
    runCommand cfg st c = { st with
      record := some (c.apply cfg record)
      commands := c :: st.commands
      toggles :=
        { command := c
          earlier := st.commands
          before := active cfg (some record) st.matched
          after := active cfg (some (c.apply cfg record)) st.matched } :: st.toggles } := by
  rw [runCommand, hrecord]

theorem runCommand_of_none
    {cfg : Settings} {st : State}
    (hrecord : st.record = none)
    (c : Command) :
    runCommand cfg st c = st := by
  rw [runCommand, hrecord]

/-- An accepted command leaves the names that no command was about as they are. -/
theorem TogglesWin.command
    {cfg : Settings} {st : State} {record : Record}
    (h : TogglesWin st kind)
    (hrecord : st.record = some record)
    (c : Command)
    (huntouched : ∀ name, latest st.commands kind name = none →
      ¬ (c.kind = kind ∧ c.name = name) →
      (name ∈ active cfg (some record) st.matched kind ↔
        name ∈ active cfg (some (c.apply cfg record)) st.matched kind)) :
    TogglesWin (runCommand cfg st c) kind := by
  rw [runCommand_of_some hrecord]
  refine ⟨h.follows, fun t ht name hlatest hother => ?_⟩
  rcases List.mem_cons.mp ht with rfl | ht
  · exact huntouched name hlatest hother
  · exact h.others t ht name hlatest hother

end Follows

section Servers

variable {cfg : Settings} {st st' : State}

theorem servers_command
    (h : Follows st.commands .mcp (activeMcpServerNames cfg st.record))
    (c : Command) :
    Follows (runCommand cfg st c).commands .mcp
      (activeMcpServerNames cfg (runCommand cfg st c).record) := by
  cases hrecord : st.record with
  | none =>
      rw [runCommand_of_none hrecord]
      exact h
  | some record =>
      rw [runCommand_of_some hrecord]
      dsimp only
      rw [activeMcpServerNames_apply, ← hrecord]
      split_ifs with hkind
      · exact h.toggle hkind
      · exact h.other hkind

/-- A command about one server leaves the others as they are. -/
theorem untouched_server
    {record : Record} {c : Command} {name : String}
    (hother : ¬ (c.kind = .mcp ∧ c.name = name)) :
    name ∈ activeMcpServerNames cfg (some record) ↔
      name ∈ activeMcpServerNames cfg (some (c.apply cfg record)) := by
  rw [activeMcpServerNames_apply]
  split_ifs with hkind
  · rw [mem_toggle, if_neg (fun hname => hother ⟨hkind, hname⟩)]
  · exact Iff.rfl

theorem servers_step
    {a : Label}
    (h : Follows st.commands .mcp (activeMcpServerNames cfg st.record) ∧ TogglesWin st .mcp)
    (hstep : step cfg st a = some st') :
    Follows st'.commands .mcp (activeMcpServerNames cfg st'.record) ∧ TogglesWin st' .mcp := by
  obtain ⟨hfollows, hwin⟩ := h
  have hfinal : ∀ recordIsNew,
      Follows (finalizeTurn cfg st recordIsNew).commands .mcp
        (activeMcpServerNames cfg (finalizeTurn cfg st recordIsNew).record) := by
    intro recordIsNew
    rw [activeMcpServerNames_finalizeTurn]
    exact hfollows
  cases a with
  | command c =>
      obtain rfl := Option.some.inj hstep
      refine ⟨servers_command hfollows c, ?_⟩
      cases hrecord : st.record with
      | none =>
          rw [runCommand_of_none hrecord]
          exact hwin
      | some record =>
          exact hwin.command hrecord c fun name _ hother => untouched_server hother
  | process listed message modelChanged hardTimeoutBefore forceNewSession =>
      simp only [step] at hstep
      split at hstep
      · cases hstep
      · obtain rfl := Option.some.inj hstep
        refine ⟨hfollows, fun t ht => ?_, hwin.others⟩
        rcases List.mem_cons.mp ht with rfl | ht
        · exact hfollows
        · exact hwin.follows t ht
  | finish outcome =>
      obtain ⟨turn, _, rfl⟩ := Option.map_eq_some_iff.mp hstep
      cases outcome with
      | answers => exact ⟨hfinal _, hwin.follows, hwin.others⟩
      | rehydrates sameSession => exact ⟨hfinal _, hwin.follows, hwin.others⟩
      | stops => exact ⟨hfollows, hwin.follows, hwin.others⟩

/-- In every run the latest command about an MCP server wins. -/
theorem servers_win
    (h : Reach (step cfg) (fun _ _ => True) initial st) :
    TogglesWin st .mcp := by
  have hboth : Follows st.commands .mcp (activeMcpServerNames cfg st.record) ∧
      TogglesWin st .mcp :=
    h.invariant ⟨follows_nil .mcp _, togglesWin_initial .mcp⟩
      fun _ _ _ hst _ hstep => servers_step hst hstep
  exact hboth.2

end Servers

section Skills

variable {cfg : Settings} {st st' : State}

/-- The enabled skills follow the commands, and a default that no command was about is
enabled. -/
structure Kept (cfg : Settings) (st : State) : Prop where
  follows : Follows st.commands .skill (baseSkills cfg st.record)
  defaults : ∀ name ∈ defaultActiveSkills cfg, latest st.commands .skill name = none →
    name ∈ baseSkills cfg st.record

/-- The enabled names that a command about another skill starts from. -/
theorem mem_enabledOrDefault
    {record : Record} {c : Command} {name : String}
    (hrecord : st.record = some record)
    (hsteady : Steady cfg st (.command c))
    (hskill : c.kind = .skill)
    (hname : c.name ≠ name) :
    name ∈ enabledOrDefault cfg record ↔ name ∈ baseSkills cfg st.record := by
  by_cases hempty : record.enabledSkills = some ∅
  · have hbind : st.record.bind Record.enabledSkills = some ∅ := by
      rw [hrecord]
      exact hempty
    rw [enabledOrDefault_of_empty hempty, baseSkills, hbind, Option.getD_some]
    constructor
    · intro hmem
      exact absurd (Finset.mem_singleton.mp (hsteady hskill hbind hmem)).symm hname
    · exact fun hmem => absurd hmem (Finset.notMem_empty name)
  · rw [enabledOrDefault_of_ne hempty, hrecord]

/-- The enabled skills after an accepted command about a skill. -/
theorem baseSkills_command
    {record : Record} {c : Command}
    (hrecord : st.record = some record)
    (hsteady : Steady cfg st (.command c))
    (hskill : c.kind = .skill) :
    baseSkills cfg (some (c.apply cfg record)) = c.toggle (baseSkills cfg st.record) := by
  rw [baseSkills_apply, if_pos hskill]
  ext name
  rw [mem_toggle, mem_toggle]
  by_cases hname : c.name = name
  · rw [if_pos hname, if_pos hname]
  · rw [if_neg hname, if_neg hname]
    exact mem_enabledOrDefault hrecord hsteady hskill hname

/-- A command leaves the skills that no command was about as they are. -/
theorem untouched_skill
    {record : Record} {c : Command} {name : String}
    (h : Kept cfg st)
    (hrecord : st.record = some record)
    (hlatest : latest st.commands .skill name = none)
    (hother : ¬ (c.kind = .skill ∧ c.name = name)) :
    name ∈ baseSkills cfg (some record) ↔
      name ∈ baseSkills cfg (some (c.apply cfg record)) := by
  rw [baseSkills_apply]
  split_ifs with hkind
  · rw [mem_toggle, if_neg (fun hname => hother ⟨hkind, hname⟩)]
    by_cases hempty : record.enabledSkills = some ∅
    · -- the defaults of an empty list were all disabled by commands
      have hbase : baseSkills cfg (some record) = ∅ := by
        simp [baseSkills, hempty]
      have hdefault : name ∉ defaultActiveSkills cfg := by
        intro hmem
        have hin := h.defaults name hmem hlatest
        rw [hrecord, hbase] at hin
        exact Finset.notMem_empty name hin
      rw [enabledOrDefault_of_empty hempty, hbase]
      simp [hdefault]
    · rw [enabledOrDefault_of_ne hempty]
  · exact Iff.rfl

theorem kept_command
    {record : Record} {c : Command}
    (h : Kept cfg st)
    (hrecord : st.record = some record)
    (hsteady : Steady cfg st (.command c)) :
    Kept cfg (runCommand cfg st c) := by
  rw [runCommand_of_some hrecord]
  refine ⟨?_, fun name hmem hlatest => ?_⟩
  · dsimp only
    by_cases hkind : c.kind = .skill
    · rw [baseSkills_command hrecord hsteady hkind]
      exact h.follows.toggle hkind
    · rw [baseSkills_apply, if_neg hkind, ← hrecord]
      exact h.follows.other hkind
  · dsimp only at hlatest ⊢
    rw [latest_cons] at hlatest
    split_ifs at hlatest with hsame
    have hold := h.defaults name hmem hlatest
    rw [hrecord] at hold
    exact (untouched_skill h hrecord hlatest hsame).mp hold

theorem kept_finalizeTurn
    (h : Kept cfg st)
    (hmatched : NoneDisabled st st.matched)
    (recordIsNew : Bool) :
    Kept cfg (finalizeTurn cfg st recordIsNew) := by
  refine ⟨?_, ?_⟩
  · rw [baseSkills_finalizeTurn]
    exact h.follows.union hmatched
  · rw [baseSkills_finalizeTurn]
    exact fun name hmem hlatest => Finset.mem_union_left _ (h.defaults name hmem hlatest)

theorem skills_step
    {a : Label}
    (h : Kept cfg st ∧ TogglesWin st .skill)
    (hsteady : Steady cfg st a)
    (hstep : step cfg st a = some st') :
    Kept cfg st' ∧ TogglesWin st' .skill := by
  obtain ⟨hkept, hwin⟩ := h
  cases a with
  | command c =>
      obtain rfl := Option.some.inj hstep
      cases hrecord : st.record with
      | none =>
          rw [runCommand_of_none hrecord]
          exact ⟨hkept, hwin⟩
      | some record =>
          refine ⟨kept_command hkept hrecord hsteady,
            hwin.command hrecord c fun name hlatest hother => ?_⟩
          have hbase := untouched_skill hkept hrecord hlatest hother
          simp only [active, activeSkillNames, Finset.mem_union, hbase]
  | process listed message modelChanged hardTimeoutBefore forceNewSession =>
      simp only [step] at hstep
      split at hstep
      · cases hstep
      · obtain rfl := Option.some.inj hstep
        refine ⟨⟨hkept.follows, hkept.defaults⟩, fun t ht => ?_, hwin.others⟩
        rcases List.mem_cons.mp ht with rfl | ht
        · exact hkept.follows.union hsteady
        · exact hwin.follows t ht
  | finish outcome =>
      obtain ⟨turn, _, rfl⟩ := Option.map_eq_some_iff.mp hstep
      cases outcome with
      | answers => exact ⟨kept_finalizeTurn hkept hsteady _, hwin.follows, hwin.others⟩
      | rehydrates sameSession =>
          exact ⟨kept_finalizeTurn hkept hsteady _, hwin.follows, hwin.others⟩
      | stops => exact ⟨⟨hkept.follows, hkept.defaults⟩, hwin.follows, hwin.others⟩

end Skills

section Results

variable {cfg : Settings} {st : State}

/-- **The last toggle wins.**  In every run whose steps are steady the latest command
about a skill or a server decides, and a command about another one changes nothing. -/
theorem last_toggle_wins
    (cfg : Settings) (st : State)
    (h : Reach (step cfg) (Steady cfg) initial st) :
    ∀ kind, TogglesWin st kind := by
  have hskills : Kept cfg st ∧ TogglesWin st .skill := by
    refine h.invariant ⟨⟨follows_nil .skill _, fun _ hname _ => hname⟩,
      togglesWin_initial .skill⟩ fun _ _ _ hst hsteady hstep => skills_step hst hsteady hstep
  intro kind
  cases kind with
  | skill => exact hskills.2
  | mcp => exact servers_win (h.mono fun _ _ _ => trivial)

def asciiLower (s : String) : String := String.ofList (s.toList.map Char.toLower)

/-- Two default skills. -/
def twoDefaults : Settings where
  defaultEnabled := {"notes", "review"}
  lower := asciiLower

def reviewSkill : Skill where
  name := "review"
  triggers := ["please review"]

/-- A turn whose message matches nothing, in the session of the record. -/
def plainTurn : List Label :=
  [.process [reviewSkill] "hello" false false false, .finish .answers]

/-- A default is disabled on the record, and the next turn goes over to a new session. -/
def steadyRun : List Label :=
  plainTurn ++ [.command ⟨.skill, "review", false⟩,
    .process [reviewSkill] "Please review this" true false false, .finish .answers] ++ plainTurn

/-- Both defaults are disabled, and one more skill is enabled. -/
def emptiedRun : List Label :=
  plainTurn ++ [.command ⟨.skill, "notes", false⟩, .command ⟨.skill, "review", false⟩,
    .command ⟨.skill, "search", true⟩] ++ plainTurn

/-- A check of the condition. -/
def steadyCheck (cfg : Settings) (st : State) : Label → Bool
  | .command c =>
      c.kind == .mcp || st.record.bind Record.enabledSkills != some ∅ ||
        decide (defaultActiveSkills cfg ⊆ {c.name})
  | .process listed message _ _ _ =>
      decide (NoneDisabled st (matchAndActivateSkills cfg st.record listed message))
  | .finish _ => decide (NoneDisabled st st.matched)

theorem steady_of_check
    {st : State} {a : Label}
    (h : steadyCheck cfg st a = true) :
    Steady cfg st a := by
  cases a with
  | command c =>
      intro hskill hempty
      simpa [steadyCheck, hskill, hempty] using h
  | process listed message a b c =>
      have hnone : NoneDisabled st (matchAndActivateSkills cfg st.record listed message) :=
        of_decide_eq_true h
      exact hnone
  | finish outcome =>
      have hnone : NoneDisabled st st.matched := of_decide_eq_true h
      cases outcome with
      | stops => trivial
      | answers => exact hnone
      | rehydrates sameSession => exact hnone

theorem last_toggle_wins_steadyRun :
    ∃ st, run (step twoDefaults) initial steadyRun = some st ∧ ∀ kind, TogglesWin st kind := by
  have hrun := run_eq_getD (show
    (run (step twoDefaults) initial steadyRun).isSome = true by decide)
  have hguarded : Guarded (step twoDefaults) (Steady twoDefaults) initial steadyRun :=
    guarded_of_checkRun (steadyCheck twoDefaults) (fun _ _ => steady_of_check) (by decide)
  exact ⟨_, hrun, last_toggle_wins twoDefaults _ (reach_of_run hrun hguarded)⟩

/-- The command about the third skill enables the two that were disabled. -/
theorem disabled_skills_return :
    ∃ st, run (step twoDefaults) initial emptiedRun = some st ∧ ¬ TogglesWin st .skill := by
  have hrun := run_eq_getD (show
    (run (step twoDefaults) initial emptiedRun).isSome = true by decide)
  refine ⟨_, hrun, fun hwin => ?_⟩
  have hseen := hwin.follows _ (List.mem_cons_self ..)
  exact hseen.off "review" (by decide) (by decide)

end Results

end McpSkills
end DiploidAgent
