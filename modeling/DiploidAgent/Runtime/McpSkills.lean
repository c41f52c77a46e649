import DiploidAgent.Lib.Runs
import Mathlib.Data.Finset.Image
import Mathlib.Data.Finset.SDiff

/-!
# MCP servers and skills of a chat

`runtime/mcp_skills.py` for one chat, and what a turn of `process` does to the same
fields: it matches the message against the skill triggers, and `_finalize_turn` stamps
what is active on the record of the chat, which is a new one after a session boundary.
The hooks leave the names alone.  The sorted lists of the record are sets here.

Beside the state of the chat the history keeps the accepted commands, what was active
in each turn and before and after each command.
-/

namespace DiploidAgent
namespace McpSkills

abbrev Names := Finset String

structure Skill where
  name : String
  triggers : List String
deriving DecidableEq, Repr

/-- Settings, the names the plugins give, and `str.lower`. -/
structure Settings where
  defaultLazy : Bool := false
  defaultEnabled : Names := ∅
  pluginSkills : Names := ∅
  defaultServers : Names := ∅
  pluginServers : Names := ∅
  lower : String → String

/-- The fields of a `SessionRecord` that hold names. -/
structure Record where
  enabledMcpServers : Option Names := none
  disabledMcpServers : Option Names := none
  enabledSkills : Option Names := none
  disabledSkills : Option Names := none
deriving DecidableEq

/-! ### Active names -/

/-- `_default_mcp_names`. -/
def defaultMcpNames (cfg : Settings) : Names := cfg.defaultServers ∪ cfg.pluginServers

/-- `_active_mcp_server_names`. -/
def activeMcpServerNames (cfg : Settings) : Option Record → Names
  | none => defaultMcpNames cfg
  | some record =>
      (defaultMcpNames cfg ∪ record.enabledMcpServers.getD ∅) \ record.disabledMcpServers.getD ∅

/-- `_default_active_skills`. -/
def defaultActiveSkills (cfg : Settings) : Names :=
  if cfg.defaultLazy then ∅ else cfg.defaultEnabled ∪ cfg.pluginSkills

/-- The base of `_active_skill_names`: an empty list of the record counts. -/
def baseSkills (cfg : Settings) (record : Option Record) : Names :=
  (record.bind Record.enabledSkills).getD (defaultActiveSkills cfg)

/-- `_active_skill_names`. -/
def activeSkillNames (cfg : Settings) (record : Option Record) (matched : Names) : Names :=
  baseSkills cfg record ∪ matched

/-! ### Commands -/

def mcpEnable (cfg : Settings) (record : Record) (name : String) : Record :=
  { record with
    enabledMcpServers := some (insert name (activeMcpServerNames cfg (some record)))
    disabledMcpServers := some ((record.disabledMcpServers.getD ∅).erase name) }

def mcpDisable (cfg : Settings) (record : Record) (name : String) : Record :=
  { record with
    enabledMcpServers := some ((activeMcpServerNames cfg (some record)).erase name)
    disabledMcpServers := some (insert name (record.disabledMcpServers.getD ∅)) }

/-- `record.enabled_skills or self._default_active_skills()`: an empty list does not
count. -/
def enabledOrDefault (cfg : Settings) (record : Record) : Names :=
  match record.enabledSkills with
  | none => defaultActiveSkills cfg
  | some names => if names = ∅ then defaultActiveSkills cfg else names

def skillEnable (cfg : Settings) (record : Record) (name : String) : Record :=
  { record with
    enabledSkills := some (insert name (enabledOrDefault cfg record))
    disabledSkills := some ((record.disabledSkills.getD ∅).erase name) }

def skillDisable (cfg : Settings) (record : Record) (name : String) : Record :=
  { record with
    enabledSkills := some ((enabledOrDefault cfg record).erase name)
    disabledSkills := some (insert name (record.disabledSkills.getD ∅)) }

/-! ### Matching -/

/-- The message names the skill with a slash or has one of its triggers. -/
def Skill.triggered (cfg : Settings) (skill : Skill) (text : String) : Bool :=
  ("/" ++ cfg.lower skill.name).toList <:+: text.toList ||
    skill.triggers.any fun trigger =>
      trigger != "user" && trigger != "model" && (cfg.lower trigger).toList <:+: text.toList

/-- `SkillManager.match_skills` over the listed skills. -/
def matchSkills (cfg : Settings) (listed : List Skill) (message : String) (enabled : Names) :
    Names :=
  let text := cfg.lower message
  let candidates := listed.filter fun skill => cfg.lower skill.name ∈ enabled.image cfg.lower
  ((candidates.filter fun skill => skill.triggered cfg text).map Skill.name).toFinset

def allNames (listed : List Skill) : Names := (listed.map Skill.name).toFinset

/-- The names that `match_and_activate_skills` keeps for the chat. -/
def matchAndActivateSkills (cfg : Settings) (record : Option Record) (listed : List Skill)
    (message : String) : Names :=
  matchSkills cfg listed message
    (allNames listed \ (record.bind Record.disabledSkills).getD ∅)

/-! ### The chat -/

inductive Kind where
  | skill | mcp
deriving DecidableEq, Repr

structure Command where
  kind : Kind
  name : String
  enable : Bool
deriving DecidableEq, Repr

def Command.apply (cfg : Settings) (c : Command) (record : Record) : Record :=
  match c.kind, c.enable with
  | .skill, true => skillEnable cfg record c.name
  | .skill, false => skillDisable cfg record c.name
  | .mcp, true => mcpEnable cfg record c.name
  | .mcp, false => mcpDisable cfg record c.name

/-- The names of a kind that are active in a chat. -/
def active (cfg : Settings) (record : Option Record) (matched : Names) : Kind → Names
  | .skill => activeSkillNames cfg record matched
  | .mcp => activeMcpServerNames cfg record

/-- The turn in flight: whether `build_first` made its prompt, and whether a follow-up
asks for a fresh session. -/
structure Turn where
  isNew : Bool
  forceNewSession : Bool
deriving DecidableEq, Repr

/-- What a turn saw: the commands so far, the newest first, and the active names. -/
structure Seen where
  commands : List Command
  listed : List Skill
  message : String
  active : Kind → Names

/-- An accepted command, those before it, and the active names around it. -/
structure Toggled where
  command : Command
  earlier : List Command
  before : Kind → Names
  after : Kind → Names

structure State where
  record : Option Record := none
  matched : Names := ∅
  turn : Option Turn := none
  commands : List Command := []
  turns : List Seen := []
  toggles : List Toggled := []

def initial : State := {}

/-- How the engine call of a turn ends: with a reply, with a reply after a rehydration
that keeps the session id or not, or without one. -/
inductive Outcome where
  | answers
  | rehydrates (sameSession : Bool)
  | stops
deriving DecidableEq, Repr

inductive Label where
  | command (c : Command)
  | process (listed : List Skill) (message : String)
      (modelChanged hardTimeoutBefore forceNewSession : Bool)
  | finish (outcome : Outcome)

/-- A command; without an active session it is refused. -/
def runCommand (cfg : Settings) (st : State) (c : Command) : State :=
  match st.record with
  | none => st
  | some record =>
      let record' := c.apply cfg record
      { st with
        record := some record'
        commands := c :: st.commands
        toggles :=
          { command := c
            earlier := st.commands
            before := active cfg (some record) st.matched
            after := active cfg (some record') st.matched } :: st.toggles }

/-- The first half of `process`. -/
def process (cfg : Settings) (st : State) (listed : List Skill) (message : String)
    (modelChanged hardTimeoutBefore forceNewSession : Bool) : State :=
  let matched := matchAndActivateSkills cfg st.record listed message
  let names := activeSkillNames cfg st.record matched
  let skillsChanged :=
    st.record.any fun record => decide (record.enabledSkills.getD ∅ ≠ names)
  let isNew := st.record.isNone || modelChanged || hardTimeoutBefore || skillsChanged
  { st with
    matched := matched
    turn := some {
      isNew := isNew
      forceNewSession := !isNew && forceNewSession }
    turns :=
      { commands := st.commands
        listed := listed
        message := message
        active := active cfg st.record matched } :: st.turns }

/-- `_finalize_turn`, as far as it stamps names. -/
def finalizeTurn (cfg : Settings) (st : State) (recordIsNew : Bool) : State :=
  let mcpNames := activeMcpServerNames cfg st.record
  let skillNames := activeSkillNames cfg st.record st.matched
  let fresh : Record := {
    enabledMcpServers := some mcpNames
    enabledSkills := some skillNames }
  let record :=
    match st.record with
    | none => fresh
    | some old =>
        if recordIsNew then
          { fresh with disabledMcpServers := some (old.disabledMcpServers.getD ∅) }
        else
          { old with
            enabledMcpServers := some mcpNames
            enabledSkills := some skillNames }
  { st with
    record := some record
    turn := none }

def step (cfg : Settings) (st : State) : Label → Option State
  | .command c => some (runCommand cfg st c)
  | .process listed message modelChanged hardTimeoutBefore forceNewSession =>
      match st.turn with
      | some _ => none
      | none =>
          some (process cfg st listed message modelChanged hardTimeoutBefore forceNewSession)
  | .finish outcome =>
      st.turn.map fun turn =>
        match outcome with
        | .answers => finalizeTurn cfg st (turn.isNew || turn.forceNewSession)
        | .rehydrates sameSession => finalizeTurn cfg st (!sameSession || turn.forceNewSession)
        | .stops => { st with turn := none }

/-! ### What commands and turns leave -/

/-- What a command asks for. -/
def Command.toggle (c : Command) (names : Names) : Names :=
  if c.enable then insert c.name names else names.erase c.name

/-- The latest command about a name. -/
def latest (commands : List Command) (kind : Kind) (name : String) : Option Bool :=
  (commands.find? fun c => c.kind = kind && c.name = name).map Command.enable

section Names

variable {cfg : Settings} {record : Record} {c : Command} {commands : List Command}
variable {kind : Kind} {name : String}

theorem mem_toggle {names : Names} :
    name ∈ c.toggle names ↔
      if c.name = name then c.enable = true else name ∈ names := by
  unfold Command.toggle
  cases c.enable <;> by_cases hname : c.name = name <;>
    simp [hname, eq_comm (a := name)]

theorem latest_cons :
    latest (c :: commands) kind name =
      if c.kind = kind ∧ c.name = name then some c.enable else latest commands kind name := by
  unfold latest
  by_cases h : c.kind = kind ∧ c.name = name
  · simp [h]
  · rw [if_neg h, List.find?_cons_of_neg]
    simpa using h

theorem mem_activeMcpServerNames :
    name ∈ activeMcpServerNames cfg (some record) ↔
      (name ∈ defaultMcpNames cfg ∨ name ∈ record.enabledMcpServers.getD ∅) ∧
        name ∉ record.disabledMcpServers.getD ∅ := by
  simp [activeMcpServerNames]

/-- A command about a server toggles it; the record's own lists make up for the defaults. -/
theorem activeMcpServerNames_apply :
    activeMcpServerNames cfg (some (c.apply cfg record)) =
      if c.kind = .mcp then c.toggle (activeMcpServerNames cfg (some record))
      else activeMcpServerNames cfg (some record) := by
  obtain ⟨kind, server, enable⟩ := c
  cases kind with
  | skill => cases enable <;> rfl
  | mcp =>
      ext other
      rw [if_pos rfl, mem_toggle]
      cases enable with
      | true =>
          simp only [Command.apply, mcpEnable, mem_activeMcpServerNames, Option.getD_some,
            Finset.mem_insert, Finset.mem_erase]
          by_cases hother : server = other
          · simp [hother]
          · simp only [hother, Ne.symm hother, if_false]
            tauto
      | false =>
          simp only [Command.apply, mcpDisable, mem_activeMcpServerNames, Option.getD_some,
            Finset.mem_insert, Finset.mem_erase]
          by_cases hother : server = other
          · simp [hother]
          · simp only [hother, Ne.symm hother, if_false]
            tauto

/-- A command about a skill toggles it in the enabled names, or in the defaults when
there are none. -/
theorem baseSkills_apply :
    baseSkills cfg (some (c.apply cfg record)) =
      if c.kind = .skill then c.toggle (enabledOrDefault cfg record)
      else baseSkills cfg (some record) := by
  obtain ⟨kind, name, enable⟩ := c
  cases kind <;> cases enable <;> rfl

theorem enabledOrDefault_of_ne
    (h : record.enabledSkills ≠ some ∅) :
    enabledOrDefault cfg record = baseSkills cfg (some record) := by
  unfold enabledOrDefault baseSkills
  cases hnames : record.enabledSkills with
  | none => simp [hnames]
  | some names =>
      have hne : names ≠ ∅ := fun hempty => h (by rw [hnames, hempty])
      simp [hnames, hne]

theorem enabledOrDefault_of_empty
    (h : record.enabledSkills = some ∅) :
    enabledOrDefault cfg record = defaultActiveSkills cfg := by
  simp [enabledOrDefault, h]

variable {st : State} {recordIsNew : Bool}

/-- The stamp of a turn keeps the active servers, on a new record as well. -/
theorem activeMcpServerNames_finalizeTurn :
    activeMcpServerNames cfg (finalizeTurn cfg st recordIsNew).record =
      activeMcpServerNames cfg st.record := by
  unfold finalizeTurn
  dsimp only
  cases st.record with
  | none =>
      ext name
      simp [activeMcpServerNames]
  | some old =>
      cases recordIsNew <;>
      · ext name
        simp only [if_true, Bool.false_eq_true, if_false, mem_activeMcpServerNames,
          Option.getD_some]
        tauto

/-- The stamp of a turn enables the skills that its message matched. -/
theorem baseSkills_finalizeTurn :
    baseSkills cfg (finalizeTurn cfg st recordIsNew).record =
      activeSkillNames cfg st.record st.matched := by
  unfold finalizeTurn
  dsimp only
  cases st.record with
  | none => rfl
  | some old => cases recordIsNew <;> rfl

end Names

end McpSkills
end DiploidAgent
