import DiploidAgent.Lib.Histories
import DiploidAgent.Lib.Overlays
import DiploidAgent.Acp.McpServers
import DiploidAgent.Plugins.Manager

/-!
# The MCP servers of the plugins

`runtime/plugins.py` puts the MCP servers of the enabled plugins into the server list of the
harness config, in which the static servers are, too.  Of what it did it remembers the
names only: a static server whose name a plugin used is replaced in its place, and dropped
with the plugin's server when the plugin is disabled.

The list is the static one with the enabled plugins' servers over it, in a run from any
plugins, exactly when every round extends the last one (`registered_iff`).
-/

namespace DiploidAgent
namespace Plugins
namespace McpRegistration

open Acp.McpServers (McpServerConfig)
open Histories (Throughout)
open Overlays

deriving instance DecidableEq for McpServerConfig

/-- `PluginConfig` with `mcp_server`. -/
abbrev Plugin := PluginConfig (Option McpServerConfig)

/-- The plugin manager, the servers of the harness config and
`_plugin_mcp_server_names`. -/
structure Harness where
  manager : State (Option McpServerConfig)
  servers : List McpServerConfig
  names : List String := []

/-! ### Registration -/

/-- `mcp_server_configs`. -/
def mcpServerConfigs (plugins : List Plugin) : List McpServerConfig :=
  plugins.filterMap fun cfg =>
    if cfg.enabled then cfg.rest.filter fun server => !server.disabled else none

def Harness.active (s : Harness) : List McpServerConfig := mcpServerConfigs s.manager.list

/-- The loop over the servers of the config: what is kept, and the names that were
replaced. -/
def keepServers (active : List McpServerConfig) (stale : List String) :
    List McpServerConfig → List McpServerConfig × List String
  | [] => ([], [])
  | server :: servers =>
      let (kept, replaced) := keepServers active stale servers
      if server.name ∈ stale then (kept, replaced)
      else if server.name ∈ active.map (·.name) then
        match active.find? fun ps => ps.name = server.name with
        | some ps => (ps :: kept, ps.name :: replaced)
        | none => (server :: kept, replaced)
      else (server :: kept, replaced)

/-- `_register_plugin_mcp_servers`. -/
def registerPluginMcpServers (s : Harness) : Harness :=
  let activeNames := s.active.map (·.name)
  let stale := s.names.filter (· ∉ activeNames)
  let (kept, replaced) := keepServers s.active stale s.servers
  { s with
    servers := kept ++ s.active.filter fun ps => ps.name ∉ replaced
    names := activeNames }

/-! ### Calls -/

/-- `plugin_add`, `plugin_remove`, `plugin_toggle` for all chats and `plugin_rollback`. -/
inductive Call where
  | add (config : Plugin)
  | remove (name : String)
  | toggle (name : String) (enabled : Bool)
  | rollback (steps : Int)

/-- The call of the manager, with its error. -/
def managed (m : State (Option McpServerConfig)) :
    Call → State (Option McpServerConfig) × Option String
  | .add config => (m.create config).addPlugin m.heap.size
  | .remove name => m.removePlugin name
  | .toggle name enabled => m.togglePlugin name enabled
  | .rollback steps => m.rollback steps

/-- A call that raises does not register. -/
def step (s : Harness) (call : Call) : Harness :=
  match managed s.manager call with
  | (_, some _) => s
  | (manager, none) => registerPluginMcpServers { s with manager := manager }

/-- The harness starts with a registration. -/
def start (static : List McpServerConfig) (manager : State (Option McpServerConfig)) : Harness :=
  registerPluginMcpServers
    { manager := manager
      servers := static }

/-! ### What registration is for -/

/-- The list is the static one under the servers of the enabled plugins. -/
structure Registered (static : List McpServerConfig) (s : Harness) : Prop where
  list : s.servers = overlay McpServerConfig.name static s.active
  once : (s.servers.map (·.name)).Nodup
  bare : (∀ cfg ∈ s.manager.list, cfg.enabled = false) → s.servers = static

/-- The call leaves the servers of the plugins so that they extend those before: no plugin
server of a static name goes away, no other name is there twice, and the servers that stay
come before the new ones. -/
def Keeps (static : List McpServerConfig) (s : Harness) (call : Call) : Prop :=
  (managed s.manager call).2 = none →
    Extends McpServerConfig.name static s.active
      (mcpServerConfigs (managed s.manager call).1.list)

section Registration

variable {static : List McpServerConfig} {stale : List String} {s : Harness}

/-- What the loop keeps and replaces. -/
theorem keepServers_eq
    (servers active : List McpServerConfig) (names : List String) (hstale : stale = names.filter (· ∉ active.map (·.name))) :
    (keepServers active stale servers).1 =
        (servers.filter fun x =>
          x.name ∉ names ∨ x.name ∈ active.map McpServerConfig.name).map
            (pick McpServerConfig.name active) ∧
      ∀ name ∈ active.map (·.name),
        name ∈ (keepServers active stale servers).2 ↔ name ∈ servers.map (·.name) := by
  induction servers with
  | nil => exact ⟨rfl, fun name _ => Iff.rfl⟩
  | cons server servers ih =>
      obtain ⟨hkept, hreplaced⟩ := ih
      rw [keepServers]
      dsimp only
      by_cases hin : server.name ∈ stale
      · -- the server of a plugin that went away
        rw [if_pos hin]
        obtain ⟨hname, hnot⟩ := List.mem_filter.mp (hstale ▸ hin)
        have hactive : server.name ∉ active.map (·.name) := of_decide_eq_true hnot
        constructor
        · rw [List.filter_cons_of_neg (by simpa [hname] using hactive), hkept]
        · intro name hnew
          have hne : name ≠ server.name := by
            rintro rfl
            exact hactive hnew
          rw [hreplaced name hnew, List.map_cons, List.mem_cons, or_iff_right hne]
      · rw [if_neg hin]
        by_cases hactive : server.name ∈ active.map (·.name)
        · rw [if_pos hactive, List.filter_cons_of_pos (by simpa using Or.inr hactive)]
          obtain ⟨y, hy, hkey⟩ := List.mem_map.mp hactive
          have hsome : (active.find? fun ps => ps.name = server.name).isSome = true := by
            rw [List.find?_isSome]
            exact ⟨y, hy, decide_eq_true hkey⟩
          obtain ⟨ps, hps⟩ := Option.isSome_iff_exists.mp hsome
          have hpsname : ps.name = server.name := of_decide_eq_true (List.find?_some hps :)
          rw [hps]
          constructor
          · rw [List.map_cons, ← hkept, pick, hps, Option.getD_some]
          · intro name hnew
            rw [List.mem_cons, hreplaced name hnew, List.map_cons, List.mem_cons, hpsname]
        · rw [if_neg hactive]
          have hnames : server.name ∉ names := by
            intro hname
            rw [hstale, List.mem_filter, not_and] at hin
            exact hin hname (decide_eq_true hactive)
          constructor
          · rw [List.filter_cons_of_pos (by simpa using Or.inl hnames), List.map_cons, ← hkept,
              pick_of_notMem hactive]
          · intro name hnew
            have hne : name ≠ server.name := by
              rintro rfl
              exact hactive hnew
            rw [hreplaced name hnew, List.map_cons, List.mem_cons, or_iff_right hne]

/-- A registration brings the list on to the plugins of now. -/
theorem servers_register :
    (registerPluginMcpServers s).servers =
      relay McpServerConfig.name s.names s.servers s.active := by
  obtain ⟨hkept, hreplaced⟩ := keepServers_eq s.servers s.active s.names rfl
  rw [registerPluginMcpServers]
  dsimp only
  rw [hkept, relay, added]
  congr 1
  refine List.filter_congr fun ps hps => ?_
  rw [decide_eq_decide, hreplaced ps.name (List.mem_map_of_mem hps)]

theorem mcpServerConfigs_of_disabled
    {plugins : List Plugin} (h : ∀ cfg ∈ plugins, cfg.enabled = false) :
    mcpServerConfigs plugins = [] := by
  rw [mcpServerConfigs, List.filterMap_eq_nil_iff]
  intro cfg hcfg
  simp [h cfg hcfg]

/-- A list with the names of the last round is registered by a round that extends it, and by
no other. -/
theorem registered_register_iff
    (old : List McpServerConfig) (hstatic : (static.map (·.name)).Nodup)
    (hnames : s.names = old.map (·.name))
    (hservers : s.servers = overlay McpServerConfig.name static old) :
    Registered static (registerPluginMcpServers s) ↔
      Extends McpServerConfig.name static old s.active := by
  have hactive : (registerPluginMcpServers s).active = s.active := rfl
  rw [← relay_overlay_iff hstatic, ← hnames, ← hservers]
  constructor
  · intro h
    have hlist := h.list
    rw [servers_register, hactive] at hlist
    have honce := h.once
    rw [servers_register, hlist] at honce
    exact ⟨hlist, honce⟩
  · rintro ⟨hlist, honce⟩
    have hoverlay : (registerPluginMcpServers s).servers =
        overlay McpServerConfig.name static s.active := servers_register.trans hlist
    refine ⟨hoverlay, hoverlay ▸ honce, ?_⟩
    intro hdisabled
    have hnone : s.active = [] := mcpServerConfigs_of_disabled hdisabled
    rw [hoverlay, hnone, overlay_nil]

end Registration

/-! ### Runs -/

section Runs

variable {static : List McpServerConfig} {manager : State (Option McpServerConfig)}
  {s : Harness} {call : Call} {calls : List Call}

/-- The remembered names are those of the enabled plugins. -/
theorem names_step
    (h : s.names = s.active.map (·.name)) (call : Call) :
    (step s call).names = (step s call).active.map (·.name) := by
  rw [step]
  rcases managed s.manager call with ⟨manager', error⟩
  cases error with
  | none => rfl
  | some error => exact h

theorem names_foldl
    (calls : List Call) :
    (calls.foldl step (start static manager)).names =
      (calls.foldl step (start static manager)).active.map (·.name) := by
  have hstart : (start static manager).names = (start static manager).active.map (·.name) := rfl
  generalize start static manager = s at hstart
  induction calls generalizing s with
  | nil => exact hstart
  | cons call calls ih => exact ih (step s call) (names_step hstart call)

/-- One call. -/
theorem registered_step_iff
    (hnames : s.names = s.active.map (·.name)) (h : Registered static s)
    (hstatic : (static.map (·.name)).Nodup) :
    Registered static (step s call) ↔ Keeps static s call := by
  rw [step, Keeps]
  rcases managed s.manager call with ⟨manager', error⟩
  cases error with
  | some error =>
      refine ⟨fun _ hnone => ?_, fun _ => h⟩
      cases hnone
  | none =>
      have hround := registered_register_iff (s := { s with manager := manager' }) s.active hstatic
        hnames h.list
      exact ⟨fun hregistered _ => hround.mp hregistered, fun hkeeps => hround.mpr (hkeeps rfl)⟩

theorem registered_start_iff
    (hstatic : (static.map (·.name)).Nodup) :
    Registered static (start static manager) ↔
      Extends McpServerConfig.name static [] (mcpServerConfigs manager.list) :=
  registered_register_iff [] hstatic rfl overlay_nil.symm

theorem nodup_static
    (h : Registered static s) :
    (static.map (·.name)).Nodup := by
  have honce := h.once
  rw [h.list, map_key_overlay] at honce
  exact (List.nodup_append.mp honce).1

/-- **Registration.**  For every static list, every list of plugins at the start and every
sequence of calls, the list is the static one under the servers of the enabled plugins after
each of them if and only if the static names are different, those of the plugins at the
start are so, and every call keeps what is there. -/
theorem registered_iff (static : List McpServerConfig)
    (manager : State (Option McpServerConfig)) (calls : List Call) :
    (∀ earlier, earlier <+: calls → Registered static (earlier.foldl step (start static manager))) ↔
      (static.map (·.name)).Nodup ∧
      Extends McpServerConfig.name static [] (mcpServerConfigs manager.list) ∧
      Throughout step (Keeps static) (start static manager) calls := by
  constructor
  · intro h
    have hstart : Registered static (start static manager) := h [] List.nil_prefix
    have hstatic := nodup_static hstart
    refine ⟨hstatic, (registered_start_iff hstatic).mp hstart, ?_⟩
    intro before call hbefore
    have hnext := h (before ++ [call]) hbefore
    rw [List.foldl_append, List.foldl_cons, List.foldl_nil] at hnext
    exact (registered_step_iff (names_foldl before)
      (h before ((List.prefix_append before [call]).trans hbefore)) hstatic).mp hnext
  · rintro ⟨hstatic, hopens, hkeeps⟩ earlier hearlier
    have hinv : Registered static (earlier.foldl step (start static manager)) ∧
        (earlier.foldl step (start static manager)).names =
          (earlier.foldl step (start static manager)).active.map (·.name) := by
      refine (hkeeps.earlier hearlier).keeps
        (P := fun s => Registered static s ∧ s.names = s.active.map (·.name)) ?_ ?_
      · exact ⟨(registered_start_iff hstatic).mpr hopens, rfl⟩
      · rintro s call ⟨hregistered, hnames⟩ hkeep
        exact ⟨(registered_step_iff hnames hregistered hstatic).mpr hkeep,
          names_step hnames call⟩
    exact hinv.1

end Runs

/-! ### A static server that is lost -/

def files : McpServerConfig :=
  { name := "files"
    command := "files-server" }

/-- A plugin with a server of the same name. -/
def filesPlugin : Plugin :=
  { name := "files-plus"
    enabled := true
    promptOrder := 100
    rest := some { files with command := "files-plus-server" } }

/-- The plugin is disabled, and the static server is not there any more. -/
theorem not_registered_files :
    (step (start [files] (init [filesPlugin])) (.toggle "files-plus" false)).active = [] ∧
      (step (start [files] (init [filesPlugin])) (.toggle "files-plus" false)).servers = [] ∧
      ¬ Registered [files]
        (step (start [files] (init [filesPlugin])) (.toggle "files-plus" false)) := by
  have hservers : (step (start [files] (init [filesPlugin]))
      (.toggle "files-plus" false)).servers = [] := by
    decide +kernel
  have hactive : (step (start [files] (init [filesPlugin]))
      (.toggle "files-plus" false)).active = [] := by
    decide +kernel
  refine ⟨hactive, hservers, ?_⟩
  intro h
  have hlist := h.list
  rw [hactive, overlay_nil, hservers] at hlist
  cases hlist

end McpRegistration
end Plugins
end DiploidAgent
