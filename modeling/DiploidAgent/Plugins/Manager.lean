import Mathlib.Data.List.Sort
import DiploidAgent.Lib.Dict
import DiploidAgent.Lib.Objects
import DiploidAgent.Lib.Snapshots

/-!
# The plugin manager

The manager holds the list of the plugins' config objects, which the harness config, the
callers and the plugin instances hold, too, and changes them in place.  It keeps copies of
earlier lists, an instance of a plugin for every chat that used it, and for every chat the
list of the plugins that are enabled for it, as it was resolved last.
-/

namespace DiploidAgent
namespace Plugins

open Objects Snapshots

universe u

/-! ### Configs -/

/-- `PluginConfig`: what the manager reads, and the other fields. -/
structure PluginConfig (ρ : Type u) where
  name : String
  enabled : Bool
  promptOrder : Int
  rest : ρ
deriving DecidableEq, Inhabited

/-- A config object comes before another one in the list. -/
def Before {ρ : Type u} (h : Heap (PluginConfig ρ)) (r r' : Nat) : Prop :=
  (h.get r).promptOrder ≤ (h.get r').promptOrder

section Before

variable {ρ : Type u} (h : Heap (PluginConfig ρ))

instance : DecidableRel (Before h) := fun r r' =>
  inferInstanceAs (Decidable ((h.get r).promptOrder ≤ (h.get r').promptOrder))

instance : Std.Total (Before h) := ⟨fun _ _ => le_total _ _⟩

instance : IsTrans Nat (Before h) := ⟨fun _ _ _ => le_trans⟩

end Before

/-! ### The state -/

/-- The config objects, those that others than the history can reach, `_plugins`,
`_config_history`, `_generation`, `_enabled_cache`, the config object of every cached
instance by chat and plugin name, and the `plugin_overrides` of the active record of every
chat that has one. -/
structure State (ρ : Type u) where
  heap : Heap (PluginConfig ρ)
  shared : List Nat
  plugins : List Nat
  history : List (List Nat)
  generation : Nat
  enabledCache : Dict String (Nat × List Nat)
  instances : Dict (String × String) Nat
  records : Dict String (Dict String Bool)

namespace State

variable {ρ : Type u}

def config (s : State ρ) (r : Nat) : PluginConfig ρ := s.heap.get r

/-- The plugin list. -/
def list (s : State ρ) : List (PluginConfig ρ) := s.heap.read s.plugins

/-- The lists that the history shows. -/
def snapshots (s : State ρ) : List (List (PluginConfig ρ)) := s.history.map s.heap.read

/-- The first plugin of a name. -/
def find (s : State ρ) (name : String) : Option Nat :=
  s.plugins.find? fun r => (s.config r).name = name

/-- The cached instances of the plugins are stopped and dropped, for all chats. -/
def popInstances (s : State ρ) (names : List String) : State ρ :=
  { s with instances := s.instances.filter fun e => !names.contains e.1.2 }

/-- `_snapshot_config`. -/
def snapshotConfig (s : State ρ) : State ρ :=
  { s with
    heap := s.heap.alloc s.list
    history := push 10 s.history (s.heap.fresh s.list) }

/-- A caller makes a config object. -/
def create (s : State ρ) (c : PluginConfig ρ) : State ρ :=
  { s with
    heap := s.heap.alloc [c]
    shared := s.shared ++ s.heap.fresh [c] }

/-- An object is changed in place by somebody who can reach it. -/
def assign (s : State ρ) (r : Nat) (c : PluginConfig ρ) : State ρ :=
  { s with heap := s.heap.update r c }

def assignAll (s : State ρ) (changes : List (Nat × PluginConfig ρ)) : State ρ :=
  changes.foldl (fun s e => s.assign e.1 e.2) s

/-! ### Changes of the list -/

/-- `reconfigure`. -/
def reconfigure (s : State ρ) (refs : List Nat) : State ρ :=
  let new := refs.filter fun r => (s.config r).name ≠ ""
  snapshotConfig { s with
    plugins := new.insertionSort (Before s.heap)
    instances := Dict.empty
    generation := s.generation + 1 }

/-- `add_plugin`, with the error it raises. -/
def addPlugin (s : State ρ) (r : Nat) : State ρ × Option String :=
  let name := (s.config r).name
  if name = "" then (s, some "Plugin must have a name")
  else if s.plugins.any fun p => (s.config p).name = name then
    (s, some ("Plugin " ++ name ++ " already exists"))
  else
    (snapshotConfig { s with plugins := (s.plugins ++ [r]).insertionSort (Before s.heap) }, none)

/-- `remove_plugin`. -/
def removePlugin (s : State ρ) (name : String) : State ρ × Option String :=
  match s.find name with
  | none => (s, some ("Unknown plugin: " ++ name))
  | some _ =>
      let s' := { s with plugins := s.plugins.filter fun p => (s.config p).name ≠ name }
      ((s'.popInstances [name]).snapshotConfig, none)

/-- The flag of a config object is set in place. -/
def setFlag (s : State ρ) (r : Nat) (enabled : Bool) : State ρ :=
  s.assign r { s.config r with enabled := enabled }

/-- `toggle_plugin`. -/
def togglePlugin (s : State ρ) (name : String) (enabled : Bool) : State ρ × Option String :=
  match s.find name with
  | none => (s, some ("Unknown plugin: " ++ name))
  | some r =>
      let s' := s.setFlag r enabled
      ((if enabled then s' else s'.popInstances [name]).snapshotConfig, none)

/-- The names that are enabled before a rollback and not after it. -/
def dropped (s : State ρ) (target : List Nat) : List String :=
  let enabledNames (refs : List Nat) :=
    (refs.filter fun r => (s.config r).enabled).map fun r => (s.config r).name
  (enabledNames s.plugins).filter fun name => !(enabledNames target).contains name

/-- The part of `rollback` that restores a list and cuts the history. -/
def restore (s : State ρ) (target : List Nat) (kept : Nat) : State ρ :=
  { s.popInstances (s.dropped target) with
    heap := s.heap.alloc (s.heap.read target)
    shared := s.shared ++ s.heap.fresh (s.heap.read target)
    plugins := s.heap.fresh (s.heap.read target)
    generation := s.generation + 1
    history := s.history.take kept }

/-- `rollback`. -/
def rollback (s : State ρ) (steps : Int) : State ρ × Option String :=
  if steps < 1 then (s, some "steps must be >= 1")
  else if s.history.length < steps.toNat + 1 then
    (s, some "No earlier configuration to roll back to")
  else
    let kept := s.history.length - (steps.toNat + 1)
    ((s.restore (s.history.getD kept []) kept).snapshotConfig, none)

/-- `disable_plugins`. -/
def disablePlugins (s : State ρ) (names : List String) : State ρ :=
  let s' := (s.plugins.filter fun r => names.contains (s.config r).name).foldl
    (fun s r => s.setFlag r false) s
  snapshotConfig { s' with generation := s'.generation + 1 }

/-! ### Chats -/

/-- `_is_enabled_for`, for the overrides of an active record. -/
def enabledUnder (overrides : Option (Dict String Bool)) (c : PluginConfig ρ) : Bool :=
  (overrides.bind fun o => o.get c.name).getD c.enabled

def isEnabledFor (s : State ρ) (chat : String) (r : Nat) : Bool :=
  enabledUnder (s.records.get chat) (s.config r)

/-- `set_plugin_enabled`. -/
def setPluginEnabled (s : State ρ) (chat name : String) (enabled : Bool) : State ρ :=
  match s.records.get chat with
  | none => s
  | some overrides =>
      { s with
        records := s.records.set chat (overrides.set name enabled)
        generation := s.generation + 1
        instances := s.instances.erase (chat, name) }

/-- `reload_plugin`, when the module could be reloaded. -/
def reloadPlugin (s : State ρ) (name : String) : State ρ :=
  match s.find name with
  | none => s
  | some _ => s.popInstances [name]

/-- Another record of the chat is active, or other overrides. -/
def session (s : State ρ) (chat : String) : Option (Dict String Bool) → State ρ
  | none => { s with records := s.records.erase chat }
  | some overrides => { s with records := s.records.set chat overrides }

/-- `_get_or_create`, with the config object of the instance. -/
def getOrCreate (s : State ρ) (chat : String) (r : Nat) : State ρ × Nat :=
  let key := (chat, (s.config r).name)
  match s.instances.get key with
  | some i => (s, i)
  | none => ({ s with instances := s.instances.set key r }, r)

def visit (s : State ρ) (chat : String) : List Nat → State ρ × List Nat
  | [] => (s, [])
  | r :: rs =>
      let first := s.getOrCreate chat r
      let others := first.1.visit chat rs
      (others.1, first.2 :: others.2)

/-- The list that was resolved for the chat in this generation. -/
def cached (s : State ρ) (chat : String) : Option (List Nat) :=
  (s.enabledCache.get chat).bind fun e => if e.1 = s.generation then some e.2 else none

/-- `PluginHooks._plugins_for`: the config objects of the instances that a hook visits. -/
def pluginsFor (s : State ρ) (chat : String) : State ρ × List Nat :=
  match s.cached chat with
  | some enabled => s.visit chat enabled
  | none =>
      let enabled := s.plugins.filter fun r => s.isEnabledFor chat r
      let s' := { s with enabledCache := s.enabledCache.set chat (s.generation, enabled) }
      s'.visit chat enabled

/-- `PluginHooks.event`, up to its own hook. -/
def event (s : State ρ) (chat name : String) : State ρ :=
  match s.find name with
  | none => s
  | some r => (s.getOrCreate chat r).1

end State

/-! ### Steps -/

/-- A caller makes a config object; a config update changes objects and reconfigures; the
calls of the manager; a change of a chat's active record; an event and a hook. -/
inductive Op (ρ : Type u) where
  | create (c : PluginConfig ρ)
  | reconfigure (changes : List (Nat × PluginConfig ρ)) (refs : List Nat)
  | add (r : Nat)
  | remove (name : String)
  | toggle (name : String) (enabled : Bool)
  | rollback (steps : Int)
  | disable (names : List String)
  | setEnabled (chat name : String) (enabled : Bool)
  | reload (name : String)
  | session (chat : String) (overrides : Option (Dict String Bool))
  | event (chat name : String)
  | dispatch (chat : String)
  | stopAll

section Steps

variable {ρ : Type u}

/-- What an operation does, and the error it raises. -/
def perform (s : State ρ) : Op ρ → State ρ × Option String
  | .create c => (s.create c, none)
  | .reconfigure changes refs => ((s.assignAll changes).reconfigure refs, none)
  | .add r => s.addPlugin r
  | .remove name => s.removePlugin name
  | .toggle name enabled => s.togglePlugin name enabled
  | .rollback steps => s.rollback steps
  | .disable names => (s.disablePlugins names, none)
  | .setEnabled chat name enabled => (s.setPluginEnabled chat name enabled, none)
  | .reload name => (s.reloadPlugin name, none)
  | .session chat overrides => (s.session chat overrides, none)
  | .event chat name => (s.event chat name, none)
  | .dispatch chat => ((s.pluginsFor chat).1, none)
  | .stopAll => ({ s with instances := Dict.empty }, none)

/-- Callers pass objects that they can reach. -/
def reaches (s : State ρ) : Op ρ → Bool
  | .reconfigure changes refs =>
      changes.all (fun e => s.shared.contains e.1) && refs.all fun r => s.shared.contains r
  | .add r => s.shared.contains r
  | _ => true

def step (s : State ρ) (op : Op ρ) : Option (State ρ) :=
  if reaches s op then some (perform s op).1 else none

/-- The objects of a list of configs, and nothing else. -/
def blank [Inhabited ρ] (configs : List (PluginConfig ρ)) : State ρ :=
  { heap :=
      { get := fun r => configs.getD r default
        size := configs.length }
    shared := List.range configs.length
    plugins := []
    history := []
    generation := 0
    enabledCache := Dict.empty
    instances := Dict.empty
    records := Dict.empty }

/-- The manager of a list of plugins. -/
def init [Inhabited ρ] (configs : List (PluginConfig ρ)) : State ρ :=
  (blank configs).reconfigure (List.range configs.length)

end Steps

end Plugins
end DiploidAgent
