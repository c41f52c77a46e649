import DiploidAgent.Lib.Runs
import DiploidAgent.Runtime.Config

/-!
# The live config and its overrides file

An update checks a request as a whole, sets the fields that the request set, and writes
all sections to the overrides file.  At the start the file is laid over the config that
the harness was given.

The live config survives a restart exactly when no field was cleared that the given
config sets, the config of every plugin is JSON, and the chats of the mesh are those of
the given config (`config_survives_iff`): missing values are not written, and the mesh
section is neither written nor read.
-/

namespace DiploidAgent
namespace HarnessConfig

open Records Runs

/-! ### The config -/

/-- The sections that are merged over the given ones. -/
inductive Section where
  | task
  | waker
  | timer
  | notifications
  | telegram
deriving DecidableEq

namespace Section

def all : List Section := [.task, .waker, .timer, .notifications, .telegram]

theorem mem_all (k : Section) : k ∈ all := by
  cases k <;> decide

def key : Section → String
  | .task => "task"
  | .waker => "waker"
  | .timer => "timer"
  | .notifications => "notifications"
  | .telegram => "telegram"

/-- The fields that are not written. -/
def excluded : Section → List String
  | .telegram => ["token"]
  | _ => []

end Section

inductive ChatMapping where
  | perSender
  | single
  | session
deriving DecidableEq

/-- The fields of the mesh section that can be changed. -/
structure Mesh where
  chatMap : Dict String String
  chatMapping : ChatMapping
  fallbackChatId : String

def schema (P : Pydantic) : Section → Schema Value
  | .task => taskConfig P
  | .waker => wakerConfig P
  | .timer => timerConfig P
  | .notifications => notificationsConfig P
  | .telegram => telegramConfig P

abbrev Plugin (P : Pydantic) := Record (pluginConfig P)

structure Config (P : Pydantic) where
  sections : ∀ k, Record (schema P k)
  plugins : List (Plugin P)
  mesh : Mesh

/-! ### Updates -/

section Updates

variable {P : Pydantic}

/-- `_update_config_section`; the request is the model that the caller built of it. -/
def updateConfigSection (live : Config P) (k : Section) (request : Dict String Value) :
    Except Failure (Config P) :=
  (Record.construct (schema P k) request).bind fun new =>
    ((live.sections k).update new request.keys).map fun m =>
      { live with sections := Function.update live.sections k m }

def pluginName (p : Plugin P) : String :=
  match p.values.get "name" with
  | some (.str name) => name
  | _ => ""

def byName (plugins : List (Plugin P)) : Dict String (Plugin P) :=
  plugins.foldl (fun d p => d.set (pluginName p) p) Dict.empty

/-- One plugin of a request: an existing one is changed, a new one appended. -/
def mergePlugin (d : Dict String (Plugin P)) (request : Dict String Value) :
    Except Failure (Dict String (Plugin P)) :=
  (Record.construct (pluginConfig P) request).bind fun plugin =>
    match d.get (pluginName plugin) with
    | some existing => (existing.update plugin request.keys).map (d.set (pluginName plugin))
    | none => .ok (d.set (pluginName plugin) plugin)

def mergePlugins (d : Dict String (Plugin P)) :
    List (Dict String Value) → Except Failure (Dict String (Plugin P))
  | [] => .ok d
  | request :: requests => (mergePlugin d request).bind fun d' => mergePlugins d' requests

def updatePluginsConfig (live : Config P) (requests : List (Dict String Value)) :
    Except Failure (Config P) :=
  (mergePlugins (byName live.plugins) requests).map fun d => { live with plugins := d.values }

def updateMeshChatMap (live : Config P) (chatMap : Option (Dict String String))
    (chatMapping : Option ChatMapping) (fallbackChatId : Option String) : Config P :=
  { live with
    mesh := {
      chatMap :=
        match chatMap with
        | some entries => setAll live.mesh.chatMap entries.entries
        | none => live.mesh.chatMap
      chatMapping := chatMapping.getD live.mesh.chatMapping
      fallbackChatId := fallbackChatId.getD live.mesh.fallbackChatId } }

/-- An update of a section, of the plugins or of the chats of the mesh. -/
inductive Op where
  | config (k : Section) (request : Dict String Value)
  | plugins (requests : List (Dict String Value))
  | mesh (chatMap : Option (Dict String String)) (chatMapping : Option ChatMapping)
      (fallbackChatId : Option String)

def update (live : Config P) : Op → Except Failure (Config P)
  | .config k request => updateConfigSection live k request
  | .plugins requests => updatePluginsConfig live requests
  | .mesh chatMap chatMapping fallbackChatId =>
      .ok (updateMeshChatMap live chatMap chatMapping fallbackChatId)

end Updates

/-! ### The overrides file -/

section Overrides

variable (P : Pydantic)

def dumpValues (excluded : List String) (m : Dict String Value) : Value :=
  .dict (dump Value.isNone (Value.json P.form) excluded m).entries

variable {P}

def sectionMember (live : Config P) (k : Section) : String × Value :=
  (k.key, dumpValues P k.excluded (live.sections k).values)

def pluginItem (p : Plugin P) : Value := dumpValues P [] p.values

/-- What `_save_runtime_overrides` writes. -/
def saveRuntimeOverrides (live : Config P) : Value :=
  .dict (Section.all.map (sectionMember live) ++
    [("plugins", .list (live.plugins.map pluginItem))])

/-- `_load_override`: a section that is rejected leaves the existing one, and an error of
another kind ends the start. -/
def loadOverride (k : Section) (existing : Record (schema P k)) (data : Dict String Value) :
    Option (Record (schema P k)) :=
  match data.get k.key with
  | some (.dict section_) =>
      match Record.construct (schema P k) (setAll existing.values section_) with
      | .ok m => some m
      | .error .invalid => some existing
      | .error .raised => none
  | _ => some existing

/-- The plugins of the file that are not rejected. -/
def readPlugins : List Value → Option (List (Plugin P))
  | [] => some []
  | .dict item :: items =>
      match Record.construct (pluginConfig P) (setAll Dict.empty item) with
      | .ok p => (readPlugins items).map (p :: ·)
      | .error .invalid => readPlugins items
      | .error .raised => none
  | _ :: items => readPlugins items

def loadPluginsOverride (existing : List (Plugin P)) (data : Dict String Value) :
    Option (List (Plugin P)) :=
  match data.get "plugins" with
  | some (.list items) =>
      (readPlugins items).map fun plugins => if plugins.isEmpty then existing else plugins
  | _ => some existing

/-- The sections, unless the start ended at one of them. -/
def sequence (r : ∀ k, Option (Record (schema P k))) : Option (∀ k, Record (schema P k)) :=
  if h : ∀ k ∈ Section.all, (r k).isSome = true then
    some fun k => (r k).get (h k (Section.mem_all k))
  else none

/-- `_load_runtime_overrides`; without a file, or with one that is no mapping, nothing is
changed. -/
def loadRuntimeOverrides (base : Config P) : Option Value → Option (Config P)
  | some (.dict members) =>
      (sequence fun k =>
          loadOverride k (base.sections k) (setAll Dict.empty members)).bind fun sections =>
        (loadPluginsOverride base.plugins (setAll Dict.empty members)).map fun plugins =>
          { sections := sections
            plugins := plugins
            mesh := base.mesh }
  | _ => some base

end Overrides

/-- The live config, and what the overrides file holds. -/
structure State (P : Pydantic) where
  live : Config P
  file : Option Value

/-- An update that is accepted and saved. -/
def step {P : Pydantic} (s : State P) (op : Op) : Option (State P) :=
  match update s.live op with
  | .ok live => some ⟨live, some (saveRuntimeOverrides live)⟩
  | .error _ => none

/-! ### What is claimed -/

section Claimed

variable {P : Pydantic}

/-- The live sections are equal, the telegram token excepted. -/
structure Same (c c' : Config P) : Prop where
  sections : ∀ k, Record.Agree k.excluded (c.sections k) (c'.sections k)
  plugins : List.Forall₂ (Record.Agree []) c.plugins c'.plugins
  chatMap : ∀ key, c.mesh.chatMap.get key = c'.mesh.chatMap.get key
  chatMapping : c.mesh.chatMapping = c'.mesh.chatMapping
  fallbackChatId : c.mesh.fallbackChatId = c'.mesh.fallbackChatId

/-- Loading the given config again restores the live one. -/
def Survives (base : Config P) (s : State P) : Prop :=
  ∃ c, loadRuntimeOverrides base s.file = some c ∧ Same c s.live

def missing {S : Schema Value} (m : Record S) (name : String) : Bool :=
  (m.values.get name).any Value.isNone

def configJson (p : Plugin P) : Bool := (p.values.get "config").all Value.isJson

/-- No field is missing that the given config has, the plugins' configs are JSON, and the
chats of the mesh are the given ones. -/
structure Kept (base live : Config P) : Prop where
  sections : ∀ k, ∀ f ∈ (schema P k).fields, f.name ∉ k.excluded →
    missing (live.sections k) f.name = true → missing (base.sections k) f.name = true
  plugins : ∀ p ∈ live.plugins, configJson p = true
  chatMap : ∀ key, base.mesh.chatMap.get key = live.mesh.chatMap.get key
  chatMapping : base.mesh.chatMapping = live.mesh.chatMapping
  fallbackChatId : base.mesh.fallbackChatId = live.mesh.fallbackChatId

end Claimed

/-! ### What is loaded of a saved file -/

section Restore

variable {P : Pydantic}

theorem isNone_iff {v : Value} : v.isNone = true ↔ v = .none := by
  cases v <;> simp [Value.isNone]

theorem schema_clean (k : Section) : ∀ f ∈ (schema P k).fields, Clean f := by
  cases k with
  | task => exact taskFields_clean P
  | waker => exact wakerFields_clean P
  | timer => exact timerFields_clean P
  | notifications => exact notificationsFields_clean P
  | telegram => exact telegramFields_clean P

theorem get_saved_section
    (live : Config P) (k : Section) :
    (setAll Dict.empty (Section.all.map (sectionMember live) ++
        [("plugins", .list (live.plugins.map pluginItem))])).get k.key =
      some (dumpValues P k.excluded (live.sections k).values) := by
  cases k <;> simp [setAll, Section.all, sectionMember, Section.key, Dict.get_set]

theorem get_saved_plugins
    (live : Config P) :
    (setAll Dict.empty (Section.all.map (sectionMember live) ++
        [("plugins", .list (live.plugins.map pluginItem))])).get "plugins" =
      some (.list (live.plugins.map pluginItem)) := by
  simp [setAll, Section.all, sectionMember, Section.key]

/-- A section comes back unless a field is missing that the given one has. -/
theorem loadOverride_saved
    (base live : Config P) (k : Section) {data : Dict String Value}
    (hdata : data.get k.key = some (dumpValues P k.excluded (live.sections k).values)) :
    ∃ m, loadOverride k (base.sections k) data = some m ∧
      (Record.Agree k.excluded m (live.sections k) ↔
        ∀ f ∈ (schema P k).fields, f.name ∉ k.excluded →
          missing (live.sections k) f.name = true →
            missing (base.sections k) f.name = true) := by
  have hback : ∀ f ∈ (schema P k).fields, ∀ v, (live.sections k).values.get f.name = some v →
      v.isNone = false → f.check (v.json P.form) = .ok v := by
    intro f hf v hv hnone
    obtain ⟨w, hw, hcheck⟩ := (live.sections k).valid f hf
    obtain rfl := Option.some.inj (hw.symm.trans hv)
    exact (schema_clean k f hf).returns w w hcheck hnone
  obtain ⟨m, hm, hget⟩ := construct_overlay (base.sections k) (live.sections k) k.excluded hback
  refine ⟨m, ?_, ?_⟩
  · rw [loadOverride, hdata]
    simp only [dumpValues, hm]
  · rw [agree_overlay_iff hget]
    refine forall_congr' fun f => forall_congr' fun hf => forall_congr' fun _ => ?_
    obtain ⟨v, hv, _⟩ := (live.sections k).valid f hf
    obtain ⟨b, hb, _⟩ := (base.sections k).valid f hf
    rw [missing, missing, hv, hb, Option.any_some, Option.any_some, isNone_iff, isNone_iff]
    constructor
    · intro h hnone
      obtain rfl := hnone
      exact Option.some.inj (h .none rfl rfl)
    · intro h w hw hnone
      obtain rfl := Option.some.inj hw
      obtain rfl := isNone_iff.mp hnone
      rw [h rfl]

theorem sequence_some
    {r : ∀ k, Option (Record (schema P k))} {m : ∀ k, Record (schema P k)}
    (h : ∀ k, r k = some (m k)) :
    sequence r = some m := by
  have hall : ∀ k ∈ Section.all, (r k).isSome = true := fun k _ => by rw [h k]; rfl
  rw [sequence, dif_pos hall]
  refine congrArg some (funext fun k => ?_)
  exact Option.get_of_eq_some _ (h k)

/-- A plugin comes back with the JSON form of its config. -/
def Reread (p q : Plugin P) : Prop :=
  ∀ f ∈ (pluginConfig P).fields, ∀ v, p.values.get f.name = some v →
    q.values.get f.name = some (if f.name = "config" then v.json P.form else v)

theorem construct_plugin
    (p : Plugin P) :
    ∃ q, Record.construct (pluginConfig P) (setAll Dict.empty
        (dump Value.isNone (Value.json P.form) [] p.values).entries) = .ok q ∧ Reread p q := by
  have hread : ∀ f ∈ (pluginConfig P).fields, ∀ v, p.values.get f.name = some v →
      f.read (setAll Dict.empty (dump Value.isNone (Value.json P.form) [] p.values).entries) =
        .ok (if f.name = "config" then v.json P.form else v) := by
    intro f hf v hv
    obtain ⟨w, hw, hcheck⟩ := p.valid f hf
    obtain rfl := Option.some.inj (hw.symm.trans hv)
    cases hnone : w.isNone with
    | true =>
        obtain rfl := isNone_iff.mp hnone
        have hdefault := pluginFields_blank f hf hcheck
        rw [read_of_missing ((get_ofEntries _ _).trans (get_dump_of_none hv hnone)) hdefault]
        split_ifs <;> rfl
    | false =>
        have hwritten : (dump Value.isNone (Value.json P.form) [] p.values).get f.name =
            some (w.json P.form) := get_dump_of_kept hv hnone List.not_mem_nil
        rw [read_of_get ((get_ofEntries _ _).trans hwritten)]
        rcases pluginFields_return f hf with rfl | ⟨hname, hreturns⟩
        · -- The config is any mapping, and so is its JSON form.
          have htype := has_typed (checked_eq_ok hcheck).1
          cases w with
          | dict members => exact checked_self rfl rfl
          | _ => cases htype
        · rw [if_neg hname]
          exact hreturns w w hcheck hnone
  obtain ⟨m, hm⟩ := construct_ok fun f hf => by
    obtain ⟨v, hv, _⟩ := p.valid f hf
    exact ⟨_, hread f hf v hv⟩
  refine ⟨⟨m, valid_of_construct hm⟩, Record.ofResult_eq_ok.mpr hm, fun f hf v hv => ?_⟩
  obtain ⟨w, hw, hget⟩ := get_of_construct (pluginConfig P).nodup hm hf
  obtain rfl := Except.ok.inj (hw.symm.trans (hread f hf v hv))
  exact hget

theorem config_mem : pluginConfigField P ∈ (pluginConfig P).fields := by
  simp [pluginConfig, modelClass, pluginFields, pluginConfigField]

/-- A plugin is as it was exactly when its config is JSON. -/
theorem agree_reread
    {p q : Plugin P} (h : Reread p q) :
    Record.Agree [] q p ↔ configJson p = true := by
  obtain ⟨v, hv, _⟩ := p.valid _ config_mem
  have hv' : p.values.get "config" = some v := hv
  have hq := h _ config_mem v hv
  rw [configJson, hv', Option.all_some, ← json_eq_self_iff P.form_isJson]
  constructor
  · intro hagree
    have hget := (hagree _ config_mem List.not_mem_nil).symm.trans hq
    exact (Option.some.inj (hv.symm.trans hget)).symm
  · intro hjson f hf _
    obtain ⟨w, hw, _⟩ := p.valid f hf
    rw [h f hf w hw, hw]
    split_ifs with hname
    · obtain rfl := Option.some.inj ((hname ▸ hw).symm.trans hv')
      rw [hjson]
    · rfl

theorem readPlugins_saved :
    ∀ plugins : List (Plugin P), ∃ restored,
      readPlugins (P := P) (plugins.map pluginItem) = some restored ∧
        List.Forall₂ Reread plugins restored
  | [] => ⟨[], rfl, List.Forall₂.nil⟩
  | p :: plugins => by
      obtain ⟨q, hq, hreread⟩ := construct_plugin p
      obtain ⟨restored, hrestored, hrest⟩ := readPlugins_saved plugins
      refine ⟨q :: restored, ?_, List.Forall₂.cons hreread hrest⟩
      rw [List.map_cons, pluginItem, dumpValues, readPlugins]
      simp only [hq, hrestored, Option.map_some]

theorem agree_rereads
    {plugins restored : List (Plugin P)} (h : List.Forall₂ Reread plugins restored) :
    List.Forall₂ (Record.Agree []) restored plugins ↔ ∀ p ∈ plugins, configJson p = true := by
  induction h with
  | nil => simp
  | cons hhead _ ih => rw [List.forall₂_cons, List.forall_mem_cons, agree_reread hhead, ih]

/-- The plugins come back when there are any, or the given config has none. -/
theorem loadPlugins_saved
    (base live : Config P) {data : Dict String Value}
    (hdata : data.get "plugins" = some (.list (live.plugins.map pluginItem)))
    (hempty : live.plugins = [] → base.plugins = []) :
    ∃ plugins, loadPluginsOverride base.plugins data = some plugins ∧
      (List.Forall₂ (Record.Agree []) plugins live.plugins ↔
        ∀ p ∈ live.plugins, configJson p = true) := by
  obtain ⟨restored, hrestored, hrereads⟩ := readPlugins_saved live.plugins
  refine ⟨restored, ?_, agree_rereads hrereads⟩
  rw [loadPluginsOverride, hdata]
  simp only [hrestored, Option.map_some]
  split_ifs with hnil
  · have hlive : live.plugins = [] := by
      rw [List.isEmpty_iff.mp hnil] at hrereads
      exact List.forall₂_nil_right_iff.mp hrereads
    rw [hempty hlive, List.isEmpty_iff.mp hnil]
  · rfl

/-- A saved config comes back exactly when it is kept. -/
theorem survives_saved
    (base live : Config P) (hempty : live.plugins = [] → base.plugins = []) :
    Survives base ⟨live, some (saveRuntimeOverrides live)⟩ ↔ Kept base live := by
  have hsections := fun k => loadOverride_saved base live k (get_saved_section live k)
  choose sections hload hagree using hsections
  obtain ⟨plugins, hplugins, hsame⟩ :=
    loadPlugins_saved base live (get_saved_plugins live) hempty
  have hloaded : loadRuntimeOverrides base (some (saveRuntimeOverrides live)) =
      some ⟨sections, plugins, base.mesh⟩ := by
    rw [saveRuntimeOverrides, loadRuntimeOverrides, sequence_some hload, Option.bind_some,
      hplugins, Option.map_some]
  constructor
  · rintro ⟨c, hc, h⟩
    obtain rfl := Option.some.inj (hloaded.symm.trans hc)
    exact {
      sections := fun k => (hagree k).mp (h.sections k)
      plugins := hsame.mp h.plugins
      chatMap := h.chatMap
      chatMapping := h.chatMapping
      fallbackChatId := h.fallbackChatId }
  · intro h
    exact ⟨_, hloaded, {
      sections := fun k => (hagree k).mpr (h.sections k)
      plugins := hsame.mpr h.plugins
      chatMap := h.chatMap
      chatMapping := h.chatMapping
      fallbackChatId := h.fallbackChatId }⟩

end Restore

/-! ### Plugins are never removed -/

section Plugins

variable {P : Pydantic}

theorem values_set_ne_nil
    (d : Dict String (Plugin P)) (name : String) (p : Plugin P) :
    (d.set name p).values ≠ [] := by
  intro h
  have hmem := Dict.mem_values_of_get (Dict.get_set_self d name p)
  rw [h] at hmem
  cases hmem

theorem byName_ne_nil
    {plugins : List (Plugin P)} (h : plugins ≠ []) :
    (byName plugins).values ≠ [] := by
  obtain ⟨first, p, rfl⟩ := List.eq_nil_or_concat' plugins |>.resolve_left h
  rw [byName, List.foldl_append]
  exact values_set_ne_nil _ _ _

theorem mergePlugin_ne_nil
    {d d' : Dict String (Plugin P)} {request : Dict String Value}
    (hmerge : mergePlugin d request = .ok d') :
    d'.values ≠ [] := by
  obtain ⟨plugin, _, hmerge⟩ := bind_eq_ok.mp hmerge
  cases hget : d.get (pluginName plugin) with
  | none =>
      simp only [hget] at hmerge
      obtain rfl := Except.ok.inj hmerge
      exact values_set_ne_nil _ _ _
  | some existing =>
      simp only [hget] at hmerge
      obtain ⟨m, _, rfl⟩ := map_eq_ok.mp hmerge
      exact values_set_ne_nil _ _ _

theorem mergePlugins_ne_nil
    {d d' : Dict String (Plugin P)} {requests : List (Dict String Value)}
    (h : d.values ≠ []) (hmerge : mergePlugins d requests = .ok d') :
    d'.values ≠ [] := by
  induction requests generalizing d with
  | nil =>
      obtain rfl := Except.ok.inj hmerge
      exact h
  | cons request requests ih =>
      obtain ⟨d₁, hone, hrest⟩ := bind_eq_ok.mp hmerge
      exact ih (mergePlugin_ne_nil hone) hrest

theorem update_plugins
    {live live' : Config P} {op : Op} (h : update live op = .ok live')
    (hne : live.plugins ≠ []) :
    live'.plugins ≠ [] := by
  cases op with
  | config k request =>
      obtain ⟨new, _, h⟩ := bind_eq_ok.mp h
      obtain ⟨m, _, rfl⟩ := map_eq_ok.mp h
      exact hne
  | plugins requests =>
      obtain ⟨d, hd, rfl⟩ := map_eq_ok.mp h
      exact mergePlugins_ne_nil (byName_ne_nil hne) hd
  | mesh chatMap chatMapping fallbackChatId =>
      obtain rfl := Except.ok.inj h
      exact hne

theorem loadPlugins_ne_nil
    {existing plugins : List (Plugin P)} {data : Dict String Value}
    (h : loadPluginsOverride existing data = some plugins) (hne : existing ≠ []) :
    plugins ≠ [] := by
  unfold loadPluginsOverride at h
  split at h
  · obtain ⟨restored, _, rfl⟩ := Option.map_eq_some_iff.mp h
    split_ifs with hnil
    · exact hne
    · exact fun heq => hnil (List.isEmpty_iff.mpr heq)
  · obtain rfl := Option.some.inj h
    exact hne

theorem load_plugins
    {base live : Config P} {file : Option Value}
    (h : loadRuntimeOverrides base file = some live) (hne : base.plugins ≠ []) :
    live.plugins ≠ [] := by
  unfold loadRuntimeOverrides at h
  split at h
  · obtain ⟨sections, _, h⟩ := Option.bind_eq_some_iff.mp h
    obtain ⟨plugins, hplugins, rfl⟩ := Option.map_eq_some_iff.mp h
    exact loadPlugins_ne_nil hplugins hne
  · obtain rfl := Option.some.inj h
    exact hne

end Plugins

section Results

variable {P : Pydantic}

theorem step_eq_some
    {s s' : State P} {op : Op} (h : step s op = some s') :
    ∃ live, update s.live op = .ok live ∧
      s' = ⟨live, some (saveRuntimeOverrides live)⟩ := by
  unfold step at h
  cases hupdate : update s.live op with
  | error e =>
      rw [hupdate] at h
      cases h
  | ok live =>
      rw [hupdate] at h
      exact ⟨live, rfl, (Option.some.inj h).symm⟩

theorem same_refl (c : Config P) : Same c c where
  sections _ _ _ _ := rfl
  plugins := List.forall₂_same.mpr fun _ _ _ _ _ => rfl
  chatMap _ := rfl
  chatMapping := rfl
  fallbackChatId := rfl

/-- **The round trip.**  Whatever the overrides file held at the start, the live config
after any updates survives a restart exactly when there were none or it is kept. -/
theorem config_survives_iff
    (base live : Config P) (file : Option Value)
    (hload : loadRuntimeOverrides base file = some live)
    (ops : List Op) (s : State P) (hrun : run step ⟨live, file⟩ ops = some s) :
    Survives base s ↔ ops = [] ∨ Kept base s.live := by
  rcases List.eq_nil_or_concat' ops with rfl | ⟨first, op, rfl⟩
  · obtain rfl := Option.some.inj hrun
    exact iff_of_true ⟨live, hload, same_refl live⟩ (Or.inl rfl)
  · obtain ⟨t, hfirst, hlast⟩ := run_append_eq_some.mp hrun
    rw [run_cons_eq_some] at hlast
    obtain ⟨u, hstep, hnil⟩ := hlast
    obtain rfl := Option.some.inj hnil
    have hplugins : base.plugins ≠ [] → t.live.plugins ≠ [] := by
      refine (reach_of_run_free hfirst).invariant
        (P := fun s => base.plugins ≠ [] → s.live.plugins ≠ []) (load_plugins hload) ?_
      intro s₁ op₁ s₂ hne _ hstep₁ hbase
      obtain ⟨live₂, hupdate, rfl⟩ := step_eq_some hstep₁
      exact update_plugins hupdate (hne hbase)
    obtain ⟨live', hupdate, rfl⟩ := step_eq_some hstep
    rw [survives_saved base live' fun hnone => by
      by_contra hbase
      exact update_plugins hupdate (hplugins hbase) hnone]
    simp

/-- Values of another type are rejected, but for the text of a path. -/
def examplePydantic : Pydantic where
  coerce k v :=
    if k.has v = true then some v
    else
      match k, v with
      | .path, .str s => some (.path s)
      | _, _ => none
  expanduser p :=
    if p.toList.head? = some '~' then
      some (String.ofList ("/home/agent".toList ++ p.toList.tail))
    else some p
  form text := .str text
  coerce_self k v h := if_pos h
  has_coerce k v w h := by
    split_ifs at h with hk
    · exact Option.some.inj h ▸ hk
    · split at h
      · obtain rfl := Option.some.inj h
        rfl
      · cases h
  expanduser_self p q h := by
    split_ifs at h with hhome
    · obtain rfl := Option.some.inj h
      rw [String.toList_ofList]
      rfl
    · obtain rfl := Option.some.inj h
      exact if_neg hhome
  coerce_text p q h := rfl
  form_isJson _ := rfl

/-- What `harness.yaml` sets: a model for the tasks. -/
def exampleGiven : Section → Dict String Value
  | .task => Dict.empty.set "acp_model" (.str "m-1")
  | _ => Dict.empty

theorem exampleGiven_ok (k : Section) :
    (Record.construct (schema examplePydantic k) (exampleGiven k)).toOption.isSome = true := by
  cases k <;> decide +kernel

def exampleBase : Config examplePydantic where
  sections k := (Record.construct (schema examplePydantic k) (exampleGiven k)).toOption.get
    (exampleGiven_ok k)
  plugins := []
  mesh :=
    { chatMap := Dict.empty
      chatMapping := .perSender
      fallbackChatId := "mesh:inbox" }

/-- Two workers, a model whose text has blanks around it, a plugin and a token. -/
def keptRun : List Op :=
  [.config .task ((Dict.empty.set "workers" (.int 2)).set "acp_model" (.str " m-2 ")),
    .plugins [(Dict.empty.set "name" (.str "mesh")).set "skill_path" (.str "~/mesh.md")],
    .config .telegram (Dict.empty.set "token" (.str "t-1"))]

theorem config_survives_iff_keptRun :
    ∃ s, run step ⟨exampleBase, none⟩ keptRun = some s ∧ Survives exampleBase s := by
  have hsome : (run step ⟨exampleBase, none⟩ keptRun).isSome = true := by decide +kernel
  obtain ⟨s, hrun⟩ := Option.isSome_iff_exists.mp hsome
  have hsections : (run step ⟨exampleBase, none⟩ keptRun).all (fun s =>
      Section.all.all fun k => (schema examplePydantic k).fields.all fun f =>
        !missing (s.live.sections k) f.name || missing (exampleBase.sections k) f.name ||
          k.excluded.contains f.name) = true := by
    decide +kernel
  have hplugins : (run step ⟨exampleBase, none⟩ keptRun).all (fun s =>
      s.live.plugins.all configJson && decide (s.live.mesh.chatMap = exampleBase.mesh.chatMap) &&
        decide (s.live.mesh.chatMapping = exampleBase.mesh.chatMapping) &&
        decide (s.live.mesh.fallbackChatId = exampleBase.mesh.fallbackChatId)) = true := by
    decide +kernel
  rw [hrun, Option.all_some] at hsections hplugins
  refine ⟨s, hrun, (config_survives_iff exampleBase exampleBase none rfl keptRun s hrun).mpr
    (Or.inr ?_)⟩
  simp only [Bool.and_eq_true, decide_eq_true_eq, List.all_eq_true] at hplugins
  obtain ⟨⟨⟨hjson, hchats⟩, hmapping⟩, hfallback⟩ := hplugins
  refine ⟨fun k f hf hname hmissing => ?_, hjson, fun key => by rw [hchats], hmapping.symm,
    hfallback.symm⟩
  have hfield := List.all_eq_true.mp (List.all_eq_true.mp hsections k (Section.mem_all k)) f hf
  simpa [hmissing, hname] using hfield

/-- The model of the tasks is cleared. -/
def clearedRun : List Op := [.config .task (Dict.empty.set "acp_model" .none)]

/-- The chats of the mesh are mapped in another way. -/
def mappedRun : List Op := [.mesh none (some .single) none]

/-- The cleared model is back after a restart, and so is the old mapping. -/
theorem cleared_field_returns :
    (∃ s, run step ⟨exampleBase, none⟩ clearedRun = some s ∧
      missing (s.live.sections .task) "acp_model" = true ∧ ¬ Survives exampleBase s) ∧
    (∃ s, run step ⟨exampleBase, none⟩ mappedRun = some s ∧
      s.live.mesh.chatMapping = .single ∧ ¬ Survives exampleBase s) := by
  constructor
  · have hlive : (run step ⟨exampleBase, none⟩ clearedRun).map (fun s =>
        missing (s.live.sections .task) "acp_model") = some true := by
      decide +kernel
    have hrestored : (run step ⟨exampleBase, none⟩ clearedRun).bind (fun s =>
        (loadRuntimeOverrides exampleBase s.file).map fun c =>
          missing (c.sections .task) "acp_model") = some false := by
      decide +kernel
    obtain ⟨s, hrun, hs⟩ := Option.map_eq_some_iff.mp hlive
    rw [hrun, Option.bind_some] at hrestored
    refine ⟨s, hrun, hs, ?_⟩
    rintro ⟨c, hc, hsame⟩
    rw [hc, Option.map_some] at hrestored
    have hfield : ∃ f ∈ (schema examplePydantic .task).fields, f.name = "acp_model" :=
      ⟨_, List.mem_of_getLast? rfl, rfl⟩
    obtain ⟨f, hf, hname⟩ := hfield
    have hget := hsame.sections .task f hf List.not_mem_nil
    rw [missing, ← hname, ← hget, hname] at hs
    rw [missing, hs] at hrestored
    cases hrestored
  · have hlive : (run step ⟨exampleBase, none⟩ mappedRun).map (fun s =>
        s.live.mesh.chatMapping) = some .single := by
      decide +kernel
    have hrestored : (run step ⟨exampleBase, none⟩ mappedRun).bind (fun s =>
        (loadRuntimeOverrides exampleBase s.file).map fun c => c.mesh.chatMapping) =
          some .perSender := by
      decide +kernel
    obtain ⟨s, hrun, hs⟩ := Option.map_eq_some_iff.mp hlive
    rw [hrun, Option.bind_some] at hrestored
    refine ⟨s, hrun, hs, ?_⟩
    rintro ⟨c, hc, hsame⟩
    rw [hc, Option.map_some, hsame.chatMapping, hs] at hrestored
    cases hrestored

end Results

end HarnessConfig
end DiploidAgent
