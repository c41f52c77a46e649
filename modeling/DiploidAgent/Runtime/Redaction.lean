import DiploidAgent.Acp.McpServers
import DiploidAgent.Runtime.Config

/-!
# What `get_config` shows

`_redact_secret_fields` and `get_config` of `runtime/config_manager.py`.  Of the config the
fields that hold MCP servers are spelled out; every other section is a tree of values.

The values of fields with secret names are masked at any depth.  The environment of an MCP
server is a list of `NAME=VALUE` texts, which are no fields: two configs that differ only in
secret values are shown alike exactly when these lists are the same (`getConfig_eq_iff`).
-/

namespace DiploidAgent
namespace HarnessConfig
namespace Redaction

open Acp.McpServers (McpServerConfig)

/-! ### The redactor -/

/-- `_SECRET_FIELD_SUFFIXES`. -/
def secretFieldSuffixes : List String := ["token", "api_key", "_key", "secret", "password"]

/-- `str.lower` of a character, as far as it gives a letter of a suffix: besides the capital
letters it is the Kelvin sign that gives one. -/
def lowerChar (c : Char) : Char := if c.toNat = 0x212a then 'k' else c.toLower

/-- `key.lower().endswith(_SECRET_FIELD_SUFFIXES)`. -/
def secretName (name : List Char) : Bool :=
  secretFieldSuffixes.any fun suffix => suffix.toList.isSuffixOf (name.map lowerChar)

mutual

/-- `_redact_secret_fields`. -/
def redact : Value → Value
  | .dict members => .dict (redactMembers members)
  | .list items => .list (redactItems items)
  | .none => .none
  | .bool b => .bool b
  | .int n => .int n
  | .float x => .float x
  | .str s => .str s
  | .path s => .path s
  | .other text => .other text

def redactItems : List Value → List Value
  | [] => []
  | v :: vs => redact v :: redactItems vs

def redactMembers : List (String × Value) → List (String × Value)
  | [] => []
  | (k, v) :: ms =>
      (k, if secretName k.toList then .str "***" else redact v) :: redactMembers ms

end

/-! ### The config -/

/-- `PluginConfig`. -/
structure PluginConfig where
  name : String
  enabled : Bool := true
  module : Option String := none
  stateFile : Option String := none
  mcpServer : Option McpServerConfig := none
  skill : Option String := none
  skillPath : Option String := none
  promptSlot : String := "self_state"
  firstPromptOnly : Bool := false
  promptOrder : Int := 100
  maxPromptChars : Int := 1024
  promptTemplate : Option String := none
  config : List (String × Value) := []

/-- `HarnessConfig`; its other fields are members of `fields`. -/
structure Harness where
  plugins : List PluginConfig := []
  mcpServers : List McpServerConfig := []
  mcpDefaultEnabled : List String := []
  fields : List (String × Value) := []

/-- `Secrets`. -/
structure Secrets where
  windsurfApiKey : Option String := none
  harnessApiKey : Option String := none

/-- `Config`. -/
structure Config where
  engine : List (String × Value)
  persona : List (String × Value)
  harness : Harness
  secrets : Option Secrets := none

section Dump

variable (form : String → Value)

def optional : Option String → Value
  | none => .none
  | some s => .str s

def strings (l : List String) : Value := .list (l.map .str)

def dumpServer (s : McpServerConfig) : Value :=
  .dict [
    ("name", .str s.name),
    ("command", .str s.command),
    ("args", strings s.args),
    ("env", strings s.env),
    ("disabled", .bool s.disabled)]

def dumpPlugin (p : PluginConfig) : Value :=
  .dict [
    ("name", .str p.name),
    ("enabled", .bool p.enabled),
    ("module", optional p.module),
    ("state_file", optional p.stateFile),
    ("mcp_server", (p.mcpServer.map dumpServer).getD .none),
    ("skill", optional p.skill),
    ("skill_path", optional p.skillPath),
    ("prompt_slot", .str p.promptSlot),
    ("first_prompt_only", .bool p.firstPromptOnly),
    ("prompt_order", .int p.promptOrder),
    ("max_prompt_chars", .int p.maxPromptChars),
    ("prompt_template", optional p.promptTemplate),
    ("config", .dict (jsonMembers form p.config))]

def dumpMcp (h : Harness) : Value :=
  .dict [
    ("servers", .list (h.mcpServers.map dumpServer)),
    ("default_enabled", strings h.mcpDefaultEnabled)]

def dumpHarness (h : Harness) : Value :=
  .dict (("plugins", .list (h.plugins.map (dumpPlugin form))) ::
    ("mcp", dumpMcp h) :: jsonMembers form h.fields)

/-- `model_dump(mode="json", exclude={"secrets"})`. -/
def modelDump (c : Config) : Value :=
  .dict [
    ("engine", .dict (jsonMembers form c.engine)),
    ("persona", .dict (jsonMembers form c.persona)),
    ("harness", dumpHarness form c.harness)]

/-- `get_config`. -/
def getConfig (c : Config) : Value := redact (modelDump form c)

end Dump

/-! ### Configs that differ in secrets only -/

mutual

/-- The values differ only in those of fields with secret names. -/
def Alike : Value → Value → Prop
  | .list vs, .list ws => AlikeItems vs ws
  | .dict ms, .dict ns => AlikeMembers ms ns
  | v, w => v = w

def AlikeItems : List Value → List Value → Prop
  | [], [] => True
  | v :: vs, w :: ws => Alike v w ∧ AlikeItems vs ws
  | _, _ => False

def AlikeMembers : List (String × Value) → List (String × Value) → Prop
  | [], [] => True
  | (k, v) :: ms, (l, w) :: ns =>
      k = l ∧ (secretName k.toList = true ∨ Alike v w) ∧ AlikeMembers ms ns
  | _, _ => False

end

/-- The texts are the same, or differ only in the value of a secret name. -/
def AlikeEntry (e e' : String) : Prop :=
  e = e' ∨ ∃ name value value', secretName name = true ∧ '=' ∉ name ∧
    e.toList = name ++ '=' :: value ∧ e'.toList = name ++ '=' :: value'

structure AlikeServer (s s' : McpServerConfig) : Prop where
  rest : { s with env := [] } = { s' with env := [] }
  env : List.Forall₂ AlikeEntry s.env s'.env

structure AlikePlugin (p p' : PluginConfig) : Prop where
  rest : { p with
      mcpServer := none
      config := [] } =
    { p' with
      mcpServer := none
      config := [] }
  server : Option.Rel AlikeServer p.mcpServer p'.mcpServer
  config : AlikeMembers p.config p'.config

/-- The configs differ only in the values of fields with secret names and in the values of
secret names in the environments of MCP servers. -/
structure DifferInSecrets (c c' : Config) : Prop where
  engine : AlikeMembers c.engine c'.engine
  persona : AlikeMembers c.persona c'.persona
  fields : AlikeMembers c.harness.fields c'.harness.fields
  servers : List.Forall₂ AlikeServer c.harness.mcpServers c'.harness.mcpServers
  enabled : c.harness.mcpDefaultEnabled = c'.harness.mcpDefaultEnabled
  plugins : List.Forall₂ AlikePlugin c.harness.plugins c'.harness.plugins

/-- The environments of the MCP servers, configured ones and plugins'. -/
def environments (c : Config) : List (List String) × List (Option (List String)) :=
  (c.harness.mcpServers.map (·.env), c.harness.plugins.map fun p => p.mcpServer.map (·.env))

/-! ### What the redactor leaves -/

section Redacted

variable {form : String → Value}

theorem redact_list (vs : List Value) : redact (.list vs) = .list (redactItems vs) := rfl

theorem redact_dict (ms : List (String × Value)) : redact (.dict ms) = .dict (redactMembers ms) :=
  rfl

theorem redactItems_cons (v : Value) (vs : List Value) :
    redactItems (v :: vs) = redact v :: redactItems vs := rfl

theorem redactMembers_cons (k : String) (v : Value) (ms : List (String × Value)) :
    redactMembers ((k, v) :: ms) =
      (k, if secretName k.toList then .str "***" else redact v) :: redactMembers ms := rfl

theorem redactItems_eq_map (vs : List Value) : redactItems vs = vs.map redact := by
  induction vs with
  | nil => rfl
  | cons v vs ih => rw [redactItems_cons, List.map_cons, ih]

theorem redactMembers_plain {k : String} (h : secretName k.toList = false) (v : Value)
    (ms : List (String × Value)) :
    redactMembers ((k, v) :: ms) = (k, redact v) :: redactMembers ms := by
  rw [redactMembers_cons, h, if_neg Bool.false_ne_true]

theorem redactMembers_secret {k : String} (h : secretName k.toList = true) (v : Value)
    (ms : List (String × Value)) :
    redactMembers ((k, v) :: ms) = (k, .str "***") :: redactMembers ms := by
  rw [redactMembers_cons, if_pos h]

theorem redact_strings (l : List String) : redact (strings l) = strings l := by
  rw [strings, redact_list, redactItems_eq_map, List.map_map]
  rfl

theorem redact_optional (o : Option String) : redact (optional o) = optional o := by
  cases o <;> rfl

/-- A server has no field with a secret name. -/
theorem redact_dumpServer (s : McpServerConfig) : redact (dumpServer s) = dumpServer s := by
  rw [dumpServer, redact_dict, redactMembers_plain (by decide), redactMembers_plain (by decide),
    redactMembers_plain (by decide), redactMembers_plain (by decide),
    redactMembers_plain (by decide), redact_strings, redact_strings]
  rfl

theorem redact_server_of_plugin (o : Option McpServerConfig) :
    redact ((o.map dumpServer).getD .none) = (o.map dumpServer).getD .none := by
  cases o with
  | none => rfl
  | some s => exact redact_dumpServer s

theorem redact_servers (l : List McpServerConfig) :
    redact (.list (l.map dumpServer)) = .list (l.map dumpServer) := by
  rw [redact_list, redactItems_eq_map, List.map_map]
  exact congrArg Value.list (List.map_congr_left fun s _ => redact_dumpServer s)

/-- Of a plugin only the config can hold fields with secret names. -/
theorem redact_dumpPlugin (p : PluginConfig) :
    redact (dumpPlugin form p) =
      .dict [
        ("name", .str p.name),
        ("enabled", .bool p.enabled),
        ("module", optional p.module),
        ("state_file", optional p.stateFile),
        ("mcp_server", (p.mcpServer.map dumpServer).getD .none),
        ("skill", optional p.skill),
        ("skill_path", optional p.skillPath),
        ("prompt_slot", .str p.promptSlot),
        ("first_prompt_only", .bool p.firstPromptOnly),
        ("prompt_order", .int p.promptOrder),
        ("max_prompt_chars", .int p.maxPromptChars),
        ("prompt_template", optional p.promptTemplate),
        ("config", .dict (redactMembers (jsonMembers form p.config)))] := by
  rw [dumpPlugin, redact_dict, redactMembers_plain (by decide), redactMembers_plain (by decide),
    redactMembers_plain (by decide), redactMembers_plain (by decide),
    redactMembers_plain (by decide), redactMembers_plain (by decide),
    redactMembers_plain (by decide), redactMembers_plain (by decide),
    redactMembers_plain (by decide), redactMembers_plain (by decide),
    redactMembers_plain (by decide), redactMembers_plain (by decide),
    redactMembers_plain (by decide), redact_server_of_plugin, redact_optional, redact_optional,
    redact_optional, redact_optional, redact_optional]
  rfl

theorem redact_dumpMcp (h : Harness) : redact (dumpMcp h) = dumpMcp h := by
  rw [dumpMcp, redact_dict, redactMembers_plain (by decide), redactMembers_plain (by decide),
    redact_servers, redact_strings]
  rfl

theorem redact_dumpHarness (h : Harness) :
    redact (dumpHarness form h) =
      .dict (("plugins", .list (h.plugins.map fun p => redact (dumpPlugin form p))) ::
        ("mcp", dumpMcp h) :: redactMembers (jsonMembers form h.fields)) := by
  rw [dumpHarness, redact_dict, redactMembers_plain (by decide), redactMembers_plain (by decide),
    redact_dumpMcp, redact_list, redactItems_eq_map, List.map_map]
  rfl

theorem getConfig_eq (c : Config) :
    getConfig form c =
      .dict [
        ("engine", .dict (redactMembers (jsonMembers form c.engine))),
        ("persona", .dict (redactMembers (jsonMembers form c.persona))),
        ("harness", redact (dumpHarness form c.harness))] := by
  rw [getConfig, modelDump, redact_dict, redactMembers_plain (by decide),
    redactMembers_plain (by decide), redactMembers_plain (by decide)]
  rfl

end Redacted

/-! ### What is alike is shown alike -/

section Shown

variable (form : String → Value)

/-- A list or a dict. -/
def container : Value → Bool
  | .list _ => true
  | .dict _ => true
  | _ => false

theorem eq_of_alike {v w : Value} (hv : container v = false) (h : Alike v w) : v = w := by
  cases v with
  | list vs => cases hv
  | dict ms => cases hv
  | _ => simpa only [Alike] using h

mutual

theorem redact_congr :
    ∀ v w : Value, Alike v w → redact (v.json form) = redact (w.json form)
  | .list vs, w, h => by
      cases w with
      | list ws => exact congrArg Value.list (redactItems_congr vs ws h)
      | _ => simp [Alike] at h
  | .dict ms, w, h => by
      cases w with
      | dict ns => exact congrArg Value.dict (redactMembers_congr ms ns h)
      | _ => simp [Alike] at h
  | .none, w, h => by rw [← eq_of_alike rfl h]
  | .bool b, w, h => by rw [← eq_of_alike rfl h]
  | .int n, w, h => by rw [← eq_of_alike rfl h]
  | .float x, w, h => by rw [← eq_of_alike rfl h]
  | .str t, w, h => by rw [← eq_of_alike rfl h]
  | .path t, w, h => by rw [← eq_of_alike rfl h]
  | .other t, w, h => by rw [← eq_of_alike rfl h]

theorem redactItems_congr :
    ∀ vs ws : List Value, AlikeItems vs ws →
      redactItems (jsonItems form vs) = redactItems (jsonItems form ws)
  | [], [], _ => rfl
  | v :: vs, w :: ws, h => by
      rw [jsonItems, jsonItems, redactItems_cons, redactItems_cons, redact_congr v w h.1,
        redactItems_congr vs ws h.2]

theorem redactMembers_congr :
    ∀ ms ns : List (String × Value), AlikeMembers ms ns →
      redactMembers (jsonMembers form ms) = redactMembers (jsonMembers form ns)
  | [], [], _ => rfl
  | (k, v) :: ms, (l, w) :: ns, h => by
      obtain ⟨rfl, hvalue, hrest⟩ := h
      have hmembers := redactMembers_congr ms ns hrest
      cases hk : secretName k.toList with
      | true =>
          rw [jsonMembers, jsonMembers, redactMembers_secret hk, redactMembers_secret hk, hmembers]
      | false =>
          have hv := redact_congr v w (hvalue.resolve_left (by rw [hk]; exact Bool.false_ne_true))
          rw [jsonMembers, jsonMembers, redactMembers_plain hk, redactMembers_plain hk,
            hmembers, hv]

end

/-- Texts written into values are still told apart. -/
theorem strings_injective {l l' : List String} (h : strings l = strings l') : l = l' := by
  have hmap : l.map Value.str = l'.map Value.str := Value.list.inj h
  exact List.map_injective_iff.mpr (fun a b hab => Value.str.inj hab) hmap

theorem env_of_dumpServer {s s' : McpServerConfig} (h : dumpServer s = dumpServer s') :
    s.env = s'.env := by
  simp only [dumpServer, Value.dict.injEq, List.cons.injEq, Prod.mk.injEq] at h
  exact strings_injective h.2.2.2.1.2

/-- Servers that differ in their environments at most. -/
theorem dumpServer_eq_iff {s s' : McpServerConfig} (h : AlikeServer s s') :
    dumpServer s = dumpServer s' ↔ s.env = s'.env := by
  refine ⟨env_of_dumpServer, fun henv => ?_⟩
  have hrest := h.rest
  simp only [McpServerConfig.mk.injEq] at hrest
  obtain ⟨hname, hcommand, hargs, -, hdisabled⟩ := hrest
  rw [dumpServer, dumpServer, hname, hcommand, hargs, henv, hdisabled]

theorem plugin_server_eq_iff {o o' : Option McpServerConfig} (h : Option.Rel AlikeServer o o') :
    (o.map dumpServer).getD .none = (o'.map dumpServer).getD .none ↔
      o.map (·.env) = o'.map (·.env) := by
  cases h with
  | none => simp
  | some hs => simpa using dumpServer_eq_iff hs

theorem redact_dumpPlugin_eq_iff {p p' : PluginConfig} (h : AlikePlugin p p') :
    redact (dumpPlugin form p) = redact (dumpPlugin form p') ↔
      p.mcpServer.map (·.env) = p'.mcpServer.map (·.env) := by
  have hrest := h.rest
  have hconfig := redactMembers_congr form _ _ h.config
  rw [redact_dumpPlugin, redact_dumpPlugin, hconfig, ← plugin_server_eq_iff h.server]
  simp only [PluginConfig.mk.injEq] at hrest
  obtain ⟨h1, h2, h3, h4, -, h5, h6, h7, h8, h9, h10, h11, -⟩ := hrest
  simp only [h1, h2, h3, h4, h5, h6, h7, h8, h9, h10, h11, Value.dict.injEq, List.cons.injEq,
    Prod.mk.injEq, true_and, and_true]

/-- Lists are mapped alike when their items are. -/
theorem map_eq_map_iff {α β γ : Type} {f : α → β} {g : α → γ} {l l' : List α}
    (h : List.Forall₂ (fun a b => f a = f b ↔ g a = g b) l l') :
    l.map f = l'.map f ↔ l.map g = l'.map g := by
  induction h with
  | nil => simp
  | cons hab hrest ih => rw [List.map_cons, List.map_cons, List.map_cons, List.map_cons,
      List.cons.injEq, List.cons.injEq, hab, ih]

/-- **What `get_config` shows.**  Two configs that differ only in the values of fields with
secret names, at any depth, and in the values of secret names in the environments of MCP
servers are shown alike exactly when these environments are the same. -/
theorem getConfig_eq_iff
    (c c' : Config) (h : DifferInSecrets c c') :
    getConfig form c = getConfig form c' ↔ environments c = environments c' := by
  have hservers := map_eq_map_iff (h.servers.imp fun _ _ => dumpServer_eq_iff)
  have hplugins :=
    map_eq_map_iff (h.plugins.imp fun _ _ hp => redact_dumpPlugin_eq_iff form hp)
  rw [getConfig_eq, getConfig_eq, redactMembers_congr form _ _ h.engine,
    redactMembers_congr form _ _ h.persona, redact_dumpHarness, redact_dumpHarness,
    redactMembers_congr form _ _ h.fields, dumpMcp, dumpMcp, h.enabled]
  simp only [Value.dict.injEq, Value.list.injEq, List.cons.injEq, Prod.mk.injEq, true_and,
    and_true, environments]
  rw [hplugins, hservers, and_comm]

end Shown

/-! ### An environment with a token -/

/-- A bot with a token, a plugin with a key, and a server whose environment holds a token. -/
def exampleConfig (token : String) (key : Value) (entry : String) : Config where
  engine := [("model", .str "swe-1-7")]
  persona := []
  harness := {
    fields := [("telegram", .dict [("enabled", .bool true), ("token", .str token)])]
    plugins := [{
      name := "search"
      config := [("limits", .list [.dict [("API_KEY", key)]])] }]
    mcpServers := [{
      name := "github"
      command := "mcp-github"
      env := [entry] }] }

theorem differ_exampleConfig {token token' : String} {key key' : Value} {entry entry' : String}
    (h : AlikeEntry entry entry') :
    DifferInSecrets (exampleConfig token key entry) (exampleConfig token' key' entry') where
  engine := by simp [exampleConfig, AlikeMembers, Alike]
  persona := trivial
  fields := ⟨rfl, .inr ⟨rfl, .inr rfl, rfl, .inl (by decide), trivial⟩, trivial⟩
  servers := .cons ⟨rfl, .cons h .nil⟩ .nil
  enabled := rfl
  plugins :=
    .cons ⟨rfl, .none, rfl, .inr ⟨⟨rfl, .inl (by decide), trivial⟩, trivial⟩, trivial⟩ .nil

/-- The bot's token and the plugin's key are not shown. -/
theorem getConfig_eq_iff_masked :
    getConfig .str (exampleConfig "123:abc" (.str "k1") "LANG=C") =
      getConfig .str (exampleConfig "456:def" (.list []) "LANG=C") :=
  (getConfig_eq_iff .str (exampleConfig "123:abc" (.str "k1") "LANG=C")
    (exampleConfig "456:def" (.list []) "LANG=C") (differ_exampleConfig (.inl rfl))).mpr rfl

/-- The server's token is. -/
theorem environment_shown :
    DifferInSecrets (exampleConfig "123:abc" (.str "k1") "GITHUB_TOKEN=ghp_1")
        (exampleConfig "123:abc" (.str "k1") "GITHUB_TOKEN=ghp_2") ∧
      getConfig .str (exampleConfig "123:abc" (.str "k1") "GITHUB_TOKEN=ghp_1") ≠
        getConfig .str (exampleConfig "123:abc" (.str "k1") "GITHUB_TOKEN=ghp_2") := by
  constructor
  · refine differ_exampleConfig (.inr ⟨"GITHUB_TOKEN".toList, "ghp_1".toList, "ghp_2".toList, ?_⟩)
    decide
  · intro h
    rw [getConfig_eq, getConfig_eq, redact_dumpHarness, redact_dumpHarness] at h
    simp [exampleConfig, dumpMcp, dumpServer, strings] at h

end Redaction
end HarnessConfig
end DiploidAgent
