import Mathlib.Data.List.Induction
import DiploidAgent.Acp.McpServers
import DiploidAgent.Lib.JsonOrder

/-!
# When a changed MCP list is noticed

`normalize_mcp_servers`, `mcp_servers_key` and `write_mcp_configs` of `acp_client/sandbox.py`, over
server definitions as they come: dictionaries of JSON values.  A transport is kept while the key of
the requested list is that of the recorded one.

The key holds the name, the command, the arguments and the environment of each definition.  The
file holds the working directory and the instructions as well, and leaves out what is disabled, so
two lists with one key may have two files (`sameConfig_iff`).
-/

namespace DiploidAgent
namespace Acp
namespace McpDrift

open JsonText

universe u

variable {F : Type u}

section Model

/-- `str` and `bool` of a value. -/
structure Casts (F : Type u) where
  str : Value F → List Char
  truthy : Value F → Bool

/-- The environment: a list of `KEY=VALUE`, or a map. -/
inductive Env (F : Type u) where
  | list (entries : List (Value F))
  | map (vars : Dict (List Char) (Value F))

/-- What is read of a server's dictionary; a key that is missing has no value. -/
structure Definition (F : Type u) where
  name : Option (Value F) := none
  command : Option (Value F) := none
  args : Option (List (Value F)) := none
  env : Option (Env F) := none
  cwd : Option (Value F) := none
  instructions : Option (Value F) := none
  disabled : Option (Value F) := none

/-- `str(server.get(key, ""))`. -/
def Casts.text (P : Casts F) (v : Option (Value F)) : List Char := (v.map P.str).getD []

/-! ### The normal form -/

/-- `entry.split("=", 1)` of a text with an equals sign. -/
def splitEntry : Value F → Option (List Char × List Char)
  | .scalar (.str e) =>
      if '=' ∈ e then some (e.takeWhile (· ≠ '='), (e.dropWhile (· ≠ '=')).tail) else none
  | _ => none

/-- The map of a list of `KEY=VALUE`. -/
def envMap (entries : List (Value F)) : Dict (List Char) (Value F) :=
  entries.foldl (fun vars e =>
    match splitEntry e with
    | some (key, value) => vars.set key (.scalar (.str value))
    | none => vars) Dict.empty

def leanCtx : List Char := ['l', 'e', 'a', 'n', '-', 'c', 't', 'x']

def isLeanCtx (P : Casts F) (server : Definition F) : Bool :=
  P.text server.name = leanCtx || McpServers.pathName (P.text server.command) = leanCtx

def normalizeEnv : Env F → Env F
  | .list entries => .map (envMap entries)
  | .map vars => .map vars

def normalizeServer (server : Definition F) : Definition F :=
  { server with env := server.env.map normalizeEnv }

/-- The definitions that are not dropped. -/
def requested (P : Casts F) (servers : List (Definition F)) : List (Definition F) :=
  servers.filter fun server => !isLeanCtx P server

/-- `normalize_mcp_servers`. -/
def normalizeMcpServers (P : Casts F) (servers : List (Definition F)) : List (Definition F) :=
  (requested P servers).map normalizeServer

/-! ### The key -/

/-- The environment as the key takes it. -/
def simplifiedEnv : Option (Env F) → Value F
  | none => .obj []
  | some (.list entries) => .arr entries
  | some (.map vars) => .obj vars.entries

def simplified (P : Casts F) (server : Definition F) : Value F :=
  .obj [
    (['n', 'a', 'm', 'e'], .scalar (.str (P.text server.name))),
    (['c', 'o', 'm', 'm', 'a', 'n', 'd'], .scalar (.str (P.text server.command))),
    (['a', 'r', 'g', 's'], .arr (server.args.getD [])),
    (['e', 'n', 'v'], simplifiedEnv server.env)]

/-- `mcp_servers_key`. -/
def mcpServersKey (N : FloatText F) (P : Casts F) (servers : List (Definition F)) : List Char :=
  dumps true N (sortKeys (.arr (servers.map (simplified P))))

/-! ### The file -/

def python : List Char := ['p', 'y', 't', 'h', 'o', 'n']

def pythonIoEncoding : List Char :=
  ['P', 'Y', 'T', 'H', 'O', 'N', 'I', 'O', 'E', 'N', 'C', 'O', 'D', 'I', 'N', 'G']

def utf8 : List Char := ['u', 't', 'f', '-', '8']

/-- The variables of an environment. -/
def envVars : Option (Env F) → Dict (List Char) (Value F)
  | none => Dict.empty
  | some (.list entries) => envMap entries
  | some (.map vars) => vars

/-- `.setdefault("PYTHONIOENCODING", "utf-8")`. -/
def pinned (vars : Dict (List Char) (Value F)) : Dict (List Char) (Value F) :=
  if (vars.get pythonIoEncoding).isSome then vars
  else vars.set pythonIoEncoding (.scalar (.str utf8))

/-- A key that is taken over where it is there. -/
def setGiven (entry : Dict (List Char) (Value F)) (key : List Char) (v : Option (Value F)) :
    Dict (List Char) (Value F) :=
  match v with
  | some v => entry.set key v
  | none => entry

/-- The variables as a member of the entry, which an empty map is not. -/
def envMember (vars : Dict (List Char) (Value F)) : Option (Value F) :=
  if vars.entries.isEmpty then none else some (.obj vars.entries)

/-- The entry of a server; `windows` is `IS_WINDOWS`. -/
def entry (windows : Bool) (server : Definition F) : Dict (List Char) (Value F) :=
  let entry : Dict (List Char) (Value F) := Dict.empty.set ['c', 'o', 'm', 'm', 'a', 'n', 'd']
    (server.command.getD (.scalar (.str python)))
  let entry := entry.set ['a', 'r', 'g', 's'] (.arr (server.args.getD []))
  let entry := setGiven entry ['c', 'w', 'd'] server.cwd
  let entry := setGiven entry ['e', 'n', 'v'] (envMember (envVars server.env))
  let entry := setGiven entry
    ['i', 'n', 's', 't', 'r', 'u', 'c', 't', 'i', 'o', 'n', 's'] server.instructions
  if windows then entry.set ['e', 'n', 'v'] (.obj (pinned (envVars server.env)).entries)
  else entry

/-- A server without a name, or one that is disabled, is not written. -/
def written (P : Casts F) (server : Definition F) : Bool :=
  P.text server.name ≠ [] && !(server.disabled.map P.truthy).getD false

def addEntry (windows : Bool) (P : Casts F) (servers : Dict (List Char) (Value F))
    (server : Definition F) : Dict (List Char) (Value F) :=
  if written P server then
    servers.set (P.text server.name) (.obj (entry windows server).entries)
  else servers

/-- What `write_mcp_configs` writes. -/
def mcpConfig (windows : Bool) (P : Casts F) (servers : List (Definition F)) : Value F :=
  .obj [(['m', 'c', 'p', 'S', 'e', 'r', 'v', 'e', 'r', 's'],
    .obj ((normalizeMcpServers P servers).foldl (addEntry windows P) Dict.empty).entries)]

/-! ### What is compared -/

/-- The definitions have the same name, command, arguments and environment. -/
structure Alike (P : Casts F) (s t : Definition F) : Prop where
  name : P.text s.name = P.text t.name
  command : P.text s.command = P.text t.command
  args : List.Forall₂ Same (s.args.getD []) (t.args.getD [])
  env : Same (.obj (envVars s.env).entries) (.obj (envVars t.env).entries)

/-- The variables that a server gets. -/
def entryEnv (windows : Bool) (server : Definition F) : Dict (List Char) (Value F) :=
  if windows then pinned (envVars server.env) else envVars server.env

/-- The definitions say the same of how the server is run. -/
structure RunAlike (windows : Bool) (s t : Definition F) : Prop where
  command : Same (s.command.getD (.scalar (.str python))) (t.command.getD (.scalar (.str python)))
  args : List.Forall₂ Same (s.args.getD []) (t.args.getD [])
  cwd : Option.Rel Same s.cwd t.cwd
  env : Same (.obj (entryEnv windows s).entries) (.obj (entryEnv windows t).entries)
  instructions : Option.Rel Same s.instructions t.instructions

/-- The last definition under a name that is not disabled. -/
def lastNamed (P : Casts F) (name : List Char) (servers : List (Definition F)) :
    Option (Definition F) :=
  servers.reverse.find? fun server => written P server && P.text server.name == name

end Model

section Normal

variable {P : Casts F}

theorem normalizeServer_normalizeServer (server : Definition F) :
    normalizeServer (normalizeServer server) = normalizeServer server := by
  obtain ⟨name, command, args, env, cwd, instructions, disabled⟩ := server
  rcases env with - | (entries | vars) <;> rfl

theorem requested_map_normalizeServer (servers : List (Definition F)) :
    requested P (servers.map normalizeServer) = (requested P servers).map normalizeServer := by
  rw [requested, requested, List.filter_map]
  rfl

/-- Normalizing again changes nothing. -/
theorem normalize_normalize (P : Casts F) (servers : List (Definition F)) :
    normalizeMcpServers P (normalizeMcpServers P servers) = normalizeMcpServers P servers := by
  have hrequested : requested P (requested P servers) = requested P servers := by
    rw [requested, requested, List.filter_filter]
    simp only [Bool.and_self]
  rw [normalizeMcpServers, normalizeMcpServers, requested_map_normalizeServer, hrequested,
    List.map_map]
  exact List.map_congr_left fun server _ => normalizeServer_normalizeServer server

theorem envVars_normalizeServer (server : Definition F) :
    envVars (normalizeServer server).env = envVars server.env := by
  obtain ⟨name, command, args, env, cwd, instructions, disabled⟩ := server
  rcases env with - | (entries | vars) <;> rfl

/-- In the normal form the key holds the variables. -/
theorem simplified_normalizeServer (P : Casts F) (server : Definition F) :
    simplified P (normalizeServer server) =
      .obj [
        (['n', 'a', 'm', 'e'], .scalar (.str (P.text server.name))),
        (['c', 'o', 'm', 'm', 'a', 'n', 'd'], .scalar (.str (P.text server.command))),
        (['a', 'r', 'g', 's'], .arr (server.args.getD [])),
        (['e', 'n', 'v'], .obj (envVars server.env).entries)] := by
  obtain ⟨name, command, args, env, cwd, instructions, disabled⟩ := server
  rcases env with - | (entries | vars) <;> rfl

end Normal

section Keys

variable {N : FloatText F} {P : Casts F}

theorem same_simplified_iff (s t : Definition F) :
    Same (simplified P (normalizeServer s)) (simplified P (normalizeServer t)) ↔ Alike P s t := by
  rw [simplified_normalizeServer, simplified_normalizeServer,
    same_obj_cons_iff (by simp) (by simp), same_obj_cons_iff (by simp) (by simp),
    same_obj_cons_iff (by simp) (by simp), same_obj_cons_iff (by simp) (by simp),
    same_scalar_iff, same_scalar_iff, same_arr_iff, Scalar.str.injEq, Scalar.str.injEq]
  exact ⟨fun ⟨hname, hcommand, hargs, henv, _⟩ => ⟨hname, hcommand, hargs, henv⟩,
    fun h => ⟨h.name, h.command, h.args, h.env, rfl⟩⟩

/-- The keys of normal forms are the same when the definitions are alike one by one. -/
theorem mcpServersKey_eq_iff (N : FloatText F) (P : Casts F)
    (servers servers' : List (Definition F)) :
    mcpServersKey N P (normalizeMcpServers P servers) =
        mcpServersKey N P (normalizeMcpServers P servers') ↔
      List.Forall₂ (Alike P) (requested P servers) (requested P servers') := by
  rw [mcpServersKey, mcpServersKey, dumps_sortKeys_inj, same_arr_iff, normalizeMcpServers,
    normalizeMcpServers, List.map_map, List.map_map, List.forall₂_map_left_iff,
    List.forall₂_map_right_iff]
  exact ⟨fun h => h.imp fun s t hst => (same_simplified_iff s t).mp hst,
    fun h => h.imp fun s t hst => (same_simplified_iff s t).mpr hst⟩

end Keys

section Files

variable {P : Casts F} {windows : Bool}

theorem get_setGiven (d : Dict (List Char) (Value F)) (key k : List Char)
    (v : Option (Value F)) :
    (setGiven d key v).get k = if key = k then v.or (d.get k) else d.get k := by
  cases v with
  | none => rw [setGiven, Option.none_or, ite_self]
  | some v => rw [setGiven, Dict.get_set, Option.some_or]

/-- Two entries are the same when they have the same under each key. -/
theorem same_entries_iff (d d' : Dict (List Char) (Value F)) :
    Same (.obj d.entries) (.obj d'.entries) ↔ ∀ k, Option.Rel Same (d.get k) (d'.get k) :=
  same_obj_iff d.nodup_keys d'.nodup_keys

theorem get_entry_command (server : Definition F) :
    (entry windows server).get ['c', 'o', 'm', 'm', 'a', 'n', 'd'] =
      some (server.command.getD (.scalar (.str python))) := by
  cases windows <;> simp [entry, get_setGiven, Dict.get_set]

theorem get_entry_args (server : Definition F) :
    (entry windows server).get ['a', 'r', 'g', 's'] = some (.arr (server.args.getD [])) := by
  cases windows <;> simp [entry, get_setGiven, Dict.get_set]

theorem get_entry_cwd (server : Definition F) :
    (entry windows server).get ['c', 'w', 'd'] = server.cwd := by
  cases windows <;> simp [entry, get_setGiven, Dict.get_set]

theorem get_entry_instructions (server : Definition F) :
    (entry windows server).get ['i', 'n', 's', 't', 'r', 'u', 'c', 't', 'i', 'o', 'n', 's'] =
      server.instructions := by
  cases windows <;> simp [entry, get_setGiven, Dict.get_set]

/-- An environment in which the encoding is pinned is not empty. -/
theorem envMember_pinned (vars : Dict (List Char) (Value F)) :
    envMember (pinned vars) = some (.obj (pinned vars).entries) := by
  have hget : ((pinned vars).get pythonIoEncoding).isSome = true := by
    rw [pinned]
    split_ifs with h
    · exact h
    · rw [Dict.get_set_self]
      rfl
  have hne : (pinned vars).entries.isEmpty = false := by
    cases hentries : (pinned vars).entries with
    | nil =>
        rw [Dict.get, hentries] at hget
        cases hget
    | cons m ms => rfl
  rw [envMember, hne]
  rfl

theorem get_entry_env (server : Definition F) :
    (entry windows server).get ['e', 'n', 'v'] = envMember (entryEnv windows server) := by
  cases windows with
  | false => simp [entry, entryEnv, get_setGiven, Dict.get_set]
  | true => simp [entry, entryEnv, envMember_pinned]

theorem get_entry_of_notMem {k : List Char} (server : Definition F)
    (hk : k ∉ [['c', 'o', 'm', 'm', 'a', 'n', 'd'], ['a', 'r', 'g', 's'], ['c', 'w', 'd'],
      ['e', 'n', 'v'], ['i', 'n', 's', 't', 'r', 'u', 'c', 't', 'i', 'o', 'n', 's']]) :
    (entry windows server).get k = none := by
  simp only [List.mem_cons, List.not_mem_nil, or_false, not_or] at hk
  obtain ⟨hcommand, hargs, hcwd, henv, hinstructions⟩ := hk
  cases windows <;>
    simp [entry, get_setGiven, Dict.get_set, Ne.symm hcommand, Ne.symm hargs, Ne.symm hcwd,
      Ne.symm henv, Ne.symm hinstructions]

theorem rel_envMember_iff (d d' : Dict (List Char) (Value F)) :
    Option.Rel Same (envMember d) (envMember d') ↔ Same (.obj d.entries) (.obj d'.entries) := by
  have hempty : ∀ d d' : Dict (List Char) (Value F), d.entries = [] → d'.entries ≠ [] →
      ¬ ∀ k, Option.Rel Same (d.get k) (d'.get k) := by
    intro d d' hd hd' h
    obtain ⟨m, ms, hms⟩ := List.exists_cons_of_ne_nil hd'
    have hkey := h m.1
    rw [Dict.get, Dict.get, hd, hms, lookupEntry_cons, if_pos rfl] at hkey
    cases hkey
  have hnone : ∀ d : Dict (List Char) (Value F), d.entries = [] → envMember d = none :=
    fun d hd => by rw [envMember, hd, List.isEmpty_nil, if_pos rfl]
  have hsome : ∀ d : Dict (List Char) (Value F), d.entries ≠ [] →
      envMember d = some (.obj d.entries) :=
    fun d hd => by rw [envMember, if_neg (by rwa [List.isEmpty_iff])]
  by_cases hd : d.entries = []
  · by_cases hd' : d'.entries = []
    · rw [hnone d hd, hnone d' hd', hd, hd']
      exact iff_of_true .none rfl
    · rw [hnone d hd, hsome d' hd']
      exact iff_of_false (fun h => by cases h) fun h =>
        hempty d d' hd hd' ((same_entries_iff d d').mp h)
  · by_cases hd' : d'.entries = []
    · rw [hsome d hd, hnone d' hd']
      exact iff_of_false (fun h => by cases h) fun h =>
        hempty d' d hd' hd ((same_entries_iff d' d).mp h.symm)
    · rw [hsome d hd, hsome d' hd', Option.rel_some_some]

/-- The entries of two servers are the same when the servers are run alike. -/
theorem same_entry_iff (s t : Definition F) :
    Same (.obj (entry windows s).entries) (.obj (entry windows t).entries) ↔
      RunAlike windows s t := by
  rw [same_entries_iff]
  constructor
  · intro h
    have hcommand := h ['c', 'o', 'm', 'm', 'a', 'n', 'd']
    have hargs := h ['a', 'r', 'g', 's']
    have hcwd := h ['c', 'w', 'd']
    have henv := h ['e', 'n', 'v']
    have hinstructions := h ['i', 'n', 's', 't', 'r', 'u', 'c', 't', 'i', 'o', 'n', 's']
    rw [get_entry_command, get_entry_command, Option.rel_some_some] at hcommand
    rw [get_entry_args, get_entry_args, Option.rel_some_some, same_arr_iff] at hargs
    rw [get_entry_cwd, get_entry_cwd] at hcwd
    rw [get_entry_env, get_entry_env, rel_envMember_iff] at henv
    rw [get_entry_instructions, get_entry_instructions] at hinstructions
    exact ⟨hcommand, hargs, hcwd, henv, hinstructions⟩
  · intro h k
    by_cases hk : k ∈ [['c', 'o', 'm', 'm', 'a', 'n', 'd'], ['a', 'r', 'g', 's'], ['c', 'w', 'd'],
      ['e', 'n', 'v'], ['i', 'n', 's', 't', 'r', 'u', 'c', 't', 'i', 'o', 'n', 's']]
    · simp only [List.mem_cons, List.not_mem_nil, or_false] at hk
      rcases hk with rfl | rfl | rfl | rfl | rfl
      · rw [get_entry_command, get_entry_command, Option.rel_some_some]
        exact h.command
      · rw [get_entry_args, get_entry_args, Option.rel_some_some, same_arr_iff]
        exact h.args
      · rw [get_entry_cwd, get_entry_cwd]
        exact h.cwd
      · rw [get_entry_env, get_entry_env, rel_envMember_iff]
        exact h.env
      · rw [get_entry_instructions, get_entry_instructions]
        exact h.instructions
    · rw [get_entry_of_notMem s hk, get_entry_of_notMem t hk]
      exact .none

/-! ### The servers of a file -/

theorem entry_normalizeServer (server : Definition F) :
    entry windows (normalizeServer server) = entry windows server := by
  rw [entry, entry, envVars_normalizeServer]
  rfl

/-- The last definition under a name counts. -/
theorem get_foldl_addEntry (name : List Char) (servers : List (Definition F)) :
    (servers.foldl (addEntry windows P) Dict.empty).get name =
      (lastNamed P name servers).map fun server => .obj (entry windows server).entries := by
  induction servers using List.reverseRecOn with
  | nil => rfl
  | append_singleton servers server ih =>
      rw [List.foldl_append, List.foldl_cons, List.foldl_nil, lastNamed, List.reverse_concat,
        List.find?_cons, ← lastNamed, addEntry]
      cases hwritten : written P server with
      | false => rw [if_neg Bool.false_ne_true, Bool.false_and, ih]
      | true =>
          rw [if_pos rfl, Dict.get_set, Bool.true_and, ih]
          by_cases hname : P.text server.name = name
          · rw [if_pos hname, beq_iff_eq.mpr hname]
            rfl
          · rw [if_neg hname, beq_false_of_ne hname]

theorem lastNamed_map_normalizeServer (name : List Char) (servers : List (Definition F)) :
    lastNamed P name (servers.map normalizeServer) =
      (lastNamed P name servers).map normalizeServer := by
  rw [lastNamed, lastNamed, ← List.map_reverse, List.find?_map]
  rfl

/-- The files are the same when the last definitions under each name are run alike. -/
theorem same_mcpConfig_iff (P : Casts F) (servers servers' : List (Definition F)) :
    Same (mcpConfig windows P servers) (mcpConfig windows P servers') ↔
      ∀ name, Option.Rel (RunAlike windows) (lastNamed P name (requested P servers))
        (lastNamed P name (requested P servers')) := by
  have hget : ∀ (name : List Char) (servers : List (Definition F)),
      ((normalizeMcpServers P servers).foldl (addEntry windows P) Dict.empty).get name =
        (lastNamed P name (requested P servers)).map fun server =>
          .obj (entry windows server).entries := by
    intro name servers
    rw [get_foldl_addEntry, normalizeMcpServers, lastNamed_map_normalizeServer, Option.map_map]
    exact congrArg (fun f => Option.map f _) (funext fun server =>
      congrArg (fun d : Dict _ _ => Value.obj d.entries) (entry_normalizeServer server))
  have hnil : Same (.obj []) (.obj [] : Value F) := rfl
  rw [mcpConfig, mcpConfig, same_obj_cons_iff (by simp) (by simp), and_iff_left hnil,
    same_entries_iff]
  refine forall_congr' fun name => ?_
  rw [hget, hget]
  cases lastNamed P name (requested P servers) <;>
    cases lastNamed P name (requested P servers') <;> simp [same_entry_iff]

end Files

section Results

/-- Lists with one key have one file exactly where the last definitions under each name are run
alike, which definitions that are alike one by one need not be. -/
theorem sameConfig_iff (N : FloatText F) (P : Casts F) (windows : Bool)
    (servers servers' : List (Definition F)) :
    normalizeMcpServers P (normalizeMcpServers P servers) = normalizeMcpServers P servers ∧
    ((mcpServersKey N P (normalizeMcpServers P servers) =
        mcpServersKey N P (normalizeMcpServers P servers') →
      Same (mcpConfig windows P servers) (mcpConfig windows P servers')) ↔
    ¬ (List.Forall₂ (Alike P) (requested P servers) (requested P servers') ∧
      ∃ name, ¬ Option.Rel (RunAlike windows) (lastNamed P name (requested P servers))
        (lastNamed P name (requested P servers')))) := by
  refine ⟨normalize_normalize P servers, ?_⟩
  rw [mcpServersKey_eq_iff, same_mcpConfig_iff, not_and, not_exists]
  exact forall_congr' fun _ => forall_congr' fun name => not_not.symm

/-- Texts and truth values, which are all that the definitions below hold. -/
def plainCasts : Casts Empty where
  str v := match v with
    | .scalar (.str s) => s
    | _ => []
  truthy v := match v with
    | .scalar (.bool b) => b
    | _ => false

/-- A server that runs in a directory. -/
def filesServer (cwd : List Char) : Definition Empty where
  name := some (.scalar (.str ['f', 's']))
  args := some [.scalar (.str ['s', '.', 'p', 'y'])]
  cwd := some (.scalar (.str cwd))

/-- Another directory, and the key is the same. -/
theorem cwd_missed :
    mcpServersKey noFloats plainCasts (normalizeMcpServers plainCasts [filesServer ['/', 'a']]) =
        mcpServersKey noFloats plainCasts
          (normalizeMcpServers plainCasts [filesServer ['/', 'b']]) ∧
      ¬ Same (mcpConfig false plainCasts [filesServer ['/', 'a']])
        (mcpConfig false plainCasts [filesServer ['/', 'b']]) := by
  refine ⟨(mcpServersKey_eq_iff noFloats plainCasts _ _).mpr ?_, fun h => ?_⟩
  · exact .cons ⟨rfl, rfl, .cons rfl .nil, rfl⟩ .nil
  · have hrun := (same_mcpConfig_iff plainCasts _ _).mp h ['f', 's']
    have hlast : ∀ cwd, lastNamed plainCasts ['f', 's'] (requested plainCasts [filesServer cwd]) =
        some (filesServer cwd) := fun _ => rfl
    rw [hlast, hlast, Option.rel_some_some] at hrun
    have hcwd := hrun.cwd
    rw [filesServer, filesServer, Option.rel_some_some, same_scalar_iff] at hcwd
    cases hcwd

end Results

end McpDrift
end Acp
end DiploidAgent
