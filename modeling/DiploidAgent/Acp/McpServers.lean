import Mathlib.Data.List.Sort
import Mathlib.Data.String.Basic
import DiploidAgent.Lib.Dict
import DiploidAgent.Lib.JsonDumps

/-!
# The MCP servers of a chat

`mcp.py` renders the configured servers for a chat, and `acp_client/sandbox.py` normalizes a
list of them and gives it a key to compare lists by.
-/

namespace DiploidAgent
namespace Acp
namespace McpServers

open JsonText

/-! ### Rendering -/

/-- `McpServerConfig`. -/
structure McpServerConfig where
  name : String
  command : String
  args : List String := []
  env : List String := []
  disabled : Bool := false

/-- What `McpManager` reads of the config. -/
structure Config where
  servers : List McpServerConfig
  sessionsRoot : String
  harnessUrl : String
  harnessApiKey : Option String := none

/-- The environment of a server: the harness keeps a list of `KEY=VALUE`, the ACP side a
map. -/
inductive Env where
  | list (entries : List String)
  | map (vars : Dict String String)

structure McpServer where
  name : String
  command : String
  args : List String
  env : Env

/-- `safe_dir_name` on POSIX. -/
def safeDirName (name : List Char) : List Char :=
  name.map fun c => if c = '/' then '_' else c

/-- `_PlaceholderFormatter`. -/
structure PlaceholderFormatter where
  chatId : String
  sessionsRoot : String
  harnessUrl : String

namespace PlaceholderFormatter

/-- `sessions_root / safe_dir_name(chat_id)`. -/
def safeChatDir (f : PlaceholderFormatter) : List Char :=
  match safeDirName f.chatId.toList with
  | [] => f.sessionsRoot.toList
  | ['.'] => f.sessionsRoot.toList
  | name => if f.sessionsRoot = "/" then '/' :: name else f.sessionsRoot.toList ++ '/' :: name

/-- What stands for a key in braces. -/
def value (f : PlaceholderFormatter) (key : List Char) : List Char :=
  if key = "chat_id".toList then f.chatId.toList
  else if key = "sessions_root".toList then f.sessionsRoot.toList
  else if key = "chat_dir".toList then f.safeChatDir
  else if key = "harness_url".toList then f.harnessUrl.toList
  else '{' :: key ++ ['}']

/-- The loop of `format`, which takes at least one character at a time. -/
def formatChars (f : PlaceholderFormatter) : Nat → List Char → List Char
  | 0, _ => []
  | _ + 1, [] => []
  | n + 1, '{' :: '{' :: rest => '{' :: f.formatChars n rest
  | n + 1, '}' :: '}' :: rest => '}' :: f.formatChars n rest
  | n + 1, '{' :: rest =>
      if '}' ∈ rest then
        f.value (rest.takeWhile (· ≠ '}')) ++
          f.formatChars n (rest.dropWhile (· ≠ '}')).tail
      else '{' :: f.formatChars n rest
  | n + 1, c :: rest => c :: f.formatChars n rest

def format (f : PlaceholderFormatter) (text : String) : String :=
  String.ofList (f.formatChars text.length text.toList)

end PlaceholderFormatter

/-- The keys in braces that `format` replaces. -/
def keysIn : Nat → List Char → List (List Char)
  | 0, _ => []
  | _ + 1, [] => []
  | n + 1, '{' :: '{' :: rest => keysIn n rest
  | n + 1, '}' :: '}' :: rest => keysIn n rest
  | n + 1, '{' :: rest =>
      if '}' ∈ rest then
        rest.takeWhile (· ≠ '}') :: keysIn n (rest.dropWhile (· ≠ '}')).tail
      else keysIn n rest
  | n + 1, _ :: rest => keysIn n rest

/-- No key of the text stands for the chat. -/
def plain (text : String) : Bool :=
  (keysIn text.length text.toList).all fun key =>
    key ≠ "chat_id".toList && key ≠ "chat_dir".toList

/-- Nothing in the server's config stands for the chat. -/
def McpServerConfig.plain (s : McpServerConfig) : Bool :=
  McpServers.plain s.command && s.args.all McpServers.plain && s.env.all McpServers.plain

/-- `e.startswith(name + "=")` for an entry. -/
def setsVar (name : String) (e : String) : Bool := (name.toList ++ ['=']).isPrefixOf e.toList

/-- `env.append` of a variable that no entry sets. -/
def addVar (env : List String) (name value : String) : List String :=
  if env.any (setsVar name) then env else env ++ [name ++ "=" ++ value]

/-- The formatter of a chat. -/
def Config.fmt (cfg : Config) (chatId : String) : PlaceholderFormatter :=
  { chatId := chatId
    sessionsRoot := cfg.sessionsRoot
    harnessUrl := cfg.harnessUrl }

/-- The formatted environment with the variables of the harness. -/
def harnessEnv (cfg : Config) (env : List String) : List String :=
  let env := addVar env "HARNESS_URL" cfg.harnessUrl
  match cfg.harnessApiKey with
  | some key => if key = "" then env else addVar env "HARNESS_API_KEY" key
  | none => env

/-- `_render_server`. -/
def renderServer (cfg : Config) (server : McpServerConfig) (chatId : String) : McpServer :=
  { name := server.name
    command := (cfg.fmt chatId).format server.command
    args := server.args.map (cfg.fmt chatId).format
    env := .list (harnessEnv cfg (server.env.map (cfg.fmt chatId).format)) }

/-- A server that `enabled_servers` renders. -/
def enabled (names : List String) (server : McpServerConfig) : Bool :=
  server.name ∈ names && !server.disabled && server.name ≠ "test-stdio"

/-- `enabled_servers` for the enabled names. -/
def enabledServers (cfg : Config) (chatId : String) (names : List String) : List McpServer :=
  (cfg.servers.filter (enabled names)).map fun server => renderServer cfg server chatId

section Rendering

variable {f g : PlaceholderFormatter}

theorem value_congr {key : List Char}
    (hroot : f.sessionsRoot = g.sessionsRoot) (hurl : f.harnessUrl = g.harnessUrl)
    (hid : key ≠ "chat_id".toList) (hdir : key ≠ "chat_dir".toList) :
    f.value key = g.value key := by
  unfold PlaceholderFormatter.value
  rw [if_neg hid, if_neg hid, if_neg hdir, if_neg hdir, hroot, hurl]

/-- Without a key that stands for the chat, the text comes out the same for every chat. -/
theorem formatChars_congr
    (hroot : f.sessionsRoot = g.sessionsRoot) (hurl : f.harnessUrl = g.harnessUrl)
    (n : Nat) (text : List Char)
    (h : ∀ key ∈ keysIn n text, key ≠ "chat_id".toList ∧ key ≠ "chat_dir".toList) :
    f.formatChars n text = g.formatChars n text := by
  fun_induction keysIn n text with
  | case1 => rfl
  | case2 => rfl
  | case3 n rest ih =>
      rw [PlaceholderFormatter.formatChars, PlaceholderFormatter.formatChars, ih h]
  | case4 n rest ih =>
      rw [PlaceholderFormatter.formatChars, PlaceholderFormatter.formatChars, ih h]
  | case5 n rest hopen hclosed ih =>
      obtain ⟨hkey, hrest⟩ := List.forall_mem_cons.mp h
      rw [PlaceholderFormatter.formatChars.eq_5 _ _ _ hopen,
        PlaceholderFormatter.formatChars.eq_5 _ _ _ hopen, if_pos hclosed, if_pos hclosed,
        value_congr hroot hurl hkey.1 hkey.2, ih hrest]
  | case6 n rest hopen hclosed ih =>
      rw [PlaceholderFormatter.formatChars.eq_5 _ _ _ hopen,
        PlaceholderFormatter.formatChars.eq_5 _ _ _ hopen, if_neg hclosed, if_neg hclosed, ih h]
  | case7 n c rest hbrace hclose hopen ih =>
      rw [PlaceholderFormatter.formatChars.eq_6 _ _ _ _ hbrace hclose hopen,
        PlaceholderFormatter.formatChars.eq_6 _ _ _ _ hbrace hclose hopen, ih h]

theorem format_congr {text : String}
    (hroot : f.sessionsRoot = g.sessionsRoot) (hurl : f.harnessUrl = g.harnessUrl)
    (h : plain text = true) :
    f.format text = g.format text := by
  unfold PlaceholderFormatter.format
  rw [formatChars_congr hroot hurl]
  intro key hkey
  obtain ⟨hid, hdir⟩ := Bool.and_eq_true_iff.mp (List.all_eq_true.mp h key hkey)
  exact ⟨of_decide_eq_true hid, of_decide_eq_true hdir⟩

theorem map_format_congr {texts : List String}
    (hroot : f.sessionsRoot = g.sessionsRoot) (hurl : f.harnessUrl = g.harnessUrl)
    (h : texts.all plain = true) :
    texts.map f.format = texts.map g.format :=
  List.map_congr_left fun text htext =>
    format_congr hroot hurl (List.all_eq_true.mp h text htext)

theorem renderServer_congr {server : McpServerConfig} (cfg : Config) (chatId chatId' : String)
    (h : server.plain = true) :
    renderServer cfg server chatId = renderServer cfg server chatId' := by
  simp only [McpServerConfig.plain, Bool.and_eq_true] at h
  obtain ⟨⟨hcommand, hargs⟩, henv⟩ := h
  have hroot : (cfg.fmt chatId).sessionsRoot = (cfg.fmt chatId').sessionsRoot := rfl
  have hurl : (cfg.fmt chatId).harnessUrl = (cfg.fmt chatId').harnessUrl := rfl
  unfold renderServer
  rw [format_congr hroot hurl hcommand, map_format_congr hroot hurl hargs,
    map_format_congr hroot hurl henv]

/-- Chats with the same servers enabled get the same list, when no server mentions the
chat. -/
theorem enabledServers_congr (cfg : Config) (chatId chatId' : String) (names : List String)
    (h : ∀ server ∈ cfg.servers, enabled names server = true → server.plain = true) :
    enabledServers cfg chatId names = enabledServers cfg chatId' names := by
  refine List.map_congr_left fun server hserver => ?_
  obtain ⟨hmem, henabled⟩ := List.mem_filter.mp hserver
  exact renderServer_congr cfg chatId chatId' (h server hmem henabled)

end Rendering

/-! ### Normal form and key -/

/-- `Path(command).name`. -/
def pathName (command : List Char) : List Char :=
  ((command.splitOn '/').filter fun part => part ≠ [] ∧ part ≠ ['.']).getLast?.getD []

def isLeanCtx (s : McpServer) : Bool :=
  s.name = "lean-ctx" || pathName s.command.toList = "lean-ctx".toList

/-- `entry.split("=", 1)`, when there is one. -/
def splitEntry (entry : String) : Option (String × String) :=
  let chars := entry.toList
  if '=' ∈ chars then
    some (String.ofList (chars.takeWhile (· ≠ '=')),
      String.ofList (chars.dropWhile (· ≠ '=')).tail)
  else none

def envMap (entries : List String) : Dict String String :=
  entries.foldl (fun vars entry =>
    match splitEntry entry with
    | some (key, value) => vars.set key value
    | none => vars) Dict.empty

def normalizeEnv : Env → Env
  | .list entries => .map (envMap entries)
  | .map vars => .map vars

def normalizeServer (s : McpServer) : McpServer := { s with env := normalizeEnv s.env }

/-- `normalize_mcp_servers`. -/
def normalizeMcpServers (servers : List McpServer) : List McpServer :=
  (servers.filter fun s => !isLeanCtx s).map normalizeServer

/-- The environment as JSON, its keys sorted. -/
def Env.toJson : Env → Value Empty
  | .list entries => .arr (entries.map Value.text)
  | .map vars =>
      .obj ((vars.entries.insertionSort fun a b => a.1 ≤ b.1).map fun e =>
        (e.1.toList, Value.text e.2))

/-- One entry of the simplified list, its keys sorted. -/
def McpServer.toJson (s : McpServer) : Value Empty :=
  .obj [
    ("args".toList, .arr (s.args.map Value.text)),
    ("command".toList, Value.text s.command),
    ("env".toList, s.env.toJson),
    ("name".toList, Value.text s.name)]

/-- `mcp_servers_key`. -/
def mcpServersKey (servers : List McpServer) : List Char :=
  dumps true noFloats (.arr (servers.map McpServer.toJson))

section Normal

variable {servers : List McpServer}

theorem normalizeServer_normalizeServer (s : McpServer) :
    normalizeServer (normalizeServer s) = normalizeServer s := by
  obtain ⟨name, command, args, env⟩ := s
  cases env <;> rfl

theorem isLeanCtx_normalizeServer (s : McpServer) :
    isLeanCtx (normalizeServer s) = isLeanCtx s := rfl

theorem normalize_normalize (servers : List McpServer) :
    normalizeMcpServers (normalizeMcpServers servers) = normalizeMcpServers servers := by
  have hkept : ∀ s ∈ normalizeMcpServers servers, (!isLeanCtx s) = true := by
    intro s hs
    obtain ⟨s', hs', rfl⟩ := List.mem_map.mp hs
    rw [isLeanCtx_normalizeServer]
    exact (List.mem_filter.mp hs').2
  have hfilter : (normalizeMcpServers servers).filter (fun s => !isLeanCtx s) =
      normalizeMcpServers servers := List.filter_eq_self.mpr hkept
  rw [normalizeMcpServers, hfilter, normalizeMcpServers, List.map_map]
  congr 1
  funext s
  exact normalizeServer_normalizeServer s

end Normal

end McpServers
end Acp
end DiploidAgent
