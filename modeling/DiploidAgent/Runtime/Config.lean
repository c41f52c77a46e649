import DiploidAgent.Lib.Records
import DiploidAgent.Lib.Text
import Mathlib.Data.Rat.Defs

/-!
# The live config sections

The sections of the harness config that can be changed while it runs, each as a schema
with the bounds, validators and defaults of its model class.  What pydantic does with a
value of the wrong type, the home directory and the JSON form of a value that JSON does
not know are parameters.

Every default passes its own check, and what passes a check passes it again; both are
fields of the schemas.
-/

namespace DiploidAgent
namespace HarnessConfig

open Records

/-! ### Values -/

/-- A value of a config: what YAML and JSON hold, a path, and anything else that YAML
reads, such as a date. -/
inductive Value where
  | none
  | bool (b : Bool)
  | int (n : Int)
  | float (x : Rat)
  | str (s : String)
  | path (s : String)
  | list (items : List Value)
  | dict (members : List (String × Value))
  | other (text : String)

def Value.isNone : Value → Bool
  | .none => true
  | _ => false

mutual

/-- A value that JSON holds as it is. -/
def Value.isJson : Value → Bool
  | .none => true
  | .bool _ => true
  | .int _ => true
  | .float _ => true
  | .str _ => true
  | .path _ => false
  | .list items => itemsJson items
  | .dict members => membersJson members
  | .other _ => false

def itemsJson : List Value → Bool
  | [] => true
  | v :: vs => v.isJson && itemsJson vs

def membersJson : List (String × Value) → Bool
  | [] => true
  | (_, v) :: ms => v.isJson && membersJson ms

end

mutual

/-- The form of a value in `model_dump(mode="json")`. -/
def Value.json (form : String → Value) : Value → Value
  | .none => .none
  | .bool b => .bool b
  | .int n => .int n
  | .float x => .float x
  | .str s => .str s
  | .path s => .str s
  | .list items => .list (jsonItems form items)
  | .dict members => .dict (jsonMembers form members)
  | .other text => form text

def jsonItems (form : String → Value) : List Value → List Value
  | [] => []
  | v :: vs => v.json form :: jsonItems form vs

def jsonMembers (form : String → Value) : List (String × Value) → List (String × Value)
  | [] => []
  | (k, v) :: ms => (k, v.json form) :: jsonMembers form ms

end

section Json

variable {form : String → Value}

mutual

theorem json_isJson
    (hform : ∀ text, (form text).isJson = true) :
    ∀ v : Value, (v.json form).isJson = true
  | .none => rfl
  | .bool _ => rfl
  | .int _ => rfl
  | .float _ => rfl
  | .str _ => rfl
  | .path _ => rfl
  | .list items => jsonItems_isJson hform items
  | .dict members => jsonMembers_isJson hform members
  | .other text => hform text

theorem jsonItems_isJson
    (hform : ∀ text, (form text).isJson = true) :
    ∀ vs : List Value, itemsJson (jsonItems form vs) = true
  | [] => rfl
  | v :: vs => by
      rw [jsonItems, itemsJson, json_isJson hform v, jsonItems_isJson hform vs, Bool.and_true]

theorem jsonMembers_isJson
    (hform : ∀ text, (form text).isJson = true) :
    ∀ ms : List (String × Value), membersJson (jsonMembers form ms) = true
  | [] => rfl
  | (_, v) :: ms => by
      rw [jsonMembers, membersJson, json_isJson hform v, jsonMembers_isJson hform ms,
        Bool.and_true]

end

mutual

theorem json_self :
    ∀ v : Value, v.isJson = true → v.json form = v
  | .none, _ => rfl
  | .bool _, _ => rfl
  | .int _, _ => rfl
  | .float _, _ => rfl
  | .str _, _ => rfl
  | .path _, h => by cases h
  | .list items, h => congrArg Value.list (jsonItems_self items h)
  | .dict members, h => congrArg Value.dict (jsonMembers_self members h)
  | .other _, h => by cases h

theorem jsonItems_self :
    ∀ vs : List Value, itemsJson vs = true → jsonItems form vs = vs
  | [], _ => rfl
  | v :: vs, h => by
      obtain ⟨hv, hvs⟩ := Bool.and_eq_true_iff.mp h
      rw [jsonItems, json_self v hv, jsonItems_self vs hvs]

theorem jsonMembers_self :
    ∀ ms : List (String × Value), membersJson ms = true → jsonMembers form ms = ms
  | [], _ => rfl
  | (k, v) :: ms, h => by
      obtain ⟨hv, hms⟩ := Bool.and_eq_true_iff.mp h
      rw [jsonMembers, json_self v hv, jsonMembers_self ms hms]

end

/-- JSON keeps a value exactly when it holds it as it is. -/
theorem json_eq_self_iff
    (hform : ∀ text, (form text).isJson = true) (v : Value) :
    v.json form = v ↔ v.isJson = true := by
  constructor
  · intro h
    exact h ▸ json_isJson hform v
  · exact json_self v

theorem itemsJson_of_all
    {vs : List Value} (h : ∀ v ∈ vs, v.isJson = true) :
    itemsJson vs = true := by
  induction vs with
  | nil => rfl
  | cons v vs ih =>
      obtain ⟨hv, hvs⟩ := List.forall_mem_cons.mp h
      rw [itemsJson, hv, ih hvs, Bool.and_true]

theorem membersJson_of_all
    {ms : List (String × Value)} (h : ∀ m ∈ ms, m.2.isJson = true) :
    membersJson ms = true := by
  induction ms with
  | nil => rfl
  | cons m ms ih =>
      obtain ⟨hm, hms⟩ := List.forall_mem_cons.mp h
      obtain ⟨k, v⟩ := m
      rw [membersJson, hm, ih hms, Bool.and_true]

end Json

/-! ### Types -/

/-- The types of the fields; `dict` is a mapping to any values. -/
inductive Kind where
  | bool
  | int
  | float
  | str
  | literal (choices : List String)
  | path
  | list (item : Kind)
  | dict

def Kind.has : Kind → Value → Bool
  | .bool, .bool _ => true
  | .int, .int _ => true
  | .float, .float _ => true
  | .str, .str _ => true
  | .literal choices, .str s => choices.contains s
  | .path, .path _ => true
  | .list item, .list vs => vs.all item.has
  | .dict, .dict _ => true
  | _, _ => false

/-- Values of the type are JSON. -/
def Kind.plain : Kind → Bool
  | .path => false
  | .dict => false
  | .list item => item.plain
  | _ => true

theorem isJson_of_kind
    {k : Kind} {v : Value} (hplain : k.plain = true) (h : k.has v = true) :
    v.isJson = true := by
  induction k generalizing v with
  | path => cases hplain
  | dict => cases hplain
  | list item ih =>
      cases v with
      | list vs => exact itemsJson_of_all fun w hw => ih hplain (List.all_eq_true.mp h w hw)
      | _ => cases h
  | _ =>
      cases v with
      | path _ => cases h
      | list _ => cases h
      | dict _ => cases h
      | other _ => cases h
      | _ => rfl

/-- What the model classes rely on: a value of the type of its field is kept, whatever
pydantic makes of another one has that type; an expanded path is not expanded again, and
its text reads back; the form of a value that JSON does not know is JSON. -/
structure Pydantic where
  coerce : Kind → Value → Option Value
  expanduser : String → Option String
  form : String → Value
  coerce_self : ∀ k v, k.has v = true → coerce k v = some v
  has_coerce : ∀ k v w, coerce k v = some w → k.has w = true
  expanduser_self : ∀ p q, expanduser p = some q → expanduser q = some q
  coerce_text : ∀ p q, expanduser p = some q → coerce .path (.str q) = some (.path q)
  form_isJson : ∀ text, (form text).isJson = true

/-! ### Checks -/

section Checks

variable (P : Pydantic)

def typed (k : Kind) (v : Value) : Except Failure Value :=
  match P.coerce k v with
  | some w => .ok w
  | none => .error .invalid

/-- A type with a bound on its values. -/
def checked (k : Kind) (bound : Value → Bool) (v : Value) : Except Failure Value :=
  (typed P k v).bind fun w => if bound w then .ok w else .error .invalid

def nullable (check : Value → Except Failure Value) : Value → Except Failure Value
  | .none => .ok .none
  | v => check v

def anyValue (_ : Value) : Bool := true

/-- `ge` and `le` of an integer. -/
def intFrom (ge le : Int) : Value → Bool
  | .int n => decide (ge ≤ n) && decide (n ≤ le)
  | _ => false

/-- `ge` and `le` of a float. -/
def floatFrom (ge le : Rat) : Value → Bool
  | .float x => decide (ge ≤ x) && decide (x ≤ le)
  | _ => false

/-- `gt` and `le` of a float. -/
def floatAbove (gt le : Rat) : Value → Bool
  | .float x => decide (gt < x) && decide (x ≤ le)
  | _ => false

def minLength (n : Nat) : Value → Bool
  | .str s => decide (n ≤ s.length)
  | _ => false

def strip (s : String) : String := String.ofList (Text.strip s.toList)

/-- `TaskConfig._check_enabled_types`. -/
def enabledTypes : Value → Bool
  | .list vs => vs.all fun v =>
      (Kind.literal ["shell", "noop", "acp", "subagent"]).has v
  | _ => false

/-- `TaskConfig._strip_acp_model`, after the length was checked. -/
def acpModel (v : Value) : Except Failure Value :=
  (checked P .str (minLength 1) v).bind fun
    | .str s => if strip s = "" then .error .invalid else .ok (.str (strip s))
    | w => .ok w

/-- `NotificationsConfig._normalize_webhook_url`, before the type is checked; what is no
text has no `strip`. -/
def webhookUrl : Value → Except Failure Value
  | .none => .ok .none
  | .str s => if strip s = "" then .ok .none else checked P .str (minLength 1) (.str (strip s))
  | _ => .error .raised

/-- `McpServerConfig._ensure_list`. -/
def ensureList (v : Value) : Except Failure Value :=
  typed P (.list .str) (match v with
    | .list vs => .list vs
    | _ => .list [])

/-- `PluginConfig._expand_skill_path`. -/
def skillPath (v : Value) : Except Failure Value :=
  (typed P .path v).bind fun
    | .path p =>
        match P.expanduser p with
        | some q => .ok (.path q)
        | none => .error .raised
    | w => .ok w

/-- A field that may be missing. -/
def optional (name : String) (check : Value → Except Failure Value) : FieldDef Value :=
  { name := name
    check := nullable check
    default := some .none }

def withDefault (name : String) (k : Kind) (bound : Value → Bool) (default : Value) :
    FieldDef Value :=
  { name := name
    check := checked P k bound
    default := some default }

def required (name : String) (k : Kind) : FieldDef Value :=
  { name := name
    check := typed P k
    default := none }

end Checks

section CheckRules

variable {P : Pydantic} {k : Kind} {bound : Value → Bool} {v w : Value}
  {check : Value → Except Failure Value}

/-- What passes the check is JSON. -/
def Plain (check : Value → Except Failure Value) : Prop :=
  ∀ v w, check v = .ok w → w.isJson = true

theorem typed_eq_ok
    (h : typed P k v = .ok w) :
    P.coerce k v = some w := by
  unfold typed at h
  cases hcoerce : P.coerce k v with
  | none =>
      rw [hcoerce] at h
      cases h
  | some u =>
      rw [hcoerce] at h
      rw [Except.ok.inj h]

theorem has_typed
    (h : typed P k v = .ok w) :
    k.has w = true :=
  P.has_coerce k v w (typed_eq_ok h)

theorem typed_self
    (h : k.has v = true) :
    typed P k v = .ok v := by
  rw [typed, P.coerce_self k v h]

theorem stable_typed : Stable (typed P k) :=
  fun _ _ h => typed_self (has_typed h)

theorem plain_typed
    (hplain : k.plain = true) :
    Plain (typed P k) :=
  fun _ _ h => isJson_of_kind hplain (has_typed h)

theorem checked_eq_ok
    (h : checked P k bound v = .ok w) :
    typed P k v = .ok w ∧ bound w = true := by
  obtain ⟨u, htyped, h⟩ := bind_eq_ok.mp h
  split_ifs at h with hbound
  obtain rfl := Except.ok.inj h
  exact ⟨htyped, hbound⟩

theorem checked_self
    (h : k.has v = true) (hbound : bound v = true) :
    checked P k bound v = .ok v := by
  simp only [checked, typed_self h, Except.bind]
  rw [if_pos hbound]

theorem stable_checked : Stable (checked P k bound) := by
  intro v w h
  obtain ⟨htyped, hbound⟩ := checked_eq_ok h
  exact checked_self (has_typed htyped) hbound

theorem plain_checked
    (hplain : k.plain = true) :
    Plain (checked P k bound) :=
  fun _ _ h => isJson_of_kind hplain (has_typed (checked_eq_ok h).1)

theorem nullable_eq_ok
    (h : nullable check v = .ok w) :
    w = .none ∨ check v = .ok w := by
  cases v with
  | none => exact Or.inl (Except.ok.inj h).symm
  | _ => exact Or.inr h

theorem stable_nullable
    (h : Stable check) :
    Stable (nullable check) := by
  intro v w hok
  rcases nullable_eq_ok hok with rfl | hcheck
  · rfl
  · cases w with
    | none => rfl
    | _ => exact h v _ hcheck

theorem plain_nullable
    (h : Plain check) :
    Plain (nullable check) := by
  intro v w hok
  rcases nullable_eq_ok hok with rfl | hcheck
  · rfl
  · exact h v w hcheck

theorem strip_self
    (s : String) :
    strip (strip s) = strip s := by
  unfold strip
  rw [String.toList_ofList, Text.strip_strip]

/-- A text that `acp_model` may be. -/
theorem acpModel_eq_ok
    (h : acpModel P v = .ok w) :
    ∃ s, w = .str (strip s) ∧ strip s ≠ "" := by
  obtain ⟨u, hchecked, h⟩ := bind_eq_ok.mp h
  have htype := has_typed (checked_eq_ok hchecked).1
  cases u with
  | str s =>
      simp only at h
      split_ifs at h with hempty
      exact ⟨s, (Except.ok.inj h).symm, hempty⟩
  | _ => cases htype

theorem minLength_one
    {s : String} (h : s ≠ "") :
    minLength 1 (.str s) = true := by
  have hpos : 0 < s.length := Nat.pos_of_ne_zero fun hzero => h (String.length_eq_zero_iff.mp hzero)
  exact decide_eq_true hpos

theorem stable_acpModel : Stable (acpModel P) := by
  intro v w h
  obtain ⟨s, rfl, hne⟩ := acpModel_eq_ok h
  have hchecked : checked P .str (minLength 1) (.str (strip s)) = .ok (.str (strip s)) :=
    checked_self rfl (minLength_one hne)
  simp only [acpModel, hchecked, Except.bind, strip_self]
  rw [if_neg hne]

theorem plain_acpModel : Plain (acpModel P) := by
  intro v w h
  obtain ⟨s, rfl, _⟩ := acpModel_eq_ok h
  rfl

theorem webhookUrl_eq_ok
    (h : webhookUrl P v = .ok w) :
    w = .none ∨ ∃ s, w = .str (strip s) ∧ strip s ≠ "" := by
  cases v with
  | none => exact Or.inl (Except.ok.inj h).symm
  | str s =>
      simp only [webhookUrl] at h
      split_ifs at h with hempty
      · exact Or.inl (Except.ok.inj h).symm
      · rw [checked_self rfl (minLength_one hempty)] at h
        exact Or.inr ⟨s, (Except.ok.inj h).symm, hempty⟩
  | _ => cases h

theorem stable_webhookUrl : Stable (webhookUrl P) := by
  intro v w h
  rcases webhookUrl_eq_ok h with rfl | ⟨s, rfl, hne⟩
  · rfl
  · simp only [webhookUrl, strip_self]
    rw [if_neg hne]
    exact checked_self rfl (minLength_one hne)

theorem plain_webhookUrl : Plain (webhookUrl P) := by
  intro v w h
  rcases webhookUrl_eq_ok h with rfl | ⟨s, rfl, _⟩
  · rfl
  · rfl

theorem ensureList_eq_ok
    (h : ensureList P v = .ok w) :
    (Kind.list .str).has w = true :=
  has_typed h

theorem stable_ensureList : Stable (ensureList P) := by
  intro v w h
  have htype := ensureList_eq_ok h
  cases w with
  | list vs => exact typed_self htype
  | _ => cases htype

theorem plain_ensureList : Plain (ensureList P) :=
  fun _ _ h => isJson_of_kind rfl (ensureList_eq_ok h)

theorem skillPath_eq_ok
    (h : skillPath P v = .ok w) :
    ∃ p q, P.expanduser p = some q ∧ w = .path q := by
  obtain ⟨u, htyped, h⟩ := bind_eq_ok.mp h
  have htype := has_typed htyped
  cases u with
  | path p =>
      simp only at h
      cases hexpand : P.expanduser p with
      | none =>
          rw [hexpand] at h
          cases h
      | some q =>
          rw [hexpand] at h
          exact ⟨p, q, hexpand, (Except.ok.inj h).symm⟩
  | _ => cases htype

theorem skillPath_of_typed
    {p q : String} (h : P.expanduser p = some q) (hv : typed P .path v = .ok (.path q)) :
    skillPath P v = .ok (.path q) := by
  simp only [skillPath, hv, Except.bind, P.expanduser_self p q h]

theorem stable_skillPath : Stable (skillPath P) := by
  intro v w h
  obtain ⟨p, q, hexpand, rfl⟩ := skillPath_eq_ok h
  exact skillPath_of_typed hexpand (typed_self rfl)

end CheckRules

/-! ### Sections -/

/-- A field whose check is stable and accepts the default. -/
structure Sound (f : FieldDef Value) : Prop where
  stable : Stable f.check
  default : ∀ v, f.default = some v → f.check v = .ok v

/-- A sound field of JSON values. -/
structure Clean (f : FieldDef Value) : Prop extends Sound f where
  plain : Plain f.check

section Fields

variable {P : Pydantic} {name : String} {k : Kind} {bound : Value → Bool} {d : Value}
  {check : Value → Except Failure Value}

theorem sound_optional
    (h : Stable check) :
    Sound (optional name check) where
  stable := stable_nullable h
  default v hv := by
    obtain rfl := Option.some.inj hv
    rfl

theorem sound_withDefault
    (hd : k.has d = true) (hbound : bound d = true) :
    Sound (withDefault P name k bound d) where
  stable := stable_checked
  default v hv := by
    obtain rfl := Option.some.inj hv
    exact checked_self hd hbound

theorem clean_optional
    (h : Stable check) (hplain : Plain check) :
    Clean (optional name check) where
  toSound := sound_optional h
  plain := plain_nullable hplain

theorem clean_withDefault
    (hplain : k.plain = true) (hd : k.has d = true) (hbound : bound d = true) :
    Clean (withDefault P name k bound d) where
  toSound := sound_withDefault hd hbound
  plain := plain_checked hplain

theorem clean_required
    (hplain : k.plain = true) :
    Clean (required P name k) where
  stable := stable_typed
  default v hv := by cases hv
  plain := plain_typed hplain

end Fields

/-- The schema of a model class. -/
def modelClass (fields : List (FieldDef Value)) (validateAssignment : Bool)
    (nodup : (fields.map FieldDef.name).Nodup) (sound : ∀ f ∈ fields, Sound f) : Schema Value where
  fields := fields
  validateAssignment := validateAssignment
  nodup := nodup
  stable f hf := (sound f hf).stable
  defaults f hf := (sound f hf).default

section Classes

variable (P : Pydantic)

def taskFields : List (FieldDef Value) :=
  [withDefault P "workers" .int (intFrom 1 64) (.int 4),
    withDefault P "shell_timeout" .float (floatAbove 0 86400) (.float 60),
    withDefault P "enabled_types" (.list .str) enabledTypes
      (.list [.str "shell", .str "noop", .str "acp", .str "subagent"]),
    optional "acp_timeout" (checked P .float (floatAbove 0 86400)),
    optional "acp_model" (acpModel P)]

theorem taskFields_clean : ∀ f ∈ taskFields P, Clean f := by
  simp only [taskFields, List.forall_mem_cons]
  exact ⟨clean_withDefault rfl rfl rfl, clean_withDefault rfl rfl (by decide),
    clean_withDefault rfl rfl (by decide), clean_optional stable_checked (plain_checked rfl),
    clean_optional stable_acpModel plain_acpModel, by simp⟩

def taskConfig : Schema Value :=
  modelClass (taskFields P) true (by simp [taskFields, withDefault, optional])
    fun f hf => (taskFields_clean P f hf).toSound

def wakerFields : List (FieldDef Value) :=
  [withDefault P "enabled" .bool anyValue (.bool false),
    withDefault P "interval_seconds" .float (floatAbove 0 86400) (.float 5),
    withDefault P "max_retries" .int (intFrom 0 100) (.int 3),
    withDefault P "retry_after" .float (floatAbove 0 86400) (.float 30),
    withDefault P "lease_seconds" .float (floatAbove 0 86400) (.float 300)]

theorem wakerFields_clean : ∀ f ∈ wakerFields P, Clean f := by
  simp only [wakerFields, List.forall_mem_cons]
  exact ⟨clean_withDefault rfl rfl rfl, clean_withDefault rfl rfl (by decide),
    clean_withDefault rfl rfl rfl, clean_withDefault rfl rfl (by decide),
    clean_withDefault rfl rfl (by decide), by simp⟩

def wakerConfig : Schema Value :=
  modelClass (wakerFields P) true (by simp [wakerFields, withDefault])
    fun f hf => (wakerFields_clean P f hf).toSound

def timerFields : List (FieldDef Value) :=
  [withDefault P "enabled" .bool anyValue (.bool true),
    withDefault P "interval_seconds" .float (floatAbove 0 86400) (.float 5),
    withDefault P "lease_seconds" .float (floatAbove 0 86400) (.float 300),
    withDefault P "max_retries" .int (intFrom 0 100) (.int 5),
    withDefault P "retry_after_seconds" .float (floatAbove 0 86400) (.float 30),
    withDefault P "self_wake_max_pending" .int (intFrom 0 100) (.int 3),
    withDefault P "self_wake_min_interval_seconds" .float (floatFrom 0 86400) (.float 300),
    withDefault P "self_wake_max_delay_seconds" .float (floatAbove 0 31536000) (.float 604800)]

theorem timerFields_clean : ∀ f ∈ timerFields P, Clean f := by
  simp only [timerFields, List.forall_mem_cons]
  exact ⟨clean_withDefault rfl rfl rfl, clean_withDefault rfl rfl (by decide),
    clean_withDefault rfl rfl (by decide), clean_withDefault rfl rfl rfl,
    clean_withDefault rfl rfl (by decide), clean_withDefault rfl rfl rfl,
    clean_withDefault rfl rfl (by decide), clean_withDefault rfl rfl (by decide), by simp⟩

def timerConfig : Schema Value :=
  modelClass (timerFields P) true (by simp [timerFields, withDefault])
    fun f hf => (timerFields_clean P f hf).toSound

def notificationsFields : List (FieldDef Value) :=
  [withDefault P "enabled" .bool anyValue (.bool true),
    optional "webhook_url" (webhookUrl P),
    withDefault P "outbox_delivery" .bool anyValue (.bool false),
    withDefault P "mesh_telegram_float" .bool anyValue (.bool false),
    optional "mirror_chat_id" (typed P .int)]

theorem notificationsFields_clean : ∀ f ∈ notificationsFields P, Clean f := by
  simp only [notificationsFields, List.forall_mem_cons]
  exact ⟨clean_withDefault rfl rfl rfl, clean_optional stable_webhookUrl plain_webhookUrl,
    clean_withDefault rfl rfl rfl, clean_withDefault rfl rfl rfl,
    clean_optional stable_typed (plain_typed rfl), by simp⟩

def notificationsConfig : Schema Value :=
  modelClass (notificationsFields P) true
    (by simp [notificationsFields, withDefault, optional])
    fun f hf => (notificationsFields_clean P f hf).toSound

def telegramFields : List (FieldDef Value) :=
  [withDefault P "enabled" .bool anyValue (.bool false),
    optional "token" (typed P .str),
    withDefault P "stream_thoughts" .bool anyValue (.bool false),
    withDefault P "stream_chunk_interval" .float anyValue (.float 2),
    withDefault P "intermediate_messages" .bool anyValue (.bool true),
    withDefault P "intermediate_idle" .float anyValue (.float 3),
    withDefault P "intermediate_min_chars" .int anyValue (.int 20),
    withDefault P "min_telegram_interval" .float anyValue (.float 1),
    withDefault P "min_edit_message_interval" .float anyValue (.float 2),
    withDefault P "task_board" .bool anyValue (.bool true),
    withDefault P "wake_stream" .bool anyValue (.bool true),
    withDefault P "bot_menu" .bool anyValue (.bool true),
    withDefault P "tool_progress" .bool anyValue (.bool true),
    withDefault P "message_format" (.literal ["plain", "markdown_v2"]) anyValue (.str "plain"),
    withDefault P "code_style" (.literal ["inline", "box"]) anyValue (.str "inline"),
    withDefault P "attachments_enabled" .bool anyValue (.bool true),
    withDefault P "attachments_max_bytes" .int anyValue (.int 20000000),
    withDefault P "attachments_dirname" .str anyValue (.str "inbox"),
    withDefault P "stt_provider" (.literal ["none", "faster-whisper", "command"]) anyValue
      (.str "none"),
    withDefault P "stt_model" .str anyValue (.str "small"),
    withDefault P "stt_command" .str anyValue (.str ""),
    withDefault P "tts_provider" (.literal ["none", "piper", "command"]) anyValue (.str "none"),
    withDefault P "tts_model_path" .str anyValue (.str ""),
    withDefault P "tts_command" .str anyValue (.str ""),
    withDefault P "tts_max_chars" .int anyValue (.int 800),
    withDefault P "allowed_chats" (.list .int) anyValue (.list [])]

theorem telegramFields_clean : ∀ f ∈ telegramFields P, Clean f := by
  have hplain : ∀ {name k d}, k.plain = true → k.has d = true →
      Clean (withDefault P name k anyValue d) :=
    fun hplain hd => clean_withDefault hplain hd rfl
  simp only [telegramFields, List.forall_mem_cons]
  exact ⟨hplain rfl rfl, clean_optional stable_typed (plain_typed rfl), hplain rfl rfl,
    hplain rfl rfl, hplain rfl rfl, hplain rfl rfl, hplain rfl rfl, hplain rfl rfl,
    hplain rfl rfl, hplain rfl rfl, hplain rfl rfl, hplain rfl rfl, hplain rfl rfl,
    hplain rfl (by decide), hplain rfl (by decide), hplain rfl rfl, hplain rfl rfl,
    hplain rfl rfl, hplain rfl (by decide), hplain rfl rfl, hplain rfl rfl,
    hplain rfl (by decide), hplain rfl rfl, hplain rfl rfl, hplain rfl rfl, hplain rfl rfl,
    by simp⟩

def telegramConfig : Schema Value :=
  modelClass (telegramFields P) false (by simp [telegramFields, withDefault, optional])
    fun f hf => (telegramFields_clean P f hf).toSound

def mcpServerFields : List (FieldDef Value) :=
  [required P "name" .str,
    required P "command" .str,
    { name := "args"
      check := ensureList P
      default := some (.list []) },
    { name := "env"
      check := ensureList P
      default := some (.list []) },
    withDefault P "disabled" .bool anyValue (.bool false)]

theorem mcpServerFields_clean : ∀ f ∈ mcpServerFields P, Clean f := by
  have hlist : ∀ name, Clean {
      name := name
      check := ensureList P
      default := some (Value.list []) } := by
    refine fun name => ⟨⟨stable_ensureList, fun v hv => ?_⟩, plain_ensureList⟩
    obtain rfl := Option.some.inj hv
    exact typed_self rfl
  simp only [mcpServerFields, List.forall_mem_cons]
  exact ⟨clean_required rfl, clean_required rfl, hlist _, hlist _,
    clean_withDefault rfl rfl rfl, by simp⟩

def mcpServerConfig : Schema Value :=
  modelClass (mcpServerFields P) false (by simp [mcpServerFields, required, withDefault])
    fun f hf => (mcpServerFields_clean P f hf).toSound

/-- A nested MCP server is kept as the mapping of its fields. -/
def mcpServer : Value → Except Failure Value
  | .dict members =>
      (construct (mcpServerFields P) (setAll Dict.empty members)).map fun m =>
        .dict m.entries
  | _ => .error .invalid

variable {P}

theorem mcpServer_eq_ok
    {v w : Value} (h : mcpServer P v = .ok w) :
    ∃ members m, v = .dict members ∧
      construct (mcpServerFields P) (setAll Dict.empty members) = .ok m ∧ w = .dict m.entries := by
  cases v with
  | dict members =>
      obtain ⟨m, hm, rfl⟩ := map_eq_ok.mp h
      exact ⟨members, m, rfl, hm, rfl⟩
  | _ => cases h

/-- The fields of a server read the same values from what was built of it. -/
theorem stable_mcpServer : Stable (mcpServer P) := by
  intro v w h
  obtain ⟨members, m, rfl, hm, rfl⟩ := mcpServer_eq_ok h
  have hread : ∀ f ∈ mcpServerFields P,
      f.read (setAll Dict.empty m.entries) = f.read (setAll Dict.empty members) := by
    intro f hf
    obtain ⟨u, hu, hget⟩ := get_of_construct (mcpServerConfig P).nodup hm hf
    have hcheck : f.check u = .ok u := check_of_read (S := mcpServerConfig P) hf hu
    rw [hu, read_of_get ((get_ofEntries m f.name).trans hget), hcheck]
  simp only [mcpServer, construct_congr hread, hm]
  rfl

theorem plain_mcpServer : Plain (mcpServer P) := by
  intro v w h
  obtain ⟨members, m, rfl, hm, rfl⟩ := mcpServer_eq_ok h
  refine membersJson_of_all fun e he => ?_
  obtain ⟨f, hf, _, hread⟩ :=
    read_of_construct hm ((Dict.get_eq_some_iff m e.1 e.2).mpr he)
  exact (mcpServerFields_clean P f hf).plain _ _
    (check_of_read (S := mcpServerConfig P) hf hread)

variable (P)

def pluginFields : List (FieldDef Value) :=
  [required P "name" .str,
    withDefault P "enabled" .bool anyValue (.bool true),
    optional "module" (typed P .str),
    optional "state_file" (typed P .str),
    optional "mcp_server" (mcpServer P),
    optional "skill" (typed P .str),
    optional "skill_path" (skillPath P),
    withDefault P "prompt_slot" .str anyValue (.str "self_state"),
    withDefault P "first_prompt_only" .bool anyValue (.bool false),
    withDefault P "prompt_order" .int anyValue (.int 100),
    withDefault P "max_prompt_chars" .int anyValue (.int 1024),
    optional "prompt_template" (typed P .str),
    withDefault P "config" .dict anyValue (.dict [])]

theorem pluginFields_sound : ∀ f ∈ pluginFields P, Sound f := by
  simp only [pluginFields, List.forall_mem_cons]
  exact ⟨⟨stable_typed, fun _ hv => by cases hv⟩, sound_withDefault rfl rfl,
    sound_optional stable_typed, sound_optional stable_typed, sound_optional stable_mcpServer,
    sound_optional stable_typed, sound_optional stable_skillPath, sound_withDefault rfl rfl,
    sound_withDefault rfl rfl, sound_withDefault rfl rfl, sound_withDefault rfl rfl,
    sound_optional stable_typed, sound_withDefault rfl rfl, by simp⟩

def pluginConfig : Schema Value :=
  modelClass (pluginFields P) false (by simp [pluginFields, required, withDefault, optional])
    (pluginFields_sound P)

end Classes

/-! ### The fields that are written -/

section Written

variable {P : Pydantic} {name : String} {k : Kind} {bound : Value → Bool} {d : Value}
  {check : Value → Except Failure Value} {f : FieldDef Value} {v : Value}

/-- What passes the check passes it again in its JSON form, unless it is missing. -/
def Returns (P : Pydantic) (check : Value → Except Failure Value) : Prop :=
  ∀ v w, check v = .ok w → w.isNone = false → check (w.json P.form) = .ok w

theorem Clean.returns
    (h : Clean f) :
    Returns P f.check := by
  intro v w hcheck _
  rw [json_self w (h.plain v w hcheck)]
  exact h.stable v w hcheck

/-- The text of an expanded path is read as that path. -/
theorem returns_skillPath : Returns P (nullable (skillPath P)) := by
  intro v w h hnone
  rcases nullable_eq_ok h with rfl | hcheck
  · cases hnone
  · obtain ⟨p, q, hexpand, rfl⟩ := skillPath_eq_ok hcheck
    have htext : typed P .path (.str q) = .ok (.path q) := by
      rw [typed, P.coerce_text p q hexpand]
    exact skillPath_of_typed hexpand htext

/-- A field that accepts a missing value is missing by default. -/
def Blank (f : FieldDef Value) : Prop :=
  f.check .none = .ok .none → f.default = some .none

theorem not_typed_none : typed P k v ≠ .ok .none := by
  intro h
  have htype := has_typed h
  cases k <;> cases htype

theorem blank_optional : Blank (optional name check) :=
  fun _ => rfl

theorem blank_withDefault : Blank (withDefault P name k bound d) :=
  fun h => absurd (checked_eq_ok h).1 not_typed_none

theorem blank_required : Blank (required P name k) :=
  fun h => absurd h not_typed_none

/-- The mapping that a plugin is given as it is. -/
def pluginConfigField (P : Pydantic) : FieldDef Value :=
  withDefault P "config" .dict anyValue (.dict [])

theorem pluginFields_blank : ∀ f ∈ pluginFields P, Blank f := by
  simp only [pluginFields, List.forall_mem_cons]
  exact ⟨blank_required, blank_withDefault, blank_optional, blank_optional, blank_optional,
    blank_optional, blank_optional, blank_withDefault, blank_withDefault, blank_withDefault,
    blank_withDefault, blank_optional, blank_withDefault, by simp⟩

/-- Every field of a plugin but its config is read back as it was written. -/
theorem pluginFields_return :
    ∀ f ∈ pluginFields P, f = pluginConfigField P ∨ f.name ≠ "config" ∧ Returns P f.check := by
  have hclean : ∀ {f : FieldDef Value}, f.name ≠ "config" → Clean f →
      f = pluginConfigField P ∨ f.name ≠ "config" ∧ Returns P f.check :=
    fun hname h => Or.inr ⟨hname, h.returns⟩
  simp only [pluginFields, List.forall_mem_cons]
  refine ⟨hclean ?_ (clean_required rfl), hclean ?_ (clean_withDefault rfl rfl rfl),
    hclean ?_ (clean_optional stable_typed (plain_typed rfl)),
    hclean ?_ (clean_optional stable_typed (plain_typed rfl)),
    hclean ?_ (clean_optional stable_mcpServer plain_mcpServer),
    hclean ?_ (clean_optional stable_typed (plain_typed rfl)),
    Or.inr ⟨?_, returns_skillPath⟩, hclean ?_ (clean_withDefault rfl rfl rfl),
    hclean ?_ (clean_withDefault rfl rfl rfl), hclean ?_ (clean_withDefault rfl rfl rfl),
    hclean ?_ (clean_withDefault rfl rfl rfl),
    hclean ?_ (clean_optional stable_typed (plain_typed rfl)), Or.inl rfl, by simp⟩ <;>
    simp [required, withDefault, optional]

end Written

end HarnessConfig
end DiploidAgent
