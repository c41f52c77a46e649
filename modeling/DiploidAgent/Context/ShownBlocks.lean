import DiploidAgent.Lib.Runs
import DiploidAgent.Context.PromptSlots
import DiploidAgent.Plugins.FanOut

/-!
# Blocks that are left out

`build_first` and `build_follow_up` of `context/builder.py` as far as the blocks of the
plugins go.  For each chat the builder remembers the last block of every plugin and slot,
and a follow-up leaves a block out that has not changed.  The memory is written while the
slots are filled, before lists, caps and budgets cut them; it is cleared by `build_first`
only, and follow-ups go to new sessions and to resumed ones as well.

A block that is left out has been shown in the session, and no other one since, where the
prompt in which it was remembered went to the same session and kept it
(`left_out_was_shown`).
-/

namespace DiploidAgent
namespace Context

open Plugins.FanOut
open Runs
open Turns.FollowUp (RehydrationReason SoulMode)

variable {ε σ χ μ : Type}

section Fill

/-- What is done with a plugin in a prompt. -/
inductive Verdict (ε : Type) where
  | raised (e : ε)
  | passedOver
  | noBlock
  | unchanged
  | repeated (block : String)
  | put (block : String)

/-- The comparison with the remembered block. -/
def blockVerdict (r : FillRequest Int) (p : Plugin ε σ χ μ Int) (s : Prompt) : Verdict ε :=
  match p.block (p.maxChars r) r.compact with
  | none => .noBlock
  | some b => if p.repeats r s b then .repeated b else .put b

/-- The plugin's answer comes first, where it is asked. -/
def verdict (r : FillRequest Int) (p : Plugin ε σ χ μ Int) (s : Prompt) : Verdict ε :=
  if p.passedOver r then .passedOver
  else if p.asked r s.lastBlocks.isSome then
    match p.promptBlockChanged r.lastPromptTime with
    | .error e => .raised e
    | .ok (some false) => .unchanged
    | .ok _ => blockVerdict r p s
  else blockVerdict r p s

/-- A block that was left out as unchanged, and whether the plugin itself said so. -/
structure LeftOut where
  key : String × String
  block : String
  answered : Bool
deriving DecidableEq

/-- The block that a verdict leaves out. -/
def leftOutBy (r : FillRequest Int) (p : Plugin ε σ χ μ Int) : Verdict ε → List LeftOut
  | .unchanged =>
      (p.block (p.maxChars r) r.compact).toList.map fun b =>
        { key := p.key
          block := b
          answered := true }
  | .repeated b =>
      [{ key := p.key
         block := b
         answered := false }]
  | _ => []

/-- The block that a verdict puts. -/
def putBy (p : Plugin ε σ χ μ Int) : Verdict ε → List ((String × String) × String)
  | .put b => [(p.key, b)]
  | _ => []

/-- Where `fill_prompt_slots` ends, at the last plugin or where one raises. -/
def filled (r : FillRequest Int) : List (Plugin ε σ χ μ Int) → Prompt → Prompt × Bool
  | [], s => (s, true)
  | p :: plugins, s =>
      match fillPlugin r p s with
      | .error _ => (s, false)
      | .ok s' => filled r plugins s'

/-- The blocks that were left out. -/
def leftOut (r : FillRequest Int) : List (Plugin ε σ χ μ Int) → Prompt → List LeftOut
  | [], _ => []
  | p :: plugins, s =>
      match fillPlugin r p s with
      | .error _ => []
      | .ok s' => leftOutBy r p (verdict r p s) ++ leftOut r plugins s'

/-- The blocks that were put and remembered, the last one first. -/
def puts (r : FillRequest Int) :
    List (Plugin ε σ χ μ Int) → Prompt → List ((String × String) × String)
  | [], _ => []
  | p :: plugins, s =>
      match fillPlugin r p s with
      | .error _ => []
      | .ok s' => puts r plugins s' ++ putBy p (verdict r p s)

end Fill

section Builds

/-- The settings of the harness that are read here. -/
structure Config where
  promptBlocks : PromptBlocksConfig := {}
  wakeContextTokenBudget : Int := 0
  compactPluginMaxChars : Int := 200

/-- A first prompt with the reason of a rehydration, or a follow-up with its soul mode. -/
inductive Kind where
  | first (reason : RehydrationReason)
  | followUp (mode : SoulMode)
deriving DecidableEq

/-- A prompt that is built for an ACP session, with the plugins as they are then.
`edited` is the prompt of the plugins that are consulted afterwards, where they change it,
and `raises` says that something raises after the plugins. -/
structure Build (ε σ χ μ : Type) where
  chatId : String
  session : Nat
  kind : Kind
  rehydrated : Bool := false
  plugins : List (Plugin ε σ χ μ Int)
  /-- `add_plugin` refuses a second plugin of a name. -/
  unique : (plugins.map Plugin.name).Nodup
  parts : PromptParts
  now : Int
  edited : Option String := none
  raises : Bool := false

namespace Build

def isFirst (b : Build ε σ χ μ) : Bool :=
  match b.kind with
  | .first _ => true
  | .followUp _ => false

/-- `is_compact`. -/
def compact (b : Build ε σ χ μ) : Bool :=
  match b.kind with
  | .first reason => reason ∈ compactReasons
  | .followUp mode => mode = .fresh

/-- `force_slots`. -/
def forceSlots (b : Build ε σ χ μ) : List String :=
  match b.kind with
  | .first _ => if b.compact then soulSlots else []
  | .followUp mode => if mode = .normal then [] else soulSlots

/-- A first prompt opens a session, and so does a follow-up that asks for a new one. -/
def opensSession (b : Build ε σ χ μ) : Bool := b.isFirst || b.kind = .followUp .fresh

/-- `wake_budget`. -/
def wakeBudget (cfg : Config) (b : Build ε σ χ μ) : Option WakeBudget :=
  if b.isFirst && b.compact && 0 < cfg.wakeContextTokenBudget then
    some {
      budget := cfg.wakeContextTokenBudget
      line := b.parts.wakeLine }
  else none

/-- The arguments of `fill_prompt_slots`. -/
def request (cfg : Config) (since : Option Int) (b : Build ε σ χ μ) : FillRequest Int where
  isFirst := b.isFirst
  rehydrated := b.rehydrated
  lastPromptTime := since
  forceSlots := b.forceSlots
  compact := b.compact
  compactCap := cfg.compactPluginMaxChars

end Build

/-- `_last_blocks` and `_last_prompt_time` of a chat. -/
structure Cache where
  lastBlocks : Dict (String × String) String := Dict.empty
  lastPromptTime : Int := 0

/-- A prompt with its slots, the blocks that were put in them and those that were left
out.  A build that raised was for no session. -/
structure Built where
  chatId : String
  session : Option Nat
  isFirst : Bool
  slots : Slots
  edited : Option String
  put : List ((String × String) × String)
  leftOut : List LeftOut

/-- The prompt that is delivered. -/
def Built.text (q : Built) : String := q.edited.getD (renderSlots q.slots)

/-- The memory of the builder, and the prompts so far, newest first. -/
structure State where
  caches : Dict String Cache := Dict.empty
  history : List Built := []

/-- The memory that a build starts from: `build_first` clears it. -/
def cacheOf (st : State) (b : Build ε σ χ μ) : Cache :=
  if b.isFirst then {} else (st.caches.get b.chatId).getD {}

/-- `last_prompt_time`, which a follow-up of an unknown chat does not have. -/
def sinceOf (st : State) (b : Build ε σ χ μ) : Option Int :=
  if b.isFirst then none else (st.caches.get b.chatId).map Cache.lastPromptTime

/-- `slots` and `last_blocks` as the plugins find them. -/
def promptOf (st : State) (b : Build ε σ χ μ) : Prompt where
  slots := b.parts.slots b.compact
  lastBlocks := some (cacheOf st b).lastBlocks

/-- The blocks that a build leaves out. -/
def leavesOut (cfg : Config) (st : State) (b : Build ε σ χ μ) : List LeftOut :=
  leftOut (b.request cfg (sinceOf st b)) b.plugins (promptOf st b)

/-- `_assemble_prompt` gets through. -/
def completes (cfg : Config) (st : State) (b : Build ε σ χ μ) : Bool :=
  (filled (b.request cfg (sinceOf st b)) b.plugins (promptOf st b)).2 && !b.raises

/-- A prompt is built; a session that is opened has had none. -/
def step (cfg : Config) (st : State) (b : Build ε σ χ μ) : Option State :=
  if b.opensSession && st.history.any fun q => q.chatId = b.chatId && q.session = some b.session
  then none
  else
    let r := b.request cfg (sinceOf st b)
    let prompt := (filled r b.plugins (promptOf st b)).1
    let done := completes cfg st b
    some {
      caches := st.caches.set b.chatId {
        lastBlocks := prompt.lastBlocks.getD Dict.empty
        lastPromptTime := if done then b.now else (cacheOf st b).lastPromptTime }
      history :=
        { chatId := b.chatId
          session := if done then some b.session else none
          isFirst := b.isFirst
          slots :=
            finishSlots cfg.promptBlocks b.parts b.forceSlots b.compact (b.wakeBudget cfg)
              prompt.slots
          edited := b.edited
          put := puts r b.plugins (promptOf st b)
          leftOut := leavesOut cfg st b } :: st.history }

end Builds

section Filling

variable {r : FillRequest Int} {p : Plugin ε σ χ μ Int} {plugins : List (Plugin ε σ χ μ Int)}
  {s s' : Prompt} {d : Dict (String × String) String} {key : String × String}

/-- What a plugin's part does to the prompt is said by the verdict. -/
theorem fillPlugin_eq_verdict (r : FillRequest Int) (p : Plugin ε σ χ μ Int) (s : Prompt) :
    fillPlugin r p s =
      match verdict r p s with
      | .raised e => .error e
      | .put b => .ok (s.put p b)
      | _ => .ok s := by
  have hblock : (.ok (fillBlock r p s) : Except ε Prompt) =
      match blockVerdict r p s with
      | .raised e => .error e
      | .put b => .ok (s.put p b)
      | _ => .ok s := by
    unfold fillBlock blockVerdict
    cases p.block (p.maxChars r) r.compact with
    | none => rfl
    | some b =>
        dsimp only
        split <;> rfl
  unfold fillPlugin verdict
  split
  · rfl
  · split
    · cases p.promptBlockChanged r.lastPromptTime with
      | error e => rfl
      | ok changed =>
          cases changed with
          | none => exact hblock
          | some changed =>
              cases changed with
              | false => rfl
              | true => exact hblock
    · exact hblock

/-- A plugin that does not raise puts a block, or leaves the prompt as it is. -/
theorem fillPlugin_ok_cases
    (hfill : fillPlugin r p s = .ok s') :
    (∃ b, verdict r p s = .put b ∧ s' = s.put p b) ∨
      (putBy p (verdict r p s) = [] ∧ s' = s) := by
  rw [fillPlugin_eq_verdict] at hfill
  cases hv : verdict r p s with
  | raised e =>
      rw [hv] at hfill
      cases hfill
  | put b =>
      rw [hv] at hfill
      exact .inl ⟨b, rfl, (Except.ok.inj hfill).symm⟩
  | passedOver =>
      rw [hv] at hfill
      exact .inr ⟨rfl, (Except.ok.inj hfill).symm⟩
  | noBlock =>
      rw [hv] at hfill
      exact .inr ⟨rfl, (Except.ok.inj hfill).symm⟩
  | unchanged =>
      rw [hv] at hfill
      exact .inr ⟨rfl, (Except.ok.inj hfill).symm⟩
  | repeated b =>
      rw [hv] at hfill
      exact .inr ⟨rfl, (Except.ok.inj hfill).symm⟩

/-- A plugin's part changes what is remembered by the block that it puts. -/
theorem get_fillPlugin
    (hlast : s.lastBlocks = some d)
    (hfill : fillPlugin r p s = .ok s') :
    ∃ d', s'.lastBlocks = some d' ∧
      ∀ key, d'.get key = (lookupEntry key (putBy p (verdict r p s))).or (d.get key) := by
  obtain ⟨b, hv, rfl⟩ | ⟨hnone, rfl⟩ := fillPlugin_ok_cases hfill
  · refine ⟨d.set p.key b, by rw [Prompt.put, hlast]; rfl, fun key => ?_⟩
    rw [hv, putBy, Dict.get_set, lookupEntry]
    split_ifs <;> rfl
  · refine ⟨d, hlast, fun key => ?_⟩
    rw [hnone]
    rfl

/-- After the plugins the blocks that were put are remembered, and the others as before. -/
theorem get_filled
    (hlast : s.lastBlocks = some d) :
    ∃ d', (filled r plugins s).1.lastBlocks = some d' ∧
      ∀ key, d'.get key = (lookupEntry key (puts r plugins s)).or (d.get key) := by
  induction plugins generalizing s d with
  | nil => exact ⟨d, hlast, fun _ => rfl⟩
  | cons p plugins ih =>
      rw [filled, puts]
      cases hfill : fillPlugin r p s with
      | error e => exact ⟨d, hlast, fun _ => rfl⟩
      | ok s' =>
          obtain ⟨d', hlast', hget'⟩ := get_fillPlugin hlast hfill
          obtain ⟨d'', hlast'', hget''⟩ := ih hlast'
          refine ⟨d'', hlast'', fun key => ?_⟩
          rw [hget'', hget', lookupEntry_append, Option.or_assoc]

theorem key_leftOutBy
    {v : Verdict ε} {x : LeftOut}
    (hx : x ∈ leftOutBy r p v) :
    x.key = p.key := by
  cases v with
  | unchanged =>
      obtain ⟨b, -, rfl⟩ := List.mem_map.mp hx
      rfl
  | repeated b =>
      obtain rfl := List.mem_singleton.mp hx
      rfl
  | raised e => cases hx
  | passedOver => cases hx
  | noBlock => cases hx
  | put b => cases hx

/-- A block that is compared is the remembered one. -/
theorem remembered_of_repeated
    {b : String}
    (hlast : s.lastBlocks = some d)
    (hv : verdict r p s = .repeated b) :
    d.get p.key = some b := by
  have hblock : blockVerdict r p s = .repeated b → d.get p.key = some b := by
    intro hv
    unfold blockVerdict at hv
    split at hv
    · cases hv
    · split at hv
      · rename_i b' _ hrepeats
        obtain rfl := Verdict.repeated.inj hv
        rw [Plugin.repeats, hlast, Option.bind_some, Bool.and_eq_true] at hrepeats
        exact of_decide_eq_true hrepeats.2
      · cases hv
  unfold verdict at hv
  split at hv
  · cases hv
  · split at hv
    · split at hv
      · cases hv
      · cases hv
      · exact hblock hv
    · exact hblock hv

/-- A block that is left out without the plugin's own answer is the remembered one. -/
theorem remembered_of_leftOut
    (hlast : s.lastBlocks = some d)
    (hnd : (plugins.map Plugin.key).Nodup) :
    ∀ x ∈ leftOut r plugins s, x.key ∈ plugins.map Plugin.key ∧
      (x.answered = false → d.get x.key = some x.block) := by
  induction plugins generalizing s d with
  | nil => exact fun x hx => nomatch hx
  | cons p plugins ih =>
      intro x hx
      rw [List.map_cons, List.nodup_cons] at hnd
      rw [leftOut] at hx
      cases hfill : fillPlugin r p s with
      | error e =>
          rw [hfill] at hx
          cases hx
      | ok s' =>
          rw [hfill] at hx
          rcases List.mem_append.mp hx with hx | hx
          · refine ⟨List.mem_map.mpr ⟨p, List.mem_cons_self, (key_leftOutBy hx).symm⟩,
              fun hcompared => ?_⟩
            cases hv : verdict r p s with
            | repeated b =>
                rw [hv] at hx
                obtain rfl := List.mem_singleton.mp hx
                exact remembered_of_repeated hlast hv
            | unchanged =>
                rw [hv] at hx
                obtain ⟨b, -, rfl⟩ := List.mem_map.mp hx
                cases hcompared
            | raised e => rw [hv] at hx; cases hx
            | passedOver => rw [hv] at hx; cases hx
            | noBlock => rw [hv] at hx; cases hx
            | put b => rw [hv] at hx; cases hx
          · obtain ⟨d', hlast', hget'⟩ := get_fillPlugin hlast hfill
            obtain ⟨hkey, hremembered⟩ := ih hlast' hnd.2 x hx
            have hne : p.key ≠ x.key := fun heq => hnd.1 (heq ▸ hkey)
            refine ⟨List.mem_cons_of_mem _ hkey, fun hcompared => ?_⟩
            have hget := hremembered hcompared
            rw [hget', (lookupEntry_eq_none_iff x.key _).mpr ?_, Option.none_or] at hget
            · exact hget
            · cases verdict r p s with
              | put b => simpa [putBy] using Ne.symm hne
              | raised e => simp [putBy]
              | passedOver => simp [putBy]
              | noBlock => simp [putBy]
              | unchanged => simp [putBy]
              | repeated b => simp [putBy]

theorem mem_slots_put
    {key : String × String} {block : String}
    (h : (key, block) ∈ putBy p (verdict r p s))
    (hblock : block ≠ "")
    (hfill : fillPlugin r p s = .ok s') :
    block ∈ (s'.slots.get key.2).getD [] := by
  obtain ⟨b, hv, rfl⟩ | ⟨hnone, rfl⟩ := fillPlugin_ok_cases hfill
  · rw [hv] at h
    obtain ⟨rfl, rfl⟩ := Prod.mk.inj (List.mem_singleton.mp h)
    rw [Prompt.put, if_neg hblock]
    change block ∈ ((s.slots.set p.promptSlot _).get p.promptSlot).getD []
    rw [Dict.get_set_self]
    exact List.mem_append_right _ List.mem_cons_self
  · rw [hnone] at h
    cases h

/-- The plugins leave the parts of the slots that are there. -/
theorem mem_slots_fillPlugin
    {slot part : String}
    (hpart : part ∈ (s.slots.get slot).getD [])
    (hfill : fillPlugin r p s = .ok s') :
    part ∈ (s'.slots.get slot).getD [] := by
  obtain ⟨b, -, rfl⟩ | ⟨-, rfl⟩ := fillPlugin_ok_cases hfill
  · rw [Prompt.put]
    dsimp only
    split_ifs
    · exact hpart
    · exact mem_appendTo hpart
  · exact hpart

/-- A block that was put is in its slot. -/
theorem mem_slots_filled
    {block : String}
    (h : (key, block) ∈ puts r plugins s)
    (hblock : block ≠ "") :
    block ∈ ((filled r plugins s).1.slots.get key.2).getD [] := by
  have hkeep : ∀ plugins : List (Plugin ε σ χ μ Int), ∀ s : Prompt,
      block ∈ (s.slots.get key.2).getD [] →
      block ∈ ((filled r plugins s).1.slots.get key.2).getD [] := by
    intro plugins
    induction plugins with
    | nil => exact fun _ hpart => hpart
    | cons p plugins ih =>
        intro s hpart
        rw [filled]
        cases hfill : fillPlugin r p s with
        | error e => exact hpart
        | ok s' => exact ih s' (mem_slots_fillPlugin hpart hfill)
  induction plugins generalizing s with
  | nil => cases h
  | cons p plugins ih =>
      rw [puts] at h
      rw [filled]
      cases hfill : fillPlugin r p s with
      | error e =>
          rw [hfill] at h
          cases h
      | ok s' =>
          rw [hfill] at h
          rcases List.mem_append.mp h with h | h
          · exact ih h
          · exact hkeep plugins s' (mem_slots_put h hblock hfill)

end Filling

section Claim

/-- A block of a plugin and slot is shown by a prompt. -/
def Shows (q : Built) (key : String × String) (block : String) : Prop :=
  (key, block) ∈ q.put ∧ Within block q.text

/-- An earlier prompt of the session contains the block, and no prompt of the session after
it shows a different one. -/
def WasShown (x : LeftOut) (q : Built) (earlier : List Built) : Prop :=
  ∀ session, q.session = some session → ∃ since shown before,
    earlier = since ++ shown :: before ∧
    shown.chatId = q.chatId ∧ shown.session = some session ∧ Within x.block shown.text ∧
    ∀ q' ∈ since, q'.chatId = q.chatId → q'.session = some session →
      ∀ block, Shows q' x.key block → block = x.block

/-- Every block that a prompt left out was shown. -/
def LeftOutShown (history : List Built) : Prop :=
  ∀ since q earlier, history = since ++ q :: earlier → ∀ x ∈ q.leftOut, WasShown x q earlier

/-- The prompt in which the block of a plugin and slot was put last, since the last first
prompt of the chat. -/
def recorded (chatId : String) (key : String × String) : List Built → Option (Built × String)
  | [] => none
  | q :: earlier =>
      if q.chatId = chatId then
        match lookupEntry key q.put with
        | some block => some (q, block)
        | none => if q.isFirst then none else recorded chatId key earlier
      else recorded chatId key earlier

/-- The prompt kept the block to the end; an empty block takes no place. -/
structure Kept (q : Built) (key : String × String) (block : String) : Prop where
  slot : block = "" ∨ Keeps q.slots key.2 block
  edited : ∀ text, q.edited = some text → Within block text

/-- The condition: of each block that a prompt leaves out, the plugin's block was put last
in a prompt of the same session that kept it; and a plugin that answers that its block is
unchanged has the one that was put then, or a part of it. -/
def RecordsHold (cfg : Config) (st : State) (b : Build ε σ χ μ) : Prop :=
  completes cfg st b = true → ∀ x ∈ leavesOut cfg st b, ∃ q block,
    recorded b.chatId x.key st.history = some (q, block) ∧ q.session = some b.session ∧
    Kept q x.key block ∧ (x.answered = true → Within x.block block)

/-- Every chat remembers the blocks that were put last. -/
def Remembered (st : State) : Prop :=
  ∀ c key, ((st.caches.get c).getD {}).lastBlocks.get key =
    (recorded c key st.history).map Prod.snd

variable {cfg : Config} {st st' : State} {b : Build ε σ χ μ}

theorem recorded_cons_other
    {c : String} {key : String × String} {q : Built} {earlier : List Built}
    (h : q.chatId ≠ c) :
    recorded c key (q :: earlier) = recorded c key earlier := by
  rw [recorded, if_neg h]

theorem recorded_cons_self
    {c : String} {key : String × String} {q : Built} {earlier : List Built}
    (h : q.chatId = c) :
    (recorded c key (q :: earlier)).map Prod.snd = (lookupEntry key q.put).or
      (if q.isFirst then none else (recorded c key earlier).map Prod.snd) := by
  rw [recorded, if_pos h]
  cases lookupEntry key q.put with
  | some block => rfl
  | none =>
      rw [Option.none_or]
      dsimp only
      split <;> rfl

/-- After the prompt in which a block was put last no prompt of the chat puts one. -/
theorem recorded_split
    {c : String} {key : String × String} {history : List Built} {q : Built} {block : String}
    (h : recorded c key history = some (q, block)) :
    ∃ since before, history = since ++ q :: before ∧ q.chatId = c ∧
      ∀ q' ∈ since, q'.chatId = c → lookupEntry key q'.put = none := by
  induction history with
  | nil => cases h
  | cons q' history ih =>
      by_cases hc : q'.chatId = c
      · rw [recorded, if_pos hc] at h
        cases hput : lookupEntry key q'.put with
        | some block' =>
            rw [hput] at h
            obtain ⟨rfl, -⟩ := Prod.mk.inj (Option.some.inj h)
            exact ⟨[], history, rfl, hc, fun _ hq => nomatch hq⟩
        | none =>
            rw [hput] at h
            dsimp only at h
            split at h
            · cases h
            · obtain ⟨since, before, rfl, hchat, hnone⟩ := ih h
              refine ⟨q' :: since, before, rfl, hchat, fun q'' hq hc' => ?_⟩
              rcases List.mem_cons.mp hq with rfl | hq
              · exact hput
              · exact hnone q'' hq hc'
      · rw [recorded_cons_other hc] at h
        obtain ⟨since, before, rfl, hchat, hnone⟩ := ih h
        refine ⟨q' :: since, before, rfl, hchat, fun q'' hq hc' => ?_⟩
        rcases List.mem_cons.mp hq with rfl | hq
        · exact absurd hc' hc
        · exact hnone q'' hq hc'

/-- What a build starts from is what was recorded, and nothing in a first prompt. -/
theorem get_cacheOf
    (h : Remembered st)
    (b : Build ε σ χ μ)
    (key : String × String) :
    (cacheOf st b).lastBlocks.get key =
      if b.isFirst then none else (recorded b.chatId key st.history).map Prod.snd := by
  rw [cacheOf]
  split_ifs
  · rfl
  · exact h b.chatId key

/-- What a step leaves. -/
theorem step_eq_some
    (hstep : step cfg st b = some st') :
    ∃ d q, st'.caches = st.caches.set b.chatId d ∧ st'.history = q :: st.history ∧
      q.chatId = b.chatId ∧ q.isFirst = b.isFirst ∧ q.leftOut = leavesOut cfg st b ∧
      q.session = (if completes cfg st b then some b.session else none) ∧
      ∀ key, d.lastBlocks.get key =
        (lookupEntry key q.put).or ((cacheOf st b).lastBlocks.get key) := by
  unfold step at hstep
  split at hstep
  · cases hstep
  · obtain rfl := Option.some.inj hstep
    obtain ⟨d', hlast, hget⟩ : ∃ d', (filled (b.request cfg (sinceOf st b)) b.plugins
        (promptOf st b)).1.lastBlocks = some d' ∧ ∀ key, d'.get key =
        (lookupEntry key (puts (b.request cfg (sinceOf st b)) b.plugins (promptOf st b))).or
          ((cacheOf st b).lastBlocks.get key) := get_filled rfl
    refine ⟨_, _, rfl, rfl, rfl, rfl, rfl, rfl, fun key => ?_⟩
    dsimp only
    rw [hlast]
    exact hget key

theorem remembered_step
    (h : Remembered st)
    (hstep : step cfg st b = some st') :
    Remembered st' := by
  obtain ⟨d, q, hcaches, hhistory, hchat, hfirst, -, -, hget⟩ := step_eq_some hstep
  intro c key
  rw [hcaches, hhistory, Dict.get_set]
  by_cases hc : b.chatId = c
  · rw [if_pos hc, recorded_cons_self (hchat.trans hc), Option.getD_some, hget,
      get_cacheOf h, hfirst, hc]
  · rw [if_neg hc, recorded_cons_other (fun heq => hc (hchat.symm.trans heq))]
    exact h c key

/-- The records of a build stand for what the session was shown. -/
theorem wasShown_of_recordsHold
    (h : Remembered st)
    (hholds : RecordsHold cfg st b)
    {q : Built}
    (hchat : q.chatId = b.chatId)
    (hsession : q.session = if completes cfg st b then some b.session else none) :
    ∀ x ∈ leavesOut cfg st b, WasShown x q st.history := by
  intro x hx session hdelivered
  have hcompletes : completes cfg st b = true := by
    by_contra hfails
    rw [hsession, if_neg hfails] at hdelivered
    cases hdelivered
  rw [hsession, if_pos hcompletes] at hdelivered
  obtain ⟨shown, block, hrecorded, hsame, hkept, hanswered⟩ := hholds hcompletes x hx
  have hwithin : Within x.block block := by
    cases hcase : x.answered with
    | true => exact hanswered hcase
    | false =>
        have hkeys : (b.plugins.map Plugin.key).Nodup := by
          refine List.Nodup.of_map Prod.fst ?_
          rw [List.map_map]
          exact b.unique
        have hget := (remembered_of_leftOut (d := (cacheOf st b).lastBlocks) rfl hkeys x hx).2 hcase
        rw [get_cacheOf h, hrecorded] at hget
        split_ifs at hget
        obtain rfl := Option.some.inj hget
        exact List.infix_rfl
  have htext : Within block shown.text := by
    rw [Built.text]
    cases hedited : shown.edited with
    | none =>
        rcases hkept.slot with rfl | hkeeps
        · exact List.nil_infix
        · exact renderSlots_of_keeps hkeeps
    | some text => exact hkept.edited text hedited
  obtain ⟨since, before, hsplit, hin, hnone⟩ := recorded_split hrecorded
  refine ⟨since, shown, before, hsplit, hin.trans hchat.symm, hsame.trans hdelivered,
    hwithin.trans htext, fun q' hq' hc _ block' hshows => ?_⟩
  have hput := (lookupEntry_eq_none_iff x.key q'.put).mp (hnone q' hq' (hc.trans hchat))
  exact absurd (List.mem_map_of_mem hshows.1) hput

theorem leftOutShown_step
    (h : Remembered st)
    (hshown : LeftOutShown st.history)
    (hholds : RecordsHold cfg st b)
    (hstep : step cfg st b = some st') :
    LeftOutShown st'.history := by
  obtain ⟨d, q, -, hhistory, hchat, -, hleft, hsession, -⟩ := step_eq_some hstep
  intro since q' earlier hsplit x hx
  rw [hhistory] at hsplit
  cases since with
  | nil =>
      obtain ⟨rfl, rfl⟩ := List.cons.inj hsplit
      rw [hleft] at hx
      exact wasShown_of_recordsHold h hholds hchat hsession x hx
  | cons q'' since =>
      obtain ⟨-, hsplit⟩ := List.cons.inj hsplit
      exact hshown since q' earlier hsplit x hx

/-- In every run whose builds find their records to hold, every block that was left out had
been shown in the session, and no different one since. -/
theorem left_out_was_shown
    (cfg : Config)
    (builds : List (Build ε σ χ μ))
    (st : State)
    (hrun : run (step cfg) {} builds = some st)
    (hcond : Guarded (step cfg) (RecordsHold cfg) {} builds) :
    LeftOutShown st.history := by
  have hreach := reach_of_run hrun hcond
  have hinv : Remembered st ∧ LeftOutShown st.history := by
    refine hreach.invariant (P := fun st => Remembered st ∧ LeftOutShown st.history) ?_ ?_
    · exact ⟨fun _ _ => rfl, fun since q earlier hsplit => by cases since <;> cases hsplit⟩
    · rintro s a s' ⟨hremembered, hshown⟩ hcond hstep
      exact ⟨remembered_step hremembered hstep,
        leftOutShown_step hremembered hshown hcond hstep⟩
  exact hinv.2

/-- A prompt without a wake budget keeps every block of a slot that is rendered and that
the lists and caps let through. -/
theorem kept_of_put
    (hstep : step cfg st b = some st')
    (hbudget : b.wakeBudget cfg = none)
    (hedited : b.edited = none) :
    ∃ q, st'.history = q :: st.history ∧ ∀ key block, (key, block) ∈ q.put →
      key.2 ∈ promptSlotOrder →
      (∀ parts, limitedParts cfg.promptBlocks b.forceSlots key.2 parts = some parts) →
      Kept q key block := by
  unfold step at hstep
  split at hstep
  · cases hstep
  · obtain rfl := Option.some.inj hstep
    refine ⟨_, rfl, fun key block hput hslot hlimits => ⟨?_, fun text h => ?_⟩⟩
    · by_cases hblock : block = ""
      · exact .inl hblock
      · rw [hbudget]
        have hin := mem_slots_filled hput hblock
        exact .inr (keeps_finishSlots b.parts b.compact hslot hin hlimits)
    · rw [hedited] at h
      cases h

/-- The plugin that renders the scheduled jobs, while they stay the same. -/
def cronPlugin : Plugin Unit Unit Unit Unit Int where
  name := "cron"
  promptSlot := "cron"
  maxPromptChars := 1024
  promptBlock := fun _ _ => .ok (some "## Scheduled jobs")

/-- A prompt of a chat with that plugin. -/
def cronBuild (session : Nat) (kind : Kind) (now : Int) : Build Unit Unit Unit Unit where
  chatId := "chat"
  session := session
  kind := kind
  plugins := [cronPlugin]
  unique := by decide
  parts := {
    identity := "me"
    formatted := "hello" }
  now := now

/-- A session with a follow-up. -/
def steadyRun : List (Build Unit Unit Unit Unit) :=
  [cronBuild 1 (.first .none) 1, cronBuild 1 (.followUp .normal) 2]

theorem left_out_was_shown_steady :
    LeftOutShown ((run (step {}) {} steadyRun).getD {}).history := by
  refine left_out_was_shown {} steadyRun _ (run_eq_getD (by decide)) ⟨?_, fun s hs => ?_⟩
  · exact fun _ x hx => nomatch hx
  · obtain rfl := Option.some.inj hs
    refine ⟨fun _ x hx => ?_, fun _ _ => trivial⟩
    obtain rfl := List.mem_singleton.mp hx
    exact ⟨_, _, rfl, rfl, ⟨.inr ⟨by decide, _, List.mem_singleton.mpr rfl, List.infix_rfl⟩,
      fun text h => nomatch h⟩, fun h => nomatch h⟩

/-- A new session that is opened under context pressure: the block is left out of its first
prompt. -/
theorem fresh_session_misses_block :
    ∃ st, run (step {}) {} [cronBuild 1 (.first .none) 1, cronBuild 2 (.followUp .fresh) 2] =
        some st ∧
      st.history.map (fun q => (q.session, q.leftOut.map LeftOut.block, q.text)) =
        [(some 2, ["## Scheduled jobs"], "me\n\n\n\nhello"),
          (some 1, [], "me\n\n## Scheduled jobs\n\nhello")] ∧
      ¬ LeftOutShown st.history := by
  refine ⟨_, rfl, by decide, fun h => ?_⟩
  obtain ⟨since, shown, before, hsplit, -, hsession, -⟩ :=
    h [] _ _ rfl _ (List.mem_singleton.mpr rfl) 2 rfl
  cases since with
  | nil =>
      obtain ⟨rfl, -⟩ := List.cons.inj hsplit
      exact absurd hsession (by decide)
  | cons q since =>
      obtain ⟨-, hrest⟩ := List.cons.inj hsplit
      exact absurd hrest (by simp)

end Claim

end Context
end DiploidAgent
