import DiploidAgent.Lib.Dict

/-!
# What a failing plugin leaves behind

The fan-out of `plugins/hooks.py` over the plugins that are enabled for a chat.  What a
plugin's methods do is given: a method returns or raises, and may change its argument in
place.  The properties of a plugin are read from its config.

The plugins' exceptions are caught one by one, except those of `prompt_block_changed`.  So
each hook gives what it would give without the calls that raise, as long as no plugin that a
follow-up asks raises there (`isolated_iff`).
-/

namespace DiploidAgent
namespace Plugins
namespace FanOut

/-! ### The plugins -/

/-- How a call ends, and its argument then. -/
inductive Outcome (ε σ ρ : Type) where
  | returned (arg : σ) (value : ρ)
  | raised (e : ε) (arg : σ)

abbrev Method (ε σ ρ : Type) := σ → Outcome ε σ ρ

/-- What a context hook gives back: nothing, a `ChatResult` or a context. -/
inductive Reply (σ χ : Type) where
  | none
  | result (r : χ)
  | context (c : σ)

/-- `UserMessageContext`. -/
structure UserMessageContext where
  chatId : String
  rawMessage : String
  formattedMessage : Option String
  replyTo : Option String := none
  replyToIsBot : Option Bool := none
  replyToMessageId : Option Int := none
deriving DecidableEq

/-- A parameter of a method, and whether it takes the keywords that are left. -/
structure Parameter where
  name : String
  varKeyword : Bool := false

/-- `StatePlugin`.  A hook that the plugin does not have is `none`, and so is a signature
that cannot be read. -/
structure Plugin (ε σ χ μ τ : Type) where
  name : String
  promptSlot : String
  firstPromptOnly : Bool := false
  maxPromptChars : Int := 0
  hook : String → Option (Method ε σ (Reply σ χ)) := fun _ => none
  beforeFormatUserMessage :
    Option (Method ε UserMessageContext (Reply UserMessageContext χ)) := none
  memoryItems : τ → Except ε (List μ) := fun _ => .ok []
  promptBlockChanged : Option τ → Except ε (Option Bool) := fun _ => .ok none
  signature : Option (List Parameter) := none
  promptBlock : Int → Option Bool → Except ε (Option String) := fun _ _ => .ok none

variable {ε σ χ μ τ : Type}

/-! ### The hooks -/

/-- `_notify_hook`; the plugins share the arguments. -/
def notifyHook (name : String) : List (Plugin ε σ χ μ τ) → σ → Except ε σ
  | [], args => .ok args
  | p :: plugins, args =>
      match p.hook name with
      | none => notifyHook name plugins args
      | some method =>
          match method args with
          | .returned args' _ => notifyHook name plugins args'
          | .raised _ args' => notifyHook name plugins args'

/-- `_apply_hook`. -/
def applyHook {γ : Type} (method : Plugin ε σ χ μ τ → Option (Method ε γ (Reply γ χ)))
    (canShortCircuit : Bool) (prepare : γ → γ) :
    List (Plugin ε σ χ μ τ) → γ → Except ε (γ ⊕ χ)
  | [], context => .ok (.inl context)
  | p :: plugins, context =>
      match method p with
      | none => applyHook method canShortCircuit prepare plugins context
      | some call =>
          match call (prepare context) with
          | .raised _ context' => applyHook method canShortCircuit prepare plugins context'
          | .returned context' .none =>
              applyHook method canShortCircuit prepare plugins context'
          | .returned context' (.result r) =>
              if canShortCircuit then .ok (.inr r)
              else applyHook method canShortCircuit prepare plugins context'
          | .returned _ (.context context') =>
              applyHook method canShortCircuit prepare plugins context'

/-- `_apply_consult_hook`. -/
def applyConsultHook (name : String) (plugins : List (Plugin ε σ χ μ τ)) (context : σ) :
    Except ε σ := do
  match ← applyHook (·.hook name) false id plugins context with
  | .inl context' => .ok context'
  | .inr _ => .ok context

/-- `_ensure_formatted`. -/
def ensureFormatted (formatter : UserMessageContext → String) (ctx : UserMessageContext) :
    UserMessageContext :=
  match ctx.formattedMessage with
  | none => { ctx with formattedMessage := some (formatter ctx) }
  | some _ => ctx

/-- `before_format_user_message`. -/
def beforeFormatUserMessage (formatter : UserMessageContext → String)
    (plugins : List (Plugin ε σ χ μ τ)) (context : UserMessageContext) :
    Except ε UserMessageContext := do
  match ← applyHook (·.beforeFormatUserMessage) false (ensureFormatted formatter) plugins
      context with
  | .inl context' => .ok (ensureFormatted formatter context')
  | .inr _ => .ok (ensureFormatted formatter context)

/-- `on_shutdown`; the second hook's context is made from the first one's. -/
def onShutdown (sleepContext : σ → σ) (plugins : List (Plugin ε σ χ μ τ)) (context : σ) :
    Except ε σ := do
  let context' ← notifyHook "on_shutdown" plugins context
  notifyHook "on_sleeping" plugins (sleepContext context')

/-- `memory_items`. -/
def memoryItems (since : τ) : List (Plugin ε σ χ μ τ) → List μ → Except ε (List μ)
  | [], items => .ok items
  | p :: plugins, items =>
      match p.memoryItems since with
      | .ok new => memoryItems since plugins (items ++ new)
      | .error _ => memoryItems since plugins items

/-! ### The prompt slots -/

/-- What `fill_prompt_slots` is asked for; `compactCap` is the cap of a compact prompt. -/
structure FillRequest (τ : Type) where
  isFirst : Bool
  rehydrated : Bool := false
  lastPromptTime : Option τ := none
  forceSlots : List String := []
  compact : Bool := false
  compactCap : Int := 200

/-- `slots` and `last_blocks`, of a plugin's name and its slot. -/
structure Prompt where
  slots : Dict String (List String) := Dict.empty
  lastBlocks : Option (Dict (String × String) String) := none

namespace Plugin

/-- `_plugin_accepts_compact`. -/
def acceptsCompact (p : Plugin ε σ χ μ τ) : Bool :=
  match p.signature with
  | none => false
  | some parameters => parameters.any fun q => q.name = "compact" || q.varKeyword

/-- `_plugin_prompt_block`. -/
def block (p : Plugin ε σ χ μ τ) (maxChars : Int) (compact : Bool) : Option String :=
  match p.promptBlock maxChars (if compact ∧ p.acceptsCompact then some true else none) with
  | .ok b => b
  | .error _ => none

/-- The key of a plugin's block. -/
def key (p : Plugin ε σ χ μ τ) : String × String := (p.name, p.promptSlot)

/-- The slot is forced. -/
def forced (p : Plugin ε σ χ μ τ) (r : FillRequest τ) : Bool := p.promptSlot ∈ r.forceSlots

/-- The plugin has no part in this prompt. -/
def passedOver (p : Plugin ε σ χ μ τ) (r : FillRequest τ) : Bool :=
  p.firstPromptOnly && !r.isFirst && !r.rehydrated && !p.forced r

/-- The plugin is asked whether its block changed. -/
def asked (p : Plugin ε σ χ μ τ) (r : FillRequest τ) (remembers : Bool) : Bool :=
  !p.passedOver r && !r.isFirst && !p.forced r && remembers

def maxChars (p : Plugin ε σ χ μ τ) (r : FillRequest τ) : Int :=
  if r.compact ∧ p.maxPromptChars ≠ 0 then min p.maxPromptChars r.compactCap
  else p.maxPromptChars

/-- The block is the one that was remembered, in a follow-up that does not force it. -/
def repeats (p : Plugin ε σ χ μ τ) (r : FillRequest τ) (s : Prompt) (b : String) : Bool :=
  !r.isFirst && !p.forced r && decide ((s.lastBlocks.bind fun d => d.get p.key) = some b)

end Plugin

/-- A plugin's block is put in its slot, and remembered. -/
def Prompt.put (s : Prompt) (p : Plugin ε σ χ μ τ) (b : String) : Prompt where
  slots :=
    if b = "" then s.slots
    else s.slots.set p.promptSlot ((s.slots.get p.promptSlot).getD [] ++ [b])
  lastBlocks := s.lastBlocks.map fun d => d.set p.key b

/-- What is done with a plugin's block. -/
def fillBlock (r : FillRequest τ) (p : Plugin ε σ χ μ τ) (s : Prompt) : Prompt :=
  match p.block (p.maxChars r) r.compact with
  | none => s
  | some b => if p.repeats r s b then s else s.put p b

/-- One plugin of `fill_prompt_slots`. -/
def fillPlugin (r : FillRequest τ) (p : Plugin ε σ χ μ τ) (s : Prompt) : Except ε Prompt :=
  if p.passedOver r then .ok s
  else if p.asked r s.lastBlocks.isSome then
    match p.promptBlockChanged r.lastPromptTime with
    | .error e => .error e
    | .ok (some false) => .ok s
    | .ok _ => .ok (fillBlock r p s)
  else .ok (fillBlock r p s)

/-- `fill_prompt_slots`. -/
def fillPromptSlots (r : FillRequest τ) : List (Plugin ε σ χ μ τ) → Prompt → Except ε Prompt
  | [], s => .ok s
  | p :: plugins, s =>
      match fillPlugin r p s with
      | .error e => .error e
      | .ok s' => fillPromptSlots r plugins s'

/-! ### Isolation -/

namespace Method

/-- A call that raises is left out. -/
def skipping {γ : Type} (m : Method ε γ (Reply γ χ)) : Method ε γ (Reply γ χ) := fun c =>
  match m c with
  | .raised _ _ => .returned c .none
  | .returned c' reply => .returned c' reply

/-- A call that raises leaves its argument. -/
def Untouched {γ ρ : Type} (m : Method ε γ ρ) : Prop :=
  ∀ c e c', m c = .raised e c' → c' = c

end Method

namespace Plugin

/-- The plugin without the calls that raise. -/
def skipping (p : Plugin ε σ χ μ τ) : Plugin ε σ χ μ τ :=
  { p with
    hook := fun name => (p.hook name).map Method.skipping
    beforeFormatUserMessage := p.beforeFormatUserMessage.map Method.skipping
    memoryItems := fun since => .ok ((p.memoryItems since).toOption.getD [])
    promptBlockChanged := fun since => .ok (p.promptBlockChanged since).toOption.join
    promptBlock := fun maxChars compact => .ok (p.promptBlock maxChars compact).toOption.join }

/-- The calls of the plugin that raise leave their arguments. -/
structure Untouched (p : Plugin ε σ χ μ τ) : Prop where
  hook : ∀ name m, p.hook name = some m → m.Untouched
  format : ∀ m, p.beforeFormatUserMessage = some m → m.Untouched

end Plugin

/-- A hook of `PluginHooks` with its arguments: one that notifies, a gate, a consultation,
and those that do more. -/
inductive Hook (σ τ : Type) where
  | notify (name : String) (args : σ)
  | shutdown (sleepContext : σ → σ) (context : σ)
  | gate (name : String) (context : σ)
  | consult (name : String) (context : σ)
  | formatUserMessage (formatter : UserMessageContext → String) (context : UserMessageContext)
  | memoryItems (since : τ)
  | fillPromptSlots (r : FillRequest τ) (s : Prompt)

/-- What a hook gives. -/
inductive Answer (σ χ μ : Type) where
  | context (c : σ)
  | gate (g : σ ⊕ χ)
  | message (c : UserMessageContext)
  | items (items : List μ)
  | prompt (s : Prompt)

/-- A hook over the enabled plugins. -/
def perform (plugins : List (Plugin ε σ χ μ τ)) : Hook σ τ → Except ε (Answer σ χ μ)
  | .notify name args => (notifyHook name plugins args).map .context
  | .shutdown sleepContext context => (onShutdown sleepContext plugins context).map .context
  | .gate name context => (applyHook (·.hook name) true id plugins context).map .gate
  | .consult name context => (applyConsultHook name plugins context).map .context
  | .formatUserMessage formatter context =>
      (beforeFormatUserMessage formatter plugins context).map .message
  | .memoryItems since => (memoryItems since plugins []).map .items
  | .fillPromptSlots r s => (fillPromptSlots r plugins s).map .prompt

/-- A hook gives what it gives without the calls that raise. -/
def Isolated (plugins : List (Plugin ε σ χ μ τ)) (hook : Hook σ τ) : Prop :=
  ∃ a, perform (plugins.map Plugin.skipping) hook = .ok a ∧ perform plugins hook = .ok a

/-- No plugin that is asked for a change raises there. -/
def Answers (plugins : List (Plugin ε σ χ μ τ)) : Hook σ τ → Prop
  | .fillPromptSlots r s => ∀ p ∈ plugins, p.asked r s.lastBlocks.isSome = true →
      (p.promptBlockChanged r.lastPromptTime).isOk = true
  | _ => True

section Caught

variable {plugins : List (Plugin ε σ χ μ τ)}

theorem notifyHook_skipping
    (h : ∀ p ∈ plugins, p.Untouched) (name : String) (args : σ) :
    ∃ args', notifyHook name (plugins.map Plugin.skipping) args = .ok args' ∧
      notifyHook name plugins args = .ok args' := by
  induction plugins generalizing args with
  | nil => exact ⟨args, rfl, rfl⟩
  | cons p plugins ih =>
      have ih := ih fun q hq => h q (List.mem_cons_of_mem p hq)
      simp only [List.map_cons, notifyHook, Plugin.skipping]
      cases hm : p.hook name with
      | none => exact ih args
      | some m =>
          simp only [Option.map_some, Method.skipping]
          cases hc : m args with
          | returned c reply => exact ih c
          | raised e c =>
              rw [(h p List.mem_cons_self).hook name m hm args e c hc]
              exact ih args

/-- The argument may be prepared before each call, as long as that is done once. -/
theorem applyHook_skipping
    {γ : Type} {method : Plugin ε σ χ μ τ → Option (Method ε γ (Reply γ χ))}
    (hskip : ∀ p, method p.skipping = (method p).map Method.skipping)
    (h : ∀ p ∈ plugins, ∀ m, method p = some m → m.Untouched)
    (canShortCircuit : Bool) (prepare : γ → γ) (context : γ) :
    ∃ g, applyHook method canShortCircuit prepare (plugins.map Plugin.skipping) context = .ok g ∧
      applyHook method canShortCircuit prepare plugins context = .ok g := by
  induction plugins generalizing context with
  | nil => exact ⟨.inl context, rfl, rfl⟩
  | cons p plugins ih =>
      have ih := ih fun q hq => h q (List.mem_cons_of_mem p hq)
      simp only [List.map_cons, applyHook, hskip]
      cases hm : method p with
      | none => exact ih context
      | some m =>
          simp only [Option.map_some, Method.skipping]
          cases hc : m (prepare context) with
          | raised e c =>
              rw [h p List.mem_cons_self m hm (prepare context) e c hc]
              exact ih (prepare context)
          | returned c reply =>
              cases reply with
              | none => exact ih c
              | context d => exact ih d
              | result r =>
                  cases canShortCircuit with
                  | true => exact ⟨.inr r, rfl, rfl⟩
                  | false => exact ih c

end Caught

theorem memoryItems_skipping
    (plugins : List (Plugin ε σ χ μ τ)) (since : τ) (items : List μ) :
    ∃ all, memoryItems since (plugins.map Plugin.skipping) items = .ok all ∧
      memoryItems since plugins items = .ok all := by
  induction plugins generalizing items with
  | nil => exact ⟨items, rfl, rfl⟩
  | cons p plugins ih =>
      simp only [List.map_cons, memoryItems, Plugin.skipping]
      cases hm : p.memoryItems since with
      | ok new => exact ih (items ++ new)
      | error e =>
          obtain ⟨all, hskip, hall⟩ := ih items
          exact ⟨all, by simpa [Except.toOption] using hskip, hall⟩

/-! ### The prompt slots -/

/-- `prompt_block` is guarded. -/
@[simp] theorem block_skipping (p : Plugin ε σ χ μ τ) (maxChars : Int) (compact : Bool) :
    p.skipping.block maxChars compact = p.block maxChars compact := by
  have haccepts : p.skipping.acceptsCompact = p.acceptsCompact := rfl
  simp only [Plugin.block, haccepts]
  simp only [Plugin.skipping]
  cases p.promptBlock maxChars (if compact ∧ p.acceptsCompact then some true else none) with
  | ok b => rfl
  | error e => rfl

@[simp] theorem fillBlock_skipping (r : FillRequest τ) (p : Plugin ε σ χ μ τ) (s : Prompt) :
    fillBlock r p.skipping s = fillBlock r p s := by
  have hmax : p.skipping.maxChars r = p.maxChars r := rfl
  simp only [fillBlock, block_skipping, hmax]
  rfl

/-- Whether blocks are remembered does not change. -/
@[simp] theorem isSome_fillBlock (r : FillRequest τ) (p : Plugin ε σ χ μ τ) (s : Prompt) :
    (fillBlock r p s).lastBlocks.isSome = s.lastBlocks.isSome := by
  unfold fillBlock
  split
  · rfl
  · split
    · rfl
    · simp [Prompt.put]

section Fill

variable {r : FillRequest τ} {p : Plugin ε σ χ μ τ} {s s' : Prompt}

theorem isSome_fillPlugin
    (h : fillPlugin r p s = .ok s') :
    s'.lastBlocks.isSome = s.lastBlocks.isSome := by
  unfold fillPlugin at h
  split at h
  · cases h
    rfl
  · split at h
    · split at h
      · cases h
      · cases h
        rfl
      · cases h
        exact isSome_fillBlock r p s
    · cases h
      exact isSome_fillBlock r p s

/-- Without the calls that raise, a plugin is always done with. -/
theorem fillPlugin_skipping_ok (r : FillRequest τ) (p : Plugin ε σ χ μ τ) (s : Prompt) :
    ∃ s', fillPlugin r p.skipping s = .ok s' := by
  simp only [fillPlugin, fillBlock_skipping]
  split
  · exact ⟨s, rfl⟩
  · split
    · split
      · next e he => cases he
      · exact ⟨s, rfl⟩
      · exact ⟨fillBlock r p s, rfl⟩
    · exact ⟨fillBlock r p s, rfl⟩

/-- A plugin that answers, or is not asked, is dealt with as without the calls that raise. -/
theorem fillPlugin_skipping
    (h : p.asked r s.lastBlocks.isSome = true →
      (p.promptBlockChanged r.lastPromptTime).isOk = true) :
    fillPlugin r p.skipping s = fillPlugin r p s := by
  have hasked : p.skipping.asked r = p.asked r := rfl
  have hpassed : p.skipping.passedOver r = p.passedOver r := rfl
  simp only [fillPlugin, fillBlock_skipping, hasked, hpassed]
  by_cases ha : p.asked r s.lastBlocks.isSome = true
  · have hok := h ha
    simp only [Plugin.skipping]
    cases hc : p.promptBlockChanged r.lastPromptTime with
    | error e =>
        rw [hc] at hok
        cases hok
    | ok changed => rfl
  · simp only [ha, Bool.false_eq_true, if_false]

/-- A plugin that is asked and raises ends the hook. -/
theorem fillPlugin_error
    (ha : p.asked r s.lastBlocks.isSome = true)
    (h : (p.promptBlockChanged r.lastPromptTime).isOk ≠ true) :
    ∃ e, fillPlugin r p s = .error e := by
  have hpassed : p.passedOver r = false := by
    simp only [Plugin.asked, Bool.and_eq_true, Bool.not_eq_true'] at ha
    exact ha.1.1.1
  cases hc : p.promptBlockChanged r.lastPromptTime with
  | ok changed =>
      rw [hc] at h
      exact absurd rfl h
  | error e => exact ⟨e, by simp [fillPlugin, hpassed, ha, hc]⟩

end Fill

theorem fillPromptSlots_skipping_ok
    (r : FillRequest τ) (plugins : List (Plugin ε σ χ μ τ)) (s : Prompt) :
    ∃ s', fillPromptSlots r (plugins.map Plugin.skipping) s = .ok s' := by
  induction plugins generalizing s with
  | nil => exact ⟨s, rfl⟩
  | cons p plugins ih =>
      obtain ⟨s', hs'⟩ := fillPlugin_skipping_ok r p s
      simp only [List.map_cons, fillPromptSlots, hs']
      exact ih s'

/-- The slots are filled as without the calls that raise exactly when every plugin that is
asked answers. -/
theorem fillPromptSlots_iff
    (r : FillRequest τ) (plugins : List (Plugin ε σ χ μ τ)) (s : Prompt) :
    fillPromptSlots r plugins s = fillPromptSlots r (plugins.map Plugin.skipping) s ↔
      ∀ p ∈ plugins, p.asked r s.lastBlocks.isSome = true →
        (p.promptBlockChanged r.lastPromptTime).isOk = true := by
  induction plugins generalizing s with
  | nil => simp [fillPromptSlots]
  | cons p plugins ih =>
      rw [List.forall_mem_cons]
      by_cases hp : p.asked r s.lastBlocks.isSome = true →
          (p.promptBlockChanged r.lastPromptTime).isOk = true
      · obtain ⟨s', hs'⟩ := fillPlugin_skipping_ok r p s
        have hown : fillPlugin r p s = .ok s' := fillPlugin_skipping hp ▸ hs'
        simp only [List.map_cons, fillPromptSlots, hs', hown]
        rw [ih s', isSome_fillPlugin hown]
        exact ⟨fun h => ⟨hp, h⟩, fun h => h.2⟩
      · refine ⟨fun h => ?_, fun h => absurd h.1 hp⟩
        rw [Classical.not_imp] at hp
        obtain ⟨e, he⟩ := fillPlugin_error hp.1 hp.2
        obtain ⟨s', hs'⟩ := fillPromptSlots_skipping_ok r (p :: plugins) s
        rw [hs'] at h
        simp only [fillPromptSlots, he] at h
        cases h

/-- **Isolation.**  A hook gives what it gives without the calls that raise, and no exception
of a plugin leaves it, exactly when no plugin that `fill_prompt_slots` asks whether its block
changed raises there. -/
theorem isolated_iff
    (plugins : List (Plugin ε σ χ μ τ)) (h : ∀ p ∈ plugins, p.Untouched) (hook : Hook σ τ) :
    Isolated plugins hook ↔ Answers plugins hook := by
  have hhook : ∀ name, ∀ p ∈ plugins, ∀ m, p.hook name = some m → m.Untouched :=
    fun name p hp => (h p hp).hook name
  cases hook with
  | notify name args =>
      obtain ⟨c, hskip, hc⟩ := notifyHook_skipping h name args
      refine iff_of_true ⟨.context c, ?_, ?_⟩ trivial
      · simp only [perform, hskip]
        rfl
      · simp only [perform, hc]
        rfl
  | shutdown sleepContext context =>
      obtain ⟨c, hskip, hc⟩ := notifyHook_skipping h "on_shutdown" context
      obtain ⟨d, hskip', hd⟩ := notifyHook_skipping h "on_sleeping" (sleepContext c)
      refine iff_of_true ⟨.context d, ?_, ?_⟩ trivial
      · simp only [perform, onShutdown, hskip]
        exact congrArg (Except.map Answer.context) hskip'
      · simp only [perform, onShutdown, hc]
        exact congrArg (Except.map Answer.context) hd
  | gate name context =>
      obtain ⟨g, hskip, hg⟩ := applyHook_skipping (fun _ => rfl) (hhook name) true id context
      refine iff_of_true ⟨.gate g, ?_, ?_⟩ trivial
      · simp only [perform, hskip]
        rfl
      · simp only [perform, hg]
        rfl
  | consult name context =>
      obtain ⟨g, hskip, hg⟩ := applyHook_skipping (fun _ => rfl) (hhook name) false id context
      refine iff_of_true ⟨.context (g.elim id fun _ => context), ?_, ?_⟩ trivial
      · cases g <;> simp [perform, applyConsultHook, hskip, Except.map, bind, Except.bind]
      · cases g <;> simp [perform, applyConsultHook, hg, Except.map, bind, Except.bind]
  | formatUserMessage formatter context =>
      obtain ⟨g, hskip, hg⟩ := applyHook_skipping (fun _ => rfl)
        (fun p hp => (h p hp).format) false (ensureFormatted formatter) context
      refine iff_of_true ⟨.message (ensureFormatted formatter (g.elim id fun _ => context)),
        ?_, ?_⟩ trivial
      · cases g <;> simp [perform, beforeFormatUserMessage, hskip, Except.map, bind, Except.bind]
      · cases g <;> simp [perform, beforeFormatUserMessage, hg, Except.map, bind, Except.bind]
  | memoryItems since =>
      obtain ⟨l, hskip, hl⟩ := memoryItems_skipping plugins since []
      refine iff_of_true ⟨.items l, ?_, ?_⟩ trivial
      · simp only [perform, hskip]
        rfl
      · simp only [perform, hl]
        rfl
  | fillPromptSlots r s =>
      obtain ⟨s', hs'⟩ := fillPromptSlots_skipping_ok r plugins s
      rw [Answers, ← fillPromptSlots_iff]
      simp only [Isolated, perform, hs', Except.map]
      cases fillPromptSlots r plugins s with
      | error e => simp
      | ok t => simp [eq_comm]

/-! ### One that raises -/

/-- A plugin of the body slot whose blocks raise, with or without what comes before them. -/
def brokenPlugin (raises : Bool) : Plugin String Nat Unit String Nat where
  name := "broken"
  promptSlot := "body"
  hook := fun name =>
    if name = "before_turn" then some fun c => .raised "KeyError" c else none
  promptBlockChanged := fun _ => if raises then .error "OSError" else .ok none
  promptBlock := fun _ _ => .error "ValueError"

def moodPlugin : Plugin String Nat Unit String Nat where
  name := "mood"
  promptSlot := "self_state"
  promptBlock := fun _ _ => .ok (some "calm")

theorem untouched_broken (raises : Bool) :
    ∀ p ∈ [brokenPlugin raises, moodPlugin], p.Untouched := by
  intro p hp
  rcases List.mem_pair.mp hp with rfl | rfl
  · refine ⟨fun name m hm c e c' h => ?_, fun m hm => ?_⟩
    · simp only [brokenPlugin, Option.ite_none_right_eq_some, Option.some.injEq] at hm
      rw [← hm.2] at h
      cases h
      rfl
    · cases hm
  · refine ⟨fun name m hm => ?_, fun m hm => ?_⟩
    · cases hm
    · cases hm

/-- A follow-up that remembers no block yet. -/
def followUp : Hook Nat Nat :=
  .fillPromptSlots { isFirst := false } { lastBlocks := some Dict.empty }

theorem isolated_iff_broken :
    Isolated [brokenPlugin false, moodPlugin] followUp :=
  (isolated_iff [brokenPlugin false, moodPlugin] (untouched_broken false) followUp).mpr (by
    intro p hp _
    rcases List.mem_pair.mp hp with rfl | rfl
    · rfl
    · rfl)

/-- The exception leaves `fill_prompt_slots`, and the mood is not shown. -/
theorem change_raised :
    (∀ p ∈ [brokenPlugin true, moodPlugin], p.Untouched) ∧
      perform [brokenPlugin true, moodPlugin] followUp = .error "OSError" ∧
      ¬ Isolated [brokenPlugin true, moodPlugin] followUp := by
  have herror : perform [brokenPlugin true, moodPlugin] followUp = .error "OSError" := by
    rfl
  refine ⟨untouched_broken true, herror, ?_⟩
  rintro ⟨a, _, ha⟩
  rw [herror] at ha
  cases ha

end FanOut
end Plugins
end DiploidAgent
