import DiploidAgent.Plugins.Rollback

/-!
# Which plugins a hook visits

A hook visits the plugins that were enabled for the chat when its list was resolved, until
the generation changes, and asks for their instances by name.  Adding, removing and toggling
a plugin and a change of the chat's record leave the generation, and a rollback leaves the
instances of the plugins it keeps.

As long as those change nothing for a chat whose list is cached, and no instance is left with
a config that its plugin no longer has, a hook visits exactly the plugins that are enabled
for the chat, in their order, each with its own config (`hooks_faithful`).
-/

namespace DiploidAgent
namespace Plugins

open Objects Runs Snapshots

universe u

variable {ρ : Type u}

/-! ### What is expected -/

/-- A plugin list: distinct names, by prompt order. -/
structure Ordered (l : List (PluginConfig ρ)) : Prop where
  names : (l.map PluginConfig.name).Nodup
  order : l.Pairwise fun c c' => c.promptOrder ≤ c'.promptOrder

/-- The plugins of the list that are enabled for a chat. -/
def State.enabledFor (s : State ρ) (chat : String) : List Nat :=
  s.plugins.filter fun r => s.isEnabledFor chat r

/-- A hook for the chat visits the enabled plugins, each with its config, and the list is one
of distinct names, by prompt order. -/
structure Faithful (s : State ρ) (chat : String) : Prop where
  visits : s.heap.read (s.pluginsFor chat).2 = s.heap.read (s.enabledFor chat)
  ordered : Ordered s.list

/-! ### The condition -/

/-- The instances of a plugin that are cached have this config. -/
def Fits (s : State ρ) (name : String) (c : PluginConfig ρ) : Prop :=
  ∀ chat i, s.instances.get (chat, name) = some i → s.config i = c

/-- The instances of a plugin that are cached hold its object. -/
def Attached (s : State ρ) (r : Nat) : Prop :=
  ∀ chat i, s.instances.get (chat, (s.config r).name) = some i → i = r

/-- A property of the chats whose list was resolved in this generation. -/
def ForCached (s : State ρ) (p : String → Prop) : Prop :=
  ∀ chat, (s.cached chat).isSome = true → p chat

/-- The names of the configs that a list can take are distinct. -/
def Distinct (l : List (PluginConfig ρ)) : Prop :=
  ((l.filter fun c => c.name ≠ "").map PluginConfig.name).Nodup

instance (l : List (PluginConfig ρ)) : Decidable (Distinct l) :=
  inferInstanceAs (Decidable (List.Nodup _))

/-- The list that a rollback restores. -/
def State.target (s : State ρ) (steps : Int) : List Nat :=
  s.history.getD (s.history.length - (steps.toNat + 1)) []

/-- What `add`, `remove`, `toggle` and a change of the record do changes nothing for a chat
whose list is cached; an instance that a new plugin, a rollback or a flag finds cached has
the config that its plugin then has; and lists that are given have distinct names. -/
def Regular (s : State ρ) : Op ρ → Prop
  | .reconfigure changes refs => Distinct ((s.assignAll changes).heap.read refs)
  | .add r => (∀ p ∈ s.plugins, (s.config p).name ≠ (s.config r).name) →
      ForCached s (fun chat => s.isEnabledFor chat r = false) ∧
        Fits s (s.config r).name (s.config r)
  | .remove name => ForCached s fun chat =>
      ∀ p ∈ s.plugins, (s.config p).name = name → s.isEnabledFor chat p = false
  | .toggle name enabled => ∀ p ∈ s.plugins, (s.config p).name = name →
      (s.config p).enabled ≠ enabled →
        ForCached s (fun chat =>
          ((s.records.get chat).bind fun o => o.get name).isSome = true) ∧
        (enabled = true → Attached s p)
  | .rollback steps => steps.toNat + 1 ≤ s.history.length → ∀ p ∈ s.target steps,
      (s.config p).name ∉ s.dropped (s.target steps) → Fits s (s.config p).name (s.config p)
  | .disable names => ∀ p ∈ s.plugins, (s.config p).name ∈ names →
      (s.config p).enabled = true → Attached s p
  | .session chat overrides => (s.cached chat).isSome = true →
      ∀ p ∈ s.plugins, State.enabledUnder overrides (s.config p) = s.isEnabledFor chat p
  | _ => True

/-! ### What a step keeps -/

/-- The list and the snapshots are plugin lists, a list that is cached for this generation
is the one that is enabled now, and the cached instances of the plugins have their configs. -/
structure Tidy (s : State ρ) : Prop where
  list : Ordered s.list
  history : ∀ l ∈ s.snapshots, Ordered l
  stale : ∀ chat e, s.enabledCache.get chat = some e → e.1 ≤ s.generation
  cache : ∀ chat refs, s.cached chat = some refs → refs = s.enabledFor chat
  current : ∀ p ∈ s.plugins, Fits s (s.config p).name (s.config p)

section Steps

variable {s s' : State ρ}

/-- The objects that others can reach, the list and what is cached stay. -/
theorem tidy_frame
    (hsound : Sound s) (h : Tidy s) (hget : ∀ r ∈ s.shared, s'.config r = s.config r)
    (hplugins : s'.plugins = s.plugins) (hrecords : s'.records = s.records)
    (hgeneration : s'.generation = s.generation) (hcache : s'.enabledCache = s.enabledCache)
    (hinstances : ∀ key i, s'.instances.get key = some i → s.instances.get key = some i)
    (hhistory : ∀ l ∈ s'.snapshots, Ordered l) :
    Tidy s' := by
  have hplugin : ∀ r ∈ s.plugins, s'.config r = s.config r :=
    fun r hr => hget r (hsound.plugins r hr)
  have hlist : s'.list = s.list := by
    rw [State.list, hplugins]
    exact List.map_congr_left hplugin
  refine ⟨hlist ▸ h.list, hhistory, fun chat e he => ?_, fun chat refs hrefs => ?_, ?_⟩
  · rw [hgeneration]
    exact h.stale chat e (hcache ▸ he)
  · have hcached : s.cached chat = some refs := by
      rw [cached_eq_some] at hrefs ⊢
      rwa [hcache, hgeneration] at hrefs
    rw [h.cache chat refs hcached, State.enabledFor, State.enabledFor, hplugins]
    refine List.filter_congr fun r hr => ?_
    rw [State.isEnabledFor, State.isEnabledFor, hrecords, hplugin r hr]
  · intro p hp chat i hi
    rw [hplugins] at hp
    rw [hplugin p hp] at hi ⊢
    have hold := hinstances _ i hi
    rw [hget i (hsound.instances _ i hold)]
    exact h.current p hp chat i hold

theorem tidy_snapshotConfig
    (hsound : Sound s) (h : Tidy s) :
    Tidy s.snapshotConfig := by
  refine tidy_frame hsound h (fun r hr => Heap.get_alloc_of_lt (hsound.shared r hr)) rfl rfl rfl
    rfl (fun _ _ hi => hi) fun l hl => ?_
  rw [(snapshots_snapshotConfig hsound).2] at hl
  rcases mem_push hl with hl | rfl
  · exact h.history l hl
  · exact h.list

/-- A new generation: nothing is cached for it. -/
theorem tidy_bump
    (hlist : Ordered s'.list) (hhistory : ∀ l ∈ s'.snapshots, Ordered l)
    (hstale : ∀ chat e, s'.enabledCache.get chat = some e → e.1 < s'.generation)
    (hcurrent : ∀ p ∈ s'.plugins, Fits s' (s'.config p).name (s'.config p)) :
    Tidy s' := by
  refine ⟨hlist, hhistory, fun chat e he => Nat.le_of_lt (hstale chat e he), ?_, hcurrent⟩
  intro chat refs hrefs
  exact absurd (hstale chat _ (cached_eq_some.mp hrefs)) (Nat.lt_irrefl _)

theorem tidy_popInstances
    (hsound : Sound s) (h : Tidy s) (names : List String) :
    Tidy (s.popInstances names) := by
  refine tidy_frame hsound h (fun _ _ => rfl) rfl rfl rfl rfl (fun key i hi => ?_) h.history
  rw [State.popInstances, Dict.get_filter, Option.filter_eq_some_iff] at hi
  exact hi.1

/-- The instances of the plugins that are dropped are gone. -/
theorem get_popInstances
    {names : List String} {chat name : String} {i : Nat}
    (h : (s.popInstances names).instances.get (chat, name) = some i) :
    s.instances.get (chat, name) = some i ∧ name ∉ names := by
  rw [State.popInstances, Dict.get_filter, Option.filter_eq_some_iff] at h
  exact ⟨h.1, by simpa using h.2⟩

theorem sorted_plugins
    (h : Tidy s) :
    s.plugins.Pairwise (Before s.heap) := by
  have horder := h.list.order
  rw [State.list, Heap.read, List.pairwise_map] at horder
  exact horder

/-- The names of the plugins tell them apart. -/
theorem eq_of_name
    (h : Tidy s) {p q : Nat} (hp : p ∈ s.plugins) (hq : q ∈ s.plugins)
    (hname : (s.config p).name = (s.config q).name) :
    p = q := by
  have hnodup : (s.plugins.map fun r => (s.config r).name).Nodup := by
    have hnames := h.list.names
    rw [State.list, Heap.read, List.map_map] at hnames
    exact hnames
  exact List.inj_on_of_nodup_map hnodup hp hq hname

/-- Sorting by prompt order. -/
theorem ordered_insertionSort
    (heap : Heap (PluginConfig ρ)) {refs : List Nat}
    (h : ((heap.read refs).map PluginConfig.name).Nodup) :
    Ordered (heap.read (refs.insertionSort (Before heap))) where
  names := by
    refine (List.Perm.nodup_iff ?_).mpr h
    exact ((List.perm_insertionSort (Before heap) refs).map heap.get).map PluginConfig.name
  order := List.pairwise_map.mpr (List.pairwise_insertionSort (Before heap) refs)

/-- A plugin that is not enabled changes nothing for those that are, wherever it is put. -/
theorem filter_insertionSort_concat
    {heap : Heap (PluginConfig ρ)} {refs : List Nat} {r : Nat} {p : Nat → Bool}
    (hsorted : refs.Pairwise (Before heap)) (hr : p r = false) :
    ((refs ++ [r]).insertionSort (Before heap)).filter p = refs.filter p := by
  have hsub : (refs.filter p).Sublist (refs ++ [r]) :=
    List.filter_sublist.trans (List.sublist_append_left refs [r])
  have hstable : (refs.filter p).Sublist ((refs ++ [r]).insertionSort (Before heap)) :=
    List.sublist_insertionSort (hsorted.filter p) hsub
  have hself : (refs.filter p).filter p = refs.filter p := by simp
  have hfiltered := hstable.filter p
  rw [hself] at hfiltered
  have hperm := (List.perm_insertionSort (Before heap) (refs ++ [r])).filter p
  have hsame : (refs ++ [r]).filter p = refs.filter p := by simp [hr]
  rw [hsame] at hperm
  exact (hfiltered.eq_of_length hperm.length_eq.symm).symm

theorem tidy_addPlugin
    {r : Nat} (hsound : Sound s) (h : Tidy s) (hr : r ∈ s.shared) (hregular : Regular s (.add r)) :
    Tidy (s.addPlugin r).1 := by
  simp only [State.addPlugin]
  split_ifs with hname hdup
  · exact h
  · exact h
  · have hnew : ∀ p ∈ s.plugins, (s.config p).name ≠ (s.config r).name := by
      intro p hp heq
      exact hdup (List.any_eq_true.mpr ⟨p, hp, decide_eq_true heq⟩)
    obtain ⟨hquiet, hfits⟩ := hregular hnew
    refine tidy_snapshotConfig (sound_added hsound hr) ⟨?_, h.history, h.stale, ?_, ?_⟩
    · refine ordered_insertionSort s.heap ?_
      rw [Heap.read, List.map_append, List.map_append, List.nodup_append]
      refine ⟨h.list.names, by simp, fun name hname' name' hname'' => ?_⟩
      obtain ⟨c, hc, rfl⟩ := List.mem_map.mp hname'
      obtain ⟨p, hp, rfl⟩ := List.mem_map.mp hc
      rw [List.map_singleton, List.map_singleton, List.mem_singleton] at hname''
      rw [hname'']
      exact hnew p hp
    · intro chat refs hrefs
      have hcached : s.cached chat = some refs := hrefs
      rw [h.cache chat refs hcached]
      have hoff : s.isEnabledFor chat r = false := hquiet chat (by rw [hcached]; rfl)
      exact (filter_insertionSort_concat (sorted_plugins h) hoff).symm
    · intro p hp
      have hmem : p ∈ s.plugins ++ [r] := (List.mem_insertionSort _).mp hp
      rcases List.mem_append.mp hmem with hmem | hmem
      · exact h.current p hmem
      · rw [List.mem_singleton.mp hmem]
        exact hfits

theorem tidy_removePlugin
    {name : String} (hsound : Sound s) (h : Tidy s) (hregular : Regular s (.remove name)) :
    Tidy (s.removePlugin name).1 := by
  unfold State.removePlugin
  cases s.find name with
  | none => exact h
  | some r =>
      have hremoved := sound_removed hsound name
      refine tidy_snapshotConfig (sound_popInstances hremoved [name])
        (tidy_popInstances hremoved ⟨⟨?_, ?_⟩, h.history, h.stale, ?_, ?_⟩ [name])
      · exact (((List.filter_sublist).map s.heap.get).map PluginConfig.name).nodup h.list.names
      · exact h.list.order.sublist (List.filter_sublist.map s.heap.get)
      · intro chat refs hrefs
        have hcached : s.cached chat = some refs := hrefs
        have hquiet := hregular chat (by rw [hcached]; rfl)
        rw [h.cache chat refs hcached]
        refine Eq.trans ?_ List.filter_filter.symm
        refine List.filter_congr fun p hp => ?_
        by_cases hname : (s.config p).name = name
        · change s.isEnabledFor chat p = (s.isEnabledFor chat p && _)
          rw [hquiet p hp hname, Bool.false_and]
        · change s.isEnabledFor chat p = (s.isEnabledFor chat p && decide _)
          rw [decide_eq_true hname, Bool.and_true]
      · exact fun p hp => h.current p (List.mem_of_mem_filter hp)

/-- What a flag does to the objects. -/
theorem config_setFlag
    (s : State ρ) (r q : Nat) (enabled : Bool) :
    (s.setFlag r enabled).config q =
      if q = r then { s.config r with enabled := enabled } else s.config q :=
  rfl

/-- A list whose objects keep their names and their order is one as before. -/
theorem ordered_congr
    (h : Ordered s.list) (hplugins : s'.plugins = s.plugins)
    (hname : ∀ q, (s'.config q).name = (s.config q).name)
    (horder : ∀ q, (s'.config q).promptOrder = (s.config q).promptOrder) :
    Ordered s'.list := by
  have hnames := h.names
  have hpairwise := h.order
  rw [State.list, Heap.read, List.map_map] at hnames
  rw [State.list, Heap.read, List.pairwise_map] at hpairwise
  refine ⟨?_, ?_⟩
  · rw [State.list, Heap.read, List.map_map, hplugins]
    refine (congrArg List.Nodup (List.map_congr_left fun q _ => ?_)).mpr hnames
    exact hname q
  · rw [State.list, Heap.read, List.pairwise_map, hplugins]
    refine hpairwise.imp fun {a b} hab => ?_
    exact (horder a).trans_le (hab.trans_eq (horder b).symm)

theorem name_setFlag
    (s : State ρ) (r q : Nat) (enabled : Bool) :
    ((s.setFlag r enabled).config q).name = (s.config q).name := by
  rw [config_setFlag]
  split_ifs with hq
  · rw [hq]
  · rfl

theorem promptOrder_setFlag
    (s : State ρ) (r q : Nat) (enabled : Bool) :
    ((s.setFlag r enabled).config q).promptOrder = (s.config q).promptOrder := by
  rw [config_setFlag]
  split_ifs with hq
  · rw [hq]
  · rfl

/-- Setting a flag that is set changes nothing. -/
theorem tidy_setFlag_same
    {r : Nat} {enabled : Bool} (hsound : Sound s) (h : Tidy s) (hr : r ∈ s.plugins)
    (hsame : (s.config r).enabled = enabled) :
    Tidy (s.setFlag r enabled) := by
  have hget : ∀ q ∈ s.shared, (s.setFlag r enabled).config q = s.config q := by
    intro q _
    rw [config_setFlag]
    split_ifs with hq
    · rw [hq, ← hsame]
    · rfl
  refine tidy_frame hsound h hget rfl rfl rfl rfl (fun _ _ hi => hi) fun l hl => ?_
  rw [State.setFlag, snapshots_assign hsound (hsound.plugins r hr)] at hl
  exact h.history l hl

/-- A flag changes: the chats whose lists are cached override it, and the instances that are
left hold the object that changes. -/
theorem tidy_setFlag
    {r : Nat} {enabled : Bool} (hsound : Sound s) (h : Tidy s) (hr : r ∈ s.plugins)
    (hmasked : ForCached s fun chat =>
      ((s.records.get chat).bind fun o => o.get (s.config r).name).isSome = true)
    (hattached : enabled = true → Attached s r) :
    Tidy (if enabled then s.setFlag r enabled
      else (s.setFlag r enabled).popInstances [(s.config r).name]) := by
  have hsnapshots : (s.setFlag r enabled).snapshots = s.snapshots :=
    snapshots_assign hsound (hsound.plugins r hr) _
  have hlist : Ordered (s.setFlag r enabled).list :=
    ordered_congr h.list rfl (fun q => name_setFlag s r q enabled)
      fun q => promptOrder_setFlag s r q enabled
  have hcache : ∀ chat refs, s.cached chat = some refs →
      refs = (s.setFlag r enabled).enabledFor chat := by
    intro chat refs hrefs
    rw [h.cache chat refs hrefs]
    refine List.filter_congr fun q hq => ?_
    rw [State.isEnabledFor, State.isEnabledFor, config_setFlag]
    split_ifs with hqr
    · obtain ⟨b, hb⟩ := Option.isSome_iff_exists.mp (hmasked chat (by rw [hrefs]; rfl))
      rw [hqr, State.enabledUnder, hb, State.enabledUnder]
      exact (congrArg (fun o => Option.getD o enabled) hb).symm
    · rfl
  have hcurrent : ∀ p ∈ s.plugins, ∀ chat i,
      s.instances.get (chat, (s.config p).name) = some i → (p = r → enabled = true) →
        (s.setFlag r enabled).config i = (s.setFlag r enabled).config p := by
    intro p hp chat i hi hkept
    have hold := h.current p hp chat i hi
    rw [config_setFlag, config_setFlag]
    by_cases hpr : p = r
    · subst hpr
      rw [if_pos rfl, if_pos (hattached (hkept rfl) chat i hi)]
    · rw [if_neg hpr, if_neg, hold]
      rintro rfl
      exact hpr (eq_of_name h hp hr (congrArg PluginConfig.name hold).symm)
  cases enabled with
  | true =>
      rw [if_pos rfl]
      refine ⟨hlist, fun l hl => h.history l (hsnapshots ▸ hl), h.stale, hcache, ?_⟩
      intro p hp chat i hi
      rw [name_setFlag] at hi
      exact hcurrent p hp chat i hi fun _ => rfl
  | false =>
      rw [if_neg (by decide)]
      refine ⟨hlist, fun l hl => h.history l (hsnapshots ▸ hl), h.stale, hcache, ?_⟩
      intro p hp chat i hi
      obtain ⟨hi, hother⟩ := get_popInstances hi
      have hname : (((s.setFlag r false).popInstances [(s.config r).name]).config p).name =
          (s.config p).name :=
        name_setFlag s r p false
      rw [hname] at hi
      refine hcurrent p hp chat i hi fun hpr => ?_
      subst hpr
      exact absurd (List.mem_singleton.mpr hname) hother

theorem tidy_togglePlugin
    {name : String} {enabled : Bool} (hsound : Sound s) (h : Tidy s)
    (hregular : Regular s (.toggle name enabled)) :
    Tidy (s.togglePlugin name enabled).1 := by
  unfold State.togglePlugin
  cases hfind : s.find name with
  | none => exact h
  | some r =>
      obtain ⟨hr, hname⟩ := find_mem hfind
      have hflag : Sound (s.setFlag r enabled) := sound_assign hsound r _
      have hsound' : Sound (if enabled then s.setFlag r enabled
          else (s.setFlag r enabled).popInstances [name]) := by
        split_ifs
        · exact hflag
        · exact sound_popInstances hflag [name]
      refine tidy_snapshotConfig hsound' ?_
      by_cases hsame : (s.config r).enabled = enabled
      · have htidy := tidy_setFlag_same hsound h hr hsame
        split_ifs
        · exact htidy
        · exact tidy_popInstances hflag htidy [name]
      · obtain ⟨hmasked, hattached⟩ := hregular r hr hname hsame
        rw [← hname] at hmasked ⊢
        exact tidy_setFlag hsound h hr hmasked hattached

/-! ### New generations -/

/-- What setting several flags does. -/
theorem config_flags
    (s : State ρ) (refs : List Nat) (q : Nat) :
    (refs.foldl (fun s r => s.setFlag r false) s).config q =
      if q ∈ refs then { s.config q with enabled := false } else s.config q := by
  induction refs generalizing s with
  | nil => simp
  | cons r refs ih =>
      rw [List.foldl_cons, ih, config_setFlag]
      by_cases hqr : q = r
      · subst hqr
        simp
      · by_cases hq : q ∈ refs <;> simp [hqr, hq]

theorem flags_frame
    (s : State ρ) (refs : List Nat) :
    ∃ heap, refs.foldl (fun s r => s.setFlag r false) s = { s with heap := heap } := by
  induction refs generalizing s with
  | nil => exact ⟨_, rfl⟩
  | cons r refs ih => exact ih (s.setFlag r false)

theorem tidy_disablePlugins
    {names : List String} (hsound : Sound s) (h : Tidy s) (hregular : Regular s (.disable names)) :
    Tidy (s.disablePlugins names) := by
  unfold State.disablePlugins
  have hmem : ∀ q ∈ s.plugins, (q ∈ s.plugins.filter fun r => names.contains (s.config r).name) ↔
      (s.config q).name ∈ names := by
    intro q hq
    rw [List.mem_filter, List.contains_iff_mem]
    exact and_iff_right hq
  generalize hrefs : s.plugins.filter (fun r => names.contains (s.config r).name) = refs at *
  have hshared : ∀ r ∈ refs, r ∈ s.shared := by
    rw [← hrefs]
    exact fun r hr => hsound.plugins r (List.mem_of_mem_filter hr)
  obtain ⟨hflags, hsnapshots⟩ := disabled_flags hsound refs hshared
  have hconfig := config_flags s refs
  obtain ⟨heap, hframe⟩ := flags_frame s refs
  rw [hframe] at hflags hsnapshots hconfig ⊢
  have hname : ∀ q, (State.config { s with heap := heap } q).name = (s.config q).name := by
    intro q
    rw [hconfig]
    split_ifs <;> rfl
  refine tidy_snapshotConfig (sound_same hflags rfl rfl rfl hflags.plugins hflags.cache
    hflags.instances) (tidy_bump ?_ ?_ ?_ ?_)
  · refine ordered_congr h.list rfl hname fun q => ?_
    refine (congrArg PluginConfig.promptOrder (hconfig q)).trans ?_
    split_ifs <;> rfl
  · exact fun l hl => h.history l (hsnapshots ▸ hl)
  · exact fun chat e he => Nat.lt_succ_of_le (h.stale chat e he)
  · intro p hp chat i hi
    have hi' : s.instances.get (chat, (s.config p).name) = some i := hname p ▸ hi
    have hold := h.current p hp chat i hi'
    refine (hconfig i).trans (Eq.trans ?_ (hconfig p).symm)
    -- An instance on another object has the config that its plugin has already.
    by_cases hip : i = p
    · rw [hip]
    · have hi'' : i ∉ refs := by
        intro hin
        have hplugin : i ∈ s.plugins := by
          rw [← hrefs] at hin
          exact List.mem_of_mem_filter hin
        exact hip (eq_of_name h hplugin hp (congrArg PluginConfig.name hold))
      rw [if_neg hi'', hold]
      split_ifs with hpin
      · cases henabled : (s.config p).enabled with
        | true => exact absurd (hregular p hp ((hmem p hp).mp hpin) henabled chat i hi') hip
        | false =>
            rw [← henabled]
      · rfl

/-- A list is restored, and the instances that are left fit it. -/
theorem tidy_restore
    {target : List Nat} (hsound : Sound s) (h : Tidy s) (htarget : target ∈ s.history)
    (hfits : ∀ p ∈ target, (s.config p).name ∉ s.dropped target →
      Fits s (s.config p).name (s.config p)) (kept : Nat) :
    Tidy (s.restore target kept) := by
  refine tidy_bump ?_ ?_ ?_ ?_
  · rw [list_restore]
    exact h.history _ (List.mem_map_of_mem htarget)
  · intro l hl
    rw [snapshots_restore hsound] at hl
    exact h.history l (List.mem_of_mem_take hl)
  · exact fun chat e he => Nat.lt_succ_of_le (h.stale chat e he)
  · intro p hp chat i hi
    obtain ⟨hi, hleft⟩ := get_popInstances hi
    have hconfig : (s.restore target kept).config p ∈ s.heap.read target := by
      rw [← list_restore s target kept]
      exact List.mem_map_of_mem hp
    obtain ⟨q, hq, heq⟩ := List.mem_map.mp hconfig
    have heq' : s.config q = (s.restore target kept).config p := heq
    rw [← heq'] at hi hleft ⊢
    have hold : s.config i = s.config q := hfits q hq hleft chat i hi
    refine Eq.trans ?_ hold
    exact Heap.get_alloc_of_lt (hsound.shared i (hsound.instances _ i hi))

theorem tidy_rollback
    {steps : Int} (hsound : Sound s) (h : Tidy s) (hregular : Regular s (.rollback steps)) :
    Tidy (s.rollback steps).1 := by
  simp only [State.rollback]
  split_ifs with hsteps hshort
  · exact h
  · exact h
  · have hindex : s.history.length - (steps.toNat + 1) < s.history.length := by omega
    have htarget : s.target steps ∈ s.history := by
      rw [State.target, List.getD_eq_getElem?_getD, List.getElem?_eq_getElem hindex]
      exact List.getElem_mem hindex
    have hfits := hregular (Nat.le_of_not_lt hshort)
    exact tidy_snapshotConfig (sound_restore hsound (s.target steps) _)
      (tidy_restore hsound h htarget hfits _)

theorem tidy_reconfigure
    {changes : List (Nat × PluginConfig ρ)} {refs : List Nat} (hsound : Sound s) (h : Tidy s)
    (hreaches : reaches s (.reconfigure changes refs) = true)
    (hregular : Regular s (.reconfigure changes refs)) :
    Tidy ((s.assignAll changes).reconfigure refs) := by
  simp only [reaches, Bool.and_eq_true, List.all_eq_true, List.contains_iff_mem] at hreaches
  have hsnapshots := snapshots_assignAll hsound hreaches.1
  have hassigned := sound_assignAll hsound changes
  obtain ⟨heap, hframe⟩ := assignAll_frame s changes
  rw [Regular, hframe] at hregular
  rw [hframe] at hsnapshots hassigned ⊢
  refine tidy_snapshotConfig (sound_reconfigured hassigned hreaches.2) (tidy_bump ?_ ?_ ?_ ?_)
  · refine ordered_insertionSort heap ?_
    have hfilter : (heap.read refs).filter (fun c => c.name ≠ "") =
        heap.read (refs.filter fun r => (heap.get r).name ≠ "") := List.filter_map
    rw [Distinct, hfilter] at hregular
    exact hregular
  · exact fun l hl => h.history l (hsnapshots ▸ hl)
  · exact fun chat e he => Nat.lt_succ_of_le (h.stale chat e he)
  · intro p _ chat i hi
    cases hi

theorem tidy_setPluginEnabled
    (h : Tidy s) (chat name : String) (enabled : Bool) :
    Tidy (s.setPluginEnabled chat name enabled) := by
  unfold State.setPluginEnabled
  cases s.records.get chat with
  | none => exact h
  | some overrides =>
      refine tidy_bump h.list h.history
        (fun chat e he => Nat.lt_succ_of_le (h.stale chat e he)) ?_
      intro p hp chat' i hi
      rw [Dict.get_erase] at hi
      split_ifs at hi
      exact h.current p hp chat' i hi

/-! ### Hooks -/

theorem get_session
    (s : State ρ) (chat chat' : String) (overrides : Option (Dict String Bool)) :
    (s.session chat overrides).records.get chat' =
      if chat = chat' then overrides else s.records.get chat' := by
  cases overrides with
  | none => exact Dict.get_erase _ _ _
  | some o => exact Dict.get_set _ _ _ _

theorem session_frame
    (s : State ρ) (chat : String) (overrides : Option (Dict String Bool)) :
    ∃ records, s.session chat overrides = { s with records := records } := by
  cases overrides with
  | none => exact ⟨_, rfl⟩
  | some o => exact ⟨_, rfl⟩

theorem tidy_session
    {chat : String} {overrides : Option (Dict String Bool)} (h : Tidy s)
    (hregular : Regular s (.session chat overrides)) :
    Tidy (s.session chat overrides) := by
  have hget := get_session s chat
  obtain ⟨records, hframe⟩ := session_frame s chat overrides
  have hrecords := fun chat' => hget chat' overrides
  rw [hframe] at hrecords ⊢
  refine ⟨h.list, h.history, h.stale, fun chat' refs hrefs => ?_, h.current⟩
  have hcached : s.cached chat' = some refs := hrefs
  rw [h.cache chat' refs hcached]
  refine List.filter_congr fun p hp => ?_
  change s.isEnabledFor chat' p = State.enabledUnder (records.get chat') (s.config p)
  rw [hrecords chat']
  split_ifs with hchat
  · subst hchat
    exact (hregular (by rw [hcached]; rfl) p hp).symm
  · rfl

theorem tidy_getOrCreate
    {r : Nat} (h : Tidy s) (hr : r ∈ s.plugins) (chat : String) :
    Tidy (s.getOrCreate chat r).1 ∧ s.config (s.getOrCreate chat r).2 = s.config r := by
  simp only [State.getOrCreate]
  split
  · rename_i i hi
    exact ⟨h, h.current r hr chat i hi⟩
  · refine ⟨⟨h.list, h.history, h.stale, h.cache, fun p hp chat' i hi => ?_⟩, rfl⟩
    rw [Dict.get_set] at hi
    split_ifs at hi with hkey
    · obtain rfl := Option.some.inj hi
      rw [eq_of_name h hr hp (Prod.mk.inj hkey).2]
    · exact h.current p hp chat' i hi

/-- The instances that are visited have the configs of the plugins they are asked for. -/
theorem tidy_visit
    {refs : List Nat} (h : Tidy s) (hrefs : ∀ r ∈ refs, r ∈ s.plugins) (chat : String) :
    Tidy (s.visit chat refs).1 ∧ s.heap.read (s.visit chat refs).2 = s.heap.read refs := by
  induction refs generalizing s with
  | nil => exact ⟨h, rfl⟩
  | cons r refs ih =>
      obtain ⟨hr, hrest⟩ := List.forall_mem_cons.mp hrefs
      obtain ⟨hfirst, hconfig⟩ := tidy_getOrCreate h hr chat
      obtain ⟨instances, hframe⟩ := getOrCreate_frame s chat r
      have hothers := ih hfirst (by rw [hframe]; exact hrest)
      refine ⟨hothers.1, ?_⟩
      have hheap : (s.getOrCreate chat r).1.heap = s.heap := by rw [hframe]
      rw [hheap] at hothers
      exact congrArg₂ List.cons hconfig hothers.2

theorem tidy_pluginsFor
    (h : Tidy s) (chat : String) :
    Tidy (s.pluginsFor chat).1 ∧
      s.heap.read (s.pluginsFor chat).2 = s.heap.read (s.enabledFor chat) := by
  have henabled : ∀ r ∈ s.enabledFor chat, r ∈ s.plugins :=
    fun r hr => List.mem_of_mem_filter hr
  unfold State.pluginsFor
  cases hcached : s.cached chat with
  | some refs =>
      obtain rfl := h.cache chat refs hcached
      exact tidy_visit h henabled chat
  | none =>
      dsimp only
      have hresolved : Tidy { s with
          enabledCache := s.enabledCache.set chat (s.generation, s.enabledFor chat) } := by
        refine ⟨h.list, h.history, fun chat' e he => ?_, fun chat' refs hrefs => ?_, h.current⟩
        · rw [Dict.get_set] at he
          split_ifs at he
          · obtain rfl := Option.some.inj he
            exact Nat.le_refl _
          · exact h.stale chat' e he
        · rw [cached_eq_some, Dict.get_set] at hrefs
          split_ifs at hrefs with hchat
          · subst hchat
            exact (Prod.mk.inj (Option.some.inj hrefs)).2.symm
          · exact h.cache chat' refs (cached_eq_some.mpr hrefs)
      exact tidy_visit hresolved henabled chat

theorem tidy_perform
    {op : Op ρ} (hsound : Sound s) (h : Tidy s) (hreaches : reaches s op = true)
    (hregular : Regular s op) :
    Tidy (perform s op).1 := by
  cases op with
  | create c =>
      refine tidy_frame hsound h (fun r hr => Heap.get_alloc_of_lt (hsound.shared r hr)) rfl rfl
        rfl rfl (fun _ _ hi => hi) ?_
      rw [show (perform s (.create c)).1.snapshots = _ from (list_create hsound c).2]
      exact h.history
  | reconfigure changes refs => exact tidy_reconfigure hsound h hreaches hregular
  | add r => exact tidy_addPlugin hsound h (List.contains_iff_mem.mp hreaches) hregular
  | remove name => exact tidy_removePlugin hsound h hregular
  | toggle name enabled => exact tidy_togglePlugin hsound h hregular
  | rollback steps => exact tidy_rollback hsound h hregular
  | disable names => exact tidy_disablePlugins hsound h hregular
  | setEnabled chat name enabled => exact tidy_setPluginEnabled h chat name enabled
  | reload name =>
      simp only [perform, State.reloadPlugin]
      split
      · exact h
      · exact tidy_popInstances hsound h [name]
  | session chat overrides => exact tidy_session h hregular
  | event chat name =>
      simp only [perform, State.event]
      split
      · exact h
      · rename_i r hfind
        exact (tidy_getOrCreate h (find_mem hfind).1 chat).1
  | dispatch chat => exact (tidy_pluginsFor h chat).1
  | stopAll =>
      refine tidy_frame hsound h (fun _ _ => rfl) rfl rfl rfl rfl (fun _ _ hi => ?_) h.history
      cases hi

end Steps

section Results

variable [Inhabited ρ]

theorem read_blank
    (configs : List (PluginConfig ρ)) :
    (blank configs).heap.read (List.range configs.length) = configs := by
  refine List.ext_getElem? fun i => ?_
  rw [Heap.read, List.getElem?_map]
  by_cases hi : i < configs.length
  · rw [List.getElem?_range hi, Option.map_some, List.getElem?_eq_getElem hi]
    change some (configs.getD i default) = _
    rw [List.getD_eq_getElem?_getD, List.getElem?_eq_getElem hi, Option.getD_some]
  · have hlen : configs.length ≤ i := Nat.le_of_not_lt hi
    rw [List.getElem?_eq_none hlen, List.getElem?_eq_none, Option.map_none]
    rwa [List.length_range]

theorem init_tidy
    {configs : List (PluginConfig ρ)} (h : Distinct configs) :
    Tidy (init configs) := by
  refine tidy_snapshotConfig (sound_reconfigured (sound_blank configs) fun r hr => hr)
    (tidy_bump ?_ ?_ ?_ ?_)
  · refine ordered_insertionSort (blank configs).heap ?_
    have hfilter : (blank configs).heap.read ((List.range configs.length).filter fun r =>
        ((blank configs).heap.get r).name ≠ "") = configs.filter fun c => c.name ≠ "" := by
      conv_rhs => rw [← read_blank configs, Heap.read, List.filter_map]
      rfl
    change ((Heap.read _ _).map PluginConfig.name).Nodup
    rw [Distinct, ← hfilter] at h
    exact h
  · rintro l ⟨⟩
  · rintro chat e ⟨⟩
  · intro p _ chat i hi
    cases hi

/-- **Hooks.**  In every run that starts with a list of distinct names and whose steps all
meet the condition, a hook for any chat visits exactly the plugins that are enabled for it,
each once and in order, with their configs. -/
theorem hooks_faithful
    (configs : List (PluginConfig ρ)) (hdistinct : Distinct configs) (s : State ρ)
    (h : Reach step Regular (init configs) s) (chat : String) :
    Faithful s chat := by
  have hinv : Sound s ∧ Tidy s := by
    refine h.invariant (P := fun s => Sound s ∧ Tidy s)
      ⟨(init_sound configs).1, init_tidy hdistinct⟩ ?_
    intro s₁ op s₂ hinv hregular hstep
    unfold step at hstep
    split_ifs at hstep with hreaches
    obtain rfl := Option.some.inj hstep
    exact ⟨sound_perform hinv.1 hreaches, tidy_perform hinv.1 hinv.2 hreaches hregular⟩
  exact ⟨(tidy_pluginsFor hinv.2 chat).2, hinv.2.list⟩

def note : PluginConfig Unit :=
  { name := "note"
    enabled := true
    promptOrder := 50
    rest := () }

/-- The first hook of a chat, an override, and a config update that adds a plugin. -/
def overrideRun : List (Op Unit) :=
  [.session "c" (some Dict.empty), .dispatch "c", .setEnabled "c" "continuity" false,
    .dispatch "c", .create note, .reconfigure [] [0, 2], .dispatch "c"]

/-- The conditions of this run, as far as they are not trivial. -/
def overrideCheck (s : State Unit) : Op Unit → Bool
  | .session chat _ => !(s.cached chat).isSome
  | .reconfigure changes refs =>
      decide (Distinct ((s.assignAll changes).heap.read refs))
  | .dispatch _ => true
  | .setEnabled _ _ _ => true
  | .create _ => true
  | _ => false

theorem regular_of_check
    (s : State Unit) (op : Op Unit) (h : overrideCheck s op = true) :
    Regular s op := by
  cases op with
  | session chat overrides =>
      intro hcached
      rw [overrideCheck, hcached] at h
      cases h
  | reconfigure changes refs =>
      have hdistinct : Distinct ((s.assignAll changes).heap.read refs) := of_decide_eq_true h
      exact hdistinct
  | dispatch chat => trivial
  | setEnabled chat name enabled => trivial
  | create c => trivial
  | _ => cases h

theorem hooks_faithful_overrideRun :
    ∃ s, run step (init [continuity]) overrideRun = some s ∧
      s.heap.read (s.pluginsFor "c").2 = [note] ∧ Faithful s "c" := by
  have hout : (run step (init [continuity]) overrideRun).map
      (fun s => s.heap.read (s.pluginsFor "c").2) = some [note] := by
    decide +kernel
  obtain ⟨s, hrun, hs⟩ := Option.map_eq_some_iff.mp hout
  have hguarded : Guarded step Regular (init [continuity]) overrideRun :=
    guarded_of_checkRun overrideCheck regular_of_check (by decide +kernel)
  exact ⟨s, hrun, hs, hooks_faithful _ (by decide) s (reach_of_run hrun hguarded) "c"⟩

/-- A chat has seen a plugin, which is then removed. -/
def removedRun : List (Op Unit) := [.dispatch "c", .remove "continuity"]

theorem removed_plugin_visited :
    ∃ s, run step (init [continuity]) removedRun = some s ∧ s.list = [] ∧
      s.heap.read (s.pluginsFor "c").2 = [continuity] ∧ ¬Faithful s "c" := by
  have hout : (run step (init [continuity]) removedRun).map
      (fun s => (s.list, s.heap.read (s.pluginsFor "c").2, s.heap.read (s.enabledFor "c"))) =
      some ([], [continuity], []) := by
    decide +kernel
  obtain ⟨s, hrun, hs⟩ := Option.map_eq_some_iff.mp hout
  simp only [Prod.mk.injEq] at hs
  refine ⟨s, hrun, hs.1, hs.2.1, fun hfaithful => ?_⟩
  have hvisits := hfaithful.visits
  rw [hs.2.1, hs.2.2] at hvisits
  cases hvisits

end Results

end Plugins
end DiploidAgent
