import DiploidAgent.Lib.Runs
import DiploidAgent.Plugins.Manager

/-!
# Rolling plugin changes back

The history holds copies that nobody else can reach, so that a config object that is
changed in place never changes a snapshot.  Every change of the plugin list takes a
snapshot of the list it leaves, and a rollback goes back in the history of snapshots and
takes one of what it restored.

What the last changes did is therefore undone by going back as many steps, as long as their
snapshots are kept, and going back twice is going back by the sum (`rollback_undoes`).
-/

namespace DiploidAgent
namespace Plugins

open Objects Runs Snapshots

universe u

variable {ρ : Type u}

/-! ### Who can reach what -/

/-- The plugins, the cached lists and the instances are objects that can be changed, and
the snapshots are not; there are ten of them at most. -/
structure Sound (s : State ρ) : Prop where
  shared : s.heap.Holds s.shared
  plugins : ∀ r ∈ s.plugins, r ∈ s.shared
  cache : ∀ chat e, s.enabledCache.get chat = some e → ∀ r ∈ e.2, r ∈ s.shared
  instances : ∀ key r, s.instances.get key = some r → r ∈ s.shared
  history : ∀ refs ∈ s.history, s.heap.Holds refs ∧ ∀ r ∈ refs, r ∉ s.shared
  length : s.history.length ≤ 10

section Sound

variable {s s' : State ρ}

theorem Sound.holds
    (h : Sound s) :
    s.heap.Holds s.plugins :=
  fun r hr => h.shared r (h.plugins r hr)

/-- A step that touches neither the objects nor the history. -/
theorem sound_same
    (h : Sound s) (hheap : s'.heap = s.heap) (hshared : s'.shared = s.shared)
    (hhistory : s'.history = s.history) (hplugins : ∀ r ∈ s'.plugins, r ∈ s.shared)
    (hcache : ∀ chat e, s'.enabledCache.get chat = some e → ∀ r ∈ e.2, r ∈ s.shared)
    (hinstances : ∀ key r, s'.instances.get key = some r → r ∈ s.shared) :
    Sound s' where
  shared := by
    rw [hheap, hshared]
    exact h.shared
  plugins r hr := hshared ▸ hplugins r hr
  cache chat e he r hr := hshared ▸ hcache chat e he r hr
  instances key r hr := hshared ▸ hinstances key r hr
  history refs hrefs := by
    rw [hheap, hshared]
    exact h.history refs (hhistory ▸ hrefs)
  length := hhistory ▸ h.length

theorem sound_popInstances
    (h : Sound s) (names : List String) :
    Sound (s.popInstances names) := by
  refine sound_same h rfl rfl rfl h.plugins h.cache fun key r hr => ?_
  rw [State.popInstances, Dict.get_filter, Option.filter_eq_some_iff] at hr
  exact h.instances key r hr.1

theorem sound_assign
    (h : Sound s) (r : Nat) (c : PluginConfig ρ) :
    Sound (s.assign r c) where
  shared := h.shared
  plugins := h.plugins
  cache := h.cache
  instances := h.instances
  history := h.history
  length := h.length

/-- Changing objects in place leaves all but the heap. -/
theorem assignAll_frame
    (s : State ρ) (changes : List (Nat × PluginConfig ρ)) :
    ∃ heap, s.assignAll changes = { s with heap := heap } := by
  induction changes generalizing s with
  | nil => exact ⟨_, rfl⟩
  | cons e changes ih => exact ih (s.assign e.1 e.2)

theorem sound_assignAll
    (h : Sound s) (changes : List (Nat × PluginConfig ρ)) :
    Sound (s.assignAll changes) := by
  induction changes generalizing s with
  | nil => exact h
  | cons e changes ih => exact ih (sound_assign h e.1 e.2)

theorem sound_snapshotConfig
    (h : Sound s) :
    Sound s.snapshotConfig where
  shared := h.shared.alloc s.list
  plugins := h.plugins
  cache := h.cache
  instances := h.instances
  history refs hrefs := by
    rcases mem_push hrefs with hold | rfl
    · obtain ⟨hholds, hapart⟩ := h.history refs hold
      exact ⟨hholds.alloc s.list, hapart⟩
    · refine ⟨Heap.holds_fresh, fun r hr hshared => ?_⟩
      exact Nat.not_lt.mpr (Heap.size_le_of_mem_fresh hr) (h.shared r hshared)
  length := length_push_le h.length

/-- New objects that others can reach; the history may lose entries. -/
theorem sound_alloc
    {xs : List (PluginConfig ρ)} (h : Sound s) (hheap : s'.heap = s.heap.alloc xs)
    (hshared : s'.shared = s.shared ++ s.heap.fresh xs)
    (hhistory : ∀ refs ∈ s'.history, refs ∈ s.history)
    (hlength : s'.history.length ≤ s.history.length)
    (hplugins : ∀ r ∈ s'.plugins, r ∈ s'.shared)
    (hcache : s'.enabledCache = s.enabledCache)
    (hinstances : ∀ key r, s'.instances.get key = some r → r ∈ s.shared) :
    Sound s' where
  shared r hr := by
    rw [hshared] at hr
    rw [hheap]
    rcases List.mem_append.mp hr with hr | hr
    · exact h.shared.alloc xs r hr
    · exact Heap.holds_fresh r hr
  plugins := hplugins
  cache chat e he r hr := by
    rw [hshared]
    exact List.mem_append_left _ (h.cache chat e (hcache ▸ he) r hr)
  instances key r hr := by
    rw [hshared]
    exact List.mem_append_left _ (hinstances key r hr)
  history refs hrefs := by
    obtain ⟨hholds, hapart⟩ := h.history refs (hhistory refs hrefs)
    rw [hheap, hshared]
    refine ⟨hholds.alloc xs, fun r hr hmem => ?_⟩
    rcases List.mem_append.mp hmem with hmem | hmem
    · exact hapart r hr hmem
    · exact Nat.not_lt.mpr (Heap.size_le_of_mem_fresh hmem) (hholds r hr)
  length := hlength.trans h.length

theorem sound_create
    (h : Sound s) (c : PluginConfig ρ) :
    Sound (s.create c) :=
  sound_alloc h rfl rfl (fun _ hrefs => hrefs) (Nat.le_refl _)
    (fun r hr => List.mem_append_left _ (h.plugins r hr)) rfl h.instances

theorem sound_restore
    (h : Sound s) (target : List Nat) (kept : Nat) :
    Sound (s.restore target kept) :=
  sound_alloc (sound_popInstances h (s.dropped target)) rfl rfl
    (fun _ hrefs => List.mem_of_mem_take hrefs) (List.length_take_le' _ _)
    (fun _ hr => List.mem_append_right _ hr) rfl
    (sound_popInstances h (s.dropped target)).instances

theorem sound_rollback
    (h : Sound s) (steps : Int) :
    Sound (s.rollback steps).1 := by
  simp only [State.rollback]
  split_ifs
  · exact h
  · exact h
  · exact sound_snapshotConfig (sound_restore h _ _)

theorem sound_setPluginEnabled
    (h : Sound s) (chat name : String) (enabled : Bool) :
    Sound (s.setPluginEnabled chat name enabled) := by
  unfold State.setPluginEnabled
  cases s.records.get chat with
  | none => exact h
  | some overrides =>
      refine sound_same h rfl rfl rfl h.plugins h.cache fun key r hr => ?_
      rw [Dict.get_erase] at hr
      split_ifs at hr
      exact h.instances key r hr

theorem sound_session
    (h : Sound s) (chat : String) (overrides : Option (Dict String Bool)) :
    Sound (s.session chat overrides) := by
  cases overrides with
  | none => exact sound_same h rfl rfl rfl h.plugins h.cache h.instances
  | some o => exact sound_same h rfl rfl rfl h.plugins h.cache h.instances

theorem sound_reloadPlugin
    (h : Sound s) (name : String) :
    Sound (s.reloadPlugin name) := by
  unfold State.reloadPlugin
  cases s.find name with
  | none => exact h
  | some r => exact sound_popInstances h [name]

theorem sound_getOrCreate
    {r : Nat} (h : Sound s) (hr : r ∈ s.shared) (chat : String) :
    Sound (s.getOrCreate chat r).1 := by
  simp only [State.getOrCreate]
  split
  · exact h
  · refine sound_same h rfl rfl rfl h.plugins h.cache fun key r' hr' => ?_
    rw [Dict.get_set] at hr'
    split_ifs at hr'
    · obtain rfl := Option.some.inj hr'
      exact hr
    · exact h.instances key r' hr'

/-- Making an instance writes the instances, and nothing else. -/
theorem getOrCreate_frame
    (s : State ρ) (chat : String) (r : Nat) :
    ∃ instances, (s.getOrCreate chat r).1 = { s with instances := instances } := by
  simp only [State.getOrCreate]
  split
  · exact ⟨_, rfl⟩
  · exact ⟨_, rfl⟩

theorem visit_frame
    (s : State ρ) (chat : String) (refs : List Nat) :
    ∃ instances, (s.visit chat refs).1 = { s with instances := instances } := by
  induction refs generalizing s with
  | nil => exact ⟨_, rfl⟩
  | cons r refs ih =>
      obtain ⟨instances, hfirst⟩ := getOrCreate_frame s chat r
      obtain ⟨instances', hothers⟩ := ih (s.getOrCreate chat r).1
      refine ⟨instances', ?_⟩
      rw [State.visit, hothers, hfirst]

theorem sound_visit
    {refs : List Nat} (h : Sound s) (hrefs : ∀ r ∈ refs, r ∈ s.shared) (chat : String) :
    Sound (s.visit chat refs).1 := by
  induction refs generalizing s with
  | nil => exact h
  | cons r refs ih =>
      obtain ⟨hr, hrest⟩ := List.forall_mem_cons.mp hrefs
      obtain ⟨instances, hframe⟩ := getOrCreate_frame s chat r
      refine ih (sound_getOrCreate h hr chat) ?_
      rw [hframe]
      exact hrest

theorem cached_eq_some
    {chat : String} {enabled : List Nat} :
    s.cached chat = some enabled ↔
      s.enabledCache.get chat = some (s.generation, enabled) := by
  unfold State.cached
  cases s.enabledCache.get chat with
  | none => simp
  | some e =>
      obtain ⟨generation, refs⟩ := e
      rw [Option.bind_some, Option.some.injEq, Prod.mk.injEq]
      dsimp only
      split_ifs with hgeneration
      · rw [Option.some.injEq]
        exact ⟨fun h => ⟨hgeneration, h⟩, fun h => h.2⟩
      · refine iff_of_false ?_ fun h => hgeneration h.1
        rintro ⟨⟩

theorem sound_pluginsFor
    (h : Sound s) (chat : String) :
    Sound (s.pluginsFor chat).1 := by
  unfold State.pluginsFor
  cases hcached : s.cached chat with
  | some enabled => exact sound_visit h (h.cache chat _ (cached_eq_some.mp hcached)) chat
  | none =>
      dsimp only
      have henabled : ∀ r ∈ s.plugins.filter fun r => s.isEnabledFor chat r, r ∈ s.shared :=
        fun r hr => h.plugins r (List.mem_of_mem_filter hr)
      have hnext : Sound { s with
          enabledCache := s.enabledCache.set chat
            (s.generation, s.plugins.filter fun r => s.isEnabledFor chat r) } := by
        refine sound_same h rfl rfl rfl h.plugins (fun chat' e he => ?_) h.instances
        rw [Dict.get_set] at he
        split_ifs at he
        · obtain rfl := Option.some.inj he
          exact henabled
        · exact h.cache chat' e he
      exact sound_visit hnext henabled chat

theorem find_mem
    {name : String} {r : Nat} (h : s.find name = some r) :
    r ∈ s.plugins ∧ (s.config r).name = name := by
  have hname := List.find?_some h
  exact ⟨List.mem_of_find?_eq_some h, of_decide_eq_true hname⟩

theorem sound_event
    (h : Sound s) (chat name : String) :
    Sound (s.event chat name) := by
  unfold State.event
  cases hfind : s.find name with
  | none => exact h
  | some r => exact sound_getOrCreate h (h.plugins r (find_mem hfind).1) chat

end Sound

/-! ### What is in force and what the history shows -/

section Undo

variable {s s' : State ρ}

/-- A snapshot of the list is taken, whatever became of the list and the objects that
others can reach. -/
theorem snapshots_snapshotConfig
    (h : Sound s) :
    s.snapshotConfig.list = s.list ∧ s.snapshotConfig.snapshots = push 10 s.snapshots s.list := by
  have hplugins : (s.heap.alloc s.list).read s.plugins = s.list := Heap.read_alloc h.holds
  have hhistory : s.history.map (s.heap.alloc s.list).read = s.snapshots :=
    List.map_congr_left fun refs hrefs => Heap.read_alloc (h.history refs hrefs).1
  refine ⟨hplugins, ?_⟩
  change (push 10 s.history (s.heap.fresh s.list)).map (s.heap.alloc s.list).read = _
  rw [map_push, hhistory, Heap.read_fresh]

/-- Changing an object in place does not change a snapshot. -/
theorem snapshots_assign
    {r : Nat} (h : Sound s) (hr : r ∈ s.shared) (c : PluginConfig ρ) :
    (s.assign r c).snapshots = s.snapshots :=
  List.map_congr_left fun refs hrefs =>
    Heap.read_update_of_not_mem fun hmem => (h.history refs hrefs).2 r hmem hr

theorem snapshots_assignAll
    {changes : List (Nat × PluginConfig ρ)} (h : Sound s) (hchanges : ∀ e ∈ changes, e.1 ∈ s.shared) :
    (s.assignAll changes).snapshots = s.snapshots := by
  induction changes generalizing s with
  | nil => rfl
  | cons e changes ih =>
      obtain ⟨hhead, hrest⟩ := List.forall_mem_cons.mp hchanges
      exact (ih (sound_assign h e.1 e.2) hrest).trans (snapshots_assign h hhead e.2)

/-- A change of the list: it is rejected, or ends with a snapshot, and what it did before
touched only what others can reach. -/
inductive Changed (s : State ρ) : State ρ × Option String → Prop
  | rejected (error : String) : Changed s (s, some error)
  | noted (s' : State ρ) (hsound : Sound s') (hsnapshots : s'.snapshots = s.snapshots) :
      Changed s (s'.snapshotConfig, none)

theorem Changed.sound
    {result : State ρ × Option String} (h : Sound s) (hchanged : Changed s result) :
    Sound result.1 := by
  cases hchanged with
  | rejected error => exact h
  | noted s' hsound _ => exact sound_snapshotConfig hsound

theorem sound_added
    {r : Nat} (h : Sound s) (hr : r ∈ s.shared) :
    Sound { s with plugins := (s.plugins ++ [r]).insertionSort (Before s.heap) } := by
  refine sound_same h rfl rfl rfl (fun r' hr' => ?_) h.cache h.instances
  have hmem : r' ∈ s.plugins ++ [r] := (List.mem_insertionSort _).mp hr'
  rcases List.mem_append.mp hmem with hmem | hmem
  · exact h.plugins r' hmem
  · rwa [List.mem_singleton.mp hmem]

theorem changed_addPlugin
    {r : Nat} (h : Sound s) (hr : r ∈ s.shared) :
    Changed s (s.addPlugin r) := by
  simp only [State.addPlugin]
  split_ifs
  · exact .rejected _
  · exact .rejected _
  · exact .noted _ (sound_added h hr) rfl

theorem sound_removed
    (h : Sound s) (name : String) :
    Sound { s with plugins := s.plugins.filter fun p => (s.config p).name ≠ name } :=
  sound_same h rfl rfl rfl (fun r hr => h.plugins r (List.mem_of_mem_filter hr)) h.cache
    h.instances

theorem changed_removePlugin
    (h : Sound s) (name : String) :
    Changed s (s.removePlugin name) := by
  unfold State.removePlugin
  cases s.find name with
  | none => exact .rejected _
  | some r => exact .noted _ (sound_popInstances (sound_removed h name) [name]) rfl

theorem changed_togglePlugin
    (h : Sound s) (name : String) (enabled : Bool) :
    Changed s (s.togglePlugin name enabled) := by
  unfold State.togglePlugin
  cases hfind : s.find name with
  | none => exact .rejected _
  | some r =>
      have hflag : Sound (s.setFlag r enabled) := sound_assign h r _
      have hsnapshots : (s.setFlag r enabled).snapshots = s.snapshots :=
        snapshots_assign h (h.plugins r (find_mem hfind).1) _
      cases enabled with
      | false => exact .noted _ (sound_popInstances hflag [name]) hsnapshots
      | true => exact .noted _ hflag hsnapshots

theorem sound_reconfigured
    {refs : List Nat} (h : Sound s) (hrefs : ∀ r ∈ refs, r ∈ s.shared) :
    Sound { s with
      plugins := (refs.filter fun r => (s.config r).name ≠ "").insertionSort (Before s.heap)
      instances := Dict.empty
      generation := s.generation + 1 } := by
  refine sound_same h rfl rfl rfl (fun r hr => ?_) h.cache ?_
  · exact hrefs r (List.mem_of_mem_filter ((List.mem_insertionSort _).mp hr))
  · rintro key r ⟨⟩

theorem changed_reconfigure
    {changes : List (Nat × PluginConfig ρ)} {refs : List Nat} (h : Sound s)
    (hchanges : ∀ e ∈ changes, e.1 ∈ s.shared) (hrefs : ∀ r ∈ refs, r ∈ s.shared) :
    Changed s ((s.assignAll changes).reconfigure refs, none) := by
  obtain ⟨heap, hframe⟩ := assignAll_frame s changes
  have hshared : ∀ r ∈ refs, r ∈ (s.assignAll changes).shared := by
    rw [hframe]
    exact hrefs
  exact .noted _ (sound_reconfigured (sound_assignAll h changes) hshared)
    (snapshots_assignAll h hchanges)

theorem disabled_flags
    (h : Sound s) (refs : List Nat) (hrefs : ∀ r ∈ refs, r ∈ s.shared) :
    Sound (refs.foldl (fun s r => s.setFlag r false) s) ∧
      (refs.foldl (fun s r => s.setFlag r false) s).snapshots = s.snapshots := by
  induction refs generalizing s with
  | nil => exact ⟨h, rfl⟩
  | cons r refs ih =>
      obtain ⟨hr, hrest⟩ := List.forall_mem_cons.mp hrefs
      obtain ⟨hsound, hsnapshots⟩ := ih (sound_assign h r _) hrest
      exact ⟨hsound, hsnapshots.trans (snapshots_assign h hr _)⟩

theorem changed_disablePlugins
    (h : Sound s) (names : List String) :
    Changed s (s.disablePlugins names, none) := by
  obtain ⟨hflags, hsnapshots⟩ := disabled_flags h
    (s.plugins.filter fun r => names.contains (s.config r).name)
    fun r hr => h.plugins r (List.mem_of_mem_filter hr)
  exact .noted _ (sound_same hflags rfl rfl rfl hflags.plugins hflags.cache hflags.instances)
    hsnapshots

theorem sound_perform
    {op : Op ρ} (h : Sound s) (hreaches : reaches s op = true) :
    Sound (perform s op).1 := by
  cases op with
  | create c => exact sound_create h c
  | reconfigure changes refs =>
      simp only [reaches, Bool.and_eq_true, List.all_eq_true, List.contains_iff_mem] at hreaches
      exact (changed_reconfigure h hreaches.1 hreaches.2).sound h
  | add r => exact (changed_addPlugin h (List.contains_iff_mem.mp hreaches)).sound h
  | remove name => exact (changed_removePlugin h name).sound h
  | toggle name enabled => exact (changed_togglePlugin h name enabled).sound h
  | rollback steps => exact sound_rollback h steps
  | disable names => exact (changed_disablePlugins h names).sound h
  | setEnabled chat name enabled => exact sound_setPluginEnabled h chat name enabled
  | reload name => exact sound_reloadPlugin h name
  | session chat overrides => exact sound_session h chat overrides
  | event chat name => exact sound_event h chat name
  | dispatch chat => exact sound_pluginsFor h chat
  | stopAll => exact sound_same h rfl rfl rfl h.plugins h.cache fun _ _ hr => by cases hr

/-! ### Going back -/

/-- A list that is restored shows what the snapshot shows. -/
theorem list_restore
    (s : State ρ) (target : List Nat) (kept : Nat) :
    (s.restore target kept).list = s.heap.read target :=
  Heap.read_fresh

theorem snapshots_restore
    (h : Sound s) (target : List Nat) (kept : Nat) :
    (s.restore target kept).snapshots = s.snapshots.take kept := by
  have hread : (s.history.take kept).map (s.heap.alloc (s.heap.read target)).read =
      (s.history.take kept).map s.heap.read := by
    refine List.map_congr_left fun refs hrefs => Heap.read_alloc ?_
    exact (h.history refs (List.mem_of_mem_take hrefs)).1
  exact hread.trans List.map_take

theorem length_snapshots
    (s : State ρ) :
    s.snapshots.length = s.history.length :=
  List.length_map _

/-- A rollback goes back in the history of what the snapshots show. -/
theorem rollback_spec
    (h : Sound s) {k : Nat} (hk : 1 ≤ k) :
    match Snapshots.back 10 s.snapshots k with
    | none => s.rollback k = (s, some "No earlier configuration to roll back to")
    | some (x, history) =>
        ∃ s', s.rollback k = (s', none) ∧ s'.list = x ∧ s'.snapshots = history := by
  have hsteps : ¬(k : Int) < 1 := by omega
  rw [State.rollback, if_neg hsteps, Int.toNat_natCast, Snapshots.back, length_snapshots]
  split_ifs with hshort
  · rfl
  · have hindex : s.history.length - (k + 1) < s.history.length := by omega
    have htarget : s.snapshots[s.history.length - (k + 1)]? =
        some (s.heap.read (s.history.getD (s.history.length - (k + 1)) [])) := by
      rw [State.snapshots, List.getElem?_map, List.getD_eq_getElem?_getD,
        List.getElem?_eq_getElem hindex]
      rfl
    rw [htarget]
    obtain ⟨hlist, hsnapshots⟩ := snapshots_snapshotConfig (sound_restore h
      (s.history.getD (s.history.length - (k + 1)) []) (s.history.length - (k + 1)))
    refine ⟨_, rfl, ?_, ?_⟩
    · rw [hlist, list_restore]
    · rw [hsnapshots, list_restore, snapshots_restore h]

/-- The last snapshot shows the list. -/
def InForce (s : State ρ) : Prop := Kept s.snapshots s.list 0

theorem inForce_same
    (h : InForce s) (hlist : s'.list = s.list) (hsnapshots : s'.snapshots = s.snapshots) :
    InForce s' := by
  unfold InForce
  rw [hlist, hsnapshots]
  exact h

theorem inForce_snapshotConfig
    (h : Sound s) :
    InForce s.snapshotConfig := by
  obtain ⟨hlist, htaken⟩ := snapshots_snapshotConfig h
  unfold InForce
  rw [htaken, hlist]
  exact kept_push_self (by decide) s.snapshots s.list

theorem Changed.inForce
    {result : State ρ × Option String} (h : InForce s) (hchanged : Changed s result) :
    InForce result.1 := by
  cases hchanged with
  | rejected error => exact h
  | noted s' hsound _ => exact inForce_snapshotConfig hsound

theorem inForce_rollback
    (h : Sound s) (hforce : InForce s) (steps : Int) :
    InForce (s.rollback steps).1 := by
  by_cases hsteps : steps < 1
  · rw [State.rollback, if_pos hsteps]
    exact hforce
  · obtain ⟨k, rfl⟩ := Int.eq_ofNat_of_zero_le (show 0 ≤ steps by omega)
    have hspec := rollback_spec h (k := k) (by omega)
    cases hback : Snapshots.back 10 s.snapshots k with
    | none =>
        rw [hback] at hspec
        rw [hspec]
        exact hforce
    | some r =>
        rw [hback] at hspec
        obtain ⟨s', hs', hlist, hsnapshots⟩ := hspec
        obtain ⟨-, -, -, hpushed⟩ := back_eq_some hback
        rw [hs']
        unfold InForce
        rw [hlist, hsnapshots, hpushed]
        exact kept_push_self (by decide) _ _

/-- Operations that change neither the list nor the history. -/
def Op.isQuiet : Op ρ → Bool
  | .create _ => true
  | .setEnabled _ _ _ => true
  | .reload _ => true
  | .session _ _ => true
  | .event _ _ => true
  | .dispatch _ => true
  | .stopAll => true
  | _ => false

theorem list_create
    (h : Sound s) (c : PluginConfig ρ) :
    (s.create c).list = s.list ∧ (s.create c).snapshots = s.snapshots :=
  ⟨Heap.read_alloc h.holds,
    List.map_congr_left fun refs hrefs => Heap.read_alloc (h.history refs hrefs).1⟩

theorem list_pluginsFor
    (s : State ρ) (chat : String) :
    (s.pluginsFor chat).1.list = s.list ∧ (s.pluginsFor chat).1.snapshots = s.snapshots := by
  unfold State.pluginsFor
  cases s.cached chat with
  | some enabled =>
      obtain ⟨instances, hframe⟩ := visit_frame s chat enabled
      dsimp only
      rw [hframe]
      exact ⟨rfl, rfl⟩
  | none =>
      dsimp only
      obtain ⟨instances, hframe⟩ := visit_frame { s with
        enabledCache := s.enabledCache.set chat
          (s.generation, s.plugins.filter fun r => s.isEnabledFor chat r) } chat
        (s.plugins.filter fun r => s.isEnabledFor chat r)
      rw [hframe]
      exact ⟨rfl, rfl⟩

theorem list_quiet
    {op : Op ρ} (h : Sound s) (hop : op.isQuiet = true) :
    (perform s op).1.list = s.list ∧ (perform s op).1.snapshots = s.snapshots := by
  cases op with
  | create c => exact list_create h c
  | setEnabled chat name enabled =>
      simp only [perform, State.setPluginEnabled]
      split <;> exact ⟨rfl, rfl⟩
  | reload name =>
      simp only [perform, State.reloadPlugin]
      split <;> exact ⟨rfl, rfl⟩
  | session chat overrides => cases overrides <;> exact ⟨rfl, rfl⟩
  | event chat name =>
      simp only [perform, State.event]
      split
      · exact ⟨rfl, rfl⟩
      · rename_i r _
        obtain ⟨instances, hframe⟩ := getOrCreate_frame s chat r
        rw [hframe]
        exact ⟨rfl, rfl⟩
  | dispatch chat => exact list_pluginsFor s chat
  | stopAll => exact ⟨rfl, rfl⟩
  | _ => cases hop

/-- A change of the list that is no rollback. -/
theorem changed_perform
    {op : Op ρ} (h : Sound s) (hreaches : reaches s op = true) (hop : op.isQuiet = false)
    (hrollback : ∀ steps, op ≠ .rollback steps) :
    Changed s (perform s op) := by
  cases op with
  | reconfigure changes refs =>
      simp only [reaches, Bool.and_eq_true, List.all_eq_true, List.contains_iff_mem] at hreaches
      exact changed_reconfigure h hreaches.1 hreaches.2
  | add r => exact changed_addPlugin h (List.contains_iff_mem.mp hreaches)
  | remove name => exact changed_removePlugin h name
  | toggle name enabled => exact changed_togglePlugin h name enabled
  | disable names => exact changed_disablePlugins h names
  | rollback steps => exact absurd rfl (hrollback steps)
  | _ => cases hop

theorem inForce_perform
    {op : Op ρ} (h : Sound s) (hforce : InForce s) (hreaches : reaches s op = true) :
    InForce (perform s op).1 := by
  cases hquiet : op.isQuiet with
  | true =>
      obtain ⟨hlist, hsnapshots⟩ := list_quiet h hquiet
      exact inForce_same hforce hlist hsnapshots
  | false =>
      by_cases hrollback : ∃ steps, op = .rollback steps
      · obtain ⟨steps, rfl⟩ := hrollback
        exact inForce_rollback h hforce steps
      · exact (changed_perform h hreaches hquiet fun steps hop => hrollback ⟨steps, hop⟩).inForce
          hforce

/-- A rejected operation leaves everything as it was. -/
theorem rejected_perform
    {op : Op ρ} {error : String} (herror : (perform s op).2 = some error) :
    (perform s op).1 = s := by
  cases op with
  | add r =>
      simp only [perform, State.addPlugin] at herror ⊢
      split_ifs at herror ⊢
      · rfl
      · rfl
  | remove name =>
      simp only [perform, State.removePlugin] at herror ⊢
      split at herror
      · rfl
      · cases herror
  | toggle name enabled =>
      simp only [perform, State.togglePlugin] at herror ⊢
      split at herror
      · rfl
      · cases herror
  | rollback steps =>
      simp only [perform, State.rollback] at herror ⊢
      split_ifs at herror ⊢
      · rfl
      · rfl
  | _ => cases herror

end Undo

/-! ### Runs -/

/-- `plugin_add`, `plugin_remove` and `plugin_toggle` for all chats. -/
def Op.isCall : Op ρ → Bool
  | .add _ => true
  | .remove _ => true
  | .toggle _ _ => true
  | _ => false

/-- What came of a state after `k` successful calls, with any rejected operations, any that
concern no list, and any changes of objects in place among them. -/
inductive After (s : State ρ) : Nat → State ρ → Prop
  | start : After s 0 s
  | called
      {k : Nat} {s' s'' : State ρ} (op : Op ρ) (h : After s k s') (hop : op.isCall = true)
      (hreaches : reaches s' op = true) (hperform : perform s' op = (s'', none)) :
      After s (k + 1) s''
  | rejected
      {k : Nat} {s' s'' : State ρ} {error : String} (op : Op ρ) (h : After s k s')
      (hperform : perform s' op = (s'', some error)) :
      After s k s''
  | quiet
      {k : Nat} {s' : State ρ} (op : Op ρ) (h : After s k s') (hop : op.isQuiet = true)
      (hreaches : reaches s' op = true) :
      After s k (perform s' op).1
  | assigned
      {k : Nat} {s' : State ρ} (r : Nat) (c : PluginConfig ρ) (h : After s k s')
      (hr : r ∈ s'.shared) :
      After s k (s'.assign r c)

section Runs

variable {s s' : State ρ}

theorem not_quiet_of_call
    {op : Op ρ} (h : op.isCall = true) :
    op.isQuiet = false ∧ ∀ steps, op ≠ .rollback steps := by
  cases op with
  | add r => exact ⟨rfl, fun _ => by rintro ⟨⟩⟩
  | remove name => exact ⟨rfl, fun _ => by rintro ⟨⟩⟩
  | toggle name enabled => exact ⟨rfl, fun _ => by rintro ⟨⟩⟩
  | _ => cases h

/-- The list that was in force is kept in the history with one snapshot after it for every
call. -/
theorem kept_after
    {k : Nat} (h : Sound s) (hforce : InForce s) (hafter : After s k s') (hk : k ≤ 9) :
    Sound s' ∧ Kept s'.snapshots s.list k := by
  induction hafter with
  | start => exact ⟨h, hforce⟩
  | called op _ hop hreaches hperform ih =>
      obtain ⟨hsound, hkept⟩ := ih (by omega)
      obtain ⟨hquiet, hrollback⟩ := not_quiet_of_call hop
      have hchanged := changed_perform hsound hreaches hquiet hrollback
      rw [hperform] at hchanged
      refine ⟨hchanged.sound hsound, ?_⟩
      cases hchanged with
      | noted s₁ hsound₁ hsnapshots =>
          rw [(snapshots_snapshotConfig hsound₁).2, hsnapshots]
          refine kept_push hkept ?_ (by omega) s₁.list
          rw [length_snapshots]
          exact hsound.length
  | rejected op _ hperform ih =>
      have hsame := rejected_perform (congrArg Prod.snd hperform)
      rw [hperform] at hsame
      dsimp only at hsame
      rw [hsame]
      exact ih hk
  | quiet op _ hop hreaches ih =>
      obtain ⟨hsound, hkept⟩ := ih hk
      rw [(list_quiet hsound hop).2]
      exact ⟨sound_perform hsound hreaches, hkept⟩
  | assigned r c _ hr ih =>
      obtain ⟨hsound, hkept⟩ := ih hk
      rw [snapshots_assign hsound hr c]
      exact ⟨sound_assign hsound r c, hkept⟩

/-- What a rollback does for a state: it undoes the last calls, twice is once by the sum, a
rejected operation changes nothing, and no snapshot changes with an object that others can
reach. -/
structure Undoes (s : State ρ) : Prop where
  undo : ∀ k s', After s k s' → 1 ≤ k → k ≤ 9 →
    ∃ s'', s'.rollback k = (s'', none) ∧ s''.list = s.list
  twice : ∀ a b : Nat, 1 ≤ a → 1 ≤ b → ∀ s', s.rollback a = (s', none) →
    (s'.rollback b).2 = (s.rollback (a + b)).2 ∧
      ((s'.rollback b).2 = none →
        (s'.rollback b).1.list = (s.rollback (a + b)).1.list ∧
          (s'.rollback b).1.snapshots = (s.rollback (a + b)).1.snapshots)
  rejected : ∀ op error, (perform s op).2 = some error → (perform s op).1 = s
  inPlace : ∀ r ∈ s.shared, ∀ c, (s.assign r c).snapshots = s.snapshots

theorem twice_rollback
    {a b : Nat} (h : Sound s) (ha : 1 ≤ a) (hb : 1 ≤ b) (hfirst : s.rollback a = (s', none)) :
    (s'.rollback b).2 = (s.rollback (a + b)).2 ∧
      ((s'.rollback b).2 = none →
        (s'.rollback b).1.list = (s.rollback (a + b)).1.list ∧
          (s'.rollback b).1.snapshots = (s.rollback (a + b)).1.snapshots) := by
  have hspec := rollback_spec h ha
  cases hback : Snapshots.back 10 s.snapshots a with
  | none =>
      rw [hback, hfirst] at hspec
      cases hspec
  | some r =>
      rw [hback, hfirst] at hspec
      obtain ⟨s₁, hs₁, hlist, hsnapshots⟩ := hspec
      obtain rfl := congrArg Prod.fst hs₁
      have hsound : Sound s' := by
        have := sound_rollback h a
        rwa [hfirst] at this
      have hlength : s.snapshots.length ≤ 10 := length_snapshots s ▸ h.length
      have hsum := back_back hlength hb hback
      have hsecond := rollback_spec hsound hb
      have hboth := rollback_spec h (k := a + b) (by omega)
      rw [hsnapshots, hsum] at hsecond
      push_cast at hboth
      cases hback' : Snapshots.back 10 s.snapshots (a + b) with
      | none =>
          rw [hback'] at hsecond hboth
          rw [hsecond, hboth]
          refine ⟨rfl, ?_⟩
          rintro ⟨⟩
      | some r' =>
          rw [hback'] at hsecond hboth
          obtain ⟨s₂, hs₂, hlist₂, hsnapshots₂⟩ := hsecond
          obtain ⟨s₃, hs₃, hlist₃, hsnapshots₃⟩ := hboth
          rw [hs₂, hs₃]
          exact ⟨rfl, fun _ => ⟨hlist₂.trans hlist₃.symm, hsnapshots₂.trans hsnapshots₃.symm⟩⟩

variable [Inhabited ρ]

theorem sound_blank
    (configs : List (PluginConfig ρ)) :
    Sound (blank configs) := by
  refine ⟨fun r hr => List.mem_range.mp hr, ?_, ?_, ?_, ?_, Nat.zero_le _⟩
  · rintro r ⟨⟩
  · rintro chat e ⟨⟩
  · rintro key r ⟨⟩
  · rintro refs ⟨⟩

theorem init_sound
    (configs : List (PluginConfig ρ)) :
    Sound (init configs) ∧ InForce (init configs) := by
  have hlisted := sound_reconfigured (sound_blank configs) fun r hr => hr
  exact ⟨sound_snapshotConfig hlisted, inForce_snapshotConfig hlisted⟩

theorem reach_sound
    {configs : List (PluginConfig ρ)}
    (h : Reach step (fun _ _ => True) (init configs) s) :
    Sound s ∧ InForce s := by
  refine h.invariant (P := fun s => Sound s ∧ InForce s) (init_sound configs) ?_
  intro s₁ op s₂ hinv _ hstep
  unfold step at hstep
  split_ifs at hstep with hreaches
  obtain rfl := Option.some.inj hstep
  exact ⟨sound_perform hinv.1 hreaches, inForce_perform hinv.1 hinv.2 hreaches⟩

end Runs

section Results

variable [Inhabited ρ]

/-- **Undo.**  For every list of plugins and every run of the manager, rolling back by `k`
restores the list that was in force before the last `k` calls, if its snapshot is kept, that
is for up to nine of them. -/
theorem rollback_undoes
    (configs : List (PluginConfig ρ)) (s : State ρ)
    (h : Reach step (fun _ _ => True) (init configs) s) :
    Undoes s := by
  obtain ⟨hsound, hforce⟩ := reach_sound h
  refine ⟨fun k s' hafter hk hle => ?_, fun a b ha hb s' => twice_rollback hsound ha hb,
    fun op error => rejected_perform, fun r hr c => snapshots_assign hsound hr c⟩
  obtain ⟨hsound', hkept⟩ := kept_after hsound hforce hafter hle
  obtain ⟨history, hback⟩ := back_of_kept hkept
  have hspec := rollback_spec hsound' hk
  rw [hback] at hspec
  obtain ⟨s'', hs'', hlist, -⟩ := hspec
  exact ⟨s'', hs'', hlist⟩

def continuity : PluginConfig Unit :=
  { name := "continuity"
    enabled := true
    promptOrder := 100
    rest := () }

/-- A second plugin is added and disabled. -/
def plannerRun : List (Op Unit) :=
  [.create { continuity with name := "planner" }, .add 2, .toggle "planner" false]

theorem rollback_undoes_plannerRun :
    ∃ s, run step (init [continuity]) plannerRun = some s ∧
      (s.rollback 1).1.list = [continuity, { continuity with name := "planner" }] ∧
      (s.rollback 2).1.list = [continuity] ∧ Undoes s := by
  have hout : (run step (init [continuity]) plannerRun).map
      (fun s => ((s.rollback 1).1.list, (s.rollback 2).1.list)) =
      some ([continuity, { continuity with name := "planner" }], [continuity]) := by
    decide +kernel
  obtain ⟨s, hrun, hs⟩ := Option.map_eq_some_iff.mp hout
  simp only [Prod.mk.injEq] at hs
  exact ⟨s, hrun, hs.1, hs.2, rollback_undoes _ s (reach_of_run_free hrun)⟩

/-- A plugin is disabled again and again. -/
def disabledAgain : Nat → State Unit
  | 0 => init [continuity]
  | n + 1 => (perform (disabledAgain n) (.toggle "continuity" false)).1

/-- After ten calls the ten snapshots are those of the calls, and none shows the list before
them. -/
theorem ten_calls_not_undone :
    After (init [continuity]) 10 (disabledAgain 10) ∧ (disabledAgain 10).history.length = 10 ∧
      ((disabledAgain 10).rollback 10).2 = some "No earlier configuration to roll back to" ∧
      ((disabledAgain 10).rollback 10).1.list ≠ (init [continuity]).list := by
  have hcalls : ∀ n < 10,
      (perform (disabledAgain n) (.toggle "continuity" false)).2 = none := by
    decide +kernel
  have hafter : ∀ n ≤ 10, After (init [continuity]) n (disabledAgain n) := by
    intro n hn
    induction n with
    | zero => exact .start
    | succ n ih =>
        refine .called (.toggle "continuity" false) (ih (by omega)) rfl rfl ?_
        exact Prod.ext rfl (hcalls n (by omega))
  exact ⟨hafter 10 (Nat.le_refl _), by decide +kernel, by decide +kernel, by decide +kernel⟩

end Results

end Plugins
end DiploidAgent
