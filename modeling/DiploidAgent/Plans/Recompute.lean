import DiploidAgent.Plans.Scheduling

/-!
# What the recomputation computes

`_resolve_statuses` says of itself that it recomputes PENDING, BLOCKED and READY
from the dependencies.  `expected` is that function of the dependency graph and
the RUNNING and ended statuses.  The loop has no way back to PENDING, so the
stored BLOCKED labels leak into its result; `final_blocked_iff` says exactly
which tasks it leaves BLOCKED, and `resolveTasks_recomputed_iff` when the result
is the expected one.
-/

namespace DiploidAgent
namespace Plans

open Sweep Runs

section Spec

/-- Every dependency exists and is DONE or INCOMPLETE. -/
def DepsDone (ts : List Task) (t : Task) : Prop :=
  ∀ d, d ∈ t.dependsOn → ∃ u, u ∈ ts ∧ u.id = d ∧ u.status.isDone = true

/-- A dependency is missing or FAILED. -/
def DirectlyBroken (ts : List Task) (t : Task) : Prop :=
  ∃ d, d ∈ t.dependsOn ∧ (d ∉ taskIds ts ∨ ∃ u, u ∈ ts ∧ u.id = d ∧ u.status = .failed)

/-- The task depends, through tasks that have not ended, on a missing id or a
FAILED task. -/
inductive Broken (ts : List Task) : Task → Prop
  | direct {t : Task} (h : DirectlyBroken ts t) : Broken ts t
  | through {t u : Task} (hu : u ∈ ts) (hdep : u.id ∈ t.dependsOn)
      (hopen : u.status.isTerminal = false) (h : Broken ts u) : Broken ts t

open Classical in
/-- The status of a task that is not running and has not ended, as a function
of the graph and of the other statuses. -/
noncomputable def expected (ts : List Task) (t : Task) : TaskStatus :=
  if Broken ts t then .blocked else if DepsDone ts t then .ready else .pending

/-- Every task that is not running and has not ended has its expected status. -/
def Recomputed (ts : List Task) : Prop :=
  ∀ t, t ∈ ts → t.status.isWaiting = true → t.status = expected ts t

/-- The dependency relation has no cycle. -/
def Acyclic (ts : List Task) : Prop :=
  ∃ rank : String → Nat, ∀ t, t ∈ ts → ∀ d, d ∈ t.dependsOn → rank d < rank t.id

/-- What `expected` may look at in one task. -/
def shape (t : Task) : String × List String × Option TaskStatus :=
  (t.id, t.dependsOn, if t.status.isWaiting then none else some t.status)

/-- Two lists with the same graph and the same statuses outside the waiting
ones, in any order. -/
def SameShape (ts ts' : List Task) : Prop :=
  (∀ t, t ∈ ts → ∃ t', t' ∈ ts' ∧ shape t = shape t') ∧
    ∀ t', t' ∈ ts' → ∃ t, t ∈ ts ∧ shape t = shape t'

variable {ts ts' : List Task} {t t' u u' : Task}

theorem SameShape.symm (h : SameShape ts ts') : SameShape ts' ts := by
  refine ⟨fun t ht => ?_, fun t ht => ?_⟩
  · obtain ⟨t', ht', hs⟩ := h.2 t ht
    exact ⟨t', ht', hs.symm⟩
  · obtain ⟨t', ht', hs⟩ := h.1 t ht
    exact ⟨t', ht', hs.symm⟩

theorem shape_id (h : shape t = shape t') : t.id = t'.id :=
  congrArg (fun p => p.1) h

theorem shape_dependsOn (h : shape t = shape t') : t.dependsOn = t'.dependsOn :=
  congrArg (fun p => p.2.1) h

/-- Equal shapes have the same status or are both waiting. -/
theorem shape_status
    (h : shape t = shape t') :
    t.status = t'.status ∨ (t.status.isWaiting = true ∧ t'.status.isWaiting = true) := by
  have hs : (if t.status.isWaiting then none else some t.status) =
      if t'.status.isWaiting then none else some t'.status := congrArg (fun p => p.2.2) h
  cases hw : t.status.isWaiting <;> cases hw' : t'.status.isWaiting <;>
    simp_all

theorem shape_isDone (h : shape t = shape t') : t.status.isDone = t'.status.isDone := by
  rcases shape_status h with hs | ⟨hw, hw'⟩
  · rw [hs]
  · have hfalse : ∀ s : TaskStatus, s.isWaiting = true → s.isDone = false := by
      intro s hs
      cases s <;> first | rfl | cases hs
    rw [hfalse _ hw, hfalse _ hw']

theorem isTerminal_eq_false_of_isWaiting
    {s : TaskStatus}
    (h : s.isWaiting = true) :
    s.isTerminal = false := by
  cases s <;> first | rfl | cases h

theorem shape_isTerminal
    (h : shape t = shape t') :
    t.status.isTerminal = t'.status.isTerminal := by
  rcases shape_status h with hs | ⟨hw, hw'⟩
  · rw [hs]
  · rw [isTerminal_eq_false_of_isWaiting hw, isTerminal_eq_false_of_isWaiting hw']

theorem DepsDone.congr
    (h : SameShape ts ts') (hst : shape t = shape t')
    (hd : DepsDone ts t) :
    DepsDone ts' t' := by
  intro d hmem
  obtain ⟨u, hu, rfl, hdone⟩ := hd d (by rw [shape_dependsOn hst]; exact hmem)
  obtain ⟨u', hu', hs⟩ := h.1 u hu
  exact ⟨u', hu', (shape_id hs).symm, by rw [← shape_isDone hs, hdone]⟩

theorem DirectlyBroken.congr
    (h : SameShape ts ts') (hst : shape t = shape t')
    (hd : DirectlyBroken ts t) :
    DirectlyBroken ts' t' := by
  obtain ⟨d, hmem, hd⟩ := hd
  refine ⟨d, by rw [← shape_dependsOn hst]; exact hmem, ?_⟩
  rcases hd with hmiss | ⟨u, hu, rfl, hfail⟩
  · refine Or.inl fun hin => ?_
    obtain ⟨u', hu', rfl⟩ := List.mem_map.mp hin
    obtain ⟨u, hu, hs⟩ := h.2 u' hu'
    exact hmiss (List.mem_map.mpr ⟨u, hu, shape_id hs⟩)
  · obtain ⟨u', hu', hs⟩ := h.1 u hu
    refine Or.inr ⟨u', hu', (shape_id hs).symm, ?_⟩
    rcases shape_status hs with heq | ⟨hw, _⟩
    · rw [← heq, hfail]
    · rw [hfail] at hw
      cases hw

theorem Broken.congr
    (h : SameShape ts ts') (hst : shape t = shape t')
    (hb : Broken ts t) :
    Broken ts' t' := by
  induction hb generalizing t' with
  | direct hd => exact .direct (hd.congr h hst)
  | through hu hdep hopen _ ih =>
      obtain ⟨u', hu', hs⟩ := h.1 _ hu
      refine .through hu' ?_ ?_ (ih hs)
      · rw [← shape_id hs, ← shape_dependsOn hst]
        exact hdep
      · rw [← shape_isTerminal hs]
        exact hopen

open Classical in
/-- The expected status depends on the graph and the statuses outside the
waiting ones only; the order of the list plays no role. -/
theorem expected_congr
    (h : SameShape ts ts') (hst : shape t = shape t') :
    expected ts t = expected ts' t' := by
  have hb : Broken ts t ↔ Broken ts' t' :=
    ⟨Broken.congr h hst, Broken.congr h.symm hst.symm⟩
  have hd : DepsDone ts t ↔ DepsDone ts' t' :=
    ⟨DepsDone.congr h hst, DepsDone.congr h.symm hst.symm⟩
  unfold expected
  exact if_congr hb rfl (if_congr hd rfl rfl)

/-- A task with a missing or FAILED dependency, or one that has not ended, does
not have its dependencies done. -/
theorem DepsDone.not_directlyBroken
    (hnd : (taskIds ts).Nodup)
    (h : DepsDone ts t) :
    ¬ DirectlyBroken ts t := by
  rintro ⟨d, hd, hbad⟩
  obtain ⟨u, hu, rfl, hdone⟩ := h d hd
  rcases hbad with hmiss | ⟨v, hv, hid, hfail⟩
  · exact hmiss (List.mem_map.mpr ⟨u, hu, rfl⟩)
  · obtain rfl := eq_of_mem_of_id_eq hnd hv hu hid
    rw [hfail] at hdone
    cases hdone

theorem DepsDone.isDone_of_dep
    (hnd : (taskIds ts).Nodup)
    (h : DepsDone ts t)
    (hu : u ∈ ts) (hdep : u.id ∈ t.dependsOn) :
    u.status.isDone = true := by
  obtain ⟨v, hv, hid, hdone⟩ := h u.id hdep
  obtain rfl := eq_of_mem_of_id_eq hnd hv hu hid
  exact hdone

theorem Broken.not_depsDone
    (hnd : (taskIds ts).Nodup)
    (h : Broken ts t) :
    ¬ DepsDone ts t := by
  intro hd
  cases h with
  | direct hb => exact hd.not_directlyBroken hnd hb
  | through hu hdep hopen _ =>
      have hdone := hd.isDone_of_dep hnd hu hdep
      rw [TaskStatus.isTerminal_of_isDone hdone] at hopen
      cases hopen

theorem expected_eq_blocked_iff : expected ts t = .blocked ↔ Broken ts t := by
  unfold expected
  split_ifs <;> simp_all

theorem expected_eq_ready_iff
    (hnd : (taskIds ts).Nodup) :
    expected ts t = .ready ↔ DepsDone ts t := by
  unfold expected
  split_ifs with hb hd
  · simpa using hb.not_depsDone hnd
  · simpa using hd
  · simpa using hd

end Spec

section Labels

/-- Stored BLOCKED and not ready: the loop never moves such a task. -/
def StaleBlocked (ts : List Task) (t : Task) : Prop :=
  t.status = .blocked ∧ ¬ DepsDone ts t

/-- A dependency listed after the task is stored BLOCKED: the first pass meets
the task before it has looked at that dependency. -/
def LaterBlocked (ts : List Task) (t : Task) : Prop :=
  ∃ us vs, ts = us ++ t :: vs ∧
    ∃ u, u ∈ vs ∧ u.id ∈ t.dependsOn ∧ u.status = .blocked

/-- The stored labels alone make the loop leave the task BLOCKED. -/
def Held (ts : List Task) (t : Task) : Prop :=
  StaleBlocked ts t ∨ LaterBlocked ts t

/-- The turn of the loop at `t` finds a missing, FAILED or BLOCKED dependency. -/
def Sees (ts : List Task) (m : StatusMap) (t : Task) : Prop :=
  DirectlyBroken ts t ∨ ∃ u, u ∈ ts ∧ u.id ∈ t.dependsOn ∧ m u.id = some .blocked

/-- As `Sees`, and the BLOCKED dependency is there to stay. -/
def Caused (ts : List Task) (m : StatusMap) (t : Task) : Prop :=
  DirectlyBroken ts t ∨
    ∃ u, u ∈ ts ∧ u.id ∈ t.dependsOn ∧ ¬ DepsDone ts u ∧ m u.id = some .blocked

variable {ts : List Task} {m : StatusMap} {t u : Task}

/-- A task's label is its stored status, or both are waiting. -/
theorem label_of_agrees
    (hnd : (taskIds ts).Nodup)
    (hag : Agrees (statusMap ts) m)
    (ht : t ∈ ts) :
    m t.id = some t.status ∨
      ∃ s, m t.id = some s ∧ s.isWaiting = true ∧ t.status.isWaiting = true := by
  have hsync := statusMap_synced hnd t ht
  rcases hag t.id with heq | ⟨s, s', hs, hs', hw, hw'⟩
  · exact Or.inl (by rw [heq, hsync])
  · rw [hsync, Option.some.injEq] at hs
    subst hs
    exact Or.inr ⟨s', hs', hw', hw⟩

theorem label_of_not_waiting
    (hnd : (taskIds ts).Nodup)
    (hag : Agrees (statusMap ts) m)
    (ht : t ∈ ts)
    (hw : t.status.isWaiting = false) :
    m t.id = some t.status := by
  rcases label_of_agrees hnd hag ht with h | ⟨_, _, _, htrue⟩
  · exact h
  · rw [hw] at htrue
    cases htrue

theorem isWaiting_of_label
    (hnd : (taskIds ts).Nodup)
    (hag : Agrees (statusMap ts) m)
    (ht : t ∈ ts)
    {s : TaskStatus}
    (hs : m t.id = some s) (hw : s.isWaiting = true) :
    t.status.isWaiting = true := by
  rcases label_of_agrees hnd hag ht with h | ⟨_, _, _, htrue⟩
  · rw [h, Option.some.injEq] at hs
    rw [hs, hw]
  · exact htrue

/-- The READY test of the loop is `DepsDone`. -/
theorem depsDone_iff
    (hnd : (taskIds ts).Nodup)
    (hag : Agrees (statusMap ts) m) :
    depsDone (taskIds ts) m t.dependsOn = true ↔ DepsDone ts t := by
  rw [depsDone_of_agrees (taskIds ts) hag]
  constructor
  · intro h d hd
    obtain ⟨_, s, hs, hdone⟩ := done_of_depsDone h hd
    obtain ⟨u, hu, hid, rfl⟩ := exists_task_of_statusMap hnd hs
    exact ⟨u, hu, hid, hdone⟩
  · intro h
    have hmiss : anyMissing (taskIds ts) t.dependsOn = false := by
      refine List.any_eq_false.mpr fun d hd => ?_
      obtain ⟨u, hu, rfl, _⟩ := h d hd
      have : u.id ∈ taskIds ts := List.mem_map.mpr ⟨u, hu, rfl⟩
      simpa using this
    have hall : (depStatuses (taskIds ts) (statusMap ts) t.dependsOn).all
        (fun s => s == some .done || s == some .incomplete) = true := by
      refine List.all_eq_true.mpr fun s hs => ?_
      obtain ⟨d, hd, rfl⟩ := List.mem_map.mp hs
      obtain ⟨u, hu, rfl, hdone⟩ := h d (List.mem_filter.mp hd).1
      rw [statusMap_synced hnd u hu]
      cases hst : u.status <;> simp_all [TaskStatus.isDone]
    simp [depsDone, allDone, hall, hmiss]

/-- The BLOCKED test of the loop is `Sees`. -/
theorem blocks_iff
    (hnd : (taskIds ts).Nodup)
    (hag : Agrees (statusMap ts) m) :
    (anyMissing (taskIds ts) t.dependsOn || anyFailed (taskIds ts) m t.dependsOn) = true ↔
      Sees ts m t := by
  rw [Bool.or_eq_true]
  constructor
  · rintro (h | h)
    · obtain ⟨d, hd, hmiss⟩ := List.any_eq_true.mp h
      exact Or.inl ⟨d, hd, Or.inl (by simpa using hmiss)⟩
    · obtain ⟨s, hs, hbad⟩ := List.any_eq_true.mp h
      obtain ⟨d, hd, rfl⟩ := List.mem_map.mp hs
      obtain ⟨hd, hmem⟩ := List.mem_filter.mp hd
      obtain ⟨u, hu, rfl⟩ := List.mem_map.mp (by simpa using hmem : d ∈ taskIds ts)
      simp only [Bool.or_eq_true, beq_iff_eq] at hbad
      rcases hbad with hfail | hblocked
      · refine Or.inl ⟨u.id, hd, Or.inr ⟨u, hu, rfl, ?_⟩⟩
        rcases label_of_agrees hnd hag hu with heq | ⟨s, hs, hw, _⟩
        · rw [heq, Option.some.injEq] at hfail
          exact hfail
        · rw [hfail, Option.some.injEq] at hs
          rw [← hs] at hw
          cases hw
      · exact Or.inr ⟨u, hu, hd, hblocked⟩
  · rintro (⟨d, hd, hmiss | ⟨u, hu, rfl, hfail⟩⟩ | ⟨u, hu, hd, hblocked⟩)
    · exact Or.inl (List.any_eq_true.mpr ⟨d, hd, by simpa using hmiss⟩)
    · have hlabel := label_of_not_waiting hnd hag hu (by rw [hfail]; rfl)
      have hmem : u.id ∈ taskIds ts := List.mem_map.mpr ⟨u, hu, rfl⟩
      refine Or.inr (List.any_eq_true.mpr ⟨m u.id, ?_, by rw [hlabel, hfail]; rfl⟩)
      exact List.mem_map.mpr ⟨u.id, List.mem_filter.mpr ⟨hd, by simpa using hmem⟩, rfl⟩
    · have hmem : u.id ∈ taskIds ts := List.mem_map.mpr ⟨u, hu, rfl⟩
      refine Or.inr (List.any_eq_true.mpr ⟨m u.id, ?_, by rw [hblocked]; rfl⟩)
      exact List.mem_map.mpr ⟨u.id, List.mem_filter.mpr ⟨hd, by simpa using hmem⟩, rfl⟩

theorem DepsDone.not_sees
    (hnd : (taskIds ts).Nodup)
    (hag : Agrees (statusMap ts) m)
    (h : DepsDone ts t) :
    ¬ Sees ts m t := by
  rintro (hd | ⟨u, hu, hdep, hblocked⟩)
  · exact h.not_directlyBroken hnd hd
  · have hdone := h.isDone_of_dep hnd hu hdep
    have hlabel := label_of_not_waiting hnd hag hu
      (TaskStatus.isWaiting_eq_false_of_isDone hdone)
    rw [hblocked, Option.some.injEq] at hlabel
    rw [← hlabel] at hdone
    cases hdone

theorem Held.not_depsDone
    (hnd : (taskIds ts).Nodup)
    (h : Held ts t) :
    ¬ DepsDone ts t := by
  rcases h with hstale | ⟨us, vs, rfl, u, hu, hdep, hblocked⟩
  · exact hstale.2
  · intro hd
    have hdone := hd.isDone_of_dep hnd (by simp [hu]) hdep
    rw [hblocked] at hdone
    cases hdone

section Turn

/-- What one turn of the loop does to the label of a waiting task. -/
theorem turn_cases
    (hnd : (taskIds ts).Nodup)
    (hag : Agrees (statusMap ts) m)
    (ht : t ∈ ts)
    (hw : t.status.isWaiting = true) :
    (Sees ts m t ∧
      nextStatus (taskIds ts) m (t.id, t.dependsOn) = some .blocked) ∨
    (DepsDone ts t ∧
      nextStatus (taskIds ts) m (t.id, t.dependsOn) = some .ready) ∨
    (¬ Sees ts m t ∧ ¬ DepsDone ts t ∧
      nextStatus (taskIds ts) m (t.id, t.dependsOn) = m t.id) := by
  obtain ⟨s, hs, hsw⟩ : ∃ s, m t.id = some s ∧ s.isWaiting = true := by
    rcases label_of_agrees hnd hag ht with h | ⟨s, hs, hsw, _⟩
    · exact ⟨_, h, hw⟩
    · exact ⟨s, hs, hsw⟩
  rw [← blocks_iff hnd hag, ← depsDone_iff hnd hag]
  simp only [nextStatus, hs, Option.map_some, resolved, if_pos hsw]
  split_ifs with hbad hdone
  · exact Or.inl ⟨hbad, rfl⟩
  · exact Or.inr (Or.inl ⟨hdone, rfl⟩)
  · exact Or.inr (Or.inr ⟨hbad, hdone, rfl⟩)

/-- A task labelled BLOCKED stays so unless its dependencies are done. -/
theorem blocked_visit
    (hnd : (taskIds ts).Nodup)
    (hag : Agrees (statusMap ts) m)
    (ht : t ∈ ts) (hu : u ∈ ts)
    (hopen : ¬ DepsDone ts u)
    (hblocked : m u.id = some .blocked) :
    visit Prod.fst (nextStatus (taskIds ts)) m (t.id, t.dependsOn) u.id = some .blocked := by
  rcases eq_or_ne u.id t.id with hid | hne
  · obtain rfl := eq_of_mem_of_id_eq hnd hu ht hid
    have hw := isWaiting_of_label hnd hag hu hblocked rfl
    rw [visit_self (m := m) (x := ((u.id, u.dependsOn) : Node))]
    rcases turn_cases hnd hag hu hw with ⟨_, h⟩ | ⟨h, _⟩ | ⟨_, _, h⟩
    · exact h
    · exact absurd h hopen
    · rw [h, hblocked]
  · have hne' : u.id ≠ Prod.fst ((t.id, t.dependsOn) : Node) := hne
    rw [visit_of_ne m hne']
    exact hblocked

theorem Caused.turn
    (hnd : (taskIds ts).Nodup)
    (hag : Agrees (statusMap ts) m)
    (ht : t ∈ ts)
    (h : Caused ts m u) :
    Caused ts (visit Prod.fst (nextStatus (taskIds ts)) m (t.id, t.dependsOn)) u := by
  rcases h with hd | ⟨v, hv, hdep, hopen, hblocked⟩
  · exact Or.inl hd
  · exact Or.inr ⟨v, hv, hdep, hopen, blocked_visit hnd hag ht hv hopen hblocked⟩

end Turn

section Sweeps

/-- The label of a waiting task that had its turn. -/
structure Labelled (ts : List Task) (m : StatusMap) (t : Task) : Prop where
  ready : DepsDone ts t → m t.id = some .ready
  held : Held ts t → m t.id = some .blocked
  source : m t.id = some .blocked → Held ts t ∨ Caused ts m t
  kept : ¬ DepsDone ts t → m t.id = some .blocked ∨ m t.id = some t.status

/-- A turn of another task keeps the label and its justification. -/
theorem Labelled.visit_other
    (hnd : (taskIds ts).Nodup)
    (hag : Agrees (statusMap ts) m)
    (ht : t ∈ ts)
    (hne : u.id ≠ t.id)
    (h : Labelled ts m u) :
    Labelled ts (visit Prod.fst (nextStatus (taskIds ts)) m (t.id, t.dependsOn)) u := by
  have hne' : u.id ≠ Prod.fst ((t.id, t.dependsOn) : Node) := hne
  have hsame : visit Prod.fst (nextStatus (taskIds ts)) m (t.id, t.dependsOn) u.id = m u.id :=
    visit_of_ne m hne'
  refine ⟨fun hd => ?_, fun hh => ?_, fun hb => ?_, fun hd => ?_⟩
  · rw [hsame]
    exact h.ready hd
  · rw [hsame]
    exact h.held hh
  · rw [hsame] at hb
    exact (h.source hb).imp id fun hc => hc.turn hnd hag ht
  · rw [hsame]
    exact h.kept hd

/-- The task's own turn. -/
theorem labelled_visit_self
    (hnd : (taskIds ts).Nodup)
    (hag : Agrees (statusMap ts) m)
    (ht : t ∈ ts)
    (hw : t.status.isWaiting = true)
    (hdep : ∀ u, u ∈ ts → u.id ∈ t.dependsOn → m u.id = some .blocked →
      Held ts t ∨ ¬ DepsDone ts u)
    (hheld : Held ts t → m t.id = some .blocked ∨ Sees ts m t)
    (hown : ¬ DepsDone ts t → m t.id = some .blocked → Held ts t ∨ Caused ts m t)
    (hkept : ¬ DepsDone ts t → m t.id = some .blocked ∨ m t.id = some t.status) :
    Labelled ts (visit Prod.fst (nextStatus (taskIds ts)) m (t.id, t.dependsOn)) t := by
  have hself : visit Prod.fst (nextStatus (taskIds ts)) m (t.id, t.dependsOn) t.id =
      nextStatus (taskIds ts) m (t.id, t.dependsOn) :=
    visit_self m ((t.id, t.dependsOn) : Node)
  have hcause : Caused ts m t → Held ts t ∨ Caused ts
      (visit Prod.fst (nextStatus (taskIds ts)) m (t.id, t.dependsOn)) t :=
    fun hc => Or.inr (hc.turn hnd hag ht)
  rcases turn_cases hnd hag ht hw with ⟨hsee, hnext⟩ | ⟨hdone, hnext⟩ | ⟨hsee, hopen, hnext⟩
  · have hopen : ¬ DepsDone ts t := fun hd => hd.not_sees hnd hag hsee
    rw [← hself] at hnext
    refine ⟨fun hd => absurd hd hopen, fun _ => hnext, fun _ => ?_, fun _ => Or.inl hnext⟩
    rcases hsee with hd | ⟨u, hu, hmem, hblocked⟩
    · exact Or.inr (Or.inl hd)
    · rcases hdep u hu hmem hblocked with hh | hu'
      · exact Or.inl hh
      · exact hcause (Or.inr ⟨u, hu, hmem, hu', hblocked⟩)
  · rw [← hself] at hnext
    refine ⟨fun _ => hnext, fun hh => absurd hdone (hh.not_depsDone hnd), fun hb => ?_,
      fun hd => absurd hdone hd⟩
    rw [hnext] at hb
    cases hb
  · rw [← hself] at hnext
    refine ⟨fun hd => absurd hd hopen, fun hh => ?_, fun hb => ?_, fun hd => ?_⟩
    · rw [hnext]
      exact (hheld hh).resolve_right hsee
    · rw [hnext] at hb
      exact (hown hopen hb).elim Or.inl hcause
    · rw [hnext]
      exact hkept hd

/-- After `us` had their turn in the first pass, and before the turn of `vs`. -/
structure FirstPass (ts : List Task) (m : StatusMap) (us vs : List Task) : Prop where
  agrees : Agrees (statusMap ts) m
  visited : ∀ u, u ∈ us → u.status.isWaiting = true → Labelled ts m u
  todo : ∀ v, v ∈ vs → m v.id = some v.status

theorem laterBlocked_dep
    {us vs : List Task}
    (hnd : (taskIds (us ++ t :: vs)).Nodup)
    (h : LaterBlocked (us ++ t :: vs) t) :
    ∃ u, u ∈ vs ∧ u.id ∈ t.dependsOn ∧ u.status = .blocked := by
  obtain ⟨us', vs', heq, hu⟩ := h
  have hnd' : (us ++ t :: vs).Nodup := List.Nodup.of_map _ hnd
  have hus : t ∉ us := fun hmem =>
    (List.disjoint_of_nodup_append hnd') hmem (by simp)
  have hvs : t ∉ vs := (List.nodup_cons.mp hnd'.of_append_right).1
  obtain ⟨_, _, rfl⟩ := (List.append_cons_inj_of_notMem hus hvs).mp heq
  exact hu

/-- One turn of the first pass. -/
theorem FirstPass.turn
    {us vs : List Task}
    (hnd : (taskIds ts).Nodup)
    (hall : ts = us ++ t :: vs)
    (h : FirstPass ts m us (t :: vs)) :
    FirstPass ts (visit Prod.fst (nextStatus (taskIds ts)) m (t.id, t.dependsOn))
      (us ++ [t]) vs := by
  have ht : t ∈ ts := by simp [hall]
  have hne : ∀ u, u ∈ us ∨ u ∈ vs → u.id ≠ t.id := by
    intro u hu hid
    have hu' : u ∈ ts := by rcases hu with hu | hu <;> simp [hall, hu]
    obtain rfl := eq_of_mem_of_id_eq hnd hu' ht hid
    have hnd' : (us ++ u :: vs).Nodup := List.Nodup.of_map _ (hall ▸ hnd)
    rcases hu with hu | hu
    · exact (List.disjoint_of_nodup_append hnd') hu (by simp)
    · exact (List.nodup_cons.mp hnd'.of_append_right).1 hu
  refine ⟨agrees_visit _ h.agrees, fun u hu hw => ?_, fun v hv => ?_⟩
  · rcases List.mem_append.mp hu with hu | hu
    · exact (h.visited u hu hw).visit_other hnd h.agrees ht (hne u (Or.inl hu))
    · obtain rfl := List.mem_singleton.mp hu
      have hown : m u.id = some u.status := h.todo u (by simp)
      refine labelled_visit_self hnd h.agrees ht hw ?_ ?_ ?_ (fun _ => Or.inr hown)
      · intro v hv hdep hblocked
        rcases List.mem_append.mp (hall ▸ hv) with hvus | hvvs
        · refine Or.inr fun hdone => ?_
          have hwv := isWaiting_of_label hnd h.agrees hv hblocked rfl
          rw [(h.visited v hvus hwv).ready hdone] at hblocked
          cases hblocked
        · rcases List.mem_cons.mp hvvs with rfl | hvvs
          · exact Or.inr fun hdone =>
              hdone.not_sees hnd h.agrees (Or.inr ⟨v, hv, hdep, hblocked⟩)
          · have hst := h.todo v (List.mem_cons_of_mem _ hvvs)
            rw [hblocked, Option.some.injEq] at hst
            exact Or.inl (Or.inr ⟨us, vs, hall, v, hvvs, hdep, hst.symm⟩)
      · rintro (hstale | hlater)
        · exact Or.inl (by rw [hown, hstale.1])
        · subst hall
          obtain ⟨v, hv, hdep, hblocked⟩ := laterBlocked_dep hnd hlater
          refine Or.inr (Or.inr ⟨v, by simp [hv], hdep, ?_⟩)
          rw [h.todo v (List.mem_cons_of_mem _ hv), hblocked]
      · intro hopen hblocked
        rw [hown, Option.some.injEq] at hblocked
        exact Or.inl (Or.inl ⟨hblocked, hopen⟩)
  · have hne' : v.id ≠ Prod.fst ((t.id, t.dependsOn) : Node) := hne v (Or.inr hv)
    rw [visit_of_ne m hne']
    exact h.todo v (List.mem_cons_of_mem _ hv)

/-- A turn of a later pass. -/
theorem FirstPass.turn_again
    (hnd : (taskIds ts).Nodup)
    (ht : t ∈ ts)
    (h : FirstPass ts m ts []) :
    FirstPass ts (visit Prod.fst (nextStatus (taskIds ts)) m (t.id, t.dependsOn)) ts [] := by
  refine ⟨agrees_visit _ h.agrees, fun u hu hw => ?_, fun v hv => by simp at hv⟩
  rcases eq_or_ne u.id t.id with hid | hne
  · obtain rfl := eq_of_mem_of_id_eq hnd hu ht hid
    have hu' := h.visited u hu hw
    refine labelled_visit_self hnd h.agrees ht hw ?_ (fun hh => Or.inl (hu'.held hh))
      (fun _ => hu'.source) hu'.kept
    intro v hv _ hblocked
    refine Or.inr fun hdone => ?_
    have hwv := isWaiting_of_label hnd h.agrees hv hblocked rfl
    rw [(h.visited v hv hwv).ready hdone] at hblocked
    cases hblocked
  · exact (h.visited u hu hw).visit_other hnd h.agrees ht hne

/-- All four facts hold of the labels the loop ends with. -/
theorem finalMap_labelled
    (hnd : (taskIds ts).Nodup) :
    FirstPass ts (finalMap ts) ts [] := by
  refine iterate_of_first_sweep (P := fun m => FirstPass ts m ts []) ?_ ?_ (exists_iterate hnd)
  · intro m x hx h
    obtain ⟨t, ht, rfl⟩ := List.mem_map.mp hx
    exact h.turn_again hnd ht
  · refine sweep_prefix (fun m us t vs hall h => h.turn hnd hall) (List.nil_append ts).symm ?_
    exact ⟨Agrees.refl _, fun u hu => by simp at hu, statusMap_synced hnd⟩

end Sweeps

end Labels

section Result

variable {ts : List Task} {t : Task}

/-- The tasks the loop leaves BLOCKED: those whose stored labels hold them
there, those with a missing or FAILED dependency, and those with a dependency
it left BLOCKED. -/
theorem final_blocked_iff
    (hnd : (taskIds ts).Nodup)
    (ht : t ∈ ts)
    (hw : t.status.isWaiting = true) :
    finalMap ts t.id = some .blocked ↔
      Held ts t ∨ DirectlyBroken ts t ∨
        ∃ u, u ∈ ts ∧ u.id ∈ t.dependsOn ∧ finalMap ts u.id = some .blocked := by
  have hfinal := finalMap_labelled hnd
  have hlab := hfinal.visited t ht hw
  constructor
  · intro hb
    rcases hlab.source hb with hh | hd | ⟨u, hu, hdep, _, hblocked⟩
    · exact Or.inl hh
    · exact Or.inr (Or.inl hd)
    · exact Or.inr (Or.inr ⟨u, hu, hdep, hblocked⟩)
  · rintro (hh | hsee)
    · exact hlab.held hh
    · have hsettled := finalMap_settled hnd ht
      rcases turn_cases hnd hfinal.agrees ht hw with ⟨_, hnext⟩ | ⟨hd, _⟩ | ⟨hno, _⟩
      · rw [← hsettled, hnext]
      · exact absurd hsee (hd.not_sees hnd hfinal.agrees)
      · exact absurd hsee hno

theorem sameShape_resolveTasks
    (hnd : (taskIds ts).Nodup) :
    (∀ t, t ∈ ts → shape t = shape { t with status := (finalMap ts t.id).getD t.status }) ∧
      SameShape ts (resolveTasks ts) := by
  have hshape : ∀ t, t ∈ ts →
      shape t = shape { t with status := (finalMap ts t.id).getD t.status } := by
    intro t ht
    obtain ⟨s, hs, hwait, hkeep⟩ := finalMap_of_mem hnd ht
    rw [hs, Option.getD_some]
    cases hw : t.status.isWaiting with
    | true => simp [shape, hwait, hw]
    | false => rw [hkeep hw]
  refine ⟨hshape, fun t ht => ?_, fun t' ht' => ?_⟩
  · exact ⟨_, (mem_resolveTasks hnd).mpr ⟨t, ht, rfl⟩, hshape t ht⟩
  · obtain ⟨t, ht, rfl⟩ := (mem_resolveTasks hnd).mp ht'
    exact ⟨t, ht, hshape t ht⟩

/-- The result is recomputed when the final labels are the expected ones. -/
theorem recomputed_resolveTasks_iff
    (hnd : (taskIds ts).Nodup) :
    Recomputed (resolveTasks ts) ↔
      ∀ t, t ∈ ts → t.status.isWaiting = true → finalMap ts t.id = some (expected ts t) := by
  obtain ⟨hshape, hsame⟩ := sameShape_resolveTasks hnd
  constructor
  · intro h t ht hw
    obtain ⟨s, hs, hwait, _⟩ := finalMap_of_mem hnd ht
    have hmem := (mem_resolveTasks hnd).mpr ⟨t, ht, rfl⟩
    have hexp := h _ hmem (by rw [hs, Option.getD_some, hwait, hw])
    rw [← expected_congr hsame (hshape t ht)] at hexp
    rw [← hexp, hs]
    rfl
  · intro h t' ht' hw'
    obtain ⟨t, ht, rfl⟩ := (mem_resolveTasks hnd).mp ht'
    obtain ⟨s, hs, hwait, _⟩ := finalMap_of_mem hnd ht
    have hw : t.status.isWaiting = true := by
      rw [hs, Option.getD_some, hwait] at hw'
      exact hw'
    rw [← expected_congr hsame (hshape t ht), h t ht hw]
    rfl

/-- The stored labels do not leak into the result of the recomputation.
`held`: a task they hold in BLOCKED belongs there.  `caught`: a task that
belongs there and is not held has a missing or FAILED dependency, or one that
belongs in BLOCKED itself, not only a running one.  `ready`: a task stored READY
has not lost its reason to be READY or BLOCKED. -/
structure Undisturbed (ts : List Task) : Prop where
  held : ∀ t, t ∈ ts → t.status.isWaiting = true → Held ts t → Broken ts t
  caught : ∀ t, t ∈ ts → t.status.isWaiting = true → Broken ts t →
    Held ts t ∨ DirectlyBroken ts t ∨
      ∃ u, u ∈ ts ∧ u.id ∈ t.dependsOn ∧ u.status.isWaiting = true ∧ Broken ts u
  ready : ∀ t, t ∈ ts → t.status = .ready → Broken ts t ∨ DepsDone ts t

/-- On an acyclic graph the loop leaves exactly the broken tasks BLOCKED when
nothing leaks. -/
theorem Undisturbed.final_blocked_iff_broken
    (hnd : (taskIds ts).Nodup)
    (hac : Acyclic ts)
    (h : Undisturbed ts)
    (ht : t ∈ ts)
    (hw : t.status.isWaiting = true) :
    finalMap ts t.id = some .blocked ↔ Broken ts t := by
  obtain ⟨rank, hrank⟩ := hac
  induction hn : rank t.id using Nat.strongRecOn generalizing t with
  | _ n ih =>
      subst hn
      rw [final_blocked_iff hnd ht hw]
      constructor
      · rintro (hh | hd | ⟨u, hu, hdep, hblocked⟩)
        · exact h.held t ht hw hh
        · exact .direct hd
        · have hwu := isWaiting_of_label hnd (finalMap_agrees hnd) hu hblocked rfl
          have hbroken := (ih _ (hrank t ht u.id hdep) hu hwu rfl).mp hblocked
          exact .through hu hdep (isTerminal_eq_false_of_isWaiting hwu) hbroken
      · intro hb
        rcases h.caught t ht hw hb with hh | hd | ⟨u, hu, hdep, hwu, hbu⟩
        · exact Or.inl hh
        · exact Or.inr (Or.inl hd)
        · have hblocked := (ih _ (hrank t ht u.id hdep) hu hwu rfl).mpr hbu
          exact Or.inr (Or.inr ⟨u, hu, hdep, hblocked⟩)

/-- On an acyclic graph the recomputation gives every task its expected status
exactly when no stored label leaks. -/
theorem resolveTasks_recomputed_iff
    (hnd : (taskIds ts).Nodup)
    (hac : Acyclic ts) :
    Recomputed (resolveTasks ts) ↔ Undisturbed ts := by
  rw [recomputed_resolveTasks_iff hnd]
  have hfinal := finalMap_labelled hnd
  constructor
  · intro h
    have hiff : ∀ t, t ∈ ts → t.status.isWaiting = true →
        (finalMap ts t.id = some .blocked ↔ Broken ts t) := by
      intro t ht hw
      rw [h t ht hw, Option.some.injEq, expected_eq_blocked_iff]
    refine ⟨fun t ht hw hh => ?_, fun t ht hw hb => ?_, fun t ht hs => ?_⟩
    · exact (hiff t ht hw).mp ((hfinal.visited t ht hw).held hh)
    · rcases (final_blocked_iff hnd ht hw).mp ((hiff t ht hw).mpr hb) with
        hh | hd | ⟨u, hu, hdep, hblocked⟩
      · exact Or.inl hh
      · exact Or.inr (Or.inl hd)
      · have hwu := isWaiting_of_label hnd hfinal.agrees hu hblocked rfl
        exact Or.inr (Or.inr ⟨u, hu, hdep, hwu, (hiff u hu hwu).mp hblocked⟩)
    · have hw : t.status.isWaiting = true := by rw [hs]; rfl
      rw [← hiff t ht hw, ← expected_eq_ready_iff hnd]
      by_cases hd : DepsDone ts t
      · exact Or.inr ((expected_eq_ready_iff hnd).mpr hd)
      · rcases (hfinal.visited t ht hw).kept hd with hb | hkept
        · exact Or.inl hb
        · rw [h t ht hw, hs, Option.some.injEq] at hkept
          exact Or.inr hkept
  · intro h t ht hw
    have hlab := hfinal.visited t ht hw
    have hiff := h.final_blocked_iff_broken hnd hac ht hw
    by_cases hb : Broken ts t
    · rw [hiff.mpr hb, expected_eq_blocked_iff.mpr hb]
    · by_cases hd : DepsDone ts t
      · rw [hlab.ready hd, (expected_eq_ready_iff hnd).mpr hd]
      · have hpending : t.status = .pending := by
          have hblocked : t.status ≠ .blocked :=
            fun hs => hb (h.held t ht hw (Or.inl ⟨hs, hd⟩))
          have hready : t.status ≠ .ready := fun hs => (h.ready t ht hs).elim hb hd
          cases hs : t.status <;> simp_all [TaskStatus.isWaiting]
        rcases hlab.kept hd with hf | hf
        · exact absurd (hiff.mp hf) hb
        · rw [hf, hpending]
          simp [expected, hb, hd]

end Result

section Calls

/-- The plan a call is about. -/
def Call.planId : Call → String
  | .createPlan planId _ _ _ _ _ => planId
  | .addTask planId _ _ _ => planId
  | .startTask planId _ _ => planId
  | .completeTask planId _ _ _ _ _ => planId
  | .failTask planId _ _ _ _ => planId

theorem setOutcome_get
    {store : Store} {planId taskId : String} {f : Task → Task} {now : Int} {plan : Plan}
    {ts : List Task}
    (hplan : store.get planId = some plan)
    (hts : ((getTaskInPlan plan.tasks taskId).map fun _ => updateTask taskId f plan.tasks) =
      some ts) :
    ∃ plan', (setOutcome store planId taskId f now).1.get planId = some plan' ∧
      plan'.tasks = resolveTasks ts := by
  obtain ⟨task, htask, rfl⟩ := Option.map_eq_some_iff.mp hts
  refine ⟨settlePlan plan (updateTask taskId f plan.tasks) now, ?_, settlePlan_tasks _ _ _⟩
  simp [setOutcome, hplan, htask]

/-- The plan a call stores has the tasks its recomputation left. -/
theorem apply_get_of_resolveInput
    {store : Store} {call : Call} {ts : List Task}
    (hts : resolveInput store call = some ts) :
    ∃ plan', (apply store call).get call.planId = some plan' ∧
      plan'.tasks = resolveTasks ts := by
  cases call with
  | createPlan planId name chatId tasks freshId now =>
      obtain rfl := Option.some.inj hts
      refine ⟨(createPlan store planId name chatId tasks freshId now).2, ?_, ?_⟩
      · simp only [apply, createPlan, Call.planId, updatePlanStatus_id]
        exact Dict.get_set_self _ _ _
      · simp [createPlan]
  | addTask planId task freshId now =>
      simp only [resolveInput] at hts
      split at hts
      · cases hts
      · rename_i plan hplan
        split_ifs at hts with hdup
        obtain rfl := Option.some.inj hts
        refine ⟨settlePlan plan (plan.tasks ++ [task.withId freshId]) now, ?_,
          settlePlan_tasks _ _ _⟩
        simp [apply, addTask, hplan, hdup, Call.planId]
  | startTask planId taskId now => cases hts
  | completeTask planId taskId result log fl now =>
      simp only [resolveInput] at hts
      split at hts
      · cases hts
      · rename_i plan hplan
        exact setOutcome_get hplan hts
  | failTask planId taskId log fl now =>
      simp only [resolveInput] at hts
      split at hts
      · cases hts
      · rename_i plan hplan
        exact setOutcome_get hplan hts

/-- **Recomputation.**  After a create_plan, add_task, complete_task or
fail_task on an acyclic plan with distinct ids, every task that is not running
and has not ended has the status the graph and the other statuses give it,
exactly when no stored label leaked into the recomputation. -/
theorem statuses_recomputed_iff
    (store : Store) (call : Call) (ts : List Task)
    (hts : resolveInput store call = some ts)
    (hnd : (taskIds ts).Nodup)
    (hac : Acyclic ts) :
    ∃ plan', (apply store call).get call.planId = some plan' ∧
      (Recomputed plan'.tasks ↔ Undisturbed ts) := by
  obtain ⟨plan', hget, htasks⟩ := apply_get_of_resolveInput hts
  refine ⟨plan', hget, ?_⟩
  rw [htasks]
  exact resolveTasks_recomputed_iff hnd hac

/-- `b` waits for `a` and for `x`, which is not there yet. -/
def openPlan : Call :=
  .createPlan "plan-1" "open" none
    [{ id := "a", name := "a" }, { id := "b", name := "b", dependsOn := ["a", "x"] }]
    (fun _ => "") 0

/-- `x` is added. -/
def addMissing : Call :=
  .addTask "plan-1" { id := "x", name := "x" } "" 1

theorem acyclic_openPlan :
    Acyclic [{ id := "a", name := "a" }, { id := "b", name := "b", dependsOn := ["a", "x"] }] :=
  ⟨fun d => if d = "b" then 1 else 0, by decide⟩

theorem statuses_recomputed_iff_openPlan :
    ∃ plan', (apply Dict.empty openPlan).get openPlan.planId = some plan' ∧
      (Recomputed plan'.tasks ↔
        Undisturbed [{ id := "a", name := "a" },
          { id := "b", name := "b", dependsOn := ["a", "x"] }]) :=
  statuses_recomputed_iff Dict.empty openPlan _ rfl (by decide) acyclic_openPlan

theorem not_broken_of_not_direct
    {ts : List Task}
    (h : ∀ t, t ∈ ts → ¬ DirectlyBroken ts t)
    {t : Task}
    (ht : t ∈ ts) :
    ¬ Broken ts t := by
  intro hb
  induction hb with
  | direct hd => exact h _ ht hd
  | through hu _ _ _ ih => exact ih hu

/-- After `x` was added, `b` stays BLOCKED although both its dependencies are
open and nothing is missing or failed. -/
theorem statuses_not_recomputed :
    ¬ ∀ (store : Store) (call : Call) (ts : List Task),
      Stored store → Admissible call → resolveInput store call = some ts →
      (taskIds ts).Nodup → Acyclic ts →
      ∀ plan', (apply store call).get call.planId = some plan' → Recomputed plan'.tasks := by
  intro h
  have hstored : Stored (apply Dict.empty openPlan) :=
    (Reach.refl _).next (a := openPlan) ⟨by decide, by decide⟩ rfl
  have hac : Acyclic [{ id := "a", name := "a", status := .ready },
      { id := "b", name := "b", dependsOn := ["a", "x"], status := .blocked },
      { id := "x", name := "x" }] :=
    ⟨fun d => if d = "b" then 1 else 0, by decide⟩
  have hrec := h _ addMissing _ hstored rfl (by rfl) (by decide) hac _ (by rfl)
  have hb := hrec { id := "b", name := "b", dependsOn := ["a", "x"], status := .blocked }
    (by decide) rfl
  refine not_broken_of_not_direct ?_ ?_ (expected_eq_blocked_iff.mp hb.symm)
  · simp only [DirectlyBroken]
    decide
  · decide

end Calls

end Plans
end DiploidAgent
