import DiploidAgent.Plans.Manager

/-!
# The status recomputation as a sweep

On distinct ids the loop of `_resolve_statuses` is a sweep of the library: the
nodes are the ids with their dependency lists, the labels are the statuses, and
the task list after any number of passes is the old list relabelled by the map.

A visit moves a waiting task to READY exactly when all its dependencies are
done, which no visit can change, and otherwise to BLOCKED; so every task moves
at most once and `tasks.length + 1` passes suffice (`exists_iterate`).
-/

namespace DiploidAgent
namespace Plans

open Sweep

/-- An id with its dependency list. -/
abbrev Node := String × List String

/-- The dependency graph of a task list. -/
def graph (ts : List Task) : List Node := ts.map fun t => (t.id, t.dependsOn)

/-- All dependencies exist and are done; the two READY conditions of the loop
in one. -/
def depsDone (byId : List String) (m : StatusMap) (deps : List String) : Bool :=
  deps.isEmpty || allDone byId m deps

/-- The status one turn of the inner loop gives. -/
def resolved (byId : List String) (m : StatusMap) (s : TaskStatus) (deps : List String) :
    TaskStatus :=
  if s.isWaiting then
    if anyMissing byId deps || anyFailed byId m deps then .blocked
    else if depsDone byId m deps then .ready
    else s
  else s

/-- The label of a node after its visit. -/
def nextStatus (byId : List String) (m : StatusMap) (x : Node) : Option TaskStatus :=
  (m x.1).map fun s => resolved byId m s x.2

/-- The task list with the statuses of a map. -/
def relabel (m : StatusMap) (ts : List Task) : List Task :=
  ts.map fun t => { t with status := (m t.id).getD t.status }

/-- The map holds the stored status of every task. -/
def Synced (m : StatusMap) (ts : List Task) : Prop :=
  ∀ t, t ∈ ts → m t.id = some t.status

@[simp] theorem taskIds_relabel
    (m : StatusMap) (ts : List Task) :
    taskIds (relabel m ts) = taskIds ts := by
  simp [taskIds, relabel, Function.comp_def]

@[simp] theorem graph_relabel
    (m : StatusMap) (ts : List Task) :
    graph (relabel m ts) = graph ts := by
  simp [graph, relabel, Function.comp_def]

theorem keys_graph
    (ts : List Task) :
    (graph ts).map Prod.fst = taskIds ts := by
  simp [graph, taskIds, Function.comp_def]

theorem graph_keys_ne
    {t : Task} {ts : List Task}
    (hnd : (taskIds (t :: ts)).Nodup) :
    ∀ x, x ∈ graph ts → x.1 ≠ t.id := by
  intro x hx hid
  obtain ⟨t', ht', rfl⟩ := List.mem_map.mp hx
  rw [taskIds, List.map_cons, List.nodup_cons] at hnd
  exact hnd.1 (List.mem_map.mpr ⟨t', ht', hid⟩)

/-- The two READY conditions of the loop are one. -/
theorem readyCondition_eq
    (byId : List String) (m : StatusMap) (deps : List String) :
    ((allDone byId m deps && !deps.isEmpty) || deps.isEmpty) = depsDone byId m deps := by
  unfold depsDone
  cases deps.isEmpty <;> simp

/-- One turn of the inner loop is a visit of the library. -/
theorem visitTask_eq
    (byId : List String) {m : StatusMap} {t : Task}
    (h : m t.id = some t.status) :
    visitTask byId m t =
      ({ t with status := resolved byId m t.status t.dependsOn },
        visit Prod.fst (nextStatus byId) m (t.id, t.dependsOn),
        decide (nextStatus byId m (t.id, t.dependsOn) ≠ m t.id)) := by
  unfold visitTask
  rw [readyCondition_eq]
  unfold visit nextStatus resolved
  simp only [h, Option.map_some]
  split_ifs with hw hb hblocked hr hready
  · simp [Ne.symm hblocked]
  · have hs : t.status = .blocked := by simpa using hblocked
    simp [← hs, h]
  · simp [Ne.symm hready]
  · have hs : t.status = .ready := by simpa using hready
    simp [← hs, h]
  · simp
  · simp [← h]

theorem synced_visit
    (byId : List String) {m : StatusMap} {t : Task} {ts : List Task}
    (hnd : (taskIds (t :: ts)).Nodup)
    (h : Synced m ts) :
    Synced (visit Prod.fst (nextStatus byId) m (t.id, t.dependsOn)) ts := by
  intro t' ht'
  have hne : t'.id ≠ Prod.fst ((t.id, t.dependsOn) : Node) :=
    graph_keys_ne hnd (t'.id, t'.dependsOn) (List.mem_map.mpr ⟨t', ht', rfl⟩)
  rw [visit_of_ne m hne]
  exact h t' ht'

/-- The inner loop is a sweep: the tasks are relabelled by the swept map. -/
theorem passTasks_eq
    (byId : List String) {m : StatusMap} {ts : List Task}
    (hnd : (taskIds ts).Nodup)
    (h : Synced m ts) :
    passTasks byId m ts =
      (relabel (sweep Prod.fst (nextStatus byId) m (graph ts)) ts,
        sweep Prod.fst (nextStatus byId) m (graph ts),
        changes Prod.fst (nextStatus byId) m (graph ts)) := by
  induction ts generalizing m with
  | nil => rfl
  | cons t ts ih =>
      have ht : m t.id = some t.status := h t (by simp)
      have htail : Synced m ts := fun t' ht' => h t' (List.mem_cons_of_mem _ ht')
      have hnd' : (taskIds ts).Nodup := (List.nodup_cons.mp hnd).2
      have hrest := ih hnd' (synced_visit byId hnd htail)
      have hhead :
          sweep Prod.fst (nextStatus byId)
              (visit Prod.fst (nextStatus byId) m (t.id, t.dependsOn)) (graph ts) t.id =
            some (resolved byId m t.status t.dependsOn) := by
        rw [sweep_of_notMem (graph_keys_ne hnd)]
        simp [visit, nextStatus, ht]
      simp only [passTasks, visitTask_eq byId ht, hrest]
      simp only [graph, List.map_cons, sweep, changes, relabel] at hhead ⊢
      simp [hhead]

theorem synced_relabel
    {m : StatusMap} {ts : List Task}
    (h : ∀ t, t ∈ ts → (m t.id).isSome) :
    Synced m (relabel m ts) := by
  intro t' ht'
  obtain ⟨t, ht, rfl⟩ := List.mem_map.mp ht'
  obtain ⟨s, hs⟩ := Option.isSome_iff_exists.mp (h t ht)
  simp [hs]

theorem relabel_relabel
    {m m' : StatusMap} {ts : List Task}
    (h : ∀ t, t ∈ ts → (m' t.id).isSome) :
    relabel m' (relabel m ts) = relabel m' ts := by
  simp only [relabel, List.map_map]
  refine List.map_congr_left fun t ht => ?_
  obtain ⟨s, hs⟩ := Option.isSome_iff_exists.mp (h t ht)
  simp [hs]

/-- Every id that has a status keeps one. -/
theorem isSome_visit
    (byId : List String) {m : StatusMap} {x : Node} {d : String}
    (h : (m d).isSome) :
    (visit Prod.fst (nextStatus byId) m x d).isSome := by
  rcases eq_or_ne d x.1 with rfl | hne
  · rw [visit_self]
    simpa [nextStatus] using h
  · rw [visit_of_ne m hne]
    exact h

/-- The loop is the iterated sweep. -/
theorem resolveLoop_eq
    (byId : List String) (n : Nat) {m : StatusMap} {ts : List Task}
    (hnd : (taskIds ts).Nodup)
    (h : Synced m ts) :
    resolveLoop byId n m ts =
      (iterate Prod.fst (nextStatus byId) n m (graph ts)).map fun m' => relabel m' ts := by
  induction n generalizing m ts with
  | zero => rfl
  | succ n ih =>
      have hsome : ∀ m' : StatusMap, (∀ t, t ∈ ts → (m' t.id).isSome) →
          ∀ t, t ∈ ts → (sweep Prod.fst (nextStatus byId) m' (graph ts) t.id).isSome := by
        intro m' hm' t ht
        exact sweep_invariant (P := fun m : StatusMap => (m t.id).isSome)
          (fun m'' x _ hm'' => isSome_visit byId hm'') (hm' t ht)
      have hm : ∀ t, t ∈ ts → (m t.id).isSome := fun t ht => by simp [h t ht]
      rw [resolveLoop, iterate, passTasks_eq byId hnd h]
      dsimp only
      split
      · have hnd' : (taskIds (relabel (sweep Prod.fst (nextStatus byId) m (graph ts)) ts)).Nodup := by
          simpa using hnd
        rw [ih hnd' (synced_relabel (hsome m hm)), graph_relabel]
        cases hit : iterate Prod.fst (nextStatus byId) n
            (sweep Prod.fst (nextStatus byId) m (graph ts)) (graph ts) with
        | none => rfl
        | some m' =>
            have hm' : ∀ t, t ∈ ts → (m' t.id).isSome := by
              intro t ht
              exact iterate_invariant (P := fun m : StatusMap => (m t.id).isSome)
                (fun m'' x _ hm'' => isSome_visit byId hm'') (hsome m hm t ht) hit
            simp [relabel_relabel hm']
      · rfl

section Termination

/-- Two maps agree outside the waiting labels. -/
def Agrees (m₀ m : StatusMap) : Prop :=
  ∀ d, m d = m₀ d ∨ ∃ s s', m₀ d = some s ∧ m d = some s' ∧
    s.isWaiting = true ∧ s'.isWaiting = true

theorem Agrees.refl (m : StatusMap) : Agrees m m := fun _ => Or.inl rfl

theorem resolved_isWaiting
    (byId : List String) (m : StatusMap) (s : TaskStatus) (deps : List String) :
    (resolved byId m s deps).isWaiting = s.isWaiting := by
  unfold resolved
  split_ifs with hw
  · rw [hw]
    rfl
  · rw [hw]
    rfl
  · rfl
  · rfl

/-- A visit keeps agreement with the start. -/
theorem agrees_visit
    (byId : List String) {m₀ m : StatusMap} {x : Node}
    (h : Agrees m₀ m) :
    Agrees m₀ (visit Prod.fst (nextStatus byId) m x) := by
  intro d
  rcases eq_or_ne d x.1 with rfl | hne
  · rw [visit_self]
    cases hm : m x.1 with
    | none =>
        rcases h x.1 with heq | ⟨s, s', _, hs', _⟩
        · exact Or.inl (by simp [nextStatus, hm, ← heq])
        · rw [hm] at hs'
          cases hs'
    | some s =>
        have hnext : nextStatus byId m x = some (resolved byId m s x.2) := by
          simp [nextStatus, hm]
        by_cases hw : s.isWaiting = true
        · have hw' : (resolved byId m s x.2).isWaiting = true := by
            rw [resolved_isWaiting, hw]
          rcases h x.1 with heq | ⟨s₀, s', h₀, _, hw₀, _⟩
          · exact Or.inr ⟨s, _, by rw [← heq, hm], hnext, hw, hw'⟩
          · exact Or.inr ⟨s₀, _, h₀, hnext, hw₀, hw'⟩
        · have hkeep : resolved byId m s x.2 = s := by simp [resolved, hw]
          rw [hnext, hkeep]
          rcases h x.1 with heq | ⟨s₀, s', _, hs', _, hw'⟩
          · exact Or.inl (by rw [← heq, hm])
          · rw [hm, Option.some.injEq] at hs'
            exact absurd (hs' ▸ hw') hw
  · rw [visit_of_ne m hne]
    exact h d

/-- Which dependencies are done does not depend on the waiting labels. -/
theorem depsDone_of_agrees
    (byId : List String) {m₀ m : StatusMap}
    (h : Agrees m₀ m) (deps : List String) :
    depsDone byId m deps = depsDone byId m₀ deps := by
  have hlabel : ∀ d, (m d == some .done || m d == some .incomplete) =
      (m₀ d == some .done || m₀ d == some .incomplete) := by
    intro d
    rcases h d with heq | ⟨s, s', hs, hs', hw, hw'⟩
    · rw [heq]
    · rw [hs, hs']
      have hnone : ∀ u : TaskStatus, u.isWaiting = true →
          (some u == some TaskStatus.done || some u == some TaskStatus.incomplete) = false := by
        intro u hu
        cases u <;> first | rfl | cases hu
      rw [hnone s hw, hnone s' hw']
  simp only [depsDone, allDone, depStatuses, List.all_map, Function.comp_def, hlabel]

/-- A task with a missing, failed or blocked dependency is not ready. -/
theorem depsDone_eq_false
    {byId : List String} {m : StatusMap} {deps : List String}
    (h : (anyMissing byId deps || anyFailed byId m deps) = true) :
    depsDone byId m deps = false := by
  rw [Bool.or_eq_true] at h
  have hne : deps ≠ [] := by
    rintro rfl
    simp [anyMissing, anyFailed, depStatuses] at h
  rcases h with hmiss | hfail
  · simp [depsDone, allDone, hmiss, hne]
  · have hnot : (depStatuses byId m deps).all
        (fun s => s == some .done || s == some .incomplete) = false := by
      obtain ⟨s, hs, hbad⟩ := List.any_eq_true.mp hfail
      refine List.all_eq_false.mpr ⟨s, hs, ?_⟩
      intro hgood
      simp only [Bool.or_eq_true, beq_iff_eq] at hbad hgood
      rcases hbad with rfl | rfl <;> simp at hgood
    simp [depsDone, allDone, hnot, hne]

/-- The status a waiting task is heading for. -/
def target (byId : List String) (m : StatusMap) (deps : List String) : TaskStatus :=
  if depsDone byId m deps then .ready else .blocked

/-- A waiting node that has not got its target yet. -/
def isOpen (byId : List String) (m₀ m : StatusMap) (x : Node) : Bool :=
  (m x.1).any fun s => s.isWaiting && s != target byId m₀ x.2

/-- A visit that changes a label moves the node to its target. -/
theorem resolved_of_ne
    {byId : List String} {m₀ m : StatusMap} {s : TaskStatus} {deps : List String}
    (h : Agrees m₀ m)
    (hne : resolved byId m s deps ≠ s) :
    s.isWaiting = true ∧ resolved byId m s deps = target byId m₀ deps := by
  unfold target
  rw [← depsDone_of_agrees byId h deps]
  unfold resolved at hne ⊢
  split_ifs at hne ⊢ with hw hbad hdone
  · rw [depsDone_eq_false hbad] at hdone
    cases hdone
  · exact ⟨hw, rfl⟩
  · exact ⟨hw, rfl⟩
  · exact absurd rfl hne
  · exact absurd rfl hne
  · exact absurd rfl hne

theorem isOpen_visit_of_ne
    (byId : List String) {m₀ m : StatusMap} {x y : Node}
    (h : y.1 ≠ x.1) :
    isOpen byId m₀ (visit Prod.fst (nextStatus byId) m x) y = isOpen byId m₀ m y := by
  unfold isOpen
  rw [visit_of_ne m h]

/-- The number of open nodes drops at every visit that changes a label. -/
theorem countP_isOpen_visit_lt
    {byId : List String} {m₀ m : StatusMap} {xs : List Node} {x : Node}
    (hnd : (xs.map Prod.fst).Nodup)
    (hx : x ∈ xs)
    (h : Agrees m₀ m)
    (hne : nextStatus byId m x ≠ m x.1) :
    xs.countP (isOpen byId m₀ (visit Prod.fst (nextStatus byId) m x)) <
      xs.countP (isOpen byId m₀ m) := by
  obtain ⟨s, hs⟩ : ∃ s, m x.1 = some s := by
    cases hm : m x.1 with
    | none => simp [nextStatus, hm] at hne
    | some s => exact ⟨s, rfl⟩
  have hchange : resolved byId m s x.2 ≠ s := by
    simpa [nextStatus, hs] using hne
  obtain ⟨hw, htarget⟩ := resolved_of_ne h hchange
  have hopen : isOpen byId m₀ m x = true := by
    rw [htarget] at hchange
    simpa [isOpen, hs, hw] using hchange.symm
  have hclosed : isOpen byId m₀ (visit Prod.fst (nextStatus byId) m x) x = false := by
    simp [isOpen, nextStatus, hs, htarget]
  induction xs with
  | nil => simp at hx
  | cons y ys ih =>
      rw [List.map_cons, List.nodup_cons] at hnd
      rcases List.mem_cons.mp hx with rfl | hx'
      · have hrest : ys.countP (isOpen byId m₀ (visit Prod.fst (nextStatus byId) m x)) =
            ys.countP (isOpen byId m₀ m) := by
          refine List.countP_congr fun z hz => ?_
          have hz' : z.1 ≠ x.1 := fun hid => hnd.1 (List.mem_map.mpr ⟨z, hz, hid⟩)
          rw [isOpen_visit_of_ne byId hz']
        rw [List.countP_cons, List.countP_cons, hopen, hclosed, hrest]
        simp
      · have hy : y.1 ≠ x.1 := fun hid => hnd.1 (List.mem_map.mpr ⟨x, hx', hid.symm⟩)
        rw [List.countP_cons, List.countP_cons, isOpen_visit_of_ne byId hy]
        exact Nat.add_lt_add_right (ih hnd.2 hx') _

end Termination

section Final

theorem foldl_update_of_notMem
    {ts : List Task} {d : String}
    (hd : d ∉ taskIds ts) (m : StatusMap) :
    ts.foldl (fun (m : StatusMap) t => Function.update m t.id (some t.status)) m d = m d := by
  induction ts generalizing m with
  | nil => rfl
  | cons t ts ih =>
      simp only [taskIds, List.map_cons, List.mem_cons, not_or] at hd
      rw [List.foldl_cons, ih hd.2, Function.update_of_ne hd.1]

/-- An id outside the plan has no status. -/
theorem statusMap_of_notMem
    {ts : List Task} {d : String}
    (hd : d ∉ taskIds ts) :
    statusMap ts d = none :=
  foldl_update_of_notMem hd _

theorem statusMap_synced
    {ts : List Task}
    (hnd : (taskIds ts).Nodup) :
    Synced (statusMap ts) ts := by
  have hgen : ∀ (us : List Task) (m : StatusMap), (taskIds us).Nodup →
      Synced (us.foldl (fun (m : StatusMap) t => Function.update m t.id (some t.status)) m) us := by
    intro us
    induction us with
    | nil => exact fun _ _ t ht => by simp at ht
    | cons u us ih =>
        intro m hu t ht
        rw [taskIds, List.map_cons, List.nodup_cons] at hu
        rcases List.mem_cons.mp ht with rfl | ht
        · rw [List.foldl_cons, foldl_update_of_notMem hu.1]
          simp
        · exact ih _ hu.2 t ht
  exact hgen ts _ hnd

/-- The labels the loop ends with. -/
def finalMap (ts : List Task) : StatusMap :=
  (iterate Prod.fst (nextStatus (taskIds ts)) (ts.length + 1) (statusMap ts) (graph ts)).getD
    (statusMap ts)

/-- The loop ends within `tasks.length + 1` passes. -/
theorem exists_iterate
    {ts : List Task}
    (hnd : (taskIds ts).Nodup) :
    iterate Prod.fst (nextStatus (taskIds ts)) (ts.length + 1) (statusMap ts) (graph ts) =
      some (finalMap ts) := by
  have hlen : (graph ts).countP (isOpen (taskIds ts) (statusMap ts) (statusMap ts)) <
      ts.length + 1 := by
    have := List.countP_le_length (p := isOpen (taskIds ts) (statusMap ts) (statusMap ts))
      (l := graph ts)
    simp only [graph, List.length_map] at this ⊢
    omega
  obtain ⟨m', hm'⟩ := iterate_isSome (Agrees (statusMap ts))
    (fun m => (graph ts).countP (isOpen (taskIds ts) (statusMap ts) m))
    (fun m x _ hm => agrees_visit (taskIds ts) hm)
    (fun m x hx hm hne =>
      countP_isOpen_visit_lt (by rw [keys_graph]; exact hnd) hx hm hne)
    (Agrees.refl (statusMap ts)) hlen
  rw [finalMap, hm']
  rfl

theorem resolveTasks_eq_relabel
    {ts : List Task}
    (hnd : (taskIds ts).Nodup) :
    resolveTasks ts = relabel (finalMap ts) ts := by
  rw [resolveTasks, resolveLoop_eq _ _ hnd (statusMap_synced hnd), exists_iterate hnd]
  rfl

/-- The `while changed` loop returns the resolved list from `tasks.length + 1`
passes on. -/
theorem resolveLoop_eq_some
    {ts : List Task}
    (hnd : (taskIds ts).Nodup)
    {n : Nat}
    (hn : ts.length + 1 ≤ n) :
    resolveLoop (taskIds ts) n (statusMap ts) ts = some (resolveTasks ts) := by
  obtain ⟨k, rfl⟩ := Nat.exists_eq_add_of_le hn
  rw [resolveLoop_eq _ _ hnd (statusMap_synced hnd), iterate_mono (exists_iterate hnd),
    resolveTasks_eq_relabel hnd]
  rfl

/-- What every visit keeps holds of the final labels. -/
theorem finalMap_invariant
    {ts : List Task} {P : StatusMap → Prop}
    (hnd : (taskIds ts).Nodup)
    (hvisit : ∀ m x, x ∈ graph ts → P m →
      P (visit Prod.fst (nextStatus (taskIds ts)) m x))
    (hstart : P (statusMap ts)) :
    P (finalMap ts) :=
  iterate_invariant hvisit hstart (exists_iterate hnd)

theorem finalMap_agrees
    {ts : List Task}
    (hnd : (taskIds ts).Nodup) :
    Agrees (statusMap ts) (finalMap ts) :=
  finalMap_invariant hnd (fun _ _ _ hm => agrees_visit (taskIds ts) hm) (Agrees.refl _)

/-- No task of the result would be moved again. -/
theorem finalMap_settled
    {ts : List Task}
    (hnd : (taskIds ts).Nodup)
    {t : Task}
    (ht : t ∈ ts) :
    nextStatus (taskIds ts) (finalMap ts) (t.id, t.dependsOn) = finalMap ts t.id :=
  iterate_settled (exists_iterate hnd) (t.id, t.dependsOn) (List.mem_map.mpr ⟨t, ht, rfl⟩)

end Final

end Plans
end DiploidAgent
