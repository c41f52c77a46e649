import DiploidAgent.Runtime.Metrics

/-!
# The totals over restarts

`_rehydrate_metrics` takes the totals of a chat from the record that was updated last, and
only the records on which a turn has ended carry totals.  A session that was started,
resumed or switched after the last turn of its chat is updated last without having been
stamped by that turn; then a restart loses turns.  It keeps the totals exactly when the
last turn of every chat ended on the record that was updated last
(`totals_survive_iff`).
-/

namespace DiploidAgent
namespace Metrics

open Runs

section Model

/-- One chat of `_rehydrate_metrics`. -/
def rehydrateChat (s : State) (state : ChatState) : State :=
  match latest state.sessions.values with
  | none => s
  | some r =>
      match r.cumulativeMetrics with
      | none => s
      | some cumulative =>
          { s with
            perChat := s.perChat.set r.chatId { totals := cumulative, cumulative := cumulative }
            globalMetrics := s.globalMetrics + cumulative }

/-- `_rehydrate_metrics`. -/
def rehydrateMetrics (s : State) : State := s.states.values.foldl rehydrateChat s

/-- A clean restart: `load_store` and `_rehydrate_metrics` in a new process. -/
def restart (s : State) : State :=
  rehydrateMetrics { s with
    states := loadStore s.file
    perChat := Dict.empty
    globalMetrics := 0 }

inductive Label where
  | operation (op : Operation)
  | restart

def step (s : State) : Label → Option State
  | .operation op => some (perform s op)
  | .restart => some (restart s)

/-- The last turn of every chat ended on the record that was updated last. -/
def Current (s : State) : Prop :=
  ∀ t ∈ s.turns, (activeRecord s t.chatId).map SessionRecord.sessionNumber =
    (turnsOf t.chatId s.turns).head?.map FinishedTurn.sessionNumber

instance (s : State) : Decidable (Current s) :=
  inferInstanceAs (Decidable (∀ t ∈ s.turns, _ = _))

/-- The condition on a step: a restart finds every chat current. -/
def RestartsCurrent (s : State) : Label → Prop
  | .operation _ => True
  | .restart => Current s

end Model

/-- The totals that `_rehydrate_metrics` finds for a chat. -/
def foundTotals (state : ChatState) : Option Totals :=
  (latest state.sessions.values).bind SessionRecord.cumulativeMetrics

section Rehydrate

variable {s : State} {c : String} {state : ChatState} {l : List (String × ChatState)}

/-- Rehydration moves the metrics only. -/
structure SameHistory (s s' : State) : Prop where
  states : s'.states = s.states
  file : s'.file = s.file
  turns : s'.turns = s.turns

theorem sameHistory_rehydrateChat :
    SameHistory s (rehydrateChat s state) := by
  rw [rehydrateChat]
  split
  · exact ⟨rfl, rfl, rfl⟩
  · split <;> exact ⟨rfl, rfl, rfl⟩

theorem sameHistory_foldl
    (states : List ChatState) :
    SameHistory s (states.foldl rehydrateChat s) := by
  induction states generalizing s with
  | nil => exact ⟨rfl, rfl, rfl⟩
  | cons state states ih =>
      have hhead : SameHistory s (rehydrateChat s state) := sameHistory_rehydrateChat
      have hrest : SameHistory (rehydrateChat s state) _ := ih
      exact ⟨hrest.states.trans hhead.states, hrest.file.trans hhead.file,
        hrest.turns.trans hhead.turns⟩

theorem rehydrateChat_of_none
    (h : foundTotals state = none) :
    rehydrateChat s state = s := by
  rw [rehydrateChat]
  split
  · rfl
  · rename_i r hr
    rw [foundTotals, hr, Option.bind_some] at h
    rw [h]

theorem rehydrateChat_of_some
    {cumulative : Totals}
    (h : foundTotals state = some cumulative) :
    ∃ r, latest state.sessions.values = some r ∧ rehydrateChat s state =
      { s with
        perChat := s.perChat.set r.chatId { totals := cumulative, cumulative := cumulative }
        globalMetrics := s.globalMetrics + cumulative } := by
  obtain ⟨r, hr, hstamp⟩ := Option.bind_eq_some_iff.mp h
  refine ⟨r, hr, ?_⟩
  rw [rehydrateChat, hr]
  dsimp only
  rw [hstamp]

theorem chatTotals_rehydrateChat
    {k : String}
    (hkey : ∀ r, latest state.sessions.values = some r → r.chatId = k) :
    chatTotals (rehydrateChat s state) c =
      if k = c then (foundTotals state).getD (chatTotals s c) else chatTotals s c := by
  cases hfound : foundTotals state with
  | none =>
      rw [rehydrateChat_of_none hfound]
      exact (ite_self _).symm
  | some cumulative =>
      obtain ⟨r, hr, heq⟩ := rehydrateChat_of_some (s := s) hfound
      rw [heq, ← hkey r hr, chatTotals, Dict.get_set]
      split_ifs <;> rfl

theorem globalMetrics_rehydrateChat :
    (rehydrateChat s state).globalMetrics = s.globalMetrics + (foundTotals state).getD 0 := by
  cases hfound : foundTotals state with
  | none =>
      rw [rehydrateChat_of_none hfound]
      exact (add_zero s.globalMetrics).symm
  | some cumulative =>
      obtain ⟨r, -, heq⟩ := rehydrateChat_of_some (s := s) hfound
      rw [heq]
      rfl

/-- The totals of a chat after the fold over the chats. -/
theorem chatTotals_foldl
    (hnd : (l.map Prod.fst).Nodup)
    (hkeyed : ∀ e ∈ l, ∀ r, latest e.2.sessions.values = some r → r.chatId = e.1) :
    chatTotals ((l.map Prod.snd).foldl rehydrateChat s) c =
      ((lookupEntry c l).bind foundTotals).getD (chatTotals s c) := by
  induction l generalizing s with
  | nil => rfl
  | cons e l ih =>
      rw [List.map_cons, List.nodup_cons] at hnd
      obtain ⟨hhead, hrest⟩ := List.forall_mem_cons.mp hkeyed
      rw [List.map_cons, List.foldl_cons, ih hnd.2 hrest, chatTotals_rehydrateChat hhead,
        lookupEntry]
      by_cases hc : e.1 = c
      · have hnone : lookupEntry c l = none := by
          rw [lookupEntry_eq_none_iff, ← hc]
          exact hnd.1
        rw [if_pos hc, if_pos hc, hnone]
        rfl
      · rw [if_neg hc, if_neg hc]

theorem globalMetrics_foldl :
    ((l.map Prod.snd).foldl rehydrateChat s).globalMetrics =
      s.globalMetrics + (l.map fun e => (foundTotals e.2).getD 0).sum := by
  induction l generalizing s with
  | nil => exact (add_zero _).symm
  | cons e l ih =>
      rw [List.map_cons, List.foldl_cons, ih, globalMetrics_rehydrateChat, List.map_cons,
        List.sum_cons, add_assoc]

end Rehydrate

section Restart

variable {s : State} {c : String} {n : Nat}

theorem sameHistory_restart :
    (restart s).states = loadStore s.file ∧ (restart s).file = s.file ∧
      (restart s).turns = s.turns :=
  have h := sameHistory_foldl (loadStore s.file).values
  ⟨h.states, h.file, h.turns⟩

/-- The loaded registry has the sessions of the one before. -/
theorem sessions_restart
    (h : Sound s) :
    (chatState (restart s).states c).sessions = (chatState s.states c).sessions := by
  rw [sameHistory_restart.1]
  exact h.loaded c

theorem record_restart
    (h : Sound s) :
    record (restart s) c n = record s c n := by
  rw [record, sessions_restart h]
  rfl

/-- What is found for a chat is on its active record. -/
theorem foundTotals_loaded
    (h : Sound s) :
    foundTotals (chatState (loadStore s.file) c) =
      (activeRecord s c).bind SessionRecord.cumulativeMetrics := by
  rw [foundTotals, h.loaded]
  rfl

theorem foundTotals_get
    (m : Registry) :
    (m.get c).bind foundTotals = foundTotals (chatState m c) := by
  rw [chatState]
  cases m.get c with
  | none => rfl
  | some state => rfl

theorem keyed_loaded
    (h : Sound s) :
    ∀ e ∈ (loadStore s.file).entries, ∀ r, latest e.2.sessions.values = some r →
      r.chatId = e.1 := by
  intro e he r hr
  have hget := ((loadStore s.file).get_eq_some_iff e.1 e.2).mpr he
  have hstate : chatState (loadStore s.file) e.1 = e.2 := by
    rw [chatState, hget]
    rfl
  rw [← hstate, h.loaded] at hr
  exact (h.keyed e.1 _ r (record_of_active h hr)).1

theorem chatTotals_restart
    (h : Sound s) :
    chatTotals (restart s) c =
      ((activeRecord s c).bind SessionRecord.cumulativeMetrics).getD 0 := by
  have hfold := chatTotals_foldl (c := c)
    (s := { s with
      states := loadStore s.file
      perChat := Dict.empty
      globalMetrics := 0 })
    (loadStore s.file).nodup_keys (keyed_loaded h)
  rw [← foundTotals_loaded h, ← foundTotals_get]
  exact hfold

/-- The global totals after a restart are the sum over the chats of the file. -/
theorem globalMetrics_restart
    (h : Sound s) :
    (restart s).globalMetrics = ((loadStore s.file).keys.map fun c =>
      ((activeRecord s c).bind SessionRecord.cumulativeMetrics).getD 0).sum := by
  have hfold := globalMetrics_foldl (l := (loadStore s.file).entries)
    (s := { s with
      states := loadStore s.file
      perChat := Dict.empty
      globalMetrics := 0 })
  refine (hfold.trans (zero_add _)).trans (congrArg List.sum ?_)
  rw [Dict.keys, List.map_map]
  refine List.map_congr_left fun e he => ?_
  have hget := ((loadStore s.file).get_eq_some_iff e.1 e.2).mpr he
  have hstate : chatState (loadStore s.file) e.1 = e.2 := by
    rw [chatState, hget]
    rfl
  rw [Function.comp_apply, ← foundTotals_loaded h, hstate]

end Restart

section Numbered

/-- Every session of a registry has a number below the next one. -/
def Numbered (m : Registry) : Prop :=
  ∀ c n r, (chatState m c).sessions.get n = some r → n < (chatState m c).nextSessionNumber

theorem numbered_loadLine
    {m : Registry}
    (h : Numbered m)
    (r : SessionRecord) :
    Numbered (loadLine m r) := by
  intro c n r' hr
  rw [loadLine, chatState_set] at hr ⊢
  split_ifs at hr ⊢ with hc
  · dsimp only at hr ⊢
    rw [Dict.get_set] at hr
    split_ifs at hr with hn
    · omega
    · have hlt := h r.chatId n r' hr
      omega
  · exact h c n r' hr

theorem numbered_loadStore
    (file : List SessionRecord) :
    Numbered (loadStore file) := by
  have hfold : ∀ m, Numbered m → Numbered (file.foldl loadLine m) := by
    induction file with
    | nil => exact fun m h => h
    | cons r file ih => exact fun m h => ih _ (numbered_loadLine h r)
  exact hfold _ fun _ _ _ hr => nomatch hr

end Numbered

section Survival

variable {s : State} {c : String}

theorem current_iff :
    Current s ↔ ∀ c t l, turnsOf c s.turns = t :: l →
      (activeRecord s c).map SessionRecord.sessionNumber = some t.sessionNumber := by
  constructor
  · intro h c t l hturns
    have hmem : t ∈ turnsOf c s.turns := hturns ▸ List.mem_cons_self
    obtain ⟨ht, hchat⟩ := List.mem_filter.mp hmem
    obtain rfl := of_decide_eq_true hchat
    have hcurrent := h t ht
    rw [hturns] at hcurrent
    exact hcurrent
  · intro h t ht
    have hmem : t ∈ turnsOf t.chatId s.turns := List.mem_filter.mpr ⟨ht, by simp⟩
    cases hturns : turnsOf t.chatId s.turns with
    | nil => rw [hturns] at hmem; cases hmem
    | cons t' l => exact h _ t' l hturns

/-- The active record of a current chat carries the totals of the chat. -/
theorem activeTotals_of_current
    (h : Sound s)
    (hcurrent : Current s) :
    ((activeRecord s c).bind SessionRecord.cumulativeMetrics).getD 0 =
      totalOf (turnsOf c s.turns) := by
  cases hturns : turnsOf c s.turns with
  | nil =>
      cases hactive : activeRecord s c with
      | none => rfl
      | some r =>
          have hnone : turnsThrough c r.sessionNumber s.turns = none := by
            refine turnsThrough_eq_none fun t ht hin => ?_
            have hmem : t ∈ turnsOf c s.turns := List.mem_filter.mpr ⟨ht, by simp [hin.1]⟩
            rw [hturns] at hmem
            cases hmem
          rw [Option.bind_some, h.stamped c _ r (record_of_active h hactive), hnone]
          rfl
  | cons t l =>
      obtain ⟨r, hactive, hnumber⟩ :=
        Option.map_eq_some_iff.mp (current_iff.mp hcurrent c t l hturns)
      rw [hactive, Option.bind_some, h.stamped c _ r (record_of_active h hactive), hnumber,
        turnsThrough_last hturns, hturns]
      rfl

/-- Where the last turn of a chat did not end on its active record, turns are missing. -/
theorem activeTurns_lt
    (h : Sound s)
    {t : FinishedTurn} {l : List FinishedTurn}
    (hturns : turnsOf c s.turns = t :: l)
    (hother : (activeRecord s c).map SessionRecord.sessionNumber ≠ some t.sessionNumber) :
    ((activeRecord s c).bind SessionRecord.cumulativeMetrics).getD 0 .turns <
      totalOf (turnsOf c s.turns) .turns := by
  have hcount : totalOf (turnsOf c s.turns) .turns = ((turnsOf c s.turns).length : Int) :=
    totalOf_turns fun t ht => h.counted t (List.mem_filter.mp ht).1
  have hpos : 0 < (turnsOf c s.turns).length := by
    rw [hturns]
    exact Nat.succ_pos _
  rw [hcount]
  cases hactive : activeRecord s c with
  | none => exact Int.natCast_pos.mpr hpos
  | some r =>
      rw [Option.bind_some, h.stamped c _ r (record_of_active h hactive)]
      cases hthrough : turnsThrough c r.sessionNumber s.turns with
      | none => exact Int.natCast_pos.mpr hpos
      | some through =>
          have hne : r.sessionNumber ≠ t.sessionNumber := fun heq =>
            hother (hactive ▸ congrArg some heq)
          have hlt := length_turnsThrough_lt hturns hne hthrough
          have hthese : totalOf through .turns = (through.length : Int) :=
            totalOf_turns fun t ht => h.counted t (mem_of_turnsThrough hthrough t ht)
          rw [Option.map_some, Option.getD_some, hthese]
          exact Int.ofNat_lt.mpr hlt

/-- A restart of a current registry keeps everything. -/
theorem Sound.restart
    (h : Sound s)
    (hcurrent : Current s) :
    Sound (restart s) := by
  obtain ⟨hstates, hfile, hsame⟩ := sameHistory_restart (s := s)
  have hchats : ∀ t ∈ s.turns, t.chatId ∈ (loadStore s.file).keys := by
    intro t ht
    by_contra hout
    have hnone := ((loadStore s.file).get_eq_none_iff t.chatId).mpr hout
    obtain ⟨r, hr⟩ := Option.isSome_iff_exists.mp (h.known t ht)
    rw [record, ← h.loaded, chatState, hnone] at hr
    cases hr
  refine {
    perChat := fun c => ?_
    overall := ?_
    loaded := fun c => ?_
    keyed := fun c n r hr => ?_
    numbered := fun c n r hr => ?_
    known := fun t ht => ?_
    stamped := fun c n r hr => ?_
    counted := fun t ht => ?_ }
  · rw [chatTotals_restart h, activeTotals_of_current h hcurrent, hsame]
  · rw [globalMetrics_restart h, hsame, totalOf,
      ← sum_fibers (loadStore s.file).nodup_keys FinishedTurn.chatId FinishedTurn.metrics hchats]
    exact congrArg List.sum (List.map_congr_left fun c _ => activeTotals_of_current h hcurrent)
  · rw [hfile, hstates]
  · exact h.keyed c n r (record_restart h ▸ hr)
  · rw [nextSessionNumber, hstates]
    rw [record, hstates] at hr
    exact numbered_loadStore s.file c n r hr
  · rw [record_restart h]
    rw [hsame] at ht
    exact h.known t ht
  · rw [hsame]
    exact h.stamped c n r (record_restart h ▸ hr)
  · rw [hsame] at ht
    exact h.counted t ht

/-- A restart keeps the totals exactly when every chat is current. -/
theorem totalsHold_restart_iff
    (h : Sound s) :
    TotalsHold (restart s) ↔ Current s := by
  refine ⟨fun htotals => current_iff.mpr fun c t l hturns => ?_,
    fun hcurrent => (h.restart hcurrent).toTotalsHold⟩
  by_contra hother
  have hlt := activeTurns_lt h hturns hother
  have htotal := htotals.perChat c
  rw [chatTotals_restart h, sameHistory_restart.2.2] at htotal
  rw [htotal] at hlt
  exact absurd hlt (lt_irrefl _)

end Survival

section Claim

theorem Sound.step
    {s s' : State} {a : Label}
    (h : Sound s)
    (hcond : RestartsCurrent s a)
    (hstep : step s a = some s') :
    Sound s' := by
  cases a with
  | operation op =>
      obtain rfl := Option.some.inj hstep
      exact h.perform op
  | restart =>
      obtain rfl := Option.some.inj hstep
      exact h.restart hcond

/-- The totals hold in a sound state and all along its run exactly when every restart of
the run finds every chat current. -/
theorem totals_along
    {s : State}
    (h : Sound s)
    (labels : List Label) :
    (∀ before, before <+: labels → ∀ s', run step s before = some s' → TotalsHold s') ↔
      Guarded step RestartsCurrent s labels := by
  induction labels generalizing s with
  | nil =>
      refine ⟨fun _ => trivial, fun _ before hinitial s' hrun => ?_⟩
      obtain rfl := List.prefix_nil.mp hinitial
      obtain rfl := Option.some.inj hrun
      exact h.toTotalsHold
  | cons a labels ih =>
      constructor
      · intro hall
        have hcond : RestartsCurrent s a := by
          cases a with
          | operation op => trivial
          | restart =>
              exact (totalsHold_restart_iff h).mp
                (hall [.restart] (List.prefix_append [.restart] labels) (restart s) rfl)
        refine ⟨hcond, fun t hstep => (ih (h.step hcond hstep)).mp ?_⟩
        intro before hinitial s' hrun
        exact hall (a :: before) (List.prefix_cons_inj a |>.mpr hinitial) s'
          (run_cons_eq_some.mpr ⟨t, hstep, hrun⟩)
      · rintro ⟨hcond, hrest⟩ before hinitial s' hrun
        cases before with
        | nil =>
            obtain rfl := Option.some.inj hrun
            exact h.toTotalsHold
        | cons b before =>
            obtain ⟨rfl, hinner⟩ := List.cons_prefix_cons.mp hinitial
            obtain ⟨t, hstep, hrun⟩ := run_cons_eq_some.mp hrun
            exact (ih (h.step hcond hstep)).mpr (hrest t hstep) before hinner s' hrun

/-- In every run the totals hold all along exactly when every restart finds that the last
turn of each chat ended on the record that was updated last. -/
theorem totals_survive_iff
    (labels : List Label) :
    (∀ before, before <+: labels → ∀ s, run step {} before = some s → TotalsHold s) ↔
      Guarded step RestartsCurrent {} labels :=
  totals_along sound_initial labels

/-- A turn, `/new` and a restart: the turn is gone from all totals. -/
theorem new_session_loses_totals :
    ∃ s, run step {}
      [.operation (.finishTurn "chat" true (some (Dict.empty.set "totalTokens" 900)) 1),
        .operation (.newSession "chat" 2), .restart] = some s ∧
      totalOf (turnsOf "chat" s.turns) .totalTokens = 900 ∧
      chatTotals s "chat" .totalTokens = 0 ∧ s.globalMetrics .totalTokens = 0 ∧
      ¬ TotalsHold s := by
  refine ⟨_, rfl, by decide, by decide, by decide, fun h => ?_⟩
  have hchat := congrFun (h.perChat "chat") .totalTokens
  revert hchat
  decide

end Claim

end Metrics
end DiploidAgent
