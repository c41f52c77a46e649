import DiploidAgent.Lib.Runs
import DiploidAgent.Sessions.Store

/-!
# Session workspaces

The directories of `runtime/store.py` and what `turn/session.py` does to them:
the active directory of a chat, the archives of its sessions, and the sessions
that own them.  `new_session`, `switch_model`, `resume_session` and
`branch_session` copy and clear before the engine call that can fail; the
record that says who owns the active directory changes only after it.

A directory maps the names of its items to their contents, a file's bytes or
a whole tree; the `.archive` item of the active directory is kept apart.  What
the plugins declare durable is a parameter.  File operations succeed, except
that a missing archive cannot be listed.
-/

namespace DiploidAgent
namespace Sessions

open Runs

variable {κ : Type}

abbrev Dir (κ : Type) := Dict String κ

/-- `_CHAT_DURABLE_FILES`. -/
def chatDurableFiles : List String :=
  ["chat_transcript.jsonl", "chat_events.jsonl", "chat_MEMORY.md", "chat_PROMOTED.md",
    "chat_self_state.md", "chat_open_items.jsonl", "chat_body_state.json",
    "hindsight-pending-retain.jsonl"]

/-- `item.suffix == ".lock"`; a name that is only the suffix has none. -/
def isLock (name : String) : Bool :=
  ".lock".toList.isSuffixOf name.toList && name != ".lock"

/-- `item.name in durable or item.name == ".archive"`. -/
def stays (durable : List String) (name : String) : Bool :=
  durable.contains name || name == ".archive"

/-- The items `copy_session_dir` copies. -/
def carried (durable : List String) (name : String) : Bool :=
  !stays durable name && !isLock name

/-- `copy_session_dir` from a directory that exists: the target is emptied and
the source copied over it. -/
def copySessionDir (durable : List String) (source target : Dir κ) : Dir κ :=
  source.entries.foldl (fun d e => if carried durable e.1 then d.set e.1 e.2 else d)
    (target.filter fun e => stays durable e.1)

/-- The directories of a chat and its sessions. -/
structure Chat (κ : Type) where
  active : Option (Dir κ) := none
  archives : Dict Nat (Dir κ) := Dict.empty
  state : ChatState := {}

/-- `active_record`. -/
def Chat.activeRecord (chat : Chat κ) : Option SessionRecord :=
  latest chat.state.sessions.values

/-- The active directory, empty while there is none. -/
def Chat.activeDir (chat : Chat κ) : Dir κ := chat.active.getD Dict.empty

/-- `archive_active_session`. -/
def archiveActiveSession (durable : List String) (chat : Chat κ) (n : Nat) : Chat κ :=
  match chat.active with
  | none => chat
  | some dir =>
      if dir.entries.isEmpty && chat.archives.entries.isEmpty then chat
      else { chat with archives :=
        chat.archives.set n (copySessionDir durable dir ((chat.archives.get n).getD Dict.empty)) }

/-- The items `clear_active_session` leaves. -/
def keptByClear (durable : List String) (name : String) : Bool :=
  stays durable name || name == ".snapshots" || isLock name

/-- `clear_active_session`. -/
def clearActiveSession (durable : List String) (chat : Chat κ) : Chat κ :=
  { chat with active := some (chat.activeDir.filter fun e => keptByClear durable e.1) }

/-- `copy_session_dir(archive_dir(n), chat_dir)`.  A missing archive raises after
the target has been emptied. -/
def restoreSession (durable : List String) (chat : Chat κ) (n : Nat) : Chat κ :=
  { chat with active := some (match chat.archives.get n with
      | none => chat.activeDir.filter fun e => stays durable e.1
      | some source => copySessionDir durable source chat.activeDir) }

/-- `next_session_number`. -/
def Chat.takeNumber (chat : Chat κ) : Chat κ :=
  { chat with state :=
      { chat.state with nextSessionNumber := chat.state.nextSessionNumber + 1 } }

/-- `sessions[record.session_number] = record` with a new `updated_at`. -/
def Chat.put (chat : Chat κ) (r : SessionRecord) : Chat κ :=
  { chat with state :=
      { chat.state with sessions := chat.state.sessions.set r.sessionNumber r } }

/-- How far an operation gets: a plugin hook raises before anything is done or
after the archiving; a veto or an exception ends it at the engine call. -/
inductive Stop where
  | atStart
  | afterArchive
  | inEngine
  | done
deriving DecidableEq

/-- The session that owns the active directory is archived. -/
def archiveOwner (durable : List String) (chat : Chat κ) : Chat κ :=
  match chat.activeRecord with
  | none => chat
  | some r => archiveActiveSession durable chat r.sessionNumber

/-- A record of `_create_record`. -/
def freshRecord (n : Nat) (now : Int) : SessionRecord :=
  { chatId := "", sessionNumber := n, updatedAt := now }

/-- `_start_fresh_session`. -/
def startFreshSession (durable : List String) (clearActive : Bool) (stop : Stop) (now : Int)
    (chat : Chat κ) : Chat κ :=
  if stop = .atStart then chat
  else
    let chat := archiveOwner durable chat
    if stop = .afterArchive then chat
    else
      let chat := if clearActive then clearActiveSession durable chat else chat
      if stop = .inEngine then chat.takeNumber
      else chat.takeNumber.put (freshRecord chat.state.nextSessionNumber now)

/-- `_resume_session` of a stored session that is not the active one. -/
def resumeSession (durable : List String) (source : SessionRecord) (stop : Stop) (now : Int)
    (chat : Chat κ) : Chat κ :=
  if stop = .atStart then chat
  else
    let chat := archiveOwner durable chat
    if stop = .afterArchive then chat
    else
      let restored := restoreSession durable chat source.sessionNumber
      if stop = .inEngine || (chat.archives.get source.sessionNumber).isNone then restored
      else restored.put { source with updatedAt := now }

/-- `_branch_session` of a stored session. -/
def branchSession (durable : List String) (source : SessionRecord) (stop : Stop) (now : Int)
    (chat : Chat κ) : Chat κ :=
  if stop = .atStart then chat
  else
    let chat := archiveOwner durable chat
    if stop = .afterArchive then chat
    else
      let restored := restoreSession durable chat source.sessionNumber
      if (chat.archives.get source.sessionNumber).isNone then restored
      else if stop = .inEngine then restored.takeNumber
      else restored.takeNumber.put (freshRecord chat.state.nextSessionNumber now)

/-- A chat, and the items each session had when it was last the active one. -/
structure World (κ : Type) where
  chat : Chat κ := {}
  had : Nat → String → Option κ := fun _ _ => none

/-- What happens to a chat: its session writes or deletes an item of the active
directory, a turn ends, or a session operation is called. -/
inductive Op (κ : Type) where
  | edit (name : String) (content : Option κ)
  | turn (now : Int)
  | newSession (stop : Stop) (now : Int)
  | switchModel (stop : Stop) (now : Int)
  | resumeSession (sessionNumber : Nat) (stop : Stop) (now : Int)
  | branchSession (sessionNumber : Nat) (stop : Stop) (now : Int)

/-- The session of the active record. -/
def Chat.owner (chat : Chat κ) : Option Nat := chat.activeRecord.map (·.sessionNumber)

/-- The archive an operation copies from is there when it comes to it. -/
def hasArchive (durable : List String) (chat : Chat κ) (n : Nat) : Bool :=
  ((archiveOwner durable chat).archives.get n).isSome

def editDir (dir : Dir κ) (name : String) : Option κ → Dir κ
  | none => dir.erase name
  | some c => dir.set name c

/-- One event.  A fresh session starts with what the active directory holds, a
branch with what its source had. -/
def happen (durable : List String) (w : World κ) : Op κ → Option (World κ)
  | .edit name content =>
      if name = ".archive" then none
      else some {
        chat := { w.chat with active := some (editDir w.chat.activeDir name content) }
        had := match w.chat.owner with
          | none => w.had
          | some n => Function.update w.had n (Function.update (w.had n) name content) }
  | .turn now =>
      match w.chat.activeRecord with
      | none => some w
      | some r => some { w with chat := w.chat.put { r with updatedAt := now } }
  | .newSession stop now =>
      let chat := startFreshSession durable true stop now w.chat
      some {
        chat := chat
        had := if stop = .done then
            Function.update w.had w.chat.state.nextSessionNumber chat.activeDir.get
          else w.had }
  | .switchModel stop now =>
      let chat := startFreshSession durable false stop now w.chat
      some {
        chat := chat
        had := if stop = .done then
            Function.update w.had w.chat.state.nextSessionNumber chat.activeDir.get
          else w.had }
  | .resumeSession n stop now =>
      match w.chat.state.sessions.get n with
      | none => some w
      | some source =>
          if w.chat.owner = some n then some w
          else some { w with chat := resumeSession durable source stop now w.chat }
  | .branchSession n stop now =>
      match w.chat.state.sessions.get n with
      | none => some w
      | some source => some {
          chat := branchSession durable source stop now w.chat
          had := if stop = .done ∧ hasArchive durable w.chat n = true then
              Function.update w.had w.chat.state.nextSessionNumber (w.had n)
            else w.had }

/-- The clock has moved past every session's last update. -/
def Later (chat : Chat κ) (now : Int) : Prop :=
  ∀ r ∈ chat.state.sessions.values, r.updatedAt < now

instance (chat : Chat κ) (now : Int) : Decidable (Later chat now) :=
  inferInstanceAs (Decidable (∀ r ∈ chat.state.sessions.values, r.updatedAt < now))

/-- No operation ends after it has cleared or replaced the active directory, and
the clock moves between the operations that change the active record. -/
def Completes (durable : List String) (w : World κ) : Op κ → Prop
  | .edit _ _ => True
  | .turn now => Later w.chat now
  | .newSession stop now => stop ≠ .inEngine ∧ (stop = .done → Later w.chat now)
  | .switchModel stop now => stop = .done → Later w.chat now
  | .resumeSession n stop now =>
      stop ≠ .inEngine ∧ (stop = .done → hasArchive durable w.chat n = true ∧ Later w.chat now)
  | .branchSession n stop now =>
      stop ≠ .inEngine ∧ (stop = .done → hasArchive durable w.chat n = true ∧ Later w.chat now)

/-- No session has lost an item, and the active directory is that of the session
whose record is active. -/
structure Held (durable : List String) (w : World κ) : Prop where
  numbered : ∀ n r, w.chat.state.sessions.get n = some r → r.sessionNumber = n
  below : ∀ n r, w.chat.state.sessions.get n = some r → n < w.chat.state.nextSessionNumber
  noDir : w.chat.active = none → w.chat.archives = Dict.empty
  active : ∀ n, w.chat.owner = some n → ∀ name, carried durable name = true →
    w.chat.activeDir.get name = w.had n name
  archived : ∀ n r, w.chat.state.sessions.get n = some r → w.chat.owner ≠ some n →
    ∀ name, carried durable name = true →
      (w.chat.archives.get n).bind (·.get name) = w.had n name

section Directories

variable {durable : List String} {name : String} {chat : Chat κ} {n : Nat}

/-- What is copied arrives. -/
theorem get_copySessionDir
    (source target : Dir κ) (hname : carried durable name = true) :
    (copySessionDir durable source target).get name = source.get name := by
  have hstays : stays durable name = false := by
    rw [carried, Bool.and_eq_true] at hname
    simpa using hname.1
  have htarget : (target.filter fun e => stays durable e.1).get name = none := by
    rw [Dict.get_filter]
    refine Option.eq_none_iff_forall_not_mem.mpr fun c hc => ?_
    rw [Option.mem_def, Option.filter_eq_some_iff] at hc
    rw [hstays] at hc
    cases hc.2
  rw [copySessionDir, Dict.get_foldl_set _ source.nodup_keys, if_pos hname, htarget, Option.or_none]
  rfl

/-- The archive of the owner holds what the active directory holds. -/
theorem get_archiveActive
    (hnoDir : chat.active = none → chat.archives = Dict.empty)
    (hname : carried durable name = true) :
    ((archiveActiveSession durable chat n).archives.get n).bind (·.get name) =
      chat.activeDir.get name := by
  unfold archiveActiveSession
  cases hactive : chat.active with
  | none =>
      simp [hnoDir hactive, Chat.activeDir, hactive]
  | some dir =>
      have hdir : chat.activeDir = dir := by
        rw [Chat.activeDir, hactive, Option.getD_some]
      by_cases hempty : (dir.entries.isEmpty && chat.archives.entries.isEmpty) = true
      · simp only [if_pos hempty]
        rw [Bool.and_eq_true, List.isEmpty_iff, List.isEmpty_iff] at hempty
        have harchives : chat.archives = Dict.empty := Dict.ext_entries hempty.2
        have hdirEmpty : dir = Dict.empty := Dict.ext_entries hempty.1
        rw [hdir, harchives, hdirEmpty]
        rfl
      · simp only [if_neg hempty]
        rw [Dict.get_set_self, Option.bind_some, get_copySessionDir _ _ hname, hdir]

theorem archives_archiveActive_of_ne
    {n' : Nat} (hne : n ≠ n') :
    (archiveActiveSession durable chat n).archives.get n' = chat.archives.get n' := by
  unfold archiveActiveSession
  cases chat.active with
  | none => rfl
  | some dir =>
      simp only
      split_ifs
      · rfl
      · exact Dict.get_set_of_ne _ hne _

@[simp] theorem active_archiveActive :
    (archiveActiveSession durable chat n).active = chat.active := by
  unfold archiveActiveSession
  cases hactive : chat.active with
  | none => exact hactive
  | some dir =>
      simp only
      split_ifs
      · exact hactive
      · rfl

@[simp] theorem state_archiveActive :
    (archiveActiveSession durable chat n).state = chat.state := by
  unfold archiveActiveSession
  cases chat.active with
  | none => rfl
  | some dir =>
      simp only
      split_ifs <;> rfl

@[simp] theorem active_archiveOwner :
    (archiveOwner durable chat).active = chat.active := by
  unfold archiveOwner
  cases chat.activeRecord with
  | none => rfl
  | some r => exact active_archiveActive

@[simp] theorem state_archiveOwner :
    (archiveOwner durable chat).state = chat.state := by
  unfold archiveOwner
  cases chat.activeRecord with
  | none => rfl
  | some r => exact state_archiveActive

theorem archives_archiveOwner
    {m : Nat} (hm : chat.owner ≠ some m) :
    (archiveOwner durable chat).archives.get m = chat.archives.get m := by
  unfold archiveOwner
  cases howner : chat.activeRecord with
  | none => rfl
  | some r =>
      refine archives_archiveActive_of_ne fun heq => hm ?_
      rw [Chat.owner, howner, Option.map_some, heq]

theorem noDir_archiveOwner
    (hnoDir : chat.active = none → chat.archives = Dict.empty) :
    (archiveOwner durable chat).active = none →
      (archiveOwner durable chat).archives = Dict.empty := by
  intro hnone
  rw [active_archiveOwner] at hnone
  unfold archiveOwner
  cases chat.activeRecord with
  | none => exact hnoDir hnone
  | some r =>
      simp only [archiveActiveSession, hnone]
      exact hnoDir hnone

/-- The record with the latest update is the active one. -/
theorem latest_of_max
    {l : List SessionRecord} {r : SessionRecord} (hr : r ∈ l)
    (hmax : ∀ x ∈ l, x = r ∨ x.updatedAt < r.updatedAt) :
    latest l = some r := by
  induction l with
  | nil => cases hr
  | cons a l ih =>
      have htail : r ∈ l → latest l = some r := fun h =>
        ih h fun x hx => hmax x (List.mem_cons_of_mem _ hx)
      rw [latest]
      cases hl : latest l with
      | none =>
          rcases List.mem_cons.mp hr with rfl | hr
          · rfl
          · rw [htail hr] at hl
            cases hl
      | some best =>
          simp only
          split_ifs with hle
          · rcases hmax a List.mem_cons_self with rfl | hlt
            · rfl
            · rcases List.mem_cons.mp hr with rfl | hr
              · rfl
              · obtain rfl := Option.some.inj (hl.symm.trans (htail hr))
                exact absurd hlt (Int.not_lt.mpr hle)
          · rcases List.mem_cons.mp hr with rfl | hr
            · rcases hmax best (List.mem_cons_of_mem _ (mem_of_latest hl)) with rfl | hlt
              · exact absurd (Int.le_refl _) hle
              · exact absurd (Int.le_of_lt hlt) hle
            · rw [← hl, htail hr]

/-- A record that is stored later than every other takes the active directory. -/
theorem owner_put
    {r : SessionRecord} (hlater : Later chat r.updatedAt) :
    (chat.put r).owner = some r.sessionNumber := by
  have hlatest : latest (chat.state.sessions.set r.sessionNumber r).values = some r := by
    refine latest_of_max (Dict.mem_values_of_get (Dict.get_set_self _ _ _)) fun x hx => ?_
    obtain ⟨m, hm⟩ := Dict.exists_get_of_mem_values hx
    rw [Dict.get_set] at hm
    split_ifs at hm
    · exact Or.inl (Option.some.inj hm).symm
    · exact Or.inr (hlater x (Dict.mem_values_of_get hm))
  rw [Chat.owner, Chat.activeRecord, Chat.put, hlatest, Option.map_some]

end Directories

section Keeping

variable {durable : List String} {w w' : World κ}

/-- Archiving the owner leaves every session's items in its archive. -/
theorem archived_archiveOwner
    (hw : Held durable w) {n : Nat} {r : SessionRecord}
    (hr : w.chat.state.sessions.get n = some r) {name : String}
    (hname : carried durable name = true) :
    ((archiveOwner durable w.chat).archives.get n).bind (·.get name) = w.had n name := by
  by_cases howner : w.chat.owner = some n
  · obtain ⟨a, ha, hnumber⟩ := Option.map_eq_some_iff.mp howner
    have hheld := hw.active n howner name hname
    rw [← hheld, ← hnumber]
    unfold archiveOwner
    rw [ha]
    exact get_archiveActive hw.noDir hname
  · rw [archives_archiveOwner howner]
    exact hw.archived n r hr howner name hname

/-- Archiving alone changes nothing of what is held. -/
theorem held_archiveOwner
    (hw : Held durable w) :
    Held durable { w with chat := archiveOwner durable w.chat } := by
  refine {
    numbered := ?_
    below := ?_
    noDir := noDir_archiveOwner hw.noDir
    active := ?_
    archived := ?_ }
  · intro n r hr
    rw [state_archiveOwner] at hr
    exact hw.numbered n r hr
  · intro n r hr
    rw [state_archiveOwner] at hr ⊢
    exact hw.below n r hr
  · intro n hn name hname
    rw [Chat.owner, Chat.activeRecord, state_archiveOwner] at hn
    rw [Chat.activeDir, active_archiveOwner]
    exact hw.active n hn name hname
  · intro n r hr _ name hname
    rw [state_archiveOwner] at hr
    exact archived_archiveOwner hw hr hname

/-- Taking a number without using it. -/
theorem held_takeNumber
    (hw : Held durable w) :
    Held durable { w with chat := w.chat.takeNumber } :=
  { numbered := hw.numbered
    below := fun n r hr => Nat.lt_succ_of_lt (hw.below n r hr)
    noDir := hw.noDir
    active := hw.active
    archived := hw.archived }

/-- A new session takes over an active directory that holds what it starts with. -/
theorem held_fresh
    (base : Chat κ) (hw : Held durable w) {now : Int} (hlater : Later w.chat now)
    (hstate : base.state = w.chat.state)
    (harchives : base.archives = (archiveOwner durable w.chat).archives)
    (hnoDir : base.active = none → base.archives = Dict.empty) {start : String → Option κ}
    (hstart : ∀ name, carried durable name = true → base.activeDir.get name = start name) :
    Held durable {
      chat := base.takeNumber.put (freshRecord base.state.nextSessionNumber now)
      had := Function.update w.had w.chat.state.nextSessionNumber start } := by
  rw [hstate]
  have howner : (base.takeNumber.put (freshRecord w.chat.state.nextSessionNumber now)).owner =
      some w.chat.state.nextSessionNumber := by
    refine owner_put fun r hr => ?_
    simp only [Chat.takeNumber, hstate] at hr
    exact hlater r hr
  refine {
    numbered := ?_
    below := ?_
    noDir := hnoDir
    active := ?_
    archived := ?_ }
  · intro n r hr
    simp only [Chat.put, Chat.takeNumber, hstate, freshRecord] at hr
    rw [Dict.get_set] at hr
    split_ifs at hr with heq
    · obtain rfl := Option.some.inj hr
      exact heq
    · exact hw.numbered n r hr
  · intro n r hr
    simp only [Chat.put, Chat.takeNumber, hstate, freshRecord] at hr ⊢
    rw [Dict.get_set] at hr
    split_ifs at hr with heq
    · rw [← heq]
      exact Nat.lt_succ_self _
    · exact Nat.lt_succ_of_lt (hw.below n r hr)
  · intro n hn name hname
    rw [howner] at hn
    obtain rfl := Option.some.inj hn
    simp only [Function.update_self]
    exact hstart name hname
  · intro n r hr hown name hname
    have hother : w.chat.state.nextSessionNumber ≠ n := by
      rintro rfl
      exact hown howner
    simp only [Chat.put, Chat.takeNumber, hstate, freshRecord] at hr
    rw [Dict.get_set_of_ne _ hother] at hr
    simp only [Function.update_of_ne hother.symm]
    have hsame : (base.takeNumber.put (freshRecord w.chat.state.nextSessionNumber now)).archives =
        (archiveOwner durable w.chat).archives := harchives
    rw [hsame]
    exact archived_archiveOwner hw hr hname

/-- A session whose record is written later takes over an active directory that
holds what it had. -/
theorem held_return
    (base : Chat κ) (hw : Held durable w) {now : Int} (hlater : Later w.chat now)
    (hstate : base.state = w.chat.state)
    (hnoDir : base.active = none → base.archives = Dict.empty) {n : Nat} {r : SessionRecord}
    (hr : w.chat.state.sessions.get n = some r)
    (hothers : ∀ m x, w.chat.state.sessions.get m = some x → n ≠ m →
      ∀ name, carried durable name = true →
        (base.archives.get m).bind (·.get name) = w.had m name)
    (hstart : ∀ name, carried durable name = true → base.activeDir.get name = w.had n name) :
    Held durable { w with chat := base.put { r with updatedAt := now } } := by
  obtain rfl := hw.numbered n r hr
  have howner : (base.put { r with updatedAt := now }).owner = some r.sessionNumber := by
    refine owner_put fun x hx => ?_
    rw [hstate] at hx
    exact hlater x hx
  have hsessions : ∀ m x, (base.put { r with updatedAt := now }).state.sessions.get m = some x →
      r.sessionNumber = m ∧ x = { r with updatedAt := now } ∨
        r.sessionNumber ≠ m ∧ w.chat.state.sessions.get m = some x := by
    intro m x hx
    simp only [Chat.put, hstate] at hx
    rw [Dict.get_set] at hx
    split_ifs at hx with heq
    · exact Or.inl ⟨heq, (Option.some.inj hx).symm⟩
    · exact Or.inr ⟨heq, hx⟩
  refine {
    numbered := ?_
    below := ?_
    noDir := hnoDir
    active := ?_
    archived := ?_ }
  · intro m x hx
    rcases hsessions m x hx with ⟨rfl, rfl⟩ | ⟨-, hx⟩
    · rfl
    · exact hw.numbered m x hx
  · intro m x hx
    simp only [Chat.put, hstate]
    rcases hsessions m x hx with ⟨rfl, rfl⟩ | ⟨-, hx⟩
    · exact hw.below _ r hr
    · exact hw.below m x hx
  · intro m hm name hname
    obtain rfl := Option.some.inj (howner.symm.trans hm)
    exact hstart name hname
  · intro m x hx hown name hname
    rcases hsessions m x hx with ⟨rfl, -⟩ | ⟨hne, hx⟩
    · exact absurd howner hown
    · exact hothers m x hx hne name hname

theorem get_restoreSession
    (hw : Held durable w) {n : Nat} {r : SessionRecord}
    (hr : w.chat.state.sessions.get n = some r) (harchive : hasArchive durable w.chat n = true)
    {name : String} (hname : carried durable name = true) :
    (restoreSession durable (archiveOwner durable w.chat) n).activeDir.get name = w.had n name := by
  obtain ⟨source, hsource⟩ := Option.isSome_iff_exists.mp harchive
  have hheld := archived_archiveOwner hw hr hname
  rw [hsource, Option.bind_some] at hheld
  simp only [restoreSession, hsource, Chat.activeDir, Option.getD_some]
  rw [get_copySessionDir _ _ hname]
  exact hheld

/-- The session in the active directory changes an item of it. -/
theorem held_edit
    (hw : Held durable w) (name : String) (content : Option κ) :
    Held durable {
      chat := { w.chat with active := some (editDir w.chat.activeDir name content) }
      had := match w.chat.owner with
        | none => w.had
        | some n => Function.update w.had n (Function.update (w.had n) name content) } := by
  have hdir : ∀ name', (editDir w.chat.activeDir name content).get name' =
      if name = name' then content else w.chat.activeDir.get name' := by
    intro name'
    cases content with
    | none => exact Dict.get_erase _ _ _
    | some c => exact Dict.get_set _ _ _ _
  refine {
    numbered := hw.numbered
    below := hw.below
    noDir := fun h => nomatch h
    active := ?_
    archived := ?_ }
  · intro n hn name' hname
    have hown : w.chat.owner = some n := hn
    have hheld := hw.active n hown name' hname
    simp only [hown, Function.update_self]
    refine (hdir name').trans ?_
    by_cases heq : name = name'
    · subst heq
      rw [if_pos rfl, Function.update_self]
    · rw [if_neg heq, Function.update_of_ne (Ne.symm heq)]
      exact hheld
  · intro n r hr hown name' hname
    have hheld := hw.archived n r hr hown name' hname
    cases howner : w.chat.owner with
    | none => exact hheld
    | some m =>
        have hne : n ≠ m := by
          rintro rfl
          exact hown howner
        simp only [Function.update_of_ne hne]
        exact hheld

theorem held_turn
    (hw : Held durable w) {now : Int} (hlater : Later w.chat now) {r : SessionRecord}
    (hactive : w.chat.activeRecord = some r) :
    Held durable { w with chat := w.chat.put { r with updatedAt := now } } := by
  obtain ⟨n, hn⟩ := Dict.exists_get_of_mem_values (mem_of_latest hactive)
  obtain rfl := hw.numbered n r hn
  have howner : w.chat.owner = some r.sessionNumber := by
    rw [Chat.owner, hactive, Option.map_some]
  refine held_return w.chat hw hlater rfl hw.noDir hn (fun m x hx hne => ?_) (hw.active _ howner)
  refine hw.archived m x hx fun hown => hne ?_
  exact Option.some.inj (howner.symm.trans hown)

theorem held_startFresh
    (hw : Held durable w) {clearActive : Bool} {stop : Stop} {now : Int}
    (hstop : clearActive = true → stop ≠ .inEngine) (hlater : stop = .done → Later w.chat now) :
    Held durable {
      chat := startFreshSession durable clearActive stop now w.chat
      had := if stop = .done then
          Function.update w.had w.chat.state.nextSessionNumber
            (startFreshSession durable clearActive stop now w.chat).activeDir.get
        else w.had } := by
  have hnoDir : (archiveOwner durable w.chat).active = none →
      (archiveOwner durable w.chat).archives = Dict.empty := noDir_archiveOwner hw.noDir
  cases stop with
  | atStart => exact hw
  | afterArchive => exact held_archiveOwner hw
  | inEngine =>
      cases clearActive with
      | true => exact absurd rfl (hstop rfl)
      | false => exact held_takeNumber (held_archiveOwner hw)
  | done =>
      cases clearActive with
      | true =>
          exact held_fresh (clearActiveSession durable (archiveOwner durable w.chat)) hw
            (hlater rfl) state_archiveOwner rfl (fun h => by cases h) fun _ _ => rfl
      | false =>
          exact held_fresh (archiveOwner durable w.chat) hw (hlater rfl)
            state_archiveOwner rfl hnoDir fun _ _ => rfl

theorem held_resume
    (hw : Held durable w) {n : Nat} {source : SessionRecord} {stop : Stop} {now : Int}
    (hsource : w.chat.state.sessions.get n = some source) (hstop : stop ≠ .inEngine)
    (hdone : stop = .done → hasArchive durable w.chat n = true ∧ Later w.chat now) :
    Held durable { w with chat := resumeSession durable source stop now w.chat } := by
  obtain rfl := hw.numbered n source hsource
  cases stop with
  | atStart => exact hw
  | afterArchive => exact held_archiveOwner hw
  | inEngine => exact absurd rfl hstop
  | done =>
      obtain ⟨harchive, hlater⟩ := hdone rfl
      have hresult : resumeSession durable source .done now w.chat =
          (restoreSession durable (archiveOwner durable w.chat) source.sessionNumber).put
            { source with updatedAt := now } := by
        obtain ⟨dir, hdir⟩ := Option.isSome_iff_exists.mp harchive
        simp [resumeSession, hdir]
      rw [hresult]
      exact held_return (restoreSession durable (archiveOwner durable w.chat) source.sessionNumber)
        hw hlater state_archiveOwner (fun h => by cases h) hsource
        (fun m x hx _ name hname => archived_archiveOwner hw hx hname)
        fun name hname => get_restoreSession hw hsource harchive hname

theorem held_branch
    (hw : Held durable w) {n : Nat} {source : SessionRecord} {stop : Stop} {now : Int}
    (hsource : w.chat.state.sessions.get n = some source) (hstop : stop ≠ .inEngine)
    (hdone : stop = .done → hasArchive durable w.chat n = true ∧ Later w.chat now) :
    Held durable {
      chat := branchSession durable source stop now w.chat
      had := if stop = .done ∧ hasArchive durable w.chat n = true then
          Function.update w.had w.chat.state.nextSessionNumber (w.had n)
        else w.had } := by
  obtain rfl := hw.numbered n source hsource
  cases stop with
  | atStart => exact hw
  | afterArchive => exact held_archiveOwner hw
  | inEngine => exact absurd rfl hstop
  | done =>
      obtain ⟨harchive, hlater⟩ := hdone rfl
      have hresult : branchSession durable source .done now w.chat =
          (restoreSession durable (archiveOwner durable w.chat) source.sessionNumber).takeNumber.put
            (freshRecord (archiveOwner durable w.chat).state.nextSessionNumber now) := by
        obtain ⟨dir, hdir⟩ := Option.isSome_iff_exists.mp harchive
        simp [branchSession, hdir]
      rw [hresult, if_pos ⟨rfl, harchive⟩]
      exact held_fresh (restoreSession durable (archiveOwner durable w.chat) source.sessionNumber)
        hw hlater state_archiveOwner rfl (fun h => by cases h)
        fun name hname => get_restoreSession hw hsource harchive hname

theorem held_step
    {op : Op κ} (hw : Held durable w) (hcomplete : Completes durable w op)
    (h : happen durable w op = some w') :
    Held durable w' := by
  cases op with
  | edit name content =>
      simp only [happen] at h
      split_ifs at h
      obtain rfl := Option.some.inj h
      exact held_edit hw name content
  | turn now =>
      simp only [happen] at h
      cases hactive : w.chat.activeRecord with
      | none =>
          rw [hactive] at h
          obtain rfl := Option.some.inj h
          exact hw
      | some r =>
          rw [hactive] at h
          obtain rfl := Option.some.inj h
          exact held_turn hw hcomplete hactive
  | newSession stop now =>
      obtain rfl := Option.some.inj h
      exact held_startFresh hw (fun _ => hcomplete.1) hcomplete.2
  | switchModel stop now =>
      obtain rfl := Option.some.inj h
      exact held_startFresh hw (fun h => by cases h) hcomplete
  | resumeSession n stop now =>
      simp only [happen] at h
      cases hsource : w.chat.state.sessions.get n with
      | none =>
          rw [hsource] at h
          obtain rfl := Option.some.inj h
          exact hw
      | some source =>
          rw [hsource] at h
          simp only at h
          split_ifs at h
          · obtain rfl := Option.some.inj h
            exact hw
          · obtain rfl := Option.some.inj h
            exact held_resume hw hsource hcomplete.1 hcomplete.2
  | branchSession n stop now =>
      simp only [happen] at h
      cases hsource : w.chat.state.sessions.get n with
      | none =>
          rw [hsource] at h
          obtain rfl := Option.some.inj h
          exact hw
      | some source =>
          rw [hsource] at h
          obtain rfl := Option.some.inj h
          exact held_branch hw hsource hcomplete.1 hcomplete.2

end Keeping

/-- A chat without sessions, whatever its directory holds. -/
def newWorld (dir : Option (Dir κ)) : World κ := { chat := { active := dir } }

theorem held_newWorld
    (durable : List String) (dir : Option (Dir κ)) :
    Held durable (newWorld dir) :=
  { numbered := fun _ _ h => nomatch h
    below := fun _ _ h => nomatch h
    noDir := fun _ => rfl
    active := fun _ h => nomatch h
    archived := fun _ _ h => nomatch h }

/-- In every run that meets the condition each session's items are in the active
directory while it owns it and in its archive otherwise, and the active
directory holds what its owner has. -/
theorem workspaces_kept
    (durable : List String) (dir : Option (Dir κ)) (w : World κ)
    (hreach : Reach (happen durable) (Completes durable) (newWorld dir) w) :
    (∀ n r, w.chat.state.sessions.get n = some r →
      ∀ name c, carried durable name = true → w.had n name = some c →
        (w.chat.owner = some n ∧ w.chat.activeDir.get name = some c) ∨
          (w.chat.archives.get n).bind (·.get name) = some c) ∧
      ∀ n, w.chat.owner = some n → ∀ name, carried durable name = true →
        w.chat.activeDir.get name = w.had n name := by
  have hheld : Held durable w := hreach.invariant (held_newWorld durable dir)
    fun _ _ _ hw hcomplete hstep => held_step hw hcomplete hstep
  refine ⟨fun n r hr name c hname hc => ?_, hheld.active⟩
  by_cases howner : w.chat.owner = some n
  · exact Or.inl ⟨howner, (hheld.active n howner name hname).trans hc⟩
  · exact Or.inr ((hheld.archived n r hr howner name hname).trans hc)

/-- A check that is enough for `Completes`. -/
def completes (durable : List String) (w : World κ) : Op κ → Bool
  | .edit _ _ => true
  | .turn now => decide (Later w.chat now)
  | .newSession stop now => stop != .inEngine && decide (Later w.chat now)
  | .switchModel _ now => decide (Later w.chat now)
  | .resumeSession n stop now =>
      stop != .inEngine && hasArchive durable w.chat n && decide (Later w.chat now)
  | .branchSession n stop now =>
      stop != .inEngine && hasArchive durable w.chat n && decide (Later w.chat now)

theorem completes_sound
    (durable : List String) (w : World κ) (op : Op κ) (h : completes durable w op = true) :
    Completes durable w op := by
  cases op with
  | edit name content => trivial
  | turn now => simpa [completes, Completes] using h
  | newSession stop now =>
      rw [completes, Bool.and_eq_true, bne_iff_ne, decide_eq_true_eq] at h
      exact ⟨h.1, fun _ => h.2⟩
  | switchModel stop now => exact fun _ => of_decide_eq_true h
  | resumeSession n stop now =>
      rw [completes, Bool.and_eq_true, Bool.and_eq_true, bne_iff_ne, decide_eq_true_eq] at h
      exact ⟨h.1.1, fun _ => ⟨h.1.2, h.2⟩⟩
  | branchSession n stop now =>
      rw [completes, Bool.and_eq_true, Bool.and_eq_true, bne_iff_ne, decide_eq_true_eq] at h
      exact ⟨h.1.1, fun _ => ⟨h.1.2, h.2⟩⟩

/-- A session with notes, a second one, and the first again. -/
def backAgain : List (Op Nat) :=
  [.newSession .done 10, .edit "notes.md" (some 1), .newSession .done 20,
    .edit "plan.md" (some 2), .resumeSession 1 .done 30]

theorem workspaces_kept_backAgain :
    ∃ w, run (happen chatDurableFiles) (newWorld none) backAgain = some w ∧
      w.chat.owner = some 1 ∧ w.had 1 "notes.md" = some 1 ∧
      w.chat.activeDir.get "notes.md" = w.had 1 "notes.md" := by
  have hrun : run (happen chatDurableFiles) (newWorld none) backAgain =
      some ((run (happen chatDurableFiles) (newWorld none) backAgain).getD (newWorld none)) := rfl
  have hguarded : Guarded (happen chatDurableFiles) (Completes chatDurableFiles) (newWorld none)
      backAgain :=
    guarded_of_checkRun (completes chatDurableFiles) (completes_sound chatDurableFiles) (by decide)
  exact ⟨_, hrun, by decide, by decide,
    (workspaces_kept chatDurableFiles none _ (reach_of_run hrun hguarded)).2 1 (by decide)
      "notes.md" (by decide)⟩

/-- A session with notes and a `/new` that a plugin vetoes. -/
def vetoed : List (Op Nat) :=
  [.newSession .done 10, .edit "notes.md" (some 1), .newSession .inEngine 20]

/-- The vetoed `/new` empties the directory of the session that stays active, and
the next one overwrites its archive. -/
theorem workspace_lost :
    ∃ w w', Reach (happen chatDurableFiles) (fun _ _ => True) (newWorld none) w ∧
      w.chat.owner = some 1 ∧ w.had 1 "notes.md" = some 1 ∧
      w.chat.activeDir.get "notes.md" = none ∧
      Reach (happen chatDurableFiles) (fun _ _ => True) w w' ∧
      w'.chat.owner = some 3 ∧ w'.had 1 "notes.md" = some 1 ∧
      (w'.chat.archives.get 1).bind (·.get "notes.md") = none ∧
      w'.chat.activeDir.get "notes.md" = none := by
  have hveto : run (happen chatDurableFiles) (newWorld none) vetoed =
      some ((run (happen chatDurableFiles) (newWorld none) vetoed).getD (newWorld none)) := rfl
  have hnext : run (happen chatDurableFiles)
      ((run (happen chatDurableFiles) (newWorld none) vetoed).getD (newWorld none))
        [.newSession .done 30] =
      some ((run (happen chatDurableFiles)
        ((run (happen chatDurableFiles) (newWorld none) vetoed).getD (newWorld none))
          [.newSession .done 30]).getD (newWorld none)) := rfl
  exact ⟨_, _, reach_of_run_free hveto, by decide, by decide, by decide,
    reach_of_run_free hnext, by decide, by decide, by decide, by decide⟩

end Sessions
end DiploidAgent
