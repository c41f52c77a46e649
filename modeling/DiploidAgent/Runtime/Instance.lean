import Mathlib.Logic.Function.Basic
import DiploidAgent.Lib.Runs

/-!
# The chat lock

`InstanceManager.acquire` and `release` of `runtime/instance.py`, and the three
entry points of `runtime/ingress.py` that call them: `process`, `continue_turn`
and `wake`, whose dispatch branch calls `continue_turn` while it holds the chat.
Both operations run under the manager's own lock, so each is one step.

`acquire` lets the holder in again without counting, and `release` frees the
chat whoever calls it.  The nested `continue_turn` of a wake therefore frees the
chat before the wake is over; `chat_exclusive` shows that this window is the
only way to lose mutual exclusion.
-/

namespace DiploidAgent
namespace Instance

open Runs

/-- `_held`, `_holder` and `_fds`, for the threads of one process. -/
structure Manager where
  held : String → Bool
  holder : String → Option Nat
  fds : String → Option Nat

/-- What an attempt to lock the chat's lock file meets: a free file, one that
another process has locked, or the entry of another live instance. -/
inductive LockFile where
  | free (fd : Nat)
  | locked
  | foreign
deriving DecidableEq, Repr

namespace Manager

def empty : Manager :=
  { held := fun _ => false, holder := fun _ => none, fds := fun _ => none }

/-- `acquire` by a thread. -/
def acquire (m : Manager) (thread : Nat) (chat : String) (file : LockFile) :
    Manager × Bool :=
  if m.held chat then (m, m.holder chat == some thread)
  else
    match file with
    | .free fd =>
        ({ held := Function.update m.held chat true
           holder := Function.update m.holder chat (some thread)
           fds := Function.update m.fds chat (some fd) }, true)
    | .locked => (m, false)
    | .foreign => (m, false)

/-- `release`. -/
def release (m : Manager) (chat : String) : Manager :=
  { held := Function.update m.held chat false
    holder := Function.update m.holder chat none
    fds := Function.update m.fds chat none }

end Manager

/-- Where a thread stands.  `wakeReturn` is a wake whose nested `continue_turn`
has returned; the flag says that it released the chat of the wake. -/
inductive Pc where
  | idle
  | process (chat : String)
  | continueTurn (chat : String)
  | wake (chat : String)
  | wakeContinue (outer inner : String)
  | wakeReturn (outer : String) (released : Bool)
deriving DecidableEq, Repr

/-- Between the outermost `acquire` of the chat and its matching `release`. -/
def Pc.inside : Pc → String → Bool
  | .idle, _ => false
  | .process chat, c => chat == c
  | .continueTurn chat, c => chat == c
  | .wake chat, c => chat == c
  | .wakeContinue outer inner, c => outer == c || inner == c
  | .wakeReturn outer _, c => outer == c

structure State where
  manager : Manager
  pc : Nat → Pc

def initial : State := { manager := .empty, pc := fun _ => .idle }

/-- The three entry points. -/
inductive Entry where
  | process
  | continueTurn
  | wake
deriving DecidableEq, Repr

def Entry.pc (chat : String) : Entry → Pc
  | .process => .process chat
  | .continueTurn => .continueTurn chat
  | .wake => .wake chat

/-- One step: a thread enters, a wake calls `continue_turn` for a dispatch of the
chat `inner`, or the innermost call of a thread runs its `finally`. -/
inductive Label where
  | enter (thread : Nat) (entry : Entry) (chat : String) (file : LockFile)
  | nested (thread : Nat) (inner : String) (file : LockFile)
  | finish (thread : Nat)
deriving DecidableEq, Repr

def State.move (s : State) (thread : Nat) (manager : Manager) (pc : Pc) : State :=
  { manager := manager, pc := Function.update s.pc thread pc }

def step (s : State) : Label → Option State
  | .enter t entry chat file =>
      match s.pc t with
      | .idle =>
          let r := s.manager.acquire t chat file
          some (s.move t r.1 (if r.2 then entry.pc chat else .idle))
      | _ => none
  | .nested t inner file =>
      match s.pc t with
      | .wake outer =>
          let r := s.manager.acquire t inner file
          some (s.move t r.1 (if r.2 then .wakeContinue outer inner else .wakeReturn outer false))
      | _ => none
  | .finish t =>
      match s.pc t with
      | .idle => none
      | .process chat => some (s.move t (s.manager.release chat) .idle)
      | .continueTurn chat => some (s.move t (s.manager.release chat) .idle)
      | .wake chat => some (s.move t (s.manager.release chat) .idle)
      | .wakeContinue outer inner =>
          some (s.move t (s.manager.release inner) (.wakeReturn outer (inner == outer)))
      | .wakeReturn outer _ => some (s.move t (s.manager.release outer) .idle)

/-- At most one thread is inside a chat. -/
def Exclusive (s : State) : Prop :=
  ∀ t u c, (s.pc t).inside c = true → (s.pc u).inside c = true → t = u

/-- A release frees no hold of another thread. -/
def OwnReleases (s : State) : Prop :=
  ∀ t s', step s (.finish t) = some s' →
    ∀ c u, s.manager.holder c = some u → s'.manager.holder c ≠ some u → u = t

/-- The condition: no thread finds the lock file of a chat free while another
thread is between the nested release of the chat and its own outer release. -/
def Unexposed (s : State) : Label → Prop
  | .enter t _ chat (.free _) => ∀ u, u ≠ t → s.pc u ≠ .wakeReturn chat true
  | .nested t inner (.free _) => ∀ u, u ≠ t → s.pc u ≠ .wakeReturn inner true
  | _ => True

section Invariant

/-- `holds`: who is inside a chat holds it, but for a wake whose nested turn has
released it; `exposed`: such a wake is alone. -/
structure Inv (s : State) : Prop where
  held : ∀ c, s.manager.held c = (s.manager.holder c).isSome
  owner : ∀ c t, s.manager.holder c = some t → (s.pc t).inside c = true ∧
    s.pc t ≠ .wakeReturn c true
  holds : ∀ c t, (s.pc t).inside c = true → s.pc t ≠ .wakeReturn c true →
    s.manager.holder c = some t
  exposed : ∀ c t, s.pc t = .wakeReturn c true →
    s.manager.holder c = none ∧ ∀ u, (s.pc u).inside c = true → u = t

variable {s s' : State} {t u : Nat} {c : String}

theorem Inv.exclusive
    (h : Inv s) :
    Exclusive s := by
  intro t u c ht hu
  by_cases hte : s.pc t = .wakeReturn c true
  · exact ((h.exposed c t hte).2 u hu).symm
  · by_cases hue : s.pc u = .wakeReturn c true
    · exact (h.exposed c u hue).2 t ht
    · have heq := (h.holds c t ht hte).symm.trans (h.holds c u hu hue)
      exact Option.some.inj heq

/-- A thread that is not exposed at `c` gives the chat back when it holds it. -/
theorem Inv.leave
    {pc : Pc}
    (h : Inv s)
    (hin : (s.pc t).inside c = true)
    (hrest : ∀ d, d ≠ c → (pc.inside d = (s.pc t).inside d ∧
      (pc = .wakeReturn d true ↔ s.pc t = .wakeReturn d true)))
    (hpc : pc.inside c = true → pc = .wakeReturn c true) :
    Inv (s.move t (s.manager.release c) pc) := by
  have hself : (s.move t (s.manager.release c) pc).pc t = pc := by simp [State.move]
  have hother : ∀ u, u ≠ t → (s.move t (s.manager.release c) pc).pc u = s.pc u := by
    intro u hu
    simp [State.move, hu]
  have hfree : (s.move t (s.manager.release c) pc).manager.holder c = none := by
    simp [State.move, Manager.release]
  have hkeep : ∀ d, d ≠ c →
      (s.move t (s.manager.release c) pc).manager.holder d = s.manager.holder d := by
    intro d hd
    simp [State.move, Manager.release, hd]
  have halone : ∀ u, u ≠ t → (s.pc u).inside c ≠ true :=
    fun u hu hin' => hu (h.exclusive u t c hin' hin)
  refine ⟨fun d => ?_, fun d u hd => ?_, fun d u hd hne => ?_, fun d u hd => ?_⟩
  · rcases eq_or_ne d c with rfl | hdc
    · simp [State.move, Manager.release]
    · simp [State.move, Manager.release, hdc, h.held d]
  · have hdc : d ≠ c := by
      rintro rfl
      rw [hfree] at hd
      cases hd
    rw [hkeep d hdc] at hd
    have hown := h.owner d u hd
    rcases eq_or_ne u t with rfl | hut
    · rw [hself, (hrest d hdc).1]
      exact ⟨hown.1, fun hpc' => hown.2 ((hrest d hdc).2.mp hpc')⟩
    · rw [hother u hut]
      exact hown
  · rcases eq_or_ne u t with rfl | hut
    · rw [hself] at hd hne
      rcases eq_or_ne d c with rfl | hdc
      · exact absurd (hpc hd) hne
      · rw [hkeep d hdc]
        exact h.holds d u (by rw [← (hrest d hdc).1, hd]) fun hpc' =>
          hne ((hrest d hdc).2.mpr hpc')
    · rw [hother u hut] at hd hne
      rcases eq_or_ne d c with rfl | hdc
      · exact absurd hd (halone u hut)
      · rw [hkeep d hdc]
        exact h.holds d u hd hne
  · rcases eq_or_ne d c with rfl | hdc
    · refine ⟨hfree, fun v hv => ?_⟩
      have hvt : ∀ v, ((s.move t (s.manager.release d) pc).pc v).inside d = true → v = t := by
        intro v hv
        by_contra hne
        rw [hother v hne] at hv
        exact halone v hne hv
      have hut : u = t := hvt u (by rw [hd]; simp [Pc.inside])
      rw [hut]
      exact hvt v hv
    · rw [hkeep d hdc]
      have hold : s.pc u = .wakeReturn d true := by
        rcases eq_or_ne u t with rfl | hut
        · rw [hself] at hd
          exact (hrest d hdc).2.mp hd
        · rw [hother u hut] at hd
          exact hd
      obtain ⟨hnone, halone'⟩ := h.exposed d u hold
      refine ⟨hnone, fun v hv => halone' v ?_⟩
      rcases eq_or_ne v t with rfl | hvt
      · rw [hself, (hrest d hdc).1] at hv
        exact hv
      · rw [hother v hvt] at hv
        exact hv

/-- A thread that moves on without touching the locks. -/
theorem Inv.stay
    {pc : Pc}
    (h : Inv s)
    (hsame : ∀ d, pc.inside d = (s.pc t).inside d)
    (hbefore : ∀ d, s.pc t ≠ .wakeReturn d true) (hafter : ∀ d, pc ≠ .wakeReturn d true) :
    Inv (s.move t s.manager pc) := by
  have hinside : ∀ u d, ((s.move t s.manager pc).pc u).inside d = (s.pc u).inside d := by
    intro u d
    rcases eq_or_ne u t with rfl | hut
    · simp [State.move, hsame]
    · simp [State.move, hut]
  have hexposed : ∀ u d, (s.move t s.manager pc).pc u = .wakeReturn d true ↔
      s.pc u = .wakeReturn d true := by
    intro u d
    rcases eq_or_ne u t with rfl | hut
    · simp [State.move, hafter, hbefore]
    · simp [State.move, hut]
  refine ⟨h.held, fun d u hd => ?_, fun d u hd hne => ?_, fun d u hd => ?_⟩
  · rw [hinside, Ne, hexposed]
    exact h.owner d u hd
  · rw [hinside] at hd
    rw [Ne, hexposed] at hne
    exact h.holds d u hd hne
  · rw [hexposed] at hd
    obtain ⟨hnone, halone⟩ := h.exposed d u hd
    exact ⟨hnone, fun v hv => halone v (by rw [← hinside v d, hv])⟩

/-- A thread that takes a chat nobody is inside of. -/
theorem Inv.take
    {pc : Pc} {fd : Nat}
    (h : Inv s)
    (hfree : s.manager.held c = false)
    (hexp : ∀ u, u ≠ t → s.pc u ≠ .wakeReturn c true)
    (hsame : ∀ d, pc.inside d = ((s.pc t).inside d || c == d))
    (hbefore : ∀ d, s.pc t ≠ .wakeReturn d true) (hafter : ∀ d, pc ≠ .wakeReturn d true) :
    Inv (s.move t (s.manager.acquire t c (.free fd)).1 pc) := by
  have hacq : (s.manager.acquire t c (.free fd)).1 =
      { held := Function.update s.manager.held c true
        holder := Function.update s.manager.holder c (some t)
        fds := Function.update s.manager.fds c (some fd) } := by
    simp [Manager.acquire, hfree]
  have hnone : s.manager.holder c = none := by
    have hheld := h.held c
    rw [hfree] at hheld
    simpa using hheld.symm
  have hnobody : ∀ u, (s.pc u).inside c ≠ true := by
    intro u hu
    have hne : s.pc u ≠ .wakeReturn c true := by
      rcases eq_or_ne u t with rfl | hut
      · exact hbefore c
      · exact hexp u hut
    rw [h.holds c u hu hne] at hnone
    cases hnone
  have hexposed : ∀ u d, (s.move t (s.manager.acquire t c (.free fd)).1 pc).pc u =
      .wakeReturn d true ↔ s.pc u = .wakeReturn d true := by
    intro u d
    rcases eq_or_ne u t with rfl | hut
    · simp [State.move, hafter, hbefore]
    · simp [State.move, hut]
  have hself : (s.move t (s.manager.acquire t c (.free fd)).1 pc).pc t = pc := by
    simp [State.move]
  have hother : ∀ u, u ≠ t →
      (s.move t (s.manager.acquire t c (.free fd)).1 pc).pc u = s.pc u := by
    intro u hut
    simp [State.move, hut]
  refine ⟨fun d => ?_, fun d u hd => ?_, fun d u hd hne => ?_, fun d u hd => ?_⟩
  · rcases eq_or_ne d c with rfl | hdc
    · simp [State.move, hacq]
    · simp [State.move, hacq, hdc, h.held d]
  · rw [Ne, hexposed]
    rcases eq_or_ne d c with rfl | hdc
    · obtain rfl : t = u := by simpa [State.move, hacq] using hd
      rw [hself, hsame]
      exact ⟨by simp, hbefore d⟩
    · have hold : s.manager.holder d = some u := by simpa [State.move, hacq, hdc] using hd
      have hown := h.owner d u hold
      refine ⟨?_, hown.2⟩
      rcases eq_or_ne u t with rfl | hut
      · rw [hself, hsame, hown.1]
        rfl
      · rw [hother u hut]
        exact hown.1
  · rw [Ne, hexposed] at hne
    rcases eq_or_ne d c with rfl | hdc
    · rcases eq_or_ne u t with rfl | hut
      · simp [State.move, hacq]
      · rw [hother u hut] at hd
        exact absurd hd (hnobody u)
    · have hin : (s.pc u).inside d = true := by
        rcases eq_or_ne u t with rfl | hut
        · rw [hself, hsame] at hd
          simpa [Ne.symm hdc] using hd
        · rw [hother u hut] at hd
          exact hd
      simp only [State.move, hacq, Function.update_of_ne hdc]
      exact h.holds d u hin hne
  · rw [hexposed] at hd
    obtain ⟨hnone', halone⟩ := h.exposed d u hd
    have hdc : d ≠ c := by
      rintro rfl
      exact hnobody u (by rw [hd]; simp [Pc.inside])
    refine ⟨by simp [State.move, hacq, hdc, hnone'], fun v hv => halone v ?_⟩
    rcases eq_or_ne v t with rfl | hvt
    · rw [hself, hsame] at hv
      simpa [Ne.symm hdc] using hv
    · rw [hother v hvt] at hv
      exact hv

theorem inv_initial : Inv initial :=
  ⟨fun _ => rfl, fun _ _ h => (by cases h), fun _ _ h => (by cases h), fun _ _ h => (by cases h)⟩

/-- Entering from outside: the holder is not let in a second time. -/
theorem inv_enter
    {entry : Entry} {file : LockFile}
    (h : Inv s)
    (hpc : s.pc t = .idle)
    (hexp : Unexposed s (.enter t entry c file)) :
    Inv (s.move t (s.manager.acquire t c file).1
      (if (s.manager.acquire t c file).2 then entry.pc c else .idle)) := by
  have hbefore : ∀ d, s.pc t ≠ .wakeReturn d true := fun d => by simp [hpc]
  have hidle : Inv (s.move t s.manager .idle) :=
    h.stay (fun d => by rw [hpc]) hbefore (fun d => by simp)
  cases hheld : s.manager.held c with
  | true =>
      have hno : (s.manager.holder c == some t) = false := by
        have hne : s.manager.holder c ≠ some t := by
          intro hholder
          have hin := (h.owner c t hholder).1
          rw [hpc] at hin
          cases hin
        simpa using hne
      simpa [Manager.acquire, hheld, hno] using hidle
  | false =>
      cases file with
      | free fd =>
          have hnew : (s.manager.acquire t c (.free fd)).2 = true := by
            simp [Manager.acquire, hheld]
          rw [if_pos hnew]
          refine h.take hheld hexp (fun d => ?_) hbefore (fun d => ?_)
          · rw [hpc]
            cases entry <;> rfl
          · cases entry <;> simp [Entry.pc]
      | locked => simpa [Manager.acquire, hheld] using hidle
      | foreign => simpa [Manager.acquire, hheld] using hidle

/-- The nested call: the chat of the wake is entered again, another chat is
taken or refused. -/
theorem inv_nested
    {outer : String} {file : LockFile}
    (h : Inv s)
    (hpc : s.pc t = .wake outer)
    (hexp : Unexposed s (.nested t c file)) :
    Inv (s.move t (s.manager.acquire t c file).1
      (if (s.manager.acquire t c file).2 then .wakeContinue outer c
        else .wakeReturn outer false)) := by
  have hbefore : ∀ d, s.pc t ≠ .wakeReturn d true := fun d => by simp [hpc]
  have hrefused : Inv (s.move t s.manager (.wakeReturn outer false)) :=
    h.stay (fun d => by rw [hpc]; rfl) hbefore (fun d => by simp)
  cases hheld : s.manager.held c with
  | true =>
      cases hholder : s.manager.holder c == some t with
      | false => simpa [Manager.acquire, hheld, hholder] using hrefused
      | true =>
          have hin := (h.owner c t (by simpa using hholder)).1
          have hout : outer = c := by
            rw [hpc] at hin
            simpa [Pc.inside] using hin
          subst hout
          have hagain : Inv (s.move t s.manager (.wakeContinue outer outer)) :=
            h.stay (fun d => by rw [hpc]; simp [Pc.inside]) hbefore (fun d => by simp)
          simpa [Manager.acquire, hheld, hholder] using hagain
  | false =>
      cases file with
      | free fd =>
          have hnew : (s.manager.acquire t c (.free fd)).2 = true := by
            simp [Manager.acquire, hheld]
          rw [if_pos hnew]
          exact h.take hheld hexp (fun d => by rw [hpc]; rfl) hbefore (fun d => by simp)
      | locked => simpa [Manager.acquire, hheld] using hrefused
      | foreign => simpa [Manager.acquire, hheld] using hrefused

/-- What a `finally` releases, and where the thread goes. -/
theorem finish_cases
    (hstep : step s (.finish t) = some s') :
    ∃ c pc, s' = s.move t (s.manager.release c) pc ∧ (s.pc t).inside c = true ∧
      (∀ d, d ≠ c → (pc.inside d = (s.pc t).inside d ∧
        (pc = .wakeReturn d true ↔ s.pc t = .wakeReturn d true))) ∧
      (pc.inside c = true → pc = .wakeReturn c true) := by
  simp only [step] at hstep
  split at hstep
  · cases hstep
  · rename_i chat hpc
    obtain rfl := Option.some.inj hstep
    refine ⟨chat, .idle, rfl, by simp [hpc, Pc.inside], fun d hd => ?_, by simp [Pc.inside]⟩
    simp [hpc, Pc.inside, Ne.symm hd]
  · rename_i chat hpc
    obtain rfl := Option.some.inj hstep
    refine ⟨chat, .idle, rfl, by simp [hpc, Pc.inside], fun d hd => ?_, by simp [Pc.inside]⟩
    simp [hpc, Pc.inside, Ne.symm hd]
  · rename_i chat hpc
    obtain rfl := Option.some.inj hstep
    refine ⟨chat, .idle, rfl, by simp [hpc, Pc.inside], fun d hd => ?_, by simp [Pc.inside]⟩
    simp [hpc, Pc.inside, Ne.symm hd]
  · -- the nested turn: the wake goes on, exposed when the two chats are one
    rename_i outer inner hpc
    obtain rfl := Option.some.inj hstep
    refine ⟨inner, .wakeReturn outer (inner == outer), rfl, by simp [hpc, Pc.inside],
      fun d hd => ?_, fun hin => ?_⟩
    · rw [hpc]
      refine ⟨by simp [Pc.inside, Ne.symm hd], by simp; rintro rfl; exact Ne.symm hd⟩
    · obtain rfl : outer = inner := by simpa [Pc.inside] using hin
      simp
  · rename_i outer released hpc
    obtain rfl := Option.some.inj hstep
    refine ⟨outer, .idle, rfl, by simp [hpc, Pc.inside], fun d hd => ?_, by simp [Pc.inside]⟩
    simp [hpc, Pc.inside, Ne.symm hd]

theorem inv_step
    {a : Label}
    (h : Inv s)
    (hexp : Unexposed s a)
    (hstep : step s a = some s') :
    Inv s' := by
  cases a with
  | enter t entry chat file =>
      simp only [step] at hstep
      split at hstep
      · rename_i hpc
        obtain rfl := Option.some.inj hstep
        exact inv_enter h hpc hexp
      · cases hstep
  | nested t inner file =>
      simp only [step] at hstep
      split at hstep
      · rename_i outer hpc
        obtain rfl := Option.some.inj hstep
        exact inv_nested h hpc hexp
      · cases hstep
  | finish t =>
      obtain ⟨c, pc, rfl, hin, hrest, hpc⟩ := finish_cases hstep
      exact h.leave hin hrest hpc

/-- A `finally` frees the hold of its own thread or none. -/
theorem Inv.ownReleases
    (h : Inv s) :
    OwnReleases s := by
  intro t s' hstep c u hu hfreed
  obtain ⟨d, pc, rfl, hin, _, _⟩ := finish_cases hstep
  rcases eq_or_ne c d with rfl | hcd
  · exact h.exclusive u t c (h.owner c u hu).1 hin
  · refine absurd ?_ hfreed
    simpa [State.move, Manager.release, hcd] using hu

end Invariant

/-- **Per-chat mutual exclusion.** -/
theorem chat_exclusive
    (s : State)
    (h : Reach step Unexposed initial s) :
    Exclusive s ∧ OwnReleases s := by
  have hinv : Inv s := h.invariant inv_initial fun _ _ _ hs hexp hstep => inv_step hs hexp hstep
  exact ⟨hinv.exclusive, hinv.ownReleases⟩

/-- A wake that continues a dispatch of its chat, up to the return of the nested
turn. -/
def nestedWake : List Label :=
  [.enter 0 .wake "chat" (.free 3), .nested 0 "chat" .locked, .finish 0]

theorem chat_exclusive_nestedWake :
    ∃ s, run step initial nestedWake = some s ∧ Exclusive s ∧ OwnReleases s := by
  have hrun := run_eq_getD (show (run step initial nestedWake).isSome = true by decide)
  refine ⟨_, hrun, chat_exclusive _ (reach_of_run hrun ?_)⟩
  exact ⟨fun u _ hu => (by cases hu), fun _ _ => ⟨trivial, fun _ _ => ⟨trivial, fun _ _ => trivial⟩⟩⟩

/-- After the nested turn of thread 0 released the chat, thread 1 gets in
although the wake of thread 0 is not over. -/
theorem not_chat_exclusive :
    ¬ ∀ s, Reach step (fun _ _ => True) initial s → Exclusive s ∧ OwnReleases s := by
  intro h
  have hreach := reach_run (show (run step initial
    (nestedWake ++ [.enter 1 .process "chat" (.free 4)])).isSome = true by decide)
  have heq := (h _ hreach).1 0 1 "chat" (by decide) (by decide)
  cases heq

end Instance
end DiploidAgent
