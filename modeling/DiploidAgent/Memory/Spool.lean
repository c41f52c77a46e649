import DiploidAgent.Lib.JsonDumps
import DiploidAgent.Lib.Runs
import DiploidAgent.Lib.Text

/-!
# The Hindsight spool

`HindsightMemoryBackend` appends every item to a spool file and removes it when a pass
has posted it.  A pass reads the lines, posts them in batches without a lock, and at
its end rewrites the file without the positions it flushed.  The locks that keep the
positions stable belong to one backend, and the backends of all chats may share the
file: a pass that ends after another one has rewritten the file removes whatever lines
stand at its positions by then.

Every spooled line has a ticket here, so that equal items are told apart.
-/

namespace DiploidAgent
namespace Spool

open JsonText Text Runs

variable {F : Type}

/-! ### Items -/

/-- What `to_hindsight` makes of an item. -/
structure Payload where
  content : String
  timestamp : String
  context : String
  metadata : List (String × String)
  documentId : String
  tags : List String
  updateMode : String
deriving DecidableEq

def text (s : String) : Value F := .scalar (.str s.toList)

def Payload.toJson (p : Payload) : Value F :=
  .obj [("content".toList, text p.content),
    ("timestamp".toList, text p.timestamp),
    ("context".toList, text p.context),
    ("metadata".toList, .obj (p.metadata.map fun m => (m.1.toList, text m.2))),
    ("document_id".toList, text p.documentId),
    ("tags".toList, .arr (p.tags.map text)),
    ("update_mode".toList, text p.updateMode)]

def asText : Value F → Option String
  | .scalar (.str s) => some (String.ofList s)
  | _ => none

/-- The dict of a line as a payload. -/
def Payload.ofJson? : Value F → Option Payload
  | .obj [(_, content), (_, timestamp), (_, context), (_, .obj metadata), (_, documentId),
      (_, .arr tags), (_, updateMode)] => do
      let content ← asText content
      let timestamp ← asText timestamp
      let context ← asText context
      let metadata ← metadata.mapM fun m => (asText m.2).map fun v => (String.ofList m.1, v)
      let documentId ← asText documentId
      let tags ← tags.mapM asText
      let updateMode ← asText updateMode
      some { content, timestamp, context, metadata, documentId, tags, updateMode }
  | _ => none

/-- `_validate_hindsight_item`. -/
def validateHindsightItem (p : Payload) : Bool :=
  !p.content.toList.all isSpace && p.content.toList.length ≤ 100000

/-! ### Passes -/

/-- A line of the file. -/
structure Line where
  ticket : Nat
  text : List Char
deriving DecidableEq

/-- The answer to a post: a success, a refusal (a 4xx status other than 429), or
anything after which the batch is retried. -/
inductive Answer where
  | accepted
  | rejected
  | transient
deriving DecidableEq

/-- A pass between its first and its last locked section. -/
structure Pass where
  snapshot : List Line
  /-- Where the next batch starts. -/
  at_ : Nat
  flushed : List Nat
  /-- A batch failed. -/
  stopped : Bool
deriving DecidableEq

/-- The file shared by the backends, which are numbered, and what became of the
tickets. -/
structure State where
  file : List Line
  passes : Nat → Option Pass
  issued : Nat
  posted : List Nat
  deadLettered : List Nat

def initial : State :=
  { file := []
    passes := fun _ => none
    issued := 0
    posted := []
    deadLettered := [] }

def line (N : FloatText F) (ticket : Nat) (p : Payload) : Line :=
  { ticket := ticket
    text := dumps true N p.toJson }

/-- `_spool`. -/
def spool (N : FloatText F) (s : State) (items : List Payload) : State :=
  { s with
    file := s.file ++ (items.zipIdx s.issued).map fun e => line N e.2 e.1
    issued := s.issued + items.length }

def setPass (s : State) (i : Nat) (p : Option Pass) : State :=
  { s with passes := Function.update s.passes i p }

/-- The first locked section of `_flush_spool`.  A pass in flight makes the call
return. -/
def begin_ (s : State) (i : Nat) : State :=
  match s.passes i with
  | some _ => s
  | none =>
      if s.file = [] then s
      else setPass s i (some { snapshot := s.file, at_ := 0, flushed := [], stopped := false })

/-- The entries of the next batch: position, line and payload. -/
def Pass.entries (N : FloatText F) (p : Pass) : List (Nat × Line × Payload) :=
  (((p.snapshot.drop p.at_).take 20).zipIdx p.at_).filterMap fun e =>
    ((loads N e.1.text).bind Payload.ofJson?).map fun payload => (e.2, e.1, payload)

def Pass.valid (N : FloatText F) (p : Pass) : List (Nat × Line × Payload) :=
  (p.entries N).filter fun e => validateHindsightItem e.2.2

def Pass.invalid (N : FloatText F) (p : Pass) : List (Nat × Line × Payload) :=
  (p.entries N).filter fun e => !validateHindsightItem e.2.2

def positions (es : List (Nat × Line × Payload)) : List Nat := es.map Prod.fst

def tickets (es : List (Nat × Line × Payload)) : List Nat := es.map fun e => e.2.1.ticket

/-- One batch: the invalid items are dead-lettered, the others are posted.  A refused
batch is dead-lettered too. -/
def batch (N : FloatText F) (s : State) (i : Nat) (p : Pass) (answer : Answer) : State :=
  let s := { s with deadLettered := s.deadLettered ++ tickets (p.invalid N) }
  let next := { p with
    at_ := p.at_ + 20
    flushed := p.flushed ++ positions (p.invalid N) }
  let done := { next with flushed := next.flushed ++ positions (p.valid N) }
  if p.valid N = [] then setPass s i (some next)
  else
    match answer with
    | .accepted =>
        setPass { s with posted := s.posted ++ tickets (p.valid N) } i (some done)
    | .rejected =>
        setPass { s with
          posted := s.posted ++ tickets (p.valid N)
          deadLettered := s.deadLettered ++ tickets (p.valid N) } i (some done)
    | .transient => setPass s i (some { next with stopped := true })

/-- The last locked section: the file without the lines at the flushed positions. -/
def rewrite (s : State) (i : Nat) (p : Pass) : State :=
  let remaining := (s.file.zipIdx.filter fun e => e.2 ∉ p.flushed).map Prod.fst
  setPass { s with file := if p.flushed = [] then s.file else remaining } i none

inductive Label where
  | spool (i : Nat) (items : List Payload)
  | begin_ (i : Nat)
  | batch (i : Nat) (answer : Answer)
  | rewrite (i : Nat)
  /-- An error outside the batch handler ends the pass. -/
  | abort (i : Nat)

def Pass.over (p : Pass) : Bool := p.stopped || p.snapshot.length ≤ p.at_

def step (N : FloatText F) (s : State) : Label → Option State
  | .spool _ items => some (spool N s items)
  | .begin_ i => some (begin_ s i)
  | .batch i answer =>
      match s.passes i with
      | none => none
      | some p => if p.over then none else some (batch N s i p answer)
  | .rewrite i =>
      match s.passes i with
      | none => none
      | some p => if p.over then some (rewrite s i p) else none
  | .abort i =>
      match s.passes i with
      | none => none
      | some _ => some (setPass s i none)

/-- Every item ever spooled was posted with a final answer, was dead-lettered, or is in
the file. -/
def Conserved (s : State) : Prop :=
  ∀ ticket < s.issued, ticket ∈ s.posted ∨ ticket ∈ s.deadLettered ∨
    ∃ l ∈ s.file, l.ticket = ticket

instance (s : State) : Decidable (Conserved s) :=
  inferInstanceAs (Decidable (∀ ticket < s.issued, ticket ∈ s.posted ∨
    ticket ∈ s.deadLettered ∨ ∃ l ∈ s.file, l.ticket = ticket))

/-- A pass that rewrites the file finds its own lines at the positions it flushed. -/
def Aligned (s : State) : Label → Prop
  | .rewrite i => ∀ p, s.passes i = some p →
      ∀ k ∈ p.flushed, ∀ l, s.file[k]? = some l → p.snapshot[k]? = some l
  | _ => True

section Lines

theorem asText_text
    (s : String) :
    asText (text s : Value F) = some s := by
  simp [asText, text]

/-- A payload is read back from its dict. -/
theorem ofJson_toJson
    (p : Payload) :
    Payload.ofJson? (p.toJson : Value F) = some p := by
  have hmetadata : ∀ ms : List (String × String),
      (ms.map fun m => (m.1.toList, (text m.2 : Value F))).mapM
        (fun m => (asText m.2).map fun v => (String.ofList m.1, v)) = some ms := by
    intro ms
    induction ms with
    | nil => rfl
    | cons m ms ih =>
        rw [List.map_cons, List.mapM_cons, ih]
        simp [asText_text]
  have htags : ∀ ts : List String, (ts.map (text : String → Value F)).mapM asText = some ts := by
    intro ts
    induction ts with
    | nil => rfl
    | cons t ts ih =>
        rw [List.map_cons, List.mapM_cons, ih, asText_text]
        rfl
  simp only [Payload.toJson, Payload.ofJson?, asText_text, hmetadata, htags,
    Option.bind_eq_bind, Option.bind_some]

/-- A spooled line is read as its payload, so a pass skips none of them. -/
theorem loads_line
    (N : FloatText F) (ticket : Nat) (p : Payload) :
    (loads N (line N ticket p).text).bind Payload.ofJson? = some p := by
  rw [line, loads_dumps, Option.bind_some, ofJson_toJson]

theorem getElem?_of_mem_entries
    {N : FloatText F} {p : Pass} {e : Nat × Line × Payload} (h : e ∈ p.entries N) :
    p.snapshot[e.1]? = some e.2.1 := by
  obtain ⟨⟨l, k⟩, hmem, hread⟩ := List.mem_filterMap.mp h
  obtain ⟨payload, _, rfl⟩ := Option.map_eq_some_iff.mp hread
  obtain ⟨hle, hget⟩ := List.mk_mem_zipIdx_iff_le_and_getElem?_sub.mp hmem
  rw [List.getElem?_take, List.getElem?_drop] at hget
  split_ifs at hget
  rwa [Nat.add_sub_cancel' hle] at hget

end Lines

section Steps

variable {N : FloatText F} {s s' : State} {i : Nat} {p : Pass}

def Settled (s : State) (ticket : Nat) : Prop := ticket ∈ s.posted ∨ ticket ∈ s.deadLettered

/-- The positions a pass has flushed are those of settled lines. -/
def FlushedSettled (s : State) (p : Pass) : Prop :=
  ∀ k ∈ p.flushed, ∃ l, p.snapshot[k]? = some l ∧ Settled s l.ticket

structure Inv (s : State) : Prop where
  conserved : Conserved s
  flushed : ∀ i p, s.passes i = some p → FlushedSettled s p

theorem inv_initial :
    Inv initial :=
  ⟨fun _ h => (by cases h), fun _ _ h => (by cases h)⟩

/-- A step that loses no line and settles no less. -/
theorem inv_setPass
    (h : Inv s) {q : Option Pass}
    (hissued : s'.issued = s.issued) (hpasses : s'.passes = Function.update s.passes i q)
    (hsettled : ∀ ticket, Settled s ticket → Settled s' ticket)
    (hfile : ∀ l ∈ s.file, l ∈ s'.file ∨ Settled s' l.ticket)
    (hq : ∀ p, q = some p → FlushedSettled s' p) :
    Inv s' where
  conserved ticket hticket := by
    rw [hissued] at hticket
    rcases h.conserved ticket hticket with hposted | hdead | ⟨l, hl, rfl⟩
    · exact (hsettled ticket (Or.inl hposted)).imp_right Or.inl
    · exact (hsettled ticket (Or.inr hdead)).imp_right Or.inl
    · rcases hfile l hl with hkept | hsettled'
      · exact Or.inr (Or.inr ⟨l, hkept, rfl⟩)
      · exact hsettled'.imp_right Or.inl
  flushed j p hp := by
    rw [hpasses, Function.update_apply] at hp
    split_ifs at hp with hj
    · exact hq p hp
    · intro k hk
      obtain ⟨l, hl, hticket⟩ := h.flushed j p hp k hk
      exact ⟨l, hl, hsettled _ hticket⟩

theorem inv_spool
    (h : Inv s) (items : List Payload) :
    Inv (spool N s items) where
  conserved ticket hticket := by
    by_cases hold : ticket < s.issued
    · rcases h.conserved ticket hold with hposted | hdead | ⟨l, hl, rfl⟩
      · exact Or.inl hposted
      · exact Or.inr (Or.inl hdead)
      · exact Or.inr (Or.inr ⟨l, List.mem_append_left _ hl, rfl⟩)
    · have hlt : ticket - s.issued < items.length := by
        simp only [spool] at hticket
        omega
      refine Or.inr (Or.inr ⟨line N ticket items[ticket - s.issued], ?_, rfl⟩)
      refine List.mem_append_right _ (List.mem_map.mpr ⟨(items[ticket - s.issued], ticket), ?_, rfl⟩)
      exact List.mk_mem_zipIdx_iff_le_and_getElem?_sub.mpr
        ⟨Nat.le_of_not_lt hold, List.getElem?_eq_getElem hlt⟩
  flushed := h.flushed

theorem inv_begin
    (h : Inv s) :
    Inv (begin_ s i) := by
  unfold begin_
  split
  · exact h
  · split_ifs
    · exact h
    · refine inv_setPass h rfl rfl (fun _ hs => hs) (fun _ hl => Or.inl hl) fun p hp => ?_
      obtain rfl := Option.some.inj hp
      exact fun _ hk => (by cases hk)

/-- A pass that flushes the positions of entries whose tickets get settled. -/
theorem inv_advance
    (h : Inv s) (hp : s.passes i = some p)
    {es : List (Nat × Line × Payload)} (hes : ∀ e ∈ es, e ∈ p.entries N)
    {posted dead : List Nat} (hsettled : ∀ ticket ∈ tickets es, ticket ∈ posted ∨ ticket ∈ dead)
    {q : Pass} (hpasses : s'.passes = Function.update s.passes i (some q))
    (hissued : s'.issued = s.issued) (hfile : s'.file = s.file)
    (hposted : s'.posted = s.posted ++ posted)
    (hdead : s'.deadLettered = s.deadLettered ++ dead)
    (hsnapshot : q.snapshot = p.snapshot)
    (hflushed : q.flushed = p.flushed ++ positions es) :
    Inv s' := by
  have hgrow : ∀ ticket, Settled s ticket → Settled s' ticket := by
    intro ticket hticket
    unfold Settled
    rw [hposted, hdead]
    exact hticket.imp (List.mem_append_left _) (List.mem_append_left _)
  have hnew : ∀ ticket ∈ tickets es, Settled s' ticket := by
    intro ticket hticket
    unfold Settled
    rw [hposted, hdead]
    exact (hsettled ticket hticket).imp (List.mem_append_right _) (List.mem_append_right _)
  have hkept : ∀ l ∈ s.file, l ∈ s'.file ∨ Settled s' l.ticket := by
    rw [hfile]
    exact fun _ hl => Or.inl hl
  refine inv_setPass h hissued hpasses hgrow hkept fun r hr k hk => ?_
  obtain rfl := Option.some.inj hr
  rw [hflushed] at hk
  rw [hsnapshot]
  rcases List.mem_append.mp hk with hk | hk
  · obtain ⟨l, hl, hticket⟩ := h.flushed i p hp k hk
    exact ⟨l, hl, hgrow _ hticket⟩
  · obtain ⟨e, he, rfl⟩ := List.mem_map.mp hk
    exact ⟨e.2.1, getElem?_of_mem_entries (hes e he), hnew _ (List.mem_map_of_mem he)⟩

theorem mem_entries_of_invalid_or_valid :
    (∀ e ∈ p.invalid N, e ∈ p.entries N) ∧
      ∀ e ∈ p.invalid N ++ p.valid N, e ∈ p.entries N := by
  refine ⟨fun e he => List.mem_of_mem_filter he, fun e he => ?_⟩
  exact (List.mem_append.mp he).elim List.mem_of_mem_filter List.mem_of_mem_filter

theorem inv_batch
    (h : Inv s) (hp : s.passes i = some p) (answer : Answer) :
    Inv (batch N s i p answer) := by
  obtain ⟨hbad, hall⟩ := mem_entries_of_invalid_or_valid (N := N) (p := p)
  have hmem : ∀ {ticket}, ticket ∈ tickets (p.invalid N ++ p.valid N) →
      ticket ∈ tickets (p.invalid N) ∨ ticket ∈ tickets (p.valid N) := by
    intro ticket hticket
    rwa [tickets, List.map_append, List.mem_append] at hticket
  have hflushed : p.flushed ++ positions (p.invalid N) ++ positions (p.valid N) =
      p.flushed ++ positions (p.invalid N ++ p.valid N) := by
    rw [positions, positions, positions, List.map_append, List.append_assoc]
  unfold batch
  dsimp only
  split_ifs with hnil
  · exact inv_advance h hp hbad (fun _ => Or.inr) rfl rfl rfl (List.append_nil _).symm rfl rfl rfl
  · cases answer with
    | accepted =>
        exact inv_advance h hp hall (fun _ hticket => (hmem hticket).symm) rfl rfl rfl rfl rfl rfl
          hflushed
    | rejected =>
        exact inv_advance h hp hall (fun _ hticket => Or.inr (List.mem_append.mpr (hmem hticket)))
          rfl rfl rfl rfl (List.append_assoc ..) rfl hflushed
    | transient =>
        exact inv_advance h hp hbad (fun _ => Or.inr) rfl rfl rfl (List.append_nil _).symm rfl rfl
          rfl

theorem inv_rewrite
    (h : Inv s) (hp : s.passes i = some p)
    (haligned : ∀ k ∈ p.flushed, ∀ l, s.file[k]? = some l → p.snapshot[k]? = some l) :
    Inv (rewrite s i p) := by
  refine inv_setPass h rfl rfl (fun _ hs => hs) (fun l hl => ?_) fun p hq => (by cases hq)
  by_cases hnone : p.flushed = []
  · left
    simpa [rewrite, setPass, hnone] using hl
  · obtain ⟨k, hk⟩ := List.mem_iff_getElem?.mp hl
    by_cases hflushed : k ∈ p.flushed
    · obtain ⟨l', hl', hticket⟩ := h.flushed i p hp k hflushed
      obtain rfl := Option.some.inj ((haligned k hflushed l hk).symm.trans hl')
      exact Or.inr hticket
    · left
      have hkeep : l ∈ (s.file.zipIdx.filter fun e => e.2 ∉ p.flushed).map Prod.fst := by
        refine List.mem_map.mpr ⟨(l, k), List.mem_filter.mpr ⟨?_, by simpa using hflushed⟩, rfl⟩
        exact List.mk_mem_zipIdx_iff_getElem?.mpr hk
      simpa only [rewrite, setPass, if_neg hnone] using hkeep

theorem inv_step
    {a : Label} (h : Inv s) (haligned : Aligned s a) (hstep : step N s a = some s') :
    Inv s' := by
  cases a with
  | spool j items =>
      obtain rfl := Option.some.inj hstep
      exact inv_spool h items
  | begin_ j =>
      obtain rfl := Option.some.inj hstep
      exact inv_begin h
  | batch j answer =>
      simp only [step] at hstep
      split at hstep
      · cases hstep
      · rename_i p hp
        split_ifs at hstep
        obtain rfl := Option.some.inj hstep
        exact inv_batch h hp answer
  | rewrite j =>
      simp only [step] at hstep
      split at hstep
      · cases hstep
      · rename_i p hp
        split_ifs at hstep
        obtain rfl := Option.some.inj hstep
        exact inv_rewrite h hp (haligned p hp)
  | abort j =>
      simp only [step] at hstep
      split at hstep
      · cases hstep
      · obtain rfl := Option.some.inj hstep
        exact inv_setPass h rfl rfl (fun _ hs => hs) (fun _ hl => Or.inl hl)
          fun p hq => (by cases hq)

end Steps

section SolePass

variable {N : FloatText F} {s s' : State} {i : Nat} {p : Pass}

/-- A pass starts while no other backend has one in flight. -/
def Alone (s : State) : Label → Prop
  | .begin_ i => ∀ j, j ≠ i → s.passes j = none
  | _ => True

/-- One pass at a time, and its snapshot is what the file starts with. -/
structure OnePass (s : State) : Prop where
  one : ∀ i j p q, s.passes i = some p → s.passes j = some q → i = j
  start : ∀ i p, s.passes i = some p → p.snapshot <+: s.file

theorem onePass_none
    (h : OnePass s) (hp : s.passes i = some p) (hpasses : s'.passes = Function.update s.passes i none) :
    OnePass s' := by
  have hnone : ∀ j q, s'.passes j ≠ some q := by
    intro j q hq
    rw [hpasses, Function.update_apply] at hq
    split_ifs at hq with hj
    exact hj (h.one j i q p hq hp)
  exact ⟨fun j _ q _ hq _ => absurd hq (hnone j q), fun j q hq => absurd hq (hnone j q)⟩

theorem onePass_some
    (hother : ∀ j, j ≠ i → s.passes j = none) {q : Pass}
    (hpasses : s'.passes = Function.update s.passes i (some q)) (hstart : q.snapshot <+: s'.file) :
    OnePass s' := by
  have hsole : ∀ j r, s'.passes j = some r → j = i ∧ r = q := by
    intro j r hr
    rw [hpasses, Function.update_apply] at hr
    split_ifs at hr with hj
    · exact ⟨hj, (Option.some.inj hr).symm⟩
    · rw [hother j hj] at hr
      cases hr
  refine ⟨fun j k r r' hr hr' => (hsole j r hr).1.trans (hsole k r' hr').1.symm, fun j r hr => ?_⟩
  rw [(hsole j r hr).2]
  exact hstart

theorem onePass_step
    {a : Label} (h : OnePass s) (halone : Alone s a) (hstep : step N s a = some s') :
    OnePass s' := by
  have hothers : ∀ {i p}, s.passes i = some p → ∀ j, j ≠ i → s.passes j = none := by
    intro i p hp j hj
    cases hq : s.passes j with
    | none => rfl
    | some q => exact absurd (h.one j i q p hq hp) hj
  cases a with
  | spool j items =>
      obtain rfl := Option.some.inj hstep
      exact ⟨h.one, fun k q hq => (h.start k q hq).trans (List.prefix_append _ _)⟩
  | begin_ j =>
      obtain rfl := Option.some.inj hstep
      unfold begin_
      split
      · exact h
      · split_ifs
        · exact h
        · exact onePass_some halone rfl (List.prefix_refl _)
  | batch j answer =>
      simp only [step] at hstep
      split at hstep
      · cases hstep
      · rename_i q hq
        split_ifs at hstep
        obtain rfl := Option.some.inj hstep
        unfold batch
        dsimp only
        split_ifs
        · exact onePass_some (hothers hq) rfl (h.start j q hq)
        · cases answer <;> exact onePass_some (hothers hq) rfl (h.start j q hq)
  | rewrite j =>
      simp only [step] at hstep
      split at hstep
      · cases hstep
      · rename_i q hq
        split_ifs at hstep
        obtain rfl := Option.some.inj hstep
        exact onePass_none h hq rfl
  | abort j =>
      simp only [step] at hstep
      split at hstep
      · cases hstep
      · rename_i q hq
        obtain rfl := Option.some.inj hstep
        exact onePass_none h hq rfl

/-- The comment of the code: the positions still address the same lines. -/
theorem aligned_of_onePass
    {a : Label} (hinv : Inv s) (h : OnePass s) :
    Aligned s a := by
  cases a with
  | rewrite j =>
      intro q hq k hk l hl
      obtain ⟨l', hl', _⟩ := hinv.flushed j q hq k hk
      obtain ⟨hlt, _⟩ := List.getElem?_eq_some_iff.mp hl'
      obtain ⟨more, hmore⟩ := h.start j q hq
      rwa [← hmore, List.getElem?_append_left hlt] at hl
  | spool j items => trivial
  | begin_ j => trivial
  | batch j answer => trivial
  | abort j => trivial

end SolePass

section Results

/-- **Conservation.**  No item is lost in a run whose rewrites find the lines that were
flushed. -/
theorem spool_conserved
    (N : FloatText F) (s : State) (h : Reach (step N) Aligned initial s) :
    Conserved s :=
  (h.invariant inv_initial fun _ _ _ hinv haligned hstep => inv_step hinv haligned hstep).conserved

/-- No item is lost while the passes of different backends do not overlap. -/
theorem spool_conserved_alone
    (N : FloatText F) (s : State) (h : Reach (step N) Alone initial s) :
    Conserved s := by
  have hboth : Inv s ∧ OnePass s := by
    refine Reach.invariant (P := fun s => Inv s ∧ OnePass s) h ⟨inv_initial, ?_⟩ ?_
    · exact ⟨fun _ _ _ _ h => (by cases h), fun _ _ h => (by cases h)⟩
    intro s a s' hs halone hstep
    exact ⟨inv_step hs.1 (aligned_of_onePass hs.1 hs.2) hstep, onePass_step hs.2 halone hstep⟩
  exact hboth.1.conserved

def note (content : String) : Payload :=
  { content := content
    timestamp := "2026-01-01T00:00:00+00:00"
    context := ""
    metadata := [("role", "pair")]
    documentId := content
    tags := ["turn"]
    updateMode := "replace" }

/-- Two backends take the same snapshot; an item is spooled after the first rewrite. -/
def overlappingPasses : List Label :=
  [.spool 0 [note "first"], .begin_ 0, .begin_ 1, .batch 0 .accepted, .rewrite 0,
    .spool 0 [note "second"], .batch 1 .accepted, .rewrite 1]

/-- The second item is removed from the file and was never posted. -/
theorem item_removed_unposted :
    ¬ ∀ s, Reach (step noFloats) (fun _ _ => True) initial s → Conserved s := by
  intro h
  have hsome : (run (step noFloats) initial overlappingPasses).isSome = true := by decide +kernel
  have hconserved := h _ (reach_run hsome)
  revert hconserved
  decide +kernel

/-- A pass during which an item is spooled, and a pass whose post has to be retried. -/
def appendingPass : List Label :=
  [.spool 0 [note "first"], .begin_ 0, .spool 1 [note "second"], .batch 0 .accepted, .rewrite 0,
    .begin_ 1, .batch 1 .transient, .rewrite 1]

def alignedCheck (s : State) : Label → Bool
  | .rewrite i => (s.passes i).all fun p =>
      p.flushed.all fun k => (s.file[k]?).all fun l => p.snapshot[k]? == some l
  | _ => true

theorem aligned_of_check
    (s : State) (a : Label) (h : alignedCheck s a = true) :
    Aligned s a := by
  cases a with
  | rewrite i =>
      intro p hp k hk l hl
      simp only [alignedCheck, hp, Option.all_some, List.all_eq_true] at h
      simpa [hl] using h k hk
  | spool i items => trivial
  | begin_ i => trivial
  | batch i answer => trivial
  | abort i => trivial

theorem spool_conserved_appendingPass :
    ∃ s, run (step noFloats) initial appendingPass = some s ∧ Conserved s := by
  have hsome : (run (step noFloats) initial appendingPass).isSome = true := by decide +kernel
  refine ⟨_, run_eq_getD hsome, spool_conserved noFloats _ ?_⟩
  exact reach_of_run (run_eq_getD hsome)
    (guarded_of_checkRun alignedCheck aligned_of_check (by decide +kernel))

end Results

end Spool
end DiploidAgent
