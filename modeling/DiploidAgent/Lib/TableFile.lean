import DiploidAgent.Lib.LineLoader

/-!
# Transactions on a table in a file

A transaction reads the file into a table, applies an operation to it and, unless it only
reads, writes the table back.  A file that cannot be read counts as an empty table.

Such a transaction leaves alone what it is not about, and the file that it could not read,
exactly when it does not write the empty table back and the records it writes for the others
are read back (`safe_iff`).
-/

namespace DiploidAgent
namespace TableFile

open LineLoader

universe u

variable {ε χ κ ρ : Type u} [DecidableEq κ]

/-- Every record stands under its own key. -/
def Own (keyOf : ρ → κ) (m : Dict κ ρ) : Prop := ∀ k r, m.get k = some r → keyOf r = k

/-- How a content is read and a table is written. -/
structure Format (ε χ κ ρ : Type u) [DecidableEq κ] where
  keyOf : ρ → κ
  read : χ → Except ε (Dict κ ρ)
  write : Dict κ ρ → χ
  /-- The record is read back. -/
  kept : ρ → Bool
  own_read : ∀ text m, read text = .ok m → Own keyOf m
  read_write : ∀ m, Own keyOf m → read (write m) = .ok (m.filter fun e => kept e.2)

/-- A transaction, and the keys that it is about. -/
structure Transaction (ε κ ρ : Type u) [DecidableEq κ] (keyOf : ρ → κ) where
  saves : Bool
  body : Dict κ ρ → Except ε (Dict κ ρ)
  targets : Dict κ ρ → κ → Prop
  own : ∀ m m', Own keyOf m → body m = .ok m' → Own keyOf m'
  frame : ∀ m m', Own keyOf m → body m = .ok m' → ∀ k, ¬ targets m k → m'.get k = m.get k

/-- The content of the file, if there is one, and whether it can be read and replaced. -/
structure Disk (χ : Type u) where
  content : Option χ
  readable : Bool
  writable : Bool

variable (F : Format ε χ κ ρ) (T : Transaction ε κ ρ F.keyOf) (d : Disk χ)

def load : Except ε (Dict κ ρ) :=
  match d.content with
  | none => .ok Dict.empty
  | some text => if d.readable then F.read text else .ok Dict.empty

/-- The content behind the transaction; nothing is written behind an error. -/
def transact : Option χ :=
  match (load F d).bind T.body with
  | .error _ => d.content
  | .ok m => if T.saves = true ∧ d.writable = true then some (F.write m) else d.content

/-- The records of a content. -/
def table (content : Option χ) : Dict κ ρ :=
  ((content.map F.read).bind Except.toOption).getD Dict.empty

/-- A failed read destroys nothing, and a transaction spares the records it is not about. -/
structure Safe : Prop where
  unread : d.content ≠ none → d.readable = false → transact F T d = d.content
  others : ∀ k r, ¬ T.targets (table F d.content) k → (table F d.content).get k = some r →
    (table F (transact F T d)).get k = some r

/-- What was not read is not written over, unless by the same. -/
def NotWrittenOver : Prop :=
  d.content ≠ none → d.readable = false → T.saves = true → d.writable = true →
    ∀ m, T.body Dict.empty = .ok m → d.content = some (F.write m)

/-- The records that the transaction is not about are read back. -/
def OthersKept : Prop :=
  d.readable = true → T.saves = true → d.writable = true → ∀ text m m',
    d.content = some text → F.read text = .ok m → T.body m = .ok m' →
      ∀ k r, ¬ T.targets m k → m.get k = some r → F.kept r = true

variable {F T d}

/-- A transaction that writes. -/
theorem transact_of_ok
    {m m' : Dict κ ρ} (hload : load F d = .ok m) (hbody : T.body m = .ok m')
    (hsaves : T.saves = true) (hwritable : d.writable = true) :
    transact F T d = some (F.write m') := by
  have hresult : (load F d).bind T.body = .ok m' := by rw [hload, Except.bind, hbody]
  rw [transact, hresult]
  exact if_pos ⟨hsaves, hwritable⟩

/-- A transaction writes, or the content stays. -/
theorem transact_cases
    (F : Format ε χ κ ρ) (T : Transaction ε κ ρ F.keyOf) (d : Disk χ) :
    transact F T d = d.content ∨
      ∃ m m', load F d = .ok m ∧ T.body m = .ok m' ∧ T.saves = true ∧ d.writable = true ∧
        transact F T d = some (F.write m') := by
  unfold transact
  cases hload : load F d with
  | error e => exact Or.inl rfl
  | ok m =>
      rw [Except.bind]
      cases hbody : T.body m with
      | error e => exact Or.inl rfl
      | ok m' =>
          dsimp only
          split_ifs with hwrites
          · exact Or.inr ⟨m, m', rfl, hbody, hwrites.1, hwrites.2, rfl⟩
          · exact Or.inl rfl

theorem load_unread
    (hcontent : d.content ≠ none) (hunread : d.readable = false) :
    load F d = .ok Dict.empty := by
  unfold load
  split
  · exact absurd ‹_› hcontent
  · rw [hunread, if_neg Bool.false_ne_true]

theorem load_read
    {text : χ} (hcontent : d.content = some text) (hreadable : d.readable = true) :
    load F d = F.read text := by
  rw [load, hcontent]
  exact if_pos hreadable

theorem table_write
    {m : Dict κ ρ} (hown : Own F.keyOf m) :
    table F (some (F.write m)) = m.filter fun e => F.kept e.2 := by
  rw [table, Option.map_some, F.read_write m hown]
  rfl

theorem own_empty (keyOf : ρ → κ) : Own keyOf Dict.empty := by
  intro k r h
  cases h

/-- Behind a transaction that wrote, an other record is there when it is read back. -/
theorem get_written_iff
    {m m' : Dict κ ρ} {k : κ} {r : ρ} (hown : Own F.keyOf m) (hbody : T.body m = .ok m')
    (hother : ¬ T.targets m k) (hget : m.get k = some r) :
    (table F (some (F.write m'))).get k = some r ↔ F.kept r = true := by
  rw [table_write (T.own m m' hown hbody), Dict.get_filter, T.frame m m' hown hbody k hother,
    hget, Option.filter_some]
  cases F.kept r <;> simp

theorem table_of_read
    {text : χ} {m : Dict κ ρ} (h : F.read text = .ok m) :
    table F (some text) = m := by
  rw [table, Option.map_some, h]
  rfl

/-- **Transactions on a table in a file.** -/
theorem safe_iff :
    Safe F T d ↔ NotWrittenOver F T d ∧ OthersKept F T d := by
  constructor
  · intro hsafe
    constructor
    · intro hcontent hunread hsaves hwritable m hbody
      rw [← hsafe.unread hcontent hunread]
      exact transact_of_ok (load_unread hcontent hunread) hbody hsaves hwritable
    · intro hreadable hsaves hwritable text m m' hcontent hread hbody k r hother hget
      have hload : load F d = .ok m := (load_read hcontent hreadable).trans hread
      have hothers := hsafe.others k r
      rw [hcontent, table_of_read hread, transact_of_ok hload hbody hsaves hwritable] at hothers
      exact (get_written_iff (F.own_read text m hread) hbody hother hget).mp
        (hothers hother hget)
  · rintro ⟨hunread, hkept⟩
    rcases transact_cases F T d with hsame | ⟨m, m', hload, hbody, hsaves, hwritable, hwritten⟩
    · exact ⟨fun _ _ => hsame, fun k r _ hget => by rwa [hsame]⟩
    · cases hcontent : d.content with
      | none =>
          refine ⟨fun h => absurd hcontent h, fun k r _ hget => ?_⟩
          rw [hcontent] at hget
          cases hget
      | some text =>
          have hsome : d.content ≠ none := by simp [hcontent]
          cases hreadable : d.readable with
          | false =>
              obtain rfl := Except.ok.inj ((load_unread hsome hreadable).symm.trans hload)
              have hsame : transact F T d = d.content :=
                hwritten.trans (hunread hsome hreadable hsaves hwritable m' hbody).symm
              exact ⟨fun _ _ => hsame, fun k r _ hget => by rwa [hsame]⟩
          | true =>
              have hread : F.read text = .ok m := (load_read hcontent hreadable).symm.trans hload
              refine ⟨fun _ h => absurd (hreadable.symm.trans h) (by simp), ?_⟩
              intro k r hother hget
              rw [hcontent, table_of_read hread] at hother hget
              rw [hwritten, get_written_iff (F.own_read text m hread) hbody hother hget]
              exact hkept hreadable hsaves hwritable text m m' hcontent hread hbody k r
                hother hget

/-- Where every record is read back, only the failed read matters. -/
theorem safe_iff_of_kept
    (hkept : ∀ r, F.kept r = true) :
    Safe F T d ↔ NotWrittenOver F T d := by
  rw [safe_iff]
  exact and_iff_left fun _ _ _ _ _ _ _ _ _ _ r _ _ => hkept r

/-! ### Files of one record a line -/

section Rows

variable (keyOf : ρ → κ)

/-- The loop over the lines of the file. -/
def readRows (lines : List (Outcome ε ρ)) : Except ε (Dict κ ρ) :=
  loadLines (fun m r => m.set (keyOf r) r) Dict.empty lines

def writeRows (m : Dict κ ρ) : List (Outcome ε ρ) := m.values.map .record

variable {keyOf}

theorem own_set
    {m : Dict κ ρ} (h : Own keyOf m) (r : ρ) :
    Own keyOf (m.set (keyOf r) r) := by
  intro k r' hr
  rw [Dict.get_set] at hr
  split_ifs at hr with hk
  · obtain rfl := Option.some.inj hr
    exact hk
  · exact h k r' hr

theorem own_foldl
    (rs : List ρ) {m : Dict κ ρ} (h : Own keyOf m) :
    Own keyOf (rs.foldl (fun m r => m.set (keyOf r) r) m) := by
  induction rs generalizing m with
  | nil => exact h
  | cons r rs ih => exact ih (own_set h r)

theorem own_readRows
    (lines : List (Outcome ε ρ)) (m : Dict κ ρ) (h : readRows keyOf lines = .ok m) :
    Own keyOf m := by
  rw [((loadLines_eq_ok_iff m).mp h).2]
  exact own_foldl _ (own_empty keyOf)

theorem readRows_writeRows
    (m : Dict κ ρ) (h : Own keyOf m) :
    readRows keyOf (writeRows m : List (Outcome ε ρ)) = .ok m := by
  refine (loadLines_eq_ok_iff m).mpr ⟨fun e he => ?_, Dict.ext_entries ?_⟩
  · obtain ⟨r, _, hr⟩ := List.mem_map.mp he
    cases hr
  · have hrecords : (writeRows m : List (Outcome ε ρ)).filterMap Outcome.record? = m.values := by
      rw [writeRows, List.filterMap_map]
      exact List.filterMap_some
    have hset : ∀ (d : Dict κ ρ) (e : κ × ρ), e ∈ m.entries →
        d.set (keyOf e.2) e.2 = if (fun _ => true) e then d.set e.1 e.2 else d := by
      intro d e he
      rw [h e.1 e.2 ((m.get_eq_some_iff e.1 e.2).mpr he), if_pos rfl]
    have hnew : ∀ e ∈ m.entries, e.1 ∉ (Dict.empty : Dict κ ρ).keys := fun _ _ => List.not_mem_nil
    rw [hrecords, Dict.values, List.foldl_map, List.foldl_ext _ _ _ hset,
      Dict.entries_foldl_set (fun _ => true) m.nodup_keys hnew, List.filter_true]
    rfl

/-- A file of one record a line, each of which is read back. -/
def rowFormat (keyOf : ρ → κ) : Format ε (List (Outcome ε ρ)) κ ρ where
  keyOf := keyOf
  read := readRows keyOf
  write := writeRows
  kept _ := true
  own_read := own_readRows
  read_write := by
    intro m h
    have hall : (m.filter fun _ => true) = m := Dict.ext_entries (List.filter_true _)
    rw [readRows_writeRows m h, hall]

end Rows

end TableFile
end DiploidAgent
