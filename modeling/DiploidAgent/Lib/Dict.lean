import Mathlib.Data.List.Nodup
import Mathlib.Tactic.Common

/-!
# Insertion-ordered dictionaries

Association lists with pairwise distinct keys, with the operations of an
insertion-ordered hash map: assigning to a present key replaces the value in
place, assigning to a new key appends, deletion keeps the order of the rest.
The invariant on the keys is a field, so every `Dict` is well formed.
-/

namespace DiploidAgent

universe u v

section Entries

variable {κ : Type u} {ν : Type v} [DecidableEq κ]

/-- Value of the first entry with key `k`. -/
def lookupEntry (k : κ) : List (κ × ν) → Option ν
  | [] => none
  | e :: l => if e.1 = k then some e.2 else lookupEntry k l

/-- Replace the value of key `k` in place, or append a new entry. -/
def putEntry (k : κ) (v : ν) : List (κ × ν) → List (κ × ν)
  | [] => [(k, v)]
  | e :: l => if e.1 = k then (k, v) :: l else e :: putEntry k v l

theorem lookupEntry_nil (k : κ) : lookupEntry k ([] : List (κ × ν)) = none := rfl

theorem lookupEntry_cons (k : κ) (e : κ × ν) (l : List (κ × ν)) :
    lookupEntry k (e :: l) = if e.1 = k then some e.2 else lookupEntry k l := rfl

theorem putEntry_nil (k : κ) (v : ν) : putEntry k v [] = [(k, v)] := rfl

theorem putEntry_cons (k : κ) (v : ν) (e : κ × ν) (l : List (κ × ν)) :
    putEntry k v (e :: l) = if e.1 = k then (k, v) :: l else e :: putEntry k v l := rfl

theorem mem_keys_putEntry (k k' : κ) (v : ν) (l : List (κ × ν)) :
    k' ∈ (putEntry k v l).map Prod.fst ↔ k' = k ∨ k' ∈ l.map Prod.fst := by
  induction l with
  | nil => simp [putEntry_nil]
  | cons e l ih =>
      by_cases h : e.1 = k
      · simp [putEntry_cons, h]
      · simp only [putEntry_cons, if_neg h, List.map_cons, List.mem_cons, ih]
        constructor
        · rintro (h1 | h1 | h1)
          · exact Or.inr (Or.inl h1)
          · exact Or.inl h1
          · exact Or.inr (Or.inr h1)
        · rintro (h1 | h1 | h1)
          · exact Or.inr (Or.inl h1)
          · exact Or.inl h1
          · exact Or.inr (Or.inr h1)

theorem nodup_putEntry (k : κ) (v : ν) {l : List (κ × ν)}
    (h : (l.map Prod.fst).Nodup) : ((putEntry k v l).map Prod.fst).Nodup := by
  induction l with
  | nil => simp [putEntry_nil]
  | cons e l ih =>
      rw [List.map_cons, List.nodup_cons] at h
      by_cases hk : e.1 = k
      · subst hk
        simpa [putEntry_cons] using h
      · simp only [putEntry_cons, if_neg hk, List.map_cons, List.nodup_cons]
        refine ⟨?_, ih h.2⟩
        rw [mem_keys_putEntry]
        rintro (h1 | h1)
        · exact hk h1
        · exact h.1 h1

theorem lookupEntry_putEntry (k k' : κ) (v : ν) (l : List (κ × ν)) :
    lookupEntry k' (putEntry k v l) = if k = k' then some v else lookupEntry k' l := by
  induction l with
  | nil => rfl
  | cons e l ih =>
      by_cases hk : e.1 = k
      · subst hk
        by_cases h' : e.1 = k' <;> simp [putEntry_cons, lookupEntry_cons, h']
      · rw [putEntry_cons, if_neg hk]
        by_cases h' : e.1 = k'
        · have hne : k ≠ k' := fun hkk => hk (h'.trans hkk.symm)
          simp [lookupEntry_cons, h', hne]
        · simp [lookupEntry_cons, h', ih]

theorem lookupEntry_eq_none_iff (k : κ) (l : List (κ × ν)) :
    lookupEntry k l = none ↔ k ∉ l.map Prod.fst := by
  induction l with
  | nil => simp [lookupEntry_nil]
  | cons e l ih =>
      by_cases h : e.1 = k
      · simp [lookupEntry_cons, h]
      · have h' : ¬k = e.1 := fun hk => h hk.symm
        simp [lookupEntry_cons, h, h', ih]

theorem lookupEntry_append (k : κ) (l l' : List (κ × ν)) :
    lookupEntry k (l ++ l') = (lookupEntry k l).or (lookupEntry k l') := by
  induction l with
  | nil => rfl
  | cons e l ih =>
      rw [List.cons_append, lookupEntry_cons, lookupEntry_cons]
      split
      · rfl
      · exact ih

theorem lookupEntry_eq_some_iff {l : List (κ × ν)} (hnd : (l.map Prod.fst).Nodup)
    (k : κ) (v : ν) : lookupEntry k l = some v ↔ (k, v) ∈ l := by
  induction l with
  | nil => simp [lookupEntry_nil]
  | cons e l ih =>
      rw [List.map_cons, List.nodup_cons] at hnd
      obtain ⟨k', v'⟩ := e
      by_cases h : k' = k
      · subst h
        have hnot : (k', v) ∉ l := fun hm =>
          hnd.1 (List.mem_map.mpr ⟨(k', v), hm, rfl⟩)
        simp [lookupEntry_cons, hnot, eq_comm]
      · have h' : ¬k = k' := fun hk => h hk.symm
        simp [lookupEntry_cons, h, h', ih hnd.2]

theorem lookupEntry_filter (p : κ → Bool) (k : κ) (l : List (κ × ν)) :
    lookupEntry k (l.filter fun e => p e.1) =
      if p k then lookupEntry k l else none := by
  induction l with
  | nil => simp [lookupEntry_nil]
  | cons e l ih =>
      by_cases hp : p e.1
      · by_cases h : e.1 = k
        · subst h
          simp [lookupEntry_cons, hp]
        · simp [lookupEntry_cons, hp, h, ih]
      · by_cases h : e.1 = k
        · subst h
          simp [hp, ih]
        · simp [lookupEntry_cons, hp, h, ih]

theorem lookupEntry_mapValues {ν' : Type v} (f : κ → ν → ν') (k : κ) (l : List (κ × ν)) :
    lookupEntry k (l.map fun e => (e.1, f e.1 e.2)) = (lookupEntry k l).map (f k) := by
  induction l with
  | nil => simp [lookupEntry_nil]
  | cons e l ih =>
      by_cases h : e.1 = k
      · subst h
        simp [lookupEntry_cons]
      · simp [lookupEntry_cons, h, ih]

end Entries

/-- A dictionary: entries in insertion order, with pairwise distinct keys. -/
structure Dict (κ : Type u) (ν : Type v) where
  entries : List (κ × ν)
  nodup_keys : (entries.map Prod.fst).Nodup
deriving DecidableEq

namespace Dict

variable {κ : Type u} {ν : Type v}

/-- The empty dictionary. -/
def empty : Dict κ ν := ⟨[], by simp⟩

theorem ext_entries {d d' : Dict κ ν} (h : d.entries = d'.entries) : d = d' := by
  cases d
  cases d'
  cases h
  rfl

/-- The values in insertion order. -/
def values (d : Dict κ ν) : List ν := d.entries.map Prod.snd

/-- The keys in insertion order. -/
def keys (d : Dict κ ν) : List κ := d.entries.map Prod.fst

/-- Keep the entries that satisfy `p`, in order. -/
def filter (p : κ × ν → Bool) (d : Dict κ ν) : Dict κ ν :=
  ⟨d.entries.filter p,
    List.Sublist.nodup (List.filter_sublist.map Prod.fst) d.nodup_keys⟩

/-- Replace every value in place. -/
def mapValues {ν' : Type v} (f : κ → ν → ν') (d : Dict κ ν) : Dict κ ν' :=
  ⟨d.entries.map fun e => (e.1, f e.1 e.2), by
    simpa [List.map_map, Function.comp_def] using d.nodup_keys⟩

variable [DecidableEq κ]

/-- `d.get(k)`. -/
def get (d : Dict κ ν) (k : κ) : Option ν := lookupEntry k d.entries

/-- `d[k] = v`. -/
def set (d : Dict κ ν) (k : κ) (v : ν) : Dict κ ν :=
  ⟨putEntry k v d.entries, nodup_putEntry k v d.nodup_keys⟩

/-- `d.pop(k, None)`, the dictionary that is left. -/
def erase (d : Dict κ ν) (k : κ) : Dict κ ν := d.filter fun e => e.1 != k

@[simp] theorem get_empty (k : κ) : (empty : Dict κ ν).get k = none := rfl

theorem get_set (d : Dict κ ν) (k k' : κ) (v : ν) :
    (d.set k v).get k' = if k = k' then some v else d.get k' :=
  lookupEntry_putEntry k k' v d.entries

@[simp] theorem get_set_self (d : Dict κ ν) (k : κ) (v : ν) :
    (d.set k v).get k = some v := by
  simp [get_set]

theorem get_set_of_ne (d : Dict κ ν) {k k' : κ} (h : k ≠ k') (v : ν) :
    (d.set k v).get k' = d.get k' := by
  simp [get_set, h]

theorem get_erase (d : Dict κ ν) (k k' : κ) :
    (d.erase k).get k' = if k = k' then none else d.get k' := by
  have h := lookupEntry_filter (fun x => x != k) k' d.entries
  rcases eq_or_ne k k' with rfl | hk
  · simpa [erase, filter, get] using h
  · simpa [erase, filter, get, hk, hk.symm] using h

@[simp] theorem get_erase_self (d : Dict κ ν) (k : κ) : (d.erase k).get k = none := by
  simp [get_erase]

theorem get_erase_of_ne (d : Dict κ ν) {k k' : κ} (h : k ≠ k') :
    (d.erase k).get k' = d.get k' := by
  simp [get_erase, h]

theorem get_mapValues {ν' : Type v} (f : κ → ν → ν') (d : Dict κ ν) (k : κ) :
    (d.mapValues f).get k = (d.get k).map (f k) :=
  lookupEntry_mapValues f k d.entries

theorem get_eq_some_iff (d : Dict κ ν) (k : κ) (v : ν) :
    d.get k = some v ↔ (k, v) ∈ d.entries :=
  lookupEntry_eq_some_iff d.nodup_keys k v

theorem get_eq_none_iff (d : Dict κ ν) (k : κ) :
    d.get k = none ↔ k ∉ d.keys :=
  lookupEntry_eq_none_iff k d.entries

theorem mem_values_of_get {d : Dict κ ν} {k : κ} {v : ν} (h : d.get k = some v) :
    v ∈ d.values :=
  List.mem_map.mpr ⟨(k, v), (d.get_eq_some_iff k v).mp h, rfl⟩

theorem exists_get_of_mem_values {d : Dict κ ν} {v : ν} (h : v ∈ d.values) :
    ∃ k, d.get k = some v := by
  obtain ⟨⟨k, v'⟩, hm, rfl⟩ := List.mem_map.mp h
  exact ⟨k, (d.get_eq_some_iff k v').mpr hm⟩

/-- Assigning a value that `p` leaves out, in the place of one that it leaves out or of none. -/
theorem filter_values_set {d : Dict κ ν} {k : κ} {v : ν} {p : ν → Bool} (hnew : p v = false)
    (hold : ∀ old, d.get k = some old → p old = false) :
    (d.set k v).values.filter p = d.values.filter p := by
  obtain ⟨l, hnd⟩ := d
  change ∀ old, lookupEntry k l = some old → p old = false at hold
  change ((putEntry k v l).map Prod.snd).filter p = (l.map Prod.snd).filter p
  clear hnd
  induction l with
  | nil => simp [putEntry_nil, hnew]
  | cons e l ih =>
      rw [putEntry_cons]
      split
      · rename_i hk
        have he : p e.2 = false := hold e.2 (by rw [lookupEntry_cons, if_pos hk])
        simp [hnew, he]
      · rename_i hk
        have hrest := ih fun old hget => hold old (by rw [lookupEntry_cons, if_neg hk, hget])
        rw [List.map_cons, List.map_cons, List.filter_cons, List.filter_cons, hrest]

/-- Looking a key up after filtering: the entry is still there when it
satisfies the predicate. -/
theorem get_filter (d : Dict κ ν) (p : κ × ν → Bool) (k : κ) :
    (d.filter p).get k = (d.get k).filter fun v => p (k, v) := by
  cases hg : d.get k with
  | none =>
      rw [Option.filter_none, get_eq_none_iff]
      rw [get_eq_none_iff] at hg
      intro hmem
      obtain ⟨e, he, rfl⟩ := List.mem_map.mp hmem
      exact hg (List.mem_map.mpr ⟨e, (List.mem_filter.mp he).1, rfl⟩)
  | some v =>
      have hmem := (d.get_eq_some_iff k v).mp hg
      rw [Option.filter_some]
      by_cases hp : p (k, v) = true
      · rw [if_pos hp, get_eq_some_iff]
        exact List.mem_filter.mpr ⟨hmem, hp⟩
      · rw [if_neg hp, get_eq_none_iff]
        intro hk
        obtain ⟨⟨k', v'⟩, he, rfl⟩ := List.mem_map.mp hk
        obtain ⟨hin, hp'⟩ := List.mem_filter.mp he
        have hv : d.get k' = some v' := (d.get_eq_some_iff k' v').mpr hin
        obtain rfl : v = v' := Option.some.inj (hg.symm.trans hv)
        exact hp hp'

theorem putEntry_of_not_mem {k : κ} {l : List (κ × ν)} (h : k ∉ l.map Prod.fst) (v : ν) :
    putEntry k v l = l ++ [(k, v)] := by
  induction l with
  | nil => rfl
  | cons e l ih =>
      rw [List.map_cons, List.mem_cons, not_or] at h
      rw [putEntry_cons, if_neg (Ne.symm h.1), ih h.2, List.cons_append]

/-- Inserting entries one by one under new keys appends them in order. -/
theorem entries_foldl_set (p : κ × ν → Bool) {l : List (κ × ν)} {d : Dict κ ν}
    (hnd : (l.map Prod.fst).Nodup) (hnew : ∀ e ∈ l, e.1 ∉ d.keys) :
    (l.foldl (fun d e => if p e then d.set e.1 e.2 else d) d).entries =
      d.entries ++ l.filter p := by
  induction l generalizing d with
  | nil => simp
  | cons e l ih =>
      rw [List.map_cons, List.nodup_cons] at hnd
      obtain ⟨hhead, hrest⟩ := List.forall_mem_cons.mp hnew
      have hset : (d.set e.1 e.2).entries = d.entries ++ [e] := putEntry_of_not_mem hhead e.2
      rw [List.foldl_cons]
      by_cases hp : p e = true
      · rw [if_pos hp, ih hnd.2, hset, List.filter_cons_of_pos hp]
        · simp
        · intro e' he' hmem
          rw [keys, hset, List.map_append, List.mem_append] at hmem
          rcases hmem with hmem | hmem
          · exact hrest e' he' hmem
          · rw [List.map_singleton, List.mem_singleton] at hmem
            exact hnd.1 (hmem ▸ List.mem_map_of_mem he')
      · rw [if_neg hp, ih hnd.2 hrest, List.filter_cons_of_neg hp]

/-- Looking a key up after entries with a chosen kind of key were assigned. -/
theorem get_foldl_set (p : κ → Bool) {l : List (κ × ν)} (hnd : (l.map Prod.fst).Nodup)
    (d : Dict κ ν) (k : κ) :
    (l.foldl (fun d e => if p e.1 then d.set e.1 e.2 else d) d).get k =
      if p k then (lookupEntry k l).or (d.get k) else d.get k := by
  induction l generalizing d with
  | nil => simp [lookupEntry_nil]
  | cons e l ih =>
      rw [List.map_cons, List.nodup_cons] at hnd
      rw [List.foldl_cons, ih hnd.2]
      by_cases hk : e.1 = k
      · subst hk
        have hnone : lookupEntry e.1 l = none := (lookupEntry_eq_none_iff e.1 l).mpr hnd.1
        by_cases hp : p e.1 = true <;> simp [hp, hnone, lookupEntry_cons]
      · by_cases hp : p e.1 = true
        · simp [hp, lookupEntry_cons, hk, get_set]
        · simp [hp, lookupEntry_cons, hk]

/-- Looking a key up after a fold over keys, each of which changes its own entry. -/
theorem get_foldl_update {f : Dict κ ν → κ → Dict κ ν} {g : κ → Option ν → Option ν}
    (hf : ∀ d k k', (f d k).get k' = if k = k' then g k (d.get k) else d.get k')
    {ks : List κ} (hnd : ks.Nodup) (d : Dict κ ν) (k : κ) :
    (ks.foldl f d).get k = if k ∈ ks then g k (d.get k) else d.get k := by
  induction ks generalizing d with
  | nil => simp
  | cons k' ks ih =>
      rw [List.nodup_cons] at hnd
      rw [List.foldl_cons, ih hnd.2, hf]
      by_cases hk : k' = k
      · subst hk
        simp [hnd.1]
      · simp [hk, Ne.symm hk]

end Dict

end DiploidAgent
