import DiploidAgent.Lib.Dict
import DiploidAgent.Lib.JsonDumps

/-!
# JSON without the order of members

`json.dumps` with `sort_keys`, and when two values are the same but for the order in which the
members of their objects stand: they have the same text then, and no others have
(`dumps_sortKeys_inj`).
-/

namespace DiploidAgent
namespace JsonText

universe u

variable {F : Type u}

/-- The order of `str`, by code points. -/
def keyLe : List Char → List Char → Bool
  | [], _ => true
  | _ :: _, [] => false
  | c :: k, d :: l => decide (c < d) || (c == d && keyLe k l)

mutual

/-- The value with the members of its objects in the order of `sort_keys`. -/
def sortKeys : Value F → Value F
  | .scalar v => .scalar v
  | .arr vs => .arr (sortItems vs)
  | .obj ms => .obj ((sortMembers ms).mergeSort fun m m' => keyLe m.1 m'.1)

def sortItems : List (Value F) → List (Value F)
  | [] => []
  | v :: vs => sortKeys v :: sortItems vs

def sortMembers : List (List Char × Value F) → List (List Char × Value F)
  | [] => []
  | (k, v) :: ms => (k, sortKeys v) :: sortMembers ms

end

/-- The values differ at most in the order of members. -/
def Same (v w : Value F) : Prop := sortKeys v = sortKeys w

/-! ### The order of keys -/

section Order

theorem keyLe_trans {k l m : List Char} (h : keyLe k l = true) (h' : keyLe l m = true) :
    keyLe k m = true := by
  induction k generalizing l m with
  | nil => rfl
  | cons c k ih =>
      cases l with
      | nil => cases h
      | cons d l =>
          cases m with
          | nil => cases h'
          | cons e m =>
              simp only [keyLe, Bool.or_eq_true, decide_eq_true_eq, Bool.and_eq_true,
                beq_iff_eq] at h h' ⊢
              rcases h with h | ⟨rfl, h⟩
              · rcases h' with h' | ⟨rfl, -⟩
                · exact Or.inl (Nat.lt_trans h h')
                · exact Or.inl h
              · rcases h' with h' | ⟨rfl, h'⟩
                · exact Or.inl h'
                · exact Or.inr ⟨rfl, ih h h'⟩

theorem keyLe_total (k l : List Char) : (keyLe k l || keyLe l k) = true := by
  induction k generalizing l with
  | nil => rfl
  | cons c k ih =>
      cases l with
      | nil => rfl
      | cons d l =>
          have hrest := ih l
          simp only [keyLe, Bool.or_eq_true, decide_eq_true_eq, Bool.and_eq_true,
            beq_iff_eq] at hrest ⊢
          rcases Nat.lt_trichotomy c.toNat d.toNat with h | h | h
          · exact Or.inl (Or.inl h)
          · have hcd : c = d := Char.toNat_inj.mp h
            exact hrest.imp (fun h => Or.inr ⟨hcd, h⟩) fun h => Or.inr ⟨hcd.symm, h⟩
          · exact Or.inr (Or.inl h)

theorem keyLe_antisymm {k l : List Char} (h : keyLe k l = true) (h' : keyLe l k = true) :
    k = l := by
  induction k generalizing l with
  | nil =>
      cases l with
      | nil => rfl
      | cons d l => cases h'
  | cons c k ih =>
      cases l with
      | nil => cases h
      | cons d l =>
          simp only [keyLe, Bool.or_eq_true, decide_eq_true_eq, Bool.and_eq_true,
            beq_iff_eq] at h h'
          rcases h with h | ⟨rfl, h⟩
          · rcases h' with h' | ⟨rfl, -⟩
            · exact absurd h' (Nat.lt_asymm h)
            · exact absurd h (Nat.lt_irrefl _)
          · rcases h' with h' | ⟨-, h'⟩
            · exact absurd h' (Nat.lt_irrefl _)
            · rw [ih h h']

end Order

/-! ### The members of objects -/

section Members

variable {β : Type u}

/-- Entries in the order of their keys. -/
def byKey (l : List (List Char × β)) : List (List Char × β) :=
  l.mergeSort fun m m' => keyLe m.1 m'.1

/-- Entries under distinct keys are told apart by looking them up. -/
theorem byKey_eq_iff {l l' : List (List Char × β)} (hl : (l.map Prod.fst).Nodup)
    (hl' : (l'.map Prod.fst).Nodup) :
    byKey l = byKey l' ↔ ∀ k, lookupEntry k l = lookupEntry k l' := by
  have hperm : ∀ l : List (List Char × β), (byKey l).Perm l := fun l => List.mergeSort_perm l _
  constructor
  · intro h k
    have hll : l.Perm l' := (hperm l).symm.trans (h ▸ hperm l')
    refine Option.ext fun v => ?_
    rw [lookupEntry_eq_some_iff hl, lookupEntry_eq_some_iff hl', hll.mem_iff]
  · intro h
    have hmem : ∀ m, m ∈ l ↔ m ∈ l' := fun m => by
      rw [← Prod.eta m, ← lookupEntry_eq_some_iff hl, ← lookupEntry_eq_some_iff hl', h]
    have hll : l.Perm l' := (List.perm_ext_iff_of_nodup hl.of_map hl'.of_map).mpr hmem
    have hsorted : ∀ l : List (List Char × β), (byKey l).Pairwise fun m m' => keyLe m.1 m'.1 :=
      List.pairwise_mergeSort
        (fun m m' m'' => keyLe_trans (k := m.1) (l := m'.1) (m := m''.1))
        fun m m' => keyLe_total m.1 m'.1
    refine List.Perm.eq_of_pairwise (fun m m' hm hm' hle hle' => ?_) (hsorted l) (hsorted l')
      ((hperm l).trans (hll.trans (hperm l').symm))
    have hkey : m.1 = m'.1 := keyLe_antisymm hle hle'
    have hfirst := (lookupEntry_eq_some_iff hl m.1 m.2).mpr ((hperm l).mem_iff.mp hm)
    have hsecond := (lookupEntry_eq_some_iff hl' m'.1 m'.2).mpr ((hperm l').mem_iff.mp hm')
    rw [h, hkey, hsecond] at hfirst
    exact Prod.ext hkey (Option.some.inj hfirst).symm

end Members

section Values

variable {N : FloatText F}

theorem sortItems_eq_map (vs : List (Value F)) : sortItems vs = vs.map sortKeys := by
  induction vs with
  | nil => rfl
  | cons v vs ih => exact congrArg (sortKeys v :: ·) ih

theorem sortMembers_eq_map (ms : List (List Char × Value F)) :
    sortMembers ms = ms.map fun m => (m.1, sortKeys m.2) := by
  induction ms with
  | nil => rfl
  | cons m ms ih => exact congrArg ((m.1, sortKeys m.2) :: ·) ih

theorem same_scalar_iff {v w : Scalar F} : Same (.scalar v) (.scalar w) ↔ v = w :=
  ⟨fun h => Value.scalar.inj h, congrArg Value.scalar⟩

theorem same_arr_iff {vs ws : List (Value F)} :
    Same (.arr vs) (.arr ws) ↔ List.Forall₂ Same vs ws := by
  have hmap : List.Forall₂ Same vs ws ↔ vs.map sortKeys = ws.map sortKeys := by
    rw [← List.forall₂_eq_eq_eq, List.forall₂_map_left_iff, List.forall₂_map_right_iff]
    rfl
  rw [hmap, ← sortItems_eq_map, ← sortItems_eq_map]
  exact ⟨fun h => Value.arr.inj h, congrArg Value.arr⟩

/-- Objects are the same when they have the same under each key. -/
theorem same_obj_iff {ms ns : List (List Char × Value F)} (hms : (ms.map Prod.fst).Nodup)
    (hns : (ns.map Prod.fst).Nodup) :
    Same (.obj ms) (.obj ns) ↔ ∀ k, Option.Rel Same (lookupEntry k ms) (lookupEntry k ns) := by
  have hkeys : ∀ ms : List (List Char × Value F),
      (sortMembers ms).map Prod.fst = ms.map Prod.fst := by
    intro ms
    rw [sortMembers_eq_map, List.map_map]
    rfl
  have hlookup : ∀ (k : List Char) (ms : List (List Char × Value F)),
      lookupEntry k (sortMembers ms) = (lookupEntry k ms).map sortKeys := by
    intro k ms
    rw [sortMembers_eq_map]
    exact lookupEntry_mapValues (fun _ => sortKeys) k ms
  have hobj : Same (.obj ms) (.obj ns) ↔ byKey (sortMembers ms) = byKey (sortMembers ns) :=
    ⟨fun h => Value.obj.inj h, congrArg Value.obj⟩
  rw [hobj, byKey_eq_iff (by rwa [hkeys]) (by rwa [hkeys])]
  refine forall_congr' fun k => ?_
  rw [hlookup, hlookup]
  cases lookupEntry k ms <;> cases lookupEntry k ns <;> simp [Same]

/-- Objects with one key in front. -/
theorem same_obj_cons_iff {k : List Char} {v w : Value F} {ms ns : List (List Char × Value F)}
    (hms : (((k, v) :: ms).map Prod.fst).Nodup) (hns : (((k, w) :: ns).map Prod.fst).Nodup) :
    Same (.obj ((k, v) :: ms)) (.obj ((k, w) :: ns)) ↔ Same v w ∧ Same (.obj ms) (.obj ns) := by
  obtain ⟨hk, hms'⟩ := List.nodup_cons.mp hms
  obtain ⟨hk', hns'⟩ := List.nodup_cons.mp hns
  rw [same_obj_iff hms hns, same_obj_iff hms' hns']
  constructor
  · intro h
    refine ⟨by simpa [lookupEntry_cons] using h k, fun l => ?_⟩
    by_cases hl : k = l
    · rw [← hl, (lookupEntry_eq_none_iff k ms).mpr hk, (lookupEntry_eq_none_iff k ns).mpr hk']
      exact .none
    · simpa [lookupEntry_cons, hl] using h l
  · rintro ⟨hv, h⟩ l
    rw [lookupEntry_cons, lookupEntry_cons]
    split_ifs
    · exact .some hv
    · exact h l

/-- The text with sorted keys tells values apart that are not the same. -/
theorem dumps_sortKeys_inj (ascii : Bool) {v w : Value F} :
    dumps ascii N (sortKeys v) = dumps ascii N (sortKeys w) ↔ Same v w := by
  refine ⟨fun h => ?_, fun h => congrArg (dumps ascii N) h⟩
  have hread := congrArg (loads N) h
  rw [loads_dumps, loads_dumps] at hread
  exact Option.some.inj hread

end Values

end JsonText
end DiploidAgent
