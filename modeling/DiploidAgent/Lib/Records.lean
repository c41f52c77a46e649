import DiploidAgent.Lib.Dict

/-!
# Records of checked fields

A schema lists the fields of a record; each has a check, which may change the value it
is given, and perhaps a default.  A record is built from given values, changed by the
fields that a request sets, written without the values that are missing, and restored
by laying what was written over another record.

Restoring gives back what was written and the other record elsewhere
(`construct_overlay`).
-/

namespace DiploidAgent
namespace Records

universe u

variable {V : Type u}

/-! ### Fields and schemas -/

/-- A value is rejected, or its check ends in an error of another kind. -/
inductive Failure where
  | invalid
  | raised
deriving DecidableEq

theorem bind_eq_ok
    {α β : Type u} {x : Except Failure α} {f : α → Except Failure β} {b : β} :
    x.bind f = .ok b ↔ ∃ a, x = .ok a ∧ f a = .ok b := by
  cases x <;> simp [Except.bind]

theorem map_eq_ok
    {α β : Type u} {x : Except Failure α} {f : α → β} {b : β} :
    x.map f = .ok b ↔ ∃ a, x = .ok a ∧ f a = b := by
  cases x <;> simp [Except.map]

structure FieldDef (V : Type u) where
  name : String
  check : V → Except Failure V
  default : Option V

/-- What passes the check passes it again unchanged. -/
def Stable (check : V → Except Failure V) : Prop :=
  ∀ v w, check v = .ok w → check w = .ok w

/-- Names are distinct, checks are stable, and every default passes its own check. -/
structure Schema (V : Type u) where
  fields : List (FieldDef V)
  validateAssignment : Bool
  nodup : (fields.map FieldDef.name).Nodup
  stable : ∀ f ∈ fields, Stable f.check
  defaults : ∀ f ∈ fields, ∀ v, f.default = some v → f.check v = .ok v

/-- The value that a field takes from the given ones. -/
def FieldDef.read (f : FieldDef V) (given : Dict String V) : Except Failure V :=
  match given.get f.name with
  | some v => f.check v
  | none =>
      match f.default with
      | some v => .ok v
      | none => .error .invalid

/-- All fields are read, whether or not one was rejected. -/
def construct : List (FieldDef V) → Dict String V → Except Failure (Dict String V)
  | [], _ => .ok Dict.empty
  | f :: fs, given =>
      match f.read given, construct fs given with
      | .ok v, .ok m => .ok (m.set f.name v)
      | .error .raised, _ => .error .raised
      | _, .error .raised => .error .raised
      | _, _ => .error .invalid

def Valid (S : Schema V) (m : Dict String V) : Prop :=
  ∀ f ∈ S.fields, ∃ v, m.get f.name = some v ∧ f.check v = .ok v

structure Record (S : Schema V) where
  values : Dict String V
  valid : Valid S values

/-! ### Building a record -/

section Construct

variable {S : Schema V} {f : FieldDef V} {fs : List (FieldDef V)} {given given' m : Dict String V}

theorem read_of_get
    {v : V} (h : given.get f.name = some v) :
    f.read given = f.check v := by
  rw [FieldDef.read, h]

theorem read_of_missing
    {v : V} (h : given.get f.name = none) (hdefault : f.default = some v) :
    f.read given = .ok v := by
  rw [FieldDef.read, h, hdefault]

theorem construct_cons_eq_ok :
    construct (f :: fs) given = .ok m ↔
      ∃ v m', f.read given = .ok v ∧ construct fs given = .ok m' ∧ m = m'.set f.name v := by
  rw [construct]
  cases hread : f.read given with
  | error e =>
      cases e <;> cases hrest : construct fs given with
      | error e' => cases e' <;> simp
      | ok m' => simp
  | ok v =>
      cases hrest : construct fs given with
      | error e => cases e <;> simp
      | ok m' => simp [eq_comm]

theorem construct_congr
    (h : ∀ f ∈ fs, f.read given = f.read given') :
    construct fs given = construct fs given' := by
  induction fs with
  | nil => rfl
  | cons f fs ih =>
      obtain ⟨hhead, hrest⟩ := List.forall_mem_cons.mp h
      rw [construct, construct, hhead, ih hrest]

theorem construct_ok
    (h : ∀ f ∈ fs, ∃ v, f.read given = .ok v) :
    ∃ m, construct fs given = .ok m := by
  induction fs with
  | nil => exact ⟨_, rfl⟩
  | cons f fs ih =>
      obtain ⟨⟨v, hv⟩, hrest⟩ := List.forall_mem_cons.mp h
      obtain ⟨m, hm⟩ := ih hrest
      exact ⟨_, construct_cons_eq_ok.mpr ⟨v, m, hv, hm, rfl⟩⟩

/-- Every value of the record was read by the field of its name. -/
theorem read_of_construct
    (h : construct fs given = .ok m) {name : String} {v : V} (hget : m.get name = some v) :
    ∃ f ∈ fs, f.name = name ∧ f.read given = .ok v := by
  induction fs generalizing m with
  | nil =>
      cases h
      cases hget
  | cons f fs ih =>
      obtain ⟨w, m', hread, hrest, rfl⟩ := construct_cons_eq_ok.mp h
      rw [Dict.get_set] at hget
      split_ifs at hget with hname
      · obtain rfl := Option.some.inj hget
        exact ⟨f, List.mem_cons_self, hname, hread⟩
      · obtain ⟨f', hf', hname', hread'⟩ := ih hrest hget
        exact ⟨f', List.mem_cons_of_mem _ hf', hname', hread'⟩

theorem get_of_construct
    (hnodup : (fs.map FieldDef.name).Nodup) (h : construct fs given = .ok m) (hf : f ∈ fs) :
    ∃ v, f.read given = .ok v ∧ m.get f.name = some v := by
  induction fs generalizing m with
  | nil => cases hf
  | cons f' fs ih =>
      rw [List.map_cons, List.nodup_cons] at hnodup
      obtain ⟨w, m', hread, hrest, rfl⟩ := construct_cons_eq_ok.mp h
      rcases List.mem_cons.mp hf with rfl | hin
      · exact ⟨w, hread, Dict.get_set_self _ _ _⟩
      · obtain ⟨v, hv, hget⟩ := ih hnodup.2 hrest hin
        have hne : f'.name ≠ f.name := fun heq => hnodup.1 (heq ▸ List.mem_map_of_mem hin)
        exact ⟨v, hv, (Dict.get_set_of_ne _ hne _).trans hget⟩

theorem check_of_read
    {v : V} (hf : f ∈ S.fields) (h : f.read given = .ok v) :
    f.check v = .ok v := by
  cases hget : given.get f.name with
  | some w => exact S.stable f hf w v ((read_of_get hget).symm.trans h)
  | none =>
      cases hdefault : f.default with
      | some w =>
          obtain rfl : w = v :=
            Except.ok.inj ((read_of_missing hget hdefault).symm.trans h)
          exact S.defaults f hf w hdefault
      | none =>
          rw [FieldDef.read, hget, hdefault] at h
          cases h

theorem valid_of_construct
    (h : construct S.fields given = .ok m) :
    Valid S m := by
  intro f hf
  obtain ⟨v, hread, hget⟩ := get_of_construct S.nodup h hf
  exact ⟨v, hget, check_of_read hf hread⟩

end Construct

namespace Record

variable {S : Schema V}

/-- A result whose values are known to be valid. -/
def ofResult (r : Except Failure (Dict String V)) (h : ∀ m, r = .ok m → Valid S m) :
    Except Failure (Record S) :=
  match r, h with
  | .ok m, h => .ok ⟨m, h m rfl⟩
  | .error e, _ => .error e

theorem ofResult_eq_ok
    {r : Except Failure (Dict String V)} {h : ∀ m, r = .ok m → Valid S m} {m : Record S} :
    ofResult r h = .ok m ↔ r = .ok m.values := by
  cases r with
  | error e => simp [ofResult]
  | ok values =>
      cases m
      simp [ofResult]

/-- A record from given values. -/
def construct (S : Schema V) (given : Dict String V) : Except Failure (Record S) :=
  ofResult (Records.construct S.fields given) fun _ => valid_of_construct

/-- The records agree on the fields but for some. -/
def Agree (excluded : List String) (m m' : Record S) : Prop :=
  ∀ f ∈ S.fields, f.name ∉ excluded → m.values.get f.name = m'.values.get f.name

end Record

/-! ### Changing a record -/

def setattr (S : Schema V) (f : FieldDef V) (m : Dict String V) (v : V) :
    Except Failure (Dict String V) :=
  if S.validateAssignment then (f.check v).map (m.set f.name) else .ok (m.set f.name v)

/-- The fields that were set in `new` are set. -/
def assign (S : Schema V) (new : Dict String V) (fieldsSet : List String) :
    List (FieldDef V) → Dict String V → Except Failure (Dict String V)
  | [], m => .ok m
  | f :: fs, m =>
      if f.name ∈ fieldsSet then
        match new.get f.name with
        | some v => (setattr S f m v).bind (assign S new fieldsSet fs)
        | none => .error .raised
      else assign S new fieldsSet fs m

section Assign

variable {S : Schema V} {f : FieldDef V} {m m' new : Dict String V}

theorem valid_set
    {v : V} (h : Valid S m) (hf : f ∈ S.fields) (hv : f.check v = .ok v) :
    Valid S (m.set f.name v) := by
  intro f' hf'
  by_cases hname : f.name = f'.name
  · obtain rfl := List.inj_on_of_nodup_map S.nodup hf hf' hname
    exact ⟨v, Dict.get_set_self _ _ _, hv⟩
  · obtain ⟨w, hget, hw⟩ := h f' hf'
    exact ⟨w, (Dict.get_set_of_ne _ hname _).trans hget, hw⟩

theorem valid_setattr
    {v : V} (h : Valid S m) (hf : f ∈ S.fields) (hv : f.check v = .ok v)
    (hset : setattr S f m v = .ok m') :
    Valid S m' := by
  unfold setattr at hset
  split_ifs at hset
  · obtain ⟨w, hw, rfl⟩ := map_eq_ok.mp hset
    obtain rfl := Except.ok.inj (hv.symm.trans hw)
    exact valid_set h hf hv
  · obtain rfl := Except.ok.inj hset
    exact valid_set h hf hv

theorem valid_assign
    {fieldsSet : List String} {fs : List (FieldDef V)} (hnew : Valid S new) (h : Valid S m)
    (hfs : ∀ f ∈ fs, f ∈ S.fields) (hassign : assign S new fieldsSet fs m = .ok m') :
    Valid S m' := by
  induction fs generalizing m with
  | nil =>
      obtain rfl := Except.ok.inj hassign
      exact h
  | cons f fs ih =>
      obtain ⟨hhead, hrest⟩ := List.forall_mem_cons.mp hfs
      rw [assign] at hassign
      split_ifs at hassign
      · obtain ⟨v, hget, hv⟩ := hnew f hhead
        simp only [hget] at hassign
        obtain ⟨m₁, hset, hassign⟩ := bind_eq_ok.mp hassign
        exact ih (valid_setattr h hhead hv hset) hrest hassign
      · exact ih h hrest hassign

end Assign

/-- A partial update: the request is checked as a whole, and the fields it set are set. -/
def Record.update {S : Schema V} (m new : Record S) (fieldsSet : List String) :
    Except Failure (Record S) :=
  Record.ofResult (assign S new.values fieldsSet S.fields m.values)
    fun _ => valid_assign new.valid m.valid fun _ hf => hf

/-! ### Writing and restoring -/

/-- Assign entries one by one. -/
def setAll (d : Dict String V) (l : List (String × V)) : Dict String V :=
  l.foldl (fun d e => d.set e.1 e.2) d

/-- What is written: no missing value, and no excluded field. -/
def dump (isNone : V → Bool) (encode : V → V) (excluded : List String) (m : Dict String V) :
    Dict String V :=
  (m.filter fun e => !isNone e.2 && !excluded.contains e.1).mapValues fun _ v => encode v

section Overlay

variable {S : Schema V} {isNone : V → Bool} {encode : V → V} {excluded : List String}

theorem get_setAll
    (d d' : Dict String V) (k : String) :
    (setAll d d'.entries).get k = (d'.get k).or (d.get k) := by
  simpa [setAll, Dict.get] using Dict.get_foldl_set (fun _ => true) d'.nodup_keys d k

theorem get_ofEntries
    (d : Dict String V) (k : String) :
    (setAll Dict.empty d.entries).get k = d.get k := by
  rw [get_setAll, Dict.get_empty, Option.or_none]

theorem get_dump
    (m : Dict String V) (k : String) :
    (dump isNone encode excluded m).get k =
      ((m.get k).filter fun v => !isNone v && !excluded.contains k).map encode := by
  rw [dump, Dict.get_mapValues, Dict.get_filter]

/-- A value that is written is found again. -/
theorem get_dump_of_kept
    {m : Dict String V} {k : String} {v : V} (hget : m.get k = some v)
    (hnone : isNone v = false) (hk : k ∉ excluded) :
    (dump isNone encode excluded m).get k = some (encode v) := by
  rw [get_dump, hget, Option.filter_some, if_pos (by simp [hnone, hk]), Option.map_some]

theorem get_dump_of_none
    {m : Dict String V} {k : String} {v : V} (hget : m.get k = some v)
    (hnone : isNone v = true) :
    (dump isNone encode excluded m).get k = none := by
  rw [get_dump, hget, Option.filter_some, if_neg (by simp [hnone]), Option.map_none]

theorem get_dump_of_excluded
    (m : Dict String V) {k : String} (hk : k ∈ excluded) :
    (dump isNone encode excluded m).get k = none := by
  rw [get_dump, Option.filter_eq_none_iff.mpr (by simp [hk]), Option.map_none]

/-- **Restoring.**  A record laid over another in the form it is written in has its own
values where they are written, and those of the other elsewhere. -/
theorem construct_overlay
    (base live : Record S) (excluded : List String)
    (hback : ∀ f ∈ S.fields, ∀ v, live.values.get f.name = some v → isNone v = false →
      f.check (encode v) = .ok v) :
    ∃ m : Record S,
      Record.construct S
          (setAll base.values (dump isNone encode excluded live.values).entries) = .ok m ∧
      ∀ f ∈ S.fields, ∀ v, live.values.get f.name = some v →
        m.values.get f.name =
          if isNone v = true ∨ f.name ∈ excluded then base.values.get f.name else some v := by
  have hread : ∀ f ∈ S.fields, ∀ v, live.values.get f.name = some v →
      ∃ w, f.read (setAll base.values (dump isNone encode excluded live.values).entries) =
          .ok w ∧
        (if isNone v = true ∨ f.name ∈ excluded then base.values.get f.name else some v) =
          some w := by
    intro f hf v hv
    obtain ⟨b, hb, hcheck⟩ := base.valid f hf
    by_cases hlost : isNone v = true ∨ f.name ∈ excluded
    · have hnone : (dump isNone encode excluded live.values).get f.name = none := by
        rcases hlost with hnone | hexcluded
        · exact get_dump_of_none hv hnone
        · exact get_dump_of_excluded _ hexcluded
      refine ⟨b, ?_, by rw [if_pos hlost, hb]⟩
      rw [read_of_get (by rw [get_setAll, hnone, Option.none_or]; exact hb), hcheck]
    · have hkept := not_or.mp hlost
      have hnone := Bool.eq_false_iff.mpr hkept.1
      refine ⟨v, ?_, if_neg hlost⟩
      rw [read_of_get (by rw [get_setAll, get_dump_of_kept hv hnone hkept.2]; rfl)]
      exact hback f hf v hv hnone
  obtain ⟨m, hm⟩ := construct_ok fun f hf => by
    obtain ⟨v, hv, _⟩ := live.valid f hf
    obtain ⟨w, hw, _⟩ := hread f hf v hv
    exact ⟨w, hw⟩
  refine ⟨⟨m, valid_of_construct hm⟩, Record.ofResult_eq_ok.mpr hm, fun f hf v hv => ?_⟩
  obtain ⟨w, hw, hvalue⟩ := hread f hf v hv
  obtain ⟨w', hw', hget⟩ := get_of_construct S.nodup hm hf
  obtain rfl := Except.ok.inj (hw.symm.trans hw')
  exact hget.trans hvalue.symm

/-- What is restored agrees with what was written exactly when every value that was
missing is missing in the other record, too. -/
theorem agree_overlay_iff
    {base live m : Record S}
    (h : ∀ f ∈ S.fields, ∀ v, live.values.get f.name = some v →
      m.values.get f.name =
        if isNone v = true ∨ f.name ∈ excluded then base.values.get f.name else some v) :
    Record.Agree excluded m live ↔
      ∀ f ∈ S.fields, f.name ∉ excluded → ∀ v, live.values.get f.name = some v →
        isNone v = true → base.values.get f.name = some v := by
  constructor
  · intro hagree f hf hname v hv hnone
    have hget := h f hf v hv
    rw [if_pos (Or.inl hnone), hagree f hf hname] at hget
    exact hget.symm.trans hv
  · intro hbase f hf hname
    obtain ⟨v, hv, _⟩ := live.valid f hf
    rw [h f hf v hv, hv]
    split_ifs with hlost
    · exact hbase f hf hname v hv (hlost.resolve_right hname)
    · rfl

end Overlay

end Records
end DiploidAgent
