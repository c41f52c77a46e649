import Mathlib.Data.List.Basic
import Mathlib.Tactic.Common

/-!
# Reading a text line by line

A state is toggled by some of the lines of a text.  A character is marked with the state of
its line, and the end of a line with the state of the line that begins behind it, so that
every line but the first is marked, the empty ones too.

A piece of a text may be read on its own, from the beginning of a line and from the state
that the piece before it ended in.  Its characters keep their marks, and those behind it may
keep them too, exactly when the cuts are clean: a piece of a cut line that the line goes on
behind does not toggle the state, and the last one does what the whole line does
(`piece_kept_iff`).
-/

namespace DiploidAgent
namespace LineScan

universe u

variable {α : Type u}

/-- What was read of the line, and the state it is read in. -/
structure Reader (α : Type u) where
  line : List α
  state : Bool

variable [DecidableEq α] (sep : α) (toggles : List α → Bool)

/-- One character. -/
def step (r : Reader α) (c : α) : Reader α :=
  if c = sep then ⟨[], r.state ^^ toggles r.line⟩ else ⟨r.line ++ [c], r.state⟩

def read : Reader α → List α → Reader α
  | r, [] => r
  | r, c :: rest => read (step sep toggles r c) rest

/-- The marks of a text. -/
def marks : Reader α → List α → List Bool
  | _, [] => []
  | r, c :: rest => (step sep toggles r c).state :: marks (step sep toggles r c) rest

/-- The state behind the last line. -/
def finish (r : Reader α) : Bool := r.state ^^ toggles r.line

/-- The state behind a text. -/
def scan (s : Bool) (t : List α) : Bool := finish toggles (read sep toggles ⟨[], s⟩ t)

/-- The line that is open behind a text. -/
def openLine (line t : List α) : List α := (read sep toggles ⟨line, false⟩ t).line

/-- The first character is marked alike on its own and by a reader of the whole text. -/
def Ready (r : Reader α) (s : Bool) (t : List α) : Prop :=
  ∀ c m, t = c :: m → (step sep toggles ⟨[], s⟩ c).state = (step sep toggles r c).state

/-- The cuts around a piece, behind an open line and in front of the rest. -/
structure CleanPiece (line t rest : List α) : Prop where
  /-- The piece holds the end of the open line. -/
  first : ∀ l m, t = l ++ sep :: m → sep ∉ l → l ≠ [] → toggles l = toggles (line ++ l)
  /-- The line ends right behind the piece. -/
  ended : ∀ m, rest = sep :: m →
    toggles (openLine sep toggles [] t) = toggles (openLine sep toggles line t)
  /-- The line goes on behind the piece. -/
  inner : ∀ c m, rest = c :: m → c ≠ sep → toggles (openLine sep toggles [] t) = false

variable {sep toggles}

/-! ### Texts -/

section Texts

variable {s s' : Bool} {line l m t rest : List α} {r : Reader α}

theorem read_append
    (r : Reader α) (t u : List α) :
    read sep toggles r (t ++ u) = read sep toggles (read sep toggles r t) u := by
  induction t generalizing r with
  | nil => rfl
  | cons c t ih => exact ih _

theorem marks_append
    (r : Reader α) (t u : List α) :
    marks sep toggles r (t ++ u) =
      marks sep toggles r t ++ marks sep toggles (read sep toggles r t) u := by
  induction t generalizing r with
  | nil => rfl
  | cons c t ih => exact congrArg (List.cons _) (ih _)

@[simp] theorem length_marks
    (r : Reader α) (t : List α) :
    (marks sep toggles r t).length = t.length := by
  induction t generalizing r with
  | nil => rfl
  | cons c t ih => exact congrArg Nat.succ (ih _)

/-- The last mark is the state behind the text. -/
theorem getLast_marks
    (r : Reader α) (ht : t ≠ []) :
    (marks sep toggles r t).getLast? = some (read sep toggles r t).state := by
  induction t generalizing r with
  | nil => exact absurd rfl ht
  | cons c t ih =>
      cases t with
      | nil => rfl
      | cons d t => exact ih _ (List.cons_ne_nil d t)

/-- A text without an end of line. -/
theorem read_of_notMem
    (h : sep ∉ l) :
    read sep toggles r l = ⟨r.line ++ l, r.state⟩ := by
  induction l generalizing r with
  | nil => rw [read, List.append_nil]
  | cons c l ih =>
      rw [List.mem_cons, not_or] at h
      rw [read, step, if_neg (Ne.symm h.1), ih h.2]
      simp

theorem marks_of_notMem
    (h : sep ∉ l) :
    marks sep toggles r l = List.replicate l.length r.state := by
  induction l generalizing r with
  | nil => rfl
  | cons c l ih =>
      rw [List.mem_cons, not_or] at h
      rw [marks, step, if_neg (Ne.symm h.1), ih h.2]
      rfl

/-- A text with an end of line. -/
theorem read_line
    (h : sep ∉ l) (m : List α) :
    read sep toggles r (l ++ sep :: m) =
      read sep toggles ⟨[], r.state ^^ toggles (r.line ++ l)⟩ m := by
  rw [read_append, read_of_notMem h, read, step, if_pos rfl]

theorem marks_line
    (h : sep ∉ l) (m : List α) :
    marks sep toggles r (l ++ sep :: m) =
      List.replicate l.length r.state ++ (r.state ^^ toggles (r.line ++ l)) ::
        marks sep toggles ⟨[], r.state ^^ toggles (r.line ++ l)⟩ m := by
  rw [marks_append, marks_of_notMem h, read_of_notMem h, marks, step, if_pos rfl]

/-- The open line does not depend on the state. -/
theorem line_read
    (r : Reader α) (t : List α) :
    (read sep toggles r t).line = openLine sep toggles r.line t := by
  have hstate : ∀ (line : List α) (s s' : Bool),
      (read sep toggles ⟨line, s⟩ t).line = (read sep toggles ⟨line, s'⟩ t).line := by
    induction t with
    | nil => exact fun _ _ _ => rfl
    | cons c t ih =>
        intro line s s'
        simp only [read, step]
        split_ifs
        · exact ih [] _ _
        · exact ih _ s s'
  exact hstate r.line r.state false

theorem read_eq
    (r : Reader α) (t : List α) :
    read sep toggles r t =
      ⟨openLine sep toggles r.line t, (read sep toggles r t).state⟩ := by
  rw [← line_read]

theorem scan_of_notMem
    (h : sep ∉ l) :
    scan sep toggles s l = (s ^^ toggles l) := by
  rw [scan, read_of_notMem h, finish, List.nil_append]

theorem scan_line
    (h : sep ∉ l) (m : List α) :
    scan sep toggles s (l ++ sep :: m) = scan sep toggles (s ^^ toggles l) m := by
  rw [scan, read_line h, List.nil_append, scan]

/-- A text behind the end of a line. -/
theorem scan_append_line
    (s : Bool) (t m : List α) :
    scan sep toggles s (t ++ sep :: m) = scan sep toggles (scan sep toggles s t) m := by
  rw [scan, read_append, read, step, if_pos rfl]
  rfl

/-- The same lines toggle the other state. -/
theorem scan_not
    (s : Bool) (t : List α) :
    scan sep toggles (!s) t = !scan sep toggles s t := by
  have hstate : ∀ (line : List α) (s : Bool),
      (read sep toggles ⟨line, !s⟩ t).state = !(read sep toggles ⟨line, s⟩ t).state := by
    induction t with
    | nil => exact fun _ _ => rfl
    | cons c t ih =>
        intro line s
        simp only [read, step]
        split_ifs
        · rw [Bool.not_xor]
          exact ih [] _
        · exact ih _ s
  rw [scan, scan, finish, finish, line_read, line_read, hstate, Bool.not_xor]

theorem line_unique
    {l' m' : List α} (hl : sep ∉ l) (hl' : sep ∉ l')
    (h : l ++ sep :: m = l' ++ sep :: m') :
    l = l' ∧ m = m' := by
  have htake : ∀ (l m : List α), sep ∉ l →
      (l ++ sep :: m).takeWhile (fun c => decide (c ≠ sep)) = l := by
    intro l m hl
    have hall : ∀ c ∈ l, decide (c ≠ sep) = true := fun c hc =>
      decide_eq_true fun heq => hl (heq ▸ hc)
    rw [List.takeWhile_append_of_pos hall, List.takeWhile_cons_of_neg (by simp), List.append_nil]
  have hsame : l = l' := by
    rw [← htake l m hl, h, htake l' m' hl']
  subst hsame
  exact ⟨rfl, (List.cons.inj (List.append_cancel_left h)).2⟩

end Texts

/-! ### Pieces -/

section Pieces

variable {s : Bool} {r : Reader α} {t rest : List α}

theorem xor_eq_self_iff
    {a b : Bool} :
    (a ^^ b) = a ↔ b = false := by
  cases a <;> cases b <;> decide

theorem ready_start
    (s : Bool) (t : List α) :
    Ready sep toggles ⟨[], s⟩ s t := by
  intro c m _
  rfl

theorem ready_nil : Ready sep toggles r s [] := by
  intro c m h
  cases h

theorem Ready.front
    (h : Ready sep toggles r s (t ++ rest)) :
    Ready sep toggles r s t := by
  rintro c m rfl
  exact h c (m ++ rest) rfl

/-- In front of a character of the line, the states are the same. -/
theorem Ready.states
    {c : α} {m : List α}
    (h : Ready sep toggles r s (c :: m)) (hc : c ≠ sep) :
    s = r.state := by
  have hfirst := h c m rfl
  rwa [step, step, if_neg hc, if_neg hc] at hfirst

/-- The marks of a piece, where the first one is right. -/
theorem marks_eq_iff
    (hready : Ready sep toggles r s t) :
    marks sep toggles ⟨[], s⟩ t = marks sep toggles r t ↔
      ∀ l m, t = l ++ sep :: m → sep ∉ l → l ≠ [] → toggles l = toggles (r.line ++ l) := by
  by_cases hsep : sep ∈ t
  · obtain ⟨l, m, rfl, hl⟩ := List.eq_append_cons_of_mem hsep
    rw [marks_line hl, marks_line hl, List.nil_append]
    dsimp only
    cases l with
    | nil =>
        have hfirst := hready sep m rfl
        rw [step, step, if_pos rfl, if_pos rfl] at hfirst
        rw [List.append_nil]
        dsimp only at hfirst
        rw [hfirst]
        refine ⟨fun _ l' m' heq hl' hne => ?_, fun _ => rfl⟩
        exact absurd (line_unique hl hl' heq).1.symm hne
    | cons c l =>
        obtain rfl := hready.states fun hc => hl (hc ▸ List.mem_cons_self)
        rw [List.append_cancel_left_eq]
        constructor
        · intro heq l' m' hsame hl' _
          obtain ⟨rfl, rfl⟩ := line_unique hl hl' hsame
          exact Bool.xor_right_inj.mp (List.cons.inj heq).1
        · intro hline
          rw [hline (c :: l) m rfl hl (List.cons_ne_nil c l)]
  · cases t with
    | nil => simp [marks]
    | cons c t =>
        obtain rfl := hready.states fun hc => hsep (hc ▸ List.mem_cons_self)
        rw [marks_of_notMem hsep, marks_of_notMem hsep]
        refine ⟨fun _ l m ht => ?_, fun _ => rfl⟩
        rw [ht] at hsep
        exact absurd (by simp) hsep

/-- Behind a piece whose marks are right the next character is marked alike. -/
theorem ready_iff
    (hnil : toggles [] = false) (ht : t ≠ [])
    (hmarks : marks sep toggles ⟨[], s⟩ t = marks sep toggles r t) :
    Ready sep toggles (read sep toggles r t) (scan sep toggles s t) rest ↔
      (∀ m, rest = sep :: m →
        toggles (openLine sep toggles [] t) = toggles (openLine sep toggles r.line t)) ∧
      ∀ c m, rest = c :: m → c ≠ sep → toggles (openLine sep toggles [] t) = false := by
  have hstate : (read sep toggles ⟨[], s⟩ t).state = (read sep toggles r t).state := by
    have hlast := congrArg List.getLast? hmarks
    rw [getLast_marks _ ht, getLast_marks _ ht] at hlast
    exact Option.some.inj hlast
  have hscan : scan sep toggles s t =
      ((read sep toggles r t).state ^^ toggles (openLine sep toggles [] t)) := by
    rw [scan, finish, line_read, hstate]
  rw [hscan, read_eq r]
  generalize (read sep toggles r t).state = σ
  constructor
  · intro h
    refine ⟨fun m hrest => ?_, fun c m hrest hc => ?_⟩
    · have hfirst := h sep m hrest
      rw [step, step, if_pos rfl, if_pos rfl] at hfirst
      dsimp only at hfirst
      rw [hnil, Bool.xor_false] at hfirst
      exact Bool.xor_right_inj.mp hfirst
    · have hfirst := h c m hrest
      rw [step, step, if_neg hc, if_neg hc] at hfirst
      exact xor_eq_self_iff.mp hfirst
  · rintro ⟨hended, hinner⟩ c m hrest
    by_cases hc : c = sep
    · subst hc
      rw [step, step, if_pos rfl, if_pos rfl]
      dsimp only
      rw [hended m hrest, hnil, Bool.xor_false]
    · rw [step, step, if_neg hc, if_neg hc]
      exact xor_eq_self_iff.mpr (hinner c m hrest hc)

/-- **A piece of a text.**  It keeps its marks, and the rest may keep them, exactly when the
cuts around it are clean. -/
theorem piece_kept_iff
    (hnil : toggles [] = false) (ht : t ≠ []) (hready : Ready sep toggles r s t)
    (rest : List α) :
    (marks sep toggles ⟨[], s⟩ t = marks sep toggles r t ∧
        Ready sep toggles (read sep toggles r t) (scan sep toggles s t) rest) ↔
      CleanPiece sep toggles r.line t rest := by
  constructor
  · rintro ⟨hmarks, hrest⟩
    have hcuts := (ready_iff hnil ht hmarks).mp hrest
    exact ⟨(marks_eq_iff hready).mp hmarks, hcuts.1, hcuts.2⟩
  · intro hclean
    have hmarks := (marks_eq_iff hready).mpr hclean.first
    exact ⟨hmarks, (ready_iff hnil ht hmarks).mpr ⟨hclean.ended, hclean.inner⟩⟩

end Pieces

end LineScan
end DiploidAgent
