import Mathlib.Data.List.Basic
import Mathlib.Tactic.Common

/-!
# Spaced events of a history

A history is a list of events, newest first.  Some of its events are marks, each
with a time, a gap that it owes to the marks before it, and a kind, which says
what other events it may use as its cause.  `Spaced` looks at one mark and the last one before it;
`Spaced.apart` is what then holds of any two marks.
-/

namespace DiploidAgent
namespace Spacing

universe u v w

/-- What a history is read for. -/
structure Meter (ε : Type u) (φ : Type v) (κ : Type w) where
  mark : ε → Option φ
  time : φ → Int
  gap : φ → Int
  kind : φ → κ
  cause : κ → ε → Prop

section Histories

variable {ε : Type u} {φ : Type v} {κ : Type w}
variable {m : Meter ε φ κ}

/-- The newest mark. -/
def Meter.last (m : Meter ε φ κ) : List ε → Option φ
  | [] => none
  | e :: rest =>
      match m.mark e with
      | some f => some f
      | none => m.last rest

/-- A cause for the kind `k` that is newer than every mark. -/
def Meter.CauseSince (m : Meter ε φ κ) (k : κ) : List ε → Prop
  | [] => False
  | e :: rest => m.mark e = none ∧ (m.cause k e ∨ m.CauseSince k rest)

/-- Every mark keeps its gap to the last mark before it and has a cause of its own. -/
def Meter.Spaced (m : Meter ε φ κ) : List ε → Prop
  | [] => True
  | e :: rest =>
      m.Spaced rest ∧ ∀ f, m.mark e = some f →
        0 ≤ m.gap f ∧ ∀ g, m.last rest = some g →
          m.gap f ≤ m.time f - m.time g ∧ m.CauseSince (m.kind f) rest

@[simp] theorem last_of_mark
    {e : ε} {f : φ} {rest : List ε}
    (h : m.mark e = some f) :
    m.last (e :: rest) = some f := by
  simp [Meter.last, h]

@[simp] theorem last_of_quiet
    {e : ε} {rest : List ε}
    (h : m.mark e = none) :
    m.last (e :: rest) = m.last rest := by
  simp [Meter.last, h]

theorem causeSince_of_quiet
    {e : ε} {k : κ} {rest : List ε}
    (h : m.mark e = none) :
    m.CauseSince k (e :: rest) ↔ m.cause k e ∨ m.CauseSince k rest := by
  simp [Meter.CauseSince, h]

theorem spaced_of_quiet
    {e : ε} {rest : List ε}
    (h : m.mark e = none) :
    m.Spaced (e :: rest) ↔ m.Spaced rest := by
  simp [Meter.Spaced, h]

theorem spaced_of_mark
    {e : ε} {f : φ} {rest : List ε}
    (h : m.mark e = some f) :
    m.Spaced (e :: rest) ↔
      m.Spaced rest ∧ 0 ≤ m.gap f ∧ ∀ g, m.last rest = some g →
        m.gap f ≤ m.time f - m.time g ∧ m.CauseSince (m.kind f) rest := by
  simp [Meter.Spaced, h]

theorem Meter.Spaced.suffix
    {pre rest : List ε}
    (h : m.Spaced (pre ++ rest)) :
    m.Spaced rest := by
  induction pre with
  | nil => exact h
  | cons e pre ih => exact ih h.1

theorem exists_last_of_mem
    {log : List ε} {e : ε} {f : φ}
    (he : e ∈ log) (hf : m.mark e = some f) :
    ∃ g, m.last log = some g := by
  induction log with
  | nil => cases he
  | cons a rest ih =>
      cases ha : m.mark a with
      | some f' => exact ⟨f', last_of_mark ha⟩
      | none =>
          rw [last_of_quiet ha]
          rcases List.mem_cons.mp he with rfl | hrest
          · rw [hf] at ha
            cases ha
          · exact ih hrest

/-- In a spaced history no mark is newer than the last. -/
theorem Meter.Spaced.time_le_last
    {log : List ε} {e : ε} {f g : φ}
    (h : m.Spaced log)
    (he : e ∈ log) (hf : m.mark e = some f) (hg : m.last log = some g) :
    m.time f ≤ m.time g := by
  induction log generalizing g with
  | nil => cases he
  | cons a rest ih =>
      rcases List.mem_cons.mp he with rfl | hrest
      · rw [last_of_mark hf] at hg
        obtain rfl := Option.some.inj hg
        exact Int.le_refl _
      · cases ha : m.mark a with
        | none => exact ih h.1 hrest (last_of_quiet ha ▸ hg)
        | some f' =>
            rw [last_of_mark ha] at hg
            obtain rfl := Option.some.inj hg
            obtain ⟨g', hg'⟩ := exists_last_of_mem hrest hf
            have hle : m.time f ≤ m.time g' := ih h.1 hrest hg'
            obtain ⟨hpos, hgap⟩ := h.2 f' ha
            have hapart : m.gap f' ≤ m.time f' - m.time g' := (hgap g' hg').1
            omega

/-- A cause newer than every mark is newer than a given one. -/
theorem Meter.CauseSince.mem_newer
    {k : κ} {g : φ} {mid post : List ε} {e : ε}
    (h : m.CauseSince k (mid ++ e :: post)) (he : m.mark e = some g) :
    ∃ c ∈ mid, m.cause k c := by
  induction mid with
  | nil =>
      have hquiet : m.mark e = none := h.1
      rw [he] at hquiet
      cases hquiet
  | cons a mid ih =>
      rcases h.2 with hcause | hrest
      · exact ⟨a, List.mem_cons_self, hcause⟩
      · obtain ⟨c, hc, hcause⟩ := ih hrest
        exact ⟨c, List.mem_cons_of_mem a hc, hcause⟩

/-- Any two marks of a spaced history are the gap of the newer one apart, and the
newer one has a cause between them. -/
theorem Meter.Spaced.apart
    {pre mid post : List ε} {e₁ e₂ : ε} {f₁ f₂ : φ}
    (h : m.Spaced (pre ++ e₂ :: (mid ++ e₁ :: post)))
    (h₁ : m.mark e₁ = some f₁) (h₂ : m.mark e₂ = some f₂) :
    m.gap f₂ ≤ m.time f₂ - m.time f₁ ∧ ∃ c ∈ mid, m.cause (m.kind f₂) c := by
  obtain ⟨hrest, hmark⟩ := h.suffix
  have hmem : e₁ ∈ mid ++ e₁ :: post := by simp
  obtain ⟨g, hg⟩ := exists_last_of_mem hmem h₁
  have hle : m.time f₁ ≤ m.time g := hrest.time_le_last hmem h₁ hg
  obtain ⟨hgap, hsince⟩ := (hmark f₂ h₂).2 g hg
  exact ⟨by omega, hsince.mem_newer h₁⟩

end Histories

end Spacing
end DiploidAgent
