import DiploidAgent.Lib.LineScan
import DiploidAgent.Telegram.SplitProgress

/-!
# Code blocks over several chunks

A chunk that ends in a code block is closed there, and the next one opens the block again.
Every chunk is read on its own, so a line that is cut may be a fence in one of its pieces, or
no longer be one; and the final chunk is closed only where a block was carried into it.  With
clean cuts and a final chunk that leaves no block of its own open, the fences are kept, and
only then (`fences_kept_iff`).
-/

namespace DiploidAgent
namespace Telegram
namespace SplitText

open LineScan Text

/-! ### What is claimed -/

section Claimed

variable (lim : Limits)

/-- The parts of the chunks; a content that fits is the only one. -/
def splitParts (fuel : Nat) (content : List Char) : Option (List Part) :=
  if lim.lenFn.length content ≤ lim.maxLength then
    some [{ opening := [], body := content, closing := [] }]
  else splitLoop lim fuel (start content)

/-- The fence state of every line of a text that starts outside code. -/
def fenceMarks (text : List Char) : List Bool := marks '\n' isFence ⟨[], false⟩ text

/-- The same for what a chunk has of the content. -/
def bodyMarks (part : Part) : List Bool :=
  ((fenceMarks part.chunk).drop part.opening.length).take part.body.length

def Balanced (chunk : List Char) : Prop := (codeState chunk false []).1 = false

instance (chunk : List Char) : Decidable (Balanced chunk) :=
  inferInstanceAs (Decidable ((codeState chunk false []).1 = false))

structure FencesKept (content : List Char) (parts : List Part) : Prop where
  balanced : ∀ part ∈ parts, Balanced part.chunk
  lines : (parts.map bodyMarks).flatten = fenceMarks content

/-- The content is read up to its rest. -/
def readerAt (u : List Char) : Reader Char := LineScan.read '\n' isFence ⟨[], false⟩ u

/-- The content in front of the rest. -/
def front (content : List Char) (p : Pos) : List Char :=
  content.take (content.length - p.remaining.length)

def bodyAt (p : Pos) : List Char :=
  if fitsFinal lim p then p.remaining
  else p.remaining.take (splitPoint p.remaining (cpLimit lim p))

/-- The condition on a pass. -/
structure CleanPass (content : List Char) (p : Pos) : Prop where
  cuts : CleanPiece '\n' isFence (readerAt (front content p)).line (bodyAt lim p)
    (p.remaining.drop (bodyAt lim p).length)
  /-- No block was carried, and the final chunk leaves none open. -/
  final : fitsFinal lim p = true → p.carryLang = none → (stateFrom p.remaining none).1 = false

end Claimed

/-! ### The fence state -/

section States

variable {snippet text body : List Char} {carry : Option (List Char)} {part : Part} {p : Pos}
variable {lim : Limits}

theorem splitTelegramText_eq
    (lim : Limits) (fuel : Nat) (content : List Char) :
    splitTelegramText lim fuel content =
      (splitParts lim fuel content).map (List.map Part.chunk) := by
  unfold splitTelegramText splitParts
  split_ifs
  · simp [Part.chunk]
  · rfl

theorem codeLine_fst
    (st : Bool × List Char) (line : List Char) :
    (codeLine st line).1 = (st.1 ^^ isFence line) := by
  unfold codeLine
  cases isFence line with
  | false => simp
  | true =>
      rw [if_pos rfl]
      split_ifs with hcode <;> simp [hcode]

/-- The flag of `_code_state` is that of the reader. -/
theorem codeState_fst
    (snippet : List Char) (inCode : Bool) (lang : List Char) :
    (codeState snippet inCode lang).1 = scan '\n' isFence inCode snippet := by
  induction hlen : snippet.length using Nat.strong_induction_on generalizing
    snippet inCode lang with
  | _ n ih =>
      unfold codeState
      by_cases hline : '\n' ∈ snippet
      · obtain ⟨l, m, rfl, hl⟩ := List.eq_append_cons_of_mem hline
        have hshort : m.length < n := by
          rw [← hlen]
          simp
          omega
        rw [List.splitOn_append_cons_self_of_not_mem hl, List.foldl_cons, scan_line hl,
          ← codeLine_fst (inCode, lang) l]
        exact ih m.length hshort m _ _ rfl
      · rw [List.splitOn_eq_singleton hline, scan_of_notMem hline]
        exact codeLine_fst _ _

theorem stateFrom_fst
    (snippet : List Char) (carry : Option (List Char)) :
    (stateFrom snippet carry).1 = scan '\n' isFence carry.isSome snippet :=
  codeState_fst _ _ _

theorem isSome_carryAfter
    (body : List Char) (carry : Option (List Char)) :
    (carryAfter body carry).isSome = scan '\n' isFence carry.isSome body := by
  rw [← stateFrom_fst, carryAfter]
  cases (stateFrom body carry).1 <;> rfl

/-- A tag has no white space. -/
def OneLine (carry : Option (List Char)) : Prop := ∀ lang, carry = some lang → '\n' ∉ lang

theorem newline_notMem_firstWord (tag : List Char) : '\n' ∉ firstWord tag := by
  intro h
  have hword := List.mem_takeWhile_imp h
  exact absurd hword (by decide)

theorem codeLine_snd
    {st : Bool × List Char} (h : '\n' ∉ st.2) (line : List Char) :
    '\n' ∉ (codeLine st line).2 := by
  unfold codeLine
  split_ifs
  · exact List.not_mem_nil
  · exact newline_notMem_firstWord _
  · exact h

theorem OneLine.carryAfter
    (h : OneLine carry) (body : List Char) :
    OneLine (carryAfter body carry) := by
  have hstate : '\n' ∉ (stateFrom body carry).2 := by
    have hlines : ∀ (lines : List (List Char)) (st : Bool × List Char), '\n' ∉ st.2 →
        '\n' ∉ (lines.foldl codeLine st).2 := by
      intro lines
      induction lines with
      | nil => exact fun _ hst => hst
      | cons line lines ih => exact fun st hst => ih _ (codeLine_snd hst line)
    refine hlines _ _ ?_
    cases carry with
    | none => exact List.not_mem_nil
    | some lang => exact h lang rfl
  intro lang hlang
  unfold SplitText.carryAfter at hlang
  split_ifs at hlang
  obtain rfl := Option.some.inj hlang
  exact hstate

theorem isFence_ticks (lang : List Char) : isFence (ticks ++ lang) = true := by
  have htick : ∀ c ∈ ticks, isSpace c = false := by
    intro c hc
    rw [eq_of_mem_ticks hc]
    decide
  have hleft : lstrip (ticks ++ lang) = ticks ++ lang := rfl
  have hright : ∃ tail, rstrip (ticks ++ lang) = ticks ++ tail := by
    rw [rstrip, List.reverse_append, List.dropWhile_append]
    split_ifs
    · exact ⟨[], by decide⟩
    · exact ⟨(lang.reverse.dropWhile isSpace).reverse, by simp⟩
  obtain ⟨tail, htail⟩ := hright
  rw [isFence, strip, hleft, htail, List.isPrefixOf_iff_prefix]
  exact List.prefix_append _ _

/-- Behind the opening a chunk is read from the carried state. -/
theorem read_reopen
    (h : OneLine carry) :
    read '\n' isFence ⟨[], false⟩ (reopen carry) = ⟨[], carry.isSome⟩ := by
  cases carry with
  | none => rfl
  | some lang =>
      have hticks : '\n' ∉ ticks := by decide
      have hline : '\n' ∉ ticks ++ lang := by
        rw [List.mem_append, not_or]
        exact ⟨hticks, h lang rfl⟩
      rw [reopen, read_line hline, List.nil_append, isFence_ticks]
      rfl

theorem bodyMarks_eq
    (hlang : OneLine carry) (hopening : part.opening = reopen carry) :
    bodyMarks part = marks '\n' isFence ⟨[], carry.isSome⟩ part.body := by
  rw [bodyMarks, fenceMarks, Part.chunk, List.append_assoc, marks_append, hopening,
    read_reopen hlang, marks_append, List.drop_left' (by simp), List.take_left' (by simp)]

theorem balanced_iff
    (hlang : OneLine carry) (hopening : part.opening = reopen carry) :
    Balanced part.chunk ↔ scan '\n' isFence carry.isSome (part.body ++ part.closing) = false := by
  rw [Balanced, codeState_fst, Part.chunk, List.append_assoc, scan, read_append, hopening,
    read_reopen hlang, scan]

/-- A closing fence. -/
theorem scan_fenceClose
    (s : Bool) (body : List Char) :
    scan '\n' isFence s (body ++ fenceClose) = !scan '\n' isFence s body := by
  have hclose : fenceClose = '\n' :: ticks := rfl
  have hticks : '\n' ∉ ticks := by decide
  have hfence : isFence ticks = true := by decide
  rw [hclose, scan_append_line, scan_of_notMem hticks, hfence, Bool.xor_true]

theorem balanced_cutPart
    (hlang : OneLine p.carryLang) :
    Balanced (cutPart lim p).chunk := by
  rw [@balanced_iff p.carryLang _ hlang rfl]
  have hcarry := isSome_carryAfter (cutPart lim p).body p.carryLang
  change scan '\n' isFence _ ((cutPart lim p).body ++
    closeOf (carryAfter (cutPart lim p).body p.carryLang)) = false
  unfold closeOf
  rw [hcarry]
  cases hscan : scan '\n' isFence p.carryLang.isSome (cutPart lim p).body with
  | true => rw [if_pos rfl, scan_fenceClose, hscan, Bool.not_true]
  | false => rw [if_neg (by decide), List.append_nil, hscan]

/-- The second scan starts inside a block, also where none was carried. -/
theorem balanced_finalPart_iff
    (hlang : OneLine p.carryLang) :
    Balanced (finalPart p).chunk ↔
      (p.carryLang = none → (stateFrom p.remaining none).1 = false) := by
  have hfinal := stateFrom_fst p.remaining p.carryLang
  have hnone := stateFrom_fst p.remaining none
  rw [@balanced_iff p.carryLang _ hlang rfl]
  unfold finalPart
  dsimp only
  rw [codeState_fst, hfinal, hnone]
  cases p.carryLang with
  | none =>
      have hflip := @scan_not _ _ '\n' isFence false p.remaining
      rw [Bool.not_false] at hflip
      rw [hflip, Option.isSome_none, Bool.and_not_self, if_neg Bool.false_ne_true,
        List.append_nil]
      exact ⟨fun h _ => h, fun h => h rfl⟩
  | some lang =>
      refine ⟨fun _ h => absurd h (by simp), fun _ => ?_⟩
      rw [Option.isSome_some, Bool.and_self]
      cases hscan : scan '\n' isFence true p.remaining with
      | true => rw [if_pos rfl, scan_fenceClose, hscan, Bool.not_true]
      | false => rw [if_neg Bool.false_ne_true, List.append_nil, hscan]

end States

/-! ### The passes -/

section Passes

variable {lim : Limits} {content u : List Char} {p q : Pos} {fuel : Nat} {parts : List Part}

theorem front_eq
    (h : content = u ++ p.remaining) :
    front content p = u := by
  rw [front, h, List.length_append, Nat.add_sub_cancel, List.take_left]

/-- A pass that is repeated for ever has cut nothing off. -/
theorem bodyAt_ne_nil
    (h : splitLoop lim fuel p = some parts) (hrest : p.remaining ≠ []) :
    bodyAt lim p ≠ [] := by
  unfold bodyAt
  cases hfits : fitsFinal lim p with
  | true => exact hrest
  | false =>
      rw [if_neg Bool.false_ne_true]
      intro hbody
      have hzero : splitPoint p.remaining (cpLimit lim p) = 0 := by
        rcases List.take_eq_nil_iff.mp hbody with hzero | hnil
        · exact hzero
        · exact absurd hnil hrest
      have hfixed : cutPos lim p = p := by
        unfold cutPos
        dsimp only
        rw [hzero, List.drop_zero, List.take_zero, carryAfter_nil]
      rw [splitLoop_of_fixed hrest hfits hfixed] at h
      cases h

/-- The first chunk of the rest. -/
def partAt (lim : Limits) (p : Pos) : Part :=
  if fitsFinal lim p then finalPart p else cutPart lim p

@[simp] theorem partAt_opening (lim : Limits) (p : Pos) :
    (partAt lim p).opening = reopen p.carryLang := by
  unfold partAt
  split_ifs <;> rfl

@[simp] theorem partAt_body (lim : Limits) (p : Pos) : (partAt lim p).body = bodyAt lim p := by
  unfold partAt bodyAt
  split_ifs <;> rfl

theorem bodyMarks_partAt
    (hlang : OneLine p.carryLang) :
    bodyMarks (partAt lim p) =
      marks '\n' isFence ⟨[], p.carryLang.isSome⟩ (bodyAt lim p) := by
  rw [bodyMarks_eq hlang (partAt_opening lim p), partAt_body]

theorem balanced_partAt_iff
    (hlang : OneLine p.carryLang) :
    Balanced (partAt lim p).chunk ↔
      (fitsFinal lim p = true → p.carryLang = none → (stateFrom p.remaining none).1 = false) := by
  unfold partAt
  cases hfits : fitsFinal lim p with
  | true =>
      rw [if_pos rfl, balanced_finalPart_iff hlang]
      exact ⟨fun h _ => h, fun h => h rfl⟩
  | false =>
      rw [if_neg Bool.false_ne_true]
      exact ⟨fun _ h => absurd h Bool.false_ne_true, fun _ => balanced_cutPart hlang⟩

/-- The loop, a pass at a time. -/
theorem splitLoop_cases
    (h : splitLoop lim fuel p = some parts) (hrest : p.remaining ≠ []) :
    ∃ n rest, parts = partAt lim p :: rest ∧
      ((fitsFinal lim p = true ∧ rest = []) ∨
        (fitsFinal lim p = false ∧ fuel = n + 1 ∧ splitLoop lim n (cutPos lim p) = some rest)) := by
  cases fuel with
  | zero => cases h
  | succ n =>
      rw [splitLoop, if_neg hrest] at h
      unfold partAt
      cases hfits : fitsFinal lim p with
      | true =>
          rw [hfits, if_pos rfl] at h
          obtain rfl := Option.some.inj h
          exact ⟨n, [], rfl, Or.inl ⟨rfl, rfl⟩⟩
      | false =>
          rw [hfits, if_neg Bool.false_ne_true] at h
          obtain ⟨rest, hloop, rfl⟩ := Option.map_eq_some_iff.mp h
          exact ⟨n, rest, rfl, Or.inr ⟨rfl, rfl, hloop⟩⟩

/-- The passes from a rest: its own, and those from what it leaves. -/
theorem forall_passes_iff
    {P : Pos → Prop}
    (hrest : p.remaining ≠ []) (hfits : fitsFinal lim p = false) :
    (∀ q, Relation.ReflTransGen (Pass lim) p q → P q) ↔
      P p ∧ ∀ q, Relation.ReflTransGen (Pass lim) (cutPos lim p) q → P q := by
  constructor
  · exact fun h => ⟨h p .refl, fun q hq => h q (.head ⟨hrest, hfits, rfl⟩ hq)⟩
  · rintro ⟨hp, hnext⟩ q hq
    rcases hq.cases_head with rfl | ⟨r, hpass, hrq⟩
    · exact hp
    · rw [hpass.cut] at hrq
      exact hnext q hrq

theorem forall_passes_of_last
    {P : Pos → Prop}
    (hlast : p.remaining = [] ∨ fitsFinal lim p = true) :
    (∀ q, Relation.ReflTransGen (Pass lim) p q → P q) ↔ P p := by
  refine ⟨fun h => h p .refl, fun hp q hq => ?_⟩
  rcases hq.cases_head with rfl | ⟨r, hpass, _⟩
  · exact hp
  · rcases hlast with hnil | hfits
    · exact absurd hnil hpass.rest
    · exact absurd (hpass.long.symm.trans hfits) Bool.false_ne_true

end Passes

/-! ### The run -/

section Runs

variable {lim : Limits} {content u : List Char} {p : Pos} {fuel : Nat} {parts : List Part}

theorem bodyAt_append_drop
    (lim : Limits) (p : Pos) :
    bodyAt lim p ++ p.remaining.drop (bodyAt lim p).length = p.remaining := by
  have hbody : bodyAt lim p <+: p.remaining := by
    unfold bodyAt
    split_ifs
    · exact List.prefix_rfl
    · exact List.take_prefix _ _
  exact List.prefix_iff_eq_append.mp hbody

theorem drop_bodyAt
    (hfits : fitsFinal lim p = false) :
    p.remaining.drop (bodyAt lim p).length = (cutPos lim p).remaining := by
  have happend := bodyAt_append_drop lim p
  unfold bodyAt cutPos at *
  rw [hfits, if_neg Bool.false_ne_true] at happend ⊢
  exact List.append_cancel_left (happend.trans (List.take_append_drop _ _).symm)

theorem carryLang_cutPos
    (hfits : fitsFinal lim p = false) :
    (cutPos lim p).carryLang = carryAfter (bodyAt lim p) p.carryLang := by
  unfold bodyAt
  rw [hfits, if_neg Bool.false_ne_true]
  rfl

/-- The first mark of the chunks is the one that the carried state gives. -/
theorem ready_of_bodyMarks
    {r : Reader Char}
    (h : splitLoop lim fuel p = some parts) (hlang : OneLine p.carryLang)
    (hmarks : (parts.map bodyMarks).flatten = marks '\n' isFence r p.remaining) :
    Ready '\n' isFence r p.carryLang.isSome p.remaining := by
  intro c m hrest
  obtain ⟨n, rest, rfl, _⟩ := splitLoop_cases h (by simp [hrest])
  have hbody := bodyAt_ne_nil h (by simp [hrest])
  obtain ⟨d, body, hcons⟩ := List.exists_cons_of_ne_nil hbody
  have hfront := bodyAt_append_drop lim p
  rw [hcons, hrest, List.cons_append] at hfront
  obtain rfl := (List.cons.inj hfront).1
  rw [List.map_cons, List.flatten_cons, bodyMarks_partAt hlang, hcons, hrest] at hmarks
  exact (List.cons.inj hmarks).1

/-- What the chunks of a rest keep of it. -/
def KeptFrom (r : Reader Char) (p : Pos) (parts : List Part) : Prop :=
  (∀ part ∈ parts, Balanced part.chunk) ∧
    (parts.map bodyMarks).flatten = marks '\n' isFence r p.remaining

theorem cleanPass_iff
    (hcontent : content = u ++ p.remaining) (hlang : OneLine p.carryLang) :
    CleanPass lim content p ↔
      CleanPiece '\n' isFence (readerAt u).line (bodyAt lim p)
          (p.remaining.drop (bodyAt lim p).length) ∧
        Balanced (partAt lim p).chunk := by
  rw [balanced_partAt_iff hlang, ← front_eq hcontent]
  exact ⟨fun h => ⟨h.cuts, h.final⟩, fun h => ⟨h.1, h.2⟩⟩

/-- One chunk, and what is kept behind it. -/
theorem keptFrom_cons_iff
    {r : Reader Char} (hlang : OneLine p.carryLang) :
    KeptFrom r p (partAt lim p :: parts) ↔
      (Balanced (partAt lim p).chunk ∧
        marks '\n' isFence ⟨[], p.carryLang.isSome⟩ (bodyAt lim p) =
          marks '\n' isFence r (bodyAt lim p)) ∧
      (∀ part ∈ parts, Balanced part.chunk) ∧
        (parts.map bodyMarks).flatten =
          marks '\n' isFence (LineScan.read '\n' isFence r (bodyAt lim p))
            (p.remaining.drop (bodyAt lim p).length) := by
  have hwhole : marks '\n' isFence r p.remaining =
      marks '\n' isFence r (bodyAt lim p) ++
        marks '\n' isFence (LineScan.read '\n' isFence r (bodyAt lim p))
          (p.remaining.drop (bodyAt lim p).length) := by
    rw [← marks_append, bodyAt_append_drop]
  rw [KeptFrom, List.forall_mem_cons, List.map_cons, List.flatten_cons, bodyMarks_partAt hlang,
    hwhole]
  constructor
  · rintro ⟨⟨hfirst, hrest⟩, heq⟩
    obtain ⟨hbody, hlater⟩ := List.append_inj heq (by simp)
    exact ⟨⟨hfirst, hbody⟩, hrest, hlater⟩
  · rintro ⟨⟨hfirst, hbody⟩, hrest, hlater⟩
    exact ⟨⟨hfirst, hrest⟩, by rw [hbody, hlater]⟩

/-- What the chunks of a rest keep, behind the content in front of it. -/
theorem keptFrom_iff
    (h : splitLoop lim fuel p = some parts) (hcontent : content = u ++ p.remaining)
    (hlang : OneLine p.carryLang)
    (hready : Ready '\n' isFence (readerAt u) p.carryLang.isSome p.remaining) :
    KeptFrom (readerAt u) p parts ↔
      ∀ q, Relation.ReflTransGen (Pass lim) p q → q.remaining ≠ [] → CleanPass lim content q := by
  induction fuel generalizing p u parts with
  | zero => cases h
  | succ fuel ih =>
      by_cases hrest : p.remaining = []
      · rw [splitLoop, if_pos hrest] at h
        obtain rfl := Option.some.inj h
        rw [forall_passes_of_last (Or.inl hrest), KeptFrom, hrest]
        simp [marks]
      have hfront := bodyAt_append_drop lim p
      have hfirst : Ready '\n' isFence (readerAt u) p.carryLang.isSome (bodyAt lim p) := by
        rw [← hfront] at hready
        exact hready.front
      have hpiece := piece_kept_iff (by decide) (bodyAt_ne_nil h hrest) hfirst
        (p.remaining.drop (bodyAt lim p).length)
      obtain ⟨n, rest, rfl, hcases⟩ := splitLoop_cases h hrest
      rw [keptFrom_cons_iff hlang]
      rcases hcases with ⟨hfits, rfl⟩ | ⟨hfits, hfuel, hloop⟩
      · -- the final chunk
        have hall : bodyAt lim p = p.remaining := if_pos hfits
        rw [forall_passes_of_last (Or.inr hfits), cleanPass_iff hcontent hlang, ← hpiece,
          hall, List.drop_length]
        simp [marks, hrest, ready_nil, and_comm]
      · -- a cut: the state that is carried is right where the cut is clean
        obtain rfl := Nat.succ.inj hfuel
        rw [forall_passes_iff hrest hfits, cleanPass_iff hcontent hlang, ← hpiece]
        rw [drop_bodyAt hfits] at hfront ⊢
        have hlang' : OneLine (cutPos lim p).carryLang := by
          rw [carryLang_cutPos hfits]
          exact hlang.carryAfter _
        have hcontent' : content = (u ++ bodyAt lim p) ++ (cutPos lim p).remaining := by
          rw [hcontent, List.append_assoc, hfront]
        have hreader : readerAt (u ++ bodyAt lim p) =
            LineScan.read '\n' isFence (readerAt u) (bodyAt lim p) := read_append _ _ _
        have hcarry : scan '\n' isFence p.carryLang.isSome (bodyAt lim p) =
            (cutPos lim p).carryLang.isSome := by
          rw [carryLang_cutPos hfits, isSome_carryAfter]
        rw [hcarry, ← hreader]
        have hlater := ih hloop hcontent' hlang'
        constructor
        · rintro ⟨⟨hbalanced, hmarks⟩, hkept⟩
          have hnext := ready_of_bodyMarks hloop hlang' hkept.2
          exact ⟨fun _ => ⟨⟨hmarks, hnext⟩, hbalanced⟩, (hlater hnext).mp hkept⟩
        · rintro ⟨hpass, hpasses⟩
          obtain ⟨⟨hmarks, hnext⟩, hbalanced⟩ := hpass hrest
          exact ⟨⟨hbalanced, hmarks⟩, (hlater hnext).mpr hpasses⟩

/-- **Fences over chunks.**  For all limits: every chunk is balanced and every line keeps its
side of the fences exactly when a content that fits is balanced and the passes over one that
does not are clean. -/
theorem fences_kept_iff
    (lim : Limits) (fuel : Nat) (content : List Char) (parts : List Part)
    (h : splitParts lim fuel content = some parts) :
    splitTelegramText lim fuel content = some (parts.map Part.chunk) ∧
      (FencesKept content parts ↔
        (lim.lenFn.length content ≤ lim.maxLength → Balanced content) ∧
          ∀ p, Reached lim content p → p.remaining ≠ [] → CleanPass lim content p) := by
  refine ⟨by rw [splitTelegramText_eq, h, Option.map_some], ?_⟩
  unfold splitParts at h
  split_ifs at h with hshort
  · obtain rfl := Option.some.inj h
    have hmarks : bodyMarks ⟨[], content, []⟩ = fenceMarks content :=
      @bodyMarks_eq none _ (fun _ hlang => by cases hlang) rfl
    constructor
    · intro hkept
      have hwhole := hkept.balanced _ List.mem_cons_self
      exact ⟨fun _ => by simpa [Part.chunk] using hwhole, fun p hp => absurd hshort hp.long⟩
    · rintro ⟨hwhole, _⟩
      exact ⟨by simpa [Part.chunk] using hwhole hshort, by simp [hmarks]⟩
  · have hrun := @keptFrom_iff lim content [] (start content) fuel parts h rfl
      (fun _ hlang => by cases hlang) (ready_start false content)
    have hreached : (∀ p, Reached lim content p → p.remaining ≠ [] → CleanPass lim content p) ↔
        ∀ p, Relation.ReflTransGen (Pass lim) (start content) p → p.remaining ≠ [] →
          CleanPass lim content p :=
      ⟨fun hall p hp => hall p ⟨hshort, hp⟩, fun hall p hp => hall p hp.passes⟩
    rw [hreached, ← hrun]
    constructor
    · exact fun hkept => ⟨fun hfits => absurd hfits hshort, hkept.balanced, hkept.lines⟩
    · exact fun hkept => ⟨hkept.2.1, hkept.2.2⟩

theorem fences_kept_block :
    splitTelegramText ⟨20, .utf16, 2⟩ 3 "```py\na = 1\nb = 2\n```".toList =
        some ["```py\na = 1\n\n```".toList, "```py\nb = 2\n```".toList] ∧
      (FencesKept "```py\na = 1\nb = 2\n```".toList
          [⟨[], "```py\na = 1\n".toList, "\n```".toList⟩,
            ⟨"```py\n".toList, "b = 2\n```".toList, []⟩] ↔
        (LenFn.utf16.length "```py\na = 1\nb = 2\n```".toList ≤ 20 →
            Balanced "```py\na = 1\nb = 2\n```".toList) ∧
          ∀ p, Reached ⟨20, .utf16, 2⟩ "```py\na = 1\nb = 2\n```".toList p →
            p.remaining ≠ [] →
              CleanPass ⟨20, .utf16, 2⟩ "```py\na = 1\nb = 2\n```".toList p) :=
  fences_kept_iff ⟨20, .utf16, 2⟩ 3 "```py\na = 1\nb = 2\n```".toList
    [⟨[], "```py\na = 1\n".toList, "\n```".toList⟩,
      ⟨"```py\n".toList, "b = 2\n```".toList, []⟩] (by decide)

/-- The final chunk opens a block itself, and nothing closes it. -/
theorem final_chunk_left_open :
    ¬ ∀ (lim : Limits) (fuel : Nat) (content : List Char) (parts : List Part),
      splitParts lim fuel content = some parts → ¬ lim.lenFn.length content ≤ lim.maxLength →
        FencesKept content parts := by
  intro hall
  have hkept := hall ⟨24, .utf16, 12⟩ 9 "one two three four five\n```\nx".toList
    [⟨[], "one two ".toList, []⟩, ⟨[], "three ".toList, []⟩, ⟨[], "four ".toList, []⟩,
      ⟨[], "five\n".toList, []⟩, ⟨[], "```\nx".toList, []⟩] (by decide) (by decide)
  have hfinal := hkept.balanced ⟨[], "```\nx".toList, []⟩ (by simp)
  exact absurd hfinal (by decide)

end Runs

end SplitText
end Telegram
end DiploidAgent
