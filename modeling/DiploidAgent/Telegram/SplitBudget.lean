import DiploidAgent.Telegram.SplitProgress

/-!
# The length of the chunks

A chunk has room for its body between the opening that is carried and a closing fence.  When
a carried tag leaves no room, the fallback cuts as if nothing were carried, and the chunk gets
too long; only a closing fence right at the start of the rest saves it
(`chunks_within_budget_iff`).
-/

namespace DiploidAgent
namespace Telegram
namespace SplitText

open Text

/-! ### What is claimed -/

section Claimed

variable (lim : Limits)

/-- The limits of the claim. -/
structure UnitLimits : Prop where
  caller : CallerLimits lim
  units : lim.lenFn = .utf16

/-- The text that the fallback looks at. -/
def fallbackRegion (p : Pos) : List Char :=
  p.remaining.take (safeSliceBudget p.remaining (lim.maxLength / 2) fun s => utf16Len s)

/-- The carried tag leaves no room. -/
def NoRoom (p : Pos) : Prop :=
  lim.maxLength - lim.reserve < utf16Len (reopen p.carryLang) + 5

/-- The rest begins with a closing fence, the delimiter behind it is the one that the text is
cut at, and all of that just fits. -/
structure ClosesAtOnce (p : Pos) : Prop where
  opening : (utf16Len (reopen p.carryLang) : Int) + 4 = lim.maxLength - lim.reserve
  fence : ticks <+: p.remaining
  delimiter :
    (rfind '\n' (fallbackRegion lim p) = 3 ∧ (fallbackRegion lim p).length ≤ 7) ∨
      (rfind ' ' (fallbackRegion lim p) = 3 ∧
        rfind '\n' (fallbackRegion lim p) < ((fallbackRegion lim p).length / 2 : Nat))

/-- The condition on a pass. -/
def Roomy (p : Pos) : Prop :=
  p.remaining ≠ [] → fitsFinal lim p = false → NoRoom lim p → ClosesAtOnce lim p

def Within (chunk : List Char) : Prop := (utf16Len chunk : Int) ≤ lim.maxLength - lim.reserve

end Claimed

/-! ### Backticks -/

section Ticks

variable {s rest candidate : List Char} {c prev : Char} {n : Nat} {lastBt : Int}

theorem getElem?_of_take
    {m : Nat} (h : (s.take m)[n]? = some c) :
    s[n]? = some c := by
  have hlt := (List.getElem?_eq_some_iff.mp h).1
  rw [List.length_take] at hlt
  rwa [List.getElem?_take_of_lt (by omega)] at h

/-- The backticks that have no backslash before them. -/
def plainTicks : Char → List Char → Nat
  | _, [] => 0
  | prev, c :: rest => (if c = '`' ∧ prev ≠ '\\' then 1 else 0) + plainTicks c rest

theorem escapedTicks_cons_of_ne
    (h : c ≠ '\\') :
    escapedTicks (c :: s) = escapedTicks s := by
  rw [escapedTicks]
  exact fun _ heq _ => h heq

theorem count_eq_plain_add_escaped
    (prev : Char) (s : List Char) :
    s.count '`' = plainTicks prev s + escapedTicks (prev :: s) := by
  induction s generalizing prev with
  | nil =>
      by_cases hprev : prev = '\\'
      · subst hprev
        rfl
      · rw [escapedTicks_cons_of_ne hprev]
        rfl
  | cons c rest ih =>
      have hrest := ih c
      by_cases htick : c = '`'
      · subst htick
        rw [escapedTicks_cons_of_ne (by decide)] at hrest
        rw [List.count_cons_self, plainTicks]
        by_cases hprev : prev = '\\'
        · subst hprev
          simp only [escapedTicks, ne_eq, not_true_eq_false, and_false, if_false]
          omega
        · rw [escapedTicks_cons_of_ne hprev, escapedTicks_cons_of_ne (by decide),
            if_pos ⟨rfl, hprev⟩]
          omega
      · have hquiet : escapedTicks (prev :: c :: rest) = escapedTicks (c :: rest) := by
          by_cases hprev : prev = '\\'
          · subst hprev
            rw [escapedTicks]
            exact fun _ _ heq => htick (List.cons.inj heq).1
          · exact escapedTicks_cons_of_ne hprev
        rw [List.count_cons_of_ne htick, plainTicks, hquiet, if_neg (by simp [htick])]
        omega

theorem unescapedTicks_eq
    (s : List Char) :
    unescapedTicks s = plainTicks ' ' s := by
  have hcount := count_eq_plain_add_escaped ' ' s
  rw [escapedTicks_cons_of_ne (by decide)] at hcount
  rw [unescapedTicks]
  omega

theorem plainTicks_eq_zero
    (h : ∀ j : Nat, s[j]? = some '`' → (prev :: s)[j]? = some '\\') :
    plainTicks prev s = 0 := by
  induction s generalizing prev with
  | nil => rfl
  | cons c rest ih =>
      rw [plainTicks, ih fun j hj => h (j + 1) hj, if_neg]
      rintro ⟨rfl, hprev⟩
      exact hprev (Option.some.inj (h 0 rfl))

theorem exists_lastIndex
    (h : s[n]? = some c) :
    ∃ k, lastIndex c s = some k ∧ n ≤ k := by
  induction s generalizing n with
  | nil => cases h
  | cons d rest ih =>
      cases n with
      | zero =>
          obtain rfl : d = c := Option.some.inj h
          rw [lastIndex]
          cases lastIndex d rest with
          | some k => exact ⟨k + 1, rfl, Nat.zero_le _⟩
          | none => exact ⟨0, if_pos rfl, Nat.le_refl 0⟩
      | succ n =>
          obtain ⟨k, hk, hle⟩ := ih h
          exact ⟨k + 1, by rw [lastIndex, hk], Nat.succ_le_succ hle⟩

theorem le_rfind
    (h : s[n]? = some c) :
    (n : Int) ≤ rfind c s := by
  obtain ⟨k, hk, hle⟩ := exists_lastIndex h
  rw [rfind, hk]
  exact Int.ofNat_le.mpr hle

/-- Behind this index every backtick has a backslash before it. -/
def EscapedBehind (candidate : List Char) (lastBt : Int) : Prop :=
  ∀ j : Nat, lastBt < (j + 1 : Nat) → candidate[j + 1]? = some '`' → candidate[j]? = some '\\'

theorem escapedBehind_backtrack
    (h : EscapedBehind candidate lastBt) :
    EscapedBehind candidate (backtrack candidate n lastBt) := by
  induction n generalizing lastBt with
  | zero => exact h
  | succ n ih =>
      unfold backtrack
      split_ifs with hslash
      · obtain ⟨hpos, hslash⟩ := hslash
        refine ih fun j hj htick => ?_
        by_cases hbehind : lastBt < (j + 1 : Nat)
        · exact h j hbehind htick
        · by_cases hsame : lastBt.toNat = j + 1
          · rwa [hsame] at hslash
          · have htake : (candidate.take lastBt.toNat)[j + 1]? = some '`' := by
              rw [List.getElem?_take_of_lt (by omega)]
              exact htick
            have hle := le_rfind htake
            omega
      · exact h

theorem backtrack_cases
    (h : lastBt = -1 ∨ ∃ k : Nat, lastBt = k ∧ candidate[k]? = some '`') :
    backtrack candidate n lastBt = -1 ∨
      ∃ k : Nat, backtrack candidate n lastBt = k ∧ candidate[k]? = some '`' := by
  induction n generalizing lastBt with
  | zero => exact h
  | succ n ih =>
      unfold backtrack
      split_ifs with hslash
      · refine ih ?_
        rcases rfind_cases '`' (candidate.take lastBt.toNat) with hnone | ⟨k, hk, htick⟩
        · exact Or.inl hnone
        · exact Or.inr ⟨k, hk, getElem?_of_take htick⟩
      · exact h

theorem escapedBehind_rfind
    (candidate : List Char) :
    EscapedBehind candidate (rfind '`' candidate) := by
  intro j hj htick
  have hle := le_rfind htick
  omega

/-- Four backticks in a row that no other plain one follows. -/
theorem unescapedTicks_four
    (hc : c ≠ '\\') (htick : c ≠ '`')
    (hbehind : EscapedBehind (c :: (ticks ++ '`' :: rest)) 4) :
    unescapedTicks (c :: (ticks ++ '`' :: rest)) = 4 := by
  have hrest : plainTicks '`' rest = 0 :=
    plainTicks_eq_zero fun j hj => hbehind (j + 4) (by omega) hj
  rw [unescapedTicks_eq]
  change ((plainTicks ' ' (c :: '`' :: '`' :: '`' :: '`' :: rest) : Nat) : Int) = 4
  simp [plainTicks, htick, hc, hrest]

end Ticks

/-! ### Short bodies that close a block -/

section Closing

variable {lim : Limits} {p : Pos} {body : List Char}

theorem foldl_codeLine_quiet
    {lines : List (List Char)} (st : Bool × List Char)
    (h : ∀ line ∈ lines, isFence line = false) :
    lines.foldl codeLine st = st := by
  induction lines generalizing st with
  | nil => rfl
  | cons line lines ih =>
      have hline : codeLine st line = st := by
        rw [codeLine, h line List.mem_cons_self, if_neg Bool.false_ne_true]
      rw [List.foldl_cons, hline]
      exact ih st fun l hl => h l (List.mem_cons_of_mem _ hl)

/-- A scan that leaves a block has seen a fence. -/
theorem exists_isFence_of_closed
    {snippet lang : List Char}
    (h : (codeState snippet true lang).1 = false) :
    ∃ line ∈ snippet.splitOn '\n', isFence line = true := by
  by_contra hnone
  have hquiet : ∀ line ∈ snippet.splitOn '\n', isFence line = false := fun line hline =>
    Bool.eq_false_iff.mpr fun hfence => hnone ⟨line, hline, hfence⟩
  rw [codeState, foldl_codeLine_quiet _ hquiet] at h
  cases h

theorem infix_intercalate_of_mem
    {α : Type} {sep l : List α} {ls : List (List α)}
    (h : l ∈ ls) :
    l <:+: sep.intercalate ls := by
  induction ls with
  | nil => cases h
  | cons l' ls ih =>
      cases ls with
      | nil =>
          obtain rfl := List.mem_singleton.mp h
          exact ⟨[], [], by simp [List.intercalate_singleton]⟩
      | cons l'' ls =>
          rw [List.intercalate_cons_cons]
          rcases List.mem_cons.mp h with rfl | hmem
          · rw [List.append_assoc]
            exact (List.prefix_append l _).isInfix
          · exact (ih hmem).trans (List.suffix_append _ _).isInfix

/-- A fence is where the backticks are. -/
theorem ticks_infix_of_fence
    {line : List Char}
    (hline : line ∈ body.splitOn '\n') (hfence : isFence line = true) :
    ticks <:+: body := by
  have hstrip : ticks <:+: strip line := (List.isPrefixOf_iff_prefix.mp hfence).isInfix
  have hright : strip line <:+: lstrip line := (List.rdropWhile_prefix isSpace _).isInfix
  have hleft : lstrip line <:+: line := (List.dropWhile_suffix _).isInfix
  have hbody : line <:+: body := by
    have hmem := @infix_intercalate_of_mem Char ['\n'] line _ hline
    rwa [List.intercalate_splitOn] at hmem
  exact ((hstrip.trans hright).trans hleft).trans hbody

/-- A body of four units that leaves a block begins with its fence, or has one character
before it. -/
theorem short_body_cases
    {lang : List Char}
    (hlen : utf16Len body ≤ 4) (hclosed : (codeState body true lang).1 = false) :
    ticks <+: body ∨ ∃ c, body = c :: ticks ∧ c ≠ '\\' ∧ c ≠ '`' := by
  obtain ⟨line, hline, hfence⟩ := exists_isFence_of_closed hclosed
  obtain ⟨x, y, hbody⟩ := ticks_infix_of_fence hline hfence
  have hticks : utf16Len ticks = 3 := by decide
  have hx := length_le_utf16Len x
  have hy := length_le_utf16Len y
  rw [← hbody, utf16Len_append, utf16Len_append, hticks] at hlen
  cases x with
  | nil => exact Or.inl ⟨y, hbody⟩
  | cons c x =>
      rw [List.length_cons] at hx
      obtain rfl : x = [] := List.length_eq_zero_iff.mp (by omega)
      obtain rfl : y = [] := List.length_eq_zero_iff.mp (by omega)
      rw [List.append_nil] at hbody
      by_cases htick : c = '`'
      · refine Or.inl ⟨['`'], ?_⟩
        rw [← hbody, htick]
        rfl
      · refine Or.inr ⟨c, hbody.symm, ?_, htick⟩
        rintro rfl
        have hnone : ∀ line ∈ ('\\' :: ticks).splitOn '\n', isFence line = false := by decide
        rw [← hbody] at hline
        rw [hnone line hline] at hfence
        cases hfence

end Closing

/-! ### The fallback -/

section Fallback

variable {lim : Limits} {p : Pos}

theorem headroom_of_noRoom
    (hlim : UnitLimits lim) (hno : NoRoom lim p) :
    headroom lim p = lim.maxLength / 2 := by
  have hmax := hlim.caller.maxLength
  unfold NoRoom at hno
  rw [headroom, room_utf16 hlim.units, if_pos (by omega)]
  omega

theorem cpLimit_of_noRoom
    (hlim : UnitLimits lim) (hno : NoRoom lim p) :
    cpLimit lim p =
      safeSliceBudget p.remaining (lim.maxLength / 2) fun s => utf16Len s := by
  rw [cpLimit_utf16 hlim.units, headroom_of_noRoom hlim hno]

theorem take_cpLimit
    (hlim : UnitLimits lim) (hno : NoRoom lim p) :
    p.remaining.take (cpLimit lim p) = fallbackRegion lim p := by
  rw [fallbackRegion, cpLimit_of_noRoom hlim hno]

theorem length_fallbackRegion
    (hlim : UnitLimits lim) (hno : NoRoom lim p) :
    (fallbackRegion lim p).length = cpLimit lim p := by
  have hle := safeSliceBudget_le p.remaining (lim.maxLength / 2) fun s => utf16Len s
  rw [fallbackRegion, List.length_take, cpLimit_of_noRoom hlim hno]
  omega

theorem cpLimit_pos_of_noRoom
    (hlim : UnitLimits lim) (hrest : p.remaining ≠ []) (hno : NoRoom lim p) :
    0 < cpLimit lim p := by
  have hmax := hlim.caller.maxLength
  obtain ⟨c, rest, hremaining⟩ := List.exists_cons_of_ne_nil hrest
  have hwidth := utf16Width_cases c
  rw [cpLimit_of_noRoom hlim hno]
  refine le_safeSliceBudget (k := 1) (by simp [hremaining]) ?_
  rw [hremaining, List.take_succ_cons, List.take_zero, utf16Len_cons, utf16Len_nil]
  omega

theorem carried_of_noRoom
    (hlim : UnitLimits lim) (hno : NoRoom lim p) :
    ∃ lang, p.carryLang = some lang := by
  have hmax := hlim.caller.maxLength
  have hreserve := hlim.caller.reserve
  cases hcarry : p.carryLang with
  | some lang => exact ⟨lang, rfl⟩
  | none =>
      rw [NoRoom, hcarry] at hno
      have hnone : utf16Len (reopen none) = 0 := rfl
      omega

theorem utf16Len_chunk
    (part : Part) :
    utf16Len part.chunk =
      utf16Len part.opening + utf16Len part.body + utf16Len part.closing := by
  rw [Part.chunk, utf16Len_append, utf16Len_append]

/-- A chunk behind such a tag stays within the budget only when it closes the block at
once. -/
theorem closed_of_within
    (hlim : UnitLimits lim) (hrest : p.remaining ≠ []) (hno : NoRoom lim p)
    (h : Within lim (cutPart lim p).chunk) :
    (cutPart lim p).closing = [] ∧
      (utf16Len (reopen p.carryLang) + utf16Len (cutPart lim p).body : Int) ≤
        lim.maxLength - lim.reserve ∧ utf16Len (cutPart lim p).body ≤ 4 := by
  have hcut := (splitPoint_bounds p.remaining (cpLimit_pos_of_noRoom hlim hrest hno)).1
  have hbody : 0 < (cutPart lim p).body.length := by
    have hlen := List.length_pos_iff.mpr hrest
    simp only [cutPart, List.length_take]
    omega
  have hunits := length_le_utf16Len (cutPart lim p).body
  have hopening : (cutPart lim p).opening = reopen p.carryLang := rfl
  rw [Within, utf16Len_chunk, hopening] at h
  rw [NoRoom] at hno
  rcases closeOf_cases (carryAfter (cutPart lim p).body p.carryLang) with hopen | hclose
  · have hclosing : (cutPart lim p).closing = [] := hopen
    rw [hclosing, utf16Len_nil] at h
    exact ⟨hclosing, by omega, by omega⟩
  · have hclosing : (cutPart lim p).closing = fenceClose := hclose
    rw [hclosing, utf16Len_fenceClose] at h
    omega

/-- Without a closing fence the scan has left the block. -/
theorem state_of_closing
    {lang : List Char} (hcarry : p.carryLang = some lang)
    (h : (cutPart lim p).closing = []) :
    (codeState (cutPart lim p).body true lang).1 = false := by
  rw [Bool.eq_false_iff]
  intro hopen
  have hafter : carryAfter (cutPart lim p).body p.carryLang ≠ none := by
    have hstate : (stateFrom (cutPart lim p).body p.carryLang).1 = true := by
      rw [hcarry]
      exact hopen
    rw [carryAfter, if_pos hstate]
    exact Option.some_ne_none _
  obtain ⟨lang', hlang'⟩ := Option.ne_none_iff_exists'.mp hafter
  have hclose : (cutPart lim p).closing = closeOf (some lang') := congrArg closeOf hlang'
  rw [hclose] at h
  exact absurd h (show fenceClose ≠ [] by decide)

/-- A cut that stays within the budget is not where the region ends. -/
theorem splitPoint_lt_of_within
    (hlim : UnitLimits lim) (hrest : p.remaining ≠ []) (hfits : fitsFinal lim p = false)
    (hno : NoRoom lim p) (h : Within lim (cutPart lim p).chunk) :
    splitPoint p.remaining (cpLimit lim p) < cpLimit lim p := by
  obtain ⟨hclosing, hsum, hlen⟩ := closed_of_within hlim hrest hno h
  obtain ⟨lang, hcarry⟩ := carried_of_noRoom hlim hno
  have hstate := state_of_closing hcarry hclosing
  have hmax := hlim.caller.maxLength
  have hle := (splitPoint_bounds p.remaining (cpLimit_pos_of_noRoom hlim hrest hno)).2
  have hmore : splitPoint p.remaining (cpLimit lim p) < p.remaining.length := by
    by_contra hall
    have hbody : (cutPart lim p).body = p.remaining := List.take_of_length_le (Nat.not_lt.mp hall)
    rw [hbody] at hsum hstate
    have hfinal : (stateFrom p.remaining p.carryLang).1 = false := by
      rw [hcarry]
      exact hstate
    rw [fitsFinal, hfinal, decide_eq_false_iff_not, hlim.units] at hfits
    simp only [utf16_length, Bool.false_eq_true, if_false] at hfits
    omega
  refine Nat.lt_of_le_of_ne hle fun hend => ?_
  have hnext : splitPoint p.remaining (cpLimit lim p) + 1 ≤ cpLimit lim p := by
    refine (le_safeSliceBudget hmore ?_).trans_eq (cpLimit_of_noRoom hlim hno).symm
    rw [List.take_succ_eq_append_getElem hmore, utf16Len_append, utf16Len_cons, utf16Len_nil]
    have hwidth := utf16Width_cases p.remaining[splitPoint p.remaining (cpLimit lim p)]
    have hlen' : utf16Len (p.remaining.take (splitPoint p.remaining (cpLimit lim p))) ≤ 4 := hlen
    omega
  omega

end Fallback

/-! ### Where a short cut falls -/

section ShortCuts

variable {remaining region : List Char} {cpLimit : Nat}

theorem delimiter_of_cut
    (hregion : region.length = cpLimit) (hlimit : cpLimit ≠ 4)
    (hcut : delimiterCut region cpLimit = 4) :
    (rfind '\n' region = 3 ∧ region.length ≤ 7) ∨
      (rfind ' ' region = 3 ∧ rfind '\n' region < (region.length / 2 : Nat)) := by
  unfold delimiterCut at hcut
  dsimp only at hcut
  split_ifs at hcut with hhalf hnone hnone
  · exact absurd hcut hlimit
  · exact Or.inr ⟨by omega, hregion ▸ hhalf⟩
  · exact absurd hcut hlimit
  · exact Or.inl ⟨by omega, by omega⟩

theorem cut_of_delimiter
    (hregion : region.length = cpLimit)
    (h : (rfind '\n' region = 3 ∧ region.length ≤ 7) ∨
      (rfind ' ' region = 3 ∧ rfind '\n' region < (region.length / 2 : Nat))) :
    delimiterCut region cpLimit = 4 := by
  unfold delimiterCut
  dsimp only
  rcases h with ⟨hline, hshort⟩ | ⟨hspace, hhalf⟩
  · rw [hline, if_neg (by omega), if_neg (by omega)]
    rfl
  · rw [hregion] at hhalf
    rw [if_pos hhalf, hspace, if_neg (by omega)]
    rfl

theorem getElem?_of_ticks
    {n : Nat} (h : ticks <+: remaining) (hn : n < 3) :
    remaining[n]? = some '`' := by
  obtain ⟨rest, rfl⟩ := h
  rw [List.getElem?_append_left (show n < ticks.length from hn)]
  match n, hn with
  | 0, _ => rfl
  | 1, _ => rfl
  | 2, _ => rfl

theorem delimiter_ne_tick
    {n : Nat}
    (h : region[n]? = some '\n' ∨ region[n]? = some ' ') :
    region[n]? ≠ some '`' := by
  rcases h with h | h <;> simp [h]

/-- Behind a fence at the start the text is cut at a delimiter. -/
theorem splitPoint_of_ticks
    (hticks : ticks <+: remaining)
    (hlong : 3 ≤ splitPoint remaining cpLimit) (hlt : splitPoint remaining cpLimit < cpLimit) :
    splitPoint remaining cpLimit = delimiterCut (remaining.take cpLimit) cpLimit ∧
      3 < splitPoint remaining cpLimit := by
  have hcut := delimiterCut_cases (remaining.take cpLimit) cpLimit
  have hbehind : 3 < delimiterCut (remaining.take cpLimit) cpLimit := by
    rcases hcut with h | ⟨n, h, hget⟩
    · omega
    · by_contra hshort
      refine delimiter_ne_tick hget ?_
      rw [List.getElem?_take_of_lt (by omega)]
      exact getElem?_of_ticks hticks (by omega)
  have hfenced : hasFencedBlock
      (remaining.take (delimiterCut (remaining.take cpLimit) cpLimit)) = true := by
    have hcandidate : ticks <+: remaining.take (delimiterCut (remaining.take cpLimit) cpLimit) :=
      List.prefix_take_iff.mpr ⟨hticks, hbehind.le⟩
    obtain ⟨rest, hrest⟩ := hcandidate
    have hline : '\n' ∉ ticks := by decide
    have hsplit : (ticks ++ rest).splitOn '\n' =
        ((rest.splitOn '\n').modifyHead (ticks ++ ·)) := by
      simp [ticks, List.splitOn_cons_eq_if_modifyHead, List.modifyHead_modifyHead,
        Function.comp_def]
    rw [← hrest, hasFencedBlock, hsplit]
    obtain ⟨l, ls, hls⟩ := List.exists_cons_of_ne_nil (List.splitOn_ne_nil '\n' rest)
    rw [hls, List.modifyHead_cons, List.any_cons, Bool.or_eq_true]
    exact Or.inl (List.isPrefixOf_iff_prefix.mpr (List.prefix_append _ _))
  have hpoint : splitPoint remaining cpLimit = delimiterCut (remaining.take cpLimit) cpLimit := by
    rw [splitPoint, if_pos hfenced]
  exact ⟨hpoint, hpoint ▸ hbehind⟩

theorem max_rfind_cases
    (s : List Char) :
    max (rfind ' ' s) (rfind '\n' s) = -1 ∨
      ∃ n : Nat, max (rfind ' ' s) (rfind '\n' s) = n ∧
        (s[n]? = some '\n' ∨ s[n]? = some ' ') := by
  rcases Int.le_total (rfind ' ' s) (rfind '\n' s) with h | h
  · rw [Int.max_eq_right h]
    rcases rfind_cases '\n' s with hnone | ⟨n, hn, hget⟩
    · exact Or.inl hnone
    · exact Or.inr ⟨n, hn, Or.inl hget⟩
  · rw [Int.max_eq_left h]
    rcases rfind_cases ' ' s with hnone | ⟨n, hn, hget⟩
    · exact Or.inl hnone
    · exact Or.inr ⟨n, hn, Or.inr hget⟩

/-- A cut never falls behind one character and a fence. -/
theorem splitPoint_ne_four
    {c : Char} {rest : List Char}
    (hremaining : remaining = c :: (ticks ++ rest)) (hslash : c ≠ '\\') (htick : c ≠ '`')
    (hlt : splitPoint remaining cpLimit < cpLimit) :
    splitPoint remaining cpLimit ≠ 4 := by
  intro hfour
  have hthree : remaining[3]? = some '`' := by
    rw [hremaining]
    rfl
  have hdelimiter : delimiterCut (remaining.take cpLimit) cpLimit ≠ 4 := by
    intro hcut
    rcases delimiterCut_cases (remaining.take cpLimit) cpLimit with h | ⟨n, h, hget⟩
    · omega
    · obtain rfl : n = 3 := by omega
      refine delimiter_ne_tick hget ?_
      rw [List.getElem?_take_of_lt (by omega)]
      exact hthree
  unfold splitPoint at hfour hlt
  dsimp only at hfour hlt
  split_ifs at hfour hlt with hfenced hodd
  · exact hdelimiter hfour
  · generalize hcandidate : remaining.take (delimiterCut (remaining.take cpLimit) cpLimit) =
      candidate at hfour hlt hodd
    have hget : ∀ {n : Nat} {d : Char}, candidate[n]? = some d → remaining[n]? = some d := by
      intro n d hn
      exact getElem?_of_take (hcandidate ▸ hn)
    unfold inlineCut at hfour hlt
    dsimp only at hfour hlt
    have hbehind := @escapedBehind_backtrack candidate candidate.length _
      (escapedBehind_rfind candidate)
    have htickAt := @backtrack_cases candidate candidate.length _ (rfind_cases '`' candidate)
    generalize backtrack candidate candidate.length (rfind '`' candidate) = lastBt
      at hfour hlt hbehind htickAt
    split_ifs at hfour hlt with hpos hsafe hplain
    · rcases max_rfind_cases (candidate.take lastBt.toNat) with h | ⟨n, h, hdelim⟩
      · omega
      · obtain rfl : n = 3 := by omega
        exact delimiter_ne_tick (hdelim.imp (fun hd => hget (getElem?_of_take hd))
          fun hd => hget (getElem?_of_take hd)) hthree
    · rcases max_rfind_cases (candidate.take lastBt.toNat) with h | ⟨n, h, hdelim⟩
      · omega
      · rw [h, Int.toNat_natCast, not_not] at hplain
        rcases hdelim with hd | hd
        · exact absurd (hplain.symm.trans (getElem?_of_take hd)) (by decide)
        · exact absurd (hplain.symm.trans (getElem?_of_take hd)) (by decide)
    · obtain ⟨k, rfl, hk⟩ := htickAt.resolve_left (by omega)
      obtain rfl : k = 4 := by omega
      have hfive : ∃ rest', candidate = c :: (ticks ++ '`' :: rest') := by
        have hlen := (List.getElem?_eq_some_iff.mp hk).1
        rw [← hcandidate, hremaining] at hk hlen ⊢
        cases rest with
        | nil => cases getElem?_of_take hk
        | cons d rest =>
            obtain rfl : d = '`' := Option.some.inj (getElem?_of_take hk)
            rw [List.length_take] at hlen
            generalize delimiterCut _ _ = cut at hlen
            have hhead : c :: (ticks ++ '`' :: rest) = (c :: (ticks ++ ['`'])) ++ rest := by simp
            have hall : (c :: (ticks ++ ['`'])).length ≤ cut := by
              change 5 ≤ cut
              omega
            exact ⟨rest.take (cut - 5), by
              rw [hhead, List.take_append, List.take_of_length_le hall]
              simp [ticks]⟩
      obtain ⟨rest', rfl⟩ := hfive
      rw [unescapedTicks_four hslash htick hbehind] at hodd
      exact absurd hodd (by decide)
    · omega
  · exact hdelimiter hfour

end ShortCuts

/-! ### The passes -/

section Passes

variable {lim : Limits} {p : Pos}

theorem utf16Len_closeOf_le
    (carry : Option (List Char)) :
    utf16Len (closeOf carry) ≤ 4 := by
  rcases closeOf_cases carry with h | h <;> simp [h]

/-- With room, the chunk is within the budget. -/
theorem within_of_room
    (hlim : UnitLimits lim) (hroom : ¬ NoRoom lim p) :
    Within lim (cutPart lim p).chunk := by
  have hheadroom : headroom lim p = room lim p := by
    rw [NoRoom] at hroom
    rw [headroom, if_neg]
    rw [room_utf16 hlim.units]
    omega
  have hfits := @safeSliceBudget_fits (headroom lim p) p.remaining
    (Int.le_trans (by decide) (headroom_pos lim p))
  rw [← cpLimit_utf16 hlim.units, hheadroom, room_utf16 hlim.units] at hfits
  have hle : splitPoint p.remaining (cpLimit lim p) ≤ cpLimit lim p := by
    rcases Nat.eq_zero_or_pos (cpLimit lim p) with hzero | hpos
    · rw [hzero, splitPoint_zero]
    · exact (splitPoint_bounds p.remaining hpos).2
  have hbody : utf16Len (cutPart lim p).body ≤ utf16Len (p.remaining.take (cpLimit lim p)) :=
    utf16Len_take_mono p.remaining hle
  have hclosing : utf16Len (cutPart lim p).closing ≤ 4 := utf16Len_closeOf_le _
  have hopening : (cutPart lim p).opening = reopen p.carryLang := rfl
  rw [Within, utf16Len_chunk, hopening]
  omega

/-- Without room, it is only with a closing fence at the start. -/
theorem closesAtOnce_of_within
    (hlim : UnitLimits lim) (hrest : p.remaining ≠ []) (hfits : fitsFinal lim p = false)
    (hno : NoRoom lim p) (h : Within lim (cutPart lim p).chunk) :
    ClosesAtOnce lim p := by
  obtain ⟨hclosing, hsum, hlen⟩ := closed_of_within hlim hrest hno h
  obtain ⟨lang, hcarry⟩ := carried_of_noRoom hlim hno
  have hlt := splitPoint_lt_of_within hlim hrest hfits hno h
  have hbody : (cutPart lim p).body = p.remaining.take (splitPoint p.remaining (cpLimit lim p)) :=
    rfl
  have hregion := length_fallbackRegion hlim hno
  have hcut : (cutPart lim p).body.length = splitPoint p.remaining (cpLimit lim p) := by
    have hle := safeSliceBudget_le p.remaining (lim.maxLength / 2) fun s => utf16Len s
    rw [← cpLimit_of_noRoom hlim hno] at hle
    rw [hbody, List.length_take]
    omega
  have hunits := length_le_utf16Len (cutPart lim p).body
  have hpre : (cutPart lim p).body <+: p.remaining := List.take_prefix _ _
  rcases short_body_cases hlen (state_of_closing hcarry hclosing) with hticks | ⟨c, hc, hne⟩
  · have hthree : 3 ≤ (cutPart lim p).body.length := hticks.length_le
    obtain ⟨hpoint, hbehind⟩ :=
      splitPoint_of_ticks (hticks.trans hpre) (hcut ▸ hthree) hlt
    have hfour : splitPoint p.remaining (cpLimit lim p) = 4 := by omega
    refine ⟨?_, hticks.trans hpre, ?_⟩
    · rw [NoRoom] at hno
      omega
    · rw [take_cpLimit hlim hno] at hpoint
      exact delimiter_of_cut hregion (by omega) (hpoint.symm.trans hfour)
  · exfalso
    obtain ⟨rest, hremaining⟩ := hpre
    rw [hc, List.cons_append] at hremaining
    refine splitPoint_ne_four hremaining.symm hne.1 hne.2 hlt ?_
    rw [← hcut, hc]
    rfl

/-- And then it is. -/
theorem within_of_closesAtOnce
    (hlim : UnitLimits lim) (hno : NoRoom lim p) (h : ClosesAtOnce lim p) :
    Within lim (cutPart lim p).chunk := by
  obtain ⟨lang, hcarry⟩ := carried_of_noRoom hlim hno
  have hcut : delimiterCut (p.remaining.take (cpLimit lim p)) (cpLimit lim p) = 4 := by
    rw [take_cpLimit hlim hno]
    exact cut_of_delimiter (length_fallbackRegion hlim hno) h.delimiter
  obtain ⟨rest, hrest⟩ := h.fence
  obtain ⟨d, hd, hbody⟩ : ∃ d, (d = '\n' ∨ d = ' ') ∧ p.remaining.take 4 = ticks ++ [d] := by
    have hregion : (fallbackRegion lim p)[3]? = some '\n' ∨ (fallbackRegion lim p)[3]? = some ' ' := by
      rcases h.delimiter with ⟨hline, _⟩ | ⟨hspace, _⟩
      · rcases rfind_cases '\n' (fallbackRegion lim p) with hnone | ⟨n, hn, hget⟩
        · omega
        · obtain rfl : n = 3 := by omega
          exact Or.inl hget
      · rcases rfind_cases ' ' (fallbackRegion lim p) with hnone | ⟨n, hn, hget⟩
        · omega
        · obtain rfl : n = 3 := by omega
          exact Or.inr hget
    have hthird : p.remaining[3]? = some '\n' ∨ p.remaining[3]? = some ' ' :=
      hregion.imp getElem?_of_take getElem?_of_take
    rw [← hrest] at hthird ⊢
    cases rest with
    | nil => rcases hthird with hnone | hnone <;> cases hnone
    | cons d rest =>
        refine ⟨d, hthird.imp Option.some.inj Option.some.inj, ?_⟩
        simp [ticks]
  have hpoint : splitPoint p.remaining (cpLimit lim p) = 4 := by
    rw [splitPoint, hcut, hbody, if_pos]
    rcases hd with rfl | rfl <;> decide
  have hpart : (cutPart lim p).body = ticks ++ [d] := by
    rw [cutPart, hpoint]
    exact hbody
  have hclosing : (cutPart lim p).closing = [] := by
    have hafter : carryAfter (ticks ++ [d]) (some lang) = none := by
      rcases hd with rfl | rfl <;> rfl
    have hdef : (cutPart lim p).closing = closeOf (carryAfter (cutPart lim p).body p.carryLang) :=
      rfl
    rw [hdef, hpart, hcarry, hafter]
    rfl
  have hopening : (cutPart lim p).opening = reopen p.carryLang := rfl
  have hunits : utf16Len (ticks ++ [d]) = 4 := by
    rcases hd with rfl | rfl <;> decide
  have hfits := h.opening
  rw [Within, utf16Len_chunk, hopening, hpart, hclosing, hunits, utf16Len_nil]
  omega

/-- The chunk of a pass is within the budget exactly when the pass is roomy. -/
theorem within_cutPart_iff
    (hlim : UnitLimits lim) (hrest : p.remaining ≠ []) (hfits : fitsFinal lim p = false) :
    Within lim (cutPart lim p).chunk ↔ Roomy lim p := by
  constructor
  · exact fun h _ _ hno => closesAtOnce_of_within hlim hrest hfits hno h
  · intro hroomy
    by_cases hno : NoRoom lim p
    · exact within_of_closesAtOnce hlim hno (hroomy hrest hfits hno)
    · exact within_of_room hlim hno

theorem within_finalPart
    (hlim : UnitLimits lim) (hfits : fitsFinal lim p = true) :
    Within lim (finalPart p).chunk := by
  rw [fitsFinal, decide_eq_true_eq, hlim.units] at hfits
  simp only [utf16_length, utf16Len_fenceClose] at hfits
  rw [Within, utf16Len_chunk]
  simp only [finalPart]
  cases hfinal : (stateFrom p.remaining p.carryLang).1 with
  | false =>
      simp only [hfinal, Bool.false_eq_true, if_false, Bool.false_and, utf16Len_nil] at hfits ⊢
      omega
  | true =>
      simp only [hfinal, if_true] at hfits
      split_ifs <;> simp <;> omega

end Passes

/-! ### All chunks -/

section Results

variable {lim : Limits} {p : Pos}

/-- The chunks of a loop are within the budget exactly when its passes are roomy. -/
theorem within_splitLoop_iff
    {fuel : Nat} {parts : List Part}
    (hlim : UnitLimits lim) (h : splitLoop lim fuel p = some parts) :
    (∀ part ∈ parts, Within lim part.chunk) ↔
      ∀ q, Relation.ReflTransGen (Pass lim) p q → Roomy lim q := by
  have hlast : ∀ {p : Pos}, (p.remaining = [] ∨ fitsFinal lim p = true) →
      ∀ q, Relation.ReflTransGen (Pass lim) p q → Roomy lim q := by
    intro p hend q hq hrest hfits
    rcases hq.cases_head with rfl | ⟨r, hpass, _⟩
    · rcases hend with hnil | htrue
      · exact absurd hnil hrest
      · rw [htrue] at hfits
        cases hfits
    · rcases hend with hnil | htrue
      · exact absurd hnil hpass.rest
      · exact absurd (htrue.symm.trans hpass.long) (by decide)
  induction fuel generalizing p parts with
  | zero => cases h
  | succ n ih =>
      by_cases hrest : p.remaining = []
      · rw [splitLoop, if_pos hrest] at h
        obtain rfl := Option.some.inj h
        exact ⟨fun _ => hlast (Or.inl hrest), fun _ => List.forall_mem_nil _⟩
      · cases hfits : fitsFinal lim p with
        | true =>
            rw [splitLoop, if_neg hrest, if_pos hfits] at h
            obtain rfl := Option.some.inj h
            refine ⟨fun _ => hlast (Or.inr hfits), fun _ part hpart => ?_⟩
            rw [List.mem_singleton.mp hpart]
            exact within_finalPart hlim hfits
        | false =>
            rw [splitLoop_cut hrest hfits] at h
            obtain ⟨rest, hparts, rfl⟩ := Option.map_eq_some_iff.mp h
            have hlater := ih hparts
            rw [List.forall_mem_cons, within_cutPart_iff hlim hrest hfits]
            constructor
            · rintro ⟨hhead, htail⟩ q hq
              rcases hq.cases_head with rfl | ⟨r, hpass, hq⟩
              · exact hhead
              · exact hlater.mp htail q (hpass.cut ▸ hq)
            · intro hall
              exact ⟨hall p .refl, hlater.mpr fun q hq => hall q (.head ⟨hrest, hfits, rfl⟩ hq)⟩

/-- **Chunk budget.**  All chunks of a content that does not fit leave the reserve free exactly
when no carried tag leaves a pass without room, but for a closing fence right at the start. -/
theorem chunks_within_budget_iff
    (lim : Limits) (content : List Char) (fuel : Nat) (chunks : List (List Char))
    (hlim : UnitLimits lim) (hlong : ¬ lim.lenFn.length content ≤ lim.maxLength)
    (h : splitTelegramText lim fuel content = some chunks) :
    (∀ chunk ∈ chunks, Within lim chunk) ↔ ∀ p, Reached lim content p → Roomy lim p := by
  rw [splitTelegramText, if_neg hlong] at h
  obtain ⟨parts, hparts, rfl⟩ := Option.map_eq_some_iff.mp h
  rw [List.forall_mem_map, within_splitLoop_iff hlim hparts]
  exact ⟨fun hall p hp => hall p hp.passes, fun hall p hp => hall p ⟨hlong, hp⟩⟩

/-- A tag of 4076 letters, in front of a body. -/
def bodyBehindTag : List Char := tagLine 4076 ++ '\n' :: List.replicate 100 'b'

/-- The rest behind the tag. -/
def taggedBody : Pos := ⟨List.replicate 100 'b', some (List.replicate 4076 'a')⟩

theorem pass_taggedBody : Pass defaultLimits (start bodyBehindTag) taggedBody := by
  have hletter : utf16Width 'b' = 1 := by decide
  refine pass_behind_tag ?_ (by omega) (by omega)
  rw [utf16Len_cons, utf16Len_replicate, hletter]
  decide

theorem bodyBehindTag_long :
    ¬ defaultLimits.lenFn.length bodyBehindTag ≤ defaultLimits.maxLength := by
  have hletter : utf16Width 'b' = 1 := by decide
  have hunits := utf16Len_behind_tag 4076 (List.replicate 100 'b')
  rw [utf16Len_replicate, hletter] at hunits
  change ¬ (utf16Len (tagLine 4076 ++ '\n' :: List.replicate 100 'b') : Int) ≤ 4096
  omega

theorem taggedBody_long : fitsFinal defaultLimits taggedBody = false := by
  have hletter : utf16Width 'a' = 1 := by decide
  have hbody : utf16Width 'b' = 1 := by decide
  refine fitsFinal_of_long rfl ?_
  rw [taggedBody, utf16Len_reopen, Option.elim_some, utf16Len_replicate, utf16Len_replicate,
    hletter, hbody]
  decide

/-- The splitter makes two chunks of it. -/
theorem split_bodyBehindTag :
    splitTelegramText defaultLimits 3 bodyBehindTag =
      some ([cutPart defaultLimits (start bodyBehindTag), cutPart defaultLimits taggedBody].map
        Part.chunk) := by
  have hend : (cutPos defaultLimits taggedBody).remaining = [] := by decide +kernel
  rw [splitTelegramText, if_neg bodyBehindTag_long,
    splitLoop_cut pass_taggedBody.rest pass_taggedBody.long, ← pass_taggedBody.cut,
    splitLoop_cut (by decide) taggedBody_long, splitLoop, if_pos hend]
  rfl

theorem long_tag_exceeds_budget :
    ¬ ∀ (lim : Limits) (content : List Char) (fuel : Nat) (chunks : List (List Char)),
      UnitLimits lim → ¬ lim.lenFn.length content ≤ lim.maxLength →
      splitTelegramText lim fuel content = some chunks →
      ∀ chunk ∈ chunks, Within lim chunk := by
  intro hall
  have hlim : UnitLimits defaultLimits := ⟨callerLimits_default, rfl⟩
  have hwithin := hall defaultLimits bodyBehindTag 3 _ hlim bodyBehindTag_long split_bodyBehindTag
    (cutPart defaultLimits taggedBody).chunk (by simp)
  have hno : NoRoom defaultLimits taggedBody := by
    have hletter : utf16Width 'a' = 1 := by decide
    rw [NoRoom, taggedBody, utf16Len_reopen, Option.elim_some, utf16Len_replicate, hletter]
    decide
  exact absurd (closesAtOnce_of_within hlim (by decide) taggedBody_long hno hwithin).fence
    (by decide)

theorem chunks_within_budget_tagged :
    (∀ chunk ∈ [cutPart defaultLimits (start bodyBehindTag), cutPart defaultLimits taggedBody].map
        Part.chunk, Within defaultLimits chunk) ↔
      ∀ p, Reached defaultLimits bodyBehindTag p → Roomy defaultLimits p :=
  chunks_within_budget_iff defaultLimits bodyBehindTag 3 _ ⟨callerLimits_default, rfl⟩
    bodyBehindTag_long split_bodyBehindTag

end Results

end SplitText
end Telegram
end DiploidAgent
