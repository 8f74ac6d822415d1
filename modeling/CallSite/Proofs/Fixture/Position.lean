import CallSite.Span
import Mathlib.Data.Prod.Lex
import Mathlib.Data.String.Basic
import Mathlib.Order.Bounds.Basic

/-!
# Where a span starts

The line and column of a span's start are those reached after the whole characters that stand before
it. These characters are the longest stretch of the text, from its front, that goes no further than
the start. How many bytes they take can be found again from the line and the column, and more of
them lead to a later place. The two numbers have 32 bits. In a text of the greatest length that is
one line, or that is newlines only, the end has a number beyond them.
-/

namespace CallSite

namespace Span

open String (utf8Len)

/-! ### The characters before a start -/

/-- The characters that end within `left` bytes. -/
def wholeChars : Nat → List Char → List Char
  | _, [] => []
  | left, c :: cs => if left < c.utf8Size then [] else c :: wholeChars (left - c.utf8Size) cs

theorem wholeChars_isPrefix (left : Nat) (cs : List Char) : wholeChars left cs <+: cs := by
  induction cs generalizing left with
  | nil => exact List.nil_prefix
  | cons c cs ih =>
    rw [wholeChars]
    split
    · exact List.nil_prefix
    · exact (List.prefix_cons_inj c).mpr (ih _)

theorem utf8Len_wholeChars_le (left : Nat) (cs : List Char) :
    utf8Len (wholeChars left cs) ≤ left := by
  induction cs generalizing left with
  | nil => simp [wholeChars]
  | cons c cs ih =>
    rw [wholeChars]
    split
    · simp
    · have := ih (left - c.utf8Size)
      rw [String.utf8Len_cons]
      omega

/-- No stretch from the front of the text that goes no further is longer. -/
theorem isPrefix_wholeChars {taken cs : List Char} {left : Nat} (h : taken <+: cs)
    (hle : utf8Len taken ≤ left) : taken <+: wholeChars left cs := by
  induction taken generalizing left cs with
  | nil => exact List.nil_prefix
  | cons c taken ih =>
    obtain ⟨rest, rfl⟩ := h
    rw [String.utf8Len_cons] at hle
    rw [List.cons_append, wholeChars, if_neg (by omega)]
    exact (List.prefix_cons_inj c).mpr (ih (List.prefix_append taken rest) (by omega))

theorem wholeChars_utf8Len {taken cs : List Char} (h : taken <+: cs) :
    wholeChars (utf8Len taken) cs = taken := by
  obtain ⟨more, hmore⟩ := isPrefix_wholeChars h le_rfl
  have hle := utf8Len_wholeChars_le (utf8Len taken) cs
  rw [← hmore, String.utf8Len_append] at hle
  have : more = [] := String.utf8Len_eq_zero.mp (by omega)
  rw [← hmore, this, List.append_nil]

/-- The byte offset is the start of a character or the end of the text. -/
def Boundary (source : String) (b : Nat) : Prop :=
  (⟨b⟩ : String.Pos.Raw).IsValid source

instance {source : String} {b : Nat} : Decidable (Boundary source b) :=
  inferInstanceAs (Decidable (String.Pos.Raw.IsValid source ⟨b⟩))

/-- The boundaries are the lengths of the stretches from the front of the text. -/
theorem boundary_iff {source : String} {b : Nat} :
    Boundary source b ↔ ∃ taken, taken <+: source.toList ∧ utf8Len taken = b := by
  rw [Boundary, ← String.ofList_toList (s := source), String.Pos.Raw.isValid_ofList,
    String.toList_ofList]
  simp only [String.utf8ByteSize_ofList]
  constructor
  · rintro ⟨i, hi⟩
    exact ⟨_, List.take_prefix i _, hi.symm⟩
  · rintro ⟨taken, ht, rfl⟩
    exact ⟨taken.length, by rw [← List.prefix_iff_eq_take.mp ht]⟩

theorem utf8Len_toList (source : String) : utf8Len source.toList = source.utf8ByteSize := by
  rw [← String.utf8ByteSize_ofList, String.ofList_toList]

theorem length_le_utf8Len (cs : List Char) : cs.length ≤ utf8Len cs := by
  induction cs with
  | nil => exact Nat.le_refl 0
  | cons c cs ih =>
    have := c.utf8Size_pos
    rw [List.length_cons, String.utf8Len_cons]
    omega

theorem utf8Len_replicate_newline (n : Nat) : utf8Len (List.replicate n '\n') = n := by
  induction n with
  | zero => rfl
  | succ n ih => rw [List.replicate_succ, String.utf8Len_cons, ih]; rfl

/-- The whole characters before a start end at the last boundary that is not after it. -/
theorem isGreatest_wholeChars (source : String) (start : Nat) :
    IsGreatest {b | Boundary source b ∧ b ≤ min start source.utf8ByteSize}
      (utf8Len (wholeChars start source.toList)) := by
  have hprefix := wholeChars_isPrefix start source.toList
  have hle : utf8Len (wholeChars start source.toList) ≤ source.utf8ByteSize := by
    rw [← utf8Len_toList]
    exact String.utf8Len_le_of_prefix hprefix
  refine ⟨⟨boundary_iff.mpr ⟨_, hprefix, rfl⟩, le_min (utf8Len_wholeChars_le ..) hle⟩, ?_⟩
  rintro b ⟨hb, hmin⟩
  obtain ⟨taken, ht, rfl⟩ := boundary_iff.mp hb
  exact String.utf8Len_le_of_prefix (isPrefix_wholeChars ht (le_min_iff.mp hmin).1)

/-! ### The place after them -/

/-- The line and column after one more character. -/
def nextPlace (place : Nat × Nat) (c : Char) : Nat × Nat :=
  if c = '\n' then (place.1 + 1, 1) else (place.1, place.2 + c.utf8Size)

theorem position_eq_foldl (left line column : Nat) (cs : List Char) :
    position left line column cs = (wholeChars left cs).foldl nextPlace (line, column) := by
  fun_induction position left line column cs with
  | case1 => rfl
  | case2 left line column c cs h => rw [wholeChars, if_pos h, List.foldl_nil]
  | case3 left line column cs h ih =>
    rw [wholeChars, if_neg h, List.foldl_cons, nextPlace, if_pos rfl, ih]
  | case4 left line column c cs h hc ih =>
    rw [wholeChars, if_neg h, List.foldl_cons, nextPlace, if_neg hc, ih]

/-- The bytes before the line that so many newlines come before. -/
def bytesToLine : Nat → List Char → Option Nat
  | 0, _ => some 0
  | _ + 1, [] => .none
  | newlines + 1, c :: cs =>
    (bytesToLine (if c = '\n' then newlines else newlines + 1) cs).map (· + c.utf8Size)

@[simp] theorem bytesToLine_zero (cs : List Char) : bytesToLine 0 cs = some 0 := by
  cases cs <;> rfl

theorem line_foldl_nextPlace (place : Nat × Nat) (taken : List Char) :
    (taken.foldl nextPlace place).1 = place.1 + taken.count '\n' := by
  induction taken generalizing place with
  | nil => rfl
  | cons c taken ih =>
    rw [List.foldl_cons, ih, nextPlace, List.count_cons]
    by_cases hc : c = '\n'
    · simp only [hc, if_pos, beq_self_eq_true]
      omega
    · simp [hc]

theorem column_foldl_nextPlace_pos {place : Nat × Nat} (h : 0 < place.2) (taken : List Char) :
    0 < (taken.foldl nextPlace place).2 := by
  induction taken generalizing place with
  | nil => exact h
  | cons c taken ih =>
    refine ih ?_
    rw [nextPlace]
    split
    · exact Nat.one_pos
    · exact Nat.add_pos_left h _

/-- One more character moves the line and the column together by no more bytes than it has. -/
theorem foldl_nextPlace_add_le {place : Nat × Nat} (h : 0 < place.2) (taken : List Char) :
    (taken.foldl nextPlace place).1 + (taken.foldl nextPlace place).2 ≤
      place.1 + place.2 + utf8Len taken := by
  induction taken generalizing place with
  | nil => exact Nat.le_refl _
  | cons c taken ih =>
    have hstep : 0 < (nextPlace place c).2 ∧
        (nextPlace place c).1 + (nextPlace place c).2 ≤ place.1 + place.2 + c.utf8Size := by
      have := c.utf8Size_pos
      rw [nextPlace]
      split <;> constructor <;> dsimp only <;> omega
    have := ih hstep.1
    rw [List.foldl_cons, String.utf8Len_cons]
    omega

/-- The start of the line that was reached and the column on it give the bytes taken. A line that
the characters themselves begin has its first byte in column one. -/
theorem bytesToLine_foldl_nextPlace (place : Nat × Nat) (taken rest : List Char) :
    ∃ first, bytesToLine (taken.count '\n') (taken ++ rest) = some first ∧
      first + (taken.foldl nextPlace place).2 =
        utf8Len taken + if '\n' ∈ taken then 1 else place.2 := by
  induction taken generalizing place with
  | nil => exact ⟨0, bytesToLine_zero _, by simp⟩
  | cons c taken ih =>
    obtain ⟨first, hfirst, hsum⟩ := ih (nextPlace place c)
    rw [List.foldl_cons, List.cons_append, List.count_cons, String.utf8Len_cons]
    by_cases hc : c = '\n'
    · subst hc
      have hone : (nextPlace place '\n').2 = 1 := rfl
      rw [hone, ite_self] at hsum
      refine ⟨first + '\n'.utf8Size, by simp [bytesToLine, hfirst], ?_⟩
      rw [if_pos List.mem_cons_self]
      omega
    · have hcolumn : (nextPlace place c).2 = place.2 + c.utf8Size := by rw [nextPlace, if_neg hc]
      have hmem : '\n' ∈ c :: taken ↔ '\n' ∈ taken := by simp [Ne.symm hc]
      rw [hcolumn] at hsum
      simp only [hmem, beq_iff_eq, hc, if_false, Nat.add_zero]
      by_cases hnewline : '\n' ∈ taken
      · obtain ⟨n, hn⟩ := Nat.exists_eq_add_one.mpr (List.count_pos_iff.mpr hnewline)
        rw [if_pos hnewline] at hsum ⊢
        refine ⟨first + c.utf8Size, ?_, by omega⟩
        rw [hn] at hfirst ⊢
        simp [bytesToLine, hc, hfirst]
      · rw [List.count_eq_zero.mpr hnewline, bytesToLine_zero] at hfirst
        obtain rfl := Option.some.inj hfirst
        rw [if_neg hnewline] at hsum ⊢
        exact ⟨0, by rw [List.count_eq_zero.mpr hnewline, bytesToLine_zero], by omega⟩

/-! ### The order of places -/

theorem lt_nextPlace (place : Nat × Nat) (c : Char) : toLex place < toLex (nextPlace place c) := by
  rw [Prod.Lex.toLex_lt_toLex, nextPlace]
  have := c.utf8Size_pos
  split
  · exact .inl (Nat.lt_succ_self _)
  · exact .inr ⟨rfl, by simpa using this⟩

theorem le_foldl_nextPlace (place : Nat × Nat) (taken : List Char) :
    toLex place ≤ toLex (taken.foldl nextPlace place) := by
  induction taken generalizing place with
  | nil => exact le_rfl
  | cons c taken ih => exact (lt_nextPlace place c).le.trans (ih _)

/-- Taking more characters leads to a later place. -/
theorem foldl_nextPlace_lt {place : Nat × Nat} {taken more : List Char} (h : taken <+: more)
    (hlt : utf8Len taken < utf8Len more) :
    toLex (taken.foldl nextPlace place) < toLex (more.foldl nextPlace place) := by
  obtain ⟨rest, rfl⟩ := h
  rw [List.foldl_append]
  cases rest with
  | nil => simp at hlt
  | cons c rest => exact (lt_nextPlace _ c).trans_le (le_foldl_nextPlace _ rest)

/-! ### The place of a start -/

/-- The line and column after the whole characters before a start. -/
def reached (source : String) (start : Nat) : Nat × Nat :=
  (wholeChars start source.toList).foldl nextPlace (1, 1)

theorem locatedIn_eq (span : Span) (source : String) :
    span.locatedIn source =
      { span with
        line := .ofNat (reached source span.start).1
        column := .ofNat (reached source span.start).2 } := by
  rw [locatedIn, position_eq_foldl, reached]

theorem reached_pos (source : String) (start : Nat) :
    0 < (reached source start).1 ∧ 0 < (reached source start).2 :=
  ⟨by rw [reached, line_foldl_nextPlace]; omega, column_foldl_nextPlace_pos Nat.one_pos _⟩

theorem reached_le (source : String) (start : Nat) :
    (reached source start).1 ≤ min start source.utf8ByteSize + 1 ∧
      (reached source start).2 ≤ min start source.utf8ByteSize + 1 := by
  have hsum : (reached source start).1 + (reached source start).2 ≤
      1 + 1 + utf8Len (wholeChars start source.toList) := foldl_nextPlace_add_le Nat.one_pos _
  have hle := (isGreatest_wholeChars source start).1.2
  have hpos := reached_pos source start
  omega

theorem bytesToLine_reached (source : String) (start : Nat) :
    ∃ first, bytesToLine ((reached source start).1 - 1) source.toList = some first ∧
      first + ((reached source start).2 - 1) = utf8Len (wholeChars start source.toList) := by
  obtain ⟨rest, hrest⟩ := wholeChars_isPrefix start source.toList
  obtain ⟨first, hfirst, hsum⟩ :=
    bytesToLine_foldl_nextPlace (1, 1) (wholeChars start source.toList) rest
  have hline : (reached source start).1 - 1 = (wholeChars start source.toList).count '\n' := by
    rw [reached, line_foldl_nextPlace, Nat.add_sub_cancel_left]
  have hpos := (reached_pos source start).2
  rw [hrest] at hfirst
  rw [ite_self] at hsum
  refine ⟨first, hline ▸ hfirst, ?_⟩
  rw [reached] at hpos ⊢
  omega

theorem strictMonoOn_reached (source : String) :
    StrictMonoOn (fun b => toLex (reached source b)) {b | Boundary source b} := by
  intro a ha b hb h
  obtain ⟨taken, ht, rfl⟩ := boundary_iff.mp ha
  obtain ⟨more, hm, rfl⟩ := boundary_iff.mp hb
  have hprefix : taken <+: more := by
    refine (List.prefix_or_prefix_of_prefix ht hm).resolve_right fun hmore => ?_
    exact absurd (String.utf8Len_le_of_prefix hmore) (Nat.not_le.mpr h)
  simp only [reached, wholeChars_utf8Len ht, wholeChars_utf8Len hm]
  exact foldl_nextPlace_lt hprefix h

/-! ### Places in 32 bits -/

/-- The numbers of lines and columns, counted from one, lead back to where spans start. -/
structure Recovers (source : String) : Prop where
  pos : ∀ span : Span, 0 < (span.locatedIn source).line ∧ 0 < (span.locatedIn source).column
  /-- The start of the line and the bytes before the column on it make the last boundary that is
  neither after the start nor after the end of the text. -/
  start : ∀ span : Span, ∃ first,
    bytesToLine ((span.locatedIn source).line.toNat - 1) source.toList = some first ∧
      IsGreatest {b | Boundary source b ∧ b ≤ min span.start source.utf8ByteSize}
        (first + ((span.locatedIn source).column.toNat - 1))
  distinct : ∀ p q : Span, Boundary source p.start → Boundary source q.start →
    (p.locatedIn source).line = (q.locatedIn source).line →
      (p.locatedIn source).column = (q.locatedIn source).column → p.start = q.start
  ordered : ∀ p q : Span, Boundary source p.start → Boundary source q.start →
    (p.start < q.start ↔
      toLex ((p.locatedIn source).line, (p.locatedIn source).column) <
        toLex ((q.locatedIn source).line, (q.locatedIn source).column))

/-- Every line and every column has a number of 32 bits. A line or column can only go beyond if it
takes all bytes of a text of the greatest length: one line of them, or as many empty lines. -/
def Numbered (source : String) : Prop :=
  source.utf8ByteSize + 1 = 2 ^ 32 → '\n' ∈ source.toList ∧ ∃ c ∈ source.toList, c ≠ '\n'

theorem reached_zero (source : String) : reached source 0 = (1, 1) := by
  rw [reached, show wholeChars 0 source.toList = [] from wholeChars_utf8Len List.nil_prefix]
  rfl

/-- A start past the end is placed at the end. -/
theorem reached_end {source : String} {start : Nat} (h : source.utf8ByteSize ≤ start) :
    reached source start = source.toList.foldl nextPlace (1, 1) := by
  have hall : source.toList <+: wholeChars start source.toList :=
    isPrefix_wholeChars (List.prefix_refl _) ((utf8Len_toList source).trans_le h)
  rw [reached, (wholeChars_isPrefix start source.toList).eq_of_length_le hall.length_le]

/-- The place of the end, if a line or a column there is beyond the greatest number. -/
theorem reached_end_of_not_numbered {source : String} (h : ¬ Numbered source) :
    source.utf8ByteSize + 1 = 2 ^ 32 ∧
      ((reached source source.utf8ByteSize).1 = 2 ^ 32 ∨
        reached source source.utf8ByteSize = (1, 2 ^ 32)) := by
  rw [Numbered, Classical.not_imp] at h
  obtain ⟨hsize, hmixed⟩ := h
  refine ⟨hsize, ?_⟩
  have hlen := utf8Len_toList source
  have hline := line_foldl_nextPlace (1, 1) source.toList
  rw [reached_end le_rfl]
  by_cases hnewline : '\n' ∈ source.toList
  · left
    have hall : ∀ c ∈ source.toList, c = '\n' := by
      intro c hc
      by_contra hne
      exact hmixed ⟨hnewline, c, hc, hne⟩
    have hlines := List.eq_replicate_of_mem hall
    rw [hlines, utf8Len_replicate_newline] at hlen
    rw [hline, List.count_eq_length.mpr fun c hc => (hall c hc).symm]
    omega
  · right
    obtain ⟨first, hfirst, hsum⟩ := bytesToLine_foldl_nextPlace (1, 1) source.toList []
    rw [List.count_eq_zero.mpr hnewline] at hline hfirst
    rw [bytesToLine_zero] at hfirst
    obtain rfl := Option.some.inj hfirst
    rw [ite_self] at hsum
    exact Prod.ext hline (by omega)

/-- A text with a newline and another character has fewer lines, and shorter ones, than bytes. -/
theorem foldl_nextPlace_le_of_mixed {cs : List Char} (hnewline : '\n' ∈ cs)
    (hother : ∃ c ∈ cs, c ≠ '\n') : (cs.foldl nextPlace (1, 1)).1 ≤ utf8Len cs ∧
      (cs.foldl nextPlace (1, 1)).2 ≤ utf8Len cs := by
  obtain ⟨c, hc, hne⟩ := hother
  have hsum : (cs.foldl nextPlace (1, 1)).1 + (cs.foldl nextPlace (1, 1)).2 ≤ 1 + 1 + utf8Len cs :=
    foldl_nextPlace_add_le Nat.one_pos _
  have hline : (cs.foldl nextPlace (1, 1)).1 = 1 + cs.count '\n' := line_foldl_nextPlace _ _
  have hsome : 0 < cs.count '\n' := List.count_pos_iff.mpr hnewline
  have hnotall : cs.count '\n' ≠ cs.length := fun hcount =>
    hne (List.count_eq_length.mp hcount c hc).symm
  have hcount : cs.count '\n' ≤ cs.length := List.count_le_length
  have hlength := length_le_utf8Len cs
  omega

theorem reached_lt {source : String} (fits : source.utf8ByteSize < 2 ^ 32) (h : Numbered source)
    (start : Nat) : (reached source start).1 < 2 ^ 32 ∧ (reached source start).2 < 2 ^ 32 := by
  have hle := reached_le source start
  by_cases hend : source.utf8ByteSize + 1 = 2 ^ 32 ∧ source.utf8ByteSize ≤ start
  · obtain ⟨hnewline, hother⟩ := h hend.1
    have hmixed := foldl_nextPlace_le_of_mixed hnewline hother
    rw [utf8Len_toList] at hmixed
    rw [reached_end hend.2]
    omega
  · omega

/-- In a numbered text the numbers are those of the place that was reached. -/
theorem toNat_locatedIn {source : String} (fits : source.utf8ByteSize < 2 ^ 32)
    (h : Numbered source) (span : Span) :
    (span.locatedIn source).line.toNat = (reached source span.start).1 ∧
      (span.locatedIn source).column.toNat = (reached source span.start).2 := by
  obtain ⟨hline, hcolumn⟩ := reached_lt fits h span.start
  rw [locatedIn_eq]
  exact ⟨UInt32.toNat_ofNat_of_lt' hline, UInt32.toNat_ofNat_of_lt' hcolumn⟩

theorem recovers_of_numbered {source : String} (fits : source.utf8ByteSize < 2 ^ 32)
    (h : Numbered source) : Recovers source := by
  constructor
  case pos =>
    intro span
    rw [UInt32.lt_iff_toNat_lt, UInt32.lt_iff_toNat_lt, (toNat_locatedIn fits h span).1,
      (toNat_locatedIn fits h span).2]
    exact reached_pos source span.start
  case start =>
    intro span
    obtain ⟨first, hfirst, hsum⟩ := bytesToLine_reached source span.start
    rw [(toNat_locatedIn fits h span).1, (toNat_locatedIn fits h span).2]
    exact ⟨first, hfirst, hsum ▸ isGreatest_wholeChars source span.start⟩
  case distinct =>
    intro p q hp hq hline hcolumn
    have hreached : reached source p.start = reached source q.start := by
      refine Prod.ext ?_ ?_
      · rw [← (toNat_locatedIn fits h p).1, hline, (toNat_locatedIn fits h q).1]
      · rw [← (toNat_locatedIn fits h p).2, hcolumn, (toNat_locatedIn fits h q).2]
    exact (strictMonoOn_reached source).injOn hp hq (congrArg toLex hreached)
  case ordered =>
    intro p q hp hq
    rw [← (strictMonoOn_reached source).lt_iff_lt hp hq, Prod.Lex.toLex_lt_toLex,
      Prod.Lex.toLex_lt_toLex]
    simp only [UInt32.lt_iff_toNat_lt, ← UInt32.toNat_inj, toNat_locatedIn fits h]

theorem boundary_zero (source : String) : Boundary source 0 :=
  boundary_iff.mpr ⟨[], List.nil_prefix, rfl⟩

theorem boundary_end (source : String) : Boundary source source.utf8ByteSize :=
  boundary_iff.mpr ⟨source.toList, List.prefix_refl _, utf8Len_toList source⟩

theorem locatedIn_zero (source : String) {span : Span} (h : span.start = 0) :
    (span.locatedIn source).line = 1 ∧ (span.locatedIn source).column = 1 := by
  rw [locatedIn_eq, h, reached_zero]
  exact ⟨rfl, rfl⟩

/-- A number that is one too great is stored as zero. -/
theorem locatedIn_end_of_not_numbered {source : String} (h : ¬ Numbered source) {span : Span}
    (hend : span.start = source.utf8ByteSize) : (span.locatedIn source).line = 0 ∨
      (span.locatedIn source).line = 1 ∧ (span.locatedIn source).column = 0 := by
  have hzero : UInt32.ofNat (2 ^ 32) = 0 := by decide
  rw [locatedIn_eq, hend]
  rcases (reached_end_of_not_numbered h).2 with hline | hplace
  · left
    rw [hline, hzero]
  · right
    rw [hplace, hzero]
    exact ⟨rfl, rfl⟩

/-- In a text that is not numbered the end is placed before the start. -/
theorem unordered_of_not_numbered {source : String} (h : ¬ Numbered source) {p q : Span}
    (hp : p.start = 0) (hq : q.start = source.utf8ByteSize) :
    ¬ toLex ((p.locatedIn source).line, (p.locatedIn source).column) <
      toLex ((q.locatedIn source).line, (q.locatedIn source).column) := by
  obtain ⟨hpline, hpcolumn⟩ := locatedIn_zero source hp
  rw [Prod.Lex.toLex_lt_toLex, not_or, not_and]
  dsimp only
  rw [hpline, hpcolumn]
  rcases locatedIn_end_of_not_numbered h hq with hqline | ⟨hqline, hqcolumn⟩
  · rw [hqline]
    exact ⟨by decide, fun hone => absurd hone (by decide)⟩
  · rw [hqline, hqcolumn]
    exact ⟨by decide, fun _ => by decide⟩

/-- The numbers of lines and columns lead back to where spans start, and are in the order of the
starts, exactly if all of them are numbers of 32 bits. A text of fewer than `2 ^ 32` bytes lacks one
only if it has `2 ^ 32 - 1` bytes, of which all are newlines or none is. -/
theorem locatedIn_recovers_iff {source : String} (fits : source.utf8ByteSize < 2 ^ 32) :
    Recovers source ↔ Numbered source := by
  refine ⟨fun h => ?_, recovers_of_numbered fits⟩
  by_contra hnot
  have hsize := (reached_end_of_not_numbered hnot).1
  let start : Span := { start := 0, stop := 0 }
  let stop : Span := { start := source.utf8ByteSize, stop := source.utf8ByteSize }
  have hlt : start.start < stop.start := by
    show 0 < source.utf8ByteSize
    omega
  exact unordered_of_not_numbered hnot rfl rfl
    ((h.ordered start stop (boundary_zero source) (boundary_end source)).mp hlt)

/-- A start inside the second line's first character, which has two bytes, is placed at that
character, and so before the boundary that follows it. -/
theorem locatedIn_recovers_iff_insideCharacter :
    let source := "a\né!"
    let inside : Span := { start := 3, stop := 5 }
    let before : Span := { start := 2, stop := 5 }
    let after : Span := { start := 4, stop := 5 }
    (source.utf8ByteSize < 2 ^ 32 ∧ Numbered source) ∧
      ((inside.locatedIn source).line, (inside.locatedIn source).column) = (2, 1) ∧
      IsGreatest {b | Boundary source b ∧ b ≤ min 3 source.utf8ByteSize} 2 ∧
      ((after.locatedIn source).line, (after.locatedIn source).column) = (2, 3) ∧
      toLex ((before.locatedIn source).line, (before.locatedIn source).column) <
        toLex ((after.locatedIn source).line, (after.locatedIn source).column) := by
  intro source inside before after
  have fits : source.utf8ByteSize < 2 ^ 32 := by decide
  have hnumbered : Numbered source := fun hsize => absurd hsize (by decide)
  have hrecovers : Recovers source := (locatedIn_recovers_iff fits).mpr hnumbered
  obtain ⟨first, hfirst, hgreatest⟩ := hrecovers.start inside
  have hline : bytesToLine ((inside.locatedIn source).line.toNat - 1) source.toList = some 2 := by
    decide
  have hcolumn : (inside.locatedIn source).column.toNat - 1 = 0 := by decide
  obtain rfl : first = 2 := Option.some.inj (hfirst.symm.trans hline)
  rw [hcolumn] at hgreatest
  have hordered := hrecovers.ordered before after (by decide) (by decide)
  exact ⟨⟨fits, hnumbered⟩, by decide, hgreatest, by decide, hordered.mp (by decide)⟩

theorem not_numbered_replicate_newline {n : Nat} (hn : n + 1 = 2 ^ 32) :
    ¬ Numbered (String.ofList (List.replicate n '\n')) := by
  intro h
  rw [Numbered, String.toList_ofList, String.utf8ByteSize_ofList, utf8Len_replicate_newline] at h
  obtain ⟨-, c, hc, hne⟩ := h hn
  exact hne (List.eq_of_mem_replicate hc)

/-- Behind `2 ^ 32 - 1` newlines the line is number `2 ^ 32`, which is stored as zero, so that the
end of the text is placed before its start. -/
theorem locatedIn_unordered_newlines :
    let source := String.ofList (List.replicate (2 ^ 32 - 1) '\n')
    let start : Span := { start := 0, stop := 0 }
    let stop : Span := { start := 2 ^ 32 - 1, stop := 2 ^ 32 - 1 }
    source.utf8ByteSize < 2 ^ 32 ∧ Boundary source start.start ∧ Boundary source stop.start ∧
      start.start < stop.start ∧ (start.locatedIn source).line = 1 ∧
      (stop.locatedIn source).line = 0 ∧
      ¬ toLex ((start.locatedIn source).line, (start.locatedIn source).column) <
        toLex ((stop.locatedIn source).line, (stop.locatedIn source).column) ∧
      ¬ Recovers source := by
  intro source start stop
  have hsize : source.utf8ByteSize = 2 ^ 32 - 1 := by
    rw [String.utf8ByteSize_ofList, utf8Len_replicate_newline]
  have hnot : ¬ Numbered source := not_numbered_replicate_newline (by decide)
  have hstop : Boundary source stop.start := by
    show Boundary source (2 ^ 32 - 1)
    rw [← hsize]
    exact boundary_end source
  have hlt : start.start < stop.start := by decide
  have hline : (reached source stop.start).1 = 2 ^ 32 := by
    rw [reached_end hsize.le, line_foldl_nextPlace, String.toList_ofList, List.count_replicate_self]
    rfl
  have hunordered := unordered_of_not_numbered hnot (p := start) (q := stop) rfl hsize.symm
  refine ⟨by omega, boundary_zero source, hstop, hlt, (locatedIn_zero source rfl).1, ?_, hunordered,
    fun h => hunordered ((h.ordered start stop (boundary_zero source) hstop).mp hlt)⟩
  rw [locatedIn_eq, hline]
  decide

end Span

end CallSite
