import Mathlib.Data.List.Basic
import TemplateLexer.Source.Basic

/-!
# Locations of offsets

The binary search in the line index of a source finds the line of an offset. What it finds depends only
on the text before the offset (`location_eq`): the line is the number of newlines there, and the column
is counted from the last of them. So the locations in a text that is put together from two parts, of
which the first is made of whole lines, are those of the parts (`location_of_le`, `location_add`).
The number of lines is told by the newlines of the whole text (`lineCount_toNat`).

Offsets and lengths are words of 32 bits. In a text that is shorter than that, a span tells the extent
that it was made from (`span_bounds`).
-/

namespace TemplateLexer

open Bytes

/-! ## The line index -/

theorem offsetsPastNewlines_append (pos : Nat) (text more : Bytes) :
    offsetsPastNewlines pos (text ++ more) =
      offsetsPastNewlines pos text ++ offsetsPastNewlines (pos + text.length) more := by
  induction text generalizing pos with
  | nil => rfl
  | cons b rest ih =>
    have hlen : pos + (b :: rest).length = pos + 1 + rest.length := by
      rw [List.length_cons]
      omega
    rw [List.cons_append, hlen]
    simp only [offsetsPastNewlines, ih]
    split <;> simp

/-- A text that starts later has its newlines later. -/
theorem offsetsPastNewlines_add (n pos : Nat) (text : Bytes) :
    offsetsPastNewlines (n + pos) text = (offsetsPastNewlines pos text).map (n + ·) := by
  induction text generalizing pos with
  | nil => rfl
  | cons b rest ih =>
    simp only [offsetsPastNewlines, Nat.add_assoc, ih]
    split <;> simp

theorem length_offsetsPastNewlines (pos : Nat) (text : Bytes) :
    (offsetsPastNewlines pos text).length = text.count newline := by
  induction text generalizing pos with
  | nil => rfl
  | cons b rest ih =>
    simp only [offsetsPastNewlines, List.count_cons]
    split
    · next hb => simp [hb, ih]
    · next hb => simp [hb, ih]

/-- The lines after the first one start inside the text or at its end. -/
theorem bounds_of_mem_offsetsPastNewlines {pos n : Nat} {text : Bytes}
    (h : n ∈ offsetsPastNewlines pos text) : pos < n ∧ n ≤ pos + text.length := by
  induction text generalizing pos with
  | nil => cases h
  | cons b rest ih =>
    simp only [offsetsPastNewlines] at h
    rw [List.length_cons]
    split at h
    · rcases List.mem_cons.mp h with rfl | h
      · omega
      · have hb := ih h
        omega
    · have hb := ih h
      omega

/-! ## The search -/

/-- The search finds the place that parts the entries. Both bounds close in on it. -/
theorem countAtMost_eq {xs : Array Nat} {x k : Nat} (hle : ∀ i (h : i < xs.size), i < k → xs[i] ≤ x)
    (hgt : ∀ i (h : i < xs.size), k ≤ i → x < xs[i]) {lo hi : Nat} (h : hi ≤ xs.size)
    (hlo : lo ≤ k) (hhi : k ≤ hi) : countAtMost xs x lo hi h = k := by
  fun_induction countAtMost xs x lo hi h with
  | case1 lo hi h hl mid hm ih =>
    -- the entry in the middle is at most `x`, so it stands before the place
    refine ih ?_ hhi
    by_contra hk
    have hx := hgt mid (by omega) (by omega)
    omega
  | case2 lo hi h hl mid hm ih =>
    -- it is greater, so the place is not after it
    refine ih hlo ?_
    by_contra hk
    exact hm (hle mid (by omega) (by omega))
  | case3 lo hi h hl => omega

/-- The offset at which the last line of a text starts. -/
def lastLineStart (text : Bytes) : Nat := (offsetsPastNewlines 0 text).getLastD 0

/-- Where whole lines stand in front of a text, its last line starts so much later. -/
theorem lastLineStart_append {front : Bytes} (hf : front = [] ∨ front.getLast? = some newline)
    (text : Bytes) : lastLineStart (front ++ text) = front.length + lastLineStart text := by
  have hfront : (offsetsPastNewlines 0 front).getLastD 0 = front.length := by
    rcases hf with rfl | hf
    · rfl
    · obtain ⟨lines, rfl⟩ := List.getLast?_eq_some_iff.mp hf
      simp [offsetsPastNewlines_append, offsetsPastNewlines]
  unfold lastLineStart
  rw [offsetsPastNewlines_append, Nat.zero_add, ← Nat.add_zero front.length,
    offsetsPastNewlines_add, Nat.add_zero]
  cases hlast : (offsetsPastNewlines 0 text).getLast? with
  | none =>
    -- no newline in the text: its line starts with it
    rw [List.getLast?_eq_none_iff.mp hlast, List.map_nil, List.append_nil, hfront]
    rfl
  | some n =>
    simp [List.getLastD_eq_getLast?, List.getLast?_append, hlast]

namespace Source

variable (s : Source) (offset : Nat)

/-- The line index, cut at an offset: the lines that start up to the offset, and those after it. -/
theorem lineStarts_toList :
    s.lineStarts.toList = (0 :: offsetsPastNewlines 0 (s.text.take offset)) ++
      offsetsPastNewlines (s.text.take offset).length (s.text.drop offset) := by
  have h := offsetsPastNewlines_append 0 (s.text.take offset) (s.text.drop offset)
  rw [List.take_append_drop, Nat.zero_add] at h
  rw [s.lineStarts_eq, lineIndex, h]
  rfl

/-- The lines that start up to the offset. -/
theorem le_offset_of_mem {n : Nat} (h : n ∈ 0 :: offsetsPastNewlines 0 (s.text.take offset)) :
    n ≤ offset := by
  rcases List.mem_cons.mp h with rfl | h
  · exact Nat.zero_le _
  · have hb := (bounds_of_mem_offsetsPastNewlines h).2
    rw [List.length_take] at hb
    omega

/-- The lines that start after the offset. If there are any, the text goes on after the offset. -/
theorem offset_lt_of_mem {n : Nat}
    (h : n ∈ offsetsPastNewlines (s.text.take offset).length (s.text.drop offset)) : offset < n := by
  have hb := bounds_of_mem_offsetsPastNewlines h
  rw [List.length_take, List.length_drop] at hb
  omega

theorem lineStarts_size : s.lineStarts.size = 1 + s.text.count newline := by
  rw [s.lineStarts_eq, lineIndex, List.size_toArray, List.length_cons, length_offsetsPastNewlines,
    Nat.add_comm]

/-- The number of lines of a source is one more than its newlines, as far as a word of 32 bits can tell. -/
theorem lineCount_toNat : s.lineCount.toNat = (1 + s.text.count newline) % UInt32.size := by
  rw [lineCount, s.lineStarts_size]
  rfl

/-- The search counts the newlines before the offset. -/
theorem lineIndexAt_eq : s.lineIndexAt offset = (s.text.take offset).count newline := by
  have hlist := s.lineStarts_toList offset
  have hlen : (0 :: offsetsPastNewlines 0 (s.text.take offset)).length =
      (s.text.take offset).count newline + 1 := by
    rw [List.length_cons, length_offsetsPastNewlines]
  have hcount : countAtMost s.lineStarts offset 0 s.lineStarts.size (Nat.le_refl _) =
      (s.text.take offset).count newline + 1 := by
    have hsize := congrArg List.length hlist
    rw [List.length_append, Array.length_toList, hlen] at hsize
    -- the place between the two parts of the index parts the entries
    refine countAtMost_eq ?_ ?_ _ (Nat.zero_le _) (by omega)
    · intro i hi hk
      rw [← Array.getElem_toList hi]
      simp only [hlist]
      rw [List.getElem_append_left (by omega)]
      exact s.le_offset_of_mem offset (List.getElem_mem _)
    · intro i hi hk
      rw [← Array.getElem_toList hi]
      simp only [hlist]
      rw [List.getElem_append_right (by omega)]
      exact s.offset_lt_of_mem offset (List.getElem_mem _)
  rw [lineIndexAt, hcount, Nat.add_sub_cancel]

/-- The line that is found starts after the last newline before the offset. -/
theorem lineStarts_getD_lineIndexAt :
    s.lineStarts.getD (s.lineIndexAt offset) 0 = lastLineStart (s.text.take offset) := by
  have hlen := length_offsetsPastNewlines 0 (s.text.take offset)
  have hget : s.lineStarts.toList[s.lineIndexAt offset]? =
      some (lastLineStart (s.text.take offset)) := by
    rw [s.lineStarts_toList offset, s.lineIndexAt_eq offset, ← hlen,
      List.getElem?_append_left (by simp)]
    unfold lastLineStart
    cases h : offsetsPastNewlines 0 (s.text.take offset) with
    | nil => rfl
    | cons n rest =>
      rw [List.length_cons, List.getElem?_cons_succ]
      simp [List.getLastD_eq_getLast?, List.getLast?_eq_getElem?]
  rw [Array.getElem?_toList] at hget
  rw [Array.getD_eq_getD_getElem?, hget]
  rfl

/-- **The location of an offset** depends only on the text before it. -/
theorem location_eq :
    s.location offset =
      { line := ((s.text.take offset).count newline).toUInt32 + 1
        column := (offset - lastLineStart (s.text.take offset)).toUInt32 + 1
        offset := offset.toUInt32
        length := 1 } := by
  unfold location
  dsimp only
  rw [s.lineStarts_getD_lineIndexAt, s.lineIndexAt_eq]

end Source

/-! ## Spans as ranges -/

/-- The offset at which a span starts. -/
def Span.start (s : Span) : Nat := s.first.offset.toNat

/-- The offset just past a span. -/
def Span.stop (s : Span) : Nat := s.first.offset.toNat + s.first.length.toNat

theorem Source.span_bounds (s : Source) {e : Extent} (hs : e.start ≤ e.stop)
    (he : e.stop ≤ s.text.length) (h : s.text.length < UInt32.size) :
    (s.span e).start = e.start ∧ (s.span e).stop = e.stop := by
  have hstart : e.start.toUInt32.toNat = e.start :=
    Nat.mod_eq_of_lt (Nat.lt_of_le_of_lt (Nat.le_trans hs he) h)
  have hlength : e.length.toUInt32.toNat = e.stop - e.start :=
    Nat.mod_eq_of_lt (Nat.lt_of_le_of_lt (Nat.le_trans (Nat.sub_le _ _) he) h)
  constructor
  · exact hstart
  · show e.start.toUInt32.toNat + e.length.toUInt32.toNat = e.stop
    rw [hstart, hlength]
    omega

/-! ## Texts in two parts -/

/-- The location some lines and bytes further on. -/
def Location.shift (lines bytes : Nat) (l : Location) : Location :=
  { l with line := l.line + lines.toUInt32, offset := l.offset + bytes.toUInt32 }

/-- The span some lines and bytes further on. -/
def Span.shift (lines bytes : Nat) (s : Span) : Span :=
  ⟨s.first.shift lines bytes, s.last.shift lines bytes⟩

/-- The extent some bytes further on. -/
def Extent.shift (bytes : Nat) (e : Extent) : Extent := ⟨e.start + bytes, e.stop + bytes⟩

namespace Source

variable {whole first second : Source} (h : whole.text = first.text ++ second.text)

include h

/-- In the first part, locations are what they are without the second. -/
theorem location_of_le {offset : Nat} (ho : offset ≤ first.text.length) :
    whole.location offset = first.location offset := by
  rw [location_eq, location_eq, h, List.take_append_of_le_length ho]

theorem span_of_le {e : Extent} (hstart : e.start ≤ first.text.length)
    (hstop : e.stop ≤ first.text.length) : whole.span e = first.span e := by
  have hlast : (if e.start < e.stop then e.stop - 1 else e.start) ≤ first.text.length := by
    split <;> omega
  unfold span
  dsimp only
  rw [location_of_le h hstart, location_of_le h hlast]

/-- In the second part, locations are shifted by the first, if that is made of whole lines. -/
theorem location_add (hf : first.text = [] ∨ first.text.getLast? = some newline) (offset : Nat) :
    whole.location (offset + first.text.length) =
      (second.location offset).shift (first.text.count newline) first.text.length := by
  have htake : whole.text.take (offset + first.text.length) =
      first.text ++ second.text.take offset := by
    rw [h, Nat.add_comm, List.take_length_add_append]
  -- both the offset and the start of its line are further on
  have hcolumn : offset + first.text.length -
      (first.text.length + lastLineStart (second.text.take offset)) =
        offset - lastLineStart (second.text.take offset) := by omega
  rw [location_eq, location_eq, htake, List.count_append, lastLineStart_append hf, hcolumn]
  simp only [Location.shift, Location.mk.injEq, and_true, Nat.toUInt32_eq, UInt32.ofNat_add]
  rw [UInt32.add_comm (UInt32.ofNat (first.text.count newline)), UInt32.add_assoc,
    UInt32.add_comm (UInt32.ofNat (first.text.count newline)), ← UInt32.add_assoc]

theorem span_add (hf : first.text = [] ∨ first.text.getLast? = some newline) (e : Extent) :
    whole.span (e.shift first.text.length) =
      (second.span e).shift (first.text.count newline) first.text.length := by
  have hlength : (e.shift first.text.length).length = e.length := by
    simp only [Extent.length, Extent.shift]
    omega
  have hlast : (if (e.shift first.text.length).start < (e.shift first.text.length).stop
      then (e.shift first.text.length).stop - 1 else (e.shift first.text.length).start) =
        (if e.start < e.stop then e.stop - 1 else e.start) + first.text.length := by
    simp only [Extent.shift, Nat.add_lt_add_iff_right]
    by_cases hlt : e.start < e.stop
    · rw [if_pos hlt, if_pos hlt]
      omega
    · rw [if_neg hlt, if_neg hlt]
  unfold span
  dsimp only
  rw [hlast, hlength]
  simp only [Extent.shift, location_add h hf]
  rfl

end Source

end TemplateLexer
