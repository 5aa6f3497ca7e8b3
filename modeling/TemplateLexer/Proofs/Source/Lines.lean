import TemplateLexer.Proofs.Bytes.Search
import TemplateLexer.Proofs.Source.Location

/-!
# The lines of a source

A text is a row of lines that end with a newline, and a last line that does not (`lines_induction`). The
index of a source cuts it there, one line after the other (`lineAt_succ`).

* `lineStart_lastLineStart`: where the line of an offset starts, told by the newlines around it
  (`LineStart`);
* `getElem?_lineAt`: a line has the bytes of the text, up to its line end;
* `lines_partition`: lines and line ends in turn are the text, where a carriage return in front of a
  newline belongs to the line end (`LineEnds`).
-/

namespace TemplateLexer

open Bytes

variable {text line rest : Bytes}

/-! ## Where lines start -/

/-- The line in which an offset stands starts at `start`: there the text starts or a newline is over, and no
newline comes from there up to the offset. -/
structure LineStart (text : Bytes) (offset start : Nat) : Prop where
  le : start ≤ offset
  fresh : start = 0 ∨ text[start - 1]? = some newline
  unbroken : ∀ i, start ≤ i → i < offset → text[i]? ≠ some newline

theorem lastLineStart_concat (text : Bytes) (b : UInt8) :
    lastLineStart (text ++ [b]) = if b = newline then text.length + 1 else lastLineStart text := by
  rw [lastLineStart, offsetsPastNewlines_append, Nat.zero_add, offsetsPastNewlines]
  split
  · rw [offsetsPastNewlines, List.getLastD_concat]
  · rw [offsetsPastNewlines, List.append_nil, lastLineStart]

/-- The line that is found for an offset starts where it should. -/
theorem lineStart_lastLineStart (text : Bytes) (offset : Nat) :
    LineStart text offset (lastLineStart (text.take offset)) := by
  induction offset with
  | zero => exact ⟨Nat.le_refl 0, .inl rfl, fun i _ hi => absurd hi (Nat.not_lt_zero i)⟩
  | succ n ih =>
    -- one byte more matters only if it is a newline
    have hkept : text[n]? ≠ some newline → LineStart text (n + 1) (lastLineStart (text.take n)) := by
      intro hn
      refine ⟨Nat.le_succ_of_le ih.le, ih.fresh, ?_⟩
      intro i hstart hi
      rcases Nat.lt_succ_iff_lt_or_eq.mp hi with hi | rfl
      · exact ih.unbroken i hstart hi
      · exact hn
    rw [List.take_add_one]
    cases hb : text[n]? with
    | none =>
      rw [Option.toList_none, List.append_nil]
      exact hkept (by rw [hb]; nofun)
    | some b =>
      rw [Option.toList_some, lastLineStart_concat]
      split
      · next hnewline =>
        have hlen : (text.take n).length = n :=
          List.length_take_of_le (Nat.le_of_lt (List.getElem?_eq_some_iff.mp hb).1)
        rw [hlen]
        exact ⟨Nat.le_refl _, .inr (by rw [Nat.add_sub_cancel, hb, hnewline]),
          fun i hstart hi => absurd hi (Nat.not_lt.mpr hstart)⟩
      · next hother => exact hkept (by rw [hb]; simpa using hother)

/-! ## One line after the other -/

/-- A text is a last line, or a line with its newline in front of a text. -/
theorem lines_induction {motive : Bytes → Prop} (last : ∀ line, newline ∉ line → motive line)
    (ended : ∀ line rest, newline ∉ line → motive rest → motive (line ++ newline :: rest))
    (text : Bytes) : motive text := by
  cases hcut : cutAt? [newline] text with
  | none => exact last text (cutAt?_singleton_eq_none_iff.mp hcut)
  | some parts =>
    have hshort : parts.2.length < text.length := length_after_lt (by simp) hcut
    rcases cutAt?_singleton_eq_some_iff.mp hcut with ⟨htext, hline⟩
    rw [htext]
    exact ended parts.1 parts.2 hline (lines_induction last ended parts.2)
termination_by text.length

theorem offsetsPastNewlines_of_not_mem (h : newline ∉ text) (pos : Nat) :
    offsetsPastNewlines pos text = [] := by
  rw [← List.length_eq_zero_iff, length_offsetsPastNewlines, List.count_eq_zero]
  exact h

theorem lastLineStart_of_not_mem (h : newline ∉ text) : lastLineStart text = 0 := by
  rw [lastLineStart, offsetsPastNewlines_of_not_mem h]
  rfl

theorem getElem?_lineIndex (text : Bytes) (k : Nat) :
    (lineIndex text)[k]? = (0 :: offsetsPastNewlines 0 text)[k]? := by
  rw [lineIndex, List.getElem?_toArray]

/-- Behind a first line the index goes on with that of the rest. -/
theorem getElem?_lineIndex_succ (h : newline ∉ line) (rest : Bytes) (k : Nat) :
    (lineIndex (line ++ newline :: rest))[k + 1]? =
      (lineIndex rest)[k]?.map (line.length + 1 + ·) := by
  have hfirst : offsetsPastNewlines 0 (line ++ newline :: rest) =
      (0 :: offsetsPastNewlines 0 rest).map (line.length + 1 + ·) := by
    rw [offsetsPastNewlines_append, offsetsPastNewlines_of_not_mem h, offsetsPastNewlines, if_pos rfl,
      List.map_cons, ← offsetsPastNewlines_add]
    simp
  rw [getElem?_lineIndex, getElem?_lineIndex, List.getElem?_cons_succ, hfirst, List.getElem?_map]

/-- The content of a line, counted from 0. -/
def lineAt (text : Bytes) (k : Nat) : Bytes :=
  (lineIndex text)[k]?.elim [] fun start =>
    (lineIndex text)[k + 1]?.elim (text.drop start) fun next =>
      Source.dropLineEnd ((text.drop start).take (next - start))

theorem Source.line_eq (s : Source) (number : UInt32) :
    s.line number = if number = 0 then [] else lineAt s.text (number.toNat - 1) := by
  unfold Source.line lineAt
  split
  · rfl
  · next hne =>
    have hpos : number.toNat - 1 + 1 = number.toNat := by
      have hzero : number.toNat ≠ 0 := fun h => hne (UInt32.toNat_inj.mp h)
      omega
    rw [s.lineStarts_eq, hpos]
    cases (lineIndex s.text)[number.toNat - 1]? with
    | none => rfl
    | some start => cases (lineIndex s.text)[number.toNat]? <;> rfl

theorem lineAt_zero_of_not_mem (h : newline ∉ text) : lineAt text 0 = text := by
  rw [lineAt, getElem?_lineIndex, getElem?_lineIndex, offsetsPastNewlines_of_not_mem h]
  rfl

theorem lineAt_succ_of_not_mem (h : newline ∉ text) (k : Nat) : lineAt text (k + 1) = [] := by
  rw [lineAt, getElem?_lineIndex, offsetsPastNewlines_of_not_mem h]
  rfl

theorem lineAt_zero (h : newline ∉ line) (rest : Bytes) :
    lineAt (line ++ newline :: rest) 0 = Source.dropLineEnd (line ++ [newline]) := by
  have hfirst : (line ++ newline :: rest).take (line.length + 1) = line ++ [newline] := by
    rw [List.take_length_add_append]
    rfl
  rw [lineAt, getElem?_lineIndex_succ h, getElem?_lineIndex, getElem?_lineIndex]
  exact congrArg Source.dropLineEnd hfirst

theorem lineAt_succ (h : newline ∉ line) (rest : Bytes) (k : Nat) :
    lineAt (line ++ newline :: rest) (k + 1) = lineAt rest k := by
  have hdrop : ∀ start, (line ++ newline :: rest).drop (line.length + 1 + start) = rest.drop start := by
    intro start
    rw [Nat.add_assoc, List.drop_length_add_append, Nat.add_comm, List.drop_succ_cons]
  rw [lineAt, lineAt, getElem?_lineIndex_succ h, getElem?_lineIndex_succ h]
  cases (lineIndex rest)[k]? with
  | none => rfl
  | some start =>
    cases (lineIndex rest)[k + 1]? with
    | none => exact hdrop start
    | some next =>
      simp only [Option.map_some, Option.elim_some]
      rw [hdrop, Nat.add_sub_add_left]

/-! ## Line ends -/

/-- The line at a place, counted from 0, has this line end: a carriage return in front of its newline belongs
to the end, if it stands in the line. -/
def LineEnds (text : Bytes) (k : Nat) (lineEnd : Bytes) : Prop :=
  ∃ start stop, LineStart text stop start ∧ text[stop]? = some newline ∧
    (text.take stop).count newline = k ∧
    lineEnd = if start < stop ∧ text[stop - 1]? = some carriageReturn then [carriageReturn, newline]
      else [newline]

/-- The end of a line whose bytes up to the newline are given. -/
def endOf (line : Bytes) : Bytes :=
  if line.getLast? = some carriageReturn then [carriageReturn, newline] else [newline]

theorem dropLineEnd_concat (line : Bytes) :
    Source.dropLineEnd (line ++ [newline]) =
      if line.getLast? = some carriageReturn then line.dropLast else line := by
  rcases List.eq_nil_or_concat line with rfl | ⟨init, b, rfl⟩
  · rfl
  · simp only [Source.dropLineEnd, List.concat_eq_append, List.reverse_append, List.reverse_cons,
      List.reverse_nil, List.nil_append, List.singleton_append, if_true, List.reverse_reverse,
      List.getLast?_concat, List.dropLast_concat, Option.some.injEq]

/-- Nothing is lost between a line and its end. -/
theorem dropLineEnd_append_endOf (line : Bytes) :
    Source.dropLineEnd (line ++ [newline]) ++ endOf line = line ++ [newline] := by
  rw [dropLineEnd_concat, endOf]
  split
  · next h =>
    rcases List.getLast?_eq_some_iff.mp h with ⟨init, rfl⟩
    rw [List.dropLast_concat, List.append_assoc]
    rfl
  · rfl

theorem lineEnds_zero (h : newline ∉ line) (rest : Bytes) :
    LineEnds (line ++ newline :: rest) 0 (endOf line) := by
  refine ⟨0, line.length, ⟨Nat.zero_le _, .inl rfl, ?_⟩, ?_, ?_, ?_⟩
  · intro i _ hi hnewline
    rw [List.getElem?_append_left hi] at hnewline
    exact h (List.mem_of_getElem? hnewline)
  · rw [List.getElem?_append_right (Nat.le_refl _), Nat.sub_self]
    rfl
  · rw [List.take_left, List.count_eq_zero]
    exact h
  · have hlast : (0 < line.length ∧ (line ++ newline :: rest)[line.length - 1]? = some carriageReturn) ↔
        line.getLast? = some carriageReturn := by
      cases line with
      | nil => simp
      | cons b tail =>
        rw [List.getLast?_eq_getElem?, List.getElem?_append_left (by simp)]
        simp
    rw [endOf]
    simp only [hlast]

/-- Places behind a first line and its newline. -/
theorem getElem?_line_append (line rest : Bytes) (i : Nat) :
    (line ++ newline :: rest)[line.length + 1 + i]? = rest[i]? := by
  rw [List.getElem?_append_right (by omega), Nat.add_assoc, Nat.add_sub_cancel_left, Nat.add_comm,
    List.getElem?_cons_succ]

theorem take_line_append (line rest : Bytes) (i : Nat) :
    (line ++ newline :: rest).take (line.length + 1 + i) = (line ++ [newline]) ++ rest.take i := by
  rw [Nat.add_assoc, List.take_length_add_append, Nat.add_comm, List.take_succ_cons,
    List.append_cons]

theorem LineStart.behind {offset start : Nat} (h : LineStart rest offset start) (line : Bytes) :
    LineStart (line ++ newline :: rest) (line.length + 1 + offset) (line.length + 1 + start) where
  le := Nat.add_le_add_left h.le _
  fresh := by
    right
    cases start with
    | zero => simp
    | succ n =>
      have hfresh : rest[n]? = some newline := h.fresh.resolve_left (Nat.succ_ne_zero n)
      rw [← Nat.add_assoc, Nat.add_sub_cancel, getElem?_line_append, hfresh]
  unbroken := by
    intro i hstart hi
    obtain ⟨j, rfl⟩ := Nat.exists_eq_add_of_le (Nat.le_trans (Nat.le_add_right _ start) hstart)
    rw [getElem?_line_append]
    exact h.unbroken j (by omega) (by omega)

theorem LineEnds.behind {k : Nat} {lineEnd : Bytes} (h : LineEnds rest k lineEnd)
    (hline : newline ∉ line) : LineEnds (line ++ newline :: rest) (k + 1) lineEnd := by
  rcases h with ⟨start, stop, hstart, hstop, hcount, rfl⟩
  refine ⟨line.length + 1 + start, line.length + 1 + stop, hstart.behind line, ?_, ?_, ?_⟩
  · rw [getElem?_line_append, hstop]
  · rw [take_line_append, List.count_append, List.count_append, List.count_eq_zero.mpr hline, hcount]
    simp [Nat.add_comm]
  · -- what stands in front of the newline is the same if it belongs to the line
    have hsame : (line.length + 1 + start < line.length + 1 + stop ∧
        (line ++ newline :: rest)[line.length + 1 + stop - 1]? = some carriageReturn) ↔
          start < stop ∧ rest[stop - 1]? = some carriageReturn := by
      rw [Nat.add_lt_add_iff_left, and_congr_right_iff]
      intro hlt
      have hshift : line.length + 1 + stop - 1 = line.length + 1 + (stop - 1) := by omega
      rw [hshift, getElem?_line_append]
    simp only [hsame]

/-! ## The bytes of a line -/

theorem getElem?_dropLineEnd {bytes : Bytes} {i : Nat} {b : UInt8} (hb : bytes[i]? = some b)
    (hend : ¬ (b = carriageReturn ∧ i + 1 = bytes.length)) :
    (Source.dropLineEnd (bytes ++ [newline]))[i]? = some b := by
  rw [dropLineEnd_concat]
  split
  · next hlast =>
    -- the byte is not the carriage return that is left out
    rcases List.getLast?_eq_some_iff.mp hlast with ⟨init, rfl⟩
    rw [List.dropLast_concat]
    by_cases hi : i < init.length
    · rwa [List.getElem?_append_left hi] at hb
    · rw [List.getElem?_append_right (Nat.not_lt.mp hi), List.getElem?_singleton] at hb
      rcases Option.ite_none_right_eq_some.mp hb with ⟨hzero, hbyte⟩
      have hlen : i + 1 = (init ++ [carriageReturn]).length := by
        rw [List.length_append, List.length_singleton]
        omega
      exact absurd ⟨(Option.some.inj hbyte).symm, hlen⟩ hend
  · exact hb

/-- A byte that is no part of a line end stands in the line of its offset, as far behind the start of the
line. -/
theorem getElem?_lineAt {offset : Nat} {b : UInt8} (hb : text[offset]? = some b) (hne : b ≠ newline)
    (hend : ¬ (b = carriageReturn ∧ text[offset + 1]? = some newline)) :
    (lineAt text ((text.take offset).count newline))[offset - lastLineStart (text.take offset)]? =
      some b := by
  induction text using lines_induction generalizing offset with
  | last line hline =>
    have htake : newline ∉ line.take offset := fun hmem => hline (List.mem_of_mem_take hmem)
    rw [List.count_eq_zero.mpr htake, lastLineStart_of_not_mem htake, lineAt_zero_of_not_mem hline]
    exact hb
  | ended line rest hline ih =>
    rcases Nat.lt_or_ge offset (line.length + 1) with hlt | hge
    · rcases Nat.lt_succ_iff_lt_or_eq.mp hlt with hin | rfl
      · have htake : newline ∉ line.take offset := fun hmem => hline (List.mem_of_mem_take hmem)
        rw [List.take_append_of_le_length (Nat.le_of_lt hin), List.count_eq_zero.mpr htake,
          lastLineStart_of_not_mem htake, lineAt_zero hline, Nat.sub_zero]
        rw [List.getElem?_append_left hin] at hb
        refine getElem?_dropLineEnd hb ?_
        rintro ⟨rfl, hlen⟩
        refine hend ⟨rfl, ?_⟩
        rw [hlen, List.getElem?_append_right (Nat.le_refl _), Nat.sub_self]
        rfl
      · -- the newline itself
        rw [List.getElem?_append_right (Nat.le_refl _), Nat.sub_self] at hb
        exact absurd (Option.some.inj hb).symm hne
    · obtain ⟨i, rfl⟩ := Nat.exists_eq_add_of_le hge
      have hstart : lastLineStart ((line ++ [newline]) ++ rest.take i) =
          line.length + 1 + lastLineStart (rest.take i) := by
        rw [lastLineStart_append (.inr List.getLast?_concat), List.length_append, List.length_singleton]
      have hcount : ((line ++ [newline]) ++ rest.take i).count newline =
          (rest.take i).count newline + 1 := by
        rw [List.count_append, List.count_append, List.count_eq_zero.mpr hline,
          List.count_singleton_self]
        omega
      rw [take_line_append, hstart, hcount, lineAt_succ hline, Nat.add_sub_add_left]
      rw [getElem?_line_append] at hb
      rw [Nat.add_assoc, getElem?_line_append] at hend
      exact ih hb hend

/-! ## Lines and line ends in turn -/

theorem newline_not_mem_dropLineEnd (h : newline ∉ line) :
    newline ∉ Source.dropLineEnd (line ++ [newline]) := by
  rw [dropLineEnd_concat]
  split
  · exact fun hmem => h (List.dropLast_subset line hmem)
  · exact h

theorem newline_not_mem_lineAt (text : Bytes) (k : Nat) : newline ∉ lineAt text k := by
  induction text using lines_induction generalizing k with
  | last line hline =>
    cases k with
    | zero => rwa [lineAt_zero_of_not_mem hline]
    | succ k =>
      rw [lineAt_succ_of_not_mem hline]
      exact List.not_mem_nil
  | ended line rest hline ih =>
    cases k with
    | zero =>
      rw [lineAt_zero hline]
      exact newline_not_mem_dropLineEnd hline
    | succ k =>
      rw [lineAt_succ hline]
      exact ih k

/-- There are no lines behind the last one. -/
theorem lineAt_eq_nil {k : Nat} (h : text.count newline < k) : lineAt text k = [] := by
  induction text using lines_induction generalizing k with
  | last line hline =>
    obtain ⟨k, rfl⟩ := Nat.exists_eq_add_of_lt h
    exact lineAt_succ_of_not_mem hline _
  | ended line rest hline ih =>
    rw [List.count_append, List.count_cons_self] at h
    obtain ⟨k, rfl⟩ := Nat.exists_eq_add_of_lt h
    rw [lineAt_succ hline]
    exact ih (by omega)

/-- A text is its lines, each with its line end behind it but the last one. -/
theorem exists_lineEnds (text : Bytes) :
    ∃ ends : Nat → Bytes,
      text = (List.range (text.count newline + 1)).flatMap (fun k => lineAt text k ++ ends k) ∧
      (∀ k < text.count newline, LineEnds text k (ends k)) ∧ ends (text.count newline) = [] := by
  induction text using lines_induction with
  | last line hline =>
    refine ⟨fun _ => [], ?_, ?_, rfl⟩
    · rw [List.count_eq_zero.mpr hline, List.range_one, List.flatMap_singleton,
        lineAt_zero_of_not_mem hline, List.append_nil]
    · rw [List.count_eq_zero.mpr hline]
      intro k hk
      cases hk
  | ended line rest hline ih =>
    rcases ih with ⟨ends, hrest, hends, hlast⟩
    have hcount : (line ++ newline :: rest).count newline = rest.count newline + 1 := by
      rw [List.count_append, List.count_eq_zero.mpr hline, List.count_cons_self, Nat.zero_add]
    -- the ends of the rest come behind the end of the first line
    refine ⟨fun | 0 => endOf line | k + 1 => ends k, ?_, ?_, ?_⟩
    · rw [hcount, List.range_succ_eq_map, List.flatMap_cons, List.flatMap_map, lineAt_zero hline,
        dropLineEnd_append_endOf]
      simp only [lineAt_succ hline]
      rw [← hrest, List.append_cons]
    · rw [hcount]
      intro k hk
      cases k with
      | zero => exact lineEnds_zero hline rest
      | succ k => exact (hends k (Nat.lt_of_succ_lt_succ hk)).behind hline
    · rw [hcount]
      exact hlast

theorem Source.line_succ (s : Source) {k : Nat} (h : k + 1 < UInt32.size) :
    s.line (k + 1).toUInt32 = lineAt s.text k := by
  have hnat : (k + 1).toUInt32.toNat = k + 1 := Nat.mod_eq_of_lt h
  have hne : (k + 1).toUInt32 ≠ 0 := by
    intro hzero
    rw [hzero] at hnat
    cases hnat
  rw [s.line_eq, if_neg hne, hnat, Nat.add_sub_cancel]

/-- **The lines of a source are a partition of it.** If lines can be counted in 32 bits, the text is its
lines in turn, each with its line end behind it but the last one, and there are no other lines. -/
theorem Source.lines_partition (s : Source) (h : s.text.count newline + 1 < UInt32.size) :
    s.lineCount.toNat = s.text.count newline + 1 ∧
      (∃ ends : Nat → Bytes,
        s.text = (List.range s.lineCount.toNat).flatMap
          (fun k => s.line (k + 1).toUInt32 ++ ends k) ∧
        (∀ k, k + 1 < s.lineCount.toNat → LineEnds s.text k (ends k)) ∧
        ends (s.lineCount.toNat - 1) = []) ∧
      (∀ number, newline ∉ s.line number) ∧
      (∀ number, number = 0 ∨ s.lineCount < number → s.line number = []) := by
  have hcount : s.lineCount.toNat = s.text.count newline + 1 := by
    rw [s.lineCount_toNat, Nat.add_comm]
    exact Nat.mod_eq_of_lt h
  rw [hcount]
  refine ⟨rfl, ?_, ?_, ?_⟩
  · rcases exists_lineEnds s.text with ⟨ends, htext, hends, hlast⟩
    refine ⟨ends, ?_, fun k hk => hends k (Nat.lt_of_succ_lt_succ hk), hlast⟩
    refine htext.trans (List.flatMap_congr ?_)
    intro k hk
    have hk' := List.mem_range.mp hk
    rw [s.line_succ (by omega)]
  · intro number
    rw [s.line_eq]
    split
    · exact List.not_mem_nil
    · exact newline_not_mem_lineAt _ _
  · intro number hnumber
    rw [s.line_eq]
    split
    · rfl
    · next hne =>
      have hlt := UInt32.lt_iff_toNat_lt.mp (hnumber.resolve_left hne)
      exact lineAt_eq_nil (by omega)

/-- A carriage return in front of a newline, an empty line, two carriage returns in front of a newline, and
one at the end of the text. -/
def mixedEnds : Source := Source.ofText (ascii "t") (ascii "a\r\n\nb\r\r\nc\r")

/-- Of carriage returns only the one right in front of a newline belongs to the line end. -/
theorem Source.lines_partition_mixedEnds :
    mixedEnds.text.count newline + 1 < UInt32.size ∧ mixedEnds.lineCount.toNat = 4 ∧
      (List.range 4).map (fun k => mixedEnds.line (k + 1).toUInt32) =
        [ascii "a", [], ascii "b\r", ascii "c\r"] ∧
      mixedEnds.line 5 = [] ∧
      ∃ ends : Nat → Bytes,
        mixedEnds.text = (List.range 4).flatMap (fun k => mixedEnds.line (k + 1).toUInt32 ++ ends k) ∧
        (∀ k, k + 1 < 4 → LineEnds mixedEnds.text k (ends k)) ∧ ends 3 = [] := by
  have hsize : mixedEnds.text.count newline + 1 < UInt32.size := by decide
  rcases mixedEnds.lines_partition hsize with ⟨hcount, hends, -, hnone⟩
  have hfour : mixedEnds.lineCount.toNat = 4 := hcount
  rw [hfour] at hends
  exact ⟨hsize, hfour, by decide, hnone 5 (.inr (by decide)), hends⟩

end TemplateLexer
