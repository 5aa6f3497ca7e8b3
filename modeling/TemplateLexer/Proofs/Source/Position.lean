import TemplateLexer.Proofs.Source.Lines

/-!
# Offsets by line and column

People are told an offset by its line and its column. Both are told here by the newlines in front of the
offset (`Locates`), and then used to find the way back.

* `locates_location`: the search in the line index gives this line and column, for all offsets;
* `before_location`: a later offset has a later place, as long as the words do not wrap around;
* `getElem?_line_location`: at its line and column a byte of the text is found again;
* `location_locates`: the three together.
-/

namespace TemplateLexer

open Bytes

/-- The location of an offset: one more than the newlines before it, and one more than the bytes since the
last of them. Words wrap around. -/
structure Locates (text : Bytes) (offset : Nat) (l : Location) : Prop where
  line : l.line.toNat = (1 + (text.take offset).count newline) % UInt32.size
  column : ∃ start, LineStart text offset start ∧
    l.column.toNat = (1 + (offset - start)) % UInt32.size
  offset : l.offset.toNat = offset % UInt32.size

/-- The order of lines, and of columns within a line. -/
def Location.Before (l l' : Location) : Prop :=
  l.line < l'.line ∨ l.line = l'.line ∧ l.column < l'.column

/-- Counting from 1 in a word. -/
theorem toNat_toUInt32_add_one (n : Nat) : (n.toUInt32 + 1).toNat = (1 + n) % UInt32.size := by
  have hone : (1 : UInt32).toNat = 1 := rfl
  rw [UInt32.toNat_add, hone, Nat.toUInt32_eq, UInt32.toNat_ofNat', Nat.mod_add_mod, Nat.add_comm]

/-- From one offset to a later one, either a newline comes between them or they stand in one line. -/
theorem count_lt_or_lastLineStart_eq (text : Bytes) {a b : Nat} (h : a ≤ b) :
    (text.take a).count newline < (text.take b).count newline ∨
      (text.take a).count newline = (text.take b).count newline ∧
        lastLineStart (text.take a) = lastLineStart (text.take b) := by
  obtain ⟨n, rfl⟩ := Nat.exists_eq_add_of_le h
  rw [List.take_add, List.count_append]
  by_cases hmem : newline ∈ (text.drop a).take n
  · left
    have hpos := List.count_pos_iff.mpr hmem
    omega
  · right
    rw [List.count_eq_zero.mpr hmem, Nat.add_zero, lastLineStart, lastLineStart,
      offsetsPastNewlines_append, offsetsPastNewlines_of_not_mem hmem, List.append_nil]
    exact ⟨rfl, rfl⟩

theorem count_newline_take_le (text : Bytes) (offset : Nat) :
    (text.take offset).count newline ≤ offset :=
  Nat.le_trans List.count_le_length (List.length_take_le _ _)

namespace Source

variable (s : Source)

theorem toNat_line_location (offset : Nat) :
    (s.location offset).line.toNat = (1 + (s.text.take offset).count newline) % UInt32.size := by
  rw [location_eq]
  exact toNat_toUInt32_add_one _

theorem toNat_column_location (offset : Nat) :
    (s.location offset).column.toNat =
      (1 + (offset - lastLineStart (s.text.take offset))) % UInt32.size := by
  rw [location_eq]
  exact toNat_toUInt32_add_one _

theorem locates_location (offset : Nat) : Locates s.text offset (s.location offset) where
  line := s.toNat_line_location offset
  column := ⟨_, lineStart_lastLineStart s.text offset, s.toNat_column_location offset⟩
  offset := by
    rw [location_eq]
    exact UInt32.toNat_ofNat'

/-- Words are large enough for the lines and columns of small offsets. -/
theorem toNat_location {offset : Nat} (h : offset < UInt32.size - 1) :
    (s.location offset).line.toNat = 1 + (s.text.take offset).count newline ∧
      (s.location offset).column.toNat = 1 + (offset - lastLineStart (s.text.take offset)) := by
  have hcount := count_newline_take_le s.text offset
  rw [toNat_line_location, toNat_column_location]
  exact ⟨Nat.mod_eq_of_lt (by omega), Nat.mod_eq_of_lt (by omega)⟩

theorem before_location {a b : Nat} (h : a < b) (hb : b < UInt32.size - 1) :
    (s.location a).Before (s.location b) := by
  rcases s.toNat_location (Nat.lt_trans h hb) with ⟨hline, hcolumn⟩
  rcases s.toNat_location hb with ⟨hline', hcolumn'⟩
  unfold Location.Before
  rw [UInt32.lt_iff_toNat_lt, UInt32.lt_iff_toNat_lt, ← UInt32.toNat_inj, hline, hcolumn, hline',
    hcolumn']
  rcases count_lt_or_lastLineStart_eq s.text (Nat.le_of_lt h) with hlt | ⟨hcount, hstart⟩
  · left
    omega
  · -- in one line the columns have one start
    right
    have hle := (lineStart_lastLineStart s.text a).le
    rw [← hcount, ← hstart]
    omega

theorem getElem?_line_location (h : s.text.length < UInt32.size) {offset : Nat} {b : UInt8}
    (hb : s.text[offset]? = some b) (hne : b ≠ newline)
    (hend : ¬ (b = carriageReturn ∧ s.text[offset + 1]? = some newline)) :
    (s.line (s.location offset).line)[(s.location offset).column.toNat - 1]? = some b := by
  have hlt : offset < s.text.length := (List.getElem?_eq_some_iff.mp hb).1
  rcases s.toNat_location (by omega : offset < UInt32.size - 1) with ⟨hline, hcolumn⟩
  have hnonzero : (s.location offset).line ≠ 0 := by
    rw [Ne, ← UInt32.toNat_inj, hline]
    exact Nat.ne_of_gt (Nat.lt_of_lt_of_le Nat.one_pos (Nat.le_add_right _ _))
  rw [s.line_eq, if_neg hnonzero, hline, hcolumn, Nat.add_sub_cancel_left, Nat.add_sub_cancel_left]
  exact getElem?_lineAt hb hne hend

/-- **Offsets by line and column.** For every offset, also one past the end, the location has the line and the
column of the offset in words of 32 bits. Below the last offset of a word, later offsets have later places;
and in a text of that size each byte that is no part of a line end is found at its line and column. -/
theorem location_locates (s : Source) :
    (∀ offset, Locates s.text offset (s.location offset)) ∧
      (∀ a b, a < b → b < UInt32.size - 1 → (s.location a).Before (s.location b)) ∧
      (s.text.length < UInt32.size → ∀ offset b, s.text[offset]? = some b → b ≠ newline →
        ¬ (b = carriageReturn ∧ s.text[offset + 1]? = some newline) →
          (s.line (s.location offset).line)[(s.location offset).column.toNat - 1]? = some b) := by
  refine ⟨s.locates_location, ?_, ?_⟩
  · intro a b h hb
    exact s.before_location h hb
  · intro h offset b hb hne hend
    exact s.getElem?_line_location h hb hne hend

/-- In the source with all kinds of line ends, the second carriage return of the third line is part of its
end, and the first one is the second byte of the line. Offsets past the end go on in the last line. -/
theorem location_locates_mixedEnds :
    mixedEnds.text.length < UInt32.size ∧ mixedEnds.text[5]? = some carriageReturn ∧
      mixedEnds.text[6]? ≠ some newline ∧ mixedEnds.text[7]? = some newline ∧
      (mixedEnds.line (mixedEnds.location 5).line)[(mixedEnds.location 5).column.toNat - 1]? =
        some carriageReturn ∧
      (mixedEnds.location 7).Before (mixedEnds.location 100) ∧
      Locates mixedEnds.text 100 (mixedEnds.location 100) := by
  have hlength : mixedEnds.text.length < UInt32.size := by decide
  have hreturn : mixedEnds.text[5]? = some carriageReturn := by decide
  have hnext : mixedEnds.text[6]? ≠ some newline := by decide
  rcases location_locates mixedEnds with ⟨hlocates, hbefore, hbyte⟩
  exact ⟨hlength, hreturn, hnext, by decide,
    hbyte hlength 5 carriageReturn hreturn (by decide) fun h => hnext h.2,
    hbefore 7 100 (by decide) (by decide), hlocates 100⟩

end Source

end TemplateLexer
