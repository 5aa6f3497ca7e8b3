import TemplateLexer.Cursor
import TemplateLexer.Proofs.Scan.Progress

/-!
# A cursor along a scan

A scan gives up what it has read of its text, while a cursor keeps the text and counts. A cursor *stands
at* a state of a scan (`Cursor.StandsAt`) if what lies in front of it is what the state has left to read.
Then it sees what the state sees and moves as the state moves, as long as offsets are words of 64 bits.

* `StandsAt.atEnd_iff`, `StandsAt.startsWith_eq`, `StandsAt.escapedByte?_eq`, `StandsAt.sigil_eq`,
  `StandsAt.cutAt?_eq`: what the scan asks about its text can be asked the cursor;
* `StandsAt.seek`, `StandsAt.advance`: the moves;
* `StandsAt.step`, `exists_standsAt`: there is a cursor for every state of the loop.
-/

namespace TemplateLexer.Cursor

open Bytes Scan

/-- The cursor stands where the scan reads. -/
structure StandsAt (c : Cursor) (s : State) : Prop where
  short : c.text.length < UInt64.size
  inside : c.pos.toNat ≤ c.text.length
  pos : s.pos = c.pos.toNat
  rest : s.rest = c.text.drop c.pos.toNat

variable {c : Cursor} {s : State}

/-! ## Offsets as numbers -/

theorem toNat_size (h : c.text.length < UInt64.size) : c.size.toNat = c.text.length :=
  UInt64.toNat_ofNat_of_lt' h

theorem toNat_add_of_lt {a b : UInt64} (h : a.toNat + b.toNat < UInt64.size) :
    (a + b).toNat = a.toNat + b.toNat := by
  rw [UInt64.toNat_add]
  exact Nat.mod_eq_of_lt h

theorem StandsAt.length_rest (h : c.StandsAt s) : s.rest.length = c.text.length - c.pos.toNat := by
  rw [h.rest, List.length_drop]

/-- Only the place counts. -/
theorem StandsAt.of_place {t : State} (h : c.StandsAt s) (hpos : t.pos = s.pos)
    (hrest : t.rest = s.rest) : c.StandsAt t :=
  ⟨h.short, h.inside, hpos.trans h.pos, hrest.trans h.rest⟩

/-! ## What the cursor sees -/

theorem StandsAt.atEnd_iff (h : c.StandsAt s) : c.atEnd = true ↔ s.rest = [] := by
  rw [atEnd, decide_eq_true_iff, UInt64.le_iff_toNat_le, toNat_size h.short, h.rest,
    List.drop_eq_nil_iff]

theorem StandsAt.startsWith_eq (h : c.StandsAt s) (seq : Bytes) :
    c.startsWith seq = seq.isPrefixOf s.rest := by
  rw [startsWith, h.rest]

theorem StandsAt.peekAt_eq (h : c.StandsAt s) {n : UInt64}
    (hn : c.pos.toNat + n.toNat < UInt64.size) : c.peekAt n = s.rest.getD n.toNat 0 := by
  rw [peekAt, toNat_add_of_lt hn, h.rest, List.getD_eq_getElem?_getD, List.getD_eq_getElem?_getD,
    List.getElem?_drop]

theorem StandsAt.peek_eq (h : c.StandsAt s) : c.peek = s.rest.headD 0 := by
  have hlt := c.pos.toNat_lt_size
  rw [peek, h.peekAt_eq (by simpa using hlt)]
  cases s.rest <;> rfl

/-- Before the end of the text there is room for one more byte. -/
theorem StandsAt.lt_size (h : c.StandsAt s) (hne : s.rest ≠ []) : c.pos.toNat + 1 < UInt64.size := by
  have hlength := h.length_rest
  have hpos := List.length_pos_iff.mpr hne
  have hshort := h.short
  omega

/-- An escape is seen by looking at two bytes, if there are two. -/
theorem StandsAt.escapedByte?_eq (h : c.StandsAt s) (pair : Delimiters) :
    escapedByte? pair s.rest =
      if c.peek = backslash ∧ c.pos + 1 < c.size ∧ pair.openMark.head? = some (c.peekAt 1) then
        some (c.peekAt 1)
      else none := by
  have hlength := h.length_rest
  have hpeek := h.peek_eq
  rcases hrest : s.rest with _ | ⟨b, tail⟩
  · have hzero : c.peek ≠ backslash := by
      rw [hpeek, hrest]
      decide
    rw [if_neg fun hall => hzero hall.1]
    rfl
  · have hroom := h.lt_size (by simp [hrest])
    have hnext : c.peekAt 1 = tail.headD 0 := by
      have hsecond : c.peekAt 1 = s.rest.getD 1 0 := h.peekAt_eq (n := 1) hroom
      rw [hsecond, hrest]
      cases tail <;> rfl
    have hinside : c.pos + 1 < c.size ↔ tail ≠ [] := by
      rw [UInt64.lt_iff_toNat_lt, toNat_size h.short, toNat_add_of_lt hroom, ← List.length_pos_iff]
      rw [hrest, List.length_cons] at hlength
      show c.pos.toNat + 1 < _ ↔ _
      omega
    rw [hpeek, hrest, hnext]
    cases tail with
    | nil => simp [escapedByte?, hinside]
    | cons d more => simp [escapedByte?, hinside]

/-- A byte that is no sigil may stand for the end, so a sigil is seen by looking at one byte. -/
theorem StandsAt.sigil_eq (h : c.StandsAt s) (withGettext : Bool) :
    s.rest.head?.bind (Kind.ofSigil withGettext) = Kind.ofSigil withGettext c.peek := by
  have hzero : Kind.ofSigil withGettext 0 = none := by cases withGettext <;> rfl
  rw [h.peek_eq]
  cases s.rest with
  | nil => exact hzero.symm
  | cons b rest => rfl

/-- Inside the text, a slice is what its ends say. -/
theorem slice_eq {start stop : UInt64} (hshort : c.text.length < UInt64.size)
    (hle : start.toNat ≤ stop.toNat) (hstop : stop.toNat ≤ c.text.length) :
    c.slice start stop = (c.text.drop start.toNat).take (stop.toNat - start.toNat) := by
  have hsize := toNat_size hshort
  have hfirst : min start c.size = start := by
    rw [← UInt64.toNat_inj, UInt64.toNat_min, hsize]
    omega
  have hlast : max start (min stop c.size) = stop := by
    rw [← UInt64.toNat_inj, UInt64.toNat_max, UInt64.toNat_min, hsize]
    omega
  rw [slice, hfirst, hlast, UInt64.toNat_sub_of_le _ _ (UInt64.le_iff_toNat_le.mpr hle)]

/-- A mark cuts the text from an offset on where the cursor finds it. -/
theorem cutAt?_drop_eq {start : UInt64} (hshort : c.text.length < UInt64.size)
    (hstart : start.toNat ≤ c.text.length) (seq : Bytes) :
    cutAt? seq (c.text.drop start.toNat) =
      (c.find? seq start).map fun k => (c.slice start k, c.text.drop (k.toNat + seq.length)) := by
  have hinside : ¬ c.size < start := by
    rw [UInt64.lt_iff_toNat_lt, toNat_size hshort]
    omega
  rw [find?, if_neg hinside, cutAt?, Option.map_map]
  refine Option.map_congr ?_
  intro k hk
  rcases find?_eq_some hk with ⟨before, after, htext, rfl⟩
  have hlength := congrArg List.length htext
  simp only [List.length_append, List.length_drop] at hlength
  have hk64 : before.length.toUInt64.toNat = before.length :=
    UInt64.toNat_ofNat_of_lt' (by omega)
  have hsum : (start + before.length.toUInt64).toNat = start.toNat + before.length := by
    rw [toNat_add_of_lt (by omega), hk64]
  rw [Function.comp_apply, slice_eq hshort (by omega) (by omega), hsum, Nat.add_sub_cancel_left,
    List.drop_drop, Nat.add_assoc]

/-- What is left to read, from some bytes on, is cut by a mark where the cursor finds it. -/
theorem StandsAt.cutAt?_eq (h : c.StandsAt s) {n : UInt64} (hn : n.toNat ≤ s.rest.length)
    (seq : Bytes) :
    cutAt? seq (s.rest.drop n.toNat) =
      (c.find? seq (c.pos + n)).map fun k =>
        (c.slice (c.pos + n) k, c.text.drop (k.toNat + seq.length)) := by
  have hlength := h.length_rest
  have hinside := h.inside
  have hshort := h.short
  have hsum : (c.pos + n).toNat = c.pos.toNat + n.toNat := toNat_add_of_lt (by omega)
  rw [h.rest, List.drop_drop, ← hsum, cutAt?_drop_eq hshort (by omega)]

/-! ## How the cursor moves -/

/-- Going on to an offset, or to the end if that lies past it. -/
theorem StandsAt.seek (h : c.StandsAt s) {offset : UInt64} (hle : c.pos.toNat ≤ offset.toNat) :
    (c.seek offset).StandsAt (s.advance (offset.toNat - s.pos)) := by
  have hinside := h.inside
  have hpos : (c.seek offset).pos.toNat = min offset.toNat c.text.length := by
    rw [Cursor.seek, UInt64.toNat_min, toNat_size h.short]
  refine ⟨h.short, ?_, ?_, ?_⟩
  · rw [hpos]
    exact Nat.min_le_right _ _
  · rw [hpos, State.advance, h.pos, h.rest]
    dsimp only
    rw [List.length_take, List.length_drop]
    omega
  · show s.rest.drop _ = c.text.drop _
    rw [hpos, h.rest, h.pos, List.drop_drop]
    -- past the end nothing is left, however far it is
    rcases Nat.le_total offset.toNat c.text.length with hin | hout
    · rw [Nat.min_eq_left hin, Nat.add_sub_cancel' hle]
    · rw [Nat.min_eq_right hout, List.drop_length, List.drop_eq_nil_iff]
      omega

theorem StandsAt.advance (h : c.StandsAt s) {n : UInt64}
    (hn : c.pos.toNat + n.toNat < UInt64.size) : (c.advance n).StandsAt (s.advance n.toNat) := by
  have hsum := toNat_add_of_lt hn
  have hseek : (c.advance n).StandsAt (s.advance ((c.pos + n).toNat - s.pos)) := h.seek (by omega)
  rwa [hsum, h.pos, Nat.add_sub_cancel_left] at hseek

/-! ## The whole loop -/

/-- A step of the scan is a move of the cursor. -/
theorem StandsAt.step (h : c.StandsAt s) (withGettext : Bool) :
    ∃ n, (c.advance n).StandsAt (Scan.step withGettext s) := by
  rcases Outline.reads_step withGettext s with ⟨read, hrest, hpos⟩
  have hlength := h.length_rest
  have hinside := h.inside
  have hshort := h.short
  rw [hrest, List.length_append] at hlength
  have hn : read.length.toUInt64.toNat = read.length := UInt64.toNat_ofNat_of_lt' (by omega)
  refine ⟨read.length.toUInt64, (h.advance (by omega)).of_place ?_ ?_⟩
  · rw [hpos, State.advance, hn, hrest, List.take_left]
  · rw [State.advance_rest, hn, hrest, List.drop_left]

/-- **A cursor along the scan.** For every state of the scan of a text there is a cursor on the text that
stands there, if the length of the text is a word of 64 bits. -/
theorem exists_standsAt {withGettext : Bool} {text : Bytes} {given : Option Bytes}
    (hshort : text.length < UInt64.size) (h : Reachable withGettext text given s) :
    ∃ c : Cursor, c.text = text ∧ c.StandsAt s := by
  induction h with
  | start =>
    rcases Outline.start_place text given with ⟨-, hpos, hrest⟩
    exact ⟨{ text }, rfl, hshort, Nat.zero_le _, hpos, hrest⟩
  | @step s _ _ ih =>
    rcases ih with ⟨c, htext, hc⟩
    rcases hc.step withGettext with ⟨n, hn⟩
    exact ⟨c.advance n, htext, hn⟩

end TemplateLexer.Cursor
