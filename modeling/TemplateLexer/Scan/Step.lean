import TemplateLexer.Scan.State

/-!
# The scan loop

`step` does one move in the mode the scan is in, and `run` repeats it until the input is read.

The loop ends because every step lowers `State.measure`: it reads at least one byte, or it passes
from text to an open delimiter without reading (`measure_step_lt`). Reading the open delimiter
counts because no delimiter is empty.
-/

namespace TemplateLexer.Scan

open Bytes

/-- The byte that the text starts with in escaped form: a backslash and the first byte of the open
delimiter stand for that byte. -/
def escapedByte? (pair : Delimiters) : Bytes → Option UInt8
  | b :: c :: _ => if b = backslash ∧ pair.openMark.head? = some c then some c else none
  | _ => none

/-- One move in text. -/
def stepText (s : State) : State :=
  match escapedByte? s.pair s.rest with
  | some c => (s.buffer c).advance 2
  | none =>
    if s.pair.openMark.isPrefixOf s.rest then { s.flush s.pos with mode := .sniff }
    else
      match s.rest with
      | [] => s
      | b :: _ =>
        if b = newline then (s.advance 1).finishLine s.pos true
        else (s.buffer b).advance 1

/-- Reads the open delimiter and the sigil of a tag. -/
def stepSniff (withGettext : Bool) (s : State) : State :=
  let start := s.pos
  let s := { s with seenTag := true }.advance s.pair.openMark.length
  match s.rest.head?.bind (Kind.ofSigil withGettext) with
  | some .delimiterChange => { s.changeDelimiters start with mode := .text }
  | some kind => { s.advance 1 with mode := .body kind start }
  | none => { s with mode := .body .escaped start }

/-- One move in the body of a tag. -/
def stepBody (withGettext : Bool) (kind : Kind) (start : Nat) (s : State) : State :=
  if s.pair.closeMark.isPrefixOf s.rest then s.closeTag withGettext kind start
  else
    match s.rest with
    | [] => s
    | b :: _ => (s.buffer b).advance 1

/-- One move. -/
def step (withGettext : Bool) (s : State) : State :=
  match s.mode with
  | .text => stepText s
  | .sniff => stepSniff withGettext s
  | .body kind start => stepBody withGettext kind start s

/-! ## The loop ends -/

/-- Twice the number of unread bytes, and one more in text. -/
def State.measure (s : State) : Nat :=
  2 * s.rest.length + if s.mode = .text then 1 else 0

namespace State

@[simp] theorem note_rest (s : State) (n : Note) : (s.note n).rest = s.rest := rfl
@[simp] theorem note_mode (s : State) (n : Note) : (s.note n).mode = s.mode := rfl
@[simp] theorem note_pair (s : State) (n : Note) : (s.note n).pair = s.pair := rfl
@[simp] theorem report_rest (s : State) (f : Fault) : (s.report f).rest = s.rest := rfl
@[simp] theorem report_mode (s : State) (f : Fault) : (s.report f).mode = s.mode := rfl
@[simp] theorem advance_rest (s : State) (n : Nat) : (s.advance n).rest = s.rest.drop n := rfl
@[simp] theorem advance_mode (s : State) (n : Nat) : (s.advance n).mode = s.mode := rfl
@[simp] theorem advance_pair (s : State) (n : Nat) : (s.advance n).pair = s.pair := rfl

@[simp] theorem buffer_rest (s : State) (b : UInt8) : (s.buffer b).rest = s.rest := by
  unfold buffer; split <;> rfl

@[simp] theorem buffer_mode (s : State) (b : UInt8) : (s.buffer b).mode = s.mode := by
  unfold buffer; split <;> rfl

@[simp] theorem flush_rest (s : State) (stop : Nat) : (s.flush stop).rest = s.rest := by
  unfold flush; split <;> rfl

@[simp] theorem flush_mode (s : State) (stop : Nat) : (s.flush stop).mode = s.mode := by
  unfold flush; split <;> rfl

@[simp] theorem finishLine_rest (s : State) (stop : Nat) (newlineAtStop : Bool) :
    (s.finishLine stop newlineAtStop).rest = s.rest := by
  unfold finishLine
  dsimp only
  split <;> simp

@[simp] theorem finishLine_mode (s : State) (stop : Nat) (newlineAtStop : Bool) :
    (s.finishLine stop newlineAtStop).mode = s.mode := by
  unfold finishLine
  dsimp only
  split <;> simp

/-- A delimiter change reads some of a text that is not read to its end. -/
theorem length_changeDelimiters_le (s : State) (start : Nat) :
    (s.changeDelimiters start).rest.length ≤ s.rest.length := by
  unfold changeDelimiters
  dsimp only
  split
  · simp
  · split <;> simp

/-- The end of a tag reads at least its close delimiter. -/
theorem length_closeTag_lt (withGettext : Bool) (kind : Kind) (start : Nat) {s : State}
    (h : s.rest ≠ []) : (s.closeTag withGettext kind start).rest.length < s.rest.length := by
  have hr := List.length_pos_iff.mpr h
  have hc := s.pair.close_length_pos
  unfold closeTag
  dsimp only
  split
  · simp only [advance_rest, note_rest, List.length_drop, List.drop_drop]
    omega
  · simp only [advance_rest, note_rest, List.length_drop]
    omega

end State

/-- In text, a step reads a byte or moves to the open delimiter. -/
theorem measure_stepText_lt {s : State} (hm : s.mode = .text) (h : s.rest ≠ []) :
    (stepText s).measure < s.measure := by
  have hr := List.length_pos_iff.mpr h
  unfold stepText
  split
  · simp only [State.measure, State.advance_rest, State.buffer_rest, State.advance_mode,
      State.buffer_mode, List.length_drop, hm]
    omega
  · split
    · simp [State.measure, hm]
    · split
      · next he => exact absurd he h
      · next b rest he =>
        split
        · simp only [State.measure, State.finishLine_rest, State.finishLine_mode,
            State.advance_rest, State.advance_mode, List.length_drop, hm]
          omega
        · simp only [State.measure, State.advance_rest, State.buffer_rest, State.advance_mode,
            State.buffer_mode, List.length_drop, hm]
          omega

/-- At an open delimiter, a step reads it. -/
theorem measure_stepSniff_lt (withGettext : Bool) {s : State} (hm : s.mode = .sniff)
    (h : s.rest ≠ []) : (stepSniff withGettext s).measure < s.measure := by
  have hr := List.length_pos_iff.mpr h
  have ho := s.pair.open_length_pos
  have hs : s.measure = 2 * s.rest.length := by simp [State.measure, hm]
  rw [hs]
  unfold stepSniff
  dsimp only
  split
  · have hle := State.length_changeDelimiters_le
      ({ s with seenTag := true }.advance s.pair.openMark.length) s.pos
    simp only [State.advance_rest, List.length_drop] at hle
    simp only [State.measure, if_true]
    omega
  · simp only [State.measure, State.advance_rest, List.length_drop]
    simp
    omega
  · simp only [State.measure, State.advance_rest, List.length_drop]
    simp
    omega

/-- In the body of a tag, a step reads a byte or the close delimiter. -/
theorem measure_stepBody_lt (withGettext : Bool) {kind : Kind} {start : Nat} {s : State}
    (hm : s.mode = .body kind start) (h : s.rest ≠ []) :
    (stepBody withGettext kind start s).measure < s.measure := by
  have hr := List.length_pos_iff.mpr h
  have hs : s.measure = 2 * s.rest.length := by simp [State.measure, hm]
  rw [hs]
  unfold stepBody
  split
  · have hlt := State.length_closeTag_lt withGettext kind start h
    simp only [State.measure]
    split <;> omega
  · split
    · next he => exact absurd he h
    · simp only [State.measure, State.advance_rest, State.buffer_rest, State.advance_mode,
        State.buffer_mode, List.length_drop, hm]
      simp
      omega

/-- Every step before the end of the input lowers the measure. -/
theorem measure_step_lt (withGettext : Bool) {s : State} (h : s.rest ≠ []) :
    (step withGettext s).measure < s.measure := by
  unfold step
  split
  · next hm => exact measure_stepText_lt hm h
  · next hm => exact measure_stepSniff_lt withGettext hm h
  · next hm => exact measure_stepBody_lt withGettext hm h

/-- Steps until the input is read. -/
def run (withGettext : Bool) (s : State) : State :=
  if _h : s.rest = [] then s else run withGettext (step withGettext s)
termination_by s.measure
decreasing_by exact measure_step_lt withGettext _h

end TemplateLexer.Scan
