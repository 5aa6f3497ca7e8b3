import TemplateLexer.Scan.Line
import TemplateLexer.Scan.Note
import TemplateLexer.Scan.Tag

/-!
# The state of a scan

A scan is a machine with three modes: it reads text, stands at an open delimiter, or reads the body
of a tag. The state holds the unread text, the tokens of the finished lines, and the tokens of the
line being read, which a standalone line may still lose.

* `State.buffer`, `State.advance`, `State.flush` are the small moves;
* `State.finishLine` settles the line being read, at a newline or at the end of the input;
* `State.changeDelimiters` and `State.closeTag` end a delimiter change and a tag.
-/

namespace TemplateLexer.Scan

open Bytes

/-- What the scan is reading. -/
inductive Mode where
  /-- Plain text. -/
  | text
  /-- The scan stands at an open delimiter. -/
  | sniff
  /-- The body of a tag whose sigil selected `kind` and whose open delimiter stands at `start`. -/
  | body (kind : Kind) (start : Nat)
  deriving DecidableEq, Repr

/-- A scan in progress. -/
structure State where
  /-- The text not read yet. -/
  rest : Bytes
  /-- The offset of the text not read yet. -/
  pos : Nat := 0
  mode : Mode := .text
  /-- The delimiters in force. -/
  pair : Delimiters := .standard
  /-- The bytes of the text run or tag body being read. -/
  pending : Array UInt8 := #[]
  /-- The offset at which `pending` began. -/
  pendingStart : Nat := 0
  /-- The tokens of the finished lines. -/
  settled : Array Token := #[]
  /-- The tokens of the line being read. -/
  line : Array Token := #[]
  /-- Did a tag start on the line being read? -/
  seenTag : Bool := false
  faults : Array Fault := #[]
  notes : Array Note := #[]

namespace State

/-! ## Small moves -/

/-- Adds a note. -/
def note (s : State) (n : Note) : State := { s with notes := s.notes.push n }

/-- Records a fault, and notes it. -/
def report (s : State) (f : Fault) : State :=
  let s := s.note (.faultFound f)
  { s with faults := s.faults.push f }

/-- Skips `n` bytes, or what is left if that is less. -/
def advance (s : State) (n : Nat) : State :=
  { s with rest := s.rest.drop n, pos := s.pos + (s.rest.take n).length }

/-- Adds a byte to the run being read; a new run begins at the current offset. -/
def buffer (s : State) (b : UInt8) : State :=
  if s.pending.isEmpty then { s with pending := #[b], pendingStart := s.pos }
  else { s with pending := s.pending.push b }

/-- A text token under the delimiters in force. -/
def textToken (s : State) (text : Bytes) (extent : Extent) : Token :=
  { kind := .text
    name := text
    value := text
    openMark := s.pair.openMark
    closeMark := s.pair.closeMark
    index := extent.stop
    extent }

/-- Ends the text run being read, if there is one, at offset `stop`. -/
def flush (s : State) (stop : Nat) : State :=
  if s.pending.isEmpty then s
  else
    { s with
      line := s.line.push (s.textToken s.pending.toList ⟨s.pendingStart, stop⟩)
      pending := #[] }

/-! ## The end of a line -/

/-- Settles the line being read, which ends at offset `stop`, where a newline may stand. A
standalone line keeps only its tags and loses the newline; any other line is kept as it is, and the
newline is a text of its own. -/
def finishLine (s : State) (stop : Nat) (newlineAtStop : Bool) : State :=
  let s := s.flush stop
  let line := s.line.toList
  let s :=
    if s.seenTag && Line.isInvisible line then
      { s with settled := s.settled ++ Line.keepTags none line }.note
        (.lineDropped (Line.countTexts line))
    else
      let lineEnd :=
        if newlineAtStop then [s.textToken [newline] ⟨stop, stop + 1⟩] else []
      { s with settled := s.settled ++ (line ++ lineEnd) }
  { s with line := #[], seenTag := false }

/-! ## The end of a tag -/

/-- Reads a delimiter change whose open delimiter stands at `start`; the unread text starts with the
equals sign. A change that does not end takes the rest of the input. -/
def changeDelimiters (s : State) (start : Nat) : State :=
  let mark := s.pair.changeMark
  match cutAt? mark (s.rest.drop 1) with
  | none =>
    let s := s.report ⟨.unterminatedChange mark, ⟨start, s.pos + s.rest.length⟩⟩
    s.advance s.rest.length
  | some (spec, _) =>
    let width := 1 + spec.length + mark.length
    let s :=
      match Delimiters.parse spec with
      | .error e => s.report ⟨.invalidChange e, ⟨start, s.pos + width⟩⟩
      | .ok pair => { s with pair }.note (.delimitersChanged pair start)
    s.advance width

/-- Ends the tag being read; the unread text starts with the close delimiter. -/
def closeTag (withGettext : Bool) (kind : Kind) (start : Nat) (s : State) : State :=
  let t := Tag.token withGettext s.pair kind start s.pos s.pending.toList
  let s := (s.note (.tagRead t)).advance s.pair.closeMark.length
  let s := if Tag.absorbsBrace s.pair kind then s.advance 1 else s
  { s with
    line := s.line.push (Tag.finish s.pair kind s.pos t)
    pending := #[]
    mode := .text }

end State

end TemplateLexer.Scan
