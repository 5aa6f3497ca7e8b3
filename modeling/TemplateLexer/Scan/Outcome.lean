import TemplateLexer.Scan.Step
import TemplateLexer.Source.Basic

/-!
# Scanning a source

`scan` reads a whole source: it picks the delimiters to start with, runs the scan loop, and settles
what the end of the input leaves open. The result depends on the text alone; the name of the source
is only mentioned in the last note.
-/

namespace TemplateLexer

open Bytes

/-- What a scan gives. -/
structure Outcome where
  tokens : List Token
  faults : List Fault
  /-- What the scan did, in order. -/
  notes : List Note

/-- The log entries of a scan, in order. -/
def Outcome.entries (o : Outcome) : List Log.Entry := o.notes.map Note.entry

namespace Scan

/-- Puts the delimiters given for a scan in force. A blank specification is none, and one that is not
two words is a fault of the empty extent. -/
def State.override (s : State) (given : Option Bytes) : State :=
  match given with
  | none => s
  | some spec =>
    if allBlank spec then s
    else
      match Delimiters.parse spec with
      | .error e => s.report ⟨.invalidOverride e, ⟨0, 0⟩⟩
      | .ok pair => { s with pair }.note (.delimitersGiven pair)

/-- The state a scan of a text starts in. Delimiters given for the scan replace the standard pair. -/
def State.start (text : Bytes) (given : Option Bytes) : State :=
  State.override { rest := text } given

/-- Settles the end of the input: a tag that is still open is a fault, and its body is dropped. -/
def State.close (s : State) : State :=
  let s :=
    match s.mode with
    | .text => s
    | .sniff =>
      { s.report ⟨.unterminatedTag s.pair.closeMark, ⟨s.pos, s.pos⟩⟩ with pending := #[] }
    | .body _ start =>
      { s.report ⟨.unterminatedTag s.pair.closeMark, ⟨start, s.pos⟩⟩ with pending := #[] }
  { s.finishLine s.pos false with mode := .text }

/-- The state at the end of the scan of a text. -/
def final (withGettext : Bool) (text : Bytes) (given : Option Bytes) : State :=
  (run withGettext (State.start text given)).close

/-- What a scan of a source of that name gives when it has ended in the state. -/
def State.outcome (s : State) (name : Bytes) : Outcome :=
  { tokens := s.settled.toList
    faults := s.faults.toList
    notes := s.notes.toList ++ [.scanned name s.settled.size s.faults.size] }

end Scan

/-- Scans a source, optionally with delimiters other than the standard pair. -/
def scan (withGettext : Bool) (source : Source) (given : Option Bytes) : Outcome :=
  (Scan.final withGettext source.text given).outcome source.name

end TemplateLexer
