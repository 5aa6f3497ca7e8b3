import TemplateLexer.Log.Entry
import TemplateLexer.Scan.Fault
import TemplateLexer.Token.Basic

/-!
# Notes of a scan

A scan keeps an account of what it does, one note at a time. The notes do not depend on the logger;
`Note.entry` gives the log entry of a note, and the logger decides which entries it lets through.
-/

namespace TemplateLexer

open Bytes

/-- One thing that a scan did. -/
inductive Note where
  /-- The scan started with delimiters given to it. -/
  | delimitersGiven (pair : Delimiters)
  /-- A tag at offset `start` changed the delimiters. -/
  | delimitersChanged (pair : Delimiters) (start : Nat)
  /-- A fault was recorded. -/
  | faultFound (fault : Fault)
  /-- A tag was read; the token is shown before the brace of a raw interpolation is dropped. -/
  | tagRead (token : Token)
  /-- The texts of a standalone line were dropped. -/
  | lineDropped (texts : Nat)
  /-- The scan ended. -/
  | scanned (name : Bytes) (tokens faults : Nat)

namespace Note

/-- Tags and line decisions are traced; everything else is debugging output. -/
def level : Note → Log.Level
  | tagRead _ | lineDropped _ => .trace
  | _ => .debug

/-- The wording of a note. -/
def message : Note → Bytes
  | delimitersGiven pair => ascii "Scanning with delimiters " ++ pair.render
  | delimitersChanged pair start =>
    ascii "Delimiters changed to " ++ pair.render ++ ascii " at offset " ++ decimal start
  | faultFound fault =>
    fault.cause.code ++ ascii " at offset " ++ decimal fault.extent.start ++ ascii ": "
      ++ fault.cause.message
  | tagRead token => ascii "Tag " ++ token.format
  | lineDropped texts =>
    ascii "Standalone line, dropping " ++ decimal texts ++ ascii " text tokens"
  | scanned name tokens faults =>
    ascii "Scanned " ++ name ++ ascii ": " ++ decimal tokens ++ ascii " tokens, "
      ++ decimal faults ++ ascii " errors"

/-- The module that notes are logged under. -/
def module : Bytes := ascii "lexer"

/-- The log entry of a note. -/
def entry (note : Note) : Log.Entry := ⟨note.level, module, note.message⟩

end Note

end TemplateLexer
