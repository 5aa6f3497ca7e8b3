import TemplateLexer.Files
import TemplateLexer.Log.Record

/-!
# The host

The host is what a run of the program can see and change outside itself: files, the two output
streams, and the deliveries that capture sinks keep for inspection. The time and the kind of
terminal are given.
-/

namespace TemplateLexer

/-- What a capture sink was given, with the number of the sink. -/
inductive Delivery where
  | record (sink : Nat) (entry : Log.Entry)
  | flush (sink : Nat)
  deriving DecidableEq, Repr

/-- What a run of the program can see and change outside itself. -/
structure Host where
  files : Files := {}
  /-- What was written to the standard output stream. -/
  stdout : Array UInt8 := #[]
  /-- What was written to the standard error stream. -/
  stderr : Array UInt8 := #[]
  /-- What the capture sinks were given, in order. -/
  captured : Array Delivery := #[]
  /-- The time. -/
  now : Log.Moment
  /-- Is the standard error stream a terminal that shows colours? -/
  terminal : Bool := false

/-- Writes to the standard output stream. -/
def Host.print (h : Host) (text : Bytes) : Host := { h with stdout := h.stdout ++ text }

/-- Writes to the standard error stream. -/
def Host.complain (h : Host) (text : Bytes) : Host := { h with stderr := h.stderr ++ text }

end TemplateLexer
