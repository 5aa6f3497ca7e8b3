import TemplateLexer.Host

/-!
# Sinks

A sink is where records go: the standard error stream, a log file, or a list of deliveries kept for
inspection. A log file collects what it is given and writes it out, in the order it came, when its
buffer is full, after a long line, when a record is at least an error, and when it is flushed or
closed. So two log files of one path keep the order of their own lines, but not of each other's.

Each sink changes only its own part of the host: the error stream, one file, or the deliveries.
-/

namespace TemplateLexer.Log

open Bytes

/-! ## Log files -/

/-- A log file that is open. -/
structure LogFile where
  path : Path
  format : Format
  /-- Is everything written at the end of the file, whoever wrote before? -/
  appends : Bool
  /-- Where the next byte goes if not at the end. -/
  position : Nat := 0
  /-- What is not written out yet. -/
  pending : Array UInt8 := #[]
  deriving DecidableEq, Repr

namespace LogFile

/-- A buffer of this size is full. -/
def capacity : Nat := 8191

/-- A line of this size is long: it is not kept back, nor is what came before it. -/
def longLine : Nat := 1024

/-- Opens a log file, if it can be written. A file that is not appended to starts empty. -/
def open? (fs : Files) (name : Bytes) (format : Format) (appends : Bool) :
    Option (LogFile × Files) :=
  (fs.writable? name).map fun path =>
    let content := if appends then (fs.read? path).getD [] else []
    ({ path, format, appends }, fs.write path content)

/-- Writes out what is pending. -/
def drain (f : LogFile) (fs : Files) : LogFile × Files :=
  if f.pending.isEmpty then (f, fs)
  else
    let data := f.pending.toList
    let content := (fs.read? f.path).getD []
    let offset := if f.appends then content.length else f.position
    ({ f with pending := #[], position := offset + data.length },
      fs.write f.path (overwrite content offset data))

/-- Takes a line, and writes everything out if the line is long or the buffer is full. -/
def put (f : LogFile) (line : Bytes) (fs : Files) : LogFile × Files :=
  let f := { f with pending := f.pending ++ line }
  if longLine ≤ line.length || capacity ≤ f.pending.size then f.drain fs else (f, fs)

end LogFile

/-! ## Sinks -/

/-- A destination for records. -/
inductive Sink where
  /-- The standard error stream. -/
  | console (colored : Bool) (format : Format)
  /-- A log file. -/
  | file (file : LogFile)
  /-- The list of deliveries, under a number. -/
  | capture (id : Nat)
  deriving DecidableEq, Repr

namespace Sink

/-- Gives a record to a sink. -/
def write (sink : Sink) (r : Record) (h : Host) : Sink × Host :=
  match sink with
  | console colored format =>
    let line :=
      if colored && format = .text then r.coloredText h.now.clock
      else r.render format h.now.clock
    (sink, h.complain line)
  | file f =>
    let (f, files) := f.put (r.render f.format h.now.clock) h.files
    let (f, files) := if Level.error ≤ r.level then f.drain files else (f, files)
    (file f, { h with files })
  | capture id => (sink, { h with captured := h.captured.push (.record id r.toEntry) })

/-- Makes a sink write out what it keeps back. -/
def flush (sink : Sink) (h : Host) : Sink × Host :=
  match sink with
  | console _ _ => (sink, h)
  | file f =>
    let (f, files) := f.drain h.files
    (file f, { h with files })
  | capture id => (sink, { h with captured := h.captured.push (.flush id) })

/-- Gives up a sink: a log file writes out what it keeps back. -/
def close (sink : Sink) (h : Host) : Host :=
  match sink with
  | console _ _ => h
  | file f => { h with files := (f.drain h.files).2 }
  | capture _ => h

end Sink

/-- Does the same to every sink in turn, each seeing what those before it did to the host. -/
def eachSink (act : Sink → Host → Sink × Host) : List Sink → Host → List Sink × Host
  | [], h => ([], h)
  | sink :: rest, h =>
    let (sink, h) := act sink h
    let (rest, h) := eachSink act rest h
    (sink :: rest, h)

end TemplateLexer.Log
