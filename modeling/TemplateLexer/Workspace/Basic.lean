import TemplateLexer.Log.Logger

/-!
# Workspaces

A workspace is a logger with the host that its sinks write to. The operations on it are those of a
running program: starting the logger from a configuration, changing level and filter, adding and
removing sinks, and logging. `Workspace.log` gives an entry to all sinks; `Workspace.tell` does so
only if the logger lets it pass.
-/

namespace TemplateLexer

open Bytes Log

/-- A logger and the host that its sinks write to. -/
structure Workspace where
  logger : Logger := {}
  host : Host

namespace Workspace

/-- Adds a sink after those there are. -/
def addSink (w : Workspace) (sink : Sink) : Workspace :=
  { w with logger := { w.logger with sinks := w.logger.sinks ++ [sink] } }

/-- Gives up all sinks. -/
def clearSinks (w : Workspace) : Workspace :=
  { logger := { w.logger with sinks := [] }
    host := w.logger.sinks.foldl (fun h sink => sink.close h) w.host }

/-- Opens a log file and adds it as a sink, if it can be written. -/
def addLogFile? (w : Workspace) (name : Bytes) (format : Format) (appends : Bool) :
    Option Workspace :=
  (LogFile.open? w.host.files name format appends).map fun opened =>
    { w with host := { w.host with files := opened.2 } }.addSink (.file opened.1)

/-- The complaint about a log file that cannot be written. -/
def noLogFile (name : Bytes) : Bytes :=
  ascii "warning: could not open log file: " ++ name ++ [newline]

/-- Adds the log file of a configuration, or complains. An empty name means none. -/
def addConfiguredFile (w : Workspace) (c : Config) : Workspace :=
  if c.file.isEmpty then w
  else
    match w.addLogFile? c.file c.format true with
    | some w => w
    | none => { w with host := w.host.complain (noLogFile c.file) }

/-- Starts the logger from a configuration: its sinks are replaced, and its levels are set. -/
def start (w : Workspace) (c : Config) : Workspace :=
  let w := w.clearSinks
  let w := { w with logger := w.logger.configure c }
  let w :=
    if c.console then w.addSink (.console (c.colors && w.host.terminal) c.format) else w
  w.addConfiguredFile c

/-- Sets the least level. -/
def setLevel (w : Workspace) (level : Level) : Workspace :=
  { w with logger := w.logger.setLevel level }

/-- Sets the filter. -/
def setFilter (w : Workspace) (spec : Bytes) : Workspace :=
  { w with logger := w.logger.setFilter spec }

/-- Gives an entry to every sink. -/
def log (w : Workspace) (e : Entry) : Workspace :=
  let r : Record := { e with timestamp := w.host.now.epochMillis }
  let (sinks, host) := eachSink (fun sink h => sink.write r h) w.logger.sinks w.host
  { logger := { w.logger with sinks }, host }

/-- Gives an entry to every sink if the logger lets it pass. -/
def tell (w : Workspace) (e : Entry) : Workspace :=
  if w.logger.admits e.level e.module then w.log e else w

/-- Tells the entries one after the other. -/
def tellAll (w : Workspace) (entries : List Entry) : Workspace := entries.foldl tell w

/-- Makes every sink write out what it keeps back. -/
def flush (w : Workspace) : Workspace :=
  let (sinks, host) := eachSink Sink.flush w.logger.sinks w.host
  { logger := { w.logger with sinks }, host }

/-- Writes to the standard output stream. -/
def print (w : Workspace) (text : Bytes) : Workspace := { w with host := w.host.print text }

/-- Writes to the standard error stream. -/
def complain (w : Workspace) (text : Bytes) : Workspace := { w with host := w.host.complain text }

end Workspace

end TemplateLexer
