import TemplateLexer.Tokenizer
import TemplateLexer.Workspace.Basic

/-!
# Scanning in a workspace

Reading settings and scanning have something to say. Here what they say is told to the logger of a
workspace, entry by entry, while their results do not depend on it. A history is a list of
operations (`Operation`) done one after the other (`Workspace.performAll`).
-/

namespace TemplateLexer.Workspace

open Log

/-- Reads settings from options, telling the warnings. -/
def readSettings (w : Workspace) (options : OptionTable) :
    Except SettingsError Settings × Workspace :=
  let reading := Settings.read options
  (reading.result, w.tellAll reading.warnings)

/-- Sets up a tokenizer from options, telling the warnings and a refusal. -/
def createSettings (w : Workspace) (options : OptionTable) :
    Except SettingsError Settings × Workspace :=
  let reading := Settings.read options
  (reading.result, w.tellAll reading.entries)

/-- Scans a source with a tokenizer, telling the notes of the scan. -/
def scanWith (w : Workspace) (t : Tokenizer) (source : Source) (given : Option Bytes) :
    Outcome × Tokenizer × Workspace :=
  let (outcome, t) := t.scan source given
  (outcome, t, w.tellAll outcome.entries)

/-- Scans a source with a new tokenizer, telling the notes of the scan. -/
def scan (w : Workspace) (settings : Settings) (source : Source) (given : Option Bytes) :
    Outcome × Workspace :=
  let (outcome, _, w) := w.scanWith { settings } source given
  (outcome, w)

/-! ## Histories -/

/-- What can be done to a workspace. -/
inductive Operation where
  | start (config : Config)
  | setLevel (level : Level)
  | setFilter (spec : Bytes)
  | addSink (sink : Sink)
  | clearSinks
  | log (entry : Entry)
  | tell (entry : Entry)
  | flush
  | scan (t : Tokenizer) (source : Source) (given : Option Bytes)

/-- Does one thing. -/
def perform (w : Workspace) : Operation → Workspace
  | .start config => w.start config
  | .setLevel level => w.setLevel level
  | .setFilter spec => w.setFilter spec
  | .addSink sink => w.addSink sink
  | .clearSinks => w.clearSinks
  | .log entry => w.log entry
  | .tell entry => w.tell entry
  | .flush => w.flush
  | .scan t source given => (w.scanWith t source given).2.2

/-- Does one thing after the other. -/
def performAll (w : Workspace) (operations : List Operation) : Workspace :=
  operations.foldl perform w

end TemplateLexer.Workspace
