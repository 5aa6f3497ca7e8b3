import TemplateLexer.Log.Config
import TemplateLexer.Log.Filter
import TemplateLexer.Log.Sink

/-!
# Loggers

A logger has a least level, a module filter and sinks. The least level is a quick test before the
filter: an entry passes if it passes both (`Logger.admits`). Setting the level, setting the filter
and configuring the logger each change the two together.
-/

namespace TemplateLexer.Log

open Bytes

/-- What is logged and where to. A new logger has no sinks. -/
structure Logger where
  /-- The least level that passes. -/
  level : Level := .info
  filter : Filter := {}
  sinks : List Sink := []
  deriving DecidableEq, Repr

namespace Logger

/-- Does the logger let entries of this level and module pass? -/
def admits (l : Logger) (level : Level) (module : Bytes) : Bool :=
  l.level ≤ level && l.filter.admits level module

/-- Sets the least level, which also becomes the default of the filter. -/
def setLevel (l : Logger) (level : Level) : Logger :=
  { l with level, filter := { l.filter with defaultLevel := level } }

/-- Sets the filter, and the least level to the lowest threshold of the filter. -/
def setFilter (l : Logger) (spec : Bytes) : Logger :=
  let filter := l.filter.parse spec
  { l with level := filter.minLevel, filter }

/-- The levels of a configuration. Without a filter, its level is the threshold of every module.
With a filter, its level lowers the default of the filter, which may be left from before. -/
def configure (l : Logger) (c : Config) : Logger :=
  if c.filter.isEmpty then
    { l with level := c.level, filter := { l.filter.parse [] with defaultLevel := c.level } }
  else
    let filter := l.filter.parse c.filter
    let filter :=
      if c.level < filter.defaultLevel then { filter with defaultLevel := c.level } else filter
    { l with level := filter.minLevel, filter }

end Logger

end TemplateLexer.Log
