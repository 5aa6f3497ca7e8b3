import TemplateLexer.Log.Level

/-!
# Log entries

An entry is what a part of the program wants to say: how severe it is, which module says it, and
the message. Whether it reaches a sink is up to the logger.
-/

namespace TemplateLexer.Log

open Bytes

/-- A message with its severity and the module it comes from. -/
structure Entry where
  level : Level
  module : Bytes
  message : Bytes
  deriving DecidableEq, Repr

end TemplateLexer.Log
