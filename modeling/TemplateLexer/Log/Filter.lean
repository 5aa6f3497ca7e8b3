import TemplateLexer.Log.Level

/-!
# Module filters

A filter gives every module a threshold: an entry passes if its level is at least the threshold of
its module. Modules that the filter does not name have the default threshold.

A filter is written as a list like `lexer=trace,cli=debug,*=warn`, in which a module without a level
means `trace` and `*=level` sets the default. Later entries of a list win over earlier ones.
-/

namespace TemplateLexer.Log

open Bytes

/-- Thresholds by module. -/
structure Filter where
  /-- The threshold of the modules without one of their own. -/
  defaultLevel : Level := .info
  /-- The modules with a threshold of their own, each named once. -/
  modules : List (Bytes × Level) := []
  deriving DecidableEq, Repr

namespace Filter

/-- Gives a module a threshold, in place of any it had. -/
def assign (f : Filter) (module : Bytes) (level : Level) : Filter :=
  { f with modules := f.modules.filter (fun e => e.1 ≠ module) ++ [(module, level)] }

/-- The name that stands for the default in a list. -/
def wildcard : Bytes := ascii "*"

/-- Takes up one entry of a list. An empty entry means nothing. -/
def takeEntry (f : Filter) (entry : Bytes) : Filter :=
  match cutAt? [equalsSign] entry with
  | some (module, level) =>
    if module = wildcard then { f with defaultLevel := .parse level }
    else f.assign module (.parse level)
  | none => if entry.isEmpty then f else f.assign entry .trace

/-- The entries of a list: the pieces between commas. -/
def entries (spec : Bytes) : List Bytes := spec.splitOn 0x2C

/-- Replaces the thresholds of the modules by those of a list. The default stays unless the list
sets it. -/
def parse (f : Filter) (spec : Bytes) : Filter :=
  (entries spec).foldl takeEntry { f with modules := [] }

/-- The threshold of a module. -/
def threshold (f : Filter) (module : Bytes) : Level :=
  (f.modules.lookup module).getD f.defaultLevel

/-- Does an entry of this level and module pass? -/
def admits (f : Filter) (level : Level) (module : Bytes) : Bool := f.threshold module ≤ level

/-- The lowest threshold of any module. -/
def minLevel (f : Filter) : Level :=
  f.modules.foldl (fun least e => least.lower e.2) f.defaultLevel

end Filter

end TemplateLexer.Log
