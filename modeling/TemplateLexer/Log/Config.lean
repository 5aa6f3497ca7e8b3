import TemplateLexer.Log.Level
import TemplateLexer.Log.Record

/-!
# Logging flags

How a run logs is told by flags anywhere on the command line and, failing these, by an environment
variable. `Config.ofArguments` reads them:

* an explicit level, by `--log-level=` or by `-q` and `--quiet`, wins over verbosity, and the last
  one wins;
* verbosity is the largest count of `v` flags: one means `info`, two `debug`, more `trace`;
* the environment counts only where the flags give neither level, verbosity nor filter. With an
  equals sign or a comma it is a filter, else a level.
-/

namespace TemplateLexer.Log

open Bytes

/-- How a logger starts. -/
structure Config where
  level : Level := .info
  format : Format := .text
  /-- A module filter; empty for none. -/
  filter : Bytes := []
  /-- The path of a log file; empty for none. -/
  file : Bytes := []
  /-- Are records written to the standard error stream? -/
  console : Bool := true
  /-- May records on a terminal be coloured? -/
  colors : Bool := true
  deriving DecidableEq, Repr

/-- What one logging flag asks for. -/
inductive Flag where
  | level (level : Level)
  | filter (spec : Bytes)
  | file (path : Bytes)
  | format (format : Format)
  | verbosity (count : Nat)
  deriving DecidableEq, Repr

namespace Flag

/-- The format that a name stands for: anything but `json` means text. -/
def formatNamed (name : Bytes) : Format :=
  if name = ascii "json" ∨ name = ascii "JSON" then .json else .text

/-- The count of a flag that is a hyphen and a run of the letter `v`. It is a natural number: as no
argument of a process is as long as `2 ^ 31` bytes, a signed word of 32 bits holds it too. -/
def verbosity? (arg : Bytes) : Option Nat :=
  match arg with
  | b :: letters =>
    if b = hyphen && !letters.isEmpty && letters.all (· == 0x76) then some letters.length else none
  | [] => none

/-- The flag that an argument is, if it is a logging flag. -/
def parse? (arg : Bytes) : Option Flag :=
  if let some name := afterStem? (ascii "--log-level=") arg then some (level (.parse name))
  else if let some spec := afterStem? (ascii "--log-filter=") arg then some (filter spec)
  else if let some path := afterStem? (ascii "--log-file=") arg then some (file path)
  else if let some name := afterStem? (ascii "--log-format=") arg then
    some (format (formatNamed name))
  else if arg = ascii "-q" ∨ arg = ascii "--quiet" then some (level .error)
  else if arg = ascii "--verbose" then some (verbosity 1)
  else (verbosity? arg).map verbosity

end Flag

/-- How the logging flags with a value start. -/
def Flag.stems : List Bytes :=
  [ascii "--log-level=", ascii "--log-filter=", ascii "--log-file=", ascii "--log-format="]

/-- Is the argument a logging flag? This is asked by who passes over logging flags without reading
them. -/
def isFlag (arg : Bytes) : Bool :=
  Flag.stems.any (·.isPrefixOf arg) || arg = ascii "-q" || arg = ascii "--quiet"
    || arg = ascii "--verbose" || (Flag.verbosity? arg).isSome

/-- What the logging flags of a command line ask for together. -/
structure Flags where
  level : Option Level := none
  filter : Option Bytes := none
  file : Bytes := []
  format : Format := .text
  verbosity : Nat := 0
  deriving DecidableEq, Repr

namespace Flags

/-- Takes up one more flag. -/
def add (f : Flags) : Flag → Flags
  | .level level => { f with level := some level }
  | .filter spec => { f with filter := some spec }
  | .file path => { f with file := path }
  | .format format => { f with format }
  | .verbosity count => { f with verbosity := max f.verbosity count }

/-- The flags among the arguments, taken up from left to right. -/
def ofArguments (args : List Bytes) : Flags := (args.filterMap Flag.parse?).foldl add {}

/-- The level that a verbosity stands for. -/
def verbosityLevel (count : Nat) : Level :=
  if 3 ≤ count then .trace else if count = 2 then .debug else .info

end Flags

/-- The configuration that the flags leave when they give neither level, verbosity nor filter: the
environment may give a filter or a level. -/
def Config.withEnvironment (c : Config) (value : Bytes) : Config :=
  if value.isEmpty then c
  else if equalsSign ∈ value ∨ 0x2C ∈ value then { c with filter := value }
  else { c with level := .parse value }

/-- The configuration of a command line and the value of the environment variable, if it is set. -/
def Config.ofArguments (args : List Bytes) (environment : Option Bytes) : Config :=
  let flags := Flags.ofArguments args
  let c : Config :=
    { level := .warn, filter := flags.filter.getD [], file := flags.file, format := flags.format }
  match flags.level with
  | some level => { c with level }
  | none =>
    if 0 < flags.verbosity then { c with level := Flags.verbosityLevel flags.verbosity }
    else if flags.filter.isSome then c
    else c.withEnvironment (environment.getD [])

end TemplateLexer.Log
