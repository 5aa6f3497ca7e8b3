import TemplateLexer.Log.Config
import TemplateLexer.Settings.Basic

/-!
# Arguments of the scanning commands

The commands `scan` and `check` take one template and some options, in any order, with logging flags
anywhere between them. Reading goes from left to right, later settings replace earlier ones, and the
first argument that does not fit ends it.
-/

namespace TemplateLexer.Command

open Bytes

/-- What a scanning command is asked to do. -/
structure Arguments where
  /-- The path of the template. -/
  path : Bytes := []
  /-- Delimiters to start with. -/
  delimiters : Option Bytes := none
  options : OptionTable := .empty

/-- Why arguments are refused. -/
inductive ArgumentError where
  /-- An option is not of the form `key=value`. -/
  | malformedOption
  /-- A flag is not known. -/
  | unknownFlag (flag : Bytes)
  /-- There is a second template. -/
  | extraTemplate
  /-- There is no template. -/
  | noTemplate
  deriving DecidableEq, Repr

/-- The complaint about refused arguments of a command. -/
def ArgumentError.message (command : Bytes) : ArgumentError → Bytes
  | malformedOption => ascii "error: --option expects key=value\n"
  | unknownFlag flag => ascii "error: unknown option '" ++ flag ++ ascii "'\n"
  | extraTemplate => ascii "error: " ++ command ++ ascii " takes a single template file\n"
  | noTemplate =>
    ascii "Usage: hbs " ++ command
      ++ ascii " <file> [--delimiters=\"OPEN CLOSE\"] [--gettext] [--option key=value]\n"

namespace Arguments

/-- Sets the option of a text `key=value`, cut at its first equals sign. The key must not be
empty. -/
def addOption (a : Arguments) (pair : Bytes) : Except ArgumentError Arguments :=
  match cutAt? [equalsSign] pair with
  | some (b :: key, value) =>
    .ok { a with options := a.options.set (b :: key) (OptionValue.parse value) }
  | _ => .error .malformedOption

/-- Takes up an argument that is no option: it is the template, if that is not named yet. -/
def addTemplate (a : Arguments) (arg : Bytes) : Except ArgumentError Arguments :=
  if arg.head? = some hyphen then .error (.unknownFlag arg)
  else if a.path.isEmpty then .ok { a with path := arg }
  else .error .extraTemplate

/-- Takes up an argument that stands for itself. -/
def add (a : Arguments) (arg : Bytes) : Except ArgumentError Arguments :=
  if let some spec := afterStem? (ascii "--delimiters=") arg then
    .ok { a with delimiters := some spec }
  else if arg = ascii "--gettext" then
    .ok { a with options := a.options.set Settings.gettextKey (.bool true) }
  else if let some pair := afterStem? (ascii "--option=") arg then a.addOption pair
  else a.addTemplate arg

/-- The flag whose option is the next argument. -/
def optionFlag : Bytes := ascii "--option"

/-- Reads the remaining arguments on top of those read so far. Logging flags are passed over. -/
def readFrom (a : Arguments) : List Bytes → Except ArgumentError Arguments
  | [] => if a.path.isEmpty then .error .noTemplate else .ok a
  | [arg] =>
    if Log.isFlag arg then a.readFrom []
    else if arg = optionFlag then .error .malformedOption
    else do (← a.add arg).readFrom []
  | arg :: next :: rest =>
    if Log.isFlag arg then a.readFrom (next :: rest)
    else if arg = optionFlag then do (← a.addOption next).readFrom rest
    else do (← a.add arg).readFrom (next :: rest)

/-- Reads the arguments of a scanning command. -/
def parse (args : List Bytes) : Except ArgumentError Arguments := readFrom {} args

end Arguments

end TemplateLexer.Command
