import TemplateLexer.Log.Entry
import TemplateLexer.Settings.Table

/-!
# Settings of a tokenizer

The only setting is whether the gettext extension is on. It is read from a table of options: the key
`enable_gettext` must have a truth value, and every other key is ignored with a warning.

Keys are looked at in ascending order, and a refused value ends the reading, so only the unknown
keys before it are warned about.
-/

namespace TemplateLexer

open Bytes

/-- How templates are read. -/
structure Settings where
  /-- Are the gettext sigil and the `ngettext` keyword known? -/
  gettext : Bool := false
  deriving DecidableEq, Repr

/-- An option with a value of the wrong type. -/
structure SettingsError where
  /-- The key of the option. -/
  option : Bytes
  /-- The value it had. -/
  found : OptionValue
  deriving DecidableEq

/-- The wording of a refused option. -/
def SettingsError.message (e : SettingsError) : Bytes :=
  ascii "option \"" ++ e.option ++ ascii "\" must be a boolean, got " ++ e.found.typeName

namespace Settings

/-- The key of the gettext extension. -/
def gettextKey : Bytes := ascii "enable_gettext"

/-- The module that option messages are logged under. -/
def module : Bytes := ascii "options"

/-- The warning about a key that is not known. -/
def unknownOption (key : Bytes) : Log.Entry :=
  ⟨.warn, module, ascii "Ignoring unknown tokenizer option '" ++ key ++ ascii "'"⟩

/-- What reading a table of options gives: the warnings in order, and the settings or the option
that was refused. -/
structure Reading where
  warnings : List Log.Entry
  result : Except SettingsError Settings

/-- Reads the remaining options on top of the settings found so far. -/
def readEntries (s : Settings) : List (Bytes × OptionValue) → Reading
  | [] => { warnings := [], result := .ok s }
  | (key, value) :: rest =>
    if key = gettextKey then
      match value with
      | .bool on => readEntries { s with gettext := on } rest
      | other => { warnings := [], result := .error ⟨key, other⟩ }
    else
      let r := readEntries s rest
      { r with warnings := unknownOption key :: r.warnings }

/-- Reads settings from a table of options. -/
def read (options : OptionTable) : Reading := readEntries {} options.entries

/-- The entry for a refused option. -/
def refusal (e : SettingsError) : Log.Entry := ⟨.error, module, e.message⟩

/-- Everything that setting up a tokenizer from options has to say: the warnings, and the refusal if
there is one. -/
def Reading.entries (r : Reading) : List Log.Entry :=
  match r.result with
  | .ok _ => r.warnings
  | .error e => r.warnings ++ [refusal e]

end Settings

end TemplateLexer
