import TemplateLexer.Bytes.Quoted
import TemplateLexer.Log.Entry

/-!
# Log records and their lines

A record is an entry with the time it was made. It is written on one line, either for people or as a
JSON object:

* `Record.text` gives `HH:MM:SS.mmm LEVEL [module] message`, optionally with the level in colour;
* `Record.json` gives an object with the members `ts`, `level`, `module` and `msg`.
-/

namespace TemplateLexer.Log

open Bytes

/-! ## Times -/

/-- A time of day. -/
structure TimeOfDay where
  hour : Nat
  minute : Nat
  second : Nat
  milli : Nat
  deriving DecidableEq, Repr

/-- A time of day as `HH:MM:SS.mmm`. -/
def TimeOfDay.render (t : TimeOfDay) : Bytes :=
  paddedDecimal 2 t.hour ++ ascii ":" ++ paddedDecimal 2 t.minute ++ ascii ":"
    ++ paddedDecimal 2 t.second ++ ascii "." ++ paddedDecimal 3 t.milli

/-- A point in time, by the clock on the wall and by the milliseconds since the epoch. -/
structure Moment where
  clock : TimeOfDay
  epochMillis : Int
  deriving DecidableEq, Repr

/-! ## Records -/

/-- How records are written. -/
inductive Format where
  | text
  | json
  deriving DecidableEq, Repr

/-- A log entry with the time it was made. -/
structure Record extends Entry where
  /-- Milliseconds since the epoch. -/
  timestamp : Int
  deriving DecidableEq, Repr

/-- The name of a level, filled up with spaces to the width of a column. -/
def Level.column (level : Level) : Bytes :=
  level.name ++ List.replicate (5 - level.name.length) space

/-- The terminal's colour sequence for a level; levels that are no severities have none. -/
def Level.color (level : Level) : Bytes :=
  let codes : List (Level × Bytes) :=
    [ (.trace, ascii "90"), (.debug, ascii "36"), (.info, ascii "32"), (.warn, ascii "33"),
      (.error, ascii "31"), (.fatal, ascii "1;31") ]
  match codes.lookup level with
  | some code => ascii "\x1b[" ++ code ++ ascii "m"
  | none => []

/-- The sequence that ends a colour. -/
def colorEnd : Bytes := ascii "\x1b[0m"

namespace Record

/-- The part of a text line after the level. -/
def tail (r : Record) : Bytes :=
  ascii " [" ++ r.module ++ ascii "] " ++ r.message ++ [newline]

/-- The record as a line of text. -/
def text (r : Record) (clock : TimeOfDay) : Bytes :=
  clock.render ++ ascii " " ++ r.level.column ++ r.tail

/-- The record as a line of text with the level in colour. -/
def coloredText (r : Record) (clock : TimeOfDay) : Bytes :=
  clock.render ++ ascii " " ++ r.level.color ++ r.level.column ++ colorEnd ++ r.tail

/-- The record as a JSON object on a line. -/
def json (r : Record) : Bytes :=
  ascii "\x7b\"ts\":" ++ signedDecimal r.timestamp
    ++ ascii ",\"level\":\"" ++ r.level.name
    ++ ascii "\",\"module\":\"" ++ escape r.module
    ++ ascii "\",\"msg\":\"" ++ escape r.message
    ++ ascii "\"\x7d\n"

/-- The record as a line in either format. -/
def render (r : Record) (format : Format) (clock : TimeOfDay) : Bytes :=
  match format with
  | .text => r.text clock
  | .json => r.json

end Record

end TemplateLexer.Log
