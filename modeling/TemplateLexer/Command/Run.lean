import TemplateLexer.Command.Arguments
import TemplateLexer.Command.Help
import TemplateLexer.Source.Load
import TemplateLexer.Workspace.Scan

/-!
# Runs of the program

A run starts the logger from the logging flags and then does what its first argument asks for. Both
scanning commands read one template and complain about its faults; `scan` prints the tokens, one a
line, and `check` a summary. The exit code is 0 if all went well and 1 otherwise.

Everything a run does, it does to a workspace, so that a run is a function.
-/

namespace TemplateLexer.Command

open Bytes Log

/-! ## Output -/

/-- The line of a token: where it starts, and the token. -/
def tokenLine (source : Source) (t : Token) : Bytes :=
  let place := (source.span t.extent).first
  decimal place.line.toNat ++ ascii ":" ++ decimal place.column.toNat ++ ascii " " ++ t.format
    ++ [newline]

/-- The complaint about a fault. -/
def faultLine (source : Source) (f : Fault) : Bytes :=
  let place := (source.span f.extent).first
  source.name ++ ascii ":" ++ decimal place.line.toNat ++ ascii ":" ++ decimal place.column.toNat
    ++ ascii ": error[" ++ f.cause.code ++ ascii "]: " ++ f.cause.message ++ [newline]

/-- The summary of a check. -/
def checkLine (source : Source) (o : Outcome) : Bytes :=
  if o.faults.isEmpty then
    source.name ++ ascii ": ok (" ++ decimal o.tokens.length ++ ascii " tokens, "
      ++ decimal source.lineCount.toNat ++ ascii " lines)\n"
  else source.name ++ ascii ": " ++ decimal o.faults.length ++ ascii " error(s)\n"

/-! ## Scanning commands -/

/-- A scanning command. -/
inductive Verb where
  /-- Prints the tokens. -/
  | scan
  /-- Prints a summary. -/
  | check
  deriving DecidableEq, Repr

/-- The name of a scanning command. -/
def Verb.name : Verb → Bytes
  | scan => ascii "scan"
  | check => ascii "check"

/-- The scanning command of a name. -/
def Verb.parse? (name : Bytes) : Option Verb :=
  [Verb.scan, Verb.check].find? fun verb => verb.name = name

/-- An entry of the command line. -/
def entry (level : Level) (message : Bytes) : Entry := ⟨level, ascii "cli", message⟩

/-- A template that was read and scanned. -/
structure Scanned where
  source : Source
  outcome : Outcome

/-- Reads and scans the template of the arguments. Nothing comes of it if the file or the options
cannot be used; the logger is told why. -/
def scanFile (w : Workspace) (a : Arguments) : Option Scanned × Workspace :=
  match Source.load w.host.files a.path with
  | .error e => (none, w.tell (entry .error e.message))
  | .ok source =>
    match w.createSettings a.options with
    | (.error _, w) => (none, w)
    | (.ok settings, w) =>
      let (outcome, w) := w.scan settings source a.delimiters
      (some { source, outcome }, w)

/-- Reports a scanned template in the way of a command. -/
def reportScan (verb : Verb) (w : Workspace) (s : Scanned) : Workspace :=
  let tokens := s.outcome.tokens.flatMap (tokenLine s.source)
  let faults := s.outcome.faults.flatMap (faultLine s.source)
  match verb with
  | .scan =>
    ((w.print tokens).complain faults).tell
      (entry .info (ascii "Scanned " ++ decimal s.outcome.tokens.length ++ ascii " tokens from "
        ++ s.source.name))
  | .check => (w.complain faults).print (checkLine s.source s.outcome)

/-- Runs a scanning command. -/
def runVerb (verb : Verb) (w : Workspace) (a : Arguments) : Nat × Workspace :=
  match scanFile w a with
  | (none, w) => (1, w)
  | (some s, w) => (if s.outcome.faults.isEmpty then 0 else 1, reportScan verb w s)

/-! ## Runs -/

/-- The complaint about a command that is not known. -/
def unknownCommand (command : Bytes) : Bytes :=
  ascii "Unknown command: " ++ command ++ ascii "\nRun 'hbs --help' for usage.\n"

/-- Reads the arguments of a scanning command and runs it. -/
def runScanning (verb : Verb) (w : Workspace) (args : List Bytes) : Nat × Workspace :=
  match Arguments.parse args with
  | .error e => (1, w.complain (e.message verb.name))
  | .ok a =>
    let w := w.tell (entry .debug (ascii "Running " ++ verb.name ++ ascii " on " ++ a.path))
    let (code, w) := runVerb verb w a
    (code, w.flush)

/-- Does what the first argument asks for. -/
def dispatch (w : Workspace) : List Bytes → Nat × Workspace
  | [] => (0, w.print helpText)
  | command :: args =>
    if command = ascii "--help" ∨ command = ascii "-h" then (0, w.print helpText)
    else if command = ascii "--version" ∨ command = ascii "-V" then (0, w.print versionText)
    else
      match Verb.parse? command with
      | some verb => runScanning verb w args
      | none => (1, w.complain (unknownCommand command))

/-- An argument or variable as a process is handed it: as far as its first zero byte. -/
def untilZero (text : Bytes) : Bytes := text.takeWhile (· ≠ 0)

/-- A run of the program with the arguments after its name and the value of the logging variable:
the exit code and what is left behind. -/
def run (w : Workspace) (args : List Bytes) (environment : Option Bytes) : Nat × Workspace :=
  let args := args.map untilZero
  dispatch (w.start (Config.ofArguments args (environment.map untilZero))) args

end TemplateLexer.Command
