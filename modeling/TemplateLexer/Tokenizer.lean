import TemplateLexer.Scan.Outcome
import TemplateLexer.Settings.Basic

/-!
# Tokenizers

A tokenizer is made from settings and scans any number of sources, one after the other. It keeps the
state in which its last scan ended, so that the faults can be asked for; the tokens are handed out. The
next scan starts from that state and resets it first.
-/

namespace TemplateLexer

/-- Makes a state ready for a text: nothing of an earlier scan is left in force. -/
def Scan.State.reset (s : Scan.State) (text : Bytes) : Scan.State :=
  { s with
    rest := text
    pos := 0
    mode := .text
    pair := .standard
    pending := #[]
    pendingStart := 0
    settled := #[]
    line := #[]
    seenTag := false
    faults := #[]
    notes := #[] }

/-- Settings, and the state that the last scan left. -/
structure Tokenizer where
  settings : Settings
  state : Scan.State := { rest := [] }

namespace Tokenizer

/-- The faults of the last scan. -/
def faults (t : Tokenizer) : List Fault := t.state.faults.toList

/-- Scans a source: what the scan gives, and the tokenizer after it. -/
def scan (t : Tokenizer) (source : Source) (given : Option Bytes) : Outcome × Tokenizer :=
  let s := (t.state.reset source.text).override given
  let s := (Scan.run t.settings.gettext s).close
  (s.outcome source.name, { t with state := { s with settled := #[] } })

end Tokenizer

end TemplateLexer
