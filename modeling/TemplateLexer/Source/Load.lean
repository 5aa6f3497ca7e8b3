import TemplateLexer.Files
import TemplateLexer.Source.Basic

/-!
# Sources from files

A source can be read from a file; its name is then the text that named the file. Only the opening is
checked: a folder opens too, and its source is empty because nothing can be read.
-/

namespace TemplateLexer

open Bytes

/-- A file that cannot be opened. -/
structure LoadError where
  /-- The text that was to name it. -/
  name : Bytes
  deriving DecidableEq, Repr

/-- The wording of a file that cannot be opened. -/
def LoadError.message (e : LoadError) : Bytes := ascii "Failed to open file: " ++ e.name

/-- The source of a file, and an empty one of a folder. -/
def Source.load (fs : Files) (name : Bytes) : Except LoadError Source :=
  match fs.open? name with
  | some text => .ok (.ofText name text)
  | none => .error ⟨name⟩

end TemplateLexer
