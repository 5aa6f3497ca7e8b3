import TemplateLexer.Bytes.Basic

/-!
# Files

The files that a run can see, by path, and the folders beside them. A path is read from a text as
far as its first zero byte; empty steps and steps to the same folder are left out, so `./page` and
`page` are one path. A text that ends in such a step, or in a step to the folder above, is no path of
a file and may name a folder. A text that is too long as a whole or in one of its steps names nothing.

A file can be written if it exists or if its folder does (`Files.writable?`). Writing never makes a
folder. For reading a folder can be opened as a file can, but there is nothing to read from it
(`Files.open?`).
-/

namespace TemplateLexer

open Bytes

/-- The path of a file. -/
structure Path where
  /-- Does the path start at the root, and not at the working folder? -/
  absolute : Bool
  /-- The names of the folders on the way. -/
  folder : List Bytes
  /-- The name of the file. -/
  file : Bytes
  deriving DecidableEq, Repr

namespace Path

/-- The slash between the steps of a path. -/
abbrev separator : UInt8 := 0x2F

/-- Is the step one that stays in the same folder? -/
def isIdle (step : Bytes) : Bool := step.isEmpty || step = ascii "."

/-- The most bytes that a text may have to name a path. Idle steps count. -/
def maxLength : Nat := 4095

/-- The most bytes that one step of a path may have. -/
def maxStepLength : Nat := 255

/-- Are the text and its steps short enough for a path? -/
def fits (text : Bytes) (steps : List Bytes) : Bool :=
  text.length ≤ maxLength && steps.all fun step => step.length ≤ maxStepLength

/-- The path that a text names. A text whose last step stays in its folder or leaves it names no
file, and neither does one that is too long. -/
def parse? (text : Bytes) : Option Path :=
  let text := text.takeWhile (· ≠ 0)
  let steps := text.splitOn separator
  let name := steps.getLast?.getD []
  if isIdle name || name = ascii ".." || !fits text steps then none
  else
    some
      { absolute := text.head? = some separator
        folder := steps.dropLast.filter fun step => !isIdle step
        file := name }

end Path

/-- A folder of the file system. -/
structure Folder where
  absolute : Bool
  steps : List Bytes
  deriving DecidableEq, Repr

namespace Folder

/-- The working folder. -/
def working : Folder := ⟨false, []⟩

/-- The folder that a text names, if there is one of these steps. -/
def parse? (text : Bytes) : Option Folder :=
  let text := text.takeWhile (· ≠ 0)
  let steps := text.splitOn Path.separator
  if text.isEmpty || !Path.fits text steps then none
  else
    some
      { absolute := text.head? = some Path.separator
        steps := steps.filter fun step => !Path.isIdle step }

/-- Is the folder the working folder, the root, or one that is reached from them by steps to the
folder above? Such folders are always there. -/
def isAbove (f : Folder) : Bool := f.steps.all fun step => step = ascii ".."

end Folder

namespace Path

/-- The folder that holds the file of a path. -/
def parent (p : Path) : Folder := ⟨p.absolute, p.folder⟩

/-- The folder that could stand in place of the file. -/
def asFolder (p : Path) : Folder := ⟨p.absolute, p.folder ++ [p.file]⟩

end Path

/-- The files and folders that a run can see. -/
structure Files where
  /-- The files with their contents. -/
  contents : List (Path × Bytes) := []
  /-- The folders in which files can be made. -/
  folders : List Folder := [.working]
  /-- Other folders that are there. -/
  lockedFolders : List Folder := []
  deriving DecidableEq, Repr

namespace Files

/-- The content of a file, if there is one. -/
def read? (fs : Files) (path : Path) : Option Bytes := fs.contents.lookup path

/-- Is the folder there? -/
def hasFolder (fs : Files) (folder : Folder) : Bool :=
  folder.isAbove || folder ∈ fs.folders || folder ∈ fs.lockedFolders

/-- Does the text name a folder that is there? -/
def namesFolder (fs : Files) (name : Bytes) : Bool := (Folder.parse? name).any fs.hasFolder

/-- Can the file be written? -/
def canWrite (fs : Files) (path : Path) : Bool :=
  (fs.read? path).isSome || (path.parent ∈ fs.folders && !fs.hasFolder path.asFolder)

/-- The path that a text names, if its file can be written. -/
def writable? (fs : Files) (name : Bytes) : Option Path := (Path.parse? name).filter fs.canWrite

/-- Gives a file its content, in place of any it had. -/
def write (fs : Files) (path : Path) (content : Bytes) : Files :=
  { fs with contents := (path, content) :: fs.contents.filter fun e => e.1 ≠ path }

/-- Gives the file that a text names its content, in place of any it had. Nothing happens if the file
cannot be written. -/
def save (fs : Files) (name content : Bytes) : Files :=
  match fs.writable? name with
  | some path => fs.write path content
  | none => fs

/-- The content of a file, if the text names one. -/
def load? (fs : Files) (name : Bytes) : Option Bytes := (Path.parse? name).bind fs.read?

/-- What is read from what a text names, if it can be opened: the content of a file, and nothing from
a folder. -/
def open? (fs : Files) (name : Bytes) : Option Bytes :=
  (fs.load? name).or (if fs.namesFolder name then some [] else none)

end Files

/-- A content with `data` put at an offset. It replaces what stood there, and zero bytes fill a gap
before it. -/
def overwrite (content : Bytes) (offset : Nat) (data : Bytes) : Bytes :=
  content.take offset ++ List.replicate (offset - content.length) 0 ++ data
    ++ content.drop (offset + data.length)

end TemplateLexer
