import TemplateLexer.Bytes.Basic
import TemplateLexer.Location

/-!
# Sources

A source is a named template text together with the offsets at which its lines start. The index is
computed once, and the type says that it belongs to the text.

* `Source.location` and `Source.span` turn offsets into lines and columns by a binary search in the
  index;
* `Source.line` gives the content of a line without its line end;
* `Input` is what can be scanned: a bare text, a source, or a text whose provider has no name.
-/

namespace TemplateLexer

open Bytes

/-! ## The line index -/

/-- The offsets just past the newlines of a text that starts at offset `pos`. -/
def offsetsPastNewlines (pos : Nat) : Bytes → List Nat
  | [] => []
  | b :: rest =>
    if b = newline then (pos + 1) :: offsetsPastNewlines (pos + 1) rest
    else offsetsPastNewlines (pos + 1) rest

/-- The offset at which each line of a text starts. -/
def lineIndex (text : Bytes) : Array Nat := (0 :: offsetsPastNewlines 0 text).toArray

/-- How many entries of an ascending array are at most `x`, looked for between `lo` and `hi`: the
entries below `lo` are at most `x` and those from `hi` on are greater. -/
def countAtMost (xs : Array Nat) (x lo hi : Nat) (h : hi ≤ xs.size) : Nat :=
  if hl : lo < hi then
    let mid := (lo + hi) / 2
    if xs[mid] ≤ x then countAtMost xs x (mid + 1) hi h
    else countAtMost xs x lo mid (by omega)
  else lo
termination_by hi - lo

/-! ## Sources -/

/-- A named template text with the index of its lines. -/
structure Source where
  /-- The name that messages show. -/
  name : Bytes
  /-- The template text. -/
  text : Bytes
  /-- The offset at which each line starts. -/
  lineStarts : Array Nat
  lineStarts_eq : lineStarts = lineIndex text

namespace Source

/-- The source of a name and a text. -/
def ofText (name text : Bytes) : Source := ⟨name, text, lineIndex text, rfl⟩

/-- The number of bytes. -/
def length (s : Source) : Nat := s.text.length

/-- The byte at an offset, and the zero byte past the end. -/
def byteAt (s : Source) (offset : Nat) : UInt8 := s.text.getD offset 0

/-- The bytes from `start` up to `stop`, both kept inside the text. A `stop` before `start` sets no
end: the text from `start` on is meant. -/
def slice (s : Source) (start stop : Nat) : Bytes :=
  let stop := min stop s.length
  if stop < start then s.text.drop start else (s.text.drop start).take (stop - start)

/-- The index of the line that holds an offset: the last line that starts at or before it. -/
def lineIndexAt (s : Source) (offset : Nat) : Nat :=
  countAtMost s.lineStarts offset 0 s.lineStarts.size (Nat.le_refl _) - 1

/-- The location of an offset, also of one past the end. -/
def location (s : Source) (offset : Nat) : Location :=
  let index := s.lineIndexAt offset
  { line := index.toUInt32 + 1
    column := (offset - s.lineStarts.getD index 0).toUInt32 + 1
    offset := offset.toUInt32
    length := 1 }

/-- The span of an extent. An empty extent starts and ends at the same location and has
length 0. -/
def span (s : Source) (e : Extent) : Span :=
  let length := e.length.toUInt32
  let last := if e.start < e.stop then e.stop - 1 else e.start
  { first := { s.location e.start with length }
    last := { s.location last with length } }

/-- The number of lines: one more than the number of newlines. -/
def lineCount (s : Source) : UInt32 := s.lineStarts.size.toUInt32

/-- A line without its end, which is a newline or a carriage return and a newline. -/
def dropLineEnd (line : Bytes) : Bytes :=
  match line.reverse with
  | b :: c :: rest =>
    if b = newline then
      if c = carriageReturn then rest.reverse else (c :: rest).reverse
    else line
  | [b] => if b = newline then [] else line
  | [] => []

/-- The content of a line, counted from 1, without its line end; empty where there is no such
line. -/
def line (s : Source) (number : UInt32) : Bytes :=
  if number = 0 then []
  else
    match s.lineStarts[number.toNat - 1]?, s.lineStarts[number.toNat]? with
    | none, _ => []
    | some start, none => s.text.drop start
    | some start, some next => dropLineEnd ((s.text.drop start).take (next - start))

end Source

/-! ## Inputs -/

/-- What can be scanned. -/
inductive Input where
  /-- A bare text. -/
  | text (content : Bytes)
  /-- A source with its own name. -/
  | source (s : Source)
  /-- The text of a provider that has no name of its own. -/
  | provider (content : Bytes)

/-- The source that an input stands for. -/
def Input.resolve : Input → Source
  | .text content => Source.ofText (ascii "<input>") content
  | .source s => s
  | .provider content => Source.ofText (ascii "<provider>") content

end TemplateLexer
