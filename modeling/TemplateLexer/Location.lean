/-!
# Places in a template

An *extent* is a range of bytes, given by the offset it starts at and the offset just past it. A
*location* names an offset by line and column for people; it counts in 32-bit words, which wrap
around past their size. A *span* pairs the locations of the first and the last byte of an extent.
-/

namespace TemplateLexer

/-- The bytes from offset `start` up to, and without, offset `stop`. -/
structure Extent where
  start : Nat
  stop : Nat
  deriving DecidableEq, Repr, Inhabited

/-- The number of bytes of an extent. -/
def Extent.length (e : Extent) : Nat := e.stop - e.start

/-- A position in a template, as diagnostics show it. -/
structure Location where
  /-- The line, counted from 1. -/
  line : UInt32
  /-- The byte within the line, counted from 1. -/
  column : UInt32
  /-- The byte within the template, counted from 0. -/
  offset : UInt32
  /-- The number of bytes meant. -/
  length : UInt32
  deriving DecidableEq, Repr, Inhabited

/-- Where an extent starts and where its last byte stands. -/
structure Span where
  first : Location
  last : Location
  deriving DecidableEq, Repr, Inhabited

end TemplateLexer
