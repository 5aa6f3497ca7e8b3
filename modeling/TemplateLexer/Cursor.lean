import TemplateLexer.Bytes.Basic

/-!
# Cursors

A cursor is a read position in a text, for hosts that walk a template by hand. Positions and
counts are 64-bit words and their sums wrap around; every move ends inside the text or at its end.
-/

namespace TemplateLexer

open Bytes

/-- A text and a position in it. -/
structure Cursor where
  text : Bytes
  pos : UInt64 := 0

namespace Cursor

/-- The number of bytes of the text. -/
def size (c : Cursor) : UInt64 := c.text.length.toUInt64

/-- Is there nothing left to read? -/
def atEnd (c : Cursor) : Bool := c.size ≤ c.pos

/-- The byte `n` positions ahead, and the zero byte past the end. -/
def peekAt (c : Cursor) (n : UInt64) : UInt8 := c.text.getD (c.pos + n).toNat 0

/-- The byte at the cursor, and the zero byte at the end. -/
def peek (c : Cursor) : UInt8 := c.peekAt 0

/-- Does the text at the cursor start with `seq`? -/
def startsWith (c : Cursor) (seq : Bytes) : Bool :=
  seq.isPrefixOf (c.text.drop c.pos.toNat)

/-- Moves to an offset, or to the end if the offset lies past it. -/
def seek (c : Cursor) (offset : UInt64) : Cursor := { c with pos := min offset c.size }

/-- Moves `n` bytes on, or to the end if fewer are left. -/
def advance (c : Cursor) (n : UInt64) : Cursor := c.seek (c.pos + n)

/-- The offset of the first occurrence of `seq` at or after an offset. -/
def find? (c : Cursor) (seq : Bytes) (start : UInt64) : Option UInt64 :=
  if c.size < start then none
  else (Bytes.find? seq (c.text.drop start.toNat)).map fun k => start + k.toUInt64

/-- The bytes from `start` up to `stop`, both kept inside the text and in order. -/
def slice (c : Cursor) (start stop : UInt64) : Bytes :=
  let start := min start c.size
  let stop := max start (min stop c.size)
  (c.text.drop start.toNat).take (stop - start).toNat

end Cursor

end TemplateLexer
