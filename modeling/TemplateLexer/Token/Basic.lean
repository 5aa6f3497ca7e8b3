import TemplateLexer.Bytes.Quoted
import TemplateLexer.Kind
import TemplateLexer.Location

/-!
# Tokens

A template is a run of plain texts and tags. A text token carries its text as name and as value; a
tag carries its trimmed body as name, cut into name and arguments for the kinds that take arguments.
Every token remembers the delimiters that were active where it was read.

`Token.format` writes a token on one line, for example
`section "each" args="items" delims=<% %> @12`.
-/

namespace TemplateLexer

open Bytes

/-- One piece of a template. -/
structure Token where
  /-- What the token is. -/
  kind : Kind
  /-- The body of a tag, or the text of a text token. -/
  name : Bytes := []
  /-- The text of a text token; empty for tags. -/
  value : Bytes := []
  /-- The open delimiter in force. -/
  openMark : Bytes := []
  /-- The close delimiter in force. -/
  closeMark : Bytes := []
  /-- The offset a parser resumes at: just past the token, but where it starts for the end of a
  section. -/
  index : Nat := 0
  /-- The blanks in front of a standalone partial. -/
  indent : Option Bytes := none
  /-- The arguments, for the kinds that take some. -/
  args : Option Bytes := none
  /-- The bytes of the template that the token was read from, delimiters included. -/
  extent : Extent := ⟨0, 0⟩
  deriving DecidableEq, Repr

namespace Token

/-- Is the token plain text? -/
def isText (t : Token) : Bool := t.kind = .text

/-- Is the token a tag? -/
def isTag (t : Token) : Bool := !t.isText

/-- Is the token a tag that includes another template? -/
def isPartial (t : Token) : Bool := t.kind.isPartial

/-- What a line shows of the token: the text, or the name of the tag. -/
def display (t : Token) : Bytes := if t.isText then t.value else t.name

/-- An optional field of a token line. -/
def formatField (label : String) : Option Bytes → Bytes
  | none => []
  | some text => ascii label ++ quoted text

/-- The token on one line: kind, text or name, arguments, indent, delimiters of a tag, and index. -/
def format (t : Token) : Bytes :=
  t.kind.name ++ ascii " " ++ quoted t.display
    ++ formatField " args=" t.args
    ++ formatField " indent=" t.indent
    ++ (if t.isTag then ascii " delims=" ++ t.openMark ++ ascii " " ++ t.closeMark else [])
    ++ ascii " @" ++ decimal t.index

end Token

end TemplateLexer
