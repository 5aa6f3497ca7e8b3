import TemplateLexer.Bytes.Blank
import TemplateLexer.Delimiters
import TemplateLexer.Token.Basic

/-!
# Tags from their bodies

The body of a tag is what stands between its sigil and its close delimiter. It is trimmed, and for
the kinds that take arguments it is cut at its first run of blanks. With the gettext extension, a
plain interpolation whose body is `ngettext` and more words becomes a plural form.

A raw interpolation in triple braces needs a last touch: its own closing brace is either one byte
past the close delimiter, or the last byte of its name.
-/

namespace TemplateLexer.Tag

open Bytes

/-- What follows the keyword `ngettext` in a trimmed body, if the body is the keyword and a blank
and more. -/
def afterNgettext? (body : Bytes) : Option Bytes :=
  match afterStem? Kind.ngettextKeyword body with
  | some (b :: rest) => if isBlank b then some (trim (b :: rest)) else none
  | _ => none

/-- The kind of a tag and the trimmed text it carries, given the kind its sigil selects. -/
def classify (withGettext : Bool) (kind : Kind) (body : Bytes) : Kind × Bytes :=
  let body := trim body
  if withGettext ∧ kind = .escaped then
    match afterNgettext? body with
    | some rest => (.ngettext, rest)
    | none => (kind, body)
  else (kind, body)

/-- The name and the arguments that a tag of a kind has for a trimmed text. -/
def nameAndArgs (kind : Kind) (text : Bytes) : Bytes × Option Bytes :=
  if kind.acceptsArgs then ((cutWord text).1, some (cutWord text).2) else (text, none)

/-- The token of a tag: it starts at `start`, its close delimiter stands at `closeAt`, and `body`
lies between its sigil and `closeAt`. -/
def token (withGettext : Bool) (pair : Delimiters) (kind : Kind) (start closeAt : Nat)
    (body : Bytes) : Token :=
  let read := classify withGettext kind body
  let parts := nameAndArgs read.1 read.2
  let stop := closeAt + pair.closeMark.length
  { kind := read.1
    name := parts.1
    openMark := pair.openMark
    closeMark := pair.closeMark
    index := if read.1 = .sectionClose then start else stop
    args := parts.2
    extent := ⟨start, stop⟩ }

/-- A name without the closing brace it may end with. -/
def dropBrace (name : Bytes) : Bytes :=
  if name.getLast? = some closeBrace then trim name.dropLast else name

/-- Does a tag take one byte past its close delimiter? Only a raw interpolation does that is closed
by the two braces of the standard pair. -/
def absorbsBrace (pair : Delimiters) (kind : Kind) : Bool :=
  kind = .unescaped && pair.closeMark = Delimiters.standard.closeMark

/-- The token of a tag that ends at `stop`, with the closing brace of a raw interpolation taken
off. -/
def finish (pair : Delimiters) (kind : Kind) (stop : Nat) (t : Token) : Token :=
  if absorbsBrace pair kind then { t with extent := ⟨t.extent.start, stop⟩ }
  else if kind = .unescaped then { t with name := dropBrace t.name }
  else t

end TemplateLexer.Tag
