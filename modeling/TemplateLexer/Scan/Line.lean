import TemplateLexer.Bytes.Blank
import TemplateLexer.Token.Basic

/-!
# Standalone lines

A line that holds at least one tag, no tag that leaves something visible, and otherwise only blanks
is *standalone*: its texts are dropped together with its line end, so that block tags on lines of
their own leave no trace. A partial on such a line keeps the blanks in front of it as its indent.
-/

namespace TemplateLexer.Line

open Bytes

/-- Does nothing on the line show? All texts are blank and no tag is interpolating. -/
def isInvisible (line : List Token) : Bool :=
  line.all fun t => if t.isText then allBlank t.value else !t.kind.isInterpolating

/-- A tag whose predecessor on the line is the text `before`: a partial takes it as its indent. -/
def withIndent (before : Option Bytes) (t : Token) : Token :=
  match before with
  | some text => if t.isPartial then { t with indent := some text } else t
  | none => t

/-- The tags of a line, partials with their indents. `before` is the text right before the line's
first token, if any. -/
def keepTags (before : Option Bytes) : List Token → List Token
  | [] => []
  | t :: rest =>
    if t.isText then keepTags (some t.value) rest
    else withIndent before t :: keepTags none rest

/-- How many tokens of the line are texts. -/
def countTexts (line : List Token) : Nat := line.countP Token.isText

end TemplateLexer.Line
