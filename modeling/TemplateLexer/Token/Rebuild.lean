import TemplateLexer.Bytes.Blank
import TemplateLexer.Delimiters
import TemplateLexer.Token.Basic

/-!
# Template text from tokens

`Token.rebuild` writes a template whose scan gives the tokens back, as far as they came from lines
that are not standalone. Three things need care:

* a byte of a text that could start a tag is escaped by a backslash;
* a plain interpolation whose name looks like a sigil gets a space in front of the name;
* where the delimiters of a token differ from those in force, a delimiter change is written first,
  on a line of its own if it would otherwise make a blank line standalone.
-/

namespace TemplateLexer.Token

open Bytes

/-- A text with a backslash in front of each byte that equals the first byte of the open
delimiter. -/
def escapeText (openMark text : Bytes) : Bytes :=
  text.flatMap fun b => if openMark.head? = some b then [backslash, b] else [b]

/-- Would the name, right after the open delimiter, be taken for a sigil or for nothing at all? -/
def needsSpace (name : Bytes) : Bool :=
  match name with
  | [] => true
  | b :: _ => (Kind.ofSigil true b).isSome

/-- A tag as it is written in a template. -/
def renderTag (t : Token) : Bytes :=
  t.openMark ++ t.kind.sigil
    ++ (if t.kind = .escaped ∧ needsSpace t.name then [space] else [])
    ++ t.name
    ++ (match t.args with
        | some (b :: rest) => space :: b :: rest
        | _ => [])
    ++ (if t.kind = .unescaped then [closeBrace] else [])
    ++ t.closeMark

/-- Does the line that starts with these tokens hold nothing but blank text? -/
def lineIsBlank : List Token → Bool
  | [] => true
  | t :: rest =>
    if t.isTag then false
    else if t.value = [newline] then true
    else allBlank t.value && lineIsBlank rest

/-- A delimiter change from the pair in force to the pair of a token. -/
def renderChange (openMark closeMark : Bytes) (t : Token) : Bytes :=
  openMark ++ equalsSign :: t.openMark ++ space :: t.closeMark ++ equalsSign :: closeMark

/-- Does the token ask for other delimiters than those in force? A token without an open delimiter
asks for none. -/
def changesMarks (openMark closeMark : Bytes) (t : Token) : Bool :=
  t.openMark ≠ [] && (t.openMark ≠ openMark || t.closeMark ≠ closeMark)

/-- Is the end of a text at the start of a line, given whether its beginning was? -/
def endsAtLineStart (atLineStart : Bool) (written : Bytes) : Bool :=
  match written.getLast? with
  | none => atLineStart
  | some b => b = newline

/-- The text of the remaining tokens, given the delimiters in force and whether the text written so
far is empty or ends a line. -/
def rebuildFrom (openMark closeMark : Bytes) (atLineStart : Bool) : List Token → Bytes
  | [] => []
  | t :: rest =>
    let changes := changesMarks openMark closeMark t
    let o := if changes then t.openMark else openMark
    let c := if changes then t.closeMark else closeMark
    let written :=
      (if changes then renderChange openMark closeMark t else [])
        ++ (if changes && atLineStart && lineIsBlank (t :: rest) then [newline] else [])
        ++ (if t.isText then escapeText o t.value else renderTag t)
    written ++ rebuildFrom o c (endsAtLineStart atLineStart written) rest

/-- The template text of a list of tokens. -/
def rebuild (tokens : List Token) : Bytes :=
  rebuildFrom Delimiters.standard.openMark Delimiters.standard.closeMark true tokens

end TemplateLexer.Token
