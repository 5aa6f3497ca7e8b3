import TemplateLexer.Bytes.Basic

/-!
# Token kinds and their sigils

A token is plain text or a tag, and the kind of a tag is selected by the byte that follows the open
delimiter, its *sigil*. Two kinds belong to the gettext extension: one has a sigil of its own, the
other is recognised by the keyword `ngettext` in the body of a plain interpolation.

Kinds are numbered; the numbers past the named kinds are reserved, and a token of a reserved kind
counts as a tag without a sigil.
-/

namespace TemplateLexer

open Bytes

/-- What a token is. -/
inductive Kind where
  /-- Plain template text; a line end outside tags is a text of its own. -/
  | text
  /-- A plain interpolation, whose value the renderer escapes. -/
  | escaped
  /-- A raw interpolation in triple braces. -/
  | unescaped
  /-- A raw interpolation marked by an ampersand. -/
  | ampersand
  /-- The start of a section. -/
  | sectionOpen
  /-- The start of an inverted section. -/
  | invertedOpen
  /-- The end of a section. -/
  | sectionClose
  /-- A comment. -/
  | comment
  /-- The inclusion of another template. -/
  | partialTag
  /-- The inclusion of another template, in its alternate spelling. -/
  | partialAlt
  /-- A change of the delimiters; no token of a scan has this kind. -/
  | delimiterChange
  /-- A text to be localised. -/
  | gettext
  /-- A text to be localised, in its singular or plural form. -/
  | ngettext
  /-- A kind number without a meaning yet. -/
  | reserved (code : UInt8) (unnamed : 13 ≤ code)
  deriving DecidableEq, Repr

namespace Kind

/-- The named kinds in the order of their numbers. -/
def named : List Kind :=
  [text, escaped, unescaped, ampersand, sectionOpen, invertedOpen, sectionClose, comment,
    partialTag, partialAlt, delimiterChange, gettext, ngettext]

/-- The kind that has a number. -/
def ofCode (c : UInt8) : Kind :=
  if h : 13 ≤ c then reserved c h else named.getD c.toNat text

/-- The stable lower-case name of a kind. -/
def name : Kind → Bytes
  | text => ascii "text"
  | escaped => ascii "escaped"
  | unescaped => ascii "unescaped"
  | ampersand => ascii "unescaped_amp"
  | sectionOpen => ascii "section"
  | invertedOpen => ascii "inverted"
  | sectionClose => ascii "end_section"
  | comment => ascii "comment"
  | partialTag => ascii "partial"
  | partialAlt => ascii "partial_alt"
  | delimiterChange => ascii "delim_change"
  | gettext => ascii "gettext"
  | ngettext => ascii "ngettext"
  | reserved _ _ => ascii "unknown"

/-- The word that turns a plain interpolation into a plural form. -/
def ngettextKeyword : Bytes := ascii "ngettext"

/-- What is written between the open delimiter and the body of a tag. -/
def sigil : Kind → Bytes
  | text | escaped | reserved _ _ => []
  | unescaped => ascii "\x7b"
  | ampersand => ascii "&"
  | sectionOpen => ascii "#"
  | invertedOpen => ascii "^"
  | sectionClose => ascii "/"
  | comment => ascii "!"
  | partialTag => ascii ">"
  | partialAlt => ascii "<"
  | delimiterChange => ascii "="
  | gettext => ascii "_"
  | ngettext => ngettextKeyword ++ [space]

/-- Does the tag leave something visible where it stands? A line with such a tag is never
standalone. -/
def isInterpolating : Kind → Bool
  | escaped | unescaped | ampersand | gettext | ngettext => true
  | _ => false

/-- The kinds of such tags. -/
theorem isInterpolating_iff {k : Kind} :
    k.isInterpolating = true ↔ k ∈ [escaped, unescaped, ampersand, gettext, ngettext] := by
  cases k <;> simp [isInterpolating]

/-- Is the body of such a tag split into a name and arguments? -/
def acceptsArgs : Kind → Bool
  | sectionOpen | partialTag | partialAlt | ngettext => true
  | _ => false

/-- Does the tag include another template, in either spelling? -/
def isPartial : Kind → Bool
  | partialTag | partialAlt => true
  | _ => false

/-! ## Sigil tables -/

/-- The sigils every scan knows. -/
def baseSigils : List (UInt8 × Kind) :=
  [ (0x23, sectionOpen),      -- number sign
    (0x5E, invertedOpen),     -- caret
    (0x2F, sectionClose),     -- slash
    (0x21, comment),          -- exclamation mark
    (0x3E, partialTag),       -- greater than
    (0x3C, partialAlt),       -- less than
    (0x3D, delimiterChange),  -- equals sign
    (0x7B, unescaped),        -- open brace
    (0x26, ampersand) ]       -- ampersand

/-- The sigils of a scan, with or without the gettext extension. -/
def sigilTable (withGettext : Bool) : List (UInt8 × Kind) :=
  if withGettext then baseSigils ++ [(0x5F, gettext)] else baseSigils

/-- The kind that a byte after the open delimiter selects, if the byte is a sigil. -/
def ofSigil (withGettext : Bool) (b : UInt8) : Option Kind :=
  (sigilTable withGettext).lookup b

/-- Can a scan with or without the gettext extension know this kind of tag? -/
def isKnown (withGettext : Bool) : Kind → Bool
  | text => false
  | gettext | ngettext => withGettext
  | _ => true

end Kind

end TemplateLexer
