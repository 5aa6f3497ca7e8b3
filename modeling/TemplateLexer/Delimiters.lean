import TemplateLexer.Bytes.Blank

/-!
# Delimiter pairs

A tag stands between an open and a close delimiter. Both are words: non-empty and free of blanks.
The type carries these facts, because the scan loop ends only where no delimiter is empty.

A pair is written as its two words with blanks between and around them (`Delimiters.parse`,
`Delimiters.parse_eq_ok_iff`).
-/

namespace TemplateLexer

open Bytes

/-- An open and a close delimiter, each non-empty and free of blanks. -/
structure Delimiters where
  /-- The text that starts a tag. -/
  openMark : Bytes
  /-- The text that ends a tag. -/
  closeMark : Bytes
  open_ne_nil : openMark ≠ []
  close_ne_nil : closeMark ≠ []
  open_blankFree : BlankFree openMark
  close_blankFree : BlankFree closeMark
  deriving DecidableEq

namespace Delimiters

/-- The pair a scan starts with unless it is told otherwise: two braces on each side. -/
def standard : Delimiters where
  openMark := ascii "\x7b\x7b"
  closeMark := ascii "\x7d\x7d"
  open_ne_nil := by decide
  close_ne_nil := by decide
  open_blankFree := by decide
  close_blankFree := by decide

instance : Inhabited Delimiters := ⟨standard⟩

/-- A specification that does not consist of two words. -/
structure ParseError where
  /-- The specification as it was given. -/
  spec : Bytes
  deriving DecidableEq, Repr

/-- The wording of a refused specification. -/
def ParseError.message (e : ParseError) : Bytes :=
  ascii "expected two delimiters separated by whitespace, got '" ++ e.spec ++ ascii "'"

/-- Reads a specification of exactly two words, the open and the close delimiter. -/
def parse (spec : Bytes) : Except ParseError Delimiters :=
  match h : words spec with
  | [o, c] =>
    .ok {
      openMark := o
      closeMark := c
      open_ne_nil := ne_nil_of_mem_words (show _ ∈ words spec by simp [h])
      close_ne_nil := ne_nil_of_mem_words (show _ ∈ words spec by simp [h])
      open_blankFree := blankFree_of_mem_words (show _ ∈ words spec by simp [h])
      close_blankFree := blankFree_of_mem_words (show _ ∈ words spec by simp [h]) }
  | _ => .error ⟨spec⟩

/-- The two delimiters with one space between them, as messages show the pair. -/
def render (d : Delimiters) : Bytes := d.openMark ++ space :: d.closeMark

/-- The text that ends the body of a delimiter change under this pair. -/
def changeMark (d : Delimiters) : Bytes := equalsSign :: d.closeMark

/-- A specification is read as a pair exactly if its words are the two delimiters of the pair. -/
theorem parse_eq_ok_iff {spec : Bytes} {d : Delimiters} :
    parse spec = .ok d ↔ words spec = [d.openMark, d.closeMark] := by
  unfold parse
  split
  · next o c h =>
    constructor
    · intro he
      cases he
      exact h
    · intro he
      obtain ⟨ho, hc⟩ : o = d.openMark ∧ c = d.closeMark := by simpa using h.symm.trans he
      subst ho hc
      rfl
  · next hne =>
    constructor
    · intro he
      cases he
    · intro he
      exact absurd he (hne _ _)

theorem open_length_pos (d : Delimiters) : 0 < d.openMark.length :=
  List.length_pos_iff.mpr d.open_ne_nil

theorem close_length_pos (d : Delimiters) : 0 < d.closeMark.length :=
  List.length_pos_iff.mpr d.close_ne_nil

end Delimiters

end TemplateLexer
