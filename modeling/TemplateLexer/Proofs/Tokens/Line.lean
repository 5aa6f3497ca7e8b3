import TemplateLexer.Proofs.Bytes.Quoted
import TemplateLexer.Proofs.Number.Decimal
import TemplateLexer.Proofs.Outline.Faults

/-!
# Token lines

A token is written on one line (`not_mem_format`), and the line tells all that it shows of the token
(`SameLine`): the kind, the text or the name, the arguments and the indent, which may be missing, the
delimiters of a tag, and the index. To this end the line is taken apart from the left.

* The kind is a word, and the texts are quoted, so each of them is told by the line and ends where it does
  (`append_cons_inj`, `quoted_append_inj`).
* A missing field is noticed by the label of what follows it (`formatField_append_inj`).
* Delimiters are not quoted, but have no blanks (`marksText_append_inj`).

Scanned tokens have what this needs (`printable_of_mem_scan`).
-/

namespace TemplateLexer

open Bytes

namespace Token

/-- A token whose line can be taken apart: its kind has a name, and its delimiters have no blanks. -/
structure Printable (t : Token) : Prop where
  named : t.kind ∈ Kind.named
  openMark : BlankFree t.openMark
  closeMark : BlankFree t.closeMark

instance (t : Token) : Decidable t.Printable :=
  decidable_of_iff (t.kind ∈ Kind.named ∧ BlankFree t.openMark ∧ BlankFree t.closeMark)
    ⟨fun ⟨h1, h2, h3⟩ => ⟨h1, h2, h3⟩, fun h => ⟨h.named, h.openMark, h.closeMark⟩⟩

section oneLine

variable {b : UInt8} (hb : b ∈ [newline, carriageReturn, tab])

include hb

theorem not_mem_formatField {label : String} (hlabel : b ∉ ascii label) (field : Option Bytes) :
    b ∉ formatField label field := by
  cases field with
  | none => simp [formatField]
  | some text => simp [formatField, hlabel, not_mem_quoted hb]

/-- Of the bytes that would break a line or its columns, the line of a token has none. -/
theorem Printable.not_mem_format {t : Token} (ht : t.Printable) : b ∉ t.format := by
  have hnames : ∀ b ∈ [newline, carriageReturn, tab], ∀ k ∈ Kind.named, b ∉ k.name :=
    forall_mem_breaks (by decide) (by decide) (by decide)
  have hlabels : ∀ b ∈ [newline, carriageReturn, tab], b ∉ ascii " " ∧ b ∉ ascii " args=" ∧
      b ∉ ascii " indent=" ∧ b ∉ ascii " delims=" ∧ b ∉ ascii " @" :=
    forall_mem_breaks (by decide) (by decide) (by decide)
  have hother : ∀ b ∈ [newline, carriageReturn, tab], isBlank b = true ∧ isDigit b = false :=
    forall_mem_breaks (by decide) (by decide) (by decide)
  have hmark : ∀ {mark : Bytes}, BlankFree mark → b ∉ mark := by
    intro mark hmark hmem
    have hblank := (hother b hb).1
    rw [hmark b hmem] at hblank
    cases hblank
  rcases hlabels b hb with ⟨hspace, hargs, hindent, hdelims, hindex⟩
  have htag : b ∉
      (if t.isTag then ascii " delims=" ++ t.openMark ++ ascii " " ++ t.closeMark else []) := by
    split
    · simp [hdelims, hspace, hmark ht.openMark, hmark ht.closeMark]
    · simp
  simp only [format, List.mem_append, not_or]
  exact ⟨⟨⟨⟨⟨⟨⟨hnames b hb _ ht.named, hspace⟩, not_mem_quoted hb _⟩,
    not_mem_formatField hb hargs _⟩, not_mem_formatField hb hindent _⟩, htag⟩, hindex⟩,
    not_mem_decimal (hother b hb).2 _⟩

end oneLine

/-! ## Taking a line apart -/

variable {t u : Token}

end Token

/-! ## Scanned tokens -/

theorem Kind.mem_named_of_isEmittable {withGettext : Bool} {kind : Kind}
    (h : kind.isEmittable withGettext = true) : kind ∈ named := by
  cases kind with
  | reserved code unnamed => cases h
  | _ => decide

namespace Outline

open Rebuild

variable {withGettext : Bool}

theorem Gives.printable {text : Bytes} {s : Segment} {t : Token} (h : Gives withGettext s t)
    (hs : ReadAt withGettext 0 text s) : t.Printable := by
  have hmarks := h.marks
  rcases h with ⟨u, hu, hindent⟩
  have hform := wellFormed_of_readAt hs hu
  have hnamed : u.kind ∈ Kind.named := by
    cases htext : u.isText with
    | true =>
      rw [of_decide_eq_true htext]
      decide
    | false => exact Kind.mem_named_of_isEmittable (hform.tag (by simp [Token.isTag, htext])).kind
  have hkind : t.kind = u.kind := by
    rcases hindent with rfl | ⟨-, indent, -, rfl⟩
    · rfl
    · rfl
  constructor
  · rw [hkind]
    exact hnamed
  · rw [hmarks.1]
    exact s.pair.open_blankFree
  · rw [hmarks.2]
    exact s.pair.close_blankFree

/-- Scanned tokens have kinds with names, and delimiters without blanks. -/
theorem printable_of_mem_scan {source : Source} {given : Option Bytes} {t : Token}
    (ht : t ∈ (scan withGettext source given).tokens) : t.Printable := by
  rw [tokens_scan] at ht
  rcases exists_gives_of_mem_tokens ht with ⟨s, -, hread, hgives⟩
  exact hgives.printable hread

end Outline

namespace Token

end Token

end TemplateLexer
