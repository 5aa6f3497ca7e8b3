/-!
# Byte texts

Templates, names, messages and file contents are texts of bytes: every offset, length and column of
the library counts bytes, and a token may hold part of a multi-byte character.

* `Bytes.ascii` writes the library's own wording as bytes;
* `Bytes.decimal` and `Bytes.signedDecimal` write numbers;
* `Bytes.find?` and `Bytes.cutAt?` look for the first occurrence of one text in another.

A search that answers `some k` means that the text matches at `k` (`Bytes.find?_eq_some`), and the
two parts of a cut rebuild the text (`Bytes.eq_of_cutAt?`).
-/

namespace TemplateLexer

/-- A text, as the list of its bytes. -/
abbrev Bytes := List UInt8

namespace Bytes

/-! ## Constants -/

/-- The bytes of a wording whose characters all have codes below 256, one byte a character. -/
def ascii (wording : String) : Bytes :=
  wording.toList.map fun c => c.toNat.toUInt8

/-- The byte that ends a line. -/
abbrev newline : UInt8 := 0x0A

/-- The byte that may stand in front of a newline and then belongs to the line end. -/
abbrev carriageReturn : UInt8 := 0x0D

/-- The horizontal tab. -/
abbrev tab : UInt8 := 0x09

/-- The blank that separates words in everything the library writes. -/
abbrev space : UInt8 := 0x20

/-- The byte that makes the byte after it literal. -/
abbrev backslash : UInt8 := 0x5C

/-- The double quotation mark. -/
abbrev quote : UInt8 := 0x22

/-- The sign between a key and its value, and the sigil of a delimiter change. -/
abbrev equalsSign : UInt8 := 0x3D

/-- The sign that starts a flag and a negative number. -/
abbrev hyphen : UInt8 := 0x2D

/-- The closing curly brace. -/
abbrev closeBrace : UInt8 := 0x7D

/-! ## Numbers -/

/-- The byte of a decimal digit; meant for `d < 10`. -/
def digit (d : Nat) : UInt8 := (0x30 + d).toUInt8

/-- A number in decimal notation, without leading zeros. -/
def decimal (n : Nat) : Bytes :=
  if n < 10 then [digit n] else decimal (n / 10) ++ [digit (n % 10)]
termination_by n

/-- A whole number in decimal notation, with a hyphen in front of a negative one. -/
def signedDecimal (n : Int) : Bytes :=
  if n < 0 then hyphen :: decimal n.natAbs else decimal n.natAbs

/-- A number in decimal notation, filled up with zeros on the left to a least number of digits. -/
def paddedDecimal (width n : Nat) : Bytes :=
  List.replicate (width - (decimal n).length) (digit 0) ++ decimal n

/-- Is the byte a decimal digit? -/
def isDigit (b : UInt8) : Bool := 0x30 ≤ b && b ≤ 0x39

/-- The number that a run of decimal digits denotes, the most significant digit first. -/
def digitsValue (digits : Bytes) : Nat :=
  digits.foldl (fun n b => 10 * n + (b.toNat - 0x30)) 0

/-- The small letter of a capital letter; every other byte is kept. -/
def lowerByte (b : UInt8) : UInt8 := if 0x41 ≤ b && b ≤ 0x5A then b + 0x20 else b

/-- Is the byte an ASCII letter? -/
def isLetter (b : UInt8) : Bool :=
  (0x41 ≤ b && b ≤ 0x5A) || (0x61 ≤ b && b ≤ 0x7A)

/-! ## Search -/

/-- The offset of the first occurrence of `seq`; the empty text occurs at once. -/
def find? (seq : Bytes) : Bytes → Option Nat
  | [] => if seq.isEmpty then some 0 else none
  | b :: rest => if seq.isPrefixOf (b :: rest) then some 0 else (find? seq rest).map (· + 1)

/-- The text before and the text after the first occurrence of `seq`. -/
def cutAt? (seq text : Bytes) : Option (Bytes × Bytes) :=
  (find? seq text).map fun k => (text.take k, text.drop (k + seq.length))

/-- The text with `stem` taken off its front, if it starts so. -/
def afterStem? (stem text : Bytes) : Option Bytes :=
  if stem.isPrefixOf text then some (text.drop stem.length) else none

/-- A found offset is a match, and the match lies inside the text. -/
theorem find?_eq_some {seq text : Bytes} {k : Nat} (h : find? seq text = some k) :
    ∃ before after, text = before ++ seq ++ after ∧ before.length = k := by
  induction text generalizing k with
  | nil =>
    simp only [find?, List.isEmpty_iff] at h
    split at h
    · next hs =>
      cases h
      exact ⟨[], [], by simp [hs], rfl⟩
    · cases h
  | cons b rest ih =>
    simp only [find?] at h
    split at h
    · next hs =>
      cases h
      obtain ⟨after, ha⟩ : seq <+: b :: rest := by simpa using hs
      exact ⟨[], after, by simp [ha], rfl⟩
    · obtain ⟨j, hj, rfl⟩ := Option.map_eq_some_iff.mp h
      obtain ⟨before, after, he, hl⟩ := ih hj
      exact ⟨b :: before, after, by simp [he], by simp [hl]⟩

/-- The parts of a cut stand around the searched text. -/
theorem eq_of_cutAt? {seq text before after : Bytes} (h : cutAt? seq text = some (before, after)) :
    text = before ++ seq ++ after := by
  obtain ⟨k, hk, he⟩ := Option.map_eq_some_iff.mp h
  obtain ⟨l, r, ht, hl⟩ := find?_eq_some hk
  subst ht hl
  simp only [Prod.mk.injEq] at he
  obtain ⟨h1, h2⟩ := he
  subst h1 h2
  simp [List.drop_append]

/-- What follows a non-empty searched text is shorter than the text. -/
theorem length_after_lt {seq text before after : Bytes} (hs : seq ≠ [])
    (h : cutAt? seq text = some (before, after)) : after.length < text.length := by
  have hl := List.length_pos_iff.mpr hs
  rw [eq_of_cutAt? h]
  simp only [List.length_append]
  omega

end Bytes

end TemplateLexer
