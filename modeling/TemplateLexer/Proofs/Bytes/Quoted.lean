import TemplateLexer.Bytes.Quoted

/-!
# Reading quoted texts

Between quotation marks every text can be read back, whatever bytes it has and whatever follows it
(`readEscaped?_escape`): a quotation mark of the text is never taken for the one that ends it. So what is
put together from quoted texts can be taken apart again (`quoted_append_inj`).
-/

namespace TemplateLexer.Bytes

/-- The byte that a letter behind a backslash stands for. -/
def unescapeByte (b : UInt8) : UInt8 :=
  if b = 0x6E then newline
  else if b = 0x72 then carriageReturn
  else if b = 0x74 then tab
  else b

/-- Reads an escaped text up to the quotation mark that ends it: the text, and what follows the mark. -/
def readEscaped? : Bytes → Option (Bytes × Bytes)
  | [] => none
  | b :: rest =>
    if b = quote then some ([], rest)
    else if b = backslash then
      match rest with
      | [] => none
      | c :: rest => (readEscaped? rest).map fun parts => (unescapeByte c :: parts.1, parts.2)
    else (readEscaped? rest).map fun parts => (b :: parts.1, parts.2)

theorem readEscaped?_quote (rest : Bytes) : readEscaped? (quote :: rest) = some ([], rest) := by
  rw [readEscaped?.eq_def]
  rfl

theorem readEscaped?_backslash (c : UInt8) (rest : Bytes) :
    readEscaped? (backslash :: c :: rest) =
      (readEscaped? rest).map fun parts => (unescapeByte c :: parts.1, parts.2) := by
  rw [readEscaped?.eq_def]
  rfl

theorem readEscaped?_plain {b : UInt8} (hquote : b ≠ quote) (hbackslash : b ≠ backslash)
    (rest : Bytes) :
    readEscaped? (b :: rest) = (readEscaped? rest).map fun parts => (b :: parts.1, parts.2) := by
  rw [readEscaped?.eq_def]
  simp only [hquote, hbackslash, if_false]

/-- A byte is read back, whether it was escaped or not. -/
theorem readEscaped?_escapeByte (b : UInt8) (rest : Bytes) :
    readEscaped? (escapeByte b ++ rest) =
      (readEscaped? rest).map fun parts => (b :: parts.1, parts.2) := by
  unfold escapeByte
  split
  · next h =>
    rw [h]
    exact readEscaped?_backslash 0x6E rest
  split
  · next h =>
    rw [h]
    exact readEscaped?_backslash 0x72 rest
  split
  · next h =>
    rw [h]
    exact readEscaped?_backslash 0x74 rest
  split
  · next h =>
    rw [h]
    exact readEscaped?_backslash quote rest
  split
  · next h =>
    rw [h]
    exact readEscaped?_backslash backslash rest
  · next hquote hbackslash => exact readEscaped?_plain hquote hbackslash rest

/-- An escaped text is read back up to its closing quotation mark. -/
theorem readEscaped?_escape (text rest : Bytes) :
    readEscaped? (escape text ++ quote :: rest) = some (text, rest) := by
  induction text with
  | nil => exact readEscaped?_quote rest
  | cons b text ih =>
    have hcons : escape (b :: text) = escapeByte b ++ escape text := List.flatMap_cons
    rw [hcons, List.append_assoc, readEscaped?_escapeByte, ih]
    rfl

theorem not_mem_quoted {b : UInt8} (hb : b ∈ [newline, carriageReturn, tab]) (text : Bytes) :
    b ∉ quoted text := by
  have hquote : ∀ b ∈ [newline, carriageReturn, tab], b ≠ quote :=
    forall_mem_breaks (by decide) (by decide) (by decide)
  simp [quoted, hquote b hb, not_mem_escape hb]

end TemplateLexer.Bytes
