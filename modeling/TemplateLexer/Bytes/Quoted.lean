import TemplateLexer.Bytes.Basic

/-!
# Quoted texts

One line of output may show any text: quotation marks, backslashes and the three bytes that would
break the line or its columns are written as a backslash and a letter. Token lines and JSON log
lines share this rule.

Escaping distributes over concatenation (`Bytes.escape_append`) and leaves none of the three bytes
(`Bytes.not_mem_escape`).
-/

namespace TemplateLexer.Bytes

/-- A byte as it stands between quotation marks. -/
def escapeByte (b : UInt8) : Bytes :=
  if b = newline then ascii "\\n"
  else if b = carriageReturn then ascii "\\r"
  else if b = tab then ascii "\\t"
  else if b = quote then ascii "\\\""
  else if b = backslash then ascii "\\\\"
  else [b]

/-- A text as it stands between quotation marks. -/
def escape (text : Bytes) : Bytes := text.flatMap escapeByte

/-- A text between quotation marks. -/
def quoted (text : Bytes) : Bytes := quote :: (escape text ++ [quote])

@[simp] theorem escape_nil : escape [] = [] := rfl

@[simp] theorem escape_append (a b : Bytes) : escape (a ++ b) = escape a ++ escape b :=
  List.flatMap_append

theorem forall_mem_breaks {p : UInt8 → Prop} (hnewline : p newline) (hreturn : p carriageReturn)
    (htab : p tab) : ∀ b ∈ [newline, carriageReturn, tab], p b := by
  simp [hnewline, hreturn, htab]

/-- The bytes that would break a line or its columns do not stand in an escaped text. -/
theorem not_mem_escape {b : UInt8} (hb : b ∈ [newline, carriageReturn, tab]) (text : Bytes) :
    b ∉ escape text := by
  have hletters : ∀ b ∈ [newline, carriageReturn, tab], b ∉ ascii "\\n" ∧ b ∉ ascii "\\r" ∧
      b ∉ ascii "\\t" ∧ b ∉ ascii "\\\"" ∧ b ∉ ascii "\\\\" :=
    forall_mem_breaks (by decide) (by decide) (by decide)
  intro h
  obtain ⟨c, _, hc⟩ := List.mem_flatMap.mp h
  unfold escapeByte at hc
  split at hc
  · exact (hletters b hb).1 hc
  split at hc
  · exact (hletters b hb).2.1 hc
  split at hc
  · exact (hletters b hb).2.2.1 hc
  split at hc
  · exact (hletters b hb).2.2.2.1 hc
  split at hc
  · exact (hletters b hb).2.2.2.2 hc
  · -- the byte would stand for itself
    rw [List.mem_singleton.mp hc] at hb
    simp_all

end TemplateLexer.Bytes
