import Mathlib.Logic.Function.Basic
import TemplateLexer.Bytes.Quoted

/-!
# Characters in bytes and in code units

Most of the library takes texts as bytes, whatever they mean. Where the meaning matters, a text of
characters is given by its bytes in UTF-8 (`utf8`), or by its code units in UTF-16 (`utf16`), which
lose nothing (`utf16_injective`).

A character below U+0080 is one byte, and the bytes of any other are all from 0x80 on
(`utf8EncodeChar_of_lt`, `le_of_mem_utf8EncodeChar`). So escaping a text is escaping its characters
(`escape_utf8_cons`, `escape_utf8EncodeChar`).
-/

namespace TemplateLexer.Bytes

/-- The bytes of a text in UTF-8. -/
def utf8 (text : List Char) : Bytes := text.flatMap String.utf8EncodeChar

/-- The code units of a character in UTF-16: the character itself, or a surrogate pair. -/
def units (c : Char) : List UInt16 :=
  if c.toNat < 0x10000 then [UInt16.ofNat c.toNat]
  else [UInt16.ofNat (0xD800 + (c.toNat - 0x10000) / 0x400),
    UInt16.ofNat (0xDC00 + (c.toNat - 0x10000) % 0x400)]

/-- The code units of a text in UTF-16. -/
def utf16 (text : List Char) : List UInt16 := text.flatMap units

@[simp] theorem utf8_nil : utf8 [] = [] := rfl

@[simp] theorem utf8_cons (c : Char) (text : List Char) :
    utf8 (c :: text) = String.utf8EncodeChar c ++ utf8 text := rfl

@[simp] theorem utf16_nil : utf16 [] = [] := rfl

@[simp] theorem utf16_cons (c : Char) (text : List Char) :
    utf16 (c :: text) = units c ++ utf16 text := rfl

/-! ## Single characters -/

/-- The bytes of a character tell where they end. -/
theorem eq_of_utf8EncodeChar_append {c d : Char} {s t : Bytes}
    (h : String.utf8EncodeChar c ++ s = String.utf8EncodeChar d ++ t) : c = d ∧ s = t := by
  have hc : ((String.utf8EncodeChar c ++ s).toByteArray).utf8DecodeChar? 0 = some c := by
    rw [List.toByteArray_append, ByteArray.utf8DecodeChar?_utf8EncodeChar_append]
  have hd : ((String.utf8EncodeChar d ++ t).toByteArray).utf8DecodeChar? 0 = some d := by
    rw [List.toByteArray_append, ByteArray.utf8DecodeChar?_utf8EncodeChar_append]
  have hcd : c = d := by
    rw [h, hd] at hc
    exact (Option.some.inj hc).symm
  subst hcd
  exact ⟨rfl, List.append_cancel_left h⟩

/-- A character is no surrogate. -/
theorem toNat_bounds (c : Char) :
    c.toNat < 0xD800 ∨ (0xDFFF < c.toNat ∧ c.toNat < 0x110000) := c.valid

/-- The code units of a character tell where they end: no character is a surrogate. -/
theorem eq_of_units_append {c d : Char} {s t : List UInt16} (h : units c ++ s = units d ++ t) :
    c = d ∧ s = t := by
  have hc := toNat_bounds c
  have hd := toNat_bounds d
  have hnat : ∀ {m n : Nat}, m < 0x10000 → n < 0x10000 → UInt16.ofNat m = UInt16.ofNat n → m = n := by
    intro m n hm hn hmn
    have hto := congrArg UInt16.toNat hmn
    simpa [Nat.mod_eq_of_lt hm, Nat.mod_eq_of_lt hn] using hto
  unfold units at h
  split at h <;> split at h
  · obtain ⟨hfirst, hrest⟩ := List.cons.inj h
    refine ⟨?_, hrest⟩
    exact Char.toNat_inj.mp (hnat (by assumption) (by assumption) hfirst)
  · have hfirst := hnat (by assumption) (by omega) (List.cons.inj h).1
    omega
  · have hfirst := hnat (by omega) (by assumption) (List.cons.inj h).1
    omega
  · obtain ⟨hfirst, hmore⟩ := List.cons.inj h
    obtain ⟨hsecond, hrest⟩ := List.cons.inj hmore
    have hhigh := hnat (by omega) (by omega) hfirst
    have hlow := hnat (by omega) (by omega) hsecond
    refine ⟨?_, hrest⟩
    exact Char.toNat_inj.mp (by omega)

theorem utf8EncodeChar_of_lt {c : Char} (h : c.toNat < 0x80) :
    String.utf8EncodeChar c = [UInt8.ofNat c.toNat] := by
  have hle : c.val.toNat ≤ 127 := by
    change c.toNat ≤ 127
    omega
  rw [String.utf8EncodeChar.eq_1, if_pos hle]
  rfl

/-- A character that is not one byte has no byte that could be taken for one. -/
theorem le_of_mem_utf8EncodeChar {c : Char} (h : 0x80 ≤ c.toNat) :
    ∀ b ∈ String.utf8EncodeChar c, 0x80 ≤ b := by
  have hbyte : ∀ {n : Nat}, 0x80 ≤ n → n < 0x100 → (0x80 : UInt8) ≤ UInt8.ofNat n := by
    intro n hlow hhigh
    rw [UInt8.le_iff_toNat_le, UInt8.toNat_ofNat_of_lt' hhigh]
    exact hlow
  have hgt : ¬ c.val.toNat ≤ 127 := by
    change ¬ c.toNat ≤ 127
    omega
  rw [String.utf8EncodeChar.eq_1, if_neg hgt]
  have hmax : c.val.toNat < 0x110000 := by
    have hc := toNat_bounds c
    change c.toNat < 0x110000
    omega
  have hrest : ∀ n : Nat, (0x80 : UInt8) ≤ UInt8.ofNat (n % 64 + 128) :=
    fun n => hbyte (by omega) (by omega)
  split
  · simp only [List.forall_mem_cons, List.not_mem_nil, false_imp_iff, implies_true, and_true]
    exact ⟨hbyte (by omega) (by omega), hrest _⟩
  · split
    · simp only [List.forall_mem_cons, List.not_mem_nil, false_imp_iff, implies_true, and_true]
      exact ⟨hbyte (by omega) (by omega), hrest _, hrest _⟩
    · simp only [List.forall_mem_cons, List.not_mem_nil, false_imp_iff, implies_true, and_true]
      exact ⟨hbyte (by omega) (by omega), hrest _, hrest _, hrest _⟩

/-! ## Texts -/

theorem units_ne_nil (c : Char) : units c ≠ [] := by
  unfold units
  split <;> simp

theorem utf16_injective : Function.Injective utf16 := by
  intro s t h
  induction s generalizing t with
  | nil =>
    cases t with
    | nil => rfl
    | cons d t => exact absurd (List.append_eq_nil_iff.mp h.symm).1 (units_ne_nil d)
  | cons c s ih =>
    cases t with
    | nil => exact absurd (List.append_eq_nil_iff.mp h).1 (units_ne_nil c)
    | cons d t =>
      obtain ⟨hcd, hst⟩ := eq_of_units_append h
      rw [hcd, ih hst]

/-! ## Escapes -/

/-- The bytes that are escaped. -/
def escapedBytes : List UInt8 := [newline, carriageReturn, tab, quote, backslash]

/-- The characters that are escaped. -/
def escapedChars : List Char := ['\n', '\r', '\t', '"', '\\']

theorem escapeByte_of_notMem {b : UInt8} (h : b ∉ escapedBytes) : escapeByte b = [b] := by
  simp only [escapedBytes, List.mem_cons, List.not_mem_nil, or_false, not_or] at h
  obtain ⟨hn, hr, ht, hq, hs⟩ := h
  unfold escapeByte
  rw [if_neg hn, if_neg hr, if_neg ht, if_neg hq, if_neg hs]

/-- An escaped byte stands for a character on its own. -/
theorem mem_escapedChars {c : Char} {b : UInt8} (hb : b ∈ escapedBytes)
    (hc : b ∈ String.utf8EncodeChar c) : c ∈ escapedChars := by
  have hascii : c.toNat < 0x80 := by
    by_contra hge
    have hle := le_of_mem_utf8EncodeChar (Nat.le_of_not_lt hge) b hc
    -- decided over the list: over the type it would be decided for each of the 256 bytes
    have hall : (escapedBytes.all fun b => decide (¬ 0x80 ≤ b)) = true := by decide
    exact absurd hle (of_decide_eq_true (List.all_eq_true.mp hall b hb))
  rw [utf8EncodeChar_of_lt hascii, List.mem_singleton] at hc
  have hchar : c = Char.ofNat b.toNat := by
    rw [hc, UInt8.toNat_ofNat_of_lt' (Nat.lt_trans hascii (by decide)), Char.ofNat_toNat]
  have hall : (escapedBytes.all fun b => decide (Char.ofNat b.toNat ∈ escapedChars)) = true := by
    decide
  rw [hchar]
  exact of_decide_eq_true (List.all_eq_true.mp hall b hb)

theorem escape_utf8_cons (c : Char) (text : List Char) :
    escape (utf8 (c :: text)) = escape (String.utf8EncodeChar c) ++ escape (utf8 text) :=
  escape_append _ _

/-- Characters that are not escaped are kept. -/
theorem escape_utf8EncodeChar {c : Char} (h : c ∉ escapedChars) :
    escape (String.utf8EncodeChar c) = String.utf8EncodeChar c := by
  have hkept : ∀ b ∈ String.utf8EncodeChar c, escapeByte b = [b] :=
    fun b hb => escapeByte_of_notMem fun he => h (mem_escapedChars he hb)
  unfold escape
  generalize String.utf8EncodeChar c = bytes at hkept
  induction bytes with
  | nil => rfl
  | cons b rest ih =>
    rw [List.flatMap_cons, hkept b List.mem_cons_self,
      ih fun d hd => hkept d (List.mem_cons_of_mem b hd)]
    rfl

end TemplateLexer.Bytes
