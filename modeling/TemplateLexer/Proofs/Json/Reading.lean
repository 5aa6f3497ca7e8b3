import Mathlib.Data.List.Basic
import Mathlib.Tactic.NormNum
import TemplateLexer.Proofs.Json.Grammar
import TemplateLexer.Proofs.Number.Decimal

/-!
# Reading what was written

What is read from numbers in decimal notation, from escaped texts, and from members that are put
together from them.

* `number_signedDecimal_iff`: a whole number in decimal notation is read as that number;
* `content_escape_iff`: an escaped text is read as a string exactly if all its control characters were
  escaped, and then as that text;
* `ReadsOnly`: a member that is read in one way at most, whatever is made of what follows it
  (`readsOnly_number`, `readsOnly_string`);
* `readMembers_comma_iff`, `readMembers_close_iff`: the members of an object one by one.
-/

namespace TemplateLexer.Json

open Bytes

/-! ## Blanks -/

/-- Nothing is skipped in front of a byte that is no blank. -/
theorem skips_cons_iff {b : UInt8} {text rest : Bytes} (hb : isInsignificant b = false) :
    Skips (b :: text) rest ↔ rest = b :: text := by
  constructor
  · intro h
    obtain ⟨blanks, htext, hall⟩ := h
    cases blanks with
    | nil => exact htext.symm
    | cons c blanks =>
      have hc := hall c List.mem_cons_self
      rw [← (List.cons.inj htext).1, hb] at hc
      cases hc
  · intro h
    exact ⟨[], h.symm, by simp⟩

theorem skips_nil_iff {rest : Bytes} : Skips [] rest ↔ rest = [] := by
  constructor
  · intro h
    obtain ⟨blanks, htext, -⟩ := h
    exact (List.append_eq_nil_iff.mp htext.symm).2
  · intro h
    exact ⟨[], h.symm, by simp⟩

/-! ## Numbers -/

/-- May the byte stand in a number? -/
def isNumberByte (b : UInt8) : Bool :=
  isDigit b || b = hyphen || b = plusSign || b = point || b = 0x65 || b = 0x45

/-- A number in front of the text would end there. -/
def Ends (text : Bytes) : Prop := ∀ b ∈ text.head?, isNumberByte b = false

theorem ends_cons {b : UInt8} (hb : isNumberByte b = false) (text : Bytes) : Ends (b :: text) := by
  intro c hc
  rw [← Option.some.inj hc]
  exact hb

theorem isNumberByte_of_isInsignificant {b : UInt8} (h : isInsignificant b = true) :
    isNumberByte b = false := by
  simp only [isInsignificant, Bool.or_eq_true, decide_eq_true_eq] at h
  rcases h with ((h | h) | h) | h
  all_goals
    rw [h]
    decide

theorem ends_of_skips {b : UInt8} {text rest : Bytes} (hb : isNumberByte b = false)
    (h : Skips text (b :: rest)) : Ends text := by
  obtain ⟨blanks, htext, hall⟩ := h
  rw [htext]
  cases blanks with
  | nil => exact ends_cons hb rest
  | cons c blanks =>
    exact ends_cons (isNumberByte_of_isInsignificant (hall c List.mem_cons_self)) _

/-- Two readings of a number that both end where it does are of the same bytes. -/
theorem eq_of_append_of_ends {s s' t t' : Bytes} (hs : ∀ b ∈ s, isNumberByte b = true)
    (hs' : ∀ b ∈ s', isNumberByte b = true) (ht : Ends t) (ht' : Ends t')
    (h : s ++ t = s' ++ t') : s = s' ∧ t = t' := by
  have hends : ∀ {t : Bytes}, Ends t → t.takeWhile isNumberByte = [] := by
    intro t ht
    cases t with
    | nil => rfl
    | cons b t => simp [ht b rfl]
  have hfirst := congrArg (List.takeWhile isNumberByte) h
  rw [List.takeWhile_append_of_pos hs, List.takeWhile_append_of_pos hs', hends ht, hends ht',
    List.append_nil, List.append_nil] at hfirst
  rw [hfirst] at h
  exact ⟨hfirst, List.append_cancel_left h⟩

theorem isNumberByte_of_isDigit {b : UInt8} (h : isDigit b = true) : isNumberByte b = true := by
  simp [isNumberByte, h]

theorem Number.ne_nil {text : Bytes} {q : ℚ} (h : Number text q) : text ≠ [] := by
  cases h with
  | mk hs hw hf he => simp [hw.ne_nil]

theorem Digits.isNumberByte {text : Bytes} (h : Digits text) :
    ∀ b ∈ text, isNumberByte b = true :=
  fun b hb => isNumberByte_of_isDigit (h.digits b hb)

theorem IsE.isNumberByte {b : UInt8} (h : IsE b) : isNumberByte b = true := by
  rcases h with h | h
  · rw [h]
    decide
  · rw [h]
    decide

theorem Number.isNumberByte {text : Bytes} {q : ℚ} (h : Number text q) :
    ∀ b ∈ text, isNumberByte b = true := by
  cases h with
  | mk hs hw hf he =>
    simp only [List.forall_mem_append]
    refine ⟨⟨⟨?_, hw.toDigits.isNumberByte⟩, ?_⟩, ?_⟩
    · cases hs with
      | none => simp
      | minus => exact List.forall_mem_singleton.mpr (by decide)
    · cases hf with
      | none => simp
      | digits hd => exact List.forall_mem_cons.mpr ⟨by decide, hd.isNumberByte⟩
    · cases he with
      | none => simp
      | plain he hd => exact List.forall_mem_cons.mpr ⟨he.isNumberByte, hd.isNumberByte⟩
      | plus he hd =>
        exact List.forall_mem_cons.mpr ⟨he.isNumberByte,
          List.forall_mem_cons.mpr ⟨by decide, hd.isNumberByte⟩⟩
      | minus he hd =>
        exact List.forall_mem_cons.mpr ⟨he.isNumberByte,
          List.forall_mem_cons.mpr ⟨by decide, hd.isNumberByte⟩⟩

/-! ## Decimal notation -/

theorem digits_decimal (n : ℕ) : Digits (decimal n) :=
  ⟨decimal_ne_nil n, fun _ hb => isDigit_of_mem_decimal hb⟩

/-- Only zero starts with a zero. -/
theorem eq_zero_of_head?_decimal {n : ℕ} (h : (decimal n).head? = some (digit 0)) : n = 0 := by
  fun_induction decimal n with
  | case1 n hn =>
    have hall : ∀ n < 10, digit n = digit 0 → n = 0 := by decide
    exact hall n hn (Option.some.inj h)
  | case2 n hn ih =>
    have hhead : (decimal (n / 10)).head? = some (digit 0) := by
      rwa [List.head?_append_of_ne_nil _ (digits_decimal (n / 10)).ne_nil] at h
    have hzero := ih hhead
    omega

theorem whole_decimal (n : ℕ) : Whole (decimal n) where
  toDigits := digits_decimal n
  canonical := by
    intro h
    rw [eq_zero_of_head?_decimal h, decimal, if_pos (by decide)]

/-- The value of a sign and digits, with neither fraction nor exponent. -/
theorem value_of_neg {z : ℤ} (h : z < 0) :
    (-1 : ℚ) * (digitsValue (decimal z.natAbs) + 0) * 10 ^ (0 : ℤ) = z := by
  have habs : z = -(z.natAbs : ℤ) := by omega
  rw [digitsValue_decimal]
  nth_rewrite 2 [habs]
  push_cast
  simp

theorem value_of_not_neg {z : ℤ} (h : ¬ z < 0) :
    (1 : ℚ) * (digitsValue (decimal z.natAbs) + 0) * 10 ^ (0 : ℤ) = z := by
  have habs : z = (z.natAbs : ℤ) := by omega
  rw [digitsValue_decimal]
  nth_rewrite 2 [habs]
  simp

/-- A whole number is read from its decimal notation. -/
theorem number_signedDecimal (z : ℤ) : Number (signedDecimal z) z := by
  unfold signedDecimal
  split
  · next hz =>
    have h := Number.mk .minus (whole_decimal z.natAbs) .none .none
    rw [value_of_neg hz] at h
    simpa using h
  · next hz =>
    have h := Number.mk .none (whole_decimal z.natAbs) .none .none
    rw [value_of_not_neg hz] at h
    simpa using h

/-- Where there is no point, there is no fraction. -/
theorem Fraction.eq_none {text : Bytes} {f : ℚ} (h : Fraction text f) (hp : point ∉ text) :
    text = [] ∧ f = 0 := by
  cases h with
  | none => exact ⟨rfl, rfl⟩
  | digits hd => exact absurd List.mem_cons_self hp

/-- Where there is no letter, there is no exponent. -/
theorem Exponent.eq_none {text : Bytes} {e : ℤ} (h : Exponent text e)
    (hp : ∀ b ∈ text, ¬ IsE b) : text = [] ∧ e = 0 := by
  cases h with
  | none => exact ⟨rfl, rfl⟩
  | plain he hd => exact absurd he (hp _ List.mem_cons_self)
  | plus he hd => exact absurd he (hp _ List.mem_cons_self)
  | minus he hd => exact absurd he (hp _ List.mem_cons_self)

/-- It is read as nothing else: there is room for neither a fraction nor an exponent. -/
theorem number_signedDecimal_iff {z : ℤ} {q : ℚ} : Number (signedDecimal z) q ↔ q = z := by
  constructor
  · intro h
    generalize htext : signedDecimal z = text at h
    cases h with
    | @mk sign whole fraction exponent s f e hs hw hf he =>
      have hbytes : ∀ b ∈ sign ++ whole ++ fraction ++ exponent, b = hyphen ∨ isDigit b = true := by
        rw [← htext]
        exact fun b => isDigit_of_mem_signedDecimal
      have hpoint : point ∉ fraction := by
        intro hp
        exact absurd (hbytes point (by simp [hp])) (by decide)
      have hletter : ∀ b ∈ exponent, ¬ IsE b := by
        intro b hb hE
        have hor := hbytes b (by simp [hb])
        rcases hE with hE | hE
        · rw [hE] at hor
          exact absurd hor (by decide)
        · rw [hE] at hor
          exact absurd hor (by decide)
      obtain ⟨hfraction, hzero⟩ := hf.eq_none hpoint
      obtain ⟨hexponent, hzero'⟩ := he.eq_none hletter
      rw [hfraction, hexponent, List.append_nil, List.append_nil] at htext
      rw [hzero, hzero']
      -- what is left are a sign and digits, and only the sign can be a hyphen
      have hhyphen : isDigit hyphen = false := by decide
      unfold signedDecimal at htext
      cases hs with
      | none =>
        split at htext
        · have hmem : hyphen ∈ whole := by
            rw [List.nil_append] at htext
            rw [← htext]
            exact List.mem_cons_self
          rw [hw.digits hyphen hmem] at hhyphen
          cases hhyphen
        · next hz =>
          rw [List.nil_append] at htext
          rw [← htext]
          exact value_of_not_neg hz
      | minus =>
        split at htext
        · next hz =>
          have hdigits : decimal z.natAbs = whole := (List.cons.inj htext).2
          rw [← hdigits]
          exact value_of_neg hz
        · have hmem : hyphen ∈ decimal z.natAbs := by simp [htext]
          rw [(digits_decimal z.natAbs).digits hyphen hmem] at hhyphen
          cases hhyphen
  · intro h
    rw [h]
    exact number_signedDecimal z

/-! ## Strings -/

theorem utf8EncodeChar_quote : String.utf8EncodeChar '"' = [quote] := by decide

theorem utf8EncodeChar_backslash : String.utf8EncodeChar '\\' = [backslash] := by decide

theorem content_quote_iff {text rest : Bytes} {us : List UInt16} :
    Content (quote :: text) us rest ↔ us = [] ∧ rest = text := by
  constructor
  · intro h
    generalize htext : quote :: text = front at h
    cases h with
    | stop => exact ⟨rfl, (List.cons.inj htext).2.symm⟩
    | char _ hquote _ _ =>
      rw [← List.singleton_append, ← utf8EncodeChar_quote] at htext
      exact absurd (eq_of_utf8EncodeChar_append htext).1.symm hquote
    | short _ _ => exact absurd (List.cons.inj htext).1 (by decide)
    | hex _ _ _ _ _ => exact absurd (List.cons.inj htext).1 (by decide)
  · rintro ⟨hus, hrest⟩
    rw [hus, hrest]
    exact .stop

/-- A backslash and a letter are a short escape, but for the letter of the long ones. -/
theorem content_backslash_iff {b : UInt8} {text rest : Bytes} {us : List UInt16}
    (hb : b ≠ hexLetter) :
    Content (backslash :: b :: text) us rest ↔
      ∃ u more, shortEscapes.lookup b = some u ∧ us = u :: more ∧ Content text more rest := by
  constructor
  · intro h
    generalize htext : backslash :: b :: text = front at h
    cases h with
    | stop => exact absurd (List.cons.inj htext).1 (by decide)
    | char _ _ hbackslash _ =>
      rw [← List.singleton_append, ← utf8EncodeChar_backslash] at htext
      exact absurd (eq_of_utf8EncodeChar_append htext).1.symm hbackslash
    | short hu h =>
      obtain ⟨hletter, hmore⟩ := List.cons.inj (List.cons.inj htext).2
      rw [hletter, hmore]
      exact ⟨_, _, hu, rfl, h⟩
    | hex _ _ _ _ _ => exact absurd (List.cons.inj (List.cons.inj htext).2).1 hb
  · rintro ⟨u, more, hu, hus, h⟩
    rw [hus]
    exact .short hu h

/-- A character that needs no escape stands for itself. -/
theorem content_char_iff {c : Char} {text rest : Bytes} {us : List UInt16}
    (hc : c ∉ escapedChars) :
    Content (String.utf8EncodeChar c ++ text) us rest ↔
      0x20 ≤ c.toNat ∧ ∃ more, us = units c ++ more ∧ Content text more rest := by
  have hquote : c ≠ '"' := fun h => hc (by simp [h, escapedChars])
  have hbackslash : c ≠ '\\' := fun h => hc (by simp [h, escapedChars])
  constructor
  · intro h
    generalize htext : String.utf8EncodeChar c ++ text = front at h
    cases h with
    | stop =>
      rw [← List.singleton_append, ← utf8EncodeChar_quote] at htext
      exact absurd (eq_of_utf8EncodeChar_append htext).1 hquote
    | char control _ _ h =>
      obtain ⟨hchar, hmore⟩ := eq_of_utf8EncodeChar_append htext
      rw [hchar, hmore]
      exact ⟨control, _, rfl, h⟩
    | short _ _ =>
      rw [← List.singleton_append, ← utf8EncodeChar_backslash] at htext
      exact absurd (eq_of_utf8EncodeChar_append htext).1 hbackslash
    | hex _ _ _ _ _ =>
      rw [← List.singleton_append, ← utf8EncodeChar_backslash] at htext
      exact absurd (eq_of_utf8EncodeChar_append htext).1 hbackslash
  · rintro ⟨control, more, hus, h⟩
    rw [hus]
    exact .char control hquote hbackslash h

/-- Every control character of the text is one that is escaped. -/
def ControlsEscaped (text : List Char) : Prop := ∀ c ∈ text, c.toNat < 0x20 → c ∈ escapedChars

instance (text : List Char) : Decidable (ControlsEscaped text) := List.decidableBAll _ text

/-- An escaped character is read as the character, if it is escaped or needs no escape. -/
theorem content_escape_char_iff {c : Char} {text rest : Bytes} {us : List UInt16} :
    Content (escape (String.utf8EncodeChar c) ++ text) us rest ↔
      (c.toNat < 0x20 → c ∈ escapedChars) ∧ ∃ more, us = units c ++ more ∧ Content text more rest := by
  by_cases hc : c ∈ escapedChars
  · -- a backslash and a letter, which stands for the character
    have hall : (escapedChars.all fun c => shortEscapes.any fun entry =>
        decide (escape (String.utf8EncodeChar c) = [backslash, entry.1] ∧ entry.1 ≠ hexLetter ∧
          shortEscapes.lookup entry.1 = some entry.2 ∧ units c = [entry.2])) = true := by decide
    obtain ⟨entry, -, hletter⟩ := List.any_eq_true.mp (List.all_eq_true.mp hall c hc)
    obtain ⟨hescape, hb, hu, hunits⟩ := of_decide_eq_true hletter
    rw [hescape, hunits, List.cons_append, List.cons_append, List.nil_append,
      content_backslash_iff hb]
    constructor
    · rintro ⟨u, more, hu', hus, h⟩
      rw [hu, Option.some.injEq] at hu'
      rw [← hu'] at hus
      exact ⟨fun _ => hc, more, hus, h⟩
    · rintro ⟨-, more, hus, h⟩
      exact ⟨entry.2, more, hu, hus, h⟩
  · rw [escape_utf8EncodeChar hc, content_char_iff hc]
    have hcontrol : (c.toNat < 0x20 → c ∈ escapedChars) ↔ 0x20 ≤ c.toNat := by
      constructor
      · intro h
        by_contra hlt
        exact hc (h (by omega))
      · intro hle hlt
        omega
    rw [hcontrol]

/-- **An escaped text is read as the text**, if all its control characters were escaped, and is no
content of a string otherwise. The induction is on the characters; each of them is read in one way at
most. -/
theorem content_escape_iff {text : List Char} {rest rest' : Bytes} {us : List UInt16} :
    Content (escape (utf8 text) ++ quote :: rest) us rest' ↔
      ControlsEscaped text ∧ us = utf16 text ∧ rest' = rest := by
  induction text generalizing us with
  | nil =>
    rw [utf8_nil, escape_nil, List.nil_append, content_quote_iff]
    simp [ControlsEscaped]
  | cons c text ih =>
    rw [escape_utf8_cons, List.append_assoc, content_escape_char_iff]
    constructor
    · rintro ⟨hc, more, hus, h⟩
      obtain ⟨htext, hmore, hrest⟩ := ih.mp h
      refine ⟨List.forall_mem_cons.mpr ⟨hc, htext⟩, ?_, hrest⟩
      rw [hus, hmore, utf16_cons]
    · rintro ⟨hall, hus, hrest⟩
      obtain ⟨hc, htext⟩ := List.forall_mem_cons.mp hall
      exact ⟨hc, utf16 text, hus, ih.mpr ⟨htext, rfl, hrest⟩⟩

/-! ## Values -/

/-- May a text of the value start with the byte? -/
def Value.startsWith (b : UInt8) : Value → Bool
  | .null => b = 0x6E
  | .boolean true => b = 0x74
  | .boolean false => b = 0x66
  | .number _ => isNumberByte b
  | .string _ => b = quote
  | .array _ => b = 0x5B
  | .object _ => b = openBrace

/-- The first byte of a value tells what it is. -/
theorem ReadValue.startsWith {b : UInt8} {text rest : Bytes} {v : Value}
    (h : ReadValue (b :: text) v rest) : v.startsWith b = true := by
  generalize hfront : b :: text = front at h
  cases h with
  | null => exact decide_eq_true (List.cons.inj hfront).1
  | yes => exact decide_eq_true (List.cons.inj hfront).1
  | no => exact decide_eq_true (List.cons.inj hfront).1
  | @number text' _ _ h =>
    obtain ⟨c, tail, htext⟩ := List.exists_cons_of_ne_nil h.ne_nil
    rw [htext] at hfront
    have hb : b = c := (List.cons.inj hfront).1
    rw [Value.startsWith, hb]
    exact h.isNumberByte c (by simp [htext])
  | string h => exact decide_eq_true (List.cons.inj hfront).1
  | emptyArray h => exact decide_eq_true (List.cons.inj hfront).1
  | array h => exact decide_eq_true (List.cons.inj hfront).1
  | emptyObject h => exact decide_eq_true (List.cons.inj hfront).1
  | object h => exact decide_eq_true (List.cons.inj hfront).1

theorem readValue_quote_iff {text rest : Bytes} {v : Value} :
    ReadValue (quote :: text) v rest ↔ ∃ us, v = .string us ∧ Content text us rest := by
  constructor
  · intro h
    have hstart := h.startsWith
    cases v with
    | string us =>
      refine ⟨us, rfl, ?_⟩
      generalize htext : quote :: text = front at h
      cases h with
      | string h =>
        rw [(List.cons.inj htext).2]
        exact h
    | boolean b => cases b <;> cases hstart
    | _ => cases hstart
  · rintro ⟨us, hv, h⟩
    rw [hv]
    exact .string h

theorem readValue_openBrace_iff {text rest : Bytes} {v : Value} :
    ReadValue (openBrace :: text) v rest ↔
      ∃ members, v = .object members ∧ (ReadMembers text members rest ∨
        (members = [] ∧ Skips text (closeBrace :: rest))) := by
  constructor
  · intro h
    have hstart := h.startsWith
    cases v with
    | object members =>
      refine ⟨members, rfl, ?_⟩
      generalize htext : openBrace :: text = front at h
      cases h with
      | emptyObject h =>
        rw [(List.cons.inj htext).2]
        exact .inr ⟨rfl, h⟩
      | object h =>
        rw [(List.cons.inj htext).2]
        exact .inl h
    | boolean b => cases b <;> cases hstart
    | _ => cases hstart
  · rintro ⟨members, hv, h | ⟨hnil, h⟩⟩
    · rw [hv]
      exact .object h
    · rw [hv, hnil]
      exact .emptyObject h

/-- What starts as a number is one. -/
theorem ReadValue.exists_number {b : UInt8} {text rest : Bytes} {v : Value}
    (h : ReadValue (b :: text) v rest) (hb : isNumberByte b = true) :
    ∃ front q, v = .number q ∧ Number front q ∧ b :: text = front ++ rest := by
  have hstart := h.startsWith
  -- no other value starts with such a byte
  have hother : ∀ c : UInt8, isNumberByte c = false → decide (b = c) = false := by
    intro c hc
    rw [decide_eq_false_iff_not]
    rintro rfl
    rw [hb] at hc
    cases hc
  cases v with
  | number q =>
    generalize hfront : b :: text = front at h
    cases h with
    | number h => exact ⟨_, q, rfl, h, rfl⟩
  | null => exact absurd hstart (by simp [Value.startsWith, hother 0x6E (by decide)])
  | boolean t =>
    cases t with
    | true => exact absurd hstart (by simp [Value.startsWith, hother 0x74 (by decide)])
    | false => exact absurd hstart (by simp [Value.startsWith, hother 0x66 (by decide)])
  | string us => exact absurd hstart (by simp [Value.startsWith, hother quote (by decide)])
  | array elements => exact absurd hstart (by simp [Value.startsWith, hother 0x5B (by decide)])
  | object members => exact absurd hstart (by simp [Value.startsWith, hother openBrace (by decide)])

/-- A whole number is read to its end, if nothing after it could be more of a number. -/
theorem readValue_signedDecimal_iff {z : ℤ} {text rest : Bytes} {v : Value} (ht : Ends text) :
    (ReadValue (signedDecimal z ++ text) v rest ∧ Ends rest) ↔ v = .number z ∧ rest = text := by
  have hz := number_signedDecimal z
  constructor
  · rintro ⟨h, hrest⟩
    obtain ⟨b, tail, hb⟩ := List.exists_cons_of_ne_nil hz.ne_nil
    rw [hb, List.cons_append] at h
    obtain ⟨front, q, hv, hq, hsplit⟩ := h.exists_number (hz.isNumberByte b (by simp [hb]))
    rw [← List.cons_append, ← hb] at hsplit
    obtain ⟨hfront, hback⟩ :=
      eq_of_append_of_ends hz.isNumberByte hq.isNumberByte ht hrest hsplit
    rw [← hfront] at hq
    rw [hv, number_signedDecimal_iff.mp hq]
    exact ⟨rfl, hback.symm⟩
  · rintro ⟨hv, hrest⟩
    rw [hv, hrest]
    exact ⟨.number hz, ht⟩

/-! ## Members -/

/-- The text of a member, up to its value. -/
def memberFront (name : List Char) : Bytes := quote :: (escape (utf8 name) ++ [quote, colon])

/-- A member is read from its name and the text of its value. -/
theorem readMember_iff {name : List Char} {b : UInt8} {text rest : Bytes} {key : List UInt16}
    {v : Value} (hname : ControlsEscaped name) (hb : isInsignificant b = false) :
    ReadMember (memberFront name ++ b :: text) key v rest ↔
      key = utf16 name ∧ ReadValue (b :: text) v rest := by
  have hfront : memberFront name ++ b :: text =
      quote :: (escape (utf8 name) ++ quote :: colon :: b :: text) := by
    simp [memberFront]
  rw [hfront]
  constructor
  · intro h
    cases h with
    | mk hquote hkey hcolon hvalue hv =>
      rw [skips_cons_iff (by decide)] at hquote
      rw [(List.cons.inj hquote).2, content_escape_iff] at hkey
      obtain ⟨-, hkey, hafter⟩ := hkey
      rw [hafter, skips_cons_iff (by decide)] at hcolon
      rw [(List.cons.inj hcolon).2, skips_cons_iff hb] at hvalue
      rw [hvalue] at hv
      exact ⟨hkey, hv⟩
  · rintro ⟨hkey, hv⟩
    exact .mk ((skips_cons_iff (by decide)).mpr rfl) (content_escape_iff.mpr ⟨hname, hkey, rfl⟩)
      ((skips_cons_iff (by decide)).mpr rfl) ((skips_cons_iff hb).mpr rfl) hv

/-- Under the condition, the text starts with the member, which the rest follows; if it does not hold,
the text starts with no member. Readings that stop inside a number do not count. -/
def ReadsOnly (text : Bytes) (p : Prop) (key : List UInt16) (v : Value) (rest : Bytes) : Prop :=
  ∀ key' v' rest', (ReadMember text key' v' rest' ∧ Ends rest') ↔
    p ∧ key' = key ∧ v' = v ∧ rest' = rest

theorem readsOnly_number (name : List Char) (z : ℤ) {rest : Bytes} (hname : ControlsEscaped name)
    (hrest : Ends rest) :
    ReadsOnly (memberFront name ++ (signedDecimal z ++ rest)) True (utf16 name) (.number z)
      rest := by
  intro key v rest'
  have hz := number_signedDecimal z
  obtain ⟨b, tail, hb⟩ := List.exists_cons_of_ne_nil hz.ne_nil
  have hblank : isInsignificant b = false := by
    rw [← Bool.not_eq_true]
    intro hblank
    have hnumber := hz.isNumberByte b (by simp [hb])
    rw [isNumberByte_of_isInsignificant hblank] at hnumber
    cases hnumber
  have hvalue : (ReadValue (signedDecimal z ++ rest) v rest' ∧ Ends rest') ↔
      v = .number z ∧ rest' = rest := readValue_signedDecimal_iff hrest
  rw [hb, List.cons_append] at hvalue ⊢
  rw [readMember_iff hname hblank, and_assoc, hvalue, true_and]

theorem readsOnly_string (name text : List Char) {rest : Bytes} (hname : ControlsEscaped name)
    (hrest : Ends rest) :
    ReadsOnly (memberFront name ++ quote :: (escape (utf8 text) ++ quote :: rest))
      (ControlsEscaped text) (utf16 name) (.string (utf16 text)) rest := by
  intro key v rest'
  rw [readMember_iff hname (by decide), readValue_quote_iff]
  constructor
  · rintro ⟨⟨hkey, us, hv, h⟩, -⟩
    obtain ⟨htext, hus, hback⟩ := content_escape_iff.mp h
    rw [hus] at hv
    exact ⟨htext, hkey, hv, hback⟩
  · rintro ⟨htext, hkey, hv, hback⟩
    refine ⟨⟨hkey, _, hv, content_escape_iff.mpr ⟨htext, rfl, hback⟩⟩, ?_⟩
    rw [hback]
    exact hrest

section members

variable {text rest : Bytes} {p : Prop} {key : List UInt16} {v : Value}
  {members : List (List UInt16 × Value)}

/-- A member and a comma, and then the other members. -/
theorem readMembers_comma_iff {more : Bytes} (h : ReadsOnly text p key v (comma :: more)) :
    ReadMembers text members rest ↔
      p ∧ ∃ others, members = (key, v) :: others ∧ ReadMembers more others rest := by
  have hcomma : ∀ {c : UInt8} {tail : Bytes}, Skips (comma :: more) (c :: tail) ↔
      c :: tail = comma :: more := skips_cons_iff (by decide)
  constructor
  · intro hread
    cases hread with
    | last hm hback =>
      obtain ⟨-, -, -, hrest⟩ := (h _ _ _).mp ⟨hm, ends_of_skips (by decide) hback⟩
      rw [hrest, hcomma] at hback
      exact absurd (List.cons.inj hback).1 (by decide)
    | cons hm hback hothers =>
      obtain ⟨hp, hkey, hv, hrest⟩ := (h _ _ _).mp ⟨hm, ends_of_skips (by decide) hback⟩
      rw [hrest, hcomma] at hback
      rw [(List.cons.inj hback).2] at hothers
      rw [hkey, hv]
      exact ⟨hp, _, rfl, hothers⟩
  · rintro ⟨hp, others, hmembers, hothers⟩
    obtain ⟨hm, -⟩ := (h key v (comma :: more)).mpr ⟨hp, rfl, rfl, rfl⟩
    rw [hmembers]
    exact .cons hm (hcomma.mpr rfl) hothers

/-- A member and the closing brace. -/
theorem readMembers_close_iff {back : Bytes} (h : ReadsOnly text p key v (closeBrace :: back)) :
    ReadMembers text members rest ↔ p ∧ members = [(key, v)] ∧ rest = back := by
  have hclose : ∀ {c : UInt8} {tail : Bytes}, Skips (closeBrace :: back) (c :: tail) ↔
      c :: tail = closeBrace :: back := skips_cons_iff (by decide)
  constructor
  · intro hread
    cases hread with
    | last hm hback =>
      obtain ⟨hp, hkey, hv, hrest⟩ := (h _ _ _).mp ⟨hm, ends_of_skips (by decide) hback⟩
      rw [hrest, hclose] at hback
      rw [hkey, hv]
      exact ⟨hp, rfl, (List.cons.inj hback).2⟩
    | cons hm hback hothers =>
      obtain ⟨-, -, -, hrest⟩ := (h _ _ _).mp ⟨hm, ends_of_skips (by decide) hback⟩
      rw [hrest, hclose] at hback
      exact absurd (List.cons.inj hback).1 (by decide)
  · rintro ⟨hp, hmembers, hrest⟩
    obtain ⟨hm, -⟩ := (h key v (closeBrace :: back)).mpr ⟨hp, rfl, rfl, rfl⟩
    rw [hmembers, hrest]
    exact .last hm (hclose.mpr rfl)

end members

/-- A text that starts with a brace is an object, if anything. -/
theorem text_openBrace_iff {text : Bytes} {v : Value} :
    Text (openBrace :: text) v ↔ ∃ members rest, v = .object members ∧ Skips rest [] ∧
      (ReadMembers text members rest ∨ (members = [] ∧ Skips text (closeBrace :: rest))) := by
  unfold Text
  constructor
  · rintro ⟨front, rest, hfront, hv, hrest⟩
    rw [skips_cons_iff (by decide)] at hfront
    rw [hfront, readValue_openBrace_iff] at hv
    obtain ⟨members, hv, hmembers⟩ := hv
    exact ⟨members, rest, hv, hrest, hmembers⟩
  · rintro ⟨members, rest, hv, hrest, hmembers⟩
    exact ⟨_, rest, (skips_cons_iff (by decide)).mpr rfl,
      readValue_openBrace_iff.mpr ⟨members, hv, hmembers⟩, hrest⟩

end TemplateLexer.Json
