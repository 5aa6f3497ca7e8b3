import Mathlib.Data.List.Induction
import Mathlib.Data.List.TakeWhile
import Mathlib.Data.Nat.Digits.Defs
import TemplateLexer.Proofs.Bytes.Search
import TemplateLexer.Proofs.Number.Decimal

/-!
# The forms of numbers

What the readers of numbers take, told by the form of the text.

* `integer?_eq_some_iff`: a whole number is digits, and a hyphen in front of them for a negative one;
* `named?_eq_some_iff`: the names that stand for infinity and for a value that is not a number;
* `mem_numberBytes_of_scientific?`: any other number is written with sixteen bytes;
* `exists_binary64?_iff`: so with another byte in it, a text is a number only by its name.
-/

namespace TemplateLexer.Decimal

open Bytes

/-! ## Whole numbers -/

/-- Digits, one at least, and the number that they denote by their places. -/
structure Numeral (text : Bytes) (n : ℕ) : Prop where
  ne_nil : text ≠ []
  digits : ∀ b ∈ text, isDigit b = true
  value : n = Nat.ofDigits 10 (text.reverse.map fun b => b.toNat - 0x30)

/-- A text that denotes a whole number: digits, and a hyphen in front of them for a negative one. Zeros in
front change nothing, and zero may have the hyphen too. -/
inductive WholeNumber : Bytes → ℤ → Prop
  | plain {text : Bytes} {n : ℕ} (h : Numeral text n) : WholeNumber text n
  | negative {text : Bytes} {n : ℕ} (h : Numeral text n) : WholeNumber (hyphen :: text) (-n)

theorem digitsValue_eq_ofDigits (text : Bytes) :
    digitsValue text = Nat.ofDigits 10 (text.reverse.map fun b => b.toNat - 0x30) := by
  induction text using List.reverseRecOn with
  | nil => rfl
  | append_singleton text b ih =>
    rw [digitsValue_append, ih, List.reverse_append, List.reverse_singleton, List.singleton_append,
      List.map_cons, Nat.ofDigits_cons, Nat.add_comm]

theorem natural?_eq_some_iff {text : Bytes} {n : ℕ} : natural? text = some n ↔ Numeral text n := by
  rw [natural?, Option.ite_none_left_eq_some, digitsValue_eq_ofDigits]
  simp only [Bool.or_eq_true, List.isEmpty_iff, Bool.not_eq_true', not_or, Bool.not_eq_false,
    List.all_eq_true]
  constructor
  · rintro ⟨⟨hne, hdigits⟩, hvalue⟩
    exact ⟨hne, hdigits, (Option.some.inj hvalue).symm⟩
  · rintro ⟨hne, hdigits, rfl⟩
    exact ⟨⟨hne, hdigits⟩, rfl⟩

theorem Numeral.head?_ne_hyphen {text : Bytes} {n : ℕ} (h : Numeral text n) :
    text.head? ≠ some hyphen := by
  intro hhead
  have hdigit := h.digits hyphen (List.mem_of_mem_head? hhead)
  cases hdigit

/-- A text starts with a hyphen, which is cut off, or it is left as it is. -/
theorem cases_cutSign (text : Bytes) :
    (∃ unsigned, text = hyphen :: unsigned ∧ cutSign text = (true, unsigned)) ∨
      (text.head? ≠ some hyphen ∧ cutSign text = (false, text)) := by
  cases text with
  | nil => exact .inr ⟨nofun, rfl⟩
  | cons b rest =>
    by_cases hb : b = hyphen
    · subst hb
      exact .inl ⟨rest, rfl, by simp [cutSign]⟩
    · refine .inr ⟨?_, if_neg hb⟩
      intro hhead
      exact hb (Option.some.inj hhead)

theorem integer?_of_cutSign {text unsigned : Bytes} {negative : Bool}
    (h : cutSign text = (negative, unsigned)) :
    integer? text = (natural? unsigned).map fun n : ℕ => if negative then -(n : ℤ) else (n : ℤ) := by
  simp only [integer?, h]
  cases natural? unsigned with
  | none => rfl
  | some n => rfl

theorem integer?_eq_some_iff {text : Bytes} {z : ℤ} : integer? text = some z ↔ WholeNumber text z := by
  rcases cases_cutSign text with ⟨unsigned, rfl, hcut⟩ | ⟨hhead, hcut⟩
  · simp only [integer?_of_cutSign hcut, Option.map_eq_some_iff, natural?_eq_some_iff, if_true]
    constructor
    · rintro ⟨n, hn, rfl⟩
      exact .negative hn
    · intro h
      cases h with
      | plain hn => exact absurd rfl hn.head?_ne_hyphen
      | negative hn => exact ⟨_, hn, rfl⟩
  · simp only [integer?_of_cutSign hcut, Option.map_eq_some_iff, natural?_eq_some_iff, reduceIte,
      Bool.false_eq_true]
    constructor
    · rintro ⟨n, hn, rfl⟩
      exact .plain hn
    · intro h
      cases h with
      | plain hn => exact ⟨_, hn, rfl⟩
      | negative hn => exact absurd rfl hhead

/-- A text denotes one whole number at most. -/
theorem WholeNumber.unique {text : Bytes} {y z : ℤ} (hy : WholeNumber text y)
    (hz : WholeNumber text z) : y = z :=
  Option.some.inj ((integer?_eq_some_iff.mpr hy).symm.trans (integer?_eq_some_iff.mpr hz))

theorem wholeNumber_signedDecimal (z : ℤ) : WholeNumber (signedDecimal z) z :=
  integer?_eq_some_iff.mp (integer?_signedDecimal z)

/-! ## The bytes of other numbers -/

/-- The bytes that numbers with a point and an exponent are written with. -/
def numberBytes : Bytes := ascii "0123456789.+-eE"

/-- A byte that passes for a digit is the byte of a digit. -/
theorem exists_digit_of_isDigit {b : UInt8} (h : isDigit b = true) : ∃ d < 10, b = digit d := by
  simp only [isDigit, Bool.and_eq_true, decide_eq_true_eq, UInt8.le_iff_toNat_le] at h
  have hlow : 0x30 ≤ b.toNat := h.1
  have hhigh : b.toNat ≤ 0x39 := h.2
  have hd : b.toNat - 0x30 < 10 := by omega
  refine ⟨b.toNat - 0x30, hd, ?_⟩
  rw [← UInt8.toNat_inj, toNat_digit hd]
  omega

theorem mem_numberBytes_of_isDigit {b : UInt8} (h : isDigit b = true) : b ∈ numberBytes := by
  rcases exists_digit_of_isDigit h with ⟨d, hd, rfl⟩
  have hall : ∀ d < 10, digit d ∈ numberBytes := by decide
  exact hall d hd

theorem Numeral.mem_numberBytes {text : Bytes} {n : ℕ} (h : Numeral text n) :
    ∀ b ∈ text, b ∈ numberBytes :=
  fun b hb => mem_numberBytes_of_isDigit (h.digits b hb)

theorem WholeNumber.mem_numberBytes {text : Bytes} {z : ℤ} (h : WholeNumber text z) :
    ∀ b ∈ text, b ∈ numberBytes := by
  cases h with
  | plain h => exact h.mem_numberBytes
  | negative h => exact List.forall_mem_cons.mpr ⟨by decide, h.mem_numberBytes⟩

/-- The letter of an exponent is small or capital. -/
theorem eq_of_lowerByte_eq_e {b : UInt8} (h : lowerByte b = 0x65) : b = 0x65 ∨ b = 0x45 := by
  unfold lowerByte at h
  grind

theorem mem_numberBytes_of_exponent? {text : Bytes} {e : ℤ} (h : exponent? text = some e) :
    ∀ b ∈ text, b ∈ numberBytes := by
  unfold exponent? at h
  split at h
  · exact List.forall_mem_nil _
  · next b rest =>
    split at h
    · next hletter =>
      have hb : b ∈ numberBytes := by
        rcases eq_of_lowerByte_eq_e hletter with rfl | rfl
        · decide
        · decide
      split at h
      · next c digits =>
        refine List.forall_mem_cons.mpr ⟨hb, ?_⟩
        split at h
        · next hplus =>
          subst hplus
          cases hn : natural? digits with
          | none =>
            rw [hn] at h
            cases h
          | some n =>
            exact List.forall_mem_cons.mpr ⟨by decide, (natural?_eq_some_iff.mp hn).mem_numberBytes⟩
        · exact (integer?_eq_some_iff.mp h).mem_numberBytes
      · cases h
    · cases h

theorem mem_numberBytes_of_scientific? {text : Bytes} {s : Scientific}
    (h : scientific? text = some s) : ∀ b ∈ text, b ∈ numberBytes := by
  -- digits in front of a tail are no matter
  have hdigits : ∀ tail : Bytes, (∀ b ∈ tail.dropWhile isDigit, b ∈ numberBytes) →
      ∀ b ∈ tail, b ∈ numberBytes := by
    intro tail htail
    rw [← List.takeWhile_append_dropWhile (p := isDigit) (l := tail)]
    refine List.forall_mem_append.mpr ⟨?_, htail⟩
    intro b hb
    exact mem_numberBytes_of_isDigit (List.mem_takeWhile_imp hb)
  apply hdigits
  unfold scientific? at h
  simp only at h
  split at h
  · next b rest hafter =>
    rw [hafter]
    split at h
    · next hpoint =>
      rcases Option.map_eq_some_iff.mp (Option.ite_none_left_eq_some.mp h).2 with ⟨e, he, -⟩
      subst hpoint
      exact List.forall_mem_cons.mpr ⟨by decide, hdigits rest (mem_numberBytes_of_exponent? he)⟩
    · rcases Option.map_eq_some_iff.mp (Option.ite_none_left_eq_some.mp h).2 with ⟨e, he, -⟩
      rw [← hafter]
      exact mem_numberBytes_of_exponent? he
  · next hafter =>
    rw [hafter]
    exact List.forall_mem_nil _

/-! ## Names of numbers -/

/-- The parenthesis in front of a payload. -/
abbrev openParen : UInt8 := 0x28

/-- The parenthesis behind a payload. -/
abbrev closeParen : UInt8 := 0x29

/-- The names of numbers, in any case of letters, and the encodings that they stand for. A value that is not
a number may have a payload of letters, digits and underscores. -/
inductive Names : Bytes → ℕ → Prop
  | infinity {text : Bytes} (h : text.map lowerByte = ascii "inf" ∨ text.map lowerByte = ascii "infinity") :
      Names text Binary64.infinity
  | notANumber {text : Bytes} (h : text.map lowerByte = ascii "nan") : Names text Binary64.notANumber
  | payload {name payload : Bytes} (hname : name.map lowerByte = ascii "nan")
      (hpayload : ∀ b ∈ payload, isPayloadByte b = true) :
      Names (name ++ openParen :: (payload ++ [closeParen])) Binary64.notANumber

/-- The case of a letter does not matter in a payload. -/
theorem isPayloadByte_lowerByte (b : UInt8) : isPayloadByte (lowerByte b) = isPayloadByte b := by
  unfold lowerByte isPayloadByte isDigit isLetter
  grind

/-- Only letters come from other bytes. -/
theorem eq_of_lowerByte_eq {b c : UInt8} (h : lowerByte b = c) (hc : isLetter c = false) : b = c := by
  simp only [isLetter, Bool.or_eq_false_iff, Bool.and_eq_false_iff, decide_eq_false_iff_not] at hc
  unfold lowerByte at h
  grind

/-- A name with a payload in parentheses, told by its small letters. -/
theorem names_of_payload {text rest : Bytes} (h : text.map lowerByte = ascii "nan" ++ openParen :: rest)
    (hlast : rest.getLast? = some closeParen) (hpayload : rest.dropLast.all isPayloadByte = true) :
    Names text Binary64.notANumber := by
  rcases List.map_eq_append_iff.mp h with ⟨name, behind, rfl, hname, hbehind⟩
  rcases List.map_eq_cons_iff.mp hbehind with ⟨b, inner, rfl, hb, hinner⟩
  rcases List.getLast?_eq_some_iff.mp hlast with ⟨lower, rfl⟩
  rcases List.map_eq_append_iff.mp hinner with ⟨payload, last, rfl, rfl, hend⟩
  rcases List.map_eq_singleton_iff.mp hend with ⟨c, rfl, hc⟩
  rw [eq_of_lowerByte_eq hb (by decide), eq_of_lowerByte_eq hc (by decide)]
  refine .payload hname ?_
  intro d hd
  rw [List.dropLast_concat, List.all_map, List.all_eq_true] at hpayload
  rw [← isPayloadByte_lowerByte]
  exact hpayload d hd

theorem Names.named?_eq {text : Bytes} {bits : ℕ} (h : Names text bits) : named? text = some bits := by
  cases h with
  | infinity h => simp [named?, h]
  | notANumber h =>
    simp only [named?, h]
    decide
  | @payload name payload hname hpayload =>
    have hlower : (name ++ openParen :: (payload ++ [closeParen])).map lowerByte =
        ascii "nan" ++ openParen :: (payload.map lowerByte ++ [closeParen]) := by
      rw [List.map_append, hname, List.map_cons, List.map_append]
      rfl
    have hinf : ∀ rest, ascii "nan" ++ rest ≠ ascii "inf" ∧ ascii "nan" ++ rest ≠ ascii "infinity" := by
      intro rest
      exact ⟨nofun, nofun⟩
    simpa [named?, hlower, hinf, afterStem?_append, isPayloadByte_lowerByte] using hpayload

theorem named?_eq_some_iff {text : Bytes} {bits : ℕ} : named? text = some bits ↔ Names text bits := by
  constructor
  · intro h
    unfold named? at h
    simp only at h
    split at h
    · next hname =>
      simp only [Bool.or_eq_true, decide_eq_true_eq] at hname
      cases h
      exact .infinity hname
    · split at h
      · next hstem =>
        cases h
        exact .notANumber ((afterStem?_eq_some_iff.mp hstem).trans (List.append_nil _))
      · next b rest hstem =>
        split at h
        · next hform =>
          simp only [Bool.and_eq_true, decide_eq_true_eq] at hform
          rcases hform with ⟨⟨rfl, hlast⟩, hpayload⟩
          cases h
          exact names_of_payload (afterStem?_eq_some_iff.mp hstem) hlast hpayload
        · cases h
      · cases h
  · intro h
    exact h.named?_eq

/-- The text is the name of a number, with a hyphen in front of it or without one. -/
inductive NamesNumber : Bytes → Prop
  | plain {text : Bytes} {bits : ℕ} (h : Names text bits) : NamesNumber text
  | negative {text : Bytes} {bits : ℕ} (h : Names text bits) : NamesNumber (hyphen :: text)

theorem Names.head?_ne_hyphen {text : Bytes} {bits : ℕ} (h : Names text bits) :
    text.head? ≠ some hyphen := by
  intro hhead
  rcases List.head?_eq_some_iff.mp hhead with ⟨rest, rfl⟩
  have hnone : named? (hyphen :: rest) = none := by
    simp [named?, afterStem?, ascii, lowerByte, hyphen]
  rw [h.named?_eq] at hnone
  cases hnone

theorem namesNumber_hyphen_iff {text : Bytes} :
    NamesNumber (hyphen :: text) ↔ ∃ bits, named? text = some bits := by
  constructor
  · intro h
    cases h with
    | plain h => exact absurd rfl h.head?_ne_hyphen
    | negative h => exact ⟨_, h.named?_eq⟩
  · rintro ⟨bits, h⟩
    exact .negative (named?_eq_some_iff.mp h)

theorem namesNumber_iff {text : Bytes} (hhead : text.head? ≠ some hyphen) :
    NamesNumber text ↔ ∃ bits, named? text = some bits := by
  constructor
  · intro h
    cases h with
    | plain h => exact ⟨_, h.named?_eq⟩
    | negative h => exact absurd rfl hhead
  · rintro ⟨bits, h⟩
    exact .plain (named?_eq_some_iff.mp h)

/-- With a byte in it that belongs to no other number, a text is a number only by its name. -/
theorem exists_binary64?_of_cutSign {text unsigned : Bytes} {negative : Bool}
    (hcut : cutSign text = (negative, unsigned)) (hother : ∃ b ∈ unsigned, b ∉ numberBytes) :
    (∃ bits, binary64? text = some bits) ↔ ∃ bits, named? unsigned = some bits := by
  have hscientific : scientific? unsigned = none := by
    rcases hother with ⟨b, hb, hnot⟩
    rw [Option.eq_none_iff_forall_not_mem]
    intro s hs
    exact hnot (mem_numberBytes_of_scientific? hs b hb)
  simp [binary64?, hcut, hscientific]

theorem exists_binary64?_iff {text : Bytes} (hother : ∃ b ∈ text, b ∉ numberBytes) :
    (∃ bits, binary64? text = some bits) ↔ NamesNumber text := by
  rcases cases_cutSign text with ⟨unsigned, rfl, hcut⟩ | ⟨hhead, hcut⟩
  · -- the hyphen is not the other byte
    have hmem : ∃ b ∈ unsigned, b ∉ numberBytes := by
      rcases hother with ⟨b, hb, hnot⟩
      rcases List.mem_cons.mp hb with rfl | hb
      · exact absurd (by decide) hnot
      · exact ⟨b, hb, hnot⟩
    rw [exists_binary64?_of_cutSign hcut hmem, namesNumber_hyphen_iff]
  · rw [exists_binary64?_of_cutSign hcut hother, namesNumber_iff hhead]

end TemplateLexer.Decimal
