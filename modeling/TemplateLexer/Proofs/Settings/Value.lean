import TemplateLexer.Proofs.Number.Form
import TemplateLexer.Settings.Value

/-!
# Option values by their shape

The type of an option is seen from its text alone: from the first of four shapes that the text has
(`Shape`, `shape_parse`).

* `int64?_eq_some_iff`: whole numbers of 64 bits are read exactly, and others are not read;
* `parse_eq_bool_iff`, `parse_eq_integer_iff`: the texts that give truth values and whole numbers;
* `parse_eq_string_iff`: of the texts with a byte that is in no other number, those that are kept;
* `parse_by_shape`: all of it together.
-/

namespace TemplateLexer.OptionValue

open Bytes Decimal

variable {text : Bytes}

theorem int64?_eq_some_iff {v : Int64} : int64? text = some v ↔ WholeNumber text v.toInt := by
  unfold int64?
  rw [← integer?_eq_some_iff]
  constructor
  · intro h
    split at h
    · next n hn =>
      rcases Option.ite_none_right_eq_some.mp h with ⟨⟨hlow, hhigh⟩, hv⟩
      rw [hn, ← Option.some.inj hv, Int64.toInt_ofInt_of_le hlow hhigh]
    · cases h
  · intro h
    rw [h]
    exact (if_pos ⟨v.le_toInt, v.toInt_lt⟩).trans (congrArg some v.ofInt_toInt)

/-- The word for a truth value. -/
def truthWord (b : Bool) : Bytes := if b then ascii "true" else ascii "false"

/-- The value that a text has by the first shape that fits. -/
inductive Shape (text : Bytes) : OptionValue → Prop
  | bool {b : Bool} (h : text = truthWord b) : Shape text (.bool b)
  | integer {v : Int64} (hword : ∀ b, text ≠ truthWord b) (h : int64? text = some v) :
      Shape text (.integer v)
  | float {bits : UInt64} (hword : ∀ b, text ≠ truthWord b) (hint : int64? text = none)
      (h : binary64? text = some bits) : Shape text (.float bits)
  | string (hword : ∀ b, text ≠ truthWord b) (hint : int64? text = none)
      (h : binary64? text = none) : Shape text (.string text)

theorem shape_parse (text : Bytes) : Shape text (parse text) := by
  unfold parse
  split
  · next htrue => exact .bool htrue
  · next htrue =>
    split
    · next hfalse => exact .bool hfalse
    · next hfalse =>
      have hword : ∀ b, text ≠ truthWord b := by
        intro b
        cases b with
        | true => exact htrue
        | false => exact hfalse
      split
      · next hint => exact .integer hword hint
      · next hint =>
        split
        · next hfloat => exact .float hword hint hfloat
        · next hfloat => exact .string hword hint hfloat

theorem parse_truthWord (b : Bool) : parse (truthWord b) = .bool b := by
  cases b with
  | true => rfl
  | false => rfl

theorem parse_eq_bool_iff {b : Bool} : parse text = .bool b ↔ text = truthWord b := by
  constructor
  · intro h
    have hshape := shape_parse text
    rw [h] at hshape
    cases hshape with
    | bool h => exact h
  · rintro rfl
    exact parse_truthWord b

/-- No word for a truth value denotes a number. -/
theorem int64?_truthWord (b : Bool) : int64? (truthWord b) = none := by
  cases b with
  | true => decide
  | false => decide

theorem parse_eq_integer_iff {v : Int64} : parse text = .integer v ↔ WholeNumber text v.toInt := by
  rw [← int64?_eq_some_iff]
  have hshape := shape_parse text
  constructor
  · intro h
    rw [h] at hshape
    cases hshape with
    | integer _ hint => exact hint
  · intro h
    generalize parse text = value at hshape
    cases hshape with
    | bool hword =>
      rw [hword, int64?_truthWord] at h
      cases h
    | integer _ hint => rw [Option.some.inj (hint.symm.trans h)]
    | float _ hint =>
      rw [hint] at h
      cases h
    | string _ hint =>
      rw [hint] at h
      cases h

/-- A text with a byte that is in no other number is kept unless it is the name of a number. -/
theorem parse_eq_string_iff (hword : ∀ b, text ≠ truthWord b) (hother : ∃ b ∈ text, b ∉ numberBytes) :
    parse text = .string text ↔ ¬ NamesNumber text := by
  rw [← exists_binary64?_iff hother]
  have hshape := shape_parse text
  generalize parse text = value at hshape
  cases hshape with
  | bool h => exact absurd h (hword _)
  | integer _ hint =>
    rcases hother with ⟨b, hb, hnot⟩
    exact absurd ((int64?_eq_some_iff.mp hint).mem_numberBytes b hb) hnot
  | float _ _ h => simp [h]
  | string _ _ h => simp [h]

/-- **Option values by their shape.** A text is read as a whole number exactly if it is digits, with a hyphen in
front of them or without one, for a number of 64 bits with a sign, and as a truth value exactly if it is the
word for it. So each such number is read back from its decimal notation, and digits for a larger or smaller
number never give one. A text with a byte in it that is neither a digit nor a point, a sign or the letter of an
exponent, and is no truth value, is kept as it is exactly if it does not name infinity or a value that is not a
number. -/
theorem parse_by_shape (text : Bytes) :
    (∀ z : ℤ, (∃ v : Int64, parse text = .integer v ∧ v.toInt = z) ↔
      WholeNumber text z ∧ -2 ^ 63 ≤ z ∧ z < 2 ^ 63) ∧
    (parse text = .bool true ↔ text = ascii "true") ∧
    (parse text = .bool false ↔ text = ascii "false") ∧
    (∀ v : Int64, parse (signedDecimal v.toInt) = .integer v) ∧
    (∀ z : ℤ, WholeNumber text z → ¬ (-2 ^ 63 ≤ z ∧ z < 2 ^ 63) → ∀ v, parse text ≠ .integer v) ∧
    (text ≠ ascii "true" → text ≠ ascii "false" → (∃ b ∈ text, b ∉ numberBytes) →
      (parse text = .string text ↔ ¬ NamesNumber text)) := by
  refine ⟨?_, parse_eq_bool_iff, parse_eq_bool_iff, ?_, ?_, ?_⟩
  · intro z
    constructor
    · rintro ⟨v, hv, rfl⟩
      exact ⟨parse_eq_integer_iff.mp hv, v.le_toInt, v.toInt_lt⟩
    · rintro ⟨hnumber, hlow, hhigh⟩
      have hz : (Int64.ofInt z).toInt = z := Int64.toInt_ofInt_of_le hlow hhigh
      refine ⟨Int64.ofInt z, parse_eq_integer_iff.mpr ?_, hz⟩
      rwa [hz]
  · intro v
    exact parse_eq_integer_iff.mpr (wholeNumber_signedDecimal v.toInt)
  · intro z hnumber hrange v hv
    have hz : v.toInt = z := (parse_eq_integer_iff.mp hv).unique hnumber
    rw [← hz] at hrange
    exact hrange ⟨v.le_toInt, v.toInt_lt⟩
  · intro htrue hfalse hother
    apply parse_eq_string_iff ?_ hother
    intro b
    cases b with
    | true => exact htrue
    | false => exact hfalse

/-- The two ends of the range with zeros in front, the first number behind it, a number with more behind it, and
a name with a payload. -/
theorem parse_by_shape_limits :
    let last := ascii "009223372036854775807"
    let first := ascii "-9223372036854775808"
    let beyond := ascii "9223372036854775808"
    (∃ v, parse last = .integer v ∧ v.toInt = 2 ^ 63 - 1) ∧
      (∃ v, parse first = .integer v ∧ v.toInt = -2 ^ 63) ∧
      (WholeNumber beyond (2 ^ 63) ∧ ∀ v, parse beyond ≠ .integer v) ∧
      parse (ascii "12abc") = .string (ascii "12abc") ∧
      parse (ascii "-NaN(x_1)") ≠ .string (ascii "-NaN(x_1)") := by
  intro last first beyond
  have hlast : WholeNumber last (2 ^ 63 - 1) := integer?_eq_some_iff.mp (by decide)
  have hfirst : WholeNumber first (-2 ^ 63) := integer?_eq_some_iff.mp (by decide)
  have hbeyond : WholeNumber beyond (2 ^ 63) := integer?_eq_some_iff.mp (by decide)
  have hplain : ¬ NamesNumber (ascii "12abc") := by
    rw [namesNumber_iff (by decide)]
    rintro ⟨bits, hbits⟩
    cases hbits
  have hname : NamesNumber (ascii "-NaN(x_1)") := namesNumber_hyphen_iff.mpr ⟨_, rfl⟩
  refine ⟨?_, ?_, ⟨hbeyond, ?_⟩, ?_, ?_⟩
  · exact ((parse_by_shape last).1 _).mpr ⟨hlast, by decide, by decide⟩
  · exact ((parse_by_shape first).1 _).mpr ⟨hfirst, by decide, by decide⟩
  · exact (parse_by_shape beyond).2.2.2.2.1 _ hbeyond (by decide)
  · exact ((parse_by_shape (ascii "12abc")).2.2.2.2.2 (by decide) (by decide)
      ⟨0x61, by decide, by decide⟩).mpr hplain
  · intro hkept
    exact ((parse_by_shape (ascii "-NaN(x_1)")).2.2.2.2.2 (by decide) (by decide)
      ⟨openParen, by decide, by decide⟩).mp hkept hname

end TemplateLexer.OptionValue
