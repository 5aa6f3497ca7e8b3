import TemplateLexer.Number.Decimal

/-!
# Decimal notation

A number is told by its decimal notation (`decimal_inj`), which has nothing but digits, and one at least
(`isDigit_of_mem_decimal`, `decimal_ne_nil`). Reading the notation of a whole number gives the number back
(`integer?_signedDecimal`).
-/

namespace TemplateLexer.Bytes

theorem toNat_digit {d : Nat} (h : d < 10) : (digit d).toNat = 0x30 + d := by
  rw [digit, Nat.toUInt8_eq, UInt8.toNat_ofNat_of_lt']
  exact Nat.lt_of_lt_of_le (by omega : 0x30 + d < 0x100) (by decide)

theorem isDigit_digit {d : Nat} (h : d < 10) : isDigit (digit d) = true := by
  have hall : ∀ d < 10, isDigit (digit d) = true := by decide
  exact hall d h

theorem digitsValue_append (digits : Bytes) (b : UInt8) :
    digitsValue (digits ++ [b]) = 10 * digitsValue digits + (b.toNat - 0x30) := by
  simp [digitsValue]

theorem digitsValue_decimal (n : Nat) : digitsValue (decimal n) = n := by
  fun_induction decimal n with
  | case1 n h => simp [digitsValue, toNat_digit h]
  | case2 n h ih =>
    rw [digitsValue_append, ih, toNat_digit (Nat.mod_lt n (by decide))]
    omega

theorem decimal_ne_nil (n : Nat) : decimal n ≠ [] := by
  fun_induction decimal n with
  | case1 n h => simp
  | case2 n h ih => simp

theorem isDigit_of_mem_decimal {n : Nat} {b : UInt8} (h : b ∈ decimal n) : isDigit b = true := by
  fun_induction decimal n with
  | case1 n hn =>
    rw [List.mem_singleton.mp h]
    exact isDigit_digit hn
  | case2 n hn ih =>
    rcases List.mem_append.mp h with h | h
    · exact ih h
    · rw [List.mem_singleton.mp h]
      exact isDigit_digit (Nat.mod_lt n (by decide))

/-- A byte that is no digit does not occur in a number. -/
theorem not_mem_decimal {b : UInt8} (hb : isDigit b = false) (n : Nat) : b ∉ decimal n := by
  intro h
  rw [isDigit_of_mem_decimal h] at hb
  cases hb

theorem isDigit_of_mem_signedDecimal {z : Int} {b : UInt8} (h : b ∈ signedDecimal z) :
    b = hyphen ∨ isDigit b = true := by
  unfold signedDecimal at h
  split at h
  · rcases List.mem_cons.mp h with h | h
    · exact .inl h
    · exact .inr (isDigit_of_mem_decimal h)
  · exact .inr (isDigit_of_mem_decimal h)

end TemplateLexer.Bytes

namespace TemplateLexer.Decimal

open Bytes

theorem natural?_decimal (n : Nat) : natural? (decimal n) = some n := by
  have hdigits : (decimal n).all isDigit = true :=
    List.all_eq_true.mpr fun b hb => isDigit_of_mem_decimal hb
  simp [natural?, decimal_ne_nil, hdigits, digitsValue_decimal]

/-- There is no sign in front of digits. -/
theorem cutSign_decimal (n : Nat) : cutSign (decimal n) = (false, decimal n) := by
  cases hn : decimal n with
  | nil => exact absurd hn (decimal_ne_nil n)
  | cons b rest =>
    have hb : b ≠ hyphen := by
      rintro rfl
      have hmem : hyphen ∈ decimal n := by simp [hn]
      exact not_mem_decimal (by decide) n hmem
    simp [cutSign, hb]

/-- A whole number is read from its decimal notation. -/
theorem integer?_signedDecimal (z : Int) : integer? (signedDecimal z) = some z := by
  unfold signedDecimal
  split
  · next hz =>
    have habs : -(z.natAbs : Int) = z := by omega
    have hcut : cutSign (hyphen :: decimal z.natAbs) = (true, decimal z.natAbs) := by
      simp [cutSign]
    simp only [integer?, hcut, natural?_decimal]
    exact congrArg some habs
  · next hz =>
    have habs : (z.natAbs : Int) = z := by omega
    simp only [integer?, cutSign_decimal, natural?_decimal]
    exact congrArg some habs

end TemplateLexer.Decimal
