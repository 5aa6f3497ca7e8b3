import TemplateLexer.Bytes.Basic
import TemplateLexer.Number.Binary64

/-!
# Numbers written in decimal

Readers for the two shapes of numbers. Each takes a whole text or nothing: a text with anything
before or after the number is not a number.

* `integer?`: an optional hyphen and digits;
* `binary64?`: an optional hyphen, and digits with an optional point and exponent, or the name of
  infinity or of a value that is not a number, in any case of letters.
-/

namespace TemplateLexer.Decimal

open Bytes

/-! ## Whole numbers -/

/-- The number that a non-empty run of digits denotes. -/
def natural? (text : Bytes) : Option Nat :=
  if text.isEmpty || !text.all isDigit then none else some (digitsValue text)

/-- The text without a leading hyphen, and whether there was one. -/
def cutSign (text : Bytes) : Bool × Bytes :=
  match text with
  | b :: rest => if b = hyphen then (true, rest) else (false, text)
  | [] => (false, [])

/-- The whole number that a text denotes. -/
def integer? (text : Bytes) : Option Int :=
  let (negative, digits) := cutSign text
  (natural? digits).map fun n => if negative then -(n : Int) else n

/-! ## Numbers with a point and an exponent -/

/-- The number `coefficient · 10 ^ exponent`. -/
structure Scientific where
  coefficient : Nat
  exponent : Int
  deriving DecidableEq, Repr

/-- The exponent that a text denotes: nothing at all, or the letter `e`, a sign if wanted, and
digits. -/
def exponent? (text : Bytes) : Option Int :=
  match text with
  | [] => some 0
  | b :: rest =>
    if lowerByte b = 0x65 then
      match rest with
      | c :: digits =>
        if c = 0x2B then (natural? digits).map fun n => (n : Int)
        else integer? (c :: digits)
      | [] => none
    else none

/-- The unsigned number that a text denotes: digits with an optional point among or beside them, at
least one digit, and an optional exponent. -/
def scientific? (text : Bytes) : Option Scientific :=
  let whole := text.takeWhile isDigit
  let afterWhole := text.dropWhile isDigit
  let (fraction, tail) :=
    match afterWhole with
    | b :: rest =>
      if b = 0x2E then (rest.takeWhile isDigit, rest.dropWhile isDigit) else ([], afterWhole)
    | [] => ([], [])
  if whole.isEmpty && fraction.isEmpty then none
  else (exponent? tail).map fun e =>
    { coefficient := digitsValue (whole ++ fraction), exponent := e - fraction.length }

/-- The encoding of the binary64 number nearest to a number. A number other than zero that is too
large or too small has none. Numbers from `10 ^ 400` on, and those below `10 ^ -401`, are not
computed: the format ends before them. -/
def Scientific.nearest? (s : Scientific) : Option Nat :=
  if s.coefficient = 0 then some 0
  else
    let magnitude := s.exponent + (decimal s.coefficient).length
    if magnitude < -400 ∨ 400 < magnitude then none
    else if 0 ≤ s.exponent then Binary64.ofFraction? (s.coefficient * Nat.pow 10 s.exponent.toNat) 1
    else Binary64.ofFraction? s.coefficient (Nat.pow 10 (-s.exponent).toNat)

/-! ## Names of numbers -/

/-- May the byte stand in the parentheses after the name of a value that is not a number? -/
def isPayloadByte (b : UInt8) : Bool := isDigit b || isLetter b || b == 0x5F

/-- The encoding that a name stands for: infinity, or not a number with an optional payload in
parentheses. -/
def named? (text : Bytes) : Option Nat :=
  let lower := text.map lowerByte
  if lower = ascii "inf" || lower = ascii "infinity" then some Binary64.infinity
  else
    match afterStem? (ascii "nan") lower with
    | some [] => some Binary64.notANumber
    | some (b :: rest) =>
      if b = 0x28 && rest.getLast? = some 0x29 && rest.dropLast.all isPayloadByte then
        some Binary64.notANumber
      else none
    | none => none

/-- The encoding of the binary64 number that a text denotes. -/
def binary64? (text : Bytes) : Option UInt64 :=
  let (negative, unsigned) := cutSign text
  let bits? := (named? unsigned).or ((scientific? unsigned).bind Scientific.nearest?)
  bits?.map fun bits => (if negative then Binary64.negate bits else bits).toUInt64

end TemplateLexer.Decimal
