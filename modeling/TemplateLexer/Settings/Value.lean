import TemplateLexer.Number.Decimal

/-!
# Option values

An option has a truth value, a 64-bit whole number, a binary64 number or a text. On the command line
the type is seen from the shape of the text (`OptionValue.parse`).
-/

namespace TemplateLexer

open Bytes

/-- The value of an option. -/
inductive OptionValue where
  | bool (value : Bool)
  | integer (value : Int64)
  /-- A binary64 number, given by its encoding. -/
  | float (bits : UInt64)
  | string (value : Bytes)
  deriving DecidableEq

namespace OptionValue

/-- The name of a value's type. -/
def typeName : OptionValue → Bytes
  | bool _ => ascii "bool"
  | integer _ => ascii "integer"
  | float _ => ascii "float"
  | string _ => ascii "string"

/-- One more than the largest 64-bit whole number, and the size of the smallest. -/
def int64Limit : Int := 0x8000000000000000

/-- The 64-bit whole number that a text denotes. -/
def int64? (text : Bytes) : Option Int64 :=
  match Decimal.integer? text with
  | some n => if -int64Limit ≤ n ∧ n < int64Limit then some (Int64.ofInt n) else none
  | none => none

/-- The value of a text by its shape: `true` and `false`, then whole numbers of 64 bits, then other
numbers; any other text stands for itself. -/
def parse (text : Bytes) : OptionValue :=
  if text = ascii "true" then bool true
  else if text = ascii "false" then bool false
  else
    match int64? text with
    | some n => integer n
    | none =>
      match Decimal.binary64? text with
      | some bits => float bits
      | none => string text

end OptionValue

end TemplateLexer
