import Mathlib.Algebra.Field.Rat
import TemplateLexer.Proofs.Bytes.Utf8

/-!
# JSON texts

The grammar of JSON with what its texts mean, over the bytes of a text in UTF-8. All bytes outside
strings are those of characters below U+0080. A string is a sequence of UTF-16 code units, as one of
them is what an escape with four hexadecimal digits stands for, and a number is rational.

A relation such as `ReadValue text v rest` means that `text` starts with a value, that the value is
`v`, and that `rest` follows it. A text may be read in several ways, as the relations do not look
ahead; which of them are ways to read the whole text is up to what follows.

* `Number`: a number, in its parts: a sign, digits, a fraction and an exponent;
* `Content`: a string up to its closing quotation mark;
* `ReadValue`, `ReadElements`, `ReadMembers`: a value, and what arrays and objects are made of;
* `Text`: a whole text, a value between insignificant blanks.
-/

namespace TemplateLexer.Json

open Bytes

/-! ## Values -/

/-- What a JSON text means. -/
inductive Value where
  | null
  | boolean (b : Bool)
  | number (q : ℚ)
  | string (units : List UInt16)
  | array (elements : List Value)
  | object (members : List (List UInt16 × Value))

/-- The bytes that are blanks between tokens. -/
def isInsignificant (b : UInt8) : Bool :=
  b = space || b = tab || b = newline || b = carriageReturn

/-- After some blanks, or none, the text is the rest. -/
def Skips (text rest : Bytes) : Prop :=
  ∃ blanks, text = blanks ++ rest ∧ ∀ b ∈ blanks, isInsignificant b = true

/-! ## Numbers -/

/-- The decimal point. -/
abbrev point : UInt8 := 0x2E

/-- The plus sign of an exponent. -/
abbrev plusSign : UInt8 := 0x2B

/-- One digit or more. -/
structure Digits (text : Bytes) : Prop where
  ne_nil : text ≠ []
  digits : ∀ b ∈ text, isDigit b = true

/-- The minus sign of a number, if there is one. -/
inductive Sign : Bytes → ℚ → Prop
  | none : Sign [] 1
  | minus : Sign [hyphen] (-1)

/-- The digits in front of the point. Only a zero on its own starts with a zero. -/
structure Whole (text : Bytes) : Prop extends Digits text where
  canonical : text.head? = some (digit 0) → text = [digit 0]

/-- The point and the digits behind it, if there are any. -/
inductive Fraction : Bytes → ℚ → Prop
  | none : Fraction [] 0
  | digits {text : Bytes} (h : Digits text) :
    Fraction (point :: text) (digitsValue text / 10 ^ text.length)

/-- The letter `e`, small or capital. -/
def IsE (b : UInt8) : Prop := b = 0x65 ∨ b = 0x45

/-- The exponent, if there is one. -/
inductive Exponent : Bytes → ℤ → Prop
  | none : Exponent [] 0
  | plain {e : UInt8} {text : Bytes} (he : IsE e) (h : Digits text) :
    Exponent (e :: text) (digitsValue text)
  | plus {e : UInt8} {text : Bytes} (he : IsE e) (h : Digits text) :
    Exponent (e :: plusSign :: text) (digitsValue text)
  | minus {e : UInt8} {text : Bytes} (he : IsE e) (h : Digits text) :
    Exponent (e :: hyphen :: text) (-digitsValue text)

/-- A number. -/
inductive Number : Bytes → ℚ → Prop
  | mk {sign whole fraction exponent : Bytes} {s f : ℚ} {e : ℤ} (hs : Sign sign s)
      (hw : Whole whole) (hf : Fraction fraction f) (he : Exponent exponent e) :
    Number (sign ++ whole ++ fraction ++ exponent) (s * (digitsValue whole + f) * 10 ^ e)

/-! ## Strings -/

/-- The letters behind a backslash, with the code units that they stand for. -/
def shortEscapes : List (UInt8 × UInt16) :=
  [ (quote, 0x22), (backslash, 0x5C), (0x2F, 0x2F), (0x62, 0x08), (0x66, 0x0C), (0x6E, 0x0A),
    (0x72, 0x0D), (0x74, 0x09) ]

/-- The letter behind a backslash that four hexadecimal digits follow. -/
abbrev hexLetter : UInt8 := 0x75

/-- The value of a hexadecimal digit. -/
def hexDigit? (b : UInt8) : Option ℕ :=
  if isDigit b then some (b.toNat - 0x30)
  else if 0x41 ≤ b && b ≤ 0x46 then some (b.toNat - 0x41 + 10)
  else if 0x61 ≤ b && b ≤ 0x66 then some (b.toNat - 0x61 + 10)
  else none

/-- What is between the quotation marks of a string, with the closing one. -/
inductive Content : Bytes → List UInt16 → Bytes → Prop
  | stop {rest : Bytes} : Content (quote :: rest) [] rest
  | char {c : Char} {text rest : Bytes} {us : List UInt16} (control : 0x20 ≤ c.toNat)
      (hquote : c ≠ '"') (hbackslash : c ≠ '\\') (h : Content text us rest) :
    Content (String.utf8EncodeChar c ++ text) (units c ++ us) rest
  | short {b : UInt8} {u : UInt16} {text rest : Bytes} {us : List UInt16}
      (hu : shortEscapes.lookup b = some u) (h : Content text us rest) :
    Content (backslash :: b :: text) (u :: us) rest
  | hex {a b c d : UInt8} {m n k l : ℕ} {text rest : Bytes} {us : List UInt16}
      (ha : hexDigit? a = some m) (hb : hexDigit? b = some n) (hc : hexDigit? c = some k)
      (hd : hexDigit? d = some l) (h : Content text us rest) :
    Content (backslash :: hexLetter :: a :: b :: c :: d :: text)
      (UInt16.ofNat (((m * 16 + n) * 16 + k) * 16 + l) :: us) rest

/-! ## Values and their parts -/

/-- The byte between elements and between members. -/
abbrev comma : UInt8 := 0x2C

/-- The byte between the name and the value of a member. -/
abbrev colon : UInt8 := 0x3A

/-- The byte that starts an object. -/
abbrev openBrace : UInt8 := 0x7B

mutual

/-- A value. -/
inductive ReadValue : Bytes → Value → Bytes → Prop
  | null {rest : Bytes} : ReadValue (ascii "null" ++ rest) .null rest
  | yes {rest : Bytes} : ReadValue (ascii "true" ++ rest) (.boolean true) rest
  | no {rest : Bytes} : ReadValue (ascii "false" ++ rest) (.boolean false) rest
  | number {text rest : Bytes} {q : ℚ} (h : Number text q) :
    ReadValue (text ++ rest) (.number q) rest
  | string {text rest : Bytes} {us : List UInt16} (h : Content text us rest) :
    ReadValue (quote :: text) (.string us) rest
  | emptyArray {text rest : Bytes} (h : Skips text (0x5D :: rest)) :
    ReadValue (0x5B :: text) (.array []) rest
  | array {text rest : Bytes} {elements : List Value} (h : ReadElements text elements rest) :
    ReadValue (0x5B :: text) (.array elements) rest
  | emptyObject {text rest : Bytes} (h : Skips text (closeBrace :: rest)) :
    ReadValue (openBrace :: text) (.object []) rest
  | object {text rest : Bytes} {members : List (List UInt16 × Value)}
      (h : ReadMembers text members rest) :
    ReadValue (openBrace :: text) (.object members) rest

/-- The elements of an array, with the closing bracket. -/
inductive ReadElements : Bytes → List Value → Bytes → Prop
  | last {text front back rest : Bytes} {v : Value} (hfront : Skips text front)
      (hv : ReadValue front v back) (hback : Skips back (0x5D :: rest)) :
    ReadElements text [v] rest
  | cons {text front back more rest : Bytes} {v : Value} {elements : List Value}
      (hfront : Skips text front) (hv : ReadValue front v back)
      (hback : Skips back (comma :: more)) (h : ReadElements more elements rest) :
    ReadElements text (v :: elements) rest

/-- The name of a member, its colon and its value. -/
inductive ReadMember : Bytes → List UInt16 → Value → Bytes → Prop
  | mk {text name afterName value front rest : Bytes} {key : List UInt16} {v : Value}
      (hname : Skips text (quote :: name)) (hkey : Content name key afterName)
      (hcolon : Skips afterName (colon :: value)) (hfront : Skips value front)
      (hv : ReadValue front v rest) :
    ReadMember text key v rest

/-- The members of an object, with the closing brace. -/
inductive ReadMembers : Bytes → List (List UInt16 × Value) → Bytes → Prop
  | last {text back rest : Bytes} {key : List UInt16} {v : Value} (hm : ReadMember text key v back)
      (hback : Skips back (closeBrace :: rest)) :
    ReadMembers text [(key, v)] rest
  | cons {text back more rest : Bytes} {key : List UInt16} {v : Value}
      {members : List (List UInt16 × Value)} (hm : ReadMember text key v back)
      (hback : Skips back (comma :: more)) (h : ReadMembers more members rest) :
    ReadMembers text ((key, v) :: members) rest

end

/-- A JSON text, with what it means. -/
def Text (text : Bytes) (v : Value) : Prop :=
  ∃ front rest, Skips text front ∧ ReadValue front v rest ∧ Skips rest []

end TemplateLexer.Json
