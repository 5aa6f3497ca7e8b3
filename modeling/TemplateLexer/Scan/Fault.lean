import TemplateLexer.Delimiters
import TemplateLexer.Location

/-!
# Faults of a template

A scan never stops early: what is wrong with a template is recorded as a fault, and the scan goes
on. Each fault has a cause and the extent it concerns.

| code | cause |
|------|-------|
| L001 | a tag without its close delimiter |
| L002 | a delimiter change without its end |
| L003 | a delimiter change that does not name two delimiters |
| L004 | delimiters given for the scan that are not two words |
-/

namespace TemplateLexer

open Bytes

/-- What is wrong. -/
inductive Cause where
  /-- The input ends inside a tag. -/
  | unterminatedTag (closeMark : Bytes)
  /-- The input ends inside a delimiter change. -/
  | unterminatedChange (changeMark : Bytes)
  /-- The body of a delimiter change is not two words. -/
  | invalidChange (error : Delimiters.ParseError)
  /-- The delimiters given for the scan are not two words. -/
  | invalidOverride (error : Delimiters.ParseError)
  deriving DecidableEq, Repr

/-- The short code of a cause. -/
def Cause.code : Cause → Bytes
  | unterminatedTag _ => ascii "L001"
  | unterminatedChange _ => ascii "L002"
  | invalidChange _ => ascii "L003"
  | invalidOverride _ => ascii "L004"

/-- The wording of a cause. -/
def Cause.message : Cause → Bytes
  | unterminatedTag closeMark =>
    ascii "unterminated tag, expected '" ++ closeMark ++ ascii "' before end of input"
  | unterminatedChange changeMark =>
    ascii "unterminated delimiter change, expected '" ++ changeMark ++ ascii "'"
  | invalidChange error => ascii "invalid delimiter change: " ++ error.message
  | invalidOverride error => ascii "invalid delimiters: " ++ error.message

/-- Something wrong with a template, and where. -/
structure Fault where
  cause : Cause
  extent : Extent
  deriving DecidableEq, Repr

end TemplateLexer
