import Mathlib.Data.List.Forall2
import TemplateLexer.Proofs.Bytes.Lines
import TemplateLexer.Proofs.Bytes.Quoted
import TemplateLexer.Proofs.Bytes.Search
import TemplateLexer.Proofs.Log.JsonLine

/-!
# Reading a JSON log

A log in JSON has a line for each record, whatever bytes the records have, and can be read back: the list of
its records is told by it, up to the levels that have no name of their own (`jsonLog_readable`).

Reading goes by lines (`readLog?`), and in a line from member to member (`readLine?`). A text that looks like
the end of a member does no harm, since its quotation marks are escaped.
-/

namespace TemplateLexer.Log.Record

open Bytes Json

/-! ## What is read -/

/-- What a line tells of a record. -/
structure Shown where
  timestamp : Int
  level : Bytes
  module : Bytes
  message : Bytes
  deriving DecidableEq, Repr

/-- The record as its line shows it. A level is shown by its name. -/
def shown (r : Record) : Shown where
  timestamp := r.timestamp
  level := r.level.name
  module := r.module
  message := r.message

/-- The lines of some records. -/
def jsonLog (clock : TimeOfDay) (records : List Record) : Bytes :=
  records.flatMap fun r => r.render .json clock

/-! ## Reading -/

/-- Reads a member whose value is a string: the string, and what follows it. -/
def readStringMember? (name : List Char) (text : Bytes) : Option (Bytes × Bytes) :=
  (afterStem? (memberFront name ++ [quote]) text).bind readEscaped?

/-- Reads a line without its newline. -/
def readLine? (line : Bytes) : Option Shown := do
  let text ← afterStem? (openBrace :: memberFront "ts".toList) line
  let (digits, text) ← cutAt? [comma] text
  let timestamp ← Decimal.integer? digits
  let (level, text) ← readStringMember? "level".toList text
  let text ← afterStem? [comma] text
  let (module, text) ← readStringMember? "module".toList text
  let text ← afterStem? [comma] text
  let (message, text) ← readStringMember? "msg".toList text
  if text = [closeBrace] then some { timestamp, level, module, message } else none

/-- Reads the records of a log, line by line. -/
def readLog? (text : Bytes) : Option (List Shown) := (linesOf text).mapM readLine?

theorem readStringMember?_escape (name : List Char) (text rest : Bytes) :
    readStringMember? name (memberFront name ++ quote :: (escape text ++ quote :: rest)) =
      some (text, rest) := by
  have hstem : memberFront name ++ quote :: (escape text ++ quote :: rest) =
      (memberFront name ++ [quote]) ++ (escape text ++ quote :: rest) := by simp
  rw [readStringMember?, hstem, afterStem?_append, Option.bind_some, readEscaped?_escape]

/-- The digits of a number end at the comma. -/
theorem cutAt?_signedDecimal (z : ℤ) (rest : Bytes) :
    cutAt? [comma] (signedDecimal z ++ comma :: rest) = some (signedDecimal z, rest) := by
  rw [cutAt?_singleton_eq_some_iff]
  refine ⟨rfl, ?_⟩
  intro hcomma
  exact absurd (isDigit_of_mem_signedDecimal hcomma) (by decide)

/-- There is nothing to escape in the name of a level. -/
theorem escape_level_name (level : Level) : escape level.name = level.name := by
  rcases exists_level_name level with ⟨name, hname, -, hescape⟩
  rw [hname, hescape]

/-- A line is read back. -/
theorem readLine?_line (r : Record) : readLine? r.line = some r.shown := by
  have hstem : r.line = (openBrace :: memberFront "ts".toList) ++
      (signedDecimal r.timestamp ++ comma ::
        (memberFront "level".toList ++ quote :: (escape r.level.name ++ quote :: ([comma] ++
          (memberFront "module".toList ++ quote :: (escape r.module ++ quote :: ([comma] ++
            (memberFront "msg".toList ++
              quote :: (escape r.message ++ quote :: [closeBrace]))))))))) := by
    rw [escape_level_name]
    rfl
  rw [hstem]
  simp only [readLine?, afterStem?_append, cutAt?_signedDecimal, Decimal.integer?_signedDecimal,
    readStringMember?_escape, Option.bind_eq_bind, Option.bind_some, if_true]
  rfl

/-- A line tells what it shows, and nothing else. -/
theorem line_eq_iff {r r' : Record} : r.line = r'.line ↔ r.timestamp = r'.timestamp ∧
    r.level.name = r'.level.name ∧ r.module = r'.module ∧ r.message = r'.message := by
  constructor
  · intro h
    have hshown : r.shown = r'.shown := by
      rw [← Option.some.injEq, ← readLine?_line, ← readLine?_line, h]
    rw [shown, shown, Shown.mk.injEq] at hshown
    exact hshown
  · rintro ⟨htimestamp, hlevel, hmodule, hmessage⟩
    rw [line, line, htimestamp, hlevel, hmodule, hmessage]

/-! ## Lines -/

theorem newline_not_mem_memberFront (name : List Char) : newline ∉ memberFront name := by
  have hsigns : newline ≠ quote ∧ newline ≠ colon := by decide
  simp [memberFront, hsigns, not_mem_escape]

theorem newline_not_mem_line (r : Record) : newline ∉ r.line := by
  have hnumber : newline ∉ signedDecimal r.timestamp := by
    intro h
    exact absurd (isDigit_of_mem_signedDecimal h) (by decide)
  have hname : newline ∉ r.level.name := by
    rw [← escape_level_name]
    exact not_mem_escape (by decide) _
  have hsigns : newline ≠ openBrace ∧ newline ≠ comma ∧ newline ≠ quote ∧ newline ≠ closeBrace := by
    decide
  have hescape := not_mem_escape (b := newline) (by decide)
  simp [line, hnumber, hname, hsigns, hescape, newline_not_mem_memberFront]

/-- A log is made of the lines of its records. -/
theorem jsonLog_eq (clock : TimeOfDay) (records : List Record) :
    jsonLog clock records = (records.map line).flatMap (· ++ [newline]) := by
  rw [jsonLog, List.flatMap_map]
  apply List.flatMap_congr
  intro r _
  exact json_eq r

theorem newline_not_mem_lines (records : List Record) : ∀ l ∈ records.map line, newline ∉ l := by
  intro l hl
  rcases List.mem_map.mp hl with ⟨r, -, rfl⟩
  exact newline_not_mem_line r

/-- Logs are told apart by their lines. -/
theorem jsonLog_eq_iff {clock : TimeOfDay} {records records' : List Record} :
    jsonLog clock records = jsonLog clock records' ↔ records.map line = records'.map line := by
  rw [jsonLog_eq, jsonLog_eq]
  constructor
  · intro h
    have hlines := congrArg linesOf h
    rwa [linesOf_flatMap (newline_not_mem_lines _), linesOf_flatMap (newline_not_mem_lines _)] at hlines
  · intro h
    rw [h]

theorem readLog?_jsonLog (clock : TimeOfDay) (records : List Record) :
    readLog? (jsonLog clock records) = some (records.map shown) := by
  have hread : readLine? ∘ line = fun r => pure r.shown := funext readLine?_line
  rw [readLog?, jsonLog_eq, linesOf_flatMap (newline_not_mem_lines records), List.mapM_map, hread,
    List.mapM_pure]
  rfl

/-- **A log in JSON tells its records.** Each record takes one line, which has its only newline at the end.
From the lines of any records, the time, the name of the level, the module and the message of each record
are read back; so two logs are the same exactly if their records agree in these one by one. -/
theorem jsonLog_readable (clock : TimeOfDay) :
    (∀ r : Record, ∃ line, r.render .json clock = line ++ [newline] ∧ newline ∉ line) ∧
      (∀ records, (jsonLog clock records).count newline = records.length ∧
        readLog? (jsonLog clock records) = some (records.map shown)) ∧
      ∀ records records', jsonLog clock records = jsonLog clock records' ↔
        List.Forall₂ (fun r r' => r.timestamp = r'.timestamp ∧ r.level.name = r'.level.name ∧
          r.module = r'.module ∧ r.message = r'.message) records records' := by
  refine ⟨?_, ?_, ?_⟩
  · intro r
    exact ⟨r.line, json_eq r, newline_not_mem_line r⟩
  · intro records
    constructor
    · rw [jsonLog_eq, count_newline_lines (newline_not_mem_lines records), List.length_map]
    · exact readLog?_jsonLog clock records
  · intro records records'
    simp only [← line_eq_iff]
    rw [jsonLog_eq_iff, ← List.forall₂_eq_eq_eq, List.forall₂_map_left_iff,
      List.forall₂_map_right_iff]

end TemplateLexer.Log.Record
