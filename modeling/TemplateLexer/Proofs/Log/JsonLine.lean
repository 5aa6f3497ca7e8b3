import TemplateLexer.Log.Record
import TemplateLexer.Proofs.Json.Reading

/-!
# Records as JSON texts

Of the control characters, the line of a record escapes newline, carriage return and tab, and no others;
but a string of a JSON text may hold none of them as they are. So the line is a JSON text exactly if its
module and its message have no other control characters. It means then an object with the time, the
level, the module and the message, and nothing else (`text_json_iff`).
-/

namespace TemplateLexer.Log.Record

open Bytes Json

/-- The name of a level in characters, none of which is escaped. -/
theorem exists_level_name (level : Level) :
    ∃ name : List Char, level.name = utf8 name ∧ ControlsEscaped name ∧
      escape (utf8 name) = utf8 name := by
  have hnames : ∀ bytes ∈ ascii "???" :: Level.names.map Prod.snd,
      ∃ name ∈ ["???", "TRACE", "DEBUG", "INFO", "WARN", "ERROR", "FATAL", "OFF"].map String.toList,
        bytes = utf8 name ∧ ControlsEscaped name ∧ escape (utf8 name) = utf8 name := by
    decide
  have hmem : level.name ∈ ascii "???" :: Level.names.map Prod.snd := by
    unfold Level.name
    cases hlookup : Level.names.lookup level with
    | none => exact List.mem_cons_self
    | some bytes =>
      obtain ⟨before, after, hsplit, -⟩ := List.lookup_eq_some_iff.mp hlookup
      simp [hsplit]
  obtain ⟨name, -, h⟩ := hnames level.name hmem
  exact ⟨name, h⟩

/-- The line of a record without its newline, member by member. -/
def line (r : Record) : Bytes :=
  openBrace ::
    (memberFront "ts".toList ++ (signedDecimal r.timestamp ++ comma ::
      (memberFront "level".toList ++ quote :: (r.level.name ++ quote :: comma ::
        (memberFront "module".toList ++ quote :: (escape r.module ++ quote :: comma ::
          (memberFront "msg".toList ++ quote :: (escape r.message ++ quote :: [closeBrace]))))))))

theorem json_eq (r : Record) : r.json = r.line ++ [newline] := by
  have hts : ascii "\x7b\"ts\":" = openBrace :: memberFront "ts".toList := by decide
  have hlevel : ascii ",\"level\":\"" = comma :: (memberFront "level".toList ++ [quote]) := by
    decide
  have hmodule : ascii "\",\"module\":\"" =
      quote :: comma :: (memberFront "module".toList ++ [quote]) := by decide
  have hmessage : ascii "\",\"msg\":\"" =
      quote :: comma :: (memberFront "msg".toList ++ [quote]) := by decide
  have hend : ascii "\"\x7d\n" = [quote, closeBrace, newline] := by decide
  rw [json, hts, hlevel, hmodule, hmessage, hend]
  simp only [line, List.append_assoc, List.cons_append, List.nil_append]

/-- What the line of a record is to mean. -/
def meaning (timestamp : ℤ) (level module message : List Char) : Value :=
  .object
    [ (utf16 "ts".toList, .number timestamp),
      (utf16 "level".toList, .string (utf16 level)),
      (utf16 "module".toList, .string (utf16 module)),
      (utf16 "msg".toList, .string (utf16 message)) ]

section line

variable {r : Record} {module message : List Char} (hmodule : r.module = utf8 module)
  (hmessage : r.message = utf8 message)

include hmodule hmessage

/-- The line is read member by member, in one way at most. -/
theorem exists_text_line_iff : ∃ level, r.level.name = utf8 level ∧ ∀ v, Text r.line v ↔
    ControlsEscaped module ∧ ControlsEscaped message ∧
      v = meaning r.timestamp level module message := by
  obtain ⟨level, hlevel, hcontrols, hescape⟩ := exists_level_name r.level
  refine ⟨level, hlevel, ?_⟩
  intro v
  rw [line, hmodule, hmessage, hlevel, ← hescape]
  have hcomma := ends_cons (b := comma) (by decide)
  have hclose := ends_cons (b := closeBrace) (by decide) []
  -- the members, each with what follows it
  have hts := fun more => readsOnly_number "ts".toList r.timestamp (by decide) (hcomma more)
  have hname := fun more => readsOnly_string "level".toList level (by decide) (hcomma more)
  have hmod := fun more => readsOnly_string "module".toList module (by decide) (hcomma more)
  have hmsg := readsOnly_string "msg".toList message (by decide) hclose
  rw [text_openBrace_iff]
  constructor
  · rintro ⟨members, rest, hv, -, hmembers | ⟨-, hskips⟩⟩
    · obtain ⟨-, others, h1, hmembers⟩ := (readMembers_comma_iff (hts _)).mp hmembers
      obtain ⟨-, others', h2, hmembers⟩ := (readMembers_comma_iff (hname _)).mp hmembers
      obtain ⟨hcontrols₁, others'', h3, hmembers⟩ := (readMembers_comma_iff (hmod _)).mp hmembers
      obtain ⟨hcontrols₂, h4, -⟩ := (readMembers_close_iff hmsg).mp hmembers
      rw [h1, h2, h3, h4] at hv
      exact ⟨hcontrols₁, hcontrols₂, hv⟩
    · -- the brace is not closed at once
      have hquote := (skips_cons_iff (b := quote) (by decide)).mp hskips
      exact absurd (List.cons.inj hquote).1 (by decide)
  · rintro ⟨hcontrols₁, hcontrols₂, hv⟩
    refine ⟨_, [], hv, skips_nil_iff.mpr rfl, .inl ?_⟩
    have h4 := (readMembers_close_iff hmsg).mpr ⟨hcontrols₂, rfl, rfl⟩
    have h3 := (readMembers_comma_iff (hmod _)).mpr ⟨hcontrols₁, _, rfl, h4⟩
    have h2 := (readMembers_comma_iff (hname _)).mpr ⟨hcontrols, _, rfl, h3⟩
    exact (readMembers_comma_iff (hts _)).mpr ⟨trivial, _, rfl, h2⟩

/-- A line that is a JSON text tells all that is in its record. -/
theorem eq_of_text_line {r' : Record} {module' message' : List Char}
    (hmodule' : r'.module = utf8 module') (hmessage' : r'.message = utf8 message') {v : Value}
    (h : Text r.line v) (h' : Text r'.line v) :
    r.timestamp = r'.timestamp ∧ r.level.name = r'.level.name ∧ r.module = r'.module ∧
      r.message = r'.message := by
  obtain ⟨level, hlevel, htext⟩ := exists_text_line_iff hmodule hmessage
  obtain ⟨level', hlevel', htext'⟩ := exists_text_line_iff hmodule' hmessage'
  have hmeaning := ((htext v).mp h).2.2.symm.trans ((htext' v).mp h').2.2
  simp only [meaning, Value.object.injEq, List.cons.injEq, Prod.mk.injEq, Value.number.injEq,
    Value.string.injEq, Int.cast_inj, true_and, and_true, utf16_injective.eq_iff] at hmeaning
  obtain ⟨hts, hname, hmod, hmsg⟩ := hmeaning
  rw [hlevel, hlevel', hmodule, hmodule', hmessage, hmessage', hname, hmod, hmsg]
  exact ⟨hts, rfl, rfl, rfl⟩

end line

/-- **When the line of a record is a JSON text.** Without its newline, the line is one exactly if all
control characters of the module and of the message are escaped, that is, if there are none but
newlines, carriage returns and tabs. What it means then is the object that has the time as a number,
and the name of the level, the module and the message as strings. -/
theorem text_json_iff {r : Record} {module message : List Char} (hmodule : r.module = utf8 module)
    (hmessage : r.message = utf8 message) :
    ∃ line level, r.json = line ++ [newline] ∧ r.level.name = utf8 level ∧
      ∀ v, Text line v ↔ ControlsEscaped module ∧ ControlsEscaped message ∧
        v = .object
          [ (utf16 "ts".toList, .number r.timestamp),
            (utf16 "level".toList, .string (utf16 level)),
            (utf16 "module".toList, .string (utf16 module)),
            (utf16 "msg".toList, .string (utf16 message)) ] := by
  obtain ⟨level, hlevel, htext⟩ := exists_text_line_iff hmodule hmessage
  exact ⟨r.line, level, json_eq r, hlevel, htext⟩

/-- A record with quotation marks and a newline in its message. -/
def quotingRecord : Record :=
  { level := .info, module := ascii "lexer", message := ascii "a \"b\"\n", timestamp := -1 }

/-- The same with a control character that is not escaped. -/
def controlRecord : Record := { quotingRecord with message := [0x01] }

theorem text_json_quotingRecord :
    (∃ line v, quotingRecord.json = line ++ [newline] ∧ Text line v) ∧
      ∃ line, controlRecord.json = line ++ [newline] ∧ ∀ v, ¬ Text line v := by
  have hmodule : ascii "lexer" = utf8 "lexer".toList := by decide
  constructor
  · obtain ⟨line, level, hline, -, htext⟩ := text_json_iff (r := quotingRecord)
      hmodule (by decide : _ = utf8 "a \"b\"\n".toList)
    exact ⟨line, _, hline, (htext _).mpr ⟨by decide, by decide, rfl⟩⟩
  · obtain ⟨line, level, hline, -, htext⟩ := text_json_iff (r := controlRecord)
      hmodule (by decide : _ = utf8 [Char.ofNat 1])
    refine ⟨line, hline, ?_⟩
    intro v hv
    exact absurd ((htext v).mp hv).2.1 (by decide)

end TemplateLexer.Log.Record
