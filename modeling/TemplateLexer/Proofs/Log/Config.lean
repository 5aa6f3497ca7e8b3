import TemplateLexer.Log.Config
import TemplateLexer.Proofs.Bytes.Search
import TemplateLexer.Proofs.LastWins

/-!
# Who tells how to log

The logging flags of a command line and an environment variable each may say at what level to log and which
filter to use. Here it is told who is heard, by how flags are written (`Flag.Written`), and not by reading
them one after the other:

* `Flag.parse?_eq_some_iff`, `Flag.isFlag_iff`: an argument is read as a logging flag exactly if it is
  written like one, and it is passed over as one exactly if it is read as one;
* `Flags.Shows`: flags read one after the other show what the last of a kind said, and `Flags.Most` the
  largest verbosity;
* `Config.level_eq_of_asked`, `Config.filter_eq_of_asked`: an explicit level goes before verbosity, and flags
  go before the environment;
* `Config.ofArguments_precedence`: so the configuration is the one that arguments and environment ask for
  (`Config.Answers`), and all that is no logging flag may be left out.
-/

namespace TemplateLexer.Log

open Bytes

/-! ## How flags are written -/

namespace Flag

/-- How logging flags are written, and what they ask for. -/
inductive Written : Bytes → Flag → Prop
  | level (name : Bytes) : Written (ascii "--log-level=" ++ name) (.level (.parse name))
  | filter (spec : Bytes) : Written (ascii "--log-filter=" ++ spec) (.filter spec)
  | file (path : Bytes) : Written (ascii "--log-file=" ++ path) (.file path)
  | json {name : Bytes} (named : name = ascii "json" ∨ name = ascii "JSON") :
    Written (ascii "--log-format=" ++ name) (.format .json)
  | text {name : Bytes} (small : name ≠ ascii "json") (large : name ≠ ascii "JSON") :
    Written (ascii "--log-format=" ++ name) (.format .text)
  | quiet : Written (ascii "-q") (.level .error)
  | quietWord : Written (ascii "--quiet") (.level .error)
  | verboseWord : Written (ascii "--verbose") (.verbosity 1)
  /-- A hyphen and a run of the letter `v`. -/
  | verbose {count : Nat} (some : 0 < count) :
    Written (hyphen :: List.replicate count 0x76) (.verbosity count)

theorem verbosity?_eq_some_iff {arg : Bytes} {count : Nat} :
    verbosity? arg = some count ↔ 0 < count ∧ arg = hyphen :: List.replicate count 0x76 := by
  cases arg with
  | nil => simp [verbosity?]
  | cons b letters =>
    rw [verbosity?, Option.ite_none_right_eq_some]
    simp only [Bool.and_eq_true, decide_eq_true_eq, Bool.not_eq_true', List.isEmpty_eq_false_iff,
      List.all_eq_true, beq_iff_eq, Option.some.injEq, List.cons.injEq, List.eq_replicate_iff]
    constructor
    · rintro ⟨⟨⟨rfl, hne⟩, hall⟩, rfl⟩
      exact ⟨List.length_pos_iff.mpr hne, rfl, rfl, hall⟩
    · rintro ⟨hpos, rfl, rfl, hall⟩
      exact ⟨⟨⟨rfl, List.length_pos_iff.mp hpos⟩, hall⟩, rfl⟩

theorem formatNamed_cases (name : Bytes) :
    (formatNamed name = .json ∧ (name = ascii "json" ∨ name = ascii "JSON")) ∨
      (formatNamed name = .text ∧ name ≠ ascii "json" ∧ name ≠ ascii "JSON") := by
  unfold formatNamed
  by_cases h : name = ascii "json" ∨ name = ascii "JSON"
  · exact .inl ⟨if_pos h, h⟩
  · exact .inr ⟨if_neg h, not_or.mp h⟩

theorem written_format (name : Bytes) :
    Written (ascii "--log-format=" ++ name) (.format (formatNamed name)) := by
  rcases formatNamed_cases name with ⟨hformat, hname⟩ | ⟨hformat, hsmall, hlarge⟩
  · rw [hformat]
    exact .json hname
  · rw [hformat]
    exact .text hsmall hlarge

/-- An argument is read as a flag exactly if it is written like one: no argument is written like two. -/
theorem parse?_eq_some_iff {arg : Bytes} {flag : Flag} :
    parse? arg = some flag ↔ Written arg flag := by
  constructor
  · intro h
    unfold parse? at h
    split at h
    · next hrest =>
      cases h
      rw [afterStem?_eq_some_iff.mp hrest]
      exact .level _
    split at h
    · next hrest =>
      cases h
      rw [afterStem?_eq_some_iff.mp hrest]
      exact .filter _
    split at h
    · next hrest =>
      cases h
      rw [afterStem?_eq_some_iff.mp hrest]
      exact .file _
    split at h
    · next hrest =>
      cases h
      rw [afterStem?_eq_some_iff.mp hrest]
      exact written_format _
    split at h
    · next hword =>
      cases h
      rcases hword with rfl | rfl
      · exact .quiet
      · exact .quietWord
    split at h
    · next hword =>
      cases h
      rw [hword]
      exact .verboseWord
    · rcases Option.map_eq_some_iff.mp h with ⟨count, hcount, rfl⟩
      rcases verbosity?_eq_some_iff.mp hcount with ⟨hpos, rfl⟩
      exact .verbose hpos
  · intro h
    cases h with
    | level name => rfl
    | filter spec => rfl
    | file path => rfl
    | @json name named =>
      have hformat : formatNamed name = .json := if_pos named
      rw [← hformat]
      rfl
    | @text name small large =>
      have hformat : formatNamed name = .text := if_neg (not_or.mpr ⟨small, large⟩)
      rw [← hformat]
      rfl
    | quiet => rfl
    | quietWord => rfl
    | verboseWord => rfl
    | @verbose count hpos =>
      -- no stem and no word starts with a hyphen and the letter `v`
      obtain ⟨more, rfl⟩ := Nat.exists_eq_succ_of_ne_zero (Nat.ne_of_gt hpos)
      have hcount : verbosity? (hyphen :: List.replicate (more + 1) 0x76) = some (more + 1) :=
        verbosity?_eq_some_iff.mpr ⟨hpos, rfl⟩
      show (verbosity? (hyphen :: List.replicate (more + 1) 0x76)).map verbosity = _
      rw [hcount]
      rfl

/-- The test for logging flags, form by form. -/
theorem isFlag_eq_true_iff {arg : Bytes} :
    isFlag arg = true ↔ (∃ stem ∈ stems, stem <+: arg) ∨ arg = ascii "-q" ∨ arg = ascii "--quiet" ∨
      arg = ascii "--verbose" ∨ ∃ count, verbosity? arg = some count := by
  simp only [isFlag, Bool.or_eq_true, List.any_eq_true, List.isPrefixOf_iff_prefix, decide_eq_true_eq,
    Option.isSome_iff_exists, or_assoc]

/-- An argument passes for a flag exactly if it is written like one. -/
theorem isFlag_iff {arg : Bytes} : isFlag arg = true ↔ ∃ flag, Written arg flag := by
  rw [isFlag_eq_true_iff]
  constructor
  · rintro (⟨stem, hstem, rest, rfl⟩ | rfl | rfl | rfl | ⟨count, hcount⟩)
    · simp only [stems, List.mem_cons, List.not_mem_nil, or_false] at hstem
      rcases hstem with rfl | rfl | rfl | rfl
      · exact ⟨_, .level rest⟩
      · exact ⟨_, .filter rest⟩
      · exact ⟨_, .file rest⟩
      · exact ⟨_, written_format rest⟩
    · exact ⟨_, .quiet⟩
    · exact ⟨_, .quietWord⟩
    · exact ⟨_, .verboseWord⟩
    · rcases verbosity?_eq_some_iff.mp hcount with ⟨hpos, rfl⟩
      exact ⟨_, .verbose hpos⟩
  · rintro ⟨flag, h⟩
    have hstem : ∀ stem ∈ stems, ∀ rest : Bytes, ∃ stem' ∈ stems, stem' <+: stem ++ rest :=
      fun stem hmem rest => ⟨stem, hmem, List.prefix_append stem rest⟩
    cases h with
    | level name => exact .inl (hstem _ (by decide) name)
    | filter spec => exact .inl (hstem _ (by decide) spec)
    | file path => exact .inl (hstem _ (by decide) path)
    | @json name => exact .inl (hstem _ (by decide) name)
    | @text name => exact .inl (hstem _ (by decide) name)
    | quiet => exact .inr (.inl rfl)
    | quietWord => exact .inr (.inr (.inl rfl))
    | verboseWord => exact .inr (.inr (.inr (.inl rfl)))
    | @verbose count hpos =>
      exact .inr (.inr (.inr (.inr ⟨count, verbosity?_eq_some_iff.mpr ⟨hpos, rfl⟩⟩)))

/-- The arguments that pass for flags are those that are read as one. -/
theorem isFlag_eq_isSome_parse? (arg : Bytes) : isFlag arg = (parse? arg).isSome := by
  rw [Bool.eq_iff_iff, isFlag_iff, Option.isSome_iff_exists]
  simp only [parse?_eq_some_iff]

/-- The level that a flag gives. -/
def level? : Flag → Option Level
  | level value => some value
  | _ => none

/-- The filter that a flag gives. -/
def filter? : Flag → Option Bytes
  | filter spec => some spec
  | _ => none

/-- The log file that a flag gives. -/
def file? : Flag → Option Bytes
  | file path => some path
  | _ => none

/-- The format that a flag gives. -/
def format? : Flag → Option Format
  | format value => some value
  | _ => none

end Flag

/-- An argument is a flag of a kind with a value. -/
def Gives {α : Type} (kind : α → Flag) (arg : Bytes) (value : α) : Prop := Flag.Written arg (kind value)

/-! ## What the flags say together -/

namespace Flags

section shown

variable {α : Type}

/-- A part of the flags shows what the last flag of a kind said. -/
structure Shows (seen : Flags → Option α) (kind : α → Flag) (value? : Flag → Option α) : Prop where
  value : ∀ {flag value}, value? flag = some value ↔ flag = kind value
  step : ∀ f flag, seen (f.add flag) = (value? flag).or (seen f)

theorem shows_level : Shows level Flag.level Flag.level? where
  value := by
    intro flag value
    cases flag <;> simp [Flag.level?]
  step := by
    intro f flag
    cases flag <;> rfl

theorem shows_filter : Shows filter Flag.filter Flag.filter? where
  value := by
    intro flag value
    cases flag <;> simp [Flag.filter?]
  step := by
    intro f flag
    cases flag <;> rfl

theorem shows_file : Shows (fun f => some f.file) Flag.file Flag.file? where
  value := by
    intro flag value
    cases flag <;> simp [Flag.file?]
  step := by
    intro f flag
    cases flag <;> rfl

theorem shows_format : Shows (fun f => some f.format) Flag.format Flag.format? where
  value := by
    intro flag value
    cases flag <;> simp [Flag.format?]
  step := by
    intro f flag
    cases flag <;> rfl

variable {seen : Flags → Option α} {kind : α → Flag} {value? : Flag → Option α} {args : List Bytes}

theorem Shows.found_iff (h : Shows seen kind value?) (arg : Bytes) (value : α) :
    (Flag.parse? arg).bind value? = some value ↔ Gives kind arg value := by
  simp only [Option.bind_eq_some_iff, h.value, Flag.parse?_eq_some_iff, Gives, exists_eq_right]

theorem Shows.ofArguments_eq (h : Shows seen kind value?) (args : List Bytes) :
    seen (ofArguments args) =
      (args.filterMap fun arg => (Flag.parse? arg).bind value?).getLast?.or (seen {}) := by
  rw [ofArguments, foldl_eq_getLast?_or add seen value? h.step, List.filterMap_filterMap]

theorem Shows.of_saidLast (h : Shows seen kind value?) {value : α}
    (hlast : SaidLast (Gives kind) args value) : seen (ofArguments args) = some value := by
  rw [h.ofArguments_eq, (saidLast_iff h.found_iff).mpr hlast, Option.some_or]

theorem Shows.of_unsaid (h : Shows seen kind value?) (hunsaid : Unsaid (Gives kind) args) :
    seen (ofArguments args) = seen {} := by
  rw [h.ofArguments_eq, (unsaid_iff h.found_iff).mpr hunsaid, Option.none_or]

/-- A part that has a value from the start shows what was said last, and else that value. -/
theorem Shows.part_eq_iff {part : Flags → α} (h : Shows (fun f => some (part f)) kind value?)
    (args : List Bytes) (value : α) :
    part (ofArguments args) = value ↔
      SaidLast (Gives kind) args value ∨ Unsaid (Gives kind) args ∧ value = part {} := by
  constructor
  · rintro rfl
    rcases exists_saidLast_or_unsaid h.found_iff with ⟨last, hlast⟩ | hunsaid
    · rw [Option.some.inj (h.of_saidLast hlast)]
      exact .inl hlast
    · exact .inr ⟨hunsaid, Option.some.inj (h.of_unsaid hunsaid)⟩
  · rintro (hlast | ⟨hunsaid, rfl⟩)
    · exact Option.some.inj (h.of_saidLast hlast)
    · exact Option.some.inj (h.of_unsaid hunsaid)

end shown

section verbosity

variable {args : List Bytes} {count : Nat}

/-- The largest count of the verbosity flags. -/
structure Most (args : List Bytes) (count : Nat) : Prop where
  given : ∃ arg ∈ args, Gives Flag.verbosity arg count
  largest : ∀ arg ∈ args, ∀ other, Gives Flag.verbosity arg other → other ≤ count

/-- The verbosity is the largest of what it was and the counts of the flags. -/
theorem verbosity_foldl_add (flags : List Flag) (f : Flags) :
    f.verbosity ≤ (flags.foldl add f).verbosity ∧
      (∀ count, .verbosity count ∈ flags → count ≤ (flags.foldl add f).verbosity) ∧
      ((flags.foldl add f).verbosity = f.verbosity ∨
        .verbosity (flags.foldl add f).verbosity ∈ flags) := by
  induction flags generalizing f with
  | nil => exact ⟨Nat.le_refl _, nofun, .inl rfl⟩
  | cons flag rest ih =>
    rw [List.foldl_cons]
    rcases ih (f.add flag) with ⟨hold, hrest, hcases⟩
    have hstep : (f.add flag).verbosity = f.verbosity ∧ (∀ count, flag ≠ .verbosity count) ∨
        ∃ count, flag = .verbosity count ∧ (f.add flag).verbosity = max f.verbosity count := by
      cases flag with
      | verbosity count => exact .inr ⟨count, rfl, rfl⟩
      | _ => exact .inl ⟨rfl, nofun⟩
    rcases hstep with ⟨hsame, hother⟩ | ⟨count, rfl, hmax⟩
    · rw [hsame] at hold hcases
      refine ⟨hold, ?_, hcases.imp_right (List.mem_cons_of_mem _)⟩
      intro count hcount
      rcases List.mem_cons.mp hcount with heq | hcount
      · exact absurd heq.symm (hother count)
      · exact hrest count hcount
    · rw [hmax] at hold hcases
      refine ⟨by omega, ?_, ?_⟩
      · intro other hmem
        rcases List.mem_cons.mp hmem with heq | hmem
        · cases heq
          omega
        · exact hrest other hmem
      · rcases hcases with heq | hmem
        · rcases Nat.le_total f.verbosity count with hle | hle
          · rw [Nat.max_eq_right hle] at heq
            rw [heq]
            exact .inr List.mem_cons_self
          · rw [Nat.max_eq_left hle] at heq
            exact .inl heq
        · exact .inr (List.mem_cons_of_mem _ hmem)

theorem mem_filterMap_parse? :
    .verbosity count ∈ args.filterMap Flag.parse? ↔ ∃ arg ∈ args, Gives Flag.verbosity arg count := by
  simp only [List.mem_filterMap, Flag.parse?_eq_some_iff, Gives]

theorem pos_of_gives {arg : Bytes} (h : Gives Flag.verbosity arg count) : 0 < count := by
  cases h with
  | verboseWord => exact Nat.one_pos
  | verbose hpos => exact hpos

/-- The verbosity is the largest count of the flags, and zero without any. -/
theorem verbosity_ofArguments (args : List Bytes) :
    (∀ arg ∈ args, ∀ count, Gives Flag.verbosity arg count → count ≤ (ofArguments args).verbosity) ∧
      ((ofArguments args).verbosity = 0 ∨
        ∃ arg ∈ args, Gives Flag.verbosity arg (ofArguments args).verbosity) := by
  rcases verbosity_foldl_add (args.filterMap Flag.parse?) {} with ⟨-, hle, hcases⟩
  refine ⟨?_, hcases.imp_right mem_filterMap_parse?.mp⟩
  intro arg harg count hgives
  exact hle count (mem_filterMap_parse?.mpr ⟨arg, harg, hgives⟩)

theorem verbosity_of_most (h : Most args count) : (ofArguments args).verbosity = count := by
  rcases verbosity_ofArguments args with ⟨hle, hcases⟩
  rcases h.given with ⟨arg, harg, hgives⟩
  have hcount := hle arg harg count hgives
  have hpos := pos_of_gives hgives
  rcases hcases with hzero | ⟨arg', harg', hgives'⟩
  · omega
  · exact Nat.le_antisymm (h.largest arg' harg' _ hgives') hcount

theorem verbosity_of_unsaid (h : Unsaid (Gives Flag.verbosity) args) :
    (ofArguments args).verbosity = 0 := by
  rcases (verbosity_ofArguments args).2 with hzero | ⟨arg, harg, hgives⟩
  · exact hzero
  · exact absurd hgives (h arg harg _)

theorem exists_most_or_unsaid (args : List Bytes) :
    (∃ count, Most args count) ∨ Unsaid (Gives Flag.verbosity) args := by
  rcases verbosity_ofArguments args with ⟨hle, hzero | hgiven⟩
  · right
    intro arg harg count hgives
    have hcount := hle arg harg count hgives
    have hpos := pos_of_gives hgives
    omega
  · exact .inl ⟨_, hgiven, hle⟩

end verbosity

end Flags

/-! ## Who is heard -/

/-- No argument says anything about the level. -/
structure Levelless (args : List Bytes) : Prop where
  level : Unsaid (Gives Flag.level) args
  verbosity : Unsaid (Gives Flag.verbosity) args

/-- A value of the environment variable is a list of thresholds if it has an equals sign or a comma. -/
def IsList (value : Bytes) : Prop := equalsSign ∈ value ∨ 0x2C ∈ value

/-- The level that the arguments and the value of the environment variable ask for. -/
inductive LevelAsked (args : List Bytes) (value : Bytes) : Level → Prop
  /-- An explicit level wins, the last of several. -/
  | explicit {level : Level} (last : SaidLast (Gives Flag.level) args level) :
    LevelAsked args value level
  /-- Else the largest verbosity counts. -/
  | info (unsaid : Unsaid (Gives Flag.level) args) (most : Flags.Most args 1) :
    LevelAsked args value .info
  | debug (unsaid : Unsaid (Gives Flag.level) args) (most : Flags.Most args 2) :
    LevelAsked args value .debug
  | trace {count : Nat} (unsaid : Unsaid (Gives Flag.level) args) (most : Flags.Most args count)
      (many : 3 ≤ count) : LevelAsked args value .trace
  /-- Without flags for level and filter the environment may name a level. -/
  | environment (unsaid : Levelless args) (unfiltered : Unsaid (Gives Flag.filter) args)
      (given : value ≠ []) (plain : ¬ IsList value) : LevelAsked args value (.parse value)
  | unasked (unsaid : Levelless args)
      (unheard : ¬ (Unsaid (Gives Flag.filter) args ∧ value ≠ [] ∧ ¬ IsList value)) :
    LevelAsked args value .warn

/-- The filter that the arguments and the value of the environment variable ask for; empty for none. -/
inductive FilterAsked (args : List Bytes) (value : Bytes) : Bytes → Prop
  | explicit {spec : Bytes} (last : SaidLast (Gives Flag.filter) args spec) :
    FilterAsked args value spec
  /-- Without flags for level and filter the environment may give a filter. -/
  | environment (unsaid : Levelless args) (unfiltered : Unsaid (Gives Flag.filter) args)
      (list : IsList value) : FilterAsked args value value
  | unasked (unfiltered : Unsaid (Gives Flag.filter) args) (unheard : ¬ (Levelless args ∧ IsList value)) :
    FilterAsked args value []

/-- The configuration that the arguments and the value of the environment variable ask for. -/
structure Config.Answers (args : List Bytes) (value : Bytes) (c : Config) : Prop where
  level : LevelAsked args value c.level
  filter : FilterAsked args value c.filter
  file : SaidLast (Gives Flag.file) args c.file ∨ Unsaid (Gives Flag.file) args ∧ c.file = []
  format : SaidLast (Gives Flag.format) args c.format ∨
    Unsaid (Gives Flag.format) args ∧ c.format = .text
  console : c.console = true
  colors : c.colors = true

namespace Config

section cases

variable {args : List Bytes} (environment : Option Bytes)

/-- What flags say, at a level. -/
def ofFlags (flags : Flags) (level : Level) : Config :=
  { level, filter := flags.filter.getD [], file := flags.file, format := flags.format }

theorem ofArguments_of_explicit {level : Level} (h : SaidLast (Gives Flag.level) args level) :
    ofArguments args environment = ofFlags (Flags.ofArguments args) level := by
  simp only [ofArguments, Flags.shows_level.of_saidLast h]
  rfl

theorem ofArguments_of_most {count : Nat} (hunsaid : Unsaid (Gives Flag.level) args)
    (hmost : Flags.Most args count) :
    ofArguments args environment =
      ofFlags (Flags.ofArguments args) (Flags.verbosityLevel count) := by
  rcases hmost.given with ⟨arg, -, hgives⟩
  simp only [ofArguments, Flags.shows_level.of_unsaid hunsaid, Flags.verbosity_of_most hmost,
    if_pos (Flags.pos_of_gives hgives)]
  rfl

theorem ofArguments_of_filter {spec : Bytes} (hunsaid : Levelless args)
    (hlast : SaidLast (Gives Flag.filter) args spec) :
    ofArguments args environment = ofFlags (Flags.ofArguments args) .warn := by
  simp only [ofArguments, Flags.shows_level.of_unsaid hunsaid.level,
    Flags.verbosity_of_unsaid hunsaid.verbosity, Flags.shows_filter.of_saidLast hlast, ofFlags]
  rfl

theorem ofArguments_of_unsaid (hunsaid : Levelless args)
    (hunfiltered : Unsaid (Gives Flag.filter) args) :
    ofArguments args environment =
      (ofFlags (Flags.ofArguments args) .warn).withEnvironment (environment.getD []) := by
  simp only [ofArguments, Flags.shows_level.of_unsaid hunsaid.level,
    Flags.verbosity_of_unsaid hunsaid.verbosity, Flags.shows_filter.of_unsaid hunfiltered, ofFlags]
  rfl

/-- Those are the cases that there are. -/
theorem cases_arguments (args : List Bytes) :
    (∃ level, SaidLast (Gives Flag.level) args level) ∨
      (∃ count, Unsaid (Gives Flag.level) args ∧ Flags.Most args count) ∨
      Levelless args ∧
        ((∃ spec, SaidLast (Gives Flag.filter) args spec) ∨ Unsaid (Gives Flag.filter) args) := by
  rcases exists_saidLast_or_unsaid Flags.shows_level.found_iff with hlast | hunsaid
  · exact .inl hlast
  · rcases Flags.exists_most_or_unsaid args with ⟨count, hmost⟩ | hquiet
    · exact .inr (.inl ⟨count, hunsaid, hmost⟩)
    · exact .inr (.inr ⟨⟨hunsaid, hquiet⟩, exists_saidLast_or_unsaid Flags.shows_filter.found_iff⟩)

end cases

/-- The environment may give a filter or a level. -/
theorem withEnvironment_of_isList (c : Config) {value : Bytes} (h : IsList value) :
    c.withEnvironment value = { c with filter := value } := by
  have hne : value ≠ [] := by
    rintro rfl
    exact h.elim nofun nofun
  unfold IsList at h
  rw [withEnvironment, if_neg (by simpa using hne), if_pos h]

theorem withEnvironment_of_plain (c : Config) {value : Bytes} (hne : value ≠ []) (h : ¬ IsList value) :
    c.withEnvironment value = { c with level := .parse value } := by
  unfold IsList at h
  rw [withEnvironment, if_neg (by simpa using hne), if_neg h]

variable (args : List Bytes) (environment : Option Bytes)

/-- Level and filter apart, only flags are heard. -/
theorem exists_ofArguments_eq :
    ∃ level filter, ofArguments args environment =
      { level, filter, file := (Flags.ofArguments args).file, format := (Flags.ofArguments args).format } := by
  rcases cases_arguments args with
    ⟨level, hlast⟩ | ⟨count, hunsaid, hmost⟩ | ⟨hless, ⟨spec, hlast⟩ | hunfiltered⟩
  · exact ⟨_, _, ofArguments_of_explicit environment hlast⟩
  · exact ⟨_, _, ofArguments_of_most environment hunsaid hmost⟩
  · exact ⟨_, _, ofArguments_of_filter environment hless hlast⟩
  · rw [ofArguments_of_unsaid environment hless hunfiltered, withEnvironment]
    split
    · exact ⟨_, _, rfl⟩
    · split
      · exact ⟨_, _, rfl⟩
      · exact ⟨_, _, rfl⟩

theorem level_eq_of_asked {level : Level} (h : LevelAsked args (environment.getD []) level) :
    (ofArguments args environment).level = level := by
  cases h with
  | explicit last => rw [ofArguments_of_explicit environment last, ofFlags]
  | info unsaid most =>
    rw [ofArguments_of_most environment unsaid most]
    rfl
  | debug unsaid most =>
    rw [ofArguments_of_most environment unsaid most]
    rfl
  | trace unsaid most many =>
    rw [ofArguments_of_most environment unsaid most, ofFlags, Flags.verbosityLevel, if_pos many]
  | environment unsaid unfiltered given plain =>
    rw [ofArguments_of_unsaid environment unsaid unfiltered, withEnvironment_of_plain _ given plain]
  | unasked unsaid unheard =>
    rcases exists_saidLast_or_unsaid Flags.shows_filter.found_iff with ⟨spec, hlast⟩ | hunfiltered
    · rw [ofArguments_of_filter environment unsaid hlast, ofFlags]
    · rw [ofArguments_of_unsaid environment unsaid hunfiltered]
      by_cases hlist : IsList (environment.getD [])
      · rw [withEnvironment_of_isList _ hlist, ofFlags]
      · by_cases hne : environment.getD [] = []
        · rw [hne]
          rfl
        · exact absurd ⟨hunfiltered, hne, hlist⟩ unheard

theorem exists_levelAsked (value : Bytes) : ∃ level, LevelAsked args value level := by
  rcases cases_arguments args with ⟨level, hlast⟩ | ⟨count, hunsaid, hmost⟩ | ⟨hless, -⟩
  · exact ⟨level, .explicit hlast⟩
  · rcases hmost.given with ⟨arg, -, hgives⟩
    have hpos := Flags.pos_of_gives hgives
    match count with
    | 1 => exact ⟨.info, .info hunsaid hmost⟩
    | 2 => exact ⟨.debug, .debug hunsaid hmost⟩
    | more + 3 => exact ⟨.trace, .trace hunsaid hmost (Nat.le_add_left 3 more)⟩
  · by_cases h : Unsaid (Gives Flag.filter) args ∧ value ≠ [] ∧ ¬ IsList value
    · exact ⟨.parse value, .environment hless h.1 h.2.1 h.2.2⟩
    · exact ⟨.warn, .unasked hless h⟩

/-- The filter is that of the flags wherever flags say something about level or filter. -/
theorem filter_ofArguments (h : ¬ (Levelless args ∧ Unsaid (Gives Flag.filter) args)) :
    (ofArguments args environment).filter = (Flags.ofArguments args).filter.getD [] := by
  rcases cases_arguments args with
    ⟨level, hlast⟩ | ⟨count, hunsaid, hmost⟩ | ⟨hless, ⟨spec, hlast⟩ | hunfiltered⟩
  · rw [ofArguments_of_explicit environment hlast, ofFlags]
  · rw [ofArguments_of_most environment hunsaid hmost, ofFlags]
  · rw [ofArguments_of_filter environment hless hlast, ofFlags]
  · exact absurd ⟨hless, hunfiltered⟩ h

theorem filter_eq_of_asked {spec : Bytes} (h : FilterAsked args (environment.getD []) spec) :
    (ofArguments args environment).filter = spec := by
  cases h with
  | explicit last =>
    rw [filter_ofArguments args environment fun h => last.not_unsaid h.2,
      Flags.shows_filter.of_saidLast last, Option.getD_some]
  | environment unsaid unfiltered list =>
    rw [ofArguments_of_unsaid environment unsaid unfiltered, withEnvironment_of_isList _ list]
  | unasked unfiltered unheard =>
    have hnone : (Flags.ofArguments args).filter = none := Flags.shows_filter.of_unsaid unfiltered
    by_cases hless : Levelless args
    · rw [ofArguments_of_unsaid environment hless unfiltered, ofFlags, hnone, Option.getD_none]
      by_cases hne : environment.getD [] = []
      · rw [hne]
        rfl
      · rw [withEnvironment_of_plain _ hne fun hlist => unheard ⟨hless, hlist⟩]
    · rw [filter_ofArguments args environment fun h => hless h.1, hnone, Option.getD_none]

theorem exists_filterAsked (value : Bytes) : ∃ spec, FilterAsked args value spec := by
  rcases exists_saidLast_or_unsaid Flags.shows_filter.found_iff with ⟨spec, hlast⟩ | hunfiltered
  · exact ⟨spec, .explicit hlast⟩
  · by_cases h : Levelless args ∧ IsList value
    · exact ⟨value, .environment h.1 hunfiltered h.2⟩
    · exact ⟨[], .unasked hunfiltered h⟩

theorem answers_ofArguments : Answers args (environment.getD []) (ofArguments args environment) := by
  rcases exists_ofArguments_eq args environment with ⟨_, _, heq⟩
  rcases exists_levelAsked args (environment.getD []) with ⟨level, hlevel⟩
  rcases exists_filterAsked args (environment.getD []) with ⟨spec, hfilter⟩
  exact {
    level := level_eq_of_asked args environment hlevel ▸ hlevel
    filter := filter_eq_of_asked args environment hfilter ▸ hfilter
    file := (Flags.shows_file.part_eq_iff args _).mp (congrArg file heq).symm
    format := (Flags.shows_format.part_eq_iff args _).mp (congrArg format heq).symm
    console := congrArg console heq
    colors := congrArg colors heq }

theorem Answers.eq_ofArguments {args : List Bytes} {environment : Option Bytes} {c : Config}
    (h : Answers args (environment.getD []) c) : ofArguments args environment = c := by
  have hlevel := level_eq_of_asked args environment h.level
  have hfilter := filter_eq_of_asked args environment h.filter
  have hfile := (Flags.shows_file.part_eq_iff args _).mpr h.file
  have hformat := (Flags.shows_format.part_eq_iff args _).mpr h.format
  rcases exists_ofArguments_eq args environment with ⟨_, _, heq⟩
  rw [heq] at hlevel hfilter ⊢
  rcases c with ⟨level, format, filter, file, console, colors⟩
  rw [Config.mk.injEq]
  exact ⟨hlevel, hformat, hfilter, hfile, h.console.symm, h.colors.symm⟩

/-- What is no logging flag makes no difference. -/
theorem ofArguments_filter_isFlag :
    ofArguments (args.filter isFlag) environment = ofArguments args environment := by
  have hread : (args.filter isFlag).filterMap Flag.parse? = args.filterMap Flag.parse? := by
    rw [List.filterMap_filter]
    congr 1
    funext arg
    cases harg : Flag.parse? arg <;> simp [Flag.isFlag_eq_isSome_parse?, harg]
  have hflags : Flags.ofArguments (args.filter isFlag) = Flags.ofArguments args := by
    rw [Flags.ofArguments, hread, Flags.ofArguments]
  rw [ofArguments, hflags, ofArguments]

/-- **Who tells how to log.** For all arguments and all values of the environment variable there is one
configuration that answers them, and it is the one that is read. It hears nothing but logging flags, which
are the arguments that are written like one. -/
theorem ofArguments_precedence :
    (∀ c, ofArguments args environment = c ↔ Answers args (environment.getD []) c) ∧
      ofArguments (args.filter isFlag) environment = ofArguments args environment ∧
      ∀ arg, isFlag arg = true ↔ ∃ flag, Flag.Written arg flag := by
  refine ⟨?_, ofArguments_filter_isFlag args environment, fun _ => Flag.isFlag_iff⟩
  intro c
  constructor
  · rintro rfl
    exact answers_ofArguments args environment
  · exact Answers.eq_ofArguments

/-- The last explicit level wins over more verbosity after it, and a filter on the command line keeps the
environment from being heard. -/
example :
    let args := ["-vv", "--log-level=warn", "scan", "-q", "--log-filter=", "-vvv", "-vx"].map ascii
    ofArguments args (some (ascii "lexer=trace")) = { level := .error } := by
  decide +kernel

end Config

end TemplateLexer.Log
