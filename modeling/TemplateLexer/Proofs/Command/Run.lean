import TemplateLexer.Command.Run
import TemplateLexer.Proofs.Bytes.Lines
import TemplateLexer.Proofs.Outline.Faults
import TemplateLexer.Proofs.Tokens.Line
import TemplateLexer.Proofs.Workspace.Independence
import TemplateLexer.Proofs.Workspace.Output

/-!
# What a run gives

The exit code of a run and what it writes to the standard output stream are told by the arguments and by
the file that they name, whatever the logger does meanwhile.

* `Scanned.of?`: what reading and scanning a template gives, as a function of the files;
* `newline_not_mem_tokenText`: every token takes one line;
* `VerbForm`: the code and the output of the two scanning commands for the content of a file;
* `RunForm`, `commands_consistent`: the exit code of every run;
* `check_folder_and_newlines`: where folders and very long files make an exception.
-/

namespace TemplateLexer.Command

open Bytes Log Outline

/-! ## Scanning a file -/

/-- What the arguments ask for, if the template can be opened and the options are accepted. -/
def Scanned.of? (fs : Files) (a : Arguments) : Option Scanned :=
  match fs.open? a.path, (Settings.read a.options).result with
  | some text, .ok settings =>
    let source := Source.ofText a.path text
    some { source, outcome := TemplateLexer.scan settings.gettext source a.delimiters }
  | _, _ => none

variable {w w' : Workspace} {a : Arguments} {s : Scanned} {verb : Verb}

theorem scanFile_fst (w : Workspace) (a : Arguments) :
    (scanFile w a).1 = Scanned.of? w.host.files a := by
  unfold scanFile Scanned.of? Source.load Workspace.createSettings
  cases hopen : w.host.files.open? a.path with
  | none => rfl
  | some text =>
    dsimp only
    cases hread : (Settings.read a.options).result with
    | error e => rfl
    | ok settings =>
      simp only [Workspace.scan, Workspace.scanWith, Tokenizer.scan_eq]

/-- Reading and scanning write nothing to the standard output stream. -/
theorem stdout_scanFile (w : Workspace) (a : Arguments) :
    (scanFile w a).2.host.stdout = w.host.stdout := by
  unfold scanFile Workspace.createSettings
  split
  · exact w.stdout_tell _
  · dsimp only
    cases (Settings.read a.options).result with
    | error e => exact w.stdout_tellAll _
    | ok settings => exact (Workspace.stdout_tellAll _ _).trans (w.stdout_tellAll _)

/-! ## Lines -/

/-- The line of a token without its newline. -/
def tokenText (source : Source) (t : Token) : Bytes :=
  let place := (source.span t.extent).first
  decimal place.line.toNat ++ ascii ":" ++ decimal place.column.toNat ++ ascii " " ++ t.format

/-- No mark of a scan holds a newline, so every token of a scan is written on one line. -/
theorem newline_not_mem_tokenText {source : Source} {withGettext : Bool} {given : Option Bytes}
    {t : Token} (ht : t ∈ (TemplateLexer.scan withGettext source given).tokens) :
    newline ∉ tokenText source t := by
  have hformat := (printable_of_mem_scan ht).not_mem_format (b := newline) (by decide)
  have hdecimal := not_mem_decimal (b := newline) (by decide)
  have hplain : newline ∉ ascii ":" ∧ newline ∉ ascii " " := by decide
  simp only [tokenText, List.mem_append, not_or]
  exact ⟨⟨⟨⟨hdecimal _, hplain.1⟩, hdecimal _⟩, hplain.2⟩, hformat⟩

/-! ## The two scanning commands -/

theorem code_runVerb (verb : Verb) (w : Workspace) (a : Arguments) :
    (runVerb verb w a).1 =
      match Scanned.of? w.host.files a with
      | none => 1
      | some s => if s.outcome.faults.isEmpty then 0 else 1 := by
  rw [← scanFile_fst]
  unfold runVerb
  split
  · next h => rw [h]
  · next h => rw [h]

/-- The exit code is 0 if the template was scanned without a fault. -/
theorem code_runVerb_eq_zero_iff :
    (runVerb verb w a).1 = 0 ↔
      ∃ s, Scanned.of? w.host.files a = some s ∧ s.outcome.faults = [] := by
  rw [code_runVerb]
  cases h : Scanned.of? w.host.files a with
  | none => simp
  | some s => by_cases hf : s.outcome.faults = [] <;> simp [hf]

/-- What a command writes to the standard output stream about a scanned template. -/
def report (verb : Verb) (s : Scanned) : Bytes :=
  match verb with
  | .scan => (s.outcome.tokens.map (tokenText s.source)).flatMap (· ++ [newline])
  | .check => checkLine s.source s.outcome

theorem stdout_reportScan (verb : Verb) (w : Workspace) (s : Scanned) :
    (reportScan verb w s).host.stdout.toList = w.host.stdout.toList ++ report verb s := by
  have hline : tokenLine s.source = fun t => tokenText s.source t ++ [newline] := rfl
  cases verb <;>
    simp [reportScan, report, Workspace.stdout_tell, Workspace.complain, Workspace.print,
      Host.complain, Host.print, List.flatMap_map, hline]

/-- Nothing but the report is written to the standard output stream. -/
theorem stdout_runVerb (verb : Verb) (w : Workspace) (a : Arguments) :
    (runVerb verb w a).2.host.stdout.toList =
      w.host.stdout.toList ++ ((Scanned.of? w.host.files a).map (report verb)).getD [] := by
  have hout := stdout_scanFile w a
  rw [← scanFile_fst]
  unfold runVerb
  split
  · next h =>
    rw [h] at hout ⊢
    rw [hout]
    simp
  · next h =>
    rw [h] at hout ⊢
    rw [stdout_reportScan, hout]
    rfl

/-- A template that cannot be scanned leaves a command with nothing to say. -/
theorem runVerb_of_scanned?_eq_none (h : Scanned.of? w.host.files a = none) :
    (runVerb verb w a).1 = 1 ∧ (runVerb verb w a).2.host.stdout = w.host.stdout := by
  have hout := stdout_runVerb verb w a
  rw [h] at hout
  refine ⟨by rw [code_runVerb, h], Array.toList_inj.mp ?_⟩
  simpa using hout

/-- The options are accepted, and under them the text scans to the outcome. -/
def ScansTo (a : Arguments) (text : Bytes) (o : Outcome) : Prop :=
  ∃ settings, (Settings.read a.options).result = .ok settings ∧
    TemplateLexer.scan settings.gettext (.ofText a.path text) a.delimiters = o

/-- There is at most one such outcome. -/
theorem ScansTo.unique {text : Bytes} {o o' : Outcome} (h : ScansTo a text o)
    (h' : ScansTo a text o') : o = o' := by
  obtain ⟨settings, hread, rfl⟩ := h
  obtain ⟨settings', hread', rfl⟩ := h'
  cases hread.symm.trans hread'
  rfl

/-- The line of a template without faults. -/
def okLine (path : Bytes) (tokens lines : Nat) : Bytes :=
  path ++ ascii ": ok (" ++ decimal tokens ++ ascii " tokens, " ++ decimal lines ++ ascii " lines)\n"

/-- The line of a template with faults. -/
def faultyLine (path : Bytes) (faults : Nat) : Bytes :=
  path ++ ascii ": " ++ decimal faults ++ ascii " error(s)\n"

/-- What the two scanning commands give for the content of a file. -/
structure VerbForm (w : Workspace) (a : Arguments) (text : Bytes) : Prop where
  /-- Wherever they run, they have the same code for it. -/
  sameCode : ∀ w' : Workspace, w'.host.files.load? a.path = some text →
    (runVerb .check w' a).1 = (runVerb .scan w a).1
  /-- Without options that can be used, both say nothing. -/
  silent : ∀ verb e, (Settings.read a.options).result = .error e →
    (runVerb verb w a).1 = 1 ∧ (runVerb verb w a).2.host.stdout = w.host.stdout
  /-- One of them writes each token on a line. -/
  lines : ∀ o, ScansTo a text o →
    ∃ lines : List Bytes,
      (runVerb .scan w a).2.host.stdout.toList =
        w.host.stdout.toList ++ lines.flatMap (· ++ [newline]) ∧
      lines.length = o.tokens.length ∧ (∀ line ∈ lines, newline ∉ line) ∧
      (lines.flatMap (· ++ [newline])).count newline = o.tokens.length
  /-- The other one counts tokens and lines, the latter as a word of 32 bits. -/
  ok : (runVerb .check w a).1 = 0 → ∃ o, ScansTo a text o ∧ o.faults = [] ∧
    (runVerb .check w a).2.host.stdout.toList = w.host.stdout.toList ++
      okLine a.path o.tokens.length ((1 + text.count newline) % UInt32.size)
  /-- Or it counts the faults. -/
  faulty : ∀ o, ScansTo a text o → o.faults ≠ [] →
    (runVerb .check w a).1 = 1 ∧
      (runVerb .check w a).2.host.stdout.toList = w.host.stdout.toList ++
        faultyLine a.path o.faults.length

/-- What is scanned is the content of the file that the arguments name. -/
theorem scanned?_eq_some_iff {fs : Files} {text : Bytes} (h : fs.open? a.path = some text) :
    Scanned.of? fs a = some s ↔ s.source = .ofText a.path text ∧ ScansTo a text s.outcome := by
  unfold Scanned.of? ScansTo
  rw [h]
  cases hread : (Settings.read a.options).result with
  | error e => simp
  | ok settings =>
    obtain ⟨source, outcome⟩ := s
    simp only [Option.some.injEq, Scanned.mk.injEq, Except.ok.injEq, exists_eq_left']
    constructor
    · rintro ⟨rfl, rfl⟩
      exact ⟨rfl, rfl⟩
    · rintro ⟨rfl, rfl⟩
      exact ⟨rfl, rfl⟩

theorem verbForm {text : Bytes} (hload : w.host.files.load? a.path = some text) :
    VerbForm w a text := by
  have hopen := Files.open?_of_load? hload
  have hscanned : ∀ o, ScansTo a text o →
      Scanned.of? w.host.files a = some ⟨.ofText a.path text, o⟩ :=
    fun o ho => (scanned?_eq_some_iff hopen).mpr ⟨rfl, ho⟩
  refine ⟨?sameCode, ?silent, ?lines, ?ok, ?faulty⟩
  case sameCode =>
    intro w' hload'
    rw [code_runVerb, code_runVerb, Scanned.of?, Scanned.of?, hopen, Files.open?_of_load? hload']
  case silent =>
    intro verb e he
    refine runVerb_of_scanned?_eq_none ?_
    rw [Scanned.of?, hopen, he]
  case lines =>
    intro o ho
    have hfree : ∀ line ∈ o.tokens.map (tokenText (.ofText a.path text)), newline ∉ line := by
      intro line hline
      obtain ⟨t, ht, rfl⟩ := List.mem_map.mp hline
      obtain ⟨settings, -, rfl⟩ := ho
      exact newline_not_mem_tokenText ht
    refine ⟨o.tokens.map (tokenText (.ofText a.path text)), ?_, List.length_map _, hfree, ?_⟩
    · rw [stdout_runVerb, hscanned o ho]
      rfl
    · rw [count_newline_lines hfree, List.length_map]
  case ok =>
    intro hcode
    obtain ⟨s, hs, hfaults⟩ := code_runVerb_eq_zero_iff.mp hcode
    obtain ⟨hsource, ho⟩ := (scanned?_eq_some_iff hopen).mp hs
    refine ⟨s.outcome, ho, hfaults, ?_⟩
    have hlines : (Source.ofText a.path text).lineCount.toNat =
        (1 + text.count newline) % UInt32.size := Source.lineCount_toNat _
    rw [stdout_runVerb, hs, ← hlines]
    simp [report, checkLine, okLine, hfaults, hsource, Source.ofText]
  case faulty =>
    intro o ho hfaults
    rw [code_runVerb, stdout_runVerb, hscanned o ho]
    simp [report, checkLine, faultyLine, hfaults, Source.ofText]

/-! ## All runs -/

/-- The workspace after the logger was started. -/
def started (w : Workspace) (args : List Bytes) (environment : Option Bytes) : Workspace :=
  w.start (Config.ofArguments (args.map untilZero) (environment.map untilZero))

/-- The workspace in which a scanning command opens its template. That it runs was told before, perhaps
to a log file that is the template. -/
def announced (verb : Verb) (w : Workspace) (a : Arguments) : Workspace :=
  w.tell (entry .debug (ascii "Running " ++ verb.name ++ ascii " on " ++ a.path))

/-- Arguments that are none, or start with a question for help or the version. -/
def AsksForHelp (args : List Bytes) : Prop :=
  args = [] ∨ ∃ command rest, args = command :: rest ∧
    command ∈ [ascii "--help", ascii "-h", ascii "--version", ascii "-V"]

/-- What the arguments of a scanning command have to be like for it to succeed: they are accepted, their
template is a file that is there once the logger was started, and their options are accepted, and what is
read of the file then has no faults. -/
def Faultless (w : Workspace) (args : List Bytes) (environment : Option Bytes) (verb : Verb)
    (rest : List Bytes) : Prop :=
  ∃ a text o, Arguments.parse rest = .ok a ∧
    ((started w args environment).host.files.load? a.path).isSome = true ∧
    (announced verb (started w args environment) a).host.files.load? a.path = some text ∧
    ScansTo a text o ∧ o.faults = []

/-- What a run gives, whatever was in the workspace before. -/
structure RunForm (w : Workspace) (args : List Bytes) (environment : Option Bytes) : Prop where
  code : (run w args environment).1 = 0 ∨ (run w args environment).1 = 1
  /-- When a scanning command succeeds, if its template is not the name of a folder. -/
  scanning : ∀ verb rest, args.map untilZero = verb.name :: rest →
    (∀ a, Arguments.parse rest = .ok a →
      (started w args environment).host.files.namesFolder a.path = false) →
    ((run w args environment).1 = 0 ↔ Faultless w args environment verb rest)
  /-- Telling that it runs does not make the template readable. -/
  readable : ∀ verb a, ((announced verb (started w args environment) a).host.files.load?
      a.path).isSome = ((started w args environment).host.files.load? a.path).isSome
  /-- It writes to the standard output stream what the command of its name does. -/
  output : ∀ verb rest a, args.map untilZero = verb.name :: rest → Arguments.parse rest = .ok a →
    (run w args environment).2.host.stdout =
        (runVerb verb (announced verb (started w args environment) a) a).2.host.stdout ∧
      (announced verb (started w args environment) a).host.stdout = w.host.stdout
  /-- Anything else succeeds if it asks for help or the version. -/
  other : (∀ verb rest, args.map untilZero ≠ Verb.name verb :: rest) →
    ((run w args environment).1 = 0 ↔ AsksForHelp (args.map untilZero))

/-- A scanning command is found by its name. -/
theorem dispatch_verb (verb : Verb) (w : Workspace) (rest : List Bytes) :
    dispatch w (verb.name :: rest) = runScanning verb w rest := by
  have hhelp : ¬ (verb.name = ascii "--help" ∨ verb.name = ascii "-h") := by cases verb <;> decide
  have hversion : ¬ (verb.name = ascii "--version" ∨ verb.name = ascii "-V") := by
    cases verb <;> decide
  have hparse : Verb.parse? verb.name = some verb := by cases verb <;> decide
  simp only [dispatch, hhelp, hversion, hparse, if_false]

/-- No other name finds one. -/
theorem parse?_eq_none {command : Bytes} (h : ∀ verb : Verb, command ≠ verb.name) :
    Verb.parse? command = none := by
  refine List.find?_eq_none.mpr ?_
  intro verb _ hname
  exact h verb (of_decide_eq_true hname).symm

/-- Without a scanning command, a run succeeds exactly if it is asked for help or the version. -/
theorem code_dispatch (w : Workspace) {args : List Bytes}
    (h : ∀ verb rest, args ≠ Verb.name verb :: rest) :
    (AsksForHelp args ∧ (dispatch w args).1 = 0) ∨ (¬ AsksForHelp args ∧ (dispatch w args).1 = 1) := by
  cases args with
  | nil => exact .inl ⟨.inl rfl, rfl⟩
  | cons command rest =>
    have hparse := parse?_eq_none fun verb (hname : command = verb.name) =>
      h verb rest (by rw [hname])
    have hasks : AsksForHelp (command :: rest) ↔ (command = ascii "--help" ∨ command = ascii "-h") ∨
        (command = ascii "--version" ∨ command = ascii "-V") := by
      simp [AsksForHelp, or_assoc]
    rw [hasks]
    dsimp only [dispatch]
    by_cases hhelp : command = ascii "--help" ∨ command = ascii "-h"
    · rw [if_pos hhelp]
      exact .inl ⟨.inl hhelp, rfl⟩
    · by_cases hversion : command = ascii "--version" ∨ command = ascii "-V"
      · rw [if_neg hhelp, if_pos hversion]
        exact .inl ⟨.inr hversion, rfl⟩
      · rw [if_neg hhelp, if_neg hversion, hparse]
        exact .inr ⟨not_or.mpr ⟨hhelp, hversion⟩, rfl⟩

/-- A scanning command runs in the workspace where it is announced. -/
theorem runScanning_of_parse {verb : Verb} {w : Workspace} {rest : List Bytes} {a : Arguments}
    (h : Arguments.parse rest = .ok a) :
    runScanning verb w rest =
      ((runVerb verb (announced verb w a) a).1, (runVerb verb (announced verb w a) a).2.flush) := by
  simp only [runScanning, h]
  rfl

theorem code_runVerb_cases (verb : Verb) (w : Workspace) (a : Arguments) :
    (runVerb verb w a).1 = 0 ∨ (runVerb verb w a).1 = 1 := by
  rw [code_runVerb]
  split
  · exact .inr rfl
  · split
    · exact .inl rfl
    · exact .inr rfl

theorem samePaths_announced (verb : Verb) {w : Workspace} (h : w.Backed) (a : Arguments) :
    Files.SamePaths w.host.files (announced verb w a).host.files :=
  Workspace.samePaths_tell h _

/-- Where the template is not the name of a folder, a scanning command succeeds if it is a file that is
read without a fault. -/
theorem code_runVerb_announced_eq_zero_iff {w : Workspace} (h : w.Backed)
    (hfile : w.host.files.namesFolder a.path = false) :
    (runVerb verb (announced verb w a) a).1 = 0 ↔
      ∃ text o, (w.host.files.load? a.path).isSome = true ∧
        (announced verb w a).host.files.load? a.path = some text ∧ ScansTo a text o ∧ o.faults = [] := by
  have hsame := samePaths_announced verb h a
  have hopen := Files.open?_eq_load? ((hsame.namesFolder_eq a.path).trans hfile)
  rw [code_runVerb_eq_zero_iff]
  constructor
  · rintro ⟨s, hs, hfaults⟩
    cases hload : (announced verb w a).host.files.load? a.path with
    | none => rw [Scanned.of?, hopen, hload] at hs; cases hs
    | some text =>
      have hscans := ((scanned?_eq_some_iff (hopen.trans hload)).mp hs).2
      refine ⟨text, s.outcome, ?_, rfl, hscans, hfaults⟩
      rw [← hsame.isSome_load? a.path, hload, Option.isSome_some]
  · rintro ⟨text, o, -, hload, hscans, hfaults⟩
    exact ⟨⟨.ofText a.path text, o⟩,
      (scanned?_eq_some_iff (hopen.trans hload)).mpr ⟨rfl, hscans⟩, hfaults⟩

theorem runForm (w : Workspace) (args : List Bytes) (environment : Option Bytes) :
    RunForm w args environment := by
  have hbacked : (started w args environment).Backed := Workspace.backed_start w _
  have hrun : run w args environment = dispatch (started w args environment) (args.map untilZero) :=
    rfl
  refine ⟨?code, ?scanning, ?readable, ?output, ?other⟩
  case code =>
    rw [hrun]
    by_cases hverb : ∃ verb rest, args.map untilZero = Verb.name verb :: rest
    · obtain ⟨verb, rest, hargs⟩ := hverb
      rw [hargs, dispatch_verb]
      cases hparse : Arguments.parse rest with
      | error e => exact .inr (by rw [runScanning, hparse])
      | ok a =>
        rw [runScanning_of_parse hparse]
        exact code_runVerb_cases verb _ a
    · rcases code_dispatch (started w args environment) fun verb rest hargs =>
        hverb ⟨verb, rest, hargs⟩ with ⟨-, hcode⟩ | ⟨-, hcode⟩
      · exact .inl hcode
      · exact .inr hcode
  case scanning =>
    intro verb rest hargs hfile
    rw [hrun, hargs, dispatch_verb]
    cases hparse : Arguments.parse rest with
    | error e => simp [runScanning, hparse, Faultless]
    | ok a =>
      rw [runScanning_of_parse hparse, code_runVerb_announced_eq_zero_iff hbacked (hfile a hparse)]
      constructor
      · rintro ⟨text, o, h⟩
        exact ⟨a, text, o, hparse, h⟩
      · rintro ⟨a', text, o, hparse', h⟩
        cases hparse.symm.trans hparse'
        exact ⟨text, o, h⟩
  case readable =>
    intro verb a
    exact (samePaths_announced verb hbacked a).isSome_load? a.path
  case output =>
    intro verb rest a hargs hparse
    constructor
    · rw [hrun, hargs, dispatch_verb, runScanning_of_parse hparse, Workspace.stdout_flush]
    · exact (Workspace.stdout_tell _ _).trans (w.stdout_start _)
  case other =>
    intro hother
    rw [hrun]
    rcases code_dispatch (started w args environment) hother with ⟨hasks, hcode⟩ | ⟨hasks, hcode⟩
    · exact iff_of_true hcode hasks
    · exact iff_of_false (by rw [hcode]; decide) hasks

/-- **The results of the commands are consistent.** Every run gives 0 or 1. Which of them is told by its
arguments and, unless they name a folder, by the template once the logger was started. For the content of
a file both scanning commands give the same code, one writes a line for each token, and the other the
numbers of tokens and of lines, the latter as a word of 32 bits, or the number of faults. -/
theorem commands_consistent :
    (∀ w args environment, RunForm w args environment) ∧
      ∀ (w : Workspace) (a : Arguments) (text : Bytes),
        w.host.files.load? a.path = some text → VerbForm w a text :=
  ⟨runForm, fun _ _ _ => verbForm⟩

/-- A workspace with one file in its folder. -/
def holding (file text : Bytes) : Workspace :=
  { host := { Workspace.idleHost with files := { contents := [(⟨false, [], file⟩, text)] } } }

/-- A line of text and a tag. -/
def greeting : Bytes := ascii "Dear\n\x7b\x7bname\x7d\x7d"

/-- A letter is checked without faults, and its tokens and lines are counted. -/
theorem commands_consistent_greeting :
    let args := [ascii "check", ascii "letter"]
    (run (holding (ascii "letter") greeting) args none).1 = 0 ∧
      (run (holding (ascii "letter") greeting) args none).2.host.stdout.toList =
        ascii "letter: ok (3 tokens, 2 lines)\n" := by
  intro args
  let a : Arguments := { path := ascii "letter" }
  let w := started (holding (ascii "letter") greeting) args none
  have hparse : Arguments.parse [ascii "letter"] = .ok a := rfl
  have hload : (announced .check w a).host.files.load? a.path = some greeting := by decide +kernel
  have hscan : (TemplateLexer.scan false (.ofText a.path greeting) none).faults = [] ∧
      (TemplateLexer.scan false (.ofText a.path greeting) none).tokens.length = 3 := by
    decide +kernel
  obtain ⟨hforms, hverbs⟩ := commands_consistent
  have hform := hforms (holding (ascii "letter") greeting) args none
  have hcode : (run (holding (ascii "letter") greeting) args none).1 = 0 := by
    refine (hform.scanning .check [ascii "letter"] rfl ?_).mpr ?_
    · intro a' hparse'
      cases hparse.symm.trans hparse'
      decide +kernel
    · exact ⟨a, greeting, _, hparse, by decide +kernel, hload, ⟨{}, rfl, rfl⟩, hscan.1⟩
  refine ⟨hcode, ?_⟩
  obtain ⟨hout, hbefore⟩ := hform.output .check [ascii "letter"] a rfl hparse
  have hverb := hverbs (announced .check w a) a greeting hload
  obtain ⟨o, ⟨settings, hread, rfl⟩, -, hline⟩ := hverb.ok (by decide +kernel)
  cases hread
  rw [hout, hline, hbefore, hscan.2]
  decide +kernel

/-! ## Folders and very long files -/

/-- A text of newlines is scanned without faults. -/
theorem faults_scan_newlines (withGettext : Bool) (name : Bytes) (n : Nat) :
    (TemplateLexer.scan withGettext (.ofText name (List.replicate n newline)) none).faults = [] := by
  have hsegments : ∀ (pair : Delimiters) (pos : Nat),
      (segments withGettext pair pos (List.replicate n newline)).filterMap Segment.fault? = [] := by
    induction n with
    | zero =>
      intro pair pos
      rw [List.replicate_zero, segments_nil, List.filterMap_nil]
    | succ n ih =>
      intro pair pos
      rw [List.replicate_succ, segments_newline, List.filterMap_cons_none rfl, ih]
  rw [faults_scan]
  exact hsegments _ _

/-- A file with as many lines as there are words of 32 bits. -/
def manyLines : Bytes := List.replicate (UInt32.size - 1) newline

/-- Checking a folder succeeds although there is no file to read, as it can be opened like one. And a file
with as many lines as there are words of 32 bits is said to have none. -/
theorem check_folder_and_newlines :
    let args := [ascii "check", ascii "."]
    let w := holding (ascii "page") manyLines
    let page : Arguments := { path := ascii "page" }
    ¬ ((run w args none).1 = 0 ↔ Faultless w args none .check [ascii "."]) ∧
      (runVerb .check w page).1 = 0 ∧
      ∀ o, ScansTo page manyLines o →
        (runVerb .check w page).2.host.stdout.toList ≠
          okLine page.path o.tokens.length (1 + manyLines.count newline) := by
  intro args w page
  have hload : w.host.files.load? page.path = some manyLines := rfl
  have hscans : ScansTo page manyLines (TemplateLexer.scan false (.ofText page.path manyLines) none) :=
    ⟨{}, rfl, rfl⟩
  have hcode : (runVerb .check w page).1 = 0 :=
    code_runVerb_eq_zero_iff.mpr ⟨⟨_, _⟩,
      (scanned?_eq_some_iff (Files.open?_of_load? hload)).mpr ⟨rfl, hscans⟩, faults_scan_newlines _ _ _⟩
  have hcount : 1 + manyLines.count newline = UInt32.size := by
    rw [manyLines, List.count_replicate_self]
    rfl
  refine ⟨?folder, hcode, ?newlines⟩
  case folder =>
    intro h
    have hrun : (run w args none).1 = 0 := by decide +kernel
    obtain ⟨a, text, o, hparse, hsome, -⟩ := h.mp hrun
    have hdot : Arguments.parse [ascii "."] = .ok { path := ascii "." } := rfl
    cases hdot.symm.trans hparse
    cases hsome
  case newlines =>
    intro o ho hline
    obtain ⟨o', ho', -, hout⟩ := (verbForm hload).ok hcode
    have hstdout : w.host.stdout.toList = [] := rfl
    rw [hcount, Nat.mod_self, ho'.unique ho, hstdout, List.nil_append, hline, hcount] at hout
    have hdecimal : decimal UInt32.size ≠ decimal 0 := by decide +kernel
    simp [okLine, hdecimal] at hout

end TemplateLexer.Command
