import Mathlib.Data.List.Induction
import TemplateLexer.Proofs.Log.Filter
import TemplateLexer.Proofs.Log.Sink
import TemplateLexer.Workspace.Scan

/-!
# The levels of a logger over a history

Starting the logger, setting its level and setting its filter are the three operations that change what
passes; all others leave the levels alone (`levels_perform`).

* `gate_of_history`: the quick test by the least level hides nothing that the filter lets pass, except
  after a level was set, when both tests count;
* `start_admits_iff`: which entries pass after a start with a filter. A configuration asks for a
  threshold of each module (`Config.asked`), and the theorem says when that is what is in force: the
  level of the configuration only ever lowers the default, which may be left from before.
-/

namespace TemplateLexer.Log

open Bytes

/-- The threshold that a configuration with a filter asks for: the last entry that names the module
gives it, and else the last entry `*=level`, and else the level of the configuration. -/
def Config.asked (c : Config) (module : Bytes) : Level :=
  (Filter.lastLevelFor? module c.filter).getD ((Filter.lastDefaultFor? c.filter).getD c.level)

namespace Logger

variable {l l' : Logger}

/-- What decides which entries pass. -/
def levels (l : Logger) : Level × Filter := (l.level, l.filter)

theorem admits_eq_of_levels_eq (h : l.levels = l'.levels) : l.admits = l'.admits := by
  obtain ⟨hlevel, hfilter⟩ := Prod.mk.inj h
  funext level module
  rw [admits, admits, hlevel, hfilter]

theorem admits_iff (level : Level) (module : Bytes) :
    l.admits level module = true ↔ l.level ≤ level ∧ l.filter.threshold module ≤ level := by
  rw [admits, Filter.admits, Bool.and_eq_true, decide_eq_true_iff, decide_eq_true_iff]

/-- What passes also passes at a higher level. -/
theorem admits_of_le {level level' : Level} {module : Bytes} (hle : level ≤ level')
    (h : l.admits level module = true) : l.admits level' module = true := by
  rw [admits_iff] at h ⊢
  exact ⟨Level.le_trans h.1 hle, Level.le_trans h.2 hle⟩

/-- A least level below the threshold of a module makes no difference to the module. -/
theorem admits_iff_of_le {module : Bytes} (h : l.level ≤ l.filter.threshold module) (level : Level) :
    l.admits level module = true ↔ l.filter.threshold module ≤ level := by
  rw [admits_iff]
  constructor
  · exact And.right
  · intro hlevel
    exact ⟨Level.le_trans h hlevel, hlevel⟩

/-- With the lowest threshold as its least level, a logger does what its filter says. -/
theorem admits_eq_of_level_eq (h : l.level = l.filter.minLevel) : l.admits = l.filter.admits := by
  funext level module
  have hle : l.level ≤ l.filter.threshold module := h ▸ l.filter.minLevel_le_threshold module
  rw [Bool.eq_iff_iff, admits_iff_of_le hle, Filter.admits, decide_eq_true_iff]

/-- The level of a configuration with a filter is only ever a limit to the default of the filter. -/
theorem threshold_configure (l : Logger) {c : Config} (hc : c.filter ≠ []) (module : Bytes) :
    (l.configure c).filter.threshold module =
      (Filter.lastLevelFor? module c.filter).getD
        (((Filter.lastDefaultFor? c.filter).getD l.filter.defaultLevel).lower c.level) := by
  have hne : c.filter.isEmpty = false := List.isEmpty_eq_false_iff.mpr hc
  rw [configure, hne, if_neg Bool.false_ne_true, ← l.filter.defaultLevel_parse, Level.lower]
  dsimp only
  rw [← l.filter.lookup_parse]
  split <;> rfl

/-- The levels of a configuration are set whatever the sinks are. -/
theorem configure_sinks (l : Logger) (sinks : List Sink) (c : Config) :
    { l with sinks }.configure c = { l.configure c with sinks } := by
  unfold configure
  split <;> rfl

theorem level_configure (l : Logger) {c : Config} (hc : c.filter ≠ []) :
    (l.configure c).level = (l.configure c).filter.minLevel := by
  have hne : c.filter.isEmpty = false := List.isEmpty_eq_false_iff.mpr hc
  rw [configure, hne, if_neg Bool.false_ne_true]

end Logger

end TemplateLexer.Log

namespace TemplateLexer.Workspace

open Bytes Log

/-! ## What changes the levels -/

/-- Does the operation set the levels of the logger? -/
def Operation.setsLevels : Operation → Bool
  | .start _ | .setLevel _ | .setFilter _ => true
  | _ => false

/-- The last operation of a history that set the levels. -/
def lastSetting (operations : List Operation) : Option Operation :=
  (operations.filter Operation.setsLevels).getLast?

theorem lastSetting_concat (before : List Operation) (op : Operation) :
    lastSetting (before ++ [op]) = if op.setsLevels then some op else lastSetting before := by
  unfold lastSetting
  cases h : op.setsLevels <;> simp [h]

section steps

variable (w : Workspace)

theorem performAll_concat (before : List Operation) (op : Operation) :
    w.performAll (before ++ [op]) = (w.performAll before).perform op := by
  rw [performAll, List.foldl_append]
  rfl

theorem levels_log (e : Entry) : (w.log e).logger.levels = w.logger.levels := rfl

theorem levels_tell (e : Entry) : (w.tell e).logger.levels = w.logger.levels := by
  unfold tell
  split
  · exact w.levels_log e
  · rfl

theorem levels_tellAll (entries : List Entry) :
    (w.tellAll entries).logger.levels = w.logger.levels := by
  induction entries generalizing w with
  | nil => rfl
  | cons e rest ih => exact (ih (w.tell e)).trans (w.levels_tell e)

theorem captured_clearSinks : w.clearSinks.host.captured = w.host.captured := by
  have hclose : ∀ (sinks : List Sink) (h : Host),
      (sinks.foldl (fun h sink => sink.close h) h).captured = h.captured := by
    intro sinks
    induction sinks with
    | nil =>
      intro h
      rfl
    | cons sink rest ih =>
      intro h
      exact (ih (sink.close h)).trans (sink.captured_close h)
  exact hclose w.logger.sinks w.host

/-- A configured log file is at most one more sink, and touches nothing but the host beside that. -/
theorem exists_addConfiguredFile_eq (c : Config) :
    ∃ (file : Option LogFile) (host : Host),
      w.addConfiguredFile c =
        ⟨{ w.logger with sinks := w.logger.sinks ++ file.toList.map Sink.file }, host⟩ ∧
      host.captured = w.host.captured := by
  have hnone : ({ w.logger with sinks := w.logger.sinks ++ [] } : Logger) = w.logger := by
    rw [List.append_nil]
  unfold addConfiguredFile
  split
  · exact ⟨none, w.host, congrArg (Workspace.mk · w.host) hnone.symm, rfl⟩
  · split
    · next after hadd =>
      obtain ⟨opened, -, rfl⟩ := Option.map_eq_some_iff.mp hadd
      exact ⟨some opened.1, _, rfl, rfl⟩
    · exact ⟨none, _, congrArg (Workspace.mk · _) hnone.symm, rfl⟩

/-- What a start does: the levels are those of the configuration, and the sinks are new ones, none of
which is a capture sink. Nothing is delivered. -/
theorem exists_start_eq (c : Config) :
    ∃ (sinks : List Sink) (host : Host),
      w.start c = ⟨{ w.logger.configure c with sinks }, host⟩ ∧
      sinks.filterMap Sink.captureId? = [] ∧ host.captured = w.host.captured := by
  have hclear : w.clearSinks.logger.configure c = { w.logger.configure c with sinks := [] } :=
    w.logger.configure_sinks [] c
  have hcaptured := w.captured_clearSinks
  have hfile : ∀ file : Option LogFile,
      (file.toList.map Sink.file).filterMap Sink.captureId? = [] := by
    intro file
    cases file <;> rfl
  unfold start
  dsimp only
  rw [hclear]
  split
  · -- a console in front of the file
    obtain ⟨file, host, heq, hhost⟩ := exists_addConfiguredFile_eq (addSink
      ⟨{ w.logger.configure c with sinks := [] }, w.clearSinks.host⟩
      (.console (c.colors && w.clearSinks.host.terminal) c.format)) c
    exact ⟨_, host, heq, hfile file, hhost.trans hcaptured⟩
  · obtain ⟨file, host, heq, hhost⟩ := exists_addConfiguredFile_eq
      ⟨{ w.logger.configure c with sinks := [] }, w.clearSinks.host⟩ c
    exact ⟨_, host, heq, hfile file, hhost.trans hcaptured⟩

theorem levels_start (c : Config) :
    (w.start c).logger.levels = (w.logger.configure c).levels := by
  obtain ⟨sinks, host, heq, -, -⟩ := w.exists_start_eq c
  rw [heq]
  rfl

/-- Only three operations change the levels. -/
theorem levels_perform {op : Operation} (h : op.setsLevels = false) :
    (w.perform op).logger.levels = w.logger.levels := by
  cases op with
  | start config => cases h
  | setLevel level => cases h
  | setFilter spec => cases h
  | addSink sink => rfl
  | clearSinks => rfl
  | log e => exact w.levels_log e
  | tell e => exact w.levels_tell e
  | flush => rfl
  | scan t source given => exact w.levels_tellAll _

end steps

/-! ## The quick test -/

/-- What the levels are after an operation has set them, or before any has. -/
def Gated (setting : Option Operation) (l : Logger) : Prop :=
  match setting with
  | some (.setLevel level) => l.level = level ∧ l.filter.defaultLevel = level
  | _ => l.level = l.filter.minLevel

theorem Gated.of_levels_eq {setting : Option Operation} {l l' : Logger} (h : Gated setting l)
    (hlevels : l'.levels = l.levels) : Gated setting l' := by
  obtain ⟨hlevel, hfilter⟩ := Prod.mk.inj hlevels
  unfold Gated at h ⊢
  rw [hlevel, hfilter]
  exact h

/-- The operations that set the levels put the two of them in order. -/
theorem gated_perform (w : Workspace) {op : Operation} (h : op.setsLevels = true) :
    Gated (some op) (w.perform op).logger := by
  cases op with
  | start c =>
    obtain ⟨hlevel, hfilter⟩ := Prod.mk.inj (w.levels_start c)
    show (w.start c).logger.level = (w.start c).logger.filter.minLevel
    rw [hlevel, hfilter, Logger.configure]
    split
    · -- no filter: no module has a threshold of its own
      symm
      exact Filter.minLevel_of_modules_eq_nil _ rfl
    · rfl
  | setLevel level => exact ⟨rfl, rfl⟩
  | setFilter spec => rfl
  | _ => cases h

theorem gated_performAll (host : Host) (operations : List Operation) :
    Gated (lastSetting operations) (performAll { host } operations).logger := by
  induction operations using List.reverseRecOn with
  | nil => rfl
  | append_singleton before op ih =>
    rw [lastSetting_concat, performAll_concat]
    cases hop : op.setsLevels with
    | true => exact gated_perform _ hop
    | false =>
      -- the levels are still those of the last operation that set them
      exact ih.of_levels_eq (levels_perform _ hop)

theorem Gated.level_le {setting : Option Operation} {l : Logger} (h : Gated setting l) :
    l.level ≤ l.filter.defaultLevel := by
  unfold Gated at h
  split at h
  · rw [h.1, h.2]
    exact Int.le_refl _
  · exact h ▸ l.filter.minLevel_le_defaultLevel

/-- **The quick test hides nothing.** After any history the least level is at most the default of the
filter, so that it makes no difference to modules without a threshold of their own. Unless a level was
set last, it is the lowest threshold of all, and the logger does what its filter says; after a level was
set, entries have to pass both. -/
theorem gate_of_history (host : Host) (operations : List Operation) :
    let l := (performAll { host } operations).logger
    l.level ≤ l.filter.defaultLevel ∧
      (∀ level module, l.filter.modules.lookup module = none →
        (l.admits level module = true ↔ l.filter.defaultLevel ≤ level)) ∧
      ((∀ least, lastSetting operations ≠ some (.setLevel least)) →
        l.level = l.filter.minLevel ∧
          ∀ level module, l.admits level module = l.filter.admits level module) ∧
      (∀ least, lastSetting operations = some (.setLevel least) →
        ∀ level module, l.admits level module = true ↔
          least ≤ level ∧ l.filter.admits level module = true) := by
  intro l
  have hgated : Gated (lastSetting operations) l := gated_performAll host operations
  refine ⟨hgated.level_le, ?_, ?_, ?_⟩
  · intro level module hnone
    have hdefault : l.filter.threshold module = l.filter.defaultLevel := by
      rw [Filter.threshold, hnone]
      rfl
    rw [Logger.admits_iff_of_le (hdefault ▸ hgated.level_le), hdefault]
  · intro hlast
    have hlevel : l.level = l.filter.minLevel := by
      unfold Gated at hgated
      split at hgated
      · next least hset => exact absurd hset (hlast least)
      · exact hgated
    refine ⟨hlevel, ?_⟩
    intro level module
    rw [Logger.admits_eq_of_level_eq hlevel]
  · intro least hlast level module
    rw [hlast] at hgated
    rw [Logger.admits, Bool.and_eq_true, decide_eq_true_iff, hgated.1]

/-- A host without files, at the start of the epoch. -/
def idleHost : Host := { now := ⟨⟨0, 0, 0, 0⟩, 0⟩ }

/-- A filter is set, something is told, and the sinks are flushed. -/
def filteredHistory : List Operation :=
  [.setFilter (ascii "lexer=trace,*=warn"), .tell ⟨.debug, ascii "lexer", []⟩, .flush]

/-- With a filter set last, debugging output of the lexer passes, as the filter says. When a level is
set after that, it no longer does, and all other modules have the level as their threshold. -/
theorem gate_of_filteredHistory :
    let l := (performAll { host := idleHost } filteredHistory).logger
    let l' := (performAll { host := idleHost } (filteredHistory ++ [.setLevel .error])).logger
    l.level = .trace ∧ l.admits .debug (ascii "lexer") = true ∧
      l'.admits .debug (ascii "lexer") = false ∧ l'.filter.admits .debug (ascii "lexer") = true ∧
      l'.filter.modules.lookup (ascii "cli") = none ∧
      (∀ level, l'.admits level (ascii "cli") = true ↔ .error ≤ level) := by
  intro l l'
  have hset : ∀ least, lastSetting filteredHistory ≠ some (.setLevel least) := nofun
  obtain ⟨hmin, hsame⟩ := (gate_of_history idleHost filteredHistory).2.2.1 hset
  obtain ⟨-, hothers, -, hboth⟩ :=
    gate_of_history idleHost (filteredHistory ++ [.setLevel .error])
  have hcli : l'.filter.modules.lookup (ascii "cli") = none := by decide +kernel
  have hdefault : l'.filter.defaultLevel = .error := rfl
  refine ⟨?_, ?_, ?_, by decide +kernel, hcli, ?_⟩
  · rw [hmin]
    decide +kernel
  · rw [hsame]
    decide +kernel
  · rw [Bool.eq_false_iff, Ne, hboth .error rfl]
    decide +kernel
  · intro level
    rw [hothers level _ hcli, hdefault]

/-! ## A start with a filter -/

/-- **What a start with a filter puts in force.** A module that the filter names has the threshold of
its last entry. All others have that of the last entry `*=level` or, without one, the default from before
the start, and in both cases the level of the configuration if that is lower. So the configuration gets
what it asks for, for all modules, exactly if the entry `*=level` is not above its level or, without such
an entry, if the old default is not below it. -/
theorem start_admits_iff (w : Workspace) (c : Config) (hc : c.filter ≠ []) :
    (∀ level module, (w.start c).logger.admits level module = true ↔
      (Filter.lastLevelFor? module c.filter).getD
        (((Filter.lastDefaultFor? c.filter).getD w.logger.filter.defaultLevel).lower c.level) ≤
          level) ∧
      ((∀ level module, (w.start c).logger.admits level module = true ↔ c.asked module ≤ level) ↔
        match Filter.lastDefaultFor? c.filter with
        | some default => default ≤ c.level
        | none => c.level ≤ w.logger.filter.defaultLevel) := by
  have hforce : ∀ level module, (w.start c).logger.admits level module = true ↔
      (Filter.lastLevelFor? module c.filter).getD
        (((Filter.lastDefaultFor? c.filter).getD w.logger.filter.defaultLevel).lower c.level) ≤
          level := by
    intro level module
    rw [Logger.admits_eq_of_levels_eq (w.levels_start c),
      Logger.admits_eq_of_level_eq (Logger.level_configure _ hc), Filter.admits, decide_eq_true_iff,
      Logger.threshold_configure _ hc]
  refine ⟨hforce, ?_⟩
  constructor
  · intro hasked
    -- no entry names this module, so that it has the default
    have hnone := Filter.lastLevelFor?_equalsSign c.filter
    have heq := Level.eq_of_forall_le_iff fun level =>
      (hforce level [equalsSign]).symm.trans (hasked level [equalsSign])
    rw [Config.asked, hnone, Option.getD_none, Option.getD_none] at heq
    cases hstar : Filter.lastDefaultFor? c.filter with
    | some default =>
      rw [hstar] at heq
      exact Level.lower_eq_left_iff.mp heq
    | none =>
      rw [hstar] at heq
      exact Level.lower_eq_right_iff.mp heq
  · intro hdefault level module
    rw [hforce, Config.asked]
    cases hstar : Filter.lastDefaultFor? c.filter with
    | some default =>
      rw [hstar] at hdefault
      rw [Option.getD_some, Option.getD_some, Level.lower_eq_left_iff.mpr hdefault]
    | none =>
      rw [hstar] at hdefault
      rw [Option.getD_none, Option.getD_none, Level.lower_eq_right_iff.mpr hdefault]

/-- Errors only, but everything that the lexer has to say. -/
def errorsAndLexer : Config := { level := .error, filter := ascii "lexer=trace", console := false }

/-- A new logger that is started so asks for errors of the command line, and lets general information
of it pass: its default is left from before. -/
theorem start_admits_errorsAndLexer :
    let l := (start { host := idleHost } errorsAndLexer).logger
    errorsAndLexer.filter ≠ [] ∧ errorsAndLexer.asked (ascii "cli") = .error ∧
      l.admits .info (ascii "cli") = true ∧
      ¬ ∀ level module, l.admits level module = true ↔ errorsAndLexer.asked module ≤ level := by
  intro l
  have hne : errorsAndLexer.filter ≠ [] := by decide
  obtain ⟨hforce, hasked⟩ := start_admits_iff { host := idleHost } errorsAndLexer hne
  have hstar : Filter.lastDefaultFor? errorsAndLexer.filter = none := by decide +kernel
  refine ⟨hne, by decide +kernel, ?_, ?_⟩
  · rw [hforce]
    decide +kernel
  · rw [hasked, hstar]
    decide

end TemplateLexer.Workspace
