import TemplateLexer.Bytes.Blank
import TemplateLexer.Log.Filter
import TemplateLexer.Proofs.Bytes.Search
import TemplateLexer.Proofs.LastWins

/-!
# The thresholds of a filter list

A filter list says one thing by each of its entries: the level of a module (`levelFor?`) or the level
of all modules without one (`defaultFor?`). Of the entries that say the same thing, the last one counts.
What an entry says is also told by how it is put together (`Says`).

* `entries_eq_iff`: what the entries of a list are;
* `threshold_parse`: the threshold of a module is what the last entry that names it says, and else what
  the last entry `*=level` says, and else the default from before;
* `minLevel_le_threshold`: no threshold lies below the lowest one;
* `obeys_parse`: both, and all else that reading a list does, told by the last entries.
-/

namespace TemplateLexer.Log.Level

open Bytes

/-- The level that a text names: a name in small or in capital letters, and general information for
every other text. -/
inductive Names : Bytes → Level → Prop
  | known {text : Bytes} {entry : Level × Bytes} (listed : entry ∈ names)
      (spelt : text = entry.2 ∨ text = entry.2.map lowerByte) : Names text entry.1
  | unknown {text : Bytes}
      (unlisted : ∀ entry ∈ names, text ≠ entry.2 ∧ text ≠ entry.2.map lowerByte) :
    Names text .info

theorem names_iff {text : Bytes} {level : Level} :
    Names text level ↔ parse text = level := by
  have hparse : ∀ entry ∈ names, parse entry.2 = entry.1 ∧ parse (entry.2.map lowerByte) = entry.1 := by
    decide
  constructor
  · intro h
    cases h with
    | known listed spelt =>
      rcases spelt with rfl | rfl
      · exact (hparse _ listed).1
      · exact (hparse _ listed).2
    | unknown unlisted =>
      have hnone : (names.find? fun entry => entry.2 = text || entry.2.map lowerByte = text) = none := by
        rw [List.find?_eq_none]
        intro entry hentry
        rcases unlisted entry hentry with ⟨hcapital, hsmall⟩
        simp [hcapital.symm, hsmall.symm]
      rw [parse, hnone]
  · rintro rfl
    unfold parse
    split
    · next entry hfind =>
      have hspelt := List.find?_some hfind
      rw [Bool.or_eq_true, decide_eq_true_iff, decide_eq_true_iff] at hspelt
      exact .known (List.mem_of_find?_eq_some hfind) (hspelt.imp Eq.symm Eq.symm)
    · next hfind =>
      apply Names.unknown
      intro entry hentry
      have hnot := List.find?_eq_none.mp hfind entry hentry
      rw [Bool.or_eq_true, decide_eq_true_iff, decide_eq_true_iff, not_or] at hnot
      exact ⟨Ne.symm hnot.1, Ne.symm hnot.2⟩

end TemplateLexer.Log.Level

namespace TemplateLexer.Log.Filter

open Bytes

/-! ## The entries of a list -/

/-- The entries are the texts without a comma that make up the list when they are joined by commas. There
is at least one, which is empty in an empty list. -/
theorem entries_eq_iff {spec : Bytes} {pieces : List Bytes} :
    entries spec = pieces ↔
      [0x2C].intercalate pieces = spec ∧ pieces ≠ [] ∧ ∀ piece ∈ pieces, 0x2C ∉ piece := by
  constructor
  · rintro rfl
    refine ⟨List.intercalate_splitOn 0x2C, List.splitOn_ne_nil 0x2C spec, ?_⟩
    intro piece hpiece hcomma
    rw [entries, List.splitOn] at hpiece
    cases not_sep_of_mem_splitOnP hpiece hcomma
  · rintro ⟨rfl, hne, hfree⟩
    exact List.splitOn_intercalate 0x2C hfree hne

/-! ## What an entry says -/

/-- The level that an entry gives to a module, if it names the module. -/
def levelFor? (module entry : Bytes) : Option Level :=
  match cutAt? [equalsSign] entry with
  | some (name, level) => if name = module ∧ name ≠ wildcard then some (.parse level) else none
  | none => if entry = module ∧ entry ≠ [] then some .trace else none

/-- The level that an entry gives to all modules without one, if it is about these. -/
def defaultFor? (entry : Bytes) : Option Level :=
  match cutAt? [equalsSign] entry with
  | some (name, level) => if name = wildcard then some (.parse level) else none
  | none => none

/-- The level of the last entry of a list that names a module. -/
def lastLevelFor? (module spec : Bytes) : Option Level :=
  ((entries spec).filterMap (levelFor? module)).getLast?

/-- The level of the last entry `*=level` of a list. -/
def lastDefaultFor? (spec : Bytes) : Option Level :=
  ((entries spec).filterMap defaultFor?).getLast?

/-- What an entry of a list says, told by how it is put together: the level of a module, or of all
modules without a level of their own. -/
inductive Says : Bytes → Option Bytes → Level → Prop
  /-- `module=level`; the name ends at the first equals sign. -/
  | module {name text : Bytes} {level : Level} (cut : equalsSign ∉ name) (named : name ≠ wildcard)
      (reads : Level.Names text level) : Says (name ++ equalsSign :: text) (some name) level
  /-- A name alone asks for everything. -/
  | bare {name : Bytes} (cut : equalsSign ∉ name) (named : name ≠ []) :
    Says name (some name) .trace
  /-- `*=level`. -/
  | default {text : Bytes} {level : Level} (reads : Level.Names text level) :
    Says (wildcard ++ equalsSign :: text) none level

theorem levelFor?_eq_some_iff {module entry : Bytes} {level : Level} :
    levelFor? module entry = some level ↔ Says entry (some module) level := by
  constructor
  · intro h
    unfold levelFor? at h
    split at h
    · next name text hcut =>
      rcases cutAt?_singleton_eq_some_iff.mp hcut with ⟨rfl, hname⟩
      rcases Option.ite_none_right_eq_some.mp h with ⟨⟨rfl, hne⟩, hlevel⟩
      exact .module hname hne (Level.names_iff.mpr (Option.some.inj hlevel))
    · next hcut =>
      rcases Option.ite_none_right_eq_some.mp h with ⟨⟨rfl, hne⟩, hlevel⟩
      cases hlevel
      exact .bare (cutAt?_singleton_eq_none_iff.mp hcut) hne
  · intro h
    cases h with
    | module cut named reads =>
      rw [levelFor?, cutAt?_singleton_eq_some_iff.mpr ⟨rfl, cut⟩]
      simp [named, Level.names_iff.mp reads]
    | bare cut named =>
      rw [levelFor?, cutAt?_singleton_eq_none_iff.mpr cut]
      simp [named]

theorem defaultFor?_eq_some_iff {entry : Bytes} {level : Level} :
    defaultFor? entry = some level ↔ Says entry none level := by
  constructor
  · intro h
    unfold defaultFor? at h
    split at h
    · next name text hcut =>
      rcases cutAt?_singleton_eq_some_iff.mp hcut with ⟨rfl, -⟩
      rcases Option.ite_none_right_eq_some.mp h with ⟨rfl, hlevel⟩
      exact .default (Level.names_iff.mpr (Option.some.inj hlevel))
    · cases h
  · intro h
    cases h with
    | default reads =>
      have hcut : equalsSign ∉ wildcard := by decide
      rw [defaultFor?, cutAt?_singleton_eq_some_iff.mpr ⟨rfl, hcut⟩]
      simp [Level.names_iff.mp reads]

/-- A name with an equals sign in it is never given a level: names end at the first equals sign. -/
theorem lastLevelFor?_equalsSign (spec : Bytes) : lastLevelFor? [equalsSign] spec = none := by
  have hnone : ∀ entry, levelFor? [equalsSign] entry = none := by
    intro entry
    unfold levelFor?
    split
    · next name level hcut =>
      apply if_neg
      rintro ⟨rfl, -⟩
      rw [eq_of_cutAt? hcut, List.append_assoc,
        cutAt?_of_startsWith (List.prefix_append _ _)] at hcut
      cases hcut
    · next hcut =>
      apply if_neg
      rintro ⟨rfl, -⟩
      rw [cutAt?_of_startsWith (List.prefix_refl _)] at hcut
      cases hcut
  rw [lastLevelFor?, List.filterMap_eq_nil_iff.mpr fun entry _ => hnone entry]
  rfl

/-! ## Reading a list -/

section reading

variable (f : Filter) (module entry : Bytes)

/-- Giving a module a level changes what is found for that module alone. -/
theorem lookup_assign (name : Bytes) (level : Level) :
    (f.assign name level).modules.lookup module =
      if name = module then some level else f.modules.lookup module := by
  have hfind : ∀ modules : List (Bytes × Level),
      (modules.filter (fun e => e.1 ≠ name) ++ [(name, level)]).lookup module =
        if name = module then some level else modules.lookup module := by
    intro modules
    induction modules with
    | nil => grind
    | cons e rest ih => grind
  exact hfind f.modules

theorem lookup_takeEntry :
    (f.takeEntry entry).modules.lookup module =
      (levelFor? module entry).or (f.modules.lookup module) := by
  unfold takeEntry levelFor?
  cases cutAt? [equalsSign] entry with
  | some parts =>
    by_cases hw : parts.1 = wildcard
    · simp [hw]
    · simp only [hw, if_false, lookup_assign, ne_eq, not_false_eq_true, and_true]
      split <;> rfl
  | none =>
    by_cases he : entry = []
    · simp [he]
    · simp only [List.isEmpty_iff, he, if_false, lookup_assign, ne_eq, not_false_eq_true, and_true]
      split <;> rfl

theorem defaultLevel_takeEntry :
    (f.takeEntry entry).defaultLevel = (defaultFor? entry).getD f.defaultLevel := by
  unfold takeEntry defaultFor?
  cases cutAt? [equalsSign] entry with
  | some parts => by_cases hw : parts.1 = wildcard <;> simp [hw, assign]
  | none => by_cases he : entry = [] <;> simp [he, assign]

theorem lookup_foldl_takeEntry (list : List Bytes) :
    (list.foldl takeEntry f).modules.lookup module =
      ((list.filterMap (levelFor? module)).getLast?).or (f.modules.lookup module) :=
  foldl_eq_getLast?_or takeEntry (·.modules.lookup module) (levelFor? module)
    (fun f entry => lookup_takeEntry f module entry) f list

theorem defaultLevel_foldl_takeEntry (list : List Bytes) :
    (list.foldl takeEntry f).defaultLevel =
      ((list.filterMap defaultFor?).getLast?).getD f.defaultLevel := by
  have hseen : ∀ (f : Filter) entry, some (f.takeEntry entry).defaultLevel =
      (defaultFor? entry).or (some f.defaultLevel) := by
    intro f entry
    rw [defaultLevel_takeEntry, Option.or_some]
  have hlast := foldl_eq_getLast?_or takeEntry (some ·.defaultLevel) defaultFor? hseen f list
  rw [Option.or_some] at hlast
  exact Option.some.inj hlast

/-- The modules of a list are those of its own entries. -/
theorem lookup_parse (spec : Bytes) :
    (f.parse spec).modules.lookup module = lastLevelFor? module spec := by
  rw [parse, lookup_foldl_takeEntry, List.lookup_nil, Option.or_none]
  rfl

/-- The default is left from before where the list does not set it. -/
theorem defaultLevel_parse (spec : Bytes) :
    (f.parse spec).defaultLevel = (lastDefaultFor? spec).getD f.defaultLevel :=
  defaultLevel_foldl_takeEntry _ _

/-- **The last entry wins.** After a list is read, the threshold of a module is that of the last entry
that names it, or else that of the last entry for all other modules, or else the old default. -/
theorem threshold_parse (spec : Bytes) :
    (f.parse spec).threshold module =
      (lastLevelFor? module spec).getD ((lastDefaultFor? spec).getD f.defaultLevel) := by
  rw [threshold, lookup_parse, defaultLevel_parse]

end reading

/-! ## The lowest threshold -/

section lowest

/-- The lowest of a level and the levels of modules lies below all of them. -/
theorem foldl_lower_le (modules : List (Bytes × Level)) (least : Level) :
    modules.foldl (fun least e => least.lower e.2) least ≤ least ∧
      ∀ e ∈ modules, modules.foldl (fun least e => least.lower e.2) least ≤ e.2 := by
  induction modules generalizing least with
  | nil => exact ⟨Int.le_refl _, by simp⟩
  | cons e rest ih =>
    obtain ⟨hleast, hrest⟩ := ih (least.lower e.2)
    obtain ⟨hle, hhead⟩ := Level.le_lower_iff.mp hleast
    refine ⟨hle, ?_⟩
    intro e' he'
    rcases List.mem_cons.mp he' with rfl | hmem
    · exact hhead
    · exact hrest e' hmem

theorem minLevel_le_defaultLevel (f : Filter) : f.minLevel ≤ f.defaultLevel :=
  (foldl_lower_le f.modules f.defaultLevel).1

theorem minLevel_le_threshold (f : Filter) (module : Bytes) : f.minLevel ≤ f.threshold module := by
  cases hfind : f.modules.lookup module with
  | none =>
    rw [threshold, hfind]
    exact f.minLevel_le_defaultLevel
  | some level =>
    obtain ⟨before, after, heq, -⟩ := List.lookup_eq_some_iff.mp hfind
    rw [threshold, hfind]
    exact (foldl_lower_le f.modules f.defaultLevel).2 (module, level) (by simp [heq])

/-- Without modules, the lowest threshold is the default. -/
theorem minLevel_of_modules_eq_nil (f : Filter) (h : f.modules = []) : f.minLevel = f.defaultLevel := by
  rw [minLevel, h]
  rfl

end lowest

/-! ## What a list says -/

/-- The last entry of a list that says something about a subject says this level. -/
def LastSays (spec : Bytes) (subject : Option Bytes) (level : Level) : Prop :=
  ∃ before entry after, entries spec = before ++ entry :: after ∧ Says entry subject level ∧
    ∀ later ∈ after, ∀ other, ¬ Says later subject other

/-- No entry of a list says anything about a subject. -/
def Silent (spec : Bytes) (subject : Option Bytes) : Prop :=
  ∀ entry ∈ entries spec, ∀ level, ¬ Says entry subject level

section subjects

variable {spec : Bytes} {subject : Option Bytes} {level : Level} {found : Bytes → Option Level}

/-- What is found last in a list is what the last entry about the subject says. -/
theorem lastSays_iff (hfound : ∀ entry level, found entry = some level ↔ Says entry subject level) :
    ((entries spec).filterMap found).getLast? = some level ↔ LastSays spec subject level :=
  saidLast_iff hfound

theorem silent_iff (hfound : ∀ entry level, found entry = some level ↔ Says entry subject level) :
    ((entries spec).filterMap found).getLast? = none ↔ Silent spec subject :=
  unsaid_iff hfound

end subjects

/-! ## Each module is named once -/

/-- No module has two thresholds. -/
def NamedOnce (f : Filter) : Prop := (f.modules.map Prod.fst).Nodup

theorem NamedOnce.assign {f : Filter} (h : f.NamedOnce) (name : Bytes) (level : Level) :
    (f.assign name level).NamedOnce := by
  have hold : ((f.modules.filter fun e => e.1 ≠ name).map Prod.fst).Nodup :=
    h.sublist (List.filter_sublist.map Prod.fst)
  show ((f.modules.filter (fun e => e.1 ≠ name) ++ [(name, level)]).map Prod.fst).Nodup
  rw [List.map_append, List.nodup_append]
  refine ⟨hold, by simp, ?_⟩
  -- what the module had before is taken out
  intro other hother new hnew
  rcases List.mem_map.mp hother with ⟨e, he, rfl⟩
  rw [List.mem_singleton.mp hnew]
  exact of_decide_eq_true (List.mem_filter.mp he).2

theorem NamedOnce.takeEntry {f : Filter} (h : f.NamedOnce) (entry : Bytes) :
    (f.takeEntry entry).NamedOnce := by
  unfold Filter.takeEntry
  split
  · split
    · exact h
    · exact h.assign _ _
  · split
    · exact h
    · exact h.assign _ _

theorem namedOnce_parse (f : Filter) (spec : Bytes) : (f.parse spec).NamedOnce := by
  have hfold : ∀ (list : List Bytes) (g : Filter), g.NamedOnce → (list.foldl takeEntry g).NamedOnce := by
    intro list
    induction list with
    | nil =>
      intro g hg
      exact hg
    | cons entry rest ih =>
      intro g hg
      exact ih _ (hg.takeEntry entry)
  apply hfold
  exact List.nodup_nil

/-- A threshold that a module has is the one that is found. -/
theorem NamedOnce.lookup_eq {f : Filter} (h : f.NamedOnce) {module : Bytes} {level : Level}
    (hmem : (module, level) ∈ f.modules) : f.modules.lookup module = some level := by
  rcases List.append_of_mem hmem with ⟨before, after, heq⟩
  rw [List.lookup_eq_some_iff]
  refine ⟨before, after, heq, ?_⟩
  intro e he
  -- the same name further in front would be there twice
  rw [NamedOnce, heq, List.map_append, List.nodup_append] at h
  have hne := h.2.2 e.1 (List.mem_map_of_mem he) module (by simp)
  simpa using hne.symm

/-- The lowest threshold is the default or that of a module. -/
theorem minLevel_eq_default_or_mem (f : Filter) :
    f.minLevel = f.defaultLevel ∨ ∃ module, (module, f.minLevel) ∈ f.modules := by
  have hfold : ∀ (modules : List (Bytes × Level)) (least : Level),
      modules.foldl (fun least e => least.lower e.2) least = least ∨
        ∃ module, (module, modules.foldl (fun least e => least.lower e.2) least) ∈ modules := by
    intro modules
    induction modules with
    | nil =>
      intro least
      exact .inl rfl
    | cons e rest ih =>
      intro least
      rw [List.foldl_cons]
      rcases ih (least.lower e.2) with hleast | ⟨module, hmem⟩
      · -- the rest has nothing lower than the two levels compared here
        rw [hleast]
        unfold Level.lower
        split
        · exact .inr ⟨e.1, List.mem_cons_self⟩
        · exact .inl rfl
      · exact .inr ⟨module, List.mem_cons_of_mem _ hmem⟩
  exact hfold f.modules f.defaultLevel

/-! ## The whole list -/

/-- Empty entries mean nothing. -/
theorem foldl_takeEntry_filter (f : Filter) (list : List Bytes) :
    (list.filter (· ≠ [])).foldl takeEntry f = list.foldl takeEntry f := by
  induction list generalizing f with
  | nil => rfl
  | cons entry rest ih =>
    by_cases he : entry = []
    · subst he
      exact ih f
    · rw [List.filter_cons_of_pos (by simpa using he)]
      exact ih _

/-- The filter `g` is `f` after a list was read. -/
structure Obeys (f : Filter) (spec : Bytes) (g : Filter) : Prop where
  /-- The last entry `*=level` sets the default, which else stays what it was. -/
  default_said : ∀ level, LastSays spec none level → g.defaultLevel = level
  default_kept : Silent spec none → g.defaultLevel = f.defaultLevel
  /-- The last entry that names a module decides what passes of it. -/
  named : ∀ module last level, LastSays spec (some module) last →
    (g.admits level module = true ↔ last ≤ level)
  unnamed : ∀ module level, Silent spec (some module) →
    (g.admits level module = true ↔ g.defaultLevel ≤ level)
  /-- Nothing but the default is left of what was there before, and empty entries mean nothing. -/
  settled : ∀ (f' : Filter) (spec' : Bytes), f'.defaultLevel = f.defaultLevel →
    (entries spec').filter (· ≠ []) = (entries spec).filter (· ≠ []) → f'.parse spec' = g
  /-- The lowest threshold is below that of each module. -/
  least : ∀ module, g.minLevel ≤ g.threshold module
  attained : g.minLevel = g.defaultLevel ∨ ∃ module, LastSays spec (some module) g.minLevel

/-- **The last entry wins.** Whatever a filter was before, after it has read a list the thresholds are
those of the last entries, and the lowest of them is one of them. -/
theorem obeys_parse (f : Filter) (spec : Bytes) : Obeys f spec (f.parse spec) where
  default_said := by
    intro level h
    have hlast : lastDefaultFor? spec = some level :=
      (lastSays_iff fun _ _ => defaultFor?_eq_some_iff).mpr h
    rw [defaultLevel_parse, hlast, Option.getD_some]
  default_kept := by
    intro h
    have hlast : lastDefaultFor? spec = none :=
      (silent_iff fun _ _ => defaultFor?_eq_some_iff).mpr h
    rw [defaultLevel_parse, hlast, Option.getD_none]
  named := by
    intro module last level h
    have hlast : lastLevelFor? module spec = some last :=
      (lastSays_iff fun _ _ => levelFor?_eq_some_iff).mpr h
    rw [admits, threshold_parse, hlast, Option.getD_some, decide_eq_true_iff]
  unnamed := by
    intro module level h
    have hlast : lastLevelFor? module spec = none :=
      (silent_iff fun _ _ => levelFor?_eq_some_iff).mpr h
    rw [admits, threshold_parse, hlast, Option.getD_none, ← defaultLevel_parse, decide_eq_true_iff]
  settled := by
    intro f' spec' hdefault hentries
    unfold parse
    rw [← foldl_takeEntry_filter, hentries, foldl_takeEntry_filter, hdefault]
  least := by
    intro module
    exact (f.parse spec).minLevel_le_threshold module
  attained := by
    rcases (f.parse spec).minLevel_eq_default_or_mem with hdefault | ⟨module, hmem⟩
    · exact .inl hdefault
    · right
      have hlookup := (namedOnce_parse f spec).lookup_eq hmem
      rw [lookup_parse] at hlookup
      exact ⟨module, (lastSays_iff fun _ _ => levelFor?_eq_some_iff).mp hlookup⟩

/-- A list that names one module twice, one without a name, and the wildcard in three ways: the last
entry `*=level` has a name that is unknown, and a wildcard alone is a module of that name. -/
example :
    let f := Filter.parse { defaultLevel := .off } (ascii "a=error,,*=warn,=fatal,a,*,*=b=c,")
    f.defaultLevel = .info ∧ f.threshold (ascii "a") = .trace ∧ f.threshold [] = .fatal ∧
      f.threshold (ascii "*") = .trace ∧ f.minLevel = .trace := by
  decide +kernel

end TemplateLexer.Log.Filter
