import TemplateLexer.Proofs.Workspace.Independence

/-!
# Settings from options

Options are read in the order of their keys, and a refused value ends the reading. Still what comes of it
depends on the value of one key alone (`Settings.Reads`), wherever it stands; only the warnings tell how far
the reading went (`Settings.Warned`). The words of what is said are `Settings.TypeWord`,
`Settings.warningFor` and `Settings.Complains`.

* `cases_read`: the one known key parts the table into keys before it and keys after it;
* `result_read_iff`, `exists_warned_read`: what comes of reading, and the warnings;
* `createSettings_hands`: a workspace that lets the warnings pass gives them to its sinks, and after them the
  refusal, if there is one and a tokenizer was to be set up.
-/

namespace TemplateLexer

open Bytes Log

namespace Settings

/-- What comes of reading options: the gettext extension needs a truth value, and is off where its key is
missing. -/
inductive Reads (options : OptionTable) : Except SettingsError Settings → Prop
  | refused {value : OptionValue} (found : options.get? (ascii "enable_gettext") = some value)
      (wrong : ∀ on, value ≠ .bool on) : Reads options (.error ⟨ascii "enable_gettext", value⟩)
  | given {on : Bool} (found : options.get? (ascii "enable_gettext") = some (.bool on)) :
      Reads options (.ok ⟨on⟩)
  | missing (missing : options.get? (ascii "enable_gettext") = none) : Reads options (.ok ⟨false⟩)

/-- The keys that are warned about: those that are not known, in ascending order, and after a refusal only
those in front of the refused one. -/
structure Warned (options : OptionTable) (result : Except SettingsError Settings) (keys : List Bytes) :
    Prop where
  ascending : keys.Pairwise (· < ·)
  mem_iff : ∀ key, key ∈ keys ↔ options.get? key ≠ none ∧ key ≠ ascii "enable_gettext" ∧
    ∀ e, result = .error e → key < ascii "enable_gettext"

/-- The word for the type of a value. -/
inductive TypeWord : OptionValue → Bytes → Prop
  | bool (on : Bool) : TypeWord (.bool on) (ascii "bool")
  | integer (n : Int64) : TypeWord (.integer n) (ascii "integer")
  | float (bits : UInt64) : TypeWord (.float bits) (ascii "float")
  | string (text : Bytes) : TypeWord (.string text) (ascii "string")

/-- The warning for a key. -/
def warningFor (key : Bytes) : Entry :=
  ⟨.warn, ascii "options", ascii "Ignoring unknown tokenizer option '" ++ key ++ ascii "'"⟩

/-- What setting up a tokenizer has to say beside warnings: one complaint after a refusal, and else
nothing. -/
inductive Complains : Except SettingsError Settings → List Entry → Prop
  | accepted (settings : Settings) : Complains (.ok settings) []
  | refused (e : SettingsError) : Complains (.error e) [⟨.error, ascii "options", e.message⟩]

/-- The complaint tells what was found in words. -/
theorem exists_typeWord (value : OptionValue) : ∃ word, TypeWord value word ∧ value.typeName = word := by
  cases value with
  | bool on => exact ⟨_, .bool on, rfl⟩
  | integer n => exact ⟨_, .integer n, rfl⟩
  | float bits => exact ⟨_, .float bits, rfl⟩
  | string text => exact ⟨_, .string text, rfl⟩

/-- What setting up a tokenizer has to say are the warnings and then the complaint, if there is one. -/
theorem exists_complains (r : Reading) : ∃ complaints, Complains r.result complaints ∧
    r.entries = r.warnings ++ complaints := by
  obtain ⟨warnings, result⟩ := r
  cases result with
  | ok settings => exact ⟨[], .accepted settings, (List.append_nil warnings).symm⟩
  | error e => exact ⟨_, .refused e, rfl⟩

/-- Only errors are complaints. -/
theorem Complains.mem {result : Except SettingsError Settings} {complaints : List Entry}
    (h : Complains result complaints) {e : Entry} (he : e ∈ complaints) :
    ∃ refused : SettingsError, e = ⟨.error, ascii "options", refused.message⟩ := by
  cases h with
  | accepted => cases he
  | refused refused => exact ⟨refused, List.mem_singleton.mp he⟩

/-! ## Reading in the order of keys -/

section entries

variable {before after : List (Bytes × OptionValue)} (s : Settings)

theorem readEntries_unknown {key : Bytes} (h : key ≠ gettextKey) (value : OptionValue)
    (rest : List (Bytes × OptionValue)) :
    readEntries s ((key, value) :: rest) =
      { warnings := unknownOption key :: (readEntries s rest).warnings
        result := (readEntries s rest).result } :=
  if_neg h

/-- Unknown keys leave nothing but warnings. -/
theorem readEntries_append (h : ∀ e ∈ before, e.1 ≠ gettextKey) (rest : List (Bytes × OptionValue)) :
    readEntries s (before ++ rest) =
      { warnings := (before.map Prod.fst).map unknownOption ++ (readEntries s rest).warnings
        result := (readEntries s rest).result } := by
  induction before with
  | nil => rfl
  | cons e before ih =>
    rcases List.forall_mem_cons.mp h with ⟨hkey, hbefore⟩
    rw [List.cons_append, readEntries_unknown s hkey, ih hbefore]
    rfl

theorem readEntries_of_unknown (h : ∀ e ∈ before, e.1 ≠ gettextKey) :
    readEntries s before =
      { warnings := (before.map Prod.fst).map unknownOption, result := .ok s } := by
  have happend := readEntries_append s h []
  rwa [List.append_nil, readEntries, List.append_nil] at happend

theorem readEntries_bool (on : Bool) (rest : List (Bytes × OptionValue)) :
    readEntries s ((gettextKey, .bool on) :: rest) = readEntries ⟨on⟩ rest := by
  rw [readEntries, if_pos rfl]

theorem readEntries_wrong {value : OptionValue} (h : ∀ on, value ≠ .bool on)
    (rest : List (Bytes × OptionValue)) :
    readEntries s ((gettextKey, value) :: rest) =
      { warnings := [], result := .error ⟨gettextKey, value⟩ } := by
  unfold readEntries
  rw [if_pos rfl]
  split
  · next on => exact absurd rfl (h on)
  · rfl

end entries

/-! ## Reading a table -/

section table

variable {options : OptionTable}

/-- A key of a table parts it into smaller and larger keys. -/
structure PartedAt (options : OptionTable) (key : Bytes) (value : OptionValue)
    (before after : List (Bytes × OptionValue)) : Prop where
  entries : options.entries = before ++ (key, value) :: after
  smaller : ∀ e ∈ before, e.1 < key
  larger : ∀ e ∈ after, key < e.1

theorem get?_eq_some_iff {key : Bytes} {value : OptionValue} :
    options.get? key = some value ↔ ∃ before after, PartedAt options key value before after := by
  constructor
  · intro h
    rcases List.lookup_eq_some_iff.mp h with ⟨before, after, hentries, -⟩
    have hascending := options.ascending
    rw [hentries] at hascending
    rcases List.pairwise_append.mp hascending with ⟨-, hafter, hbefore⟩
    exact ⟨before, after, hentries, fun e he => hbefore e he _ List.mem_cons_self,
      (List.pairwise_cons.mp hafter).1⟩
  · rintro ⟨before, after, h⟩
    refine List.lookup_eq_some_iff.mpr ⟨before, after, h.entries, ?_⟩
    intro e he
    rw [bne_iff_ne]
    rintro rfl
    exact List.lt_irrefl _ (h.smaller e he)

theorem mem_keys_iff {key : Bytes} :
    key ∈ options.entries.map Prod.fst ↔ options.get? key ≠ none := by
  constructor
  · intro h hnone
    rcases List.mem_map.mp h with ⟨e, he, rfl⟩
    have hne := List.lookup_eq_none_iff.mp hnone e he
    rw [bne_self_eq_false] at hne
    cases hne
  · intro h
    rcases Option.ne_none_iff_exists'.mp h with ⟨value, hvalue⟩
    rcases get?_eq_some_iff.mp hvalue with ⟨before, after, hparted⟩
    rw [hparted.entries]
    simp

/-- The three ways in which reading goes. -/
theorem cases_read (options : OptionTable) :
    (options.get? gettextKey = none ∧
      read options =
        { warnings := (options.entries.map Prod.fst).map unknownOption, result := .ok {} }) ∨
    (∃ before on after, PartedAt options gettextKey (.bool on) before after ∧
      read options =
        { warnings := ((before ++ after).map Prod.fst).map unknownOption, result := .ok ⟨on⟩ }) ∨
    ∃ before value after, PartedAt options gettextKey value before after ∧
      (∀ on, value ≠ .bool on) ∧
      read options =
        { warnings := (before.map Prod.fst).map unknownOption
          result := .error ⟨gettextKey, value⟩ } := by
  cases hget : options.get? gettextKey with
  | none =>
    left
    refine ⟨rfl, readEntries_of_unknown _ ?_⟩
    intro e he heq
    exact mem_keys_iff.mp (heq ▸ List.mem_map_of_mem he) hget
  | some value =>
    right
    rcases get?_eq_some_iff.mp hget with ⟨before, after, hparted⟩
    have hbefore : ∀ e ∈ before, e.1 ≠ gettextKey := by
      intro e he heq
      exact List.lt_irrefl _ (heq ▸ hparted.smaller e he)
    have hafter : ∀ e ∈ after, e.1 ≠ gettextKey := by
      intro e he heq
      exact List.lt_irrefl _ (heq ▸ hparted.larger e he)
    by_cases hbool : ∃ on, value = .bool on
    · left
      rcases hbool with ⟨on, rfl⟩
      refine ⟨before, on, after, hparted, ?_⟩
      rw [read, hparted.entries, readEntries_append _ hbefore, readEntries_bool,
        readEntries_of_unknown _ hafter, List.map_append, List.map_append]
    · right
      have hwrong : ∀ on, value ≠ .bool on := fun on heq => hbool ⟨on, heq⟩
      refine ⟨before, value, after, hparted, hwrong, ?_⟩
      rw [read, hparted.entries, readEntries_append _ hbefore, readEntries_wrong _ hwrong,
        List.append_nil]

/-- What comes of reading options, and nothing else does. -/
theorem result_read_iff {result : Except SettingsError Settings} :
    (read options).result = result ↔ Reads options result := by
  constructor
  · rintro rfl
    rcases cases_read options with ⟨hnone, hread⟩ | ⟨before, on, after, hparted, hread⟩ |
      ⟨before, value, after, hparted, hwrong, hread⟩
    · rw [hread]
      exact .missing hnone
    · rw [hread]
      exact .given (get?_eq_some_iff.mpr ⟨before, after, hparted⟩)
    · rw [hread]
      exact .refused (get?_eq_some_iff.mpr ⟨before, after, hparted⟩) hwrong
  · intro h
    rcases cases_read options with ⟨hnone, hread⟩ | ⟨before, on, after, hparted, hread⟩ |
      ⟨before, value, after, hparted, hwrong, hread⟩
    · rw [hread]
      cases h with
      | refused found => cases hnone.symm.trans found
      | given found => cases hnone.symm.trans found
      | missing => rfl
    · have hget := get?_eq_some_iff.mpr ⟨before, after, hparted⟩
      rw [hread]
      cases h with
      | refused found wrong => exact absurd (Option.some.inj (found.symm.trans hget)) (wrong on)
      | given found =>
        cases found.symm.trans hget
        rfl
      | missing missing => cases hget.symm.trans missing
    · have hget := get?_eq_some_iff.mpr ⟨before, after, hparted⟩
      rw [hread]
      cases h with
      | refused found =>
        cases found.symm.trans hget
        rfl
      | given found => exact absurd (Option.some.inj (hget.symm.trans found)) (hwrong _)
      | missing missing => cases hget.symm.trans missing

/-- The keys in front of a key and those behind it are all others. -/
theorem PartedAt.mem_iff {key other : Bytes} {value : OptionValue}
    {before after : List (Bytes × OptionValue)} (h : PartedAt options key value before after) :
    (other ∈ before.map Prod.fst ↔ options.get? other ≠ none ∧ other ≠ key ∧ other < key) ∧
      (other ∈ (before ++ after).map Prod.fst ↔ options.get? other ≠ none ∧ other ≠ key) := by
  rw [← mem_keys_iff, h.entries]
  simp only [List.map_append, List.map_cons, List.mem_append, List.mem_cons]
  have hsmaller : other ∈ before.map Prod.fst → other < key := by
    intro hmem
    rcases List.mem_map.mp hmem with ⟨e, he, rfl⟩
    exact h.smaller e he
  have hlarger : other ∈ after.map Prod.fst → key < other := by
    intro hmem
    rcases List.mem_map.mp hmem with ⟨e, he, rfl⟩
    exact h.larger e he
  have hne : ∀ {a b : Bytes}, a < b → a ≠ b := fun hlt heq => List.lt_irrefl _ (heq ▸ hlt)
  constructor
  · constructor
    · intro hmem
      exact ⟨.inl hmem, hne (hsmaller hmem), hsmaller hmem⟩
    · rintro ⟨hmem | heq | hmem, hother, hlt⟩
      · exact hmem
      · exact absurd heq hother
      · exact absurd (List.lt_trans hlt (hlarger hmem)) (List.lt_irrefl _)
  · constructor
    · rintro (hmem | hmem)
      · exact ⟨.inl hmem, hne (hsmaller hmem)⟩
      · exact ⟨.inr (.inr hmem), (hne (hlarger hmem)).symm⟩
    · rintro ⟨hmem | heq | hmem, hother⟩
      · exact .inl hmem
      · exact absurd heq hother
      · exact .inr hmem

/-- The warnings of a reading. -/
theorem exists_warned_read (options : OptionTable) :
    ∃ keys, Warned options (read options).result keys ∧
      (read options).warnings = keys.map warningFor := by
  have hascending : (options.entries.map Prod.fst).Pairwise (· < ·) :=
    List.pairwise_map.mpr options.ascending
  rcases cases_read options with ⟨hnone, hread⟩ | ⟨before, on, after, hparted, hread⟩ |
    ⟨before, value, after, hparted, hwrong, hread⟩
  · refine ⟨options.entries.map Prod.fst, ⟨hascending, ?_⟩, congrArg Reading.warnings hread⟩
    intro key
    rw [hread, mem_keys_iff]
    constructor
    · intro hkey
      exact ⟨hkey, fun heq => hkey (heq ▸ hnone), nofun⟩
    · exact And.left
  · refine ⟨(before ++ after).map Prod.fst, ⟨hascending.sublist ?_, ?_⟩, congrArg Reading.warnings hread⟩
    · rw [hparted.entries]
      exact (List.sublist_cons_self _ _).append_left _ |>.map _
    · intro key
      rw [hread, hparted.mem_iff.2]
      exact ⟨fun h => ⟨h.1, h.2, nofun⟩, fun h => ⟨h.1, h.2.1⟩⟩
  · refine ⟨before.map Prod.fst, ⟨hascending.sublist ?_, ?_⟩, congrArg Reading.warnings hread⟩
    · rw [hparted.entries]
      exact (List.sublist_append_left _ _).map _
    · intro key
      rw [hread, hparted.mem_iff.1]
      exact ⟨fun h => ⟨h.1, h.2.1, fun _ _ => h.2.2⟩, fun h => ⟨h.1, h.2.1, h.2.2 _ rfl⟩⟩

end table

end Settings

namespace Workspace

open Settings

/-- Where all of them pass, entries go to the sinks as they are told. -/
theorem hands_tellAll (w : Workspace) {entries : List Entry}
    (h : ∀ e ∈ entries, w.logger.admits e.level e.module = true) : Hands w (w.tellAll entries) entries := by
  rw [tellAll_eq_foldl_log, passed_eq_filter, List.filter_eq_self.mpr h]
  exact hands_foldl_log w entries

/-- **Settings from options.** Whatever the other options are, reading is refused exactly if the key of the
gettext extension has a value that is no truth value, and else gives that value, or false without one. The
complaint names the key and the type of the value. Where warnings about options pass, there is one for each
unknown key in ascending order, up to a refused one; and if a tokenizer is to be set up, the complaint follows
them. -/
theorem createSettings_hands (w : Workspace) (options : OptionTable)
    (h : w.logger.admits .warn (ascii "options") = true) :
    (∀ result, (w.readSettings options).1 = result ↔ Reads options result) ∧
      (∀ e, (w.readSettings options).1 = .error e → ∃ word, TypeWord e.found word ∧
        e.message = ascii "option \"enable_gettext\" must be a boolean, got " ++ word) ∧
      (w.createSettings options).1 = (w.readSettings options).1 ∧
      ∃ keys complaints, Warned options (w.readSettings options).1 keys ∧
        Complains (w.readSettings options).1 complaints ∧
        Hands w (w.readSettings options).2 (keys.map warningFor) ∧
        Hands w (w.createSettings options).2 (keys.map warningFor ++ complaints) := by
  rcases exists_warned_read options with ⟨keys, hwarned, hwarnings⟩
  rcases exists_complains (read options) with ⟨complaints, hcomplains, hentries⟩
  have hwarning : ∀ e ∈ keys.map warningFor, w.logger.admits e.level e.module = true := by
    intro e he
    rcases List.mem_map.mp he with ⟨key, -, rfl⟩
    exact h
  have hcomplaint : ∀ e ∈ complaints, w.logger.admits e.level e.module = true := by
    intro e he
    have hle : Level.warn ≤ Level.error := by decide
    rcases hcomplains.mem he with ⟨refused, rfl⟩
    exact Logger.admits_of_le hle h
  have hread : (w.readSettings options).2 = w.tellAll (keys.map warningFor) := by
    rw [← hwarnings]
    rfl
  have hcreated : (w.createSettings options).2 = w.tellAll (keys.map warningFor ++ complaints) := by
    rw [← hwarnings, ← hentries]
    rfl
  refine ⟨fun _ => result_read_iff, ?_, rfl, keys, complaints, hwarned, hcomplains, ?_, ?_⟩
  · intro e he
    rcases exists_typeWord e.found with ⟨word, hword, hname⟩
    refine ⟨word, hword, ?_⟩
    rw [← hname]
    cases result_read_iff.mp he with
    | refused => rfl
  · rw [hread]
    exact hands_tellAll w hwarning
  · rw [hcreated]
    exact hands_tellAll w (List.forall_mem_append.mpr ⟨hwarning, hcomplaint⟩)

/-- Options with a text in place of a truth value, an unknown key before it and one after it. -/
def wrongType : OptionTable :=
  .ofList [(ascii "zeta", .bool true), (ascii "enable_gettext", .string (ascii "yes")),
    (ascii "alpha", .integer 1)]

/-- The unknown key before the refused one is warned about, and the one after it is not. -/
theorem createSettings_hands_wrongType :
    let w := listening .warn
    let refused : SettingsError := ⟨ascii "enable_gettext", .string (ascii "yes")⟩
    let message := ascii "option \"enable_gettext\" must be a boolean, got string"
    w.logger.admits .warn (ascii "options") = true ∧ (w.createSettings wrongType).1 = .error refused ∧
      refused.message = message ∧
      ∃ keys, Warned wrongType (.error refused) keys ∧ ascii "alpha" ∈ keys ∧ ascii "zeta" ∉ keys ∧
        (w.createSettings wrongType).2.received 0 =
          keys.map warningFor ++ [⟨.error, ascii "options", message⟩] := by
  intro w refused message
  have hwarn : w.logger.admits .warn (ascii "options") = true := by decide
  rcases createSettings_hands w wrongType hwarn with
    ⟨hreads, hmessage, hsame, keys, complaints, hwarned, hcomplains, -, hhands⟩
  have hrefused : (w.readSettings wrongType).1 = .error refused :=
    (hreads _).mpr (.refused (by decide +kernel) nofun)
  rw [hrefused] at hwarned hcomplains hsame
  have htext : refused.message = message := by
    rcases hmessage refused hrefused with ⟨word, hword, htext⟩
    cases hword
    exact htext.trans (by decide)
  refine ⟨hwarn, hsame, htext, keys, hwarned, ?_, ?_, ?_⟩
  · exact (hwarned.mem_iff _).mpr ⟨by decide +kernel, by decide, fun _ _ => by decide⟩
  · intro hmem
    exact absurd (((hwarned.mem_iff _).mp hmem).2.2 refused rfl) (by decide)
  · cases hcomplains
    rw [← htext]
    exact hhands.received 0 rfl

end Workspace

end TemplateLexer
