import TemplateLexer.Command.Arguments
import TemplateLexer.Proofs.Log.Config

/-!
# The grammar of arguments

The arguments of a scanning command are a list of items: logging flags, delimiters, options and templates
(`Item`). An option may take two arguments, all else takes one (`Takes`), and no argument fits two forms
(`Takes.unique`), so the arguments are read in one way at most (`Reads`).

* `readFrom_append`: reading arguments that are items is taking up the items one by one;
* `exists_reads_append`: all arguments are items up to a point where reading ends for whatever follows, or
  where an option waits for its value;
* `parse_grammar`: the arguments are accepted exactly if they are items with one template that has a name,
  and later items win (`Means`).
-/

namespace TemplateLexer.Command

open Bytes

/-! ## Items -/

/-- What one or two arguments say. -/
inductive Item where
  /-- Something about the log, which is none of the command's business. -/
  | logging
  | delimiters (spec : Bytes)
  | gettext
  | option (key value : Bytes)
  | template (path : Bytes)
  deriving DecidableEq, Repr

namespace Item

/-- The path that an item gives. -/
def path? : Item → Option Bytes
  | template path => some path
  | _ => none

/-- The delimiters that an item gives. -/
def delimiters? : Item → Option Bytes
  | delimiters spec => some spec
  | _ => none

/-- The value that an item gives to a key. -/
def value? (key : Bytes) : Item → Option OptionValue
  | gettext => if key = Settings.gettextKey then some (.bool true) else none
  | option other value => if key = other then some (.parse value) else none
  | _ => none

end Item

/-- A text `key=value`, cut at its first equals sign; the key is not empty. -/
structure IsPair (text key value : Bytes) : Prop where
  text : text = key ++ equalsSign :: value
  cut : equalsSign ∉ key
  named : key ≠ []

/-- One argument is an item by itself. -/
inductive Stands : Bytes → Item → Prop
  | logging {arg : Bytes} (flag : Log.isFlag arg = true) : Stands arg .logging
  | delimiters {spec : Bytes} : Stands (ascii "--delimiters=" ++ spec) (.delimiters spec)
  | gettext : Stands (ascii "--gettext") .gettext
  | option {pair key value : Bytes} (h : IsPair pair key value) :
    Stands (ascii "--option=" ++ pair) (.option key value)
  | template {path : Bytes} (plain : path.head? ≠ some hyphen) : Stands path (.template path)

/-- The arguments start with an item, and go on with the rest. -/
inductive Takes : List Bytes → Item → List Bytes → Prop
  | alone {arg : Bytes} {item : Item} {rest : List Bytes} (h : Stands arg item) :
    Takes (arg :: rest) item rest
  | option {pair key value : Bytes} {rest : List Bytes} (h : IsPair pair key value) :
    Takes (ascii "--option" :: pair :: rest) (.option key value) rest

/-- The arguments are items, from left to right. -/
inductive Reads : List Bytes → List Item → Prop
  | nil : Reads [] []
  | cons {args rest : List Bytes} {item : Item} {items : List Item} (h : Takes args item rest)
      (hrest : Reads rest items) : Reads args (item :: items)

/-- What items ask for: the one template that has a name, the last delimiters, and for each key the last
value. -/
structure Means (items : List Item) (a : Arguments) : Prop where
  template : ∃ n, items.filterMap Item.path? = List.replicate n [] ++ [a.path]
  named : a.path ≠ []
  delimiters : a.delimiters = (items.filterMap Item.delimiters?).getLast?
  options : ∀ key, a.options.get? key = (items.filterMap (Item.value? key)).getLast?

/-! ## No argument fits two forms -/

/-- The start of an argument, as far as it takes to tell the forms apart. -/
def front (arg : Bytes) : Bytes := arg.take 3

theorem front_append (stem rest : Bytes) (h : 3 ≤ stem.length) :
    front (stem ++ rest) = front stem :=
  List.take_append_of_le_length h

theorem head?_front (arg : Bytes) : (front arg).head? = arg.head? := by
  cases arg with
  | nil => rfl
  | cons b rest => rfl

/-- How logging flags start. -/
def flagFronts : List Bytes :=
  [ascii "--l", ascii "--q", ascii "--v", ascii "-q", ascii "-v", ascii "-vv"]

theorem front_of_verbosity? {arg : Bytes} {n : Nat} (h : Log.Flag.verbosity? arg = some n) :
    front arg ∈ flagFronts := by
  have hfronts : front [hyphen, 0x76] ∈ flagFronts ∧ front [hyphen, 0x76, 0x76] ∈ flagFronts := by
    decide
  unfold Log.Flag.verbosity? at h
  split at h
  · next b letters =>
    rcases Option.ite_none_right_eq_some.mp h with ⟨hform, -⟩
    simp only [Bool.and_eq_true, decide_eq_true_eq, Bool.not_eq_true', List.isEmpty_eq_false_iff,
      List.all_eq_true, beq_iff_eq] at hform
    rcases hform with ⟨⟨rfl, hne⟩, hall⟩
    match letters with
    | [] => exact absurd rfl hne
    | [c] =>
      rw [hall c (by simp)]
      exact hfronts.1
    | c :: d :: rest =>
      rw [hall c (by simp), hall d (by simp)]
      exact hfronts.2
  · cases h

theorem front_of_isFlag {arg : Bytes} (h : Log.isFlag arg = true) : front arg ∈ flagFronts := by
  have hstems : ∀ stem ∈ Log.Flag.stems, 3 ≤ stem.length ∧ front stem ∈ flagFronts := by decide
  have hwords : ∀ word ∈ ["-q", "--quiet", "--verbose"], front (ascii word) ∈ flagFronts := by decide
  rcases Log.Flag.isFlag_eq_true_iff.mp h with ⟨stem, hstem, rest, rfl⟩ | rfl | rfl | rfl | ⟨n, hn⟩
  · rw [front_append _ rest (hstems stem hstem).1]
    exact (hstems stem hstem).2
  · exact hwords _ (by simp)
  · exact hwords _ (by simp)
  · exact hwords _ (by simp)
  · exact front_of_verbosity? hn

theorem isFlag_eq_false {arg : Bytes} (h : front arg ∉ flagFronts) : Log.isFlag arg = false := by
  rw [← Bool.not_eq_true]
  intro hflag
  exact h (front_of_isFlag hflag)

/-- An argument with another start has not the stem. -/
theorem afterStem?_eq_none {stem arg : Bytes} (hlength : 3 ≤ stem.length)
    (h : front arg ≠ front stem) : afterStem? stem arg = none := by
  rw [Option.eq_none_iff_forall_ne_some]
  intro rest hrest
  rw [afterStem?_eq_some_iff.mp hrest, front_append stem rest hlength] at h
  exact h rfl

/-- The option that a text `key=value` gives. -/
def Item.ofPair? (pair : Bytes) : Option Item :=
  match cutAt? [equalsSign] pair with
  | some (b :: key, value) => some (.option (b :: key) value)
  | _ => none

theorem ofPair?_eq_some_iff {pair : Bytes} {item : Item} :
    Item.ofPair? pair = some item ↔ ∃ key value, item = .option key value ∧ IsPair pair key value := by
  unfold Item.ofPair?
  constructor
  · intro h
    split at h
    · next b key value hcut =>
      cases h
      rcases cutAt?_singleton_eq_some_iff.mp hcut with ⟨htext, hkey⟩
      exact ⟨b :: key, value, rfl, htext, hkey, by simp⟩
    · cases h
  · rintro ⟨key, value, rfl, h⟩
    rw [cutAt?_singleton_eq_some_iff.mpr ⟨h.text, h.cut⟩]
    cases key with
    | nil => exact absurd rfl h.named
    | cons b key => rfl

/-- The item that an argument is by itself. -/
def Item.of? (arg : Bytes) : Option Item :=
  if Log.isFlag arg then some .logging
  else if let some spec := afterStem? (ascii "--delimiters=") arg then some (.delimiters spec)
  else if arg = ascii "--gettext" then some .gettext
  else if let some pair := afterStem? (ascii "--option=") arg then Item.ofPair? pair
  else if arg.head? = some hyphen then none
  else some (.template arg)

/-- Trying the forms one after the other finds the item that the argument is. -/
theorem of?_eq_some_iff {arg : Bytes} {item : Item} : Item.of? arg = some item ↔ Stands arg item := by
  constructor
  · intro h
    unfold Item.of? at h
    split at h
    · next hflag =>
      cases h
      exact .logging hflag
    split at h
    · next hspec =>
      cases h
      rw [afterStem?_eq_some_iff.mp hspec]
      exact .delimiters
    split at h
    · next hgettext =>
      cases h
      rw [hgettext]
      exact .gettext
    split at h
    · next hpair =>
      rcases ofPair?_eq_some_iff.mp h with ⟨key, value, rfl, hform⟩
      rw [afterStem?_eq_some_iff.mp hpair]
      exact .option hform
    split at h
    · cases h
    · next hplain =>
      cases h
      exact .template hplain
  · intro h
    unfold Item.of?
    cases h with
    | logging flag => rw [if_pos flag]
    | @delimiters spec =>
      have hfront := front_append (ascii "--delimiters=") spec (by decide)
      have hflag := isFlag_eq_false (by rw [hfront]; decide)
      rw [hflag, if_neg Bool.false_ne_true, afterStem?_append]
    | gettext => decide
    | @option pair key value hform =>
      have hfront := front_append (ascii "--option=") pair (by decide)
      have hflag := isFlag_eq_false (by rw [hfront]; decide)
      have hdelimiters : afterStem? (ascii "--delimiters=") (ascii "--option=" ++ pair) = none :=
        afterStem?_eq_none (by decide) (by rw [hfront]; decide)
      have hgettext : ascii "--option=" ++ pair ≠ ascii "--gettext" := by
        intro heq
        rw [heq] at hfront
        revert hfront
        decide
      rw [hflag, if_neg Bool.false_ne_true, hdelimiters]
      simp only [if_neg hgettext, afterStem?_append]
      exact ofPair?_eq_some_iff.mpr ⟨key, value, rfl, hform⟩
    | template plain =>
      -- all other forms start with a hyphen
      have hfront : ∀ text : Bytes, text.head? = some hyphen → front arg ≠ front text := by
        intro text htext heq
        rw [← head?_front, heq, head?_front] at plain
        exact plain htext
      have hflag : Log.isFlag arg = false := by
        have hfronts : ∀ start ∈ flagFronts, start.head? = some hyphen := by decide
        apply isFlag_eq_false
        intro hmem
        have hhead := hfronts _ hmem
        rw [head?_front] at hhead
        exact plain hhead
      have hdelimiters : afterStem? (ascii "--delimiters=") arg = none :=
        afterStem?_eq_none (by decide) (hfront _ (by decide))
      have hoption : afterStem? (ascii "--option=") arg = none :=
        afterStem?_eq_none (by decide) (hfront _ (by decide))
      have hgettext : arg ≠ ascii "--gettext" := fun heq => hfront _ (by decide) (congrArg front heq)
      rw [hflag, if_neg Bool.false_ne_true, hdelimiters]
      simp only [if_neg hgettext, hoption, if_neg plain]

theorem Stands.unique {arg : Bytes} {item item' : Item} (h : Stands arg item)
    (h' : Stands arg item') : item = item' :=
  Option.some.inj ((of?_eq_some_iff.mpr h).symm.trans (of?_eq_some_iff.mpr h'))

/-- The flag in front of an option is nothing by itself. -/
theorem not_stands_optionFlag (item : Item) : ¬ Stands Arguments.optionFlag item := by
  intro h
  have hnone : Item.of? Arguments.optionFlag = none := by decide
  rw [of?_eq_some_iff.mpr h] at hnone
  cases hnone

theorem IsPair.unique {text key value key' value' : Bytes} (h : IsPair text key value)
    (h' : IsPair text key' value') : key = key' ∧ value = value' :=
  (append_cons_inj h.cut h'.cut).mp (h.text.symm.trans h'.text)

/-- The form at the front of the arguments is the only one that fits there. -/
theorem Takes.unique {args rest rest' : List Bytes} {item item' : Item} (h : Takes args item rest)
    (h' : Takes args item' rest') : item = item' ∧ rest = rest' := by
  cases h with
  | alone h =>
    cases h' with
    | alone h' => exact ⟨h.unique h', rfl⟩
    | option h' => exact absurd h (not_stands_optionFlag _)
  | option h =>
    cases h' with
    | alone h' => exact absurd h' (not_stands_optionFlag _)
    | option h' =>
      rcases h.unique h' with ⟨rfl, rfl⟩
      exact ⟨rfl, rfl⟩

/-- The arguments are read in one way only. -/
theorem Reads.unique {args : List Bytes} {items items' : List Item} (h : Reads args items)
    (h' : Reads args items') : items = items' := by
  induction h generalizing items' with
  | nil =>
    cases h' with
    | nil => rfl
    | cons htakes' => cases htakes'
  | cons htakes _ ih =>
    cases h' with
    | nil => cases htakes
    | cons htakes' hreads' =>
      rcases htakes.unique htakes' with ⟨rfl, rfl⟩
      rw [ih hreads']

/-- What follows the arguments does not matter to the item in front. -/
theorem Takes.append {args rest : List Bytes} {item : Item} (h : Takes args item rest)
    (more : List Bytes) : Takes (args ++ more) item (rest ++ more) := by
  cases h with
  | alone h => exact .alone h
  | option h => exact .option h

/-- An item that is taken from in front of some arguments leaves them alone. -/
theorem Takes.exists_of_append {args init last : List Bytes} {item : Item}
    (h : Takes args item (init ++ last)) : ∃ init', args = init' ++ last ∧ Takes init' item init := by
  cases h with
  | @alone arg _ _ h => exact ⟨arg :: init, rfl, .alone h⟩
  | @option pair _ _ _ h => exact ⟨ascii "--option" :: pair :: init, rfl, .option h⟩

theorem Takes.length_lt {args rest : List Bytes} {item : Item} (h : Takes args item rest) :
    rest.length < args.length := by
  cases h with
  | alone h => simp
  | option h =>
    simp only [List.length_cons]
    omega

/-! ## Reading item by item -/

namespace Arguments

/-- Writes down what an item says, in place of what was said before. -/
def put (a : Arguments) : Item → Arguments
  | .logging => a
  | .delimiters spec => { a with delimiters := some spec }
  | .gettext => { a with options := a.options.set Settings.gettextKey (.bool true) }
  | .option key value => { a with options := a.options.set key (.parse value) }
  | .template path => { a with path }

/-- Takes up an item. There may be one template only. -/
def take (a : Arguments) (item : Item) : Except ArgumentError Arguments :=
  if item.path?.isSome = true ∧ a.path ≠ [] then .error .extraTemplate else .ok (a.put item)

theorem take_of_path?_eq_none (a : Arguments) (item : Item) (h : item.path? = none) :
    a.take item = .ok (a.put item) := by
  simp [take, h]

/-- An option is taken up, if it is one. -/
theorem addOption_eq (a : Arguments) (pair : Bytes) :
    a.addOption pair = match Item.ofPair? pair with
      | some item => a.take item
      | none => .error .malformedOption := by
  unfold addOption Item.ofPair?
  cases cutAt? [equalsSign] pair with
  | none => rfl
  | some parts =>
    rcases parts with ⟨key, value⟩
    cases key with
    | nil => rfl
    | cons b key => exact (take_of_path?_eq_none a (.option (b :: key) value) rfl).symm

/-- Why an argument that is no item is refused. -/
def refusal (arg : Bytes) : ArgumentError :=
  if (afterStem? (ascii "--option=") arg).isSome then .malformedOption else .unknownFlag arg

/-- An item that is no logging flag is taken up; all else is refused, whatever was said before. -/
theorem add_eq {arg : Bytes} (hflag : Log.isFlag arg = false) (a : Arguments) :
    a.add arg = match Item.of? arg with
      | some item => a.take item
      | none => .error (refusal arg) := by
  unfold add Item.of?
  rw [hflag, if_neg Bool.false_ne_true]
  cases hspec : afterStem? (ascii "--delimiters=") arg with
  | some spec => exact (take_of_path?_eq_none a (.delimiters spec) rfl).symm
  | none =>
    by_cases hgettext : arg = ascii "--gettext"
    · simp only [if_pos hgettext]
      exact (take_of_path?_eq_none a .gettext rfl).symm
    · simp only [if_neg hgettext]
      cases hpair : afterStem? (ascii "--option=") arg with
      | some pair =>
        have hrefusal : refusal arg = .malformedOption := by simp [refusal, hpair]
        rw [hrefusal]
        exact addOption_eq a pair
      | none =>
        have hrefusal : refusal arg = .unknownFlag arg := by simp [refusal, hpair]
        rw [hrefusal, addTemplate]
        by_cases hhyphen : arg.head? = some hyphen
        · simp only [if_pos hhyphen]
        · simp only [if_neg hhyphen, take, Item.path?, put]
          by_cases hpath : a.path = []
          · simp [hpath]
          · simp [hpath]

/-- Reading goes on from argument to argument, but for the flag that takes two. -/
theorem readFrom_cons (a : Arguments) {arg : Bytes} (rest : List Bytes) (h : arg ≠ optionFlag) :
    a.readFrom (arg :: rest) =
      if Log.isFlag arg then a.readFrom rest else (a.add arg).bind (·.readFrom rest) := by
  cases rest with
  | nil =>
    rw [readFrom.eq_2, if_neg h]
    rfl
  | cons next rest =>
    rw [readFrom.eq_3, if_neg h]
    rfl

theorem isFlag_optionFlag : Log.isFlag optionFlag = false := by decide

theorem readFrom_optionFlag (a : Arguments) (pair : Bytes) (rest : List Bytes) :
    a.readFrom (optionFlag :: pair :: rest) = (a.addOption pair).bind (·.readFrom rest) := by
  rw [readFrom.eq_3, isFlag_optionFlag, if_neg Bool.false_ne_true, if_pos rfl]
  rfl

theorem readFrom_loneFlag (a : Arguments) : a.readFrom [optionFlag] = .error .malformedOption := by
  rw [readFrom.eq_2, isFlag_optionFlag, if_neg Bool.false_ne_true, if_pos rfl]

/-- The item in front is taken up first. -/
theorem readFrom_takes {args rest : List Bytes} {item : Item} (h : Takes args item rest)
    (a : Arguments) : a.readFrom args = (a.take item).bind (·.readFrom rest) := by
  cases h with
  | @alone arg _ _ h =>
    have hne : arg ≠ optionFlag := by
      rintro rfl
      exact not_stands_optionFlag _ h
    rw [readFrom_cons a rest hne]
    cases hflag : Log.isFlag arg with
    | true =>
      rw [h.unique (.logging hflag), if_pos rfl]
      rfl
    | false => rw [if_neg Bool.false_ne_true, add_eq hflag, of?_eq_some_iff.mpr h]
  | @option pair key value _ h =>
    have hpair := ofPair?_eq_some_iff.mpr ⟨key, value, rfl, h⟩
    change a.readFrom (optionFlag :: pair :: rest) = _
    rw [readFrom_optionFlag, addOption_eq, hpair]

/-- Arguments that are items are taken up item by item, before what follows them is read. -/
theorem readFrom_append {args : List Bytes} {items : List Item} (h : Reads args items)
    (a : Arguments) (more : List Bytes) :
    a.readFrom (args ++ more) = (items.foldlM take a).bind (·.readFrom more) := by
  induction h generalizing a with
  | nil => rfl
  | cons htakes hreads ih =>
    rw [readFrom_takes (htakes.append more), List.foldlM_cons]
    cases a.take _ with
    | error e => rfl
    | ok b => exact ih b

/-! ## What the items leave -/

/-- Of a path and the templates that follow, only the last one is not empty. -/
def Fits (path : Bytes) (items : List Item) : Prop :=
  ∀ p ∈ (path :: items.filterMap Item.path?).dropLast, p = []

theorem path_put (a : Arguments) (item : Item) :
    some (a.put item).path = item.path?.or (some a.path) := by
  cases item <;> rfl

theorem fits_cons {a : Arguments} {item : Item} {items : List Item} :
    Fits a.path (item :: items) ↔
      ¬ (item.path?.isSome = true ∧ a.path ≠ []) ∧ Fits (a.put item).path items := by
  have hpath := path_put a item
  unfold Fits
  cases hitem : item.path? with
  | none =>
    rw [hitem, Option.none_or] at hpath
    rw [List.filterMap_cons_none hitem, Option.some.inj hpath]
    simp
  | some path =>
    rw [hitem, Option.some_or] at hpath
    rw [List.filterMap_cons_some hitem, Option.some.inj hpath, List.dropLast_cons_cons]
    simp

/-- The items are taken up unless there is a second template. -/
theorem foldlM_take_of_fits {a : Arguments} {items : List Item} (h : Fits a.path items) :
    items.foldlM take a = .ok (items.foldl put a) := by
  induction items generalizing a with
  | nil => rfl
  | cons item items ih =>
    rcases fits_cons.mp h with ⟨htake, hrest⟩
    rw [List.foldlM_cons, take, if_neg htake]
    exact ih hrest

theorem foldlM_take_of_not_fits {a : Arguments} {items : List Item} (h : ¬ Fits a.path items) :
    items.foldlM take a = .error .extraTemplate := by
  induction items generalizing a with
  | nil => exact absurd (by simp [Fits]) h
  | cons item items ih =>
    rw [List.foldlM_cons, take]
    split
    · rfl
    · next htake => exact ih fun hrest => h (fits_cons.mpr ⟨htake, hrest⟩)

variable (a : Arguments) (items : List Item)

theorem path_foldl_put :
    (items.foldl put a).path = (items.filterMap Item.path?).getLast?.getD a.path := by
  have hlast := foldl_eq_getLast?_or put (some ·.path) Item.path? path_put a items
  rw [Option.or_some] at hlast
  exact Option.some.inj hlast

theorem delimiters_foldl_put :
    (items.foldl put a).delimiters =
      (items.filterMap Item.delimiters?).getLast?.or a.delimiters := by
  apply foldl_eq_getLast?_or put (·.delimiters)
  intro a item
  cases item <;> rfl

theorem get?_foldl_put (key : Bytes) :
    (items.foldl put a).options.get? key =
      (items.filterMap (Item.value? key)).getLast?.or (a.options.get? key) := by
  apply foldl_eq_getLast?_or put (·.options.get? key)
  intro a item
  cases item with
  | gettext =>
    rw [put, OptionTable.get?_set, Item.value?]
    split <;> rfl
  | option other value =>
    rw [put, OptionTable.get?_set, Item.value?]
    split <;> rfl
  | _ => rfl

variable {items}

/-- The only template with a name is the last one. -/
theorem fits_nil_iff {path : Bytes} (hpath : path ≠ []) :
    (Fits [] items ∧ path = (items.filterMap Item.path?).getLast?.getD []) ↔
      ∃ n, items.filterMap Item.path? = List.replicate n [] ++ [path] := by
  unfold Fits
  generalize items.filterMap Item.path? = paths
  constructor
  · rintro ⟨hfits, hlast⟩
    rcases List.eq_nil_or_concat paths with rfl | ⟨init, last, rfl⟩
    · exact absurd hlast hpath
    · rw [List.concat_eq_append] at hfits hlast ⊢
      rw [List.getLast?_concat, Option.getD_some] at hlast
      subst hlast
      refine ⟨init.length, ?_⟩
      rw [List.append_left_inj, List.eq_replicate_iff]
      refine ⟨rfl, ?_⟩
      intro p hp
      apply hfits p
      rw [← List.cons_append, List.dropLast_concat]
      exact List.mem_cons_of_mem _ hp
  · rintro ⟨n, rfl⟩
    constructor
    · intro p hp
      rw [← List.cons_append, List.dropLast_concat] at hp
      rcases List.mem_cons.mp hp with rfl | hp
      · rfl
      · exact List.eq_of_mem_replicate hp
    · simp

/-- The arguments that items leave are those that the items ask for. -/
theorem means_iff {b : Arguments} :
    Means items b ↔ Fits [] items ∧ b = items.foldl put {} ∧ b.path ≠ [] := by
  constructor
  · intro h
    rcases (fits_nil_iff h.named).mpr h.template with ⟨hfits, hlast⟩
    have hpath : (items.foldl put {}).path = b.path := (path_foldl_put {} items).trans hlast.symm
    have hdelimiters : (items.foldl put {}).delimiters = b.delimiters := by
      rw [delimiters_foldl_put, h.delimiters]
      exact Option.or_none
    have hoptions : (items.foldl put {}).options = b.options := by
      apply OptionTable.ext_get?
      intro key
      rw [get?_foldl_put, h.options key]
      exact Option.or_none
    refine ⟨hfits, ?_, h.named⟩
    calc b = ⟨b.path, b.delimiters, b.options⟩ := rfl
      _ = items.foldl put {} := by rw [← hpath, ← hdelimiters, ← hoptions]
  · rintro ⟨hfits, rfl, hnamed⟩
    constructor
    · exact (fits_nil_iff hnamed).mp ⟨hfits, path_foldl_put {} items⟩
    · exact hnamed
    · rw [delimiters_foldl_put]
      exact Option.or_none
    · intro key
      rw [get?_foldl_put]
      exact Option.or_none

/-! ## Where the items end -/

/-- Reading ends with a complaint here, whatever was read before and whatever follows. -/
def Refused (args : List Bytes) : Prop :=
  ∃ e, ∀ (a : Arguments) (more : List Bytes), a.readFrom (args ++ more) = .error e

/-- Arguments that do not start with an item are refused, unless there are too few of them. -/
theorem takes_or_refused (args : List Bytes) :
    (∃ item rest, Takes args item rest) ∨ args = [] ∨ args = [optionFlag] ∨ Refused args := by
  match args with
  | [] => exact .inr (.inl rfl)
  | arg :: rest =>
    cases hitem : Item.of? arg with
    | some item => exact .inl ⟨item, rest, .alone (of?_eq_some_iff.mp hitem)⟩
    | none =>
      have hflag : Log.isFlag arg = false := by
        rw [← Bool.not_eq_true]
        intro hflag
        rw [of?_eq_some_iff.mpr (.logging hflag)] at hitem
        cases hitem
      by_cases hoption : arg = optionFlag
      · subst hoption
        match rest with
        | [] => exact .inr (.inr (.inl rfl))
        | pair :: rest =>
          cases hpair : Item.ofPair? pair with
          | some item =>
            rcases ofPair?_eq_some_iff.mp hpair with ⟨key, value, rfl, hform⟩
            exact .inl ⟨_, rest, .option hform⟩
          | none =>
            refine .inr (.inr (.inr ⟨.malformedOption, ?_⟩))
            intro a more
            rw [List.cons_append, List.cons_append, readFrom_optionFlag, addOption_eq, hpair]
            rfl
      · refine .inr (.inr (.inr ⟨refusal arg, ?_⟩))
        intro a more
        rw [List.cons_append, readFrom_cons a _ hoption, hflag, if_neg Bool.false_ne_true, add_eq hflag,
          hitem]
        rfl

/-- All arguments are items, up to the end, to a flag that waits for its option, or to something that is
refused. -/
theorem exists_reads_append (args : List Bytes) :
    ∃ init items last, args = init ++ last ∧ Reads init items ∧
      (last = [] ∨ last = [optionFlag] ∨ Refused last) := by
  -- by induction on the number of arguments, since an item may take two
  rcases takes_or_refused args with ⟨item, rest, htakes⟩ | hlast
  · have := htakes.length_lt
    rcases exists_reads_append rest with ⟨init, items, last, rfl, hreads, hlast⟩
    rcases htakes.exists_of_append with ⟨init', hargs, htakes'⟩
    exact ⟨init', item :: items, last, hargs, .cons htakes' hreads, hlast⟩
  · exact ⟨[], [], args, rfl, .nil, hlast⟩
termination_by args.length

/-- After items that fit, reading goes on with what they left. -/
theorem readFrom_append_of_fits {a : Arguments} {args : List Bytes} (h : Reads args items)
    (hfits : Fits a.path items) (more : List Bytes) :
    a.readFrom (args ++ more) = (items.foldl put a).readFrom more := by
  rw [readFrom_append h, foldlM_take_of_fits hfits]
  rfl

theorem readFrom_append_of_not_fits {a : Arguments} {args : List Bytes} (h : Reads args items)
    (hfits : ¬ Fits a.path items) (more : List Bytes) :
    a.readFrom (args ++ more) = .error .extraTemplate := by
  rw [readFrom_append h, foldlM_take_of_not_fits hfits]
  rfl

theorem readFrom_nil (a : Arguments) (h : a.path ≠ []) : a.readFrom [] = .ok a := by
  rw [readFrom.eq_1, if_neg]
  rwa [List.isEmpty_iff]

/-- Reading comes to an end exactly if all arguments are items that fit, and a template was named. -/
theorem readFrom_eq_ok_iff {a b : Arguments} {args : List Bytes} :
    a.readFrom args = .ok b ↔
      ∃ items, Reads args items ∧ Fits a.path items ∧ b = items.foldl put a ∧ b.path ≠ [] := by
  constructor
  · intro h
    rcases exists_reads_append args with ⟨init, items, last, rfl, hreads, hlast⟩
    by_cases hfits : Fits a.path items
    · rw [readFrom_append_of_fits hreads hfits] at h
      rcases hlast with rfl | rfl | ⟨e, he⟩
      · rw [readFrom.eq_1] at h
        split at h
        · cases h
        · next hnamed =>
          cases h
          rw [List.isEmpty_iff] at hnamed
          exact ⟨items, by rwa [List.append_nil], hfits, rfl, hnamed⟩
      · rw [readFrom_loneFlag] at h
        cases h
      · rw [← List.append_nil last, he] at h
        cases h
    · rw [readFrom_append_of_not_fits hreads hfits] at h
      cases h
  · rintro ⟨items, hreads, hfits, rfl, hnamed⟩
    rw [← List.append_nil args, readFrom_append_of_fits hreads hfits, readFrom_nil _ hnamed]

/-- **The grammar of arguments.** What the arguments of a scanning command start with fits one form of
item at most. They are accepted exactly if they are items from left to right, of which one is a template
with a name, after templates without one only; and what is accepted is that template, with the last
delimiters and with the last value of each option. -/
theorem parse_grammar :
    (∀ args item item' rest rest', Takes args item rest → Takes args item' rest' →
      item = item' ∧ rest = rest') ∧
    ∀ args b, parse args = .ok b ↔ ∃ items, Reads args items ∧ Means items b := by
  constructor
  · intro args item item' rest rest' h h'
    exact h.unique h'
  · intro args b
    rw [parse, readFrom_eq_ok_iff]
    apply exists_congr
    intro items
    rw [means_iff]

/-- Of the two templates only the second has a name, and the later of two values of an option stays. -/
theorem parse_grammar_later :
    let args := [ascii "--option", ascii "n=1", [], ascii "-v", ascii "page.hbs", ascii "--option=n=2"]
    (∃ item rest, Takes args item rest ∧
      ∀ item' rest', Takes args item' rest' → item' = item ∧ rest' = rest) ∧
    ∃ b, parse args = .ok b ∧ b.path = ascii "page.hbs" ∧
      b.options.get? (ascii "n") = some (.parse (ascii "2")) := by
  intro args
  let items : List Item := [.option (ascii "n") (ascii "1"), .template [], .logging,
    .template (ascii "page.hbs"), .option (ascii "n") (ascii "2")]
  have hone : IsPair (ascii "n=1") (ascii "n") (ascii "1") := ⟨by decide, by decide, by decide⟩
  have htwo : IsPair (ascii "n=2") (ascii "n") (ascii "2") := ⟨by decide, by decide, by decide⟩
  have htakes : Takes args (.option (ascii "n") (ascii "1")) (args.drop 2) := .option hone
  have hreads : Reads args items :=
    .cons htakes (.cons (.alone (.template (by decide))) (.cons (.alone (.logging (by decide)))
      (.cons (.alone (.template (by decide))) (.cons (.alone (.option htwo)) .nil))))
  have hmeans : Means items (items.foldl put {}) :=
    means_iff.mpr ⟨by unfold Fits; decide, rfl, by decide⟩
  constructor
  · refine ⟨_, _, htakes, ?_⟩
    intro item' rest' h
    exact parse_grammar.1 _ _ _ _ _ h htakes
  · refine ⟨_, (parse_grammar.2 _ _).mpr ⟨items, hreads, hmeans⟩, rfl, ?_⟩
    exact (hmeans.options _).trans rfl

end Arguments

end TemplateLexer.Command
