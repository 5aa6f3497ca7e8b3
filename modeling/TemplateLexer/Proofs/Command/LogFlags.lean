import TemplateLexer.Proofs.Command.Grammar

/-!
# Logging flags between arguments

Logging flags are none of the business of a scanning command, which passes over them. There is one kind of
place where it does not: right after a flag whose option is still to come (`AwaitsOption`), the next argument
is taken for that option, whatever it looks like.

* `parse_flag_of_not_awaitsOption`: anywhere else a logging flag changes nothing;
* `exists_error_of_awaitsOption`: there it spoils arguments that were good;
* `parse_flag_iff`: so logging flags may be put anywhere but there.
-/

namespace TemplateLexer.Command.Arguments

open Bytes

/-- Items up to a last flag, whose option is the next argument. -/
def AwaitsOption (args : List Bytes) : Prop :=
  ∃ init items, args = init ++ [optionFlag] ∧ Reads init items ∧ Fits [] items

variable {before : List Bytes} {flag pair : Bytes}

/-- A logging flag that is read as an item is passed over. -/
theorem readFrom_logFlag (hflag : Log.isFlag flag = true) (a : Arguments) (after : List Bytes) :
    a.readFrom (flag :: after) = a.readFrom after := by
  rw [readFrom_takes (.alone (.logging hflag)), take_of_path?_eq_none a _ rfl]
  rfl

/-- A logging flag makes no difference where no option is awaited. -/
theorem parse_flag_of_not_awaitsOption (hflag : Log.isFlag flag = true)
    (h : ¬ AwaitsOption before) (after : List Bytes) :
    parse (before ++ flag :: after) = parse (before ++ after) := by
  rcases exists_reads_append before with ⟨init, items, last, rfl, hreads, hlast⟩
  unfold parse
  rw [List.append_assoc, List.append_assoc]
  by_cases hfits : Fits [] items
  · rw [readFrom_append_of_fits hreads hfits, readFrom_append_of_fits hreads hfits]
    rcases hlast with rfl | rfl | ⟨e, he⟩
    · exact readFrom_logFlag hflag _ after
    · exact absurd ⟨init, items, rfl, hreads, hfits⟩ h
    · rw [he, he]
  · rw [readFrom_append_of_not_fits hreads hfits, readFrom_append_of_not_fits hreads hfits]

/-- What comes after an awaited option is read on top of what was read before. -/
theorem exists_parse_of_awaitsOption (h : AwaitsOption before) :
    ∃ a : Arguments, ∀ pair rest,
      parse (before ++ pair :: rest) = (a.addOption pair).bind (·.readFrom rest) := by
  rcases h with ⟨init, items, rfl, hreads, hfits⟩
  refine ⟨items.foldl put {}, ?_⟩
  intro pair rest
  rw [parse, List.append_assoc, readFrom_append_of_fits hreads hfits]
  exact readFrom_optionFlag _ pair rest

theorem addOption_eq_ok_iff {a b : Arguments} : a.addOption pair = .ok b ↔
    ∃ key value, IsPair pair key value ∧ b = a.put (.option key value) := by
  rw [addOption_eq]
  constructor
  · intro h
    split at h
    · next item hpair =>
      rcases ofPair?_eq_some_iff.mp hpair with ⟨key, value, rfl, hform⟩
      rw [take_of_path?_eq_none a _ rfl] at h
      cases h
      exact ⟨key, value, hform, rfl⟩
    · cases h
  · rintro ⟨key, value, hform, rfl⟩
    rw [ofPair?_eq_some_iff.mpr ⟨key, value, rfl, hform⟩]
    exact take_of_path?_eq_none a _ rfl

/-- An awaited option may always come. -/
theorem exists_ok_of_awaitsOption (h : AwaitsOption before) :
    ∃ pair rest a, pair.head? ≠ some hyphen ∧ parse (before ++ pair :: rest) = .ok a := by
  have hform : IsPair (ascii "k=") (ascii "k") [] := ⟨by decide, by decide, by decide⟩
  rcases exists_parse_of_awaitsOption h with ⟨a, ha⟩
  have hrest : ∃ rest b, (a.put (.option (ascii "k") [])).readFrom rest = .ok b := by
    by_cases hpath : a.path = []
    · have hplain : (ascii "t").head? ≠ some hyphen := by decide
      refine ⟨[ascii "t"], { a.put (.option (ascii "k") []) with path := ascii "t" }, ?_⟩
      rw [readFrom_takes (.alone (.template hplain)), take, if_neg fun hextra => hextra.2 hpath]
      have hnamed : ascii "t" ≠ [] := by decide
      exact readFrom_nil _ hnamed
    · exact ⟨[], _, readFrom_nil _ hpath⟩
  rcases hrest with ⟨rest, b, hb⟩
  refine ⟨ascii "k=", rest, b, by decide, ?_⟩
  rw [ha, addOption_eq_ok_iff.mpr ⟨_, _, hform, rfl⟩]
  exact hb

/-- Arguments that name the template are refused once another one is named. -/
theorem exists_error_of_named {a b c : Arguments} {args : List Bytes} (ha : a.path = [])
    (hb : b.path ≠ []) (h : a.readFrom args = .ok c) : ∃ e, b.readFrom args = .error e := by
  rcases readFrom_eq_ok_iff.mp h with ⟨items, hreads, -, rfl, hnamed⟩
  refine ⟨.extraTemplate, ?_⟩
  rw [← List.append_nil args]
  apply readFrom_append_of_not_fits hreads
  intro hfits
  rw [path_foldl_put, ha] at hnamed
  unfold Fits at hfits
  generalize items.filterMap Item.path? = paths at hnamed hfits
  cases paths with
  | nil => exact hnamed rfl
  | cons path paths =>
    rw [List.dropLast_cons_cons] at hfits
    exact hb (hfits _ List.mem_cons_self)

/-- Another argument in front of an awaited option takes its place, and the option that was meant is left
over as a second template. -/
theorem exists_error_of_awaitsOption (h : AwaitsOption before) (hplain : pair.head? ≠ some hyphen)
    {rest : List Bytes} {a : Arguments} (hok : parse (before ++ pair :: rest) = .ok a) (arg : Bytes) :
    ∃ e, parse (before ++ arg :: pair :: rest) = .error e := by
  rcases exists_parse_of_awaitsOption h with ⟨b, hb⟩
  rw [hb] at hok ⊢
  cases harg : b.addOption arg with
  | error e => exact ⟨e, rfl⟩
  | ok b₂ =>
    -- the argument is an option itself, and what follows it is read as a template
    rcases addOption_eq_ok_iff.mp harg with ⟨key', value', -, rfl⟩
    change ∃ e, (b.put (.option key' value')).readFrom (pair :: rest) = .error e
    rw [readFrom_takes (.alone (.template hplain)), take]
    by_cases hpath : b.path = []
    · rw [if_neg fun hextra => hextra.2 hpath]
      cases hpair : b.addOption pair with
      | error e =>
        rw [hpair] at hok
        cases hok
      | ok b₁ =>
        rcases addOption_eq_ok_iff.mp hpair with ⟨key, value, hform, rfl⟩
        rw [hpair] at hok
        have hnamed : pair ≠ [] := by
          rintro rfl
          exact absurd hform.text (by simp)
        exact exists_error_of_named (a := b.put (.option key value))
          (b := (b.put (.option key' value')).put (.template pair)) hpath hnamed hok
    · rw [if_pos ⟨rfl, hpath⟩]
      exact ⟨.extraTemplate, rfl⟩

/-- **Logging flags between arguments.** A logging flag may be put anywhere among the arguments without a
difference to what is read, complaints included, except where an option is awaited. There good arguments
always exist, and all those whose option does not start with a hyphen are refused with the flag in between. -/
theorem parse_flag_iff (hflag : Log.isFlag flag = true) (before : List Bytes) :
    ((∀ after, parse (before ++ flag :: after) = parse (before ++ after)) ↔ ¬ AwaitsOption before) ∧
    (AwaitsOption before →
      (∃ pair rest a, pair.head? ≠ some hyphen ∧ parse (before ++ pair :: rest) = .ok a) ∧
      ∀ pair rest a, pair.head? ≠ some hyphen → parse (before ++ pair :: rest) = .ok a →
        ∃ e, parse (before ++ flag :: pair :: rest) = .error e) := by
  constructor
  · constructor
    · intro hsame h
      rcases exists_ok_of_awaitsOption h with ⟨pair, rest, a, hplain, hok⟩
      rcases exists_error_of_awaitsOption h hplain hok flag with ⟨e, he⟩
      rw [hsame, hok] at he
      cases he
    · intro h
      exact parse_flag_of_not_awaitsOption hflag h
  · intro h
    refine ⟨exists_ok_of_awaitsOption h, ?_⟩
    intro pair rest a hplain hok
    exact exists_error_of_awaitsOption h hplain hok flag

/-- Between a flag and its option, `-v` makes good arguments bad. -/
theorem parse_flag_iff_verbose :
    let before := [ascii "page.hbs", optionFlag]
    Log.isFlag (ascii "-v") = true ∧ AwaitsOption before ∧
      (¬ ∀ after, parse (before ++ ascii "-v" :: after) = parse (before ++ after)) ∧
      (∃ a, parse (before ++ [ascii "strict=true"]) = .ok a) ∧
      ∃ e, parse (before ++ [ascii "-v", ascii "strict=true"]) = .error e := by
  intro before
  have hflag : Log.isFlag (ascii "-v") = true := by decide
  have hawaits : AwaitsOption before :=
    ⟨[ascii "page.hbs"], [.template (ascii "page.hbs")], rfl,
      .cons (.alone (.template (by decide))) .nil, by unfold Fits; decide⟩
  have hok : ∃ a, parse (before ++ [ascii "strict=true"]) = .ok a := ⟨_, rfl⟩
  rcases parse_flag_iff hflag before with ⟨hsame, hspoilt⟩
  refine ⟨hflag, hawaits, fun h => hsame.mp h hawaits, hok, ?_⟩
  rcases hok with ⟨a, ha⟩
  exact (hspoilt hawaits).2 _ _ a (by decide) ha

end TemplateLexer.Command.Arguments
