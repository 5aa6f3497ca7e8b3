import TemplateLexer.Settings.Value

/-!
# Option tables

A table gives each key one value and lists its keys in ascending byte order. The order is part of
the type, since warnings about options appear in it.

Setting a key is seen by `OptionTable.get?` at that key and nowhere else (`OptionTable.get?_set`), and a
table is told by what is seen so (`OptionTable.ext_get?`).
-/

namespace TemplateLexer

/-- Options by key, in ascending order of keys. -/
structure OptionTable where
  entries : List (Bytes × OptionValue)
  ascending : entries.Pairwise fun a b => a.1 < b.1

namespace OptionTable

/-- The table without options. -/
def empty : OptionTable := ⟨[], List.Pairwise.nil⟩

/-- The value of a key. -/
def get? (t : OptionTable) (key : Bytes) : Option OptionValue := t.entries.lookup key

/-- Puts a key with its value into its place, or replaces the value of a key already there. -/
def place (key : Bytes) (value : OptionValue) :
    List (Bytes × OptionValue) → List (Bytes × OptionValue)
  | [] => [(key, value)]
  | e :: rest =>
    if key < e.1 then (key, value) :: e :: rest
    else if key = e.1 then (key, value) :: rest
    else e :: place key value rest

theorem mem_of_mem_place {key : Bytes} {value : OptionValue} {a : Bytes × OptionValue}
    {entries : List (Bytes × OptionValue)} (h : a ∈ place key value entries) :
    a = (key, value) ∨ a ∈ entries := by
  induction entries with
  | nil => simpa [place] using h
  | cons e rest ih =>
    rw [place] at h
    split at h
    · simpa using h
    · split at h
      · rcases List.mem_cons.mp h with h | h
        · exact .inl h
        · exact .inr (List.mem_cons_of_mem _ h)
      · rcases List.mem_cons.mp h with h | h
        · exact .inr (h ▸ List.mem_cons_self)
        · exact (ih h).imp_right (List.mem_cons_of_mem _)

/-- Of two different keys one comes first. -/
theorem lt_of_not_lt_of_ne {a b : Bytes} (h : ¬ a < b) (hne : a ≠ b) : b < a := by
  rcases Std.Trichotomous.rel_or_eq_or_rel_swap (r := fun x y : Bytes => x < y) (a := a) (b := b)
    with h' | h' | h'
  · exact absurd h' h
  · exact absurd h' hne
  · exact h'

theorem ascending_place (key : Bytes) (value : OptionValue) {entries : List (Bytes × OptionValue)}
    (h : entries.Pairwise fun a b => a.1 < b.1) :
    (place key value entries).Pairwise fun a b => a.1 < b.1 := by
  induction entries with
  | nil => simp [place]
  | cons e rest ih =>
    obtain ⟨he, hr⟩ := List.pairwise_cons.mp h
    rw [place]
    split
    · next hlt =>
      refine List.pairwise_cons.mpr ⟨fun a ha => ?_, h⟩
      rcases List.mem_cons.mp ha with rfl | ha
      · exact hlt
      · exact List.lt_trans hlt (he a ha)
    · next hnlt =>
      split
      · next heq => exact List.pairwise_cons.mpr ⟨fun a ha => heq ▸ he a ha, hr⟩
      · next hne =>
        refine List.pairwise_cons.mpr ⟨fun a ha => ?_, ih hr⟩
        rcases mem_of_mem_place ha with rfl | ha
        · exact lt_of_not_lt_of_ne hnlt hne
        · exact he a ha

/-- Gives a key a value, in place of any value it had. -/
def set (t : OptionTable) (key : Bytes) (value : OptionValue) : OptionTable :=
  { entries := place key value t.entries, ascending := ascending_place key value t.ascending }

/-- The table of a list of settings, where a later setting of a key replaces an earlier one. -/
def ofList (settings : List (Bytes × OptionValue)) : OptionTable :=
  settings.foldl (fun t e => t.set e.1 e.2) empty

theorem lookup_cons_eq_ite (other key : Bytes) (value : OptionValue)
    (rest : List (Bytes × OptionValue)) :
    ((key, value) :: rest).lookup other =
      if other = key then some value else rest.lookup other := by
  by_cases h : other = key
  · simp [h]
  · have hb : (other == key) = false := by simpa using h
    simp [List.lookup_cons, hb, h]

theorem lookup_place (key other : Bytes) (value : OptionValue)
    (entries : List (Bytes × OptionValue)) :
    (place key value entries).lookup other =
      if other = key then some value else entries.lookup other := by
  induction entries with
  | nil => rw [place, lookup_cons_eq_ite]
  | cons e rest ih =>
    obtain ⟨k, v⟩ := e
    rw [place]
    split
    · rw [lookup_cons_eq_ite]
    · split
      · next heq =>
        have heq' : key = k := heq
        subst heq'
        rw [lookup_cons_eq_ite, lookup_cons_eq_ite]
        by_cases h : other = key
        · simp [h]
        · simp [h]
      · next hne =>
        have hne' : key ≠ k := hne
        rw [lookup_cons_eq_ite, lookup_cons_eq_ite, ih]
        by_cases h : other = k
        · simp [h, Ne.symm hne']
        · simp [h]

theorem get?_set (t : OptionTable) (key other : Bytes) (value : OptionValue) :
    (t.set key value).get? other = if other = key then some value else t.get? other :=
  lookup_place key other value t.entries

/-- A key in front of all keys of a list is not in the list. -/
theorem lookup_eq_none_of_lt {key : Bytes} {entries : List (Bytes × OptionValue)}
    (h : ∀ e ∈ entries, key < e.1) : entries.lookup key = none := by
  rw [List.lookup_eq_none_iff]
  intro e he
  rw [bne_iff_ne]
  rintro rfl
  exact List.lt_irrefl _ (h e he)

/-- The first key of a list comes no earlier than that of a list in ascending order, if both give it the
same value. -/
theorem not_lt_of_lookup_eq {key key' : Bytes} {value value' : OptionValue}
    {rest rest' : List (Bytes × OptionValue)}
    (hascending : ((key', value') :: rest').Pairwise fun a b => a.1 < b.1)
    (h : ((key, value) :: rest).lookup key = ((key', value') :: rest').lookup key) :
    ¬ key < key' := by
  intro hlt
  have hnone : ((key', value') :: rest').lookup key = none := by
    apply lookup_eq_none_of_lt
    intro e he
    rcases List.mem_cons.mp he with rfl | he
    · exact hlt
    · exact List.lt_trans hlt ((List.pairwise_cons.mp hascending).1 e he)
  rw [hnone, lookup_cons_eq_ite, if_pos rfl] at h
  cases h

/-- Lists in ascending order that give the same values to all keys are the same. -/
theorem eq_of_lookup_eq {entries entries' : List (Bytes × OptionValue)}
    (hascending : entries.Pairwise fun a b => a.1 < b.1)
    (hascending' : entries'.Pairwise fun a b => a.1 < b.1)
    (h : ∀ key, entries.lookup key = entries'.lookup key) : entries = entries' := by
  induction entries generalizing entries' with
  | nil =>
    cases entries' with
    | nil => rfl
    | cons e' rest' =>
      have hfirst := h e'.1
      rw [List.lookup_nil, lookup_cons_eq_ite, if_pos rfl] at hfirst
      cases hfirst
  | cons e rest ih =>
    cases entries' with
    | nil =>
      have hfirst := h e.1
      rw [List.lookup_nil, lookup_cons_eq_ite, if_pos rfl] at hfirst
      cases hfirst
    | cons e' rest' =>
      obtain ⟨key, value⟩ := e
      obtain ⟨key', value'⟩ := e'
      have hkey : key = key' := by
        by_cases hne : key = key'
        · exact hne
        · have hlt := lt_of_not_lt_of_ne (not_lt_of_lookup_eq hascending' (h key)) hne
          exact absurd hlt (not_lt_of_lookup_eq hascending (h key').symm)
      subst hkey
      have hvalue := h key
      rw [lookup_cons_eq_ite, lookup_cons_eq_ite, if_pos rfl, if_pos rfl] at hvalue
      have hrest : rest = rest' := by
        apply ih (List.pairwise_cons.mp hascending).2 (List.pairwise_cons.mp hascending').2
        intro other
        by_cases hother : other = key
        · -- the first key is in neither rest
          rw [hother, lookup_eq_none_of_lt (List.pairwise_cons.mp hascending).1,
            lookup_eq_none_of_lt (List.pairwise_cons.mp hascending').1]
        · have hlookup := h other
          rwa [lookup_cons_eq_ite, lookup_cons_eq_ite, if_neg hother, if_neg hother] at hlookup
      rw [Option.some.inj hvalue, hrest]

/-- A table is told by the values of its keys. -/
theorem ext_get? {t t' : OptionTable} (h : ∀ key, t.get? key = t'.get? key) : t = t' := by
  obtain ⟨entries, hascending⟩ := t
  obtain ⟨entries', hascending'⟩ := t'
  rw [mk.injEq]
  exact eq_of_lookup_eq hascending hascending' h

end OptionTable

end TemplateLexer
