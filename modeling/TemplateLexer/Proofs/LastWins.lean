/-!
# Later settings win

Settings are taken up one by one, and what is seen afterwards of one of them is what the last that gave it a
value said, or what was there before (`foldl_eq_getLast?_or`). Which one is the last to say something is also
told without a search, by the settings around it (`SaidLast`, `Unsaid`).
-/

namespace TemplateLexer

variable {State Setting Value : Type}

/-- The last setting of a list that says anything says this. -/
def SaidLast (Says : Setting → Value → Prop) (settings : List Setting) (value : Value) : Prop :=
  ∃ before setting after, settings = before ++ setting :: after ∧ Says setting value ∧
    ∀ later ∈ after, ∀ other, ¬ Says later other

/-- No setting of a list says anything. -/
def Unsaid (Says : Setting → Value → Prop) (settings : List Setting) : Prop :=
  ∀ setting ∈ settings, ∀ value, ¬ Says setting value

/-- If each step shows its own value, or else what was seen before it, then after all steps the last value
is seen, or else what was seen before them. -/
theorem foldl_eq_getLast?_or (step : State → Setting → State) (seen : State → Option Value)
    (value? : Setting → Option Value)
    (h : ∀ s setting, seen (step s setting) = (value? setting).or (seen s)) (s : State)
    (settings : List Setting) :
    seen (settings.foldl step s) = (settings.filterMap value?).getLast?.or (seen s) := by
  induction settings generalizing s with
  | nil => rfl
  | cons setting rest ih =>
    rw [List.foldl_cons, ih, h]
    cases hvalue : value? setting with
    | none => simp [hvalue]
    | some value =>
      -- a later value wins over this one
      cases hrest : (rest.filterMap value?).getLast? <;>
        simp [hvalue, List.getLast?_cons, hrest]

theorem SaidLast.not_unsaid {Says : Setting → Value → Prop} {settings : List Setting} {value : Value}
    (h : SaidLast Says settings value) : ¬ Unsaid Says settings := by
  rcases h with ⟨before, setting, after, rfl, hsays, -⟩
  intro hunsaid
  exact hunsaid setting (List.mem_append_right _ List.mem_cons_self) value hsays

/-- The last one found is found at one of the elements and at none after it. -/
theorem getLast?_filterMap_eq_some_iff {f : Setting → Option Value} {settings : List Setting}
    {value : Value} :
    (settings.filterMap f).getLast? = some value ↔
      ∃ before setting after, settings = before ++ setting :: after ∧ f setting = some value ∧
        ∀ later ∈ after, f later = none := by
  constructor
  · intro h
    induction settings with
    | nil => cases h
    | cons setting rest ih =>
      cases hrest : (rest.filterMap f).getLast? with
      | some last =>
        have hlast : last = value := by
          cases hf : f setting <;> simpa [hf, List.getLast?_cons, hrest] using h
        subst hlast
        rcases ih hrest with ⟨before, later, after, rfl, hlater, hafter⟩
        exact ⟨setting :: before, later, after, rfl, hlater, hafter⟩
      | none =>
        -- nothing is found in the rest, so it is found here
        rw [List.getLast?_eq_none_iff, List.filterMap_eq_nil_iff] at hrest
        have hf : f setting = some value := by
          rw [List.filterMap_cons, List.filterMap_eq_nil_iff.mpr hrest] at h
          cases hf : f setting with
          | none => simp [hf] at h
          | some found => simpa [hf] using h
        exact ⟨[], setting, rest, rfl, hf, hrest⟩
  · rintro ⟨before, setting, after, rfl, hf, hafter⟩
    rw [List.filterMap_append, List.filterMap_cons_some hf, List.filterMap_eq_nil_iff.mpr hafter,
      List.getLast?_concat]

section said

variable {Says : Setting → Value → Prop} {found : Setting → Option Value} {settings : List Setting}

/-- What is found last is what was said last. -/
theorem saidLast_iff {value : Value}
    (hfound : ∀ setting value, found setting = some value ↔ Says setting value) :
    (settings.filterMap found).getLast? = some value ↔ SaidLast Says settings value := by
  rw [getLast?_filterMap_eq_some_iff]
  simp only [SaidLast, hfound, Option.eq_none_iff_forall_ne_some, ne_eq]

/-- Nothing is found where nothing was said. -/
theorem unsaid_iff (hfound : ∀ setting value, found setting = some value ↔ Says setting value) :
    (settings.filterMap found).getLast? = none ↔ Unsaid Says settings := by
  rw [List.getLast?_eq_none_iff, List.filterMap_eq_nil_iff]
  simp only [Unsaid, hfound, Option.eq_none_iff_forall_ne_some, ne_eq]

theorem exists_saidLast_or_unsaid
    (hfound : ∀ setting value, found setting = some value ↔ Says setting value) :
    (∃ value, SaidLast Says settings value) ∨ Unsaid Says settings := by
  cases hlast : (settings.filterMap found).getLast? with
  | some value => exact .inl ⟨value, (saidLast_iff hfound).mp hlast⟩
  | none => exact .inr ((unsaid_iff hfound).mp hlast)

end said

end TemplateLexer
