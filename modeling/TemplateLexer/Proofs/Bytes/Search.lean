import TemplateLexer.Bytes.Basic

/-!
# First occurrences

`Bytes.find?` and `Bytes.cutAt?` answer with the first occurrence of a text. Here this is said in
the two ways that reading a template needs it: one byte at a time, as a loop looks for a mark, and
all at once, as a condition on what stands before the mark.

* `cutAt?_of_startsWith`, `cutAt?_cons`, `cutAt?_nil`: a cut moves along the text until the mark is there;
* `cutAt?_eq_some_iff`: a cut is found exactly where the mark ends its first occurrence;
* `cutAt?_append`: what follows a found mark does not matter;
* `length_le_of_cutAt?`, `le_of_cutAt?`: a mark that is there is found, or an earlier one;
* `length_append_le_of_cutAt?`: the same after a front of the text;
* `afterStem?_eq_some_iff`: a stem is taken off exactly where the text starts with it;
* `cutAt?_singleton_eq_some_iff`: a single byte cuts a text where it first stands, and so tells what is
  in front of it (`append_cons_inj`).
-/

namespace TemplateLexer.Bytes

theorem find?_of_startsWith {seq text : Bytes} (h : seq <+: text) : find? seq text = some 0 := by
  cases text with
  | nil =>
    have hs : seq = [] := List.prefix_nil.mp h
    simp [find?, hs]
  | cons b rest =>
    have hp : seq.isPrefixOf (b :: rest) = true := List.isPrefixOf_iff_prefix.mpr h
    simp [find?, hp]

theorem find?_cons {seq rest : Bytes} {b : UInt8} (h : ¬ seq <+: b :: rest) :
    find? seq (b :: rest) = (find? seq rest).map (· + 1) := by
  have hp : ¬ seq.isPrefixOf (b :: rest) = true := fun hp => h (List.isPrefixOf_iff_prefix.mp hp)
  simp [find?, hp]

/-- A mark that a text starts with cuts it at once. -/
theorem cutAt?_of_startsWith {seq text : Bytes} (h : seq <+: text) :
    cutAt? seq text = some ([], text.drop seq.length) := by
  simp [cutAt?, find?_of_startsWith h]

/-- A mark that a text does not start with is looked for from the next byte on. -/
theorem cutAt?_cons {seq rest : Bytes} {b : UInt8} (h : ¬ seq <+: b :: rest) :
    cutAt? seq (b :: rest) = (cutAt? seq rest).map fun parts => (b :: parts.1, parts.2) := by
  simp only [cutAt?, find?_cons h, Option.map_map]
  congr 1
  funext k
  simp [Nat.add_right_comm]

theorem cutAt?_nil {seq : Bytes} (h : seq ≠ []) : cutAt? seq [] = none := by
  simp [cutAt?, find?, h]

/-- What follows a found mark does not matter. -/
theorem cutAt?_append {seq text before after : Bytes} (h : cutAt? seq text = some (before, after))
    (more : Bytes) : cutAt? seq (text ++ more) = some (before, after ++ more) := by
  induction text generalizing before after with
  | nil =>
    by_cases hs : seq = []
    · subst hs
      rw [cutAt?_of_startsWith List.nil_prefix] at h
      cases h
      rw [cutAt?_of_startsWith List.nil_prefix]
      simp
    · rw [cutAt?_nil hs] at h
      cases h
  | cons b rest ih =>
    by_cases hp : seq <+: b :: rest
    · rw [cutAt?_of_startsWith hp] at h
      cases h
      rw [cutAt?_of_startsWith (hp.trans (List.prefix_append _ _)),
        List.drop_append_of_le_length hp.length_le]
    · rw [cutAt?_cons hp] at h
      obtain ⟨⟨x, y⟩, hxy, he⟩ := Option.map_eq_some_iff.mp h
      cases he
      have hlong : seq.length ≤ (b :: rest).length := by
        have ht := congrArg List.length (eq_of_cutAt? hxy)
        simp only [List.length_append, List.length_cons] at ht ⊢
        omega
      -- a match at the front would lie in the part where the mark does not match
      have hp' : ¬ seq <+: b :: (rest ++ more) := by
        intro hq
        exact hp (List.prefix_of_prefix_length_le hq (List.prefix_append (b :: rest) more) hlong)
      rw [List.cons_append, cutAt?_cons hp', ih hxy]
      rfl

/-- A text is cut into two parts exactly if they stand around the mark, and the mark that ends the
first part does not occur earlier. -/
theorem cutAt?_eq_some_iff {seq text before after : Bytes} :
    cutAt? seq text = some (before, after) ↔
      text = before ++ seq ++ after ∧ find? seq (before ++ seq) = some before.length := by
  constructor
  · intro h
    refine ⟨eq_of_cutAt? h, ?_⟩
    induction text generalizing before after with
    | nil =>
      have ht := (eq_of_cutAt? h).symm
      obtain ⟨hbs, -⟩ := List.append_eq_nil_iff.mp ht
      obtain ⟨rfl, rfl⟩ := List.append_eq_nil_iff.mp hbs
      rfl
    | cons b rest ih =>
      by_cases hp : seq <+: b :: rest
      · rw [cutAt?_of_startsWith hp] at h
        cases h
        exact find?_of_startsWith (List.prefix_refl seq)
      · rw [cutAt?_cons hp] at h
        obtain ⟨⟨x, y⟩, hxy, he⟩ := Option.map_eq_some_iff.mp h
        cases he
        have hrest : rest = (x ++ seq) ++ y := eq_of_cutAt? hxy
        -- a mark at the front of the first part would be one at the front of the text
        have hp' : ¬ seq <+: b :: (x ++ seq) := by
          intro hq
          apply hp
          rw [hrest, ← List.cons_append]
          exact hq.trans (List.prefix_append _ _)
        rw [List.cons_append, find?_cons hp', ih hxy]
        rfl
  · rintro ⟨rfl, hf⟩
    have hc : cutAt? seq (before ++ seq) = some (before, []) := by
      simp [cutAt?, hf, List.drop_append]
    simpa using cutAt?_append hc after

/-- No mark is found after the first one. -/
theorem length_le_of_cutAt? {seq before after x y : Bytes}
    (h : cutAt? seq (before ++ seq ++ after) = some (x, y)) : x.length ≤ before.length := by
  induction before generalizing x y with
  | nil =>
    -- the text starts with the mark
    rw [List.nil_append, cutAt?_of_startsWith (List.prefix_append seq after)] at h
    cases h
    simp
  | cons b before ih =>
    simp only [List.cons_append] at h
    by_cases hp : seq <+: b :: (before ++ seq ++ after)
    · rw [cutAt?_of_startsWith hp] at h
      cases h
      simp
    · rw [cutAt?_cons hp] at h
      obtain ⟨⟨x', y'⟩, hxy, he⟩ := Option.map_eq_some_iff.mp h
      cases he
      have hle := ih hxy
      simp only [List.length_cons]
      omega

/-- A text is cut at the first of the places where it goes on with the mark. -/
theorem le_of_cutAt? {seq text before after : Bytes} {k : Nat}
    (h : cutAt? seq text = some (before, after)) (hk : seq <+: text.drop k) : before.length ≤ k := by
  obtain ⟨rest, hrest⟩ := hk
  by_cases hlen : k ≤ text.length
  · have htext : text = text.take k ++ seq ++ rest := by
      rw [List.append_assoc, hrest, List.take_append_drop]
    rw [htext] at h
    have hle := length_le_of_cutAt? h
    rwa [List.length_take, Nat.min_eq_left hlen] at hle
  · -- past its end a text goes on with nothing
    have hbefore := congrArg List.length (eq_of_cutAt? h)
    simp only [List.length_append] at hbefore
    omega

/-- Where a text is cut after a front, no mark stands between the front and the cut. -/
theorem length_append_le_of_cutAt? {seq front tail before after : Bytes} {k : Nat}
    (h : cutAt? seq tail = some (before, after)) (hk : front.length ≤ k)
    (hmark : seq <+: (front ++ tail).drop k) : (front ++ before).length ≤ k := by
  obtain ⟨j, rfl⟩ := Nat.exists_eq_add_of_le hk
  rw [List.drop_length_add_append] at hmark
  have hle := le_of_cutAt? h hmark
  rw [List.length_append]
  omega

/-! ## Stems -/

theorem afterStem?_eq_some_iff {stem text rest : Bytes} :
    afterStem? stem text = some rest ↔ text = stem ++ rest := by
  rw [afterStem?, Option.ite_none_right_eq_some, List.isPrefixOf_iff_prefix, Option.some.injEq]
  constructor
  · rintro ⟨⟨after, rfl⟩, hrest⟩
    rw [← hrest, List.drop_left]
  · rintro rfl
    exact ⟨List.prefix_append _ _, List.drop_left⟩

theorem afterStem?_append (stem rest : Bytes) : afterStem? stem (stem ++ rest) = some rest :=
  afterStem?_eq_some_iff.mpr rfl

/-! ## A single byte -/

section single

variable {b : UInt8}

/-- A single byte is looked for one byte at a time. -/
theorem cutAt?_singleton_cons (c : UInt8) (rest : Bytes) :
    cutAt? [b] (c :: rest) =
      if b = c then some ([], rest)
      else (cutAt? [b] rest).map fun parts => (c :: parts.1, parts.2) := by
  by_cases hc : b = c
  · have hp : [b] <+: c :: rest := List.cons_prefix_cons.mpr ⟨hc, List.nil_prefix⟩
    rw [cutAt?_of_startsWith hp, if_pos hc]
    rfl
  · have hp : ¬ [b] <+: c :: rest := by
      intro hp
      exact hc (List.cons_prefix_cons.mp hp).1
    rw [cutAt?_cons hp, if_neg hc]

/-- A single byte cuts a text exactly where it first stands. -/
theorem cutAt?_singleton_eq_some_iff {text before after : Bytes} :
    cutAt? [b] text = some (before, after) ↔ text = before ++ b :: after ∧ b ∉ before := by
  induction text generalizing before with
  | nil => simp [cutAt?, find?]
  | cons c rest ih =>
    rw [cutAt?_singleton_cons]
    by_cases hc : b = c
    · -- the text starts with the byte, so nothing stands in front of it
      subst hc
      rw [if_pos rfl]
      cases before with
      | nil => simp [eq_comm]
      | cons d before =>
        constructor
        · intro h
          cases h
        · rintro ⟨htext, hmem⟩
          have hd : b = d := (List.cons.inj htext).1
          exact absurd List.mem_cons_self (hd ▸ hmem)
    · rw [if_neg hc]
      cases before with
      | nil => simp [Ne.symm hc]
      | cons d before =>
        rw [Option.map_eq_some_iff]
        constructor
        · rintro ⟨⟨x, y⟩, hxy, he⟩
          cases he
          rcases ih.mp hxy with ⟨hrest, hmem⟩
          simp [hrest, hmem, hc]
        · rintro ⟨htext, hmem⟩
          rcases List.cons.inj htext with ⟨rfl, hrest⟩
          have hcut := ih.mpr ⟨hrest, fun h => hmem (List.mem_cons_of_mem _ h)⟩
          exact ⟨(before, after), hcut, rfl⟩

/-- Where a byte first stands, two texts are the same on both sides of it. -/
theorem append_cons_inj {before before' after after' : Bytes} (h : b ∉ before) (h' : b ∉ before') :
    before ++ b :: after = before' ++ b :: after' ↔ before = before' ∧ after = after' := by
  constructor
  · intro htext
    have hcut : cutAt? [b] (before ++ b :: after) = some (before, after) :=
      cutAt?_singleton_eq_some_iff.mpr ⟨rfl, h⟩
    have hcut' : cutAt? [b] (before ++ b :: after) = some (before', after') :=
      cutAt?_singleton_eq_some_iff.mpr ⟨htext, h'⟩
    exact Prod.mk.inj (Option.some.inj (hcut.symm.trans hcut'))
  · rintro ⟨rfl, rfl⟩
    rfl

theorem cutAt?_singleton_eq_none_iff {text : Bytes} : cutAt? [b] text = none ↔ b ∉ text := by
  induction text with
  | nil => simp [cutAt?, find?]
  | cons c rest ih =>
    rw [cutAt?_singleton_cons]
    by_cases hc : b = c
    · simp [hc]
    · rw [if_neg hc, Option.map_eq_none_iff, ih, List.mem_cons, not_or]
      exact ⟨fun h => ⟨hc, h⟩, And.right⟩

end single

end TemplateLexer.Bytes
