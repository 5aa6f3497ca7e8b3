import TemplateLexer.Proofs.Rebuild.Plan

/-!
# One token, written and read back

A token that a scan can give has a certain form: names are trimmed, arguments are there exactly for
the kinds that take some, a text is one newline or has none. For such a token the segment that it is
written as gives the token back, at its new place (`exists_token?_item`).

`Token.WellFormed` is the form, and `Token.content` is a token without its place.
-/

namespace TemplateLexer

open Bytes Outline

/-- Can the tag be told from other tags by what is written for it? -/
def Kind.isEmittable (withGettext : Bool) : Kind → Bool
  | text | delimiterChange | reserved _ _ => false
  | gettext | ngettext => withGettext
  | _ => true

namespace Token

/-- The token without its place. -/
def content (t : Token) : Token := { t with index := 0, extent := ⟨0, 0⟩ }

/-- The form of a text. -/
structure TextForm (t : Token) : Prop where
  name : t.name = t.value
  args : t.args = none
  oneLine : t.value = [newline] ∨ (t.value ≠ [] ∧ newline ∉ t.value)

/-- The form of a tag. -/
structure TagForm (withGettext : Bool) (t : Token) : Prop where
  kind : t.kind.isEmittable withGettext = true
  value : t.value = []
  name : trim t.name = t.name
  /-- The kinds with arguments have a single word as name, and no arguments without one. -/
  withArgs : t.kind.acceptsArgs = true →
    ∃ args ∈ t.args, BlankFree t.name ∧ trim args = args ∧ (t.name = [] → args = [])
  withoutArgs : t.kind.acceptsArgs = false → t.args = none
  plural : t.kind = .ngettext → t.name ≠ []
  /-- A plain interpolation does not read as a plural form. -/
  plain : t.kind = .escaped → withGettext = true → Tag.afterNgettext? t.name = none

/-- The form of a token that did not come from a standalone line. -/
structure WellFormed (withGettext : Bool) (t : Token) : Prop where
  marks : t.HasMarks
  indent : t.indent = none
  text : t.isText = true → t.TextForm
  tag : t.isTag = true → t.TagForm withGettext

instance (t : Token) : Decidable t.TextForm :=
  decidable_of_iff
    (t.name = t.value ∧ t.args = none ∧
      (t.value = [newline] ∨ (t.value ≠ [] ∧ newline ∉ t.value)))
    ⟨fun ⟨h1, h2, h3⟩ => ⟨h1, h2, h3⟩, fun h => ⟨h.name, h.args, h.oneLine⟩⟩

instance (withGettext : Bool) (t : Token) : Decidable (t.TagForm withGettext) :=
  decidable_of_iff
    (t.kind.isEmittable withGettext = true ∧ t.value = [] ∧ trim t.name = t.name ∧
      (t.kind.acceptsArgs = true →
        ∃ args ∈ t.args, BlankFree t.name ∧ trim args = args ∧ (t.name = [] → args = [])) ∧
      (t.kind.acceptsArgs = false → t.args = none) ∧ (t.kind = .ngettext → t.name ≠ []) ∧
      (t.kind = .escaped → withGettext = true → Tag.afterNgettext? t.name = none))
    ⟨fun ⟨h1, h2, h3, h4, h5, h6, h7⟩ => ⟨h1, h2, h3, h4, h5, h6, h7⟩,
      fun h => ⟨h.kind, h.value, h.name, h.withArgs, h.withoutArgs, h.plural, h.plain⟩⟩

instance (withGettext : Bool) (t : Token) : Decidable (t.WellFormed withGettext) :=
  decidable_of_iff
    (t.HasMarks ∧ t.indent = none ∧ (t.isText = true → t.TextForm) ∧
      (t.isTag = true → t.TagForm withGettext))
    ⟨fun ⟨h1, h2, h3, h4⟩ => ⟨h1, h2, h3, h4⟩, fun h => ⟨h.marks, h.indent, h.text, h.tag⟩⟩

theorem WellFormed.oneLine {withGettext : Bool} {t : Token} (h : t.WellFormed withGettext) :
    t.OneLine :=
  fun ht => (h.text ht).oneLine

/-! ## Sigils -/

theorem exists_sigil_of_isEmittable {withGettext : Bool} {kind : Kind}
    (h : kind.isEmittable withGettext = true) (he : kind ≠ .escaped) (hn : kind ≠ .ngettext) :
    ∃ b, kind.sigil = [b] ∧ Kind.ofSigil withGettext b = some kind := by
  cases kind with
  | text => cases h
  | delimiterChange => cases h
  | reserved code unnamed => cases h
  | escaped => exact absurd rfl he
  | ngettext => exact absurd rfl hn
  | gettext =>
    change withGettext = true at h
    subst h
    exact ⟨_, rfl, by decide⟩
  | unescaped => exact ⟨_, rfl, by revert withGettext; decide⟩
  | ampersand => exact ⟨_, rfl, by revert withGettext; decide⟩
  | sectionOpen => exact ⟨_, rfl, by revert withGettext; decide⟩
  | invertedOpen => exact ⟨_, rfl, by revert withGettext; decide⟩
  | sectionClose => exact ⟨_, rfl, by revert withGettext; decide⟩
  | comment => exact ⟨_, rfl, by revert withGettext; decide⟩
  | partialTag => exact ⟨_, rfl, by revert withGettext; decide⟩
  | partialAlt => exact ⟨_, rfl, by revert withGettext; decide⟩

/-- A byte that is no sigil with the extension is none without it. -/
theorem ofSigil_eq_none {b : UInt8} (h : Kind.ofSigil true b = none) (withGettext : Bool) :
    Kind.ofSigil withGettext b = none := by
  cases withGettext with
  | true => exact h
  | false =>
    simp only [Kind.ofSigil, Kind.sigilTable, if_true, Bool.false_eq_true, if_false,
      List.lookup_append, Option.or_eq_none_iff] at h ⊢
    exact h.1

variable {withGettext : Bool} {t : Token}

theorem body_ngettext (hk : t.kind = .ngettext) :
    t.body = Kind.ngettextKeyword ++ space :: (t.name ++ t.argsText) := by
  simp [body, hk, Kind.sigil]

theorem body_escaped (hk : t.kind = .escaped) (ha : t.args = none) :
    t.body = if needsSpace t.name then space :: t.name else t.name := by
  simp only [body, argsText, hk, ha]
  by_cases hs : needsSpace t.name = true <;> simp [hs]

theorem body_other (hn : t.kind ≠ .ngettext) (he : t.kind ≠ .escaped) (hu : t.kind ≠ .unescaped) :
    t.body = t.name ++ t.argsText := by
  simp [body, hn, he, hu]

theorem body_unescaped (hk : t.kind = .unescaped) (ha : t.args = none) :
    t.body = t.name ++
      if t.closeMark ≠ Delimiters.standard.closeMark then [closeBrace] else [] := by
  simp [body, argsText, hk, ha]

/-- What is written for a tag starts with the sigil of its kind. -/
theorem TagForm.selects (h : t.TagForm withGettext) : Selects withGettext t.sigilKind t.body := by
  by_cases hn : t.kind = .ngettext
  · -- a plural form has no sigil, and its keyword does not start with one
    have hb := body_ngettext hn
    have hs : t.sigilKind = .escaped := by simp [sigilKind, hn]
    rw [hs, hb]
    refine ⟨by simp, by simp, ?_⟩
    revert withGettext
    intro withGettext _
    cases withGettext <;> rfl
  · have hs : t.sigilKind = t.kind := by simp [sigilKind, hn]
    rw [hs]
    by_cases he : t.kind = .escaped
    · have ha : t.args = none := h.withoutArgs (by rw [he]; rfl)
      rw [body_escaped he ha, he]
      -- the space keeps a name that looks like a sigil from being taken for one
      cases hname : t.name with
      | nil =>
        refine ⟨by simp [needsSpace], by simp, ?_⟩
        cases withGettext <;> rfl
      | cons b rest =>
        by_cases hb : (Kind.ofSigil true b).isSome = true
        · simp only [needsSpace, hb, if_true]
          refine ⟨by simp, by simp, ?_⟩
          cases withGettext <;> rfl
        · have hb' : Kind.ofSigil true b = none := by simpa using hb
          simp only [needsSpace, hb', Option.isSome_none, Bool.false_eq_true, if_false]
          refine ⟨by simp, by simp, ?_⟩
          simp [Kind.sigil, ofSigil_eq_none hb']
    · obtain ⟨b, hsigil, hb⟩ := exists_sigil_of_isEmittable h.kind he hn
      refine ⟨by simp [hsigil], ?_, ?_⟩
      · intro hd
        have hk := h.kind
        rw [hd] at hk
        cases hk
      · simp [hsigil, hb, he]

/-! ## Names and arguments -/

theorem TagForm.trim_argsText (h : t.TagForm withGettext) :
    trim (t.name ++ t.argsText) = t.name ++ t.argsText := by
  cases hk : t.kind.acceptsArgs with
  | false =>
    have ha := h.withoutArgs hk
    simpa [argsText, ha] using h.name
  | true =>
    obtain ⟨args, ha, -, htrim, hempty⟩ := h.withArgs hk
    rw [Option.mem_def] at ha
    cases args with
    | nil => simpa [argsText, ha] using h.name
    | cons b rest =>
      -- arguments need a name in front of them
      have hne : t.name ≠ [] := fun hn => absurd (hempty hn) (by simp)
      have hs := trim_append h.name htrim hne (by simp) [space]
      simpa [argsText, ha] using hs

/-- Name and arguments are found again. -/
theorem TagForm.nameAndArgs (h : t.TagForm withGettext) :
    Tag.nameAndArgs t.kind (t.name ++ t.argsText) = (t.name, t.args) := by
  unfold Tag.nameAndArgs
  cases hk : t.kind.acceptsArgs with
  | false => simp [argsText, h.withoutArgs hk]
  | true =>
    obtain ⟨args, ha, hfree, htrim, -⟩ := h.withArgs hk
    rw [Option.mem_def] at ha
    cases args with
    | nil => simp [argsText, ha, cutWord_of_blankFree hfree]
    | cons b rest => simp [argsText, ha, cutWord_append hfree htrim]

/-- The keyword is found again, and what follows it. -/
theorem TagForm.afterNgettext? (h : t.TagForm withGettext) (hk : t.kind = .ngettext) :
    Tag.afterNgettext? (trim t.body) = some (t.name ++ t.argsText) := by
  have hne : t.name ++ t.argsText ≠ [] := by simp [h.plural hk]
  have htrim := h.trim_argsText
  have hkey : trim Kind.ngettextKeyword = Kind.ngettextKeyword := by decide
  have hbody : trim t.body = t.body := by
    rw [body_ngettext hk]
    have hs := trim_append hkey htrim (by decide) hne [space]
    simpa using hs
  rw [hbody, body_ngettext hk]
  have hs : isBlank space = true := by decide
  simp [Tag.afterNgettext?, afterStem?, hs, trim_cons_of_isBlank hs, htrim]

/-- The kind of a tag is found again, and its name and arguments, apart from the brace of a raw
interpolation. -/
theorem TagForm.classify (h : t.TagForm withGettext) :
    Tag.classify withGettext t.sigilKind t.body =
      (t.kind, t.name ++ t.argsText ++
        if t.kind = .unescaped ∧ t.closeMark ≠ Delimiters.standard.closeMark then [closeBrace]
        else []) := by
  by_cases hn : t.kind = .ngettext
  · have hg : withGettext = true := by
      have hk := h.kind
      rw [hn] at hk
      exact hk
    simp [Tag.classify, sigilKind, hn, hg, h.afterNgettext? hn]
  · have hs : t.sigilKind = t.kind := by simp [sigilKind, hn]
    rw [hs]
    by_cases he : t.kind = .escaped
    · have ha : t.args = none := h.withoutArgs (by rw [he]; rfl)
      -- the space that was put in front of the name is trimmed off
      have htrim : trim t.body = t.name := by
        rw [body_escaped he ha]
        split
        · rw [trim_cons_of_isBlank (by decide), h.name]
        · exact h.name
      have hplain := h.plain he
      unfold Tag.classify
      rw [htrim, he]
      cases withGettext with
      | false => simp [argsText, ha]
      | true => simp [hplain rfl, argsText, ha]
    · have htrim : trim t.body = t.name ++ t.argsText ++
          if t.kind = .unescaped ∧ t.closeMark ≠ Delimiters.standard.closeMark then [closeBrace]
          else [] := by
        by_cases hu : t.kind = .unescaped
        · -- the brace is no blank, so it stays at the end of the name
          have ha : t.args = none := h.withoutArgs (by rw [hu]; rfl)
          rw [body_unescaped hu ha]
          by_cases hc : t.closeMark = Delimiters.standard.closeMark
          · simpa [argsText, ha, hu, hc] using h.name
          · have hbrace : trim [closeBrace] = [closeBrace] := by decide
            by_cases hname : t.name = []
            · simpa [argsText, ha, hu, hc, hname] using hbrace
            · have hs := trim_append h.name hbrace hname (by simp) []
              simpa [argsText, ha, hu, hc] using hs
        · rw [body_other hn he hu]
          simpa [hu] using h.trim_argsText
      simp [Tag.classify, htrim, he]

/-! ## The token is read back -/

theorem TagForm.kind_ne_text (h : t.TagForm withGettext) : t.kind ≠ .text := by
  intro hk
  have he := h.kind
  rw [hk] at he
  cases he

/-- What a tag is written as is read as the tag. -/
theorem exists_token?_tag (h : t.WellFormed withGettext) (ht : t.isTag = true) (pos : Nat) :
    ∃ u, (t.item.segment t.pair pos).token? withGettext = some u ∧ u.content = t.content ∧
      u.extent = (t.item.segment t.pair pos).extent := by
  have hform := h.tag ht
  have hparts := hform.nameAndArgs
  rw [item_of_isTag ht]
  refine ⟨_, rfl, ?_, ?_⟩
  · simp only [Item.segment, Item.piece, Tag.finish, Tag.token, hform.classify]
    by_cases hu : t.kind = .unescaped
    · have hs : t.sigilKind = .unescaped := by simp [sigilKind, hu]
      have ha : t.args = none := hform.withoutArgs (by rw [hu]; rfl)
      -- the brace is taken past the close delimiter or dropped from the name
      by_cases hc : t.closeMark = Delimiters.standard.closeMark
      · have habs : Tag.absorbsBrace t.pair t.sigilKind = true := by
          simp [Tag.absorbsBrace, hs, h.marks.closeMark_pair, hc]
        simp [habs, hu, hc, content, h.marks.openMark_pair, h.marks.closeMark_pair,
          hform.value, h.indent, Tag.nameAndArgs, Kind.acceptsArgs, argsText, ha]
      · have habs : Tag.absorbsBrace t.pair .unescaped = false := by
          simp [Tag.absorbsBrace, h.marks.closeMark_pair, hc]
        simp [habs, hs, hu, hc, content, h.marks.openMark_pair, h.marks.closeMark_pair,
          hform.value, h.indent, Tag.nameAndArgs, Kind.acceptsArgs, argsText, ha, Tag.dropBrace,
          hform.name]
    · have hs : t.sigilKind ≠ .unescaped := by
        unfold sigilKind
        split <;> simp [hu]
      have habs : Tag.absorbsBrace t.pair t.sigilKind = false := by simp [Tag.absorbsBrace, hs]
      simp [habs, hs, hu, hparts, content, h.marks.openMark_pair, h.marks.closeMark_pair,
        hform.value, h.indent]
  · simp only [Item.segment, Item.piece, Item.render, brace, Tag.finish, Tag.token,
      List.length_append]
    split
    · rfl
    · next habs =>
      split
      · simp
        omega
      · simp
        omega

/-- **What a token is written as is read as the token**, at its new place. -/
theorem exists_token?_item (h : t.WellFormed withGettext) (pos : Nat) :
    ∃ u, (t.item.segment t.pair pos).token? withGettext = some u ∧ u.content = t.content ∧
      u.extent = (t.item.segment t.pair pos).extent := by
  by_cases ht : t.isTag = true
  · exact exists_token?_tag h ht pos
  · have htext : t.isText = true := by simpa [isTag] using ht
    have hform := h.text htext
    have hkind : t.kind = .text := by simpa [isText] using htext
    by_cases hv : t.value = [newline]
    · rw [item_of_endsLine (by simp [endsLine, htext, hv])]
      refine ⟨_, rfl, ?_, rfl⟩
      simp [Item.segment, Segment.textToken, content, h.marks.openMark_pair,
        h.marks.closeMark_pair, hkind, hform.name, hv, hform.args, h.indent]
    · rw [item_of_run htext hv]
      refine ⟨_, rfl, ?_, rfl⟩
      simp [Item.segment, Segment.textToken, content, h.marks.openMark_pair,
        h.marks.closeMark_pair, hkind, hform.name, hform.args, h.indent]

end Token

end TemplateLexer
