import TemplateLexer.Proofs.Tokens.Decoding

/-!
# The form of tokens

What a reader of tokens may rely on, whatever the template is (`regular_of_mem_scan`): the kinds that
occur, the marks, the form of texts (`TextRegular`) and that of tags (`TagRegular`). Names and arguments
are cut from the body of a tag, and no body holds the close delimiter (`TagSlice.not_occurs`); the rest is
the form in which tokens can be written again, and the indents of partials.
-/

namespace TemplateLexer.Outline

open Bytes Rebuild

variable {withGettext : Bool} {t : Token}

/-! ## The form -/

/-- The form of a text: it is a newline, or on one line. -/
structure TextRegular (t : Token) : Prop where
  name : t.name = t.value
  value : t.value ≠ []
  oneLine : t.value = [newline] ∨ newline ∉ t.value
  args : t.args = none
  indent : t.indent = none

/-- The form of a tag. -/
structure TagRegular (t : Token) : Prop where
  value : t.value = []
  name : Trimmed t.name
  closed : ¬ t.closeMark <:+: t.name ∧ ∀ args ∈ t.args, ¬ t.closeMark <:+: args
  withArgs : t.args.isSome = true ↔ t.kind ∈ [.sectionOpen, .partialTag, .partialAlt, .ngettext]
  /-- In front of arguments the name is a word, and there are none without a name. -/
  word : ∀ args ∈ t.args, BlankFree t.name ∧ Trimmed args ∧ (t.name = [] → args = [])
  plural : t.kind = .ngettext → t.name ≠ []
  indent : ∀ indent ∈ t.indent, t.kind ∈ [.partialTag, .partialAlt] ∧ IsIndent indent

/-- The form of a token. -/
structure Regular (withGettext : Bool) (t : Token) : Prop where
  kind : t.kind ≠ .delimiterChange
  extension : t.kind = .gettext ∨ t.kind = .ngettext → withGettext = true
  marks : t.openMark ≠ [] ∧ t.closeMark ≠ [] ∧ BlankFree t.openMark ∧ BlankFree t.closeMark
  text : t.isText = true → TextRegular t
  tag : t.isTag = true → TagRegular t

/-! ## The close delimiter -/

/-- The first close delimiter stands at the end of the body, so the body does not hold one. -/
theorem TagSlice.not_occurs {text : Bytes} {start stop : Nat} {sigil body : Bytes}
    (h : TagSlice withGettext text t start stop sigil body) (hne : t.closeMark ≠ []) :
    ¬ t.closeMark <:+: body := by
  rintro ⟨front, back, hbody⟩
  obtain ⟨before, after, htext, hstart⟩ := h.place
  have hplace : start + (t.openMark ++ sigil).length + front.length =
      (before ++ t.openMark ++ sigil ++ front).length := by
    simp only [List.length_append]
    omega
  have hdrop : text.drop (start + (t.openMark ++ sigil).length + front.length) =
      t.closeMark ++ (back ++ t.closeMark ++ after) := by
    rw [htext, ← hbody, hplace, List.drop_append_of_le_length (by simp)]
    simp
  have hle := h.first _ (Nat.le_add_right _ _) (hdrop ▸ List.prefix_append _ _)
  have hpos := List.length_pos_iff.mpr hne
  rw [← hbody] at hle
  simp only [List.length_append] at hle
  omega

/-- Name and arguments stand in the trimmed body. -/
theorem Spells.occurs {closeMark core name : Bytes} {kind : Kind} {args : Option Bytes}
    (h : Spells withGettext closeMark core kind name args) :
    name <:+: core ∧ ∀ text ∈ args, text <:+: core := by
  cases h with
  | plural on keyword blank inside split =>
    have hinner := inside.occurs.trans (List.suffix_append Kind.ngettextKeyword _).isInfix
    rw [← keyword] at hinner
    obtain ⟨hname, hargs⟩ := split.occurs
    refine ⟨hname.trans hinner, ?_⟩
    rintro text ⟨⟩
    exact hargs.trans hinner
  | withArgs accepts singular split =>
    obtain ⟨hname, hargs⟩ := split.occurs
    refine ⟨hname, ?_⟩
    rintro text ⟨⟩
    exact hargs
  | braced other brace inside =>
    rw [brace]
    exact ⟨inside.occurs.trans (List.prefix_append _ _).isInfix, by simp⟩
  | plain singular => exact ⟨List.infix_rfl, by simp⟩
  | raw unbraced => exact ⟨List.infix_rfl, by simp⟩
  | whole unsplit plain raw => exact ⟨List.infix_rfl, by simp⟩

/-! ## Every token -/

/-- The kinds with arguments. -/
theorem acceptsArgs_iff {kind : Kind} :
    kind.acceptsArgs = true ↔ kind ∈ [.sectionOpen, .partialTag, .partialAlt, .ngettext] := by
  cases kind <;> simp [Kind.acceptsArgs]

theorem textRegular_of_wellFormed (hw : t.WellFormed withGettext) (htext : t.isText = true) :
    TextRegular t := by
  have hform := hw.text htext
  have hne : t.value ≠ [] ∧ (t.value = [newline] ∨ newline ∉ t.value) := by
    rcases hform.oneLine with hnl | ⟨hne, hnl⟩
    · rw [hnl]
      exact ⟨by simp, .inl rfl⟩
    · exact ⟨hne, .inr hnl⟩
  exact ⟨hform.name, hne.1, hne.2, hform.args, hw.indent⟩

theorem tagRegular_of_wellFormed {text : Bytes} {start stop : Nat} {sigil body : Bytes}
    (hw : t.WellFormed withGettext) (htag : t.isTag = true)
    (hslice : TagSlice withGettext text t start stop sigil body) : TagRegular t := by
  have hform := hw.tag htag
  obtain ⟨core, hcore, hspells⟩ := hslice.content
  have hclose := hslice.not_occurs hw.marks.2.1
  obtain ⟨hname, hargs⟩ := hspells.occurs
  refine ⟨hform.value, trimmed_iff.mpr hform.name, ⟨?_, ?_⟩, ?_, ?_, hform.plural, ?_⟩
  · intro h
    exact hclose (h.trans (hname.trans hcore.occurs))
  · intro args ha h
    exact hclose (h.trans ((hargs args ha).trans hcore.occurs))
  · rw [← acceptsArgs_iff]
    cases ha : t.kind.acceptsArgs with
    | true =>
      obtain ⟨args, hmem, -⟩ := hform.withArgs ha
      simp [Option.mem_def.mp hmem]
    | false => simp [hform.withoutArgs ha]
  · intro args ha
    cases hk : t.kind.acceptsArgs with
    | true =>
      obtain ⟨args', hmem, hfree, htrim, hempty⟩ := hform.withArgs hk
      obtain rfl : args = args' := Option.mem_unique ha hmem
      exact ⟨hfree, trimmed_iff.mpr htrim, hempty⟩
    | false =>
      rw [hform.withoutArgs hk] at ha
      cases ha
  · rw [hw.indent]
    simp

/-- The indent of a partial is the only other thing that a token may have. -/
theorem Regular.withIndent (h : Regular withGettext t) (hp : t.isPartial = true) {indent : Bytes}
    (hi : IsIndent indent) : Regular withGettext { t with indent := some indent } := by
  have hkind : t.kind ∈ [Kind.partialTag, Kind.partialAlt] := by
    unfold Token.isPartial Kind.isPartial at hp
    split at hp
    · next hk => simp [hk]
    · next hk => simp [hk]
    · cases hp
  have htag : t.isTag = true := by
    unfold Token.isTag Token.isText
    cases hk : t.kind <;> simp [hk] at hkind ⊢
  have hform := h.tag htag
  refine ⟨h.kind, h.extension, h.marks, ?_, fun _ => ?_⟩
  · intro htext
    -- a partial is no text
    rw [Token.isTag, show t.isText = true from htext] at htag
    cases htag
  · refine ⟨hform.value, hform.name, hform.closed, hform.withArgs, hform.word, hform.plural, ?_⟩
    rintro _ ⟨⟩
    exact ⟨hkind, hi⟩

theorem Gives.regular {text : Bytes} {s : Segment} (h : Gives withGettext s t)
    (hs : ReadAt withGettext 0 text s) : Regular withGettext t := by
  obtain ⟨u, hu, hindent⟩ := h
  have hw := wellFormed_of_readAt hs hu
  have hregular : Regular withGettext u := by
    refine ⟨?_, ?_, hw.marks, textRegular_of_wellFormed hw, ?_⟩
    · intro hk
      have htag : u.isTag = true := by simp [Token.isTag, Token.isText, hk]
      have hform := (hw.tag htag).kind
      rw [hk] at hform
      cases hform
    · intro hk
      have htag : u.isTag = true := by rcases hk with hk | hk <;> simp [Token.isTag, Token.isText, hk]
      have hform := (hw.tag htag).kind
      rcases hk with hk | hk
      · rwa [hk] at hform
      · rwa [hk] at hform
    · intro htag
      obtain ⟨sigil, body, hslice⟩ := exists_tagSlice_of_token? hs hu htag
      exact tagRegular_of_wellFormed hw htag hslice
  rcases hindent with rfl | ⟨hp, indent, hi, rfl⟩
  · exact hregular
  · exact hregular.withIndent hp hi

/-- **Every token of a scan has the form of its kind.** -/
theorem regular_of_mem_scan {source : Source} {given : Option Bytes}
    (h : t ∈ (scan withGettext source given).tokens) : Regular withGettext t := by
  rw [tokens_scan] at h
  obtain ⟨s, -, hread, hg⟩ := exists_gives_of_mem_tokens h
  exact hg.regular hread

/-- A partial on a line of its own, with arguments. -/
def partialLine : Source := .ofText [] (ascii "  \x7b\x7b> item  a b \x7d\x7d\n")

theorem regular_of_mem_partialLine :
    ∃ t ∈ (scan false partialLine none).tokens, t.name = ascii "item" ∧ t.args = some (ascii "a b") ∧
      t.indent = some (ascii "  ") ∧ Regular false t := by
  obtain ⟨t, hmem, hname, hargs, hindent⟩ : ∃ t ∈ (scan false partialLine none).tokens,
      t.name = ascii "item" ∧ t.args = some (ascii "a b") ∧ t.indent = some (ascii "  ") := by
    decide +kernel
  exact ⟨t, hmem, hname, hargs, hindent, regular_of_mem_scan hmem⟩

end TemplateLexer.Outline
