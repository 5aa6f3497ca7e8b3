import TemplateLexer.Proofs.Tokens.Origin

/-!
# Tokens and their slices

A token says what stands in its slice of the text, which is given by its span. A text is its slice with
the escapes resolved. The slice of a tag is an open delimiter, a sigil, a body and the first close
delimiter after them, and kind, name and arguments are those that the body spells out.

* `unescape`, `eq_unescape_of_readRun`: a run of text and its slice;
* `Spells`, `spells_finish`: what the trimmed body of a tag spells out, told by how it is put together;
* `TextSlice`, `TagSlice`: a token in its slice;
* `textSlice_of_token?`, `exists_tagSlice_of_piece`: what a segment gives is in the slice it is read from;
* `slice_of_mem_spannedTokens`: so every token of a scan is in the slice of its span.
-/

namespace TemplateLexer.Outline

open Bytes Scan Rebuild

variable {withGettext : Bool}

/-! ## Texts -/

/-- The text with its escapes resolved from left to right: a backslash and the first byte of the open
delimiter are that byte. -/
def unescape (openMark : Bytes) : Bytes → Bytes
  | [] => []
  | [b] => [b]
  | b :: c :: rest =>
    if b = backslash ∧ openMark.head? = some c then c :: unescape openMark rest
    else b :: unescape openMark (c :: rest)

/-- A byte that does not start an escape is kept. -/
theorem unescape_cons {pair : Delimiters} {b : UInt8} {text : Bytes}
    (h : escapedByte? pair (b :: text) = none) :
    unescape pair.openMark (b :: text) = b :: unescape pair.openMark text := by
  cases text with
  | nil => rfl
  | cons c rest =>
    have hn : ¬ (b = backslash ∧ pair.openMark.head? = some c) := by
      intro hc
      simp [escapedByte?, hc] at h
    simp [unescape, hn]

/-- What is taken as a run of text has no newline, and is the run with its escapes resolved. -/
theorem eq_unescape_of_readRun {pair : Delimiters} {taken rest run : Bytes}
    (h : readRun pair (taken ++ rest) = (run, rest)) :
    run = unescape pair.openMark taken ∧ newline ∉ taken := by
  generalize htext : taken ++ rest = text at h
  fun_induction readRun pair text generalizing taken run with
  | case1 text hb =>
    -- nothing is taken
    obtain ⟨rfl, rfl⟩ := Prod.mk.inj h
    rw [List.append_left_eq_self.mp htext]
    exact ⟨rfl, List.not_mem_nil⟩
  | case2 text b tail hb ih =>
    obtain ⟨rfl, hrest⟩ := Prod.mk.inj h
    -- what is left after the byte is taken to the end of the run
    obtain ⟨taken', htail⟩ := suffix_readRun pair tail
    rw [hrest] at htail
    obtain ⟨hrun, hnl⟩ := ih htail (Prod.ext rfl hrest)
    subst htail
    rcases cases_textByte? hb with ⟨rfl, ho⟩ | ⟨rfl, hne, he, -⟩
    · have htaken : taken = backslash :: b :: taken' := List.append_cancel_right htext
      have hb : b ≠ newline := by
        rintro rfl
        exact newline_not_mem_open pair (List.mem_of_mem_head? ho)
      subst htaken
      refine ⟨by simp [unescape, ho, hrun], ?_⟩
      simp only [List.mem_cons, not_or]
      exact ⟨by decide, hb.symm, hnl⟩
    · have htaken : taken = b :: taken' := List.append_cancel_right htext
      subst htaken
      have he' : escapedByte? pair (b :: taken') = none := by
        cases taken' with
        | nil => rfl
        | cons c rest' => simpa [escapedByte?] using he
      refine ⟨by rw [unescape_cons he', ← hrun], ?_⟩
      simp only [List.mem_cons, not_or]
      exact ⟨hne.symm, hnl⟩

/-! ## Bodies -/

/-- A body that reads as a plural form: the keyword, a blank, and more. -/
def IsPlural (core : Bytes) : Prop :=
  ∃ b more, core = Kind.ngettextKeyword ++ b :: more ∧ isBlank b = true

/-- The trimmed body of a tag spells out its kind, its name and its arguments. -/
inductive Spells (withGettext : Bool) (closeMark : Bytes) (core : Bytes) :
    Kind → Bytes → Option Bytes → Prop
  /-- A plural form is split after its keyword. -/
  | plural {b : UInt8} {more inner name args : Bytes} (on : withGettext = true)
      (keyword : core = Kind.ngettextKeyword ++ b :: more) (blank : isBlank b = true)
      (inside : Strips (b :: more) inner) (split : Splits inner name args) :
    Spells withGettext closeMark core .ngettext name (some args)
  /-- Other tags with arguments are split at once. -/
  | withArgs {kind : Kind} {name args : Bytes} (accepts : kind.acceptsArgs = true)
      (singular : kind ≠ .ngettext) (split : Splits core name args) :
    Spells withGettext closeMark core kind name (some args)
  /-- A plain interpolation has all of a body that is no plural form. -/
  | plain (singular : withGettext = true → ¬ IsPlural core) :
    Spells withGettext closeMark core .escaped core none
  /-- A raw interpolation loses a closing brace that its delimiters do not take care of. -/
  | braced {inner name : Bytes} (other : closeMark ≠ Delimiters.standard.closeMark)
      (brace : core = inner ++ [closeBrace]) (inside : Strips inner name) :
    Spells withGettext closeMark core .unescaped name none
  | raw (unbraced : closeMark ≠ Delimiters.standard.closeMark → core.getLast? ≠ some closeBrace) :
    Spells withGettext closeMark core .unescaped core none
  /-- All other tags have all of the body. -/
  | whole {kind : Kind} (unsplit : kind.acceptsArgs = false) (plain : kind ≠ .escaped)
      (raw : kind ≠ .unescaped) :
    Spells withGettext closeMark core kind core none

/-- A plural form is one that is read as one. -/
theorem afterNgettext?_iff {core inner : Bytes} :
    Tag.afterNgettext? core = some inner ↔
      ∃ b more, core = Kind.ngettextKeyword ++ b :: more ∧ isBlank b = true ∧
        Strips (b :: more) inner := by
  unfold Tag.afterNgettext?
  constructor
  · intro h
    split at h
    · next b more hs =>
      split at h
      · next hb =>
        cases h
        exact ⟨b, more, afterStem?_eq_some_iff.mp hs, hb, strips_trim _⟩
      · cases h
    · cases h
  · rintro ⟨b, more, hcore, hb, hinner⟩
    rw [afterStem?_eq_some_iff.mpr hcore, strips_iff.mp hinner]
    simp [hb]

/-- Only a raw interpolation is touched up. -/
theorem finish_eq_self {pair : Delimiters} {kind : Kind} (hk : kind ≠ .unescaped) (stop : Nat)
    (t : Token) : Tag.finish pair kind stop t = t := by
  simp [Tag.finish, Tag.absorbsBrace, hk]

section spells

variable (pair : Delimiters) {kind : Kind} (start closeAt stop : Nat) (body : Bytes)

/-- A raw interpolation has its body, but for the brace. -/
theorem spells_unescaped {t : Token} (ht : t = Tag.finish pair .unescaped stop
    (Tag.token withGettext pair .unescaped start closeAt body)) :
    t.kind = .unescaped ∧ Spells withGettext pair.closeMark (trim body) t.kind t.name t.args := by
  have hkind : t.kind = .unescaped := by
    rw [ht, kind_finish]
    simp [Tag.token, Tag.classify]
  have hargs : t.args = none := by
    rw [ht, args_finish]
    simp [Tag.token, Tag.classify, Tag.nameAndArgs, Kind.acceptsArgs]
  refine ⟨hkind, ?_⟩
  rw [hkind, hargs]
  by_cases hclose : pair.closeMark = Delimiters.standard.closeMark
  · have hname : t.name = trim body := by
      rw [ht]
      simp [Tag.finish, Tag.absorbsBrace, hclose, Tag.token, Tag.classify, Tag.nameAndArgs,
        Kind.acceptsArgs]
    rw [hname]
    exact .raw fun hne => absurd hclose hne
  · have hname : t.name = Tag.dropBrace (trim body) := by
      rw [ht]
      simp [Tag.finish, Tag.absorbsBrace, hclose, Tag.token, Tag.classify, Tag.nameAndArgs,
        Kind.acceptsArgs]
    rw [hname, Tag.dropBrace]
    split
    · next hlast =>
      obtain ⟨inner, hinner⟩ := List.getLast?_eq_some_iff.mp hlast
      refine .braced hclose hinner ?_
      rw [hinner, List.dropLast_concat]
      exact strips_trim inner
    · next hlast => exact .raw fun _ => hlast

/-- A body that is no plural form keeps the kind of its sigil. -/
theorem classify_of_not_plural
    (h : ¬ (withGettext = true ∧ kind = .escaped ∧ IsPlural (trim body))) :
    Tag.classify withGettext kind body = (kind, trim body) := by
  unfold Tag.classify
  dsimp only
  split
  · next hk =>
    split
    · next inner hinner =>
      obtain ⟨b, more, hcore, hb, -⟩ := afterNgettext?_iff.mp hinner
      exact absurd ⟨hk.1, hk.2, b, more, hcore, hb⟩ h
    · rfl
  · rfl

/-- The token of a tag has what its trimmed body spells out. -/
theorem spells_finish (hk : kind ≠ .ngettext) {t : Token} (ht : t = Tag.finish pair kind stop
    (Tag.token withGettext pair kind start closeAt body)) :
    (t.kind = kind ∨ (kind = .escaped ∧ t.kind = .ngettext)) ∧
      Spells withGettext pair.closeMark (trim body) t.kind t.name t.args := by
  by_cases hraw : kind = .unescaped
  · subst hraw
    obtain ⟨hkind, hspells⟩ := spells_unescaped pair start closeAt stop body ht
    exact ⟨.inl hkind, hspells⟩
  · rw [finish_eq_self hraw] at ht
    subst ht
    by_cases hplural : withGettext = true ∧ kind = .escaped ∧ IsPlural (trim body)
    · obtain ⟨hon, rfl, b, more, hcore, hb⟩ := hplural
      have hinner := afterNgettext?_iff.mpr ⟨b, more, hcore, hb, strips_trim _⟩
      have hclass : Tag.classify withGettext .escaped body = (.ngettext, trim (b :: more)) := by
        simp [Tag.classify, hon, hinner]
      refine ⟨.inr ⟨rfl, by simp [Tag.token, hclass]⟩, ?_⟩
      simp only [Tag.token, hclass, Tag.nameAndArgs, Kind.acceptsArgs, if_true]
      exact .plural hon hcore hb (strips_trim _) (splits_cutWord _)
    · have hclass := classify_of_not_plural body hplural
      refine ⟨.inl (by simp [Tag.token, hclass]), ?_⟩
      simp only [Tag.token, hclass, Tag.nameAndArgs]
      by_cases hargs : kind.acceptsArgs = true
      · rw [if_pos hargs]
        exact .withArgs hargs hk (splits_cutWord _)
      · rw [if_neg hargs]
        by_cases hplain : kind = .escaped
        · subst hplain
          exact .plain fun hon hp => hplural ⟨hon, rfl, hp⟩
        · exact .whole (by simpa using hargs) hplain hraw

end spells

/-! ## Slices -/

/-- A text token is what its slice is with the escapes resolved: a newline, or text on one line. -/
structure TextSlice (text : Bytes) (t : Token) (start stop : Nat) : Prop where
  value : ∃ before slice after, text = before ++ slice ++ after ∧ before.length = start ∧
    (before ++ slice).length = stop ∧
      ((slice = [newline] ∧ t.value = [newline]) ∨
        (newline ∉ slice ∧ t.value = unescape t.openMark slice))
  index : t.index = stop

/-- The offset just past the close delimiter of a tag. -/
def pastClose (t : Token) (start : Nat) (sigil body : Bytes) : Nat :=
  start + (t.openMark ++ sigil ++ body ++ t.closeMark).length

/-- A tag stands in its slice: between the open delimiter and the first close delimiter after it are
the sigil of its kind, and a body that spells out the rest. -/
structure TagSlice (withGettext : Bool) (text : Bytes) (t : Token) (start stop : Nat)
    (sigil body : Bytes) : Prop where
  place : ∃ before after, text = before ++ (t.openMark ++ sigil ++ body ++ t.closeMark) ++ after ∧
    before.length = start
  /-- Plain interpolations and plural forms have no sigil, and no byte that is one. -/
  unmarked : t.kind = .escaped ∨ t.kind = .ngettext →
    sigil = [] ∧ ∀ b ∈ (text.drop (start + t.openMark.length)).head?,
      Kind.ofSigil withGettext b = none
  marked : t.kind ≠ .escaped → t.kind ≠ .ngettext → sigil = t.kind.sigil ∧ sigil.length = 1
  first : ∀ k, start + (t.openMark ++ sigil).length ≤ k → t.closeMark <+: text.drop k →
    start + (t.openMark ++ sigil ++ body).length ≤ k
  /-- A raw interpolation in triple braces takes one more byte, if there is one. -/
  stop : stop = if t.kind = .unescaped ∧ t.closeMark = Delimiters.standard.closeMark
    then min (pastClose t start sigil body + 1) text.length else pastClose t start sigil body
  index : t.index = if t.kind = .sectionClose then start else pastClose t start sigil body
  content : ∃ core, Strips body core ∧ Spells withGettext t.closeMark core t.kind t.name t.args

/-- The token is what its slice of the text says. -/
def Slice (withGettext : Bool) (text : Bytes) (t : Token) (start stop : Nat) : Prop :=
  (t.isText = true → TextSlice text t start stop) ∧
    (t.isTag = true → ∃ sigil body, TagSlice withGettext text t start stop sigil body)

section slices

variable {text : Bytes} {s : Segment} {t : Token}

/-- A segment that gives a text gives its slice. -/
theorem textSlice_of_token? (hs : ReadAt withGettext 0 text s)
    (ht : s.token? withGettext = some t) (htext : t.isText = true) :
    TextSlice text t s.extent.start s.extent.stop := by
  have hmark : s.isMark = false := by
    rw [← (token?_eq hs ht).1, Token.isTag, htext]
    rfl
  obtain ⟨before, taken, rest, rfl, he, hpiece⟩ := hs.unmarked hmark
  rw [Nat.zero_add] at he
  obtain ⟨value, hvalue, hslice⟩ : ∃ value, t = s.textToken value ∧
      ((taken = [newline] ∧ value = [newline]) ∨
        (newline ∉ taken ∧ value = unescape s.pair.openMark taken)) := by
    rcases hpiece with ⟨run, hp, hread⟩ | ⟨hp, hline⟩
    · simp only [Segment.token?, hp, Option.some.injEq] at ht
      obtain ⟨hrun, hnl⟩ := eq_unescape_of_readRun hread
      exact ⟨run, ht.symm, .inr ⟨hnl, hrun⟩⟩
    · simp only [Segment.token?, hp, Option.some.injEq] at ht
      exact ⟨[newline], ht.symm, .inl ⟨hline, rfl⟩⟩
  subst hvalue
  exact ⟨⟨before, taken, rest, rfl, by rw [he], by rw [he, List.length_append], hslice⟩, rfl⟩

theorem index_finish (pair : Delimiters) (kind : Kind) (stop : Nat) (t : Token) :
    (Tag.finish pair kind stop t).index = t.index := by
  unfold Tag.finish
  split
  · rfl
  · split <;> rfl

/-- The sigil in front of the text of a tag, by the kind of the token. -/
theorem sigil_of_isSigil {kind : Kind} {sigil tail : Bytes} (h : IsSigil withGettext kind sigil tail)
    (hkind : t.kind = kind ∨ (kind = .escaped ∧ t.kind = .ngettext)) :
    (t.kind = .escaped ∨ t.kind = .ngettext → sigil = [] ∧
        ∀ b ∈ (sigil ++ tail).head?, Kind.ofSigil withGettext b = none) ∧
      (t.kind ≠ .escaped → t.kind ≠ .ngettext → sigil = t.kind.sigil ∧ sigil.length = 1) := by
  cases h with
  | byte hb =>
    have hsigil := sigil_of_ofSigil hb
    constructor
    · -- no sigil selects a kind that has none
      intro hk
      have hplain : kind = .escaped := by
        rcases hkind with hkind | ⟨hkind, -⟩
        · rcases hk with hk | hk
          · rw [← hkind, hk]
          · rw [← hkind, hk] at hsigil
            cases hsigil
        · exact hkind
      rw [hplain] at hsigil
      cases hsigil
    · intro hplain hplural
      rcases hkind with hkind | ⟨-, hkind⟩
      · rw [hkind, hsigil]
        exact ⟨rfl, rfl⟩
      · exact absurd hkind hplural
  | none hn =>
    constructor
    · intro _
      exact ⟨rfl, fun b hb => Option.bind_eq_none_iff.mp hn b hb⟩
    · intro hplain hplural
      rcases hkind with hkind | ⟨-, hkind⟩
      · exact absurd hkind hplain
      · exact absurd hkind hplural

theorem absorbsBrace_iff {pair : Delimiters} {kind : Kind} :
    Tag.absorbsBrace pair kind = true ↔
      kind = .unescaped ∧ pair.closeMark = Delimiters.standard.closeMark := by
  simp [Tag.absorbsBrace]

/-- The token of a tag stands in the slice of its segment, with the body of the segment. -/
theorem exists_tagSlice_of_piece {kind : Kind} {body : Bytes} {closeAt : Nat}
    (hs : ReadAt withGettext 0 text s) (hp : s.piece = .tag kind body closeAt)
    (ht : s.token? withGettext = some t) :
    ∃ sigil, TagSlice withGettext text t s.extent.start s.extent.stop sigil body := by
  obtain ⟨hmarks, hpair, -, -⟩ := marks_of_token? ht
  have hopen : t.openMark = s.pair.openMark := by rw [← hpair, hmarks.openMark_pair]
  have hclose : t.closeMark = s.pair.closeMark := by rw [← hpair, hmarks.closeMark_pair]
  have hfinish : t = Tag.finish s.pair kind s.extent.stop
      (Tag.token withGettext s.pair kind s.extent.start closeAt body) := by
    simpa [Segment.token?, hp, eq_comm] using ht
  obtain ⟨-, hkinds⟩ := cases_of_readAt hs
  obtain ⟨before, sigil, tail, after, hsigil, htext, hcut, hstart, hcloseAt, hstop⟩ := hs.tag hp
  obtain ⟨hkind, hspells⟩ := spells_finish s.pair s.extent.start closeAt s.extent.stop body
    (hkinds kind body closeAt hp).2 hfinish
  obtain ⟨hunmarked, hmarked⟩ := sigil_of_isSigil hsigil hkind
  rw [Nat.zero_add] at hstart
  rw [← hopen] at htext hcloseAt
  rw [← hclose] at hcut hstop hspells
  have hplace : text = before ++ (t.openMark ++ sigil ++ body ++ t.closeMark) ++ after := by
    rw [htext, eq_of_cutAt? hcut]
    simp only [List.append_assoc]
  have hpast : pastClose t s.extent.start sigil body = closeAt + t.closeMark.length := by
    rw [pastClose, hcloseAt]
    simp only [List.length_append]
    omega
  have hlength : text.length = pastClose t s.extent.start sigil body + after.length := by
    rw [hplace, pastClose, hstart]
    simp only [List.length_append]
  -- the kind that the sigil selects is the kind of a raw interpolation exactly if the token's is
  have habsorbs : Tag.absorbsBrace s.pair kind = true ↔
      t.kind = .unescaped ∧ t.closeMark = Delimiters.standard.closeMark := by
    rw [absorbsBrace_iff, hclose]
    rcases hkind with hkind | ⟨rfl, hkind⟩
    · rw [hkind]
    · simp [hkind]
  refine ⟨sigil, ?place, ?unmarked, hmarked, ?first, ?stop, ?index, ?content⟩
  case place => exact ⟨before, after, hplace, hstart.symm⟩
  case unmarked =>
    have hdrop : text.drop (s.extent.start + t.openMark.length) = sigil ++ tail := by
      rw [htext, hstart]
      simp
    rwa [hdrop]
  case first =>
    intro k hk hmark
    have hfront : (before ++ t.openMark ++ sigil).length ≤ k := by
      simpa [hstart, Nat.add_assoc] using hk
    rw [htext] at hmark
    have hle := length_append_le_of_cutAt? hcut hfront hmark
    simpa [hstart, Nat.add_assoc] using hle
  case stop =>
    simp only [habsorbs] at hstop
    rw [hstop, ← hpast, hlength]
    split
    · omega
    · rfl
  case index =>
    rw [hpast, hclose, hfinish, index_finish, kind_finish]
    rfl
  case content => exact ⟨trim body, strips_trim body, hspells⟩

/-- A segment that gives a tag gives its slice. -/
theorem exists_tagSlice_of_token? (hs : ReadAt withGettext 0 text s)
    (ht : s.token? withGettext = some t) (htag : t.isTag = true) :
    ∃ sigil body, TagSlice withGettext text t s.extent.start s.extent.stop sigil body := by
  rcases Segment.cases_token? ht with ⟨run, -, rfl⟩ | ⟨-, rfl⟩ | ⟨kind, body, closeAt, hp, -⟩
  · cases htag
  · cases htag
  · obtain ⟨sigil, hslice⟩ := exists_tagSlice_of_piece hs hp ht
    exact ⟨sigil, body, hslice⟩

/-- An indent does not matter to a slice. -/
theorem TagSlice.withIndent {start stop : Nat} {sigil body : Bytes}
    (h : TagSlice withGettext text t start stop sigil body) (indent : Option Bytes) :
    TagSlice withGettext text { t with indent } start stop sigil body :=
  ⟨h.place, h.unmarked, h.marked, h.first, h.stop, h.index, h.content⟩

theorem Slice.withIndent {start stop : Nat} (h : Slice withGettext text t start stop)
    (indent : Option Bytes) : Slice withGettext text { t with indent } start stop := by
  obtain ⟨htext, htag⟩ := h
  constructor
  · intro hk
    obtain ⟨hvalue, hindex⟩ := htext hk
    exact ⟨hvalue, hindex⟩
  · intro hk
    obtain ⟨sigil, body, h⟩ := htag hk
    exact ⟨sigil, body, h.withIndent indent⟩

theorem Gives.slice (h : Gives withGettext s t) (hs : ReadAt withGettext 0 text s) :
    Slice withGettext text t s.extent.start s.extent.stop := by
  obtain ⟨u, hu, hindent⟩ := h
  have hslice : Slice withGettext text u s.extent.start s.extent.stop :=
    ⟨textSlice_of_token? hs hu, exists_tagSlice_of_token? hs hu⟩
  rcases hindent with rfl | ⟨-, indent, -, rfl⟩
  · exact hslice
  · exact hslice.withIndent _

end slices

/-- **Every token decodes its slice.** In a text that offsets can tell the places of, each token is what
the slice given by its span says: a text its slice with the escapes resolved, a tag what its sigil and
its body spell out. -/
theorem slice_of_mem_spannedTokens {source : Source} {given : Option Bytes} {t : Token} {span : Span}
    (hlength : source.text.length < UInt32.size) (h : (t, span) ∈ spannedTokens withGettext source given) :
    Slice withGettext source.text t span.start span.stop := by
  obtain ⟨ht, rfl⟩ := mem_spannedTokens_iff.mp h
  obtain ⟨hstart, hstop⟩ := span_of_mem_tokens hlength ht
  obtain ⟨s, -, hread, hg⟩ := exists_gives_of_mem_tokens ht
  rw [hstart, hstop, hg.extent_eq hread]
  exact hg.slice hread

/-- An escape, a plural form, and a raw interpolation. -/
def mixedSource : Source :=
  .ofText [] (ascii "a\\\x7bb\x7b\x7bngettext x  y z \x7d\x7d\x7b\x7b\x7b c \x7d\x7d\x7d")

theorem slice_of_mixedSource :
    mixedSource.text.length < UInt32.size ∧
      (spannedTokens true mixedSource none).map (fun p => (p.1.kind, p.2.start, p.2.stop)) =
        [(.text, 0, 4), (.ngettext, 4, 24), (.unescaped, 24, 33)] ∧
      ∀ p ∈ spannedTokens true mixedSource none,
        Slice true mixedSource.text p.1 p.2.start p.2.stop := by
  have hlength : mixedSource.text.length < UInt32.size := by decide
  have hspans : (spannedTokens true mixedSource none).map
      (fun p => (p.1.kind, p.2.start, p.2.stop)) =
        [(.text, 0, 4), (.ngettext, 4, 24), (.unescaped, 24, 33)] := by decide +kernel
  exact ⟨hlength, hspans, fun p hp => slice_of_mem_spannedTokens hlength hp⟩

end TemplateLexer.Outline
