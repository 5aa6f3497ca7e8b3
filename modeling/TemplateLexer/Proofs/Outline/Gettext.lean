import Mathlib.Data.List.Forall2
import TemplateLexer.Proofs.Scan.Marks
import TemplateLexer.Proofs.Tokens.Decoding

/-!
# With and without gettext

The gettext extension knows one sigil more, and reads plural forms. A template whose close delimiters do
not start with that sigil is cut at the same places either way, and only plain interpolations may become
something else (`scan_gettext`).

The two scans are compared segment by segment and then token by token.

* `Counterpart`: a segment without the extension and the one with it;
* `counterpart_readMark`, `forall₂_segments`: what is read at one mark, and at all of them;
* `Extended`: a token without the extension and the one with it;
* `Counterpart.extended`, `forall₂_lineTokens`: the token of one segment, and those of a line.
-/

namespace TemplateLexer.Outline

open Bytes Scan

/-- The sigil that only the gettext extension knows. -/
abbrev gettextSigil : UInt8 := 0x5F

/-! ## Sigils -/

/-- The extension adds one sigil and keeps the others. -/
theorem ofSigil_true (b : UInt8) :
    Kind.ofSigil true b = if b = gettextSigil then some .gettext else Kind.ofSigil false b := by
  split
  · next hb =>
    subst hb
    decide
  · next hb =>
    have hother : ([(gettextSigil, Kind.gettext)] : List (UInt8 × Kind)).lookup b = none := by
      simp [List.lookup_cons, beq_eq_false_iff_ne.mpr hb]
    show (Kind.baseSigils ++ [(gettextSigil, Kind.gettext)]).lookup b = Kind.baseSigils.lookup b
    rw [List.lookup_append, hother, Option.or_none]

theorem ofSigil_eq_gettext {withGettext : Bool} {b : UInt8}
    (h : Kind.ofSigil withGettext b = some .gettext) : b = gettextSigil := by
  have hs := sigil_of_ofSigil h
  exact (List.cons.inj hs).1.symm

/-! ## Segments -/

/-- A segment that is read without the extension, and the one that is read with it: the same, but for
the sigil that becomes part of the body. -/
inductive Counterpart : Segment → Segment → Prop
  | same (s : Segment) : Counterpart s s
  | gettext (pair : Delimiters) (extent : Extent) (body : Bytes) (closeAt : Nat) :
    Counterpart ⟨pair, extent, .tag .escaped (gettextSigil :: body) closeAt⟩
      ⟨pair, extent, .tag .gettext body closeAt⟩

namespace Counterpart

variable {s s' : Segment} (h : Counterpart s s')

include h

theorem pairAfter_eq : s'.pairAfter = s.pairAfter := by
  cases h <;> rfl

theorem extent_eq : s'.extent = s.extent := by
  cases h <;> rfl

theorem isLineEnd_eq : s.isLineEnd = s'.isLineEnd := by
  cases h <;> rfl

theorem isMark_eq : s.isMark = s'.isMark := by
  cases h <;> rfl

theorem fault?_eq : s.fault? = s'.fault? := by
  cases h <;> rfl

end Counterpart

/-- Where a mark is read whose close delimiter does not start with the sigil of the extension, the mark
read with it is the counterpart, and the same text is left. -/
theorem counterpart_readMark {pair : Delimiters} {pos : Nat} {text : Bytes} (extent : Extent)
    (hp : pair.openMark <+: text) (hclose : pair.closeMark.head? ≠ some gettextSigil) :
    (readMark true pair pos text).2 = (readMark false pair pos text).2 ∧
      Counterpart ⟨pair, extent, (readMark false pair pos text).1⟩
        ⟨pair, extent, (readMark true pair pos text).1⟩ := by
  obtain ⟨inner, rfl⟩ := hp
  by_cases hsigil : inner.head? = some gettextSigil
  · obtain ⟨tail, rfl⟩ := List.head?_eq_some_iff.mp hsigil
    have hoff : (gettextSigil :: tail).head?.bind (Kind.ofSigil false) = none := by
      rw [List.head?_cons, Option.bind_some]
      decide
    have hon : (gettextSigil :: tail).head?.bind (Kind.ofSigil true) = some .gettext := by
      rw [List.head?_cons, Option.bind_some]
      decide
    -- the close delimiter is not at the sigil
    have hnot : ¬ pair.closeMark <+: gettextSigil :: tail := by
      rintro ⟨rest, hrest⟩
      obtain ⟨b, mark, hmark⟩ := List.exists_cons_of_ne_nil pair.close_ne_nil
      rw [hmark] at hrest hclose
      exact hclose (congrArg some (List.cons.inj hrest).1)
    cases hc : cutAt? pair.closeMark tail with
    | none =>
      have hc' : cutAt? pair.closeMark ((gettextSigil :: tail).drop (sigilWidth none)) = none := by
        show cutAt? pair.closeMark (gettextSigil :: tail) = none
        rw [cutAt?_cons hnot, hc]
        rfl
      rw [readMark_openTag pair pos hoff (by simp) hc', readMark_openTag pair pos hon (by simp) hc]
      exact ⟨rfl, .same _⟩
    | some parts =>
      obtain ⟨body, after⟩ := parts
      have hc' : cutAt? pair.closeMark ((gettextSigil :: tail).drop (sigilWidth none)) =
          some (gettextSigil :: body, after) := by
        show cutAt? pair.closeMark (gettextSigil :: tail) = some (gettextSigil :: body, after)
        rw [cutAt?_cons hnot, hc]
        rfl
      have hat : pos + pair.openMark.length + sigilWidth (some .gettext) + body.length =
          pos + pair.openMark.length + sigilWidth none + (gettextSigil :: body).length := by
        simp only [sigilWidth, Option.isSome_some, Option.isSome_none, if_true, if_false,
          Bool.false_eq_true, List.length_cons]
        omega
      rw [readMark_tag pair pos hoff (by simp) hc', readMark_tag pair pos hon (by simp) hc, hat]
      exact ⟨rfl, .gettext _ _ _ _⟩
  · -- any other byte selects the same
    have hsame : inner.head?.bind (Kind.ofSigil true) = inner.head?.bind (Kind.ofSigil false) := by
      cases hb : inner.head? with
      | none => rfl
      | some b =>
        have hne : b ≠ gettextSigil := by
          rintro rfl
          exact hsigil hb
        rw [Option.bind_some, Option.bind_some, ofSigil_true, if_neg hne]
    have hread : readMark true pair pos (pair.openMark ++ inner) =
        readMark false pair pos (pair.openMark ++ inner) := by
      simp only [readMark, List.drop_left, hsame]
    rw [hread]
    exact ⟨rfl, .same _⟩

/-- **The same segments are read with the extension and without it**, if no close delimiter of a mark
starts with its sigil. It is enough to know this of one of the two. -/
theorem forall₂_segments {on : Bool} (pair : Delimiters) (pos : Nat) (text : Bytes)
    (hclose : ∀ m ∈ segments on pair pos text, m.isMark = true →
      m.pair.closeMark.head? ≠ some gettextSigil) :
    List.Forall₂ Counterpart (segments false pair pos text) (segments true pair pos text) := by
  induction hn : text.length using Nat.strongRecOn generalizing pair pos text with
  | ind n ih =>
    subst hn
    cases hb : textByte? pair text with
    | some p =>
      -- a run of text, which knows no sigils
      have hlt := length_readRun_lt (readRun_ne_nil hb)
      have hrun := fun w => segments_run w pos (Prod.ext rfl rfl) (readRun_ne_nil hb)
      rw [hrun] at hclose
      rw [hrun, hrun]
      exact .cons (.same _)
        (ih _ hlt _ _ _ (fun m hm => hclose m (List.mem_cons_of_mem _ hm)) rfl)
    | none =>
      rcases cases_of_textByte?_eq_none hb with rfl | ⟨rest, rfl⟩ | ⟨hp, he⟩
      · rw [segments_nil, segments_nil]
        exact .nil
      · rw [segments_newline] at hclose
        rw [segments_newline, segments_newline]
        exact .cons (.same _)
          (ih _ (Nat.lt_succ_self _) _ _ _ (fun m hm => hclose m (List.mem_cons_of_mem _ hm)) rfl)
      · have hlt := length_readMark_lt false pair pos (ne_nil_of_open hp)
        have hmark := fun w => segments_mark w pos hp he rfl
        rw [hmark] at hclose
        have hhead : pair.closeMark.head? ≠ some gettextSigil :=
          hclose _ List.mem_cons_self (isMark_of_readMark rfl)
        obtain ⟨hrest, hfirst⟩ := counterpart_readMark
          ⟨pos, pos + (text.length - (readMark false pair pos text).2.length)⟩ hp hhead
        -- both go on at the same place, under the same pair
        have hafter := hfirst.pairAfter_eq
        rw [hmark false, hmark true, hrest, hafter]
        refine .cons hfirst (ih _ hlt _ _ _ ?_ rfl)
        intro m hm hmarked
        refine hclose m (List.mem_cons_of_mem _ ?_) hmarked
        cases on with
        | false => exact hm
        | true =>
          rw [hrest, hafter]
          exact hm

/-! ## Tokens -/

/-- A token that is read without the extension, and the one that is read with it. Both stand at the same
place of the text and differ at most in what they are. -/
structure Extended (text : Bytes) (t t' : Token) : Prop where
  extent : t'.extent = t.extent
  index : t'.index = t.index
  value : t'.value = t.value
  indent : t'.indent = t.indent
  openMark : t'.openMark = t.openMark
  closeMark : t'.closeMark = t.closeMark
  /-- A plain interpolation with the sigil of the extension is a translation. -/
  gettext : t.kind = .escaped →
    text[t.extent.start + t.openMark.length]? = some gettextSigil →
      t'.kind = .gettext ∧ (∃ rest, t.name = gettextSigil :: rest ∧ Strips rest t'.name) ∧
        t'.args = none
  /-- One whose name is the keyword and more is a plural form. -/
  ngettext : t.kind = .escaped → ∀ b more, t.name = Kind.ngettextKeyword ++ b :: more →
    isBlank b = true → t'.kind = .ngettext ∧ ∃ inner args, Strips (b :: more) inner ∧
      Splits inner t'.name args ∧ t'.args = some args
  /-- Everything else is read as without the extension. -/
  same : ¬ (t.kind = .escaped ∧ (text[t.extent.start + t.openMark.length]? = some gettextSigil ∨
      IsPlural t.name)) →
    t'.kind = t.kind ∧ t'.name = t.name ∧ t'.args = t.args

namespace Extended

variable {text : Bytes} {t t' : Token}

/-- A token that stays the same, because it is no plain interpolation or none of the two forms. -/
theorem refl_of (h : t.kind = .escaped →
    text[t.extent.start + t.openMark.length]? ≠ some gettextSigil ∧ ¬ IsPlural t.name) :
    Extended text t t where
  extent := rfl
  index := rfl
  value := rfl
  indent := rfl
  openMark := rfl
  closeMark := rfl
  gettext := fun hk hb => absurd hb (h hk).1
  ngettext := fun hk b more hname hblank => absurd ⟨b, more, hname, hblank⟩ (h hk).2
  same := fun _ => ⟨rfl, rfl, rfl⟩

/-- Only a plain interpolation changes its kind, to one of the two that the extension adds. -/
theorem cases_kind (h : Extended text t t') :
    t'.kind = t.kind ∨ (t.kind = .escaped ∧ (t'.kind = .gettext ∨ t'.kind = .ngettext)) := by
  by_cases hk : t.kind = .escaped ∧ (text[t.extent.start + t.openMark.length]? = some gettextSigil ∨
      IsPlural t.name)
  · obtain ⟨hk, hb | ⟨b, more, hname, hblank⟩⟩ := hk
    · exact .inr ⟨hk, .inl (h.gettext hk hb).1⟩
    · exact .inr ⟨hk, .inr (h.ngettext hk b more hname hblank).1⟩
  · exact .inl (h.same hk).1

theorem isText_eq (h : Extended text t t') : t'.isText = t.isText := by
  rcases h.cases_kind with hk | ⟨hk, hk' | hk'⟩ <;> simp [Token.isText, *]

theorem isPartial_eq (h : Extended text t t') : t'.isPartial = t.isPartial := by
  rcases h.cases_kind with hk | ⟨hk, hk' | hk'⟩ <;> simp [Token.isPartial, Kind.isPartial, *]

/-- Both may get the same indent. -/
theorem withIndent (h : Extended text t t') (before : Option Bytes) :
    Extended text (Line.withIndent before t) (Line.withIndent before t') := by
  unfold Line.withIndent
  cases before with
  | none => exact h
  | some indent =>
    dsimp only
    rw [h.isPartial_eq]
    split
    · exact { h with indent := rfl }
    · exact h

end Extended

theorem isBlank_gettextSigil : isBlank gettextSigil = false := by decide

/-- Trimming a text that starts with the sigil and trimming what follows it give the same core. -/
theorem exists_trim_gettextSigil (body : Bytes) :
    ∃ rest, trim (gettextSigil :: body) = gettextSigil :: rest ∧ Strips rest (trim body) := by
  obtain ⟨⟨hstart, -⟩, left, right, htext, hleft, hright⟩ := strips_trim (gettextSigil :: body)
  -- no blank is dropped in front of the sigil
  cases left with
  | cons b left =>
    obtain ⟨rfl, -⟩ := List.cons.inj htext
    rw [allBlank, List.all_cons, isBlank_gettextSigil] at hleft
    cases hleft
  | nil =>
    cases hcore : trim (gettextSigil :: body) with
    | nil =>
      exact absurd hcore (trim_ne_nil List.mem_cons_self isBlank_gettextSigil)
    | cons b rest =>
      rw [hcore] at htext
      obtain ⟨rfl, hbody⟩ := List.cons.inj htext
      refine ⟨rest, rfl, ?_⟩
      -- what is dropped at the end of the body is dropped at the end of the rest, too
      obtain ⟨htrimmed, l, r, hrest, hl, hr⟩ := strips_trim rest
      have hstrips : Strips body (trim rest) := by
        refine ⟨htrimmed, l, r ++ right, ?_, hl, ?_⟩
        · rw [← List.append_assoc, ← hrest]
          exact hbody
        · rw [allBlank, List.all_append, Bool.and_eq_true]
          exact ⟨hr, hright⟩
      rw [← strips_iff.mp hstrips]
      exact strips_trim rest

/-- A text that starts with the sigil is no plural form. -/
theorem not_isPlural_gettextSigil (rest : Bytes) : ¬ IsPlural (gettextSigil :: rest) := by
  rintro ⟨b, more, h, -⟩
  have hne : (0x6E : UInt8) ≠ gettextSigil := by decide
  exact hne (List.cons.inj h).1.symm

/-- The byte after an open delimiter, where the place of the delimiter is known. -/
theorem getElem?_after {before mark tail : Bytes} {start : Nat} (hstart : start = before.length) :
    (before ++ mark ++ tail)[start + mark.length]? = tail.head? := by
  rw [hstart, ← List.length_append, List.getElem?_append_right (Nat.le_refl _), Nat.sub_self,
    List.head?_eq_getElem?]

/-- The sigil of the extension stands after the open delimiter of the tags that it selects. -/
theorem getElem?_eq_gettextSigil_iff {text : Bytes} {s : Segment} {kind : Kind} {body : Bytes}
    {closeAt : Nat} (hread : ReadAt true 0 text s) (hp : s.piece = .tag kind body closeAt) :
    text[s.extent.start + s.pair.openMark.length]? = some gettextSigil ↔ kind = .gettext := by
  obtain ⟨before, sigil, tail, after, hsigil, htext, -, hstart, -⟩ := hread.tag hp
  rw [Nat.zero_add] at hstart
  cases hsigil with
  | @byte _ b _ h =>
    rw [List.append_assoc] at htext
    rw [htext, getElem?_after hstart]
    constructor
    · intro hhead
      obtain rfl : b = gettextSigil := Option.some.inj hhead
      exact (Option.some.inj h).symm
    · rintro rfl
      rw [ofSigil_eq_gettext h]
      rfl
  | none h =>
    rw [List.append_nil] at htext
    rw [htext, getElem?_after hstart]
    refine iff_of_false ?_ (by decide)
    intro hhead
    rw [hhead] at h
    exact absurd h (by decide)

/-- The token of a tag that keeps its name as it is and is not the end of a section. -/
def plainTag (pair : Delimiters) (kind : Kind) (start closeAt : Nat) (name : Bytes)
    (args : Option Bytes) : Token where
  kind := kind
  name := name
  openMark := pair.openMark
  closeMark := pair.closeMark
  index := closeAt + pair.closeMark.length
  args := args
  extent := ⟨start, closeAt + pair.closeMark.length⟩

/-- What a tag is classified as tells its token. -/
theorem token?_of_classify {withGettext : Bool} {s : Segment} {kind read : Kind} {body inner : Bytes}
    {closeAt : Nat} (hp : s.piece = .tag kind body closeAt) (hraw : kind ≠ .unescaped)
    (hread : Tag.classify withGettext kind body = (read, inner)) (hclose : read ≠ .sectionClose) :
    s.token? withGettext = some (plainTag s.pair read s.extent.start closeAt
      (Tag.nameAndArgs read inner).1 (Tag.nameAndArgs read inner).2) := by
  simp [Segment.token?, hp, finish_eq_self hraw, Tag.token, hread, hclose, plainTag]

/-- A tag that is no plain interpolation is classified by its sigil. -/
theorem classify_of_ne_escaped {kind : Kind} (hk : kind ≠ .escaped) (withGettext : Bool)
    (body : Bytes) : Tag.classify withGettext kind body = (kind, trim body) := by
  simp [Tag.classify, hk]

/-- The token of a plain interpolation, read without the extension. -/
theorem token?_escaped {s : Segment} {body : Bytes} {closeAt : Nat}
    (hp : s.piece = .tag .escaped body closeAt) :
    s.token? false = some (plainTag s.pair .escaped s.extent.start closeAt (trim body) none) := by
  have hclassify : Tag.classify false .escaped body = (.escaped, trim body) := by
    simp [Tag.classify]
  exact token?_of_classify hp (by decide) hclassify (by decide)

/-- With the extension, a plain interpolation is a plural form or stays what it is. -/
theorem extended_escaped {text : Bytes} {s : Segment} {body : Bytes} {closeAt : Nat}
    (hread : ReadAt true 0 text s) (hp : s.piece = .tag .escaped body closeAt) :
    ∃ t t', s.token? false = some t ∧ s.token? true = some t' ∧ Extended text t t' := by
  have hbyte : text[s.extent.start + s.pair.openMark.length]? ≠ some gettextSigil :=
    mt (getElem?_eq_gettextSigil_iff hread hp).mp (by decide)
  cases hplural : Tag.afterNgettext? (trim body) with
  | none =>
    -- without the keyword nothing changes
    have hname : ¬ IsPlural (trim body) := by
      rintro ⟨b, more, hname, hblank⟩
      have hsome := afterNgettext?_iff.mpr ⟨b, more, hname, hblank, strips_trim _⟩
      rw [hplural] at hsome
      cases hsome
    have hclassify : Tag.classify true .escaped body = (.escaped, trim body) := by
      simp [Tag.classify, hplural]
    refine ⟨_, _, token?_escaped hp, token?_of_classify hp (by decide) hclassify (by decide), ?_⟩
    exact .refl_of fun _ => ⟨hbyte, hname⟩
  | some inner =>
    obtain ⟨b, more, hname, hblank, hinner⟩ := afterNgettext?_iff.mp hplural
    have hclassify : Tag.classify true .escaped body = (.ngettext, inner) := by
      simp [Tag.classify, hplural]
    refine ⟨_, _, token?_escaped hp, token?_of_classify hp (by decide) hclassify (by decide), ?_⟩
    refine ⟨rfl, rfl, rfl, rfl, rfl, rfl, fun _ hb => absurd hb hbyte, ?_, ?_⟩
    · rintro - b' more' hname' -
      have hcons := List.append_cancel_left (hname.symm.trans hname')
      rw [← hcons]
      exact ⟨rfl, inner, (cutWord inner).2, hinner, splits_cutWord inner, rfl⟩
    · intro hnot
      exact absurd ⟨rfl, .inr ⟨b, more, hname, hblank⟩⟩ hnot

/-- The tokens of counterparts are one the extension of the other, or neither has one. -/
theorem Counterpart.extended {text : Bytes} {s s' : Segment} (h : Counterpart s s')
    (hread : ReadAt true 0 text s') :
    Option.Rel (Extended text) (s.token? false) (s'.token? true) := by
  cases h with
  | same =>
    cases hp : s.piece with
    | tag kind body closeAt =>
      by_cases hk : kind = .escaped
      · subst hk
        obtain ⟨t, t', ht, ht', hext⟩ := extended_escaped hread hp
        rw [ht, ht']
        exact .some hext
      · -- the kinds of other tags do not depend on the extension
        have hclassify := classify_of_ne_escaped hk
        have htoken : s.token? true = s.token? false := by
          simp [Segment.token?, hp, Tag.token, hclassify]
        rw [htoken, Segment.token?, hp]
        refine .some (.refl_of fun he => ?_)
        rw [kind_finish, Tag.token, hclassify] at he
        exact absurd he hk
    | run run =>
      simp only [Segment.token?, hp]
      exact .some (.refl_of fun he => by cases he)
    | lineEnd =>
      simp only [Segment.token?, hp]
      exact .some (.refl_of fun he => by cases he)
    | change spec => simpa only [Segment.token?, hp] using .none
    | openTag => simpa only [Segment.token?, hp] using .none
    | openChange => simpa only [Segment.token?, hp] using .none
  | gettext pair extent body closeAt =>
    obtain ⟨rest, hname, hrest⟩ := exists_trim_gettextSigil body
    have htranslation := token?_of_classify (s := ⟨pair, extent, .tag .gettext body closeAt⟩) rfl
      (by decide) (classify_of_ne_escaped (by decide) true body) (by decide)
    rw [token?_escaped rfl, htranslation, hname]
    refine .some ⟨rfl, rfl, rfl, rfl, rfl, rfl, fun _ _ => ⟨rfl, ⟨rest, rfl, hrest⟩, rfl⟩, ?_, ?_⟩
    · rintro - b more hplural hblank
      exact absurd ⟨b, more, hplural, hblank⟩ (not_isPlural_gettextSigil rest)
    · intro hnot
      exact absurd ⟨rfl, .inl ((getElem?_eq_gettextSigil_iff hread rfl).mpr rfl)⟩ hnot

/-! ## Lines -/

section lines

variable {text : Bytes} {line line' : List Segment} {tokens tokens' : List Token}

/-- A counterpart that is read in the text. -/
def ReadCounterpart (text : Bytes) (s s' : Segment) : Prop :=
  Counterpart s s' ∧ ReadAt true 0 text s'

/-- Where both lists end lines at the same places, they have the same lines. -/
theorem forall₂_cutAfter {α β : Type} {R : α → β → Prop} {ends : α → Bool} {ends' : β → Bool}
    {list : List α} {list' : List β} (hends : ∀ a b, R a b → ends a = ends' b)
    (h : List.Forall₂ R list list') :
    List.Forall₂ (List.Forall₂ R) (cutAfter ends list) (cutAfter ends' list') := by
  induction h with
  | nil => exact .nil
  | @cons a b rest rest' hab hrest ih =>
    cases hb : ends' b with
    | true =>
      simp only [cutAfter, hends a b hab, hb, if_true]
      exact .cons (.cons hab .nil) ih
    | false =>
      -- both join the first line of what follows
      rw [cutAfter_cons_of_not ((hends a b hab).trans hb), cutAfter_cons_of_not hb]
      generalize cutAfter ends rest = group, cutAfter ends' rest' = group' at ih
      cases ih with
      | nil => exact .cons (.cons hab .nil) .nil
      | cons hfirst hothers => exact .cons (.cons hab hfirst) hothers

theorem forall₂_filterMap (h : List.Forall₂ (ReadCounterpart text) line line') :
    List.Forall₂ (Extended text) (line.filterMap (Segment.token? false))
      (line'.filterMap (Segment.token? true)) :=
  List.rel_filterMap (fun _ _ hs => hs.1.extended hs.2) h

/-- Tags keep the same indents. -/
theorem forall₂_keepTags (h : List.Forall₂ (Extended text) tokens tokens') (before : Option Bytes) :
    List.Forall₂ (Extended text) (Line.keepTags before tokens) (Line.keepTags before tokens') := by
  induction h generalizing before with
  | nil => exact .nil
  | @cons t t' rest rest' ht hrest ih =>
    simp only [Line.keepTags, ht.isText_eq, ht.value]
    split
    · exact ih _
    · exact .cons (ht.withIndent before) (ih _)

/-- A plain interpolation shows as much as what the extension makes of it. -/
theorem Extended.isInterpolating_eq {t t' : Token} (h : Extended text t t') :
    t'.kind.isInterpolating = t.kind.isInterpolating := by
  rw [Bool.eq_iff_iff, Kind.isInterpolating_iff, Kind.isInterpolating_iff]
  rcases h.cases_kind with hk | ⟨hk, hk' | hk'⟩ <;> simp [*]

theorem isInvisible_eq (h : List.Forall₂ (Extended text) tokens tokens') :
    Line.isInvisible tokens' = Line.isInvisible tokens := by
  unfold Line.isInvisible
  induction h with
  | nil => rfl
  | cons ht _ ih =>
    simp only [List.all_cons, ht.isText_eq, ht.value, ht.isInterpolating_eq]
    rw [ih]

theorem any_isMark_eq (h : List.Forall₂ (ReadCounterpart text) line line') :
    line'.any Segment.isMark = line.any Segment.isMark := by
  induction h with
  | nil => rfl
  | cons hs _ ih => rw [List.any_cons, List.any_cons, ih, hs.1.isMark_eq]

/-- A line is standalone with the extension exactly if it is without it. -/
theorem isStandalone_eq (h : List.Forall₂ (ReadCounterpart text) line line') :
    isStandalone true line' = isStandalone false line := by
  rw [isStandalone, isStandalone, any_isMark_eq h, ← isInvisible_filterMap_token?,
    ← isInvisible_filterMap_token?, isInvisible_eq (forall₂_filterMap h)]

theorem forall₂_lineTokens (h : List.Forall₂ (ReadCounterpart text) line line') :
    List.Forall₂ (Extended text) (lineTokens false line) (lineTokens true line') := by
  simp only [lineTokens, isStandalone_eq h, keptTags_eq_keepTags]
  split
  · exact forall₂_keepTags (forall₂_filterMap h) none
  · exact forall₂_filterMap h

end lines

/-! ## The whole scan -/

section scan

variable {text : Bytes} {given : Option Bytes}

theorem forall₂_tokens (h : List.Forall₂ Counterpart (outline false text given)
    (outline true text given)) :
    List.Forall₂ (Extended text) (tokens false text given) (tokens true text given) := by
  have hread : List.Forall₂ (ReadCounterpart text) (outline false text given)
      (outline true text given) := by
    rw [List.forall₂_iff_get] at h ⊢
    exact ⟨h.1, fun i hi hi' =>
      ⟨h.2 i hi hi', readAt_of_mem_segments _ (List.get_mem _ _)⟩⟩
  have hlines : List.Forall₂ (List.Forall₂ (ReadCounterpart text))
      (lines (outline false text given)) (lines (outline true text given)) :=
    forall₂_cutAfter (fun _ _ hs => hs.1.isLineEnd_eq) hread
  exact List.rel_flatMap hlines fun _ _ hline => forall₂_lineTokens hline

theorem filterMap_fault?_eq {segs segs' : List Segment} (h : List.Forall₂ Counterpart segs segs') :
    segs'.filterMap Segment.fault? = segs.filterMap Segment.fault? := by
  induction h with
  | nil => rfl
  | cons hs _ ih => rw [List.filterMap_cons, List.filterMap_cons, ih, hs.fault?_eq]

/-- **The gettext extension is conservative.** Where no close delimiter in force starts with its sigil,
the scans with it and without it give the same faults, and their tokens agree one by one but for plain
interpolations with the sigil or the keyword. -/
theorem scan_gettext {source : Source} {on : Bool}
    (hclose : ∀ s, Reachable on source.text given s → s.mode = .sniff →
      s.pair.closeMark.head? ≠ some gettextSigil) :
    spannedFaults true source given = spannedFaults false source given ∧
      List.Forall₂ (fun p q => q.2 = p.2 ∧ Extended source.text p.1 q.1)
        (spannedTokens false source given) (spannedTokens true source given) := by
  have hmarks : ∀ m ∈ segments on (startPair given) 0 source.text, m.isMark = true →
      m.pair.closeMark.head? ≠ some gettextSigil := by
    intro m hm hmark
    obtain ⟨s, h, hsniff, rfl⟩ := exists_reachable_iff.mpr ⟨hm, hmark⟩
    exact hclose s h hsniff
  have hsegs : List.Forall₂ Counterpart (outline false source.text given)
      (outline true source.text given) := forall₂_segments _ _ _ hmarks
  constructor
  · rw [spannedFaults, spannedFaults, faults_scan, faults_scan, faults, faults,
      filterMap_fault?_eq hsegs]
  · rw [spannedTokens, spannedTokens, tokens_scan, tokens_scan, List.forall₂_map_left_iff,
      List.forall₂_map_right_iff]
    refine (forall₂_tokens hsegs).imp fun t t' h => ⟨?_, h⟩
    rw [h.extent]

end scan

/-- A translation, a plural form, and a name that only starts like one. -/
def translatedSource : Source :=
  .ofText [] (ascii "\x7b\x7b_ hi \x7d\x7d\x7b\x7bngettext  item  items\x7d\x7d\x7b\x7bngettextual\x7d\x7d")

/-- All marks are closed by braces. With the extension the first two tags change their kinds, and what
they hold is split in another way. -/
theorem scan_gettext_translatedSource :
    (∀ m ∈ outline false translatedSource.text none,
        m.pair.closeMark.head? ≠ some gettextSigil) ∧
      (spannedTokens false translatedSource none).map (fun p => (p.1.kind, p.1.name)) =
        [(.escaped, ascii "_ hi"), (.escaped, ascii "ngettext  item  items"),
          (.escaped, ascii "ngettextual")] ∧
      (spannedTokens true translatedSource none).map (fun p => (p.1.kind, p.1.name, p.1.args)) =
        [(.gettext, ascii "hi", none), (.ngettext, ascii "item", some (ascii "items")),
          (.escaped, ascii "ngettextual", none)] ∧
      spannedFaults true translatedSource none = spannedFaults false translatedSource none ∧
      List.Forall₂ (fun p q => q.2 = p.2 ∧ Extended translatedSource.text p.1 q.1)
        (spannedTokens false translatedSource none) (spannedTokens true translatedSource none) := by
  have hmarks : ∀ m ∈ outline false translatedSource.text none,
      m.pair.closeMark.head? ≠ some gettextSigil := by decide +kernel
  have hclose : ∀ s, Reachable false translatedSource.text none s → s.mode = .sniff →
      s.pair.closeMark.head? ≠ some gettextSigil :=
    fun s h hsniff => hmarks _ (exists_reachable_iff.mp ⟨s, h, hsniff, rfl⟩).1
  exact ⟨hmarks, by decide +kernel, by decide +kernel, scan_gettext hclose⟩

end TemplateLexer.Outline
