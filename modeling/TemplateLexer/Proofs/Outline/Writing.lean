import TemplateLexer.Proofs.Bytes.Search
import TemplateLexer.Proofs.Bytes.Blank
import TemplateLexer.Proofs.Outline.Basic
import TemplateLexer.Token.Rebuild

/-!
# Writing what is to be read

An *item* is a segment that is still to be written: it has no place yet. `write` writes items one
after the other under the pairs they put in force, and `layout` gives the segments they are meant to
become.

Not every list of items is read back. An item has to be whole, that is, the mark that ends it must
not occur earlier, and a run of text must neither touch another run nor end in a backslash that
escapes the mark after it (`Item.Readable`). Under these conditions reading undoes writing
(`segments_write`).
-/

namespace TemplateLexer.Outline

open Bytes Scan

/-- What is to be written next. -/
inductive Item where
  /-- A run of text, without its escapes. -/
  | run (text : Bytes)
  /-- A newline outside tags. -/
  | lineEnd
  /-- A tag with the kind that its sigil selects, and what stands between its sigil and its close
  delimiter. -/
  | tag (kind : Kind) (body : Bytes)
  /-- A change to other delimiters. -/
  | change (pair : Delimiters)
  deriving DecidableEq

/-- The brace that a tag takes past its close delimiter. -/
def brace (pair : Delimiters) (kind : Kind) : Bytes :=
  if Tag.absorbsBrace pair kind then [closeBrace] else []

namespace Item

/-- The pair in force after the item. -/
def pairAfter (pair : Delimiters) : Item → Delimiters
  | change other => other
  | _ => pair

/-- The text of the item under a pair. -/
def render (pair : Delimiters) : Item → Bytes
  | run text => Token.escapeText pair.openMark text
  | lineEnd => [newline]
  | tag kind body =>
    pair.openMark ++ kind.sigil ++ body ++ pair.closeMark ++ brace pair kind
  | change other => pair.openMark ++ equalsSign :: other.render ++ pair.changeMark

/-- The piece that the item is meant to become at offset `pos`. -/
def piece (pair : Delimiters) (pos : Nat) : Item → Piece
  | run text => .run text
  | lineEnd => .lineEnd
  | tag kind body =>
    .tag kind body (pos + pair.openMark.length + kind.sigil.length + body.length)
  | change other => .change other.render

/-- The segment that the item is meant to become at offset `pos`. -/
def segment (pair : Delimiters) (pos : Nat) (i : Item) : Segment :=
  ⟨pair, ⟨pos, pos + (i.render pair).length⟩, i.piece pair pos⟩

/-- Does the item start with an open delimiter? -/
def isMark : Item → Bool
  | tag _ _ | change _ => true
  | _ => false

/-- Is the item a run of text? -/
def isRun : Item → Bool
  | run _ => true
  | _ => false

end Item

/-- The text of some items. -/
def write (pair : Delimiters) : List Item → Bytes
  | [] => []
  | i :: rest => i.render pair ++ write (i.pairAfter pair) rest

/-- The segments that some items are meant to become, from offset `pos` on. -/
def layout (pair : Delimiters) (pos : Nat) : List Item → List Segment
  | [] => []
  | i :: rest =>
    i.segment pair pos :: layout (i.pairAfter pair) (pos + (i.render pair).length) rest

/-! ## What can be read back -/

/-- Does the sigil of the kind select it, right in front of the body? A plain interpolation has no
sigil, so its body must not start with one. -/
def Selects (withGettext : Bool) (kind : Kind) (body : Bytes) : Prop :=
  kind.sigil ++ body ≠ [] ∧ kind ≠ .delimiterChange ∧
    (kind.sigil ++ body).head?.bind (Kind.ofSigil withGettext) =
      if kind = .escaped then none else some kind

namespace Item

/-- The item is read to its end and not further, whatever follows a mark. -/
def Whole (withGettext : Bool) (pair : Delimiters) : Item → Prop
  | run text => text ≠ [] ∧ newline ∉ text
  | lineEnd => True
  | tag kind body =>
    Selects withGettext kind body ∧ escapedByte? pair (render pair (tag kind body)) = none ∧
      find? pair.closeMark (body ++ pair.closeMark) = some body.length
  | change other =>
    escapedByte? pair (render pair (change other)) = none ∧
      find? pair.changeMark (other.render ++ pair.changeMark) = some other.render.length

/-- The item may stand right after a run of text: it is no run itself, and no backslash at the end of
the text escapes it. If the open delimiter starts with a backslash itself, the text has no single
backslash. -/
def MayFollow (pair : Delimiters) (text : Bytes) (next : Item) : Prop :=
  next.isRun = false ∧
    (text.getLast? = some backslash → pair.openMark.head? ≠ some backslash → next.isMark = false)

/-- Each item is whole, and each that follows a run may do so. -/
def Readable (withGettext : Bool) (pair : Delimiters) : List Item → Prop
  | [] => True
  | i :: rest =>
    i.Whole withGettext pair ∧
      (∀ text, i = run text → ∀ next ∈ rest.head?, MayFollow pair text next) ∧
      Readable withGettext (i.pairAfter pair) rest

/-! ## Reading runs -/

/-- The byte after an open delimiter is not looked at unless the delimiter is a single byte. -/
theorem escapedByte?_append {pair : Delimiters} {text : Bytes} (h : 2 ≤ text.length)
    (more : Bytes) : escapedByte? pair (text ++ more) = escapedByte? pair text := by
  match text, h with
  | b :: c :: rest, _ => rfl

theorem two_le_length_render {pair : Delimiters} {i : Item} (h : i.isMark = true) :
    2 ≤ (i.render pair).length := by
  have ho := pair.open_length_pos
  have hc := pair.close_length_pos
  cases i with
  | run text => cases h
  | lineEnd => cases h
  | tag kind body =>
    simp only [render, List.length_append]
    omega
  | change other =>
    simp only [render, Delimiters.changeMark, List.length_append, List.length_cons]
    omega

theorem open_startsWith_render {pair : Delimiters} {i : Item} (h : i.isMark = true) :
    pair.openMark <+: i.render pair := by
  cases i with
  | run text => cases h
  | lineEnd => cases h
  | tag kind body => simp [render, List.append_assoc]
  | change other => simp [render, List.append_assoc]

theorem escapedByte?_render {withGettext : Bool} {pair : Delimiters} {i : Item}
    (h : i.isMark = true) (hw : i.Whole withGettext pair) :
    escapedByte? pair (i.render pair) = none := by
  cases i with
  | run text => cases h
  | lineEnd => cases h
  | tag kind body => exact hw.2.1
  | change other => exact hw.1

/-- An item that is no run does not start with a literal byte. -/
theorem textByte?_render {withGettext : Bool} {pair : Delimiters} {i : Item}
    (h : i.isRun = false) (hw : i.Whole withGettext pair) (more : Bytes) :
    textByte? pair (i.render pair ++ more) = none := by
  by_cases hm : i.isMark = true
  · apply textByte?_eq_none_of_open
    · exact (open_startsWith_render hm).trans (List.prefix_append _ _)
    · rw [escapedByte?_append (two_le_length_render hm), escapedByte?_render hm hw]
  · cases i with
    | run text => cases h
    | lineEnd => exact textByte?_newline pair more
    | tag kind body => exact absurd rfl hm
    | change other => exact absurd rfl hm

end Item

/-- The first byte of a literal text is read, if a backslash is not taken for an escape. -/
theorem textByte?_cons {pair : Delimiters} {b : UInt8} {tail : Bytes}
    (ho : pair.openMark.head? ≠ some b) (hn : b ≠ newline)
    (he : b = backslash → pair.openMark.head? ≠ tail.head?) :
    textByte? pair (b :: tail) = some (b, tail) := by
  have hesc : escapedByte? pair (b :: tail) = none := by
    cases tail with
    | nil => rfl
    | cons c rest =>
      have hc : ¬ (b = backslash ∧ pair.openMark.head? = some c) := by
        rintro ⟨hb, hc⟩
        exact he hb (by simpa using hc)
      simp only [escapedByte?, if_neg hc]
  have hp : ¬ pair.openMark.isPrefixOf (b :: tail) = true := by
    intro hp
    obtain ⟨o, rest, hor⟩ := List.exists_cons_of_ne_nil pair.open_ne_nil
    rw [hor] at hp ho
    simp at hp ho
    exact ho hp.1
  unfold textByte?
  rw [hesc]
  simp [hp, hn]

/-- An escaped byte is read as the byte. -/
theorem textByte?_escaped {pair : Delimiters} {b : UInt8} (tail : Bytes)
    (ho : pair.openMark.head? = some b) :
    textByte? pair (backslash :: b :: tail) = some (b, tail) := by
  have hesc : escapedByte? pair (backslash :: b :: tail) = some b := by
    simp [escapedByte?, ho]
  unfold textByte?
  rw [hesc]
  rfl

/-- The escaped text of a run is read to its end, as the run. -/
theorem readRun_escapeText {pair : Delimiters} {text tail : Bytes} (hn : newline ∉ text)
    (ht : textByte? pair tail = none)
    (hl : text.getLast? = some backslash → pair.openMark.head? ≠ some backslash →
      pair.openMark.head? ≠ tail.head?) :
    readRun pair (Token.escapeText pair.openMark text ++ tail) = (text, tail) := by
  induction text with
  | nil => exact readRun_of_none ht
  | cons b text ih =>
    have hn' : newline ∉ text := fun h => hn (List.mem_cons_of_mem _ h)
    have hb : b ≠ newline := by
      rintro rfl
      exact hn List.mem_cons_self
    have hl' : text.getLast? = some backslash → pair.openMark.head? ≠ some backslash →
        pair.openMark.head? ≠ tail.head? := by
      intro h
      apply hl
      rw [List.getLast?_cons, h]
      rfl
    have hrec := ih hn' hl'
    by_cases ho : pair.openMark.head? = some b
    · -- the byte was escaped
      have he : Token.escapeText pair.openMark (b :: text) ++ tail =
          backslash :: b :: (Token.escapeText pair.openMark text ++ tail) := by
        simp [Token.escapeText, ho]
      rw [he, readRun_of_some (textByte?_escaped _ ho), hrec]
    · have he : Token.escapeText pair.openMark (b :: text) ++ tail =
          b :: (Token.escapeText pair.openMark text ++ tail) := by
        simp [Token.escapeText, ho]
      -- it was not, and if it is a backslash it escapes nothing
      have hnext : b = backslash →
          pair.openMark.head? ≠ (Token.escapeText pair.openMark text ++ tail).head? := by
        rintro rfl
        cases text with
        | nil => exact hl rfl ho
        | cons c rest =>
          -- the next byte is not the first of the open delimiter, or it is escaped
          by_cases hc : pair.openMark.head? = some c
          · simpa [Token.escapeText, hc] using ho
          · simp [Token.escapeText, hc]
      rw [he, readRun_of_some (textByte?_cons ho hb hnext), hrec]

theorem newline_not_mem_open (pair : Delimiters) : newline ∉ pair.openMark := by
  intro h
  exact absurd (pair.open_blankFree newline h) (by decide)

/-! ## Reading marks -/

/-- The sigil that selects a kind is the one written for it. -/
theorem sigil_of_ofSigil {withGettext : Bool} {b : UInt8} {kind : Kind}
    (h : Kind.ofSigil withGettext b = some kind) : kind.sigil = [b] := by
  obtain ⟨before, after, ht, -⟩ := List.lookup_eq_some_iff.mp h
  have hm : (b, kind) ∈ Kind.sigilTable withGettext := by simp [ht]
  have hall : ∀ on, ∀ entry ∈ Kind.sigilTable on, entry.2.sigil = [entry.1] := by decide
  exact hall withGettext _ hm

/-- A selected kind has the sigil that is read for it. -/
theorem exists_sigil_of_selects {withGettext : Bool} {kind : Kind} {body : Bytes}
    (h : Selects withGettext kind body) (more : Bytes) :
    ∃ sigil : Option Kind,
      (kind.sigil ++ body ++ more).head?.bind (Kind.ofSigil withGettext) = sigil ∧
      sigil ≠ some .delimiterChange ∧ sigil.getD .escaped = kind ∧
      sigilWidth sigil = kind.sigil.length := by
  obtain ⟨hne, hk, hs⟩ := h
  have hhead : (kind.sigil ++ body ++ more).head? = (kind.sigil ++ body).head? := by
    obtain ⟨b, tail, hb⟩ := List.exists_cons_of_ne_nil hne
    simp [hb]
  rw [hhead, hs]
  refine ⟨_, rfl, ?_⟩
  by_cases he : kind = .escaped
  · subst he
    simp [sigilWidth, Kind.sigil]
  · rw [if_neg he] at hs ⊢
    obtain ⟨b, -, hb⟩ := Option.bind_eq_some_iff.mp hs
    have hsigil := sigil_of_ofSigil hb
    refine ⟨by simpa using hk, rfl, ?_⟩
    simp [sigilWidth, hsigil]

theorem drop_sigilWidth {kind : Kind} {sigil : Option Kind} (h : sigilWidth sigil = kind.sigil.length)
    (body more : Bytes) : (kind.sigil ++ body ++ more).drop (sigilWidth sigil) = body ++ more := by
  rw [h, List.append_assoc, List.drop_left]

theorem render_tag_append (pair : Delimiters) (kind : Kind) (body tail : Bytes) :
    (Item.tag kind body).render pair ++ tail = pair.openMark ++
      (kind.sigil ++ body ++ (pair.closeMark ++ (brace pair kind ++ tail))) := by
  simp [Item.render, List.append_assoc]

/-- A tag is read to its end. -/
theorem readMark_render_tag {withGettext : Bool} {pair : Delimiters} (pos : Nat) {kind : Kind}
    {body : Bytes} (hs : Selects withGettext kind body)
    (hf : find? pair.closeMark (body ++ pair.closeMark) = some body.length) (tail : Bytes) :
    readMark withGettext pair pos ((Item.tag kind body).render pair ++ tail) =
      ((Item.tag kind body).piece pair pos, tail) := by
  obtain ⟨sigil, hk, hne, hkind, hwidth⟩ :=
    exists_sigil_of_selects hs (pair.closeMark ++ (brace pair kind ++ tail))
  have hinner := drop_sigilWidth hwidth body (pair.closeMark ++ (brace pair kind ++ tail))
  rw [← List.append_assoc body] at hinner
  have hc := cutAt?_eq_some_iff.mpr ⟨hinner, hf⟩
  rw [render_tag_append, readMark_tag pair pos hk hne hc, hkind, hwidth]
  congr 1
  unfold brace
  split <;> rfl

/-- A delimiter change is read to its end. -/
theorem readMark_render_change (withGettext : Bool) {pair : Delimiters} (pos : Nat)
    {other : Delimiters}
    (hf : find? pair.changeMark (other.render ++ pair.changeMark) = some other.render.length)
    (tail : Bytes) :
    readMark withGettext pair pos ((Item.change other).render pair ++ tail) =
      (.change other.render, tail) := by
  have hk : Kind.ofSigil withGettext equalsSign = some .delimiterChange := by
    revert withGettext
    decide
  have hc := cutAt?_eq_some_iff.mpr
    ⟨rfl (a := other.render ++ pair.changeMark ++ tail), hf⟩
  have htext : (Item.change other).render pair ++ tail =
      pair.openMark ++ equalsSign :: (other.render ++ pair.changeMark ++ tail) := by
    simp [Item.render, List.append_assoc]
  rw [htext, readMark_change pair pos hk hc]

/-- The mark at the front of a text is its first segment. -/
theorem segments_render_mark {withGettext : Bool} {pair : Delimiters} (pos : Nat) {i : Item}
    (h : i.isMark = true) (hw : i.Whole withGettext pair) (tail : Bytes) :
    segments withGettext pair pos (i.render pair ++ tail) =
      i.segment pair pos ::
        segments withGettext (i.pairAfter pair) (pos + (i.render pair).length) tail := by
  have hread : readMark withGettext pair pos (i.render pair ++ tail) = (i.piece pair pos, tail) := by
    cases i with
    | run text => cases h
    | lineEnd => cases h
    | tag kind body => exact readMark_render_tag pos hw.1 hw.2.2 tail
    | change other => exact readMark_render_change withGettext pos hw.2 tail
  have hpair : (i.segment pair pos).pairAfter = i.pairAfter pair := by
    cases i with
    | run text => cases h
    | lineEnd => cases h
    | tag kind body => rfl
    | change other =>
      simp [Item.segment, Item.piece, Segment.pairAfter, Item.pairAfter, Except.toOption]
  have hp := (Item.open_startsWith_render h).trans (List.prefix_append (i.render pair) tail)
  have he : escapedByte? pair (i.render pair ++ tail) = none := by
    rw [Item.escapedByte?_append (Item.two_le_length_render h), Item.escapedByte?_render h hw]
  rw [segments_mark withGettext pos hp he (s := i.segment pair pos)]
  · rw [hpair, hread]
    rfl
  · rw [hread]
    simp [Item.segment]

/-! ## Reading undoes writing -/

/-- What follows a run ends it. -/
theorem textByte?_write {withGettext : Bool} {pair : Delimiters} {text : Bytes} {items : List Item}
    (h : Item.Readable withGettext pair items)
    (hf : ∀ next ∈ items.head?, Item.MayFollow pair text next) :
    textByte? pair (write pair items) = none := by
  cases items with
  | nil => simp [write, textByte?, escapedByte?]
  | cons i rest => exact Item.textByte?_render (hf i rfl).1 h.1 _

theorem head?_write_ne_open {withGettext : Bool} {pair : Delimiters} {text : Bytes}
    {items : List Item} (h : Item.Readable withGettext pair items)
    (hf : ∀ next ∈ items.head?, Item.MayFollow pair text next)
    (hb : text.getLast? = some backslash) (ho : pair.openMark.head? ≠ some backslash) :
    pair.openMark.head? ≠ (write pair items).head? := by
  obtain ⟨b, mark, hm⟩ := List.exists_cons_of_ne_nil pair.open_ne_nil
  cases items with
  | nil => simp [write, hm]
  | cons i rest =>
    obtain ⟨hrun, hmark⟩ := hf i rfl
    have hmark := hmark hb ho
    cases i with
    | run text => cases hrun
    | lineEnd =>
      -- no open delimiter starts with a newline
      have hn := newline_not_mem_open pair
      rw [hm] at hn ⊢
      simp only [write, Item.render, List.head?_cons, List.cons_append, ne_eq, Option.some.injEq]
      rintro rfl
      exact hn List.mem_cons_self
    | tag kind body => cases hmark
    | change other => cases hmark

/-- **Reading undoes writing.** The segments of the text of readable items are those the items were
meant to become, each at the place where it was written. -/
theorem segments_write {withGettext : Bool} {pair : Delimiters} {items : List Item}
    (h : Item.Readable withGettext pair items) (pos : Nat) :
    segments withGettext pair pos (write pair items) = layout pair pos items := by
  induction items generalizing pair pos with
  | nil => exact segments_nil withGettext pair pos
  | cons i rest ih =>
    obtain ⟨hw, hf, hr⟩ := h
    simp only [write, layout]
    rw [← ih hr]
    cases i with
    | run text =>
      -- the run is read up to what is written next
      change Item.Readable withGettext pair rest at hr
      have hfollow := hf text rfl
      have hread := readRun_escapeText hw.2 (textByte?_write hr hfollow)
        (head?_write_ne_open hr hfollow)
      have hlen : (Token.escapeText pair.openMark text ++ write pair rest).length
          - (write pair rest).length = ((Item.run text).render pair).length := by
        simp [Item.render]
      have hs := segments_run withGettext pos hread hw.1
      rw [hlen] at hs
      exact hs
    | lineEnd => exact segments_newline withGettext pair pos _
    | tag kind body => exact segments_render_mark pos rfl hw _
    | change other => exact segments_render_mark pos rfl hw _

end TemplateLexer.Outline
