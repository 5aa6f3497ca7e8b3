import Mathlib.Data.List.SplitBy
import TemplateLexer.Proofs.Outline.Composition
import TemplateLexer.Proofs.Rebuild.Reread

/-!
# Escaped text is text

Any text can be put into a template literally: each byte of it that could start a tag gets a backslash
in front. A backslash of the text is written as it is, so it may meet the first byte of an open
delimiter, an inserted backslash, or a delimiter that starts with a backslash itself.

* `Pieces`: the pieces that a scan is to find in the text, each newline on its own and each longest
  stretch without newlines. Every text has exactly one list of pieces (`pieces_iff`);
* `write_pieces`, `readable_pieces`: the escaped text is what is written for its pieces, and they can
  be read back, as no two stretches touch;
* `tokens_of_unmarked`: without an open delimiter no line is standalone, so none loses its texts.

Under every pair, the escaped text is scanned to its pieces and nothing else
(`literal_escapeText`).
-/

namespace TemplateLexer.Rebuild

open Bytes Outline Scan

/-! ## Pieces of a text -/

/-- The pieces of a text: each newline is one of them, and so is each longest stretch without
newlines. -/
structure Pieces (text : Bytes) (pieces : List Bytes) : Prop where
  /-- One after the other, they are the text. -/
  whole : pieces.flatten = text
  /-- Each is a newline or a stretch without newlines. -/
  each : ∀ p ∈ pieces, p = [newline] ∨ (p ≠ [] ∧ newline ∉ p)
  /-- No two stretches touch. -/
  longest : pieces.IsChain fun p q => p = [newline] ∨ q = [newline]

/-- Do two bytes that stand side by side belong to one piece? -/
def joins (a b : UInt8) : Bool := a ≠ newline && b ≠ newline

theorem joins_iff {a b : UInt8} : joins a b = true ↔ a ≠ newline ∧ b ≠ newline := by
  simp [joins]

theorem joins_eq_false_iff {a b : UInt8} : joins a b = false ↔ a = newline ∨ b = newline := by
  rw [← Bool.not_eq_true, joins_iff]
  tauto

/-- Bytes that belong together are a newline, or there is no newline among them. -/
theorem isChain_joins_iff {p : Bytes} (hne : p ≠ []) :
    p.IsChain (fun a b => joins a b = true) ↔ p = [newline] ∨ newline ∉ p := by
  induction p with
  | nil => exact absurd rfl hne
  | cons a rest ih =>
    cases rest with
    | nil =>
      have h : [a] = [newline] ∨ newline ∉ [a] := by
        by_cases ha : a = newline
        · exact .inl (by rw [ha])
        · exact .inr fun hm => ha (List.mem_singleton.mp hm).symm
      exact iff_of_true (List.isChain_singleton a) h
    | cons b rest =>
      rw [List.isChain_cons_cons, ih (List.cons_ne_nil b rest), joins_iff]
      constructor
      · intro h
        rcases h.2 with hb | hb
        · exact absurd (List.cons.inj hb).1 h.1.2
        · exact .inr fun hm => (List.mem_cons.mp hm).elim (fun ha => h.1.1 ha.symm) hb
      · intro h
        have hn : newline ∉ a :: b :: rest := h.resolve_left (by simp)
        have hrest : newline ∉ b :: rest := fun hm => hn (List.mem_cons_of_mem a hm)
        refine ⟨⟨?_, ?_⟩, .inr hrest⟩
        · intro ha
          exact hn (by simp [ha])
        · intro hb
          exact hrest (by simp [hb])

/-- Two pieces come apart where one of them is a newline. -/
theorem apart_iff {p q : Bytes} (hp : p = [newline] ∨ (p ≠ [] ∧ newline ∉ p))
    (hq : q = [newline] ∨ (q ≠ [] ∧ newline ∉ q)) :
    (∃ hp hq, joins (p.getLast hp) (q.head hq) = false) ↔ p = [newline] ∨ q = [newline] := by
  have hpne : p ≠ [] := by
    rcases hp with h | h
    · simp [h]
    · exact h.1
  have hqne : q ≠ [] := by
    rcases hq with h | h
    · simp [h]
    · exact h.1
  simp only [joins_eq_false_iff, exists_prop_of_true hpne, exists_prop_of_true hqne]
  constructor
  · intro h
    rcases h with hlast | hhead
    · exact .inl (hp.resolve_right fun hn => hn.2 (hlast ▸ List.getLast_mem hpne))
    · exact .inr (hq.resolve_right fun hn => hn.2 (hhead ▸ List.head_mem hqne))
  · intro h
    rcases h with h | h
    · exact .inl (by simp [h])
    · exact .inr (by simp [h])

/-- The pieces of a text are what it is split into at its newlines, so there is one list of them. -/
theorem pieces_iff {text : Bytes} {pieces : List Bytes} :
    Pieces text pieces ↔ text.splitBy joins = pieces := by
  have heach : (∀ p ∈ pieces, p = [newline] ∨ (p ≠ [] ∧ newline ∉ p)) ↔
      [] ∉ pieces ∧ ∀ p ∈ pieces, p.IsChain fun a b => joins a b = true := by
    constructor
    · intro h
      have hne : [] ∉ pieces := fun hm => by simpa using h [] hm
      refine ⟨hne, ?_⟩
      intro p hp
      rw [isChain_joins_iff (ne_of_mem_of_not_mem hp hne)]
      exact (h p hp).imp_right And.right
    · intro h p hp
      have hpne : p ≠ [] := ne_of_mem_of_not_mem hp h.1
      exact ((isChain_joins_iff hpne).mp (h.2 p hp)).imp_right fun hn => ⟨hpne, hn⟩
  rw [List.splitBy_eq_iff]
  constructor
  · intro h
    obtain ⟨hne, hchain⟩ := heach.mp h.each
    refine ⟨h.whole.symm, hne, hchain, ?_⟩
    exact h.longest.imp_of_mem_imp fun p q hp hq => (apart_iff (h.each p hp) (h.each q hq)).mpr
  · rintro ⟨hwhole, hne, hchain, hapart⟩
    have each := heach.mpr ⟨hne, hchain⟩
    refine ⟨hwhole.symm, each, ?_⟩
    exact hapart.imp_of_mem_imp fun p q hp hq => (apart_iff (each p hp) (each q hq)).mp

/-! ## Writing the pieces -/

/-- What is to be written for a piece. -/
def pieceItem (p : Bytes) : Item := if p = [newline] then .lineEnd else .run p

theorem pairAfter_pieceItem (p : Bytes) (pair : Delimiters) : (pieceItem p).pairAfter pair = pair := by
  unfold pieceItem
  split <;> rfl

/-- A newline is not escaped, as no open delimiter starts with one. -/
theorem render_pieceItem (pair : Delimiters) (p : Bytes) :
    (pieceItem p).render pair = Token.escapeText pair.openMark p := by
  unfold pieceItem
  split
  · next hp =>
    have ho : pair.openMark.head? ≠ some newline :=
      fun h => newline_not_mem_open pair (List.mem_of_mem_head? h)
    simp [Item.render, Token.escapeText, hp, ho]
  · rfl

/-- What is written for the pieces of a text is the escaped text. -/
theorem write_pieces (pair : Delimiters) (pieces : List Bytes) :
    write pair (pieces.map pieceItem) = Token.escapeText pair.openMark pieces.flatten := by
  induction pieces with
  | nil => rfl
  | cons p rest ih =>
    rw [List.map_cons, write, pairAfter_pieceItem, ih, render_pieceItem, List.flatten_cons]
    exact List.flatMap_append.symm

/-- Pieces are read back, as only a newline may follow a stretch. -/
theorem readable_pieces (withGettext : Bool) (pair : Delimiters) {pieces : List Bytes}
    (heach : ∀ p ∈ pieces, p = [newline] ∨ (p ≠ [] ∧ newline ∉ p))
    (hlongest : pieces.IsChain fun p q => p = [newline] ∨ q = [newline]) :
    Item.Readable withGettext pair (pieces.map pieceItem) := by
  induction pieces with
  | nil => trivial
  | cons p rest ih =>
    have hrec := ih (fun q hq => heach q (List.mem_cons_of_mem p hq))
      (List.isChain_of_isChain_cons hlongest)
    refine ⟨?_, ?_, ?_⟩
    · unfold pieceItem
      split
      · trivial
      · next hp => exact (heach p List.mem_cons_self).resolve_left hp
    · intro text htext next hnext
      have hp : p ≠ [newline] := by
        intro hp
        simp [pieceItem, hp] at htext
      cases rest with
      | nil => cases hnext
      | cons q rest =>
        have hq : q = [newline] := (List.isChain_cons_cons.mp hlongest).1.resolve_left hp
        have hitem : next = .lineEnd := by simpa [pieceItem, hq, eq_comm] using hnext
        rw [hitem]
        exact ⟨rfl, fun _ _ => rfl⟩
    · rw [pairAfter_pieceItem]
      exact hrec

/-! ## Scanning the escaped text -/

/-- Without an open delimiter, every line keeps all its tokens. -/
theorem tokens_of_unmarked (withGettext : Bool) {segs : List Segment}
    (h : ∀ s ∈ segs, s.isMark = false) :
    (lines segs).flatMap (lineTokens withGettext) =
      segs.filterMap (Segment.token? withGettext) := by
  have hline : ∀ line ∈ lines segs,
      lineTokens withGettext line = line.filterMap (Segment.token? withGettext) := by
    intro line hl
    have hnone : line.any Segment.isMark = false := by
      rw [List.any_eq_false]
      intro s hs
      have hmem : s ∈ segs := by
        rw [← flatten_cutAfter Segment.isLineEnd segs]
        exact List.mem_flatten_of_mem hl hs
      simp [h s hmem]
    simp [lineTokens, isStandalone, hnone]
  rw [List.flatMap_congr hline]
  exact flatMap_lines _ segs

theorem isMark_pieceItem (pair : Delimiters) (pos : Nat) (p : Bytes) :
    ((pieceItem p).segment pair pos).isMark = false := by
  unfold pieceItem
  split <;> rfl

/-- The token of a piece is a text, and shows the piece. -/
theorem exists_token?_pieceItem (withGettext : Bool) (pair : Delimiters) (pos : Nat) (p : Bytes) :
    ∃ t, ((pieceItem p).segment pair pos).token? withGettext = some t ∧ t.isText = true ∧
      t.value = p := by
  unfold pieceItem
  split
  · next hp => exact ⟨_, rfl, rfl, hp.symm⟩
  · exact ⟨_, rfl, rfl, rfl⟩

theorem isMark_layout_pieces (pair : Delimiters) (pos : Nat) (pieces : List Bytes) :
    ∀ s ∈ layout pair pos (pieces.map pieceItem), s.isMark = false := by
  induction pieces generalizing pos with
  | nil => simp [layout]
  | cons p rest ih =>
    intro s hs
    rw [List.map_cons, layout, pairAfter_pieceItem] at hs
    rcases List.mem_cons.mp hs with hs | hs
    · rw [hs]
      exact isMark_pieceItem pair pos p
    · exact ih _ s hs

/-- The tokens of the pieces are texts, and show the pieces. -/
theorem tokens_layout_pieces (withGettext : Bool) (pair : Delimiters) (pos : Nat)
    (pieces : List Bytes) :
    let tokens :=
      (layout pair pos (pieces.map pieceItem)).filterMap (Segment.token? withGettext)
    (∀ t ∈ tokens, t.isText = true) ∧ tokens.map Token.value = pieces := by
  induction pieces generalizing pos with
  | nil => simp [layout]
  | cons p rest ih =>
    obtain ⟨t, ht, htext, hvalue⟩ := exists_token?_pieceItem withGettext pair pos p
    obtain ⟨hrest, hvalues⟩ := ih (pos + ((pieceItem p).render pair).length)
    simp only [List.map_cons, layout, pairAfter_pieceItem, List.filterMap_cons, ht]
    constructor
    · intro u hu
      rcases List.mem_cons.mp hu with hu | hu
      · rw [hu]
        exact htext
      · exact hrest u hu
    · rw [hvalue, hvalues]

/-- The scan has found a text and nothing else. -/
structure Literal (text : Bytes) (o : Outcome) : Prop where
  /-- Nothing is wrong. -/
  faults : o.faults = []
  /-- There are no tags. -/
  texts : ∀ t ∈ o.tokens, t.isText = true
  /-- The tokens are the pieces of the text. -/
  pieces : Pieces text (o.tokens.map Token.value)

/-- The escaped text is found again by a scan that starts with the pair it was escaped for. -/
theorem literal_scan (withGettext : Bool) {pair : Delimiters} {given : Option Bytes}
    (hpair : startPair given = pair) (hfaults : startFaults given = []) (name text : Bytes) :
    Literal text
      (scan withGettext (.ofText name (Token.escapeText pair.openMark text)) given) := by
  obtain ⟨pieces, hp⟩ : ∃ pieces, Pieces text pieces := ⟨_, pieces_iff.mpr rfl⟩
  have hwrite := write_pieces pair pieces
  rw [hp.whole] at hwrite
  have houtline : outline withGettext (Token.escapeText pair.openMark text) given =
      layout pair 0 (pieces.map pieceItem) := by
    rw [outline, hpair, ← hwrite]
    exact segments_write (readable_pieces withGettext pair hp.each hp.longest) 0
  have htokens :
      (scan withGettext (.ofText name (Token.escapeText pair.openMark text)) given).tokens =
        (layout pair 0 (pieces.map pieceItem)).filterMap (Segment.token? withGettext) := by
    rw [tokens_scan, Source.ofText, Outline.tokens, houtline]
    exact tokens_of_unmarked withGettext (isMark_layout_pieces pair 0 pieces)
  obtain ⟨htexts, hvalues⟩ := tokens_layout_pieces withGettext pair 0 pieces
  refine ⟨?_, ?_, ?_⟩
  · rw [faults_scan, Source.ofText, Outline.faults, houtline, hfaults, fault?_layout]
    rfl
  · rw [htokens]
    exact htexts
  · rw [htokens, hvalues]
    exact hp

/-- A text token that asks for no other pair is rebuilt as its escaped text. -/
theorem rebuild_text {t : Token} (htext : t.isText = true)
    (hmarks : Token.changesMarks Delimiters.standard.openMark Delimiters.standard.closeMark t
      = false) :
    Token.rebuild [t] = Token.escapeText Delimiters.standard.openMark t.value := by
  simp [Token.rebuild, Token.rebuildFrom, hmarks, htext]

/-- **Escaped text is text.** Under every pair, the scan of a text escaped for that pair has no faults
and gives the text back in its pieces: each newline is a token of its own, each longest stretch without
newlines is one token, and there are no tags. The same is true of the template that is rebuilt from the
text as a single token under the standard pair, and scanned with it. -/
theorem literal_escapeText (withGettext : Bool) (pair : Delimiters) (name text : Bytes) :
    Literal text
        (scan withGettext (.ofText name (Token.escapeText pair.openMark text)) (some pair.render)) ∧
      ∀ t : Token, t.isText = true → t.value = text →
        Token.changesMarks Delimiters.standard.openMark Delimiters.standard.closeMark t = false →
        Literal text (scan withGettext (.ofText name (Token.rebuild [t])) none) := by
  constructor
  · apply literal_scan withGettext
    · rw [startPair, givenPair_render]
    · rw [startFaults, givenPair_render]
  · intro t htext hvalue hmarks
    have hpair : startPair none = Delimiters.standard := rfl
    have hscan := literal_scan withGettext hpair rfl name text
    rwa [rebuild_text htext hmarks, hvalue]

/-- A pair whose open delimiter starts with the byte that escapes it. -/
def slashes : Delimiters where
  openMark := ascii "\\("
  closeMark := ascii ")"
  open_ne_nil := by decide
  close_ne_nil := by decide
  open_blankFree := by decide
  close_blankFree := by decide

/-- Two lines of text, with backslashes in front of an open delimiter, of a newline and of the end. -/
def slashedText : Bytes := ascii "a\\\\(b\\\nc\\"

/-- The text as a token of its own, as a program would put it together. -/
def slashedToken : Token := { kind := .text, name := slashedText, value := slashedText }

theorem literal_slashedText :
    Literal slashedText
        (scan false (.ofText [] (ascii "a\\\\\\\\(b\\\\\nc\\\\")) (some (ascii "\\( )"))) ∧
      Literal slashedText (scan false (.ofText [] (Token.rebuild [slashedToken])) none) := by
  obtain ⟨hescaped, hrebuilt⟩ := literal_escapeText false slashes [] slashedText
  have htext : Token.escapeText slashes.openMark slashedText =
      ascii "a\\\\\\\\(b\\\\\nc\\\\" := by decide
  have hpair : slashes.render = ascii "\\( )" := by decide
  rw [htext, hpair] at hescaped
  exact ⟨hescaped, hrebuilt slashedToken rfl rfl (by decide)⟩

end TemplateLexer.Rebuild
