import TemplateLexer.Scan.Outcome

/-!
# Outlines of templates

An *outline* says in two phases what a scan has to give, without buffers and without taking back
tokens.

1. `segments` cuts a text from left to right into segments: runs of text, line ends, tags, delimiter
   changes, and at most one tag or change that the text ends in. Each segment is found by looking
   for the first occurrence of the mark that ends it, and each knows the pair in force where it
   starts. Only a well-formed change gives the segments after it another pair.
2. `lines` cuts the segments after each line end, and `lineTokens` gives the tokens of each line on
   its own: those of a standalone line are its tags, those of any other line are all it has.

`outcome` puts the two phases together. It is a definition to prove things about; the scan loop is
shown to compute it in `TemplateLexer.Proofs.Outline.Refinement`.
-/

namespace TemplateLexer.Outline

open Bytes

/-! ## Segments -/

/-- What a stretch of a template is. -/
inductive Piece where
  /-- A run of text outside tags, its escapes resolved. -/
  | run (text : Bytes)
  /-- A newline outside tags. -/
  | lineEnd
  /-- A tag with the kind that its sigil selects, its body, and the offset of its close delimiter. -/
  | tag (kind : Kind) (body : Bytes) (closeAt : Nat)
  /-- A delimiter change, with what stands between its two equals signs. -/
  | change (spec : Bytes)
  /-- A tag that does not end before the text does. -/
  | openTag
  /-- A delimiter change that does not end before the text does. -/
  | openChange
  deriving DecidableEq, Repr

/-- A stretch of a template, the bytes it takes, and the pair in force where it starts. -/
structure Segment where
  pair : Delimiters
  extent : Extent
  piece : Piece
  deriving DecidableEq

/-- The literal byte at the start of a text outside tags, and what follows it. A backslash and the
first byte of the open delimiter are that byte; there is no literal byte at an open delimiter, at a
newline and at the end. -/
def textByte? (pair : Delimiters) (text : Bytes) : Option (UInt8 × Bytes) :=
  match Scan.escapedByte? pair text with
  | some c => some (c, text.drop 2)
  | none =>
    if pair.openMark.isPrefixOf text then none
    else
      match text with
      | [] => none
      | b :: rest => if b = newline then none else some (b, rest)

/-- A literal byte is the first byte of the open delimiter in its escaped form, or a byte that is no
newline and starts neither that form nor an open delimiter. -/
theorem cases_textByte? {pair : Delimiters} {text rest : Bytes} {b : UInt8}
    (h : textByte? pair text = some (b, rest)) :
    (text = backslash :: b :: rest ∧ pair.openMark.head? = some b) ∨
      (text = b :: rest ∧ b ≠ newline ∧ Scan.escapedByte? pair text = none ∧
        ¬ pair.openMark <+: text) := by
  unfold textByte? at h
  split at h
  · next c hc =>
    cases h
    match text, hc with
    | x :: y :: tail, hc =>
      simp only [Scan.escapedByte?, Option.ite_none_right_eq_some] at hc
      obtain ⟨⟨rfl, ho⟩, hy⟩ := hc
      cases hy
      exact .inl ⟨rfl, ho⟩
  · next he =>
    split at h
    · cases h
    · next hp =>
      match text, h with
      | c :: tail, h =>
        simp only at h
        split at h
        · cases h
        · next hn =>
          cases h
          exact .inr ⟨rfl, hn, he, fun hq => hp (List.isPrefixOf_iff_prefix.mpr hq)⟩

/-- A literal byte takes at least one byte of the text. -/
theorem length_lt_of_textByte? {pair : Delimiters} {text rest : Bytes} {b : UInt8}
    (h : textByte? pair text = some (b, rest)) : rest.length < text.length := by
  rcases cases_textByte? h with ⟨rfl, -⟩ | ⟨rfl, -⟩
  · simp only [List.length_cons]
    omega
  · simp

/-- The longest run of literal bytes at the start of a text, and what follows it. -/
def readRun (pair : Delimiters) (text : Bytes) : Bytes × Bytes :=
  match _h : textByte? pair text with
  | none => ([], text)
  | some (b, rest) => (b :: (readRun pair rest).1, (readRun pair rest).2)
termination_by text.length
decreasing_by all_goals exact length_lt_of_textByte? _h

/-- How many bytes a sigil takes, if there is one. -/
def sigilWidth (sigil : Option Kind) : Nat := if sigil.isSome then 1 else 0

/-- The tag or delimiter change at the start of a text that starts with the open delimiter at offset
`pos`, and what follows it. -/
def readMark (withGettext : Bool) (pair : Delimiters) (pos : Nat) (text : Bytes) : Piece × Bytes :=
  let inner := text.drop pair.openMark.length
  match inner.head?.bind (Kind.ofSigil withGettext) with
  | some .delimiterChange =>
    match cutAt? pair.changeMark (inner.drop 1) with
    | none => (.openChange, [])
    | some (spec, rest) => (.change spec, rest)
  | sigil =>
    let kind := sigil.getD .escaped
    match cutAt? pair.closeMark (inner.drop (sigilWidth sigil)) with
    | none => (.openTag, [])
    | some (body, rest) =>
      (.tag kind body (pos + pair.openMark.length + sigilWidth sigil + body.length),
        if Tag.absorbsBrace pair kind then rest.drop 1 else rest)

/-- The first piece of a text that starts at offset `pos`, and what follows it. -/
def readPiece (withGettext : Bool) (pair : Delimiters) (pos : Nat) (text : Bytes) :
    Piece × Bytes :=
  match readRun pair text with
  | (b :: run, rest) => (.run (b :: run), rest)
  | ([], _) =>
    if text.head? = some newline then (.lineEnd, text.drop 1)
    else readMark withGettext pair pos text

/-- The pair in force after a segment. Only a change that names two delimiters has an effect. -/
def Segment.pairAfter (s : Segment) : Delimiters :=
  match s.piece with
  | .change spec => (Delimiters.parse spec).toOption.getD s.pair
  | _ => s.pair

/-! ## Every piece takes something -/

theorem length_readRun_le (pair : Delimiters) (text : Bytes) :
    (readRun pair text).2.length ≤ text.length := by
  fun_induction readRun pair text with
  | case1 => simp
  | case2 text b rest h ih =>
    have hlt := length_lt_of_textByte? h
    simp only at ih ⊢
    omega

/-- A run that is not empty takes something. -/
theorem length_readRun_lt {pair : Delimiters} {text : Bytes} (h : (readRun pair text).1 ≠ []) :
    (readRun pair text).2.length < text.length := by
  cases hb : textByte? pair text with
  | none =>
    rw [readRun] at h
    split at h
    · exact absurd rfl h
    · next hs => rw [hs] at hb; cases hb
  | some p =>
    have hlt := length_lt_of_textByte? hb
    have hle := length_readRun_le pair p.2
    -- the first byte is taken, and perhaps more
    rw [readRun]
    split
    · next hs => rw [hs] at hb; cases hb
    · next b rest hs =>
      rw [hs] at hb
      cases hb
      simp only at hlt hle ⊢
      omega

theorem length_readMark_lt (withGettext : Bool) (pair : Delimiters) (pos : Nat) {text : Bytes}
    (h : text ≠ []) : (readMark withGettext pair pos text).2.length < text.length := by
  have ho := pair.open_length_pos
  have ht := List.length_pos_iff.mpr h
  unfold readMark
  dsimp only
  split
  · split
    · exact ht
    · next spec rest hc =>
      have hlt := length_after_lt (by simp [Delimiters.changeMark]) hc
      simp only [List.length_drop] at hlt ⊢
      omega
  · split
    · exact ht
    · next body rest hc =>
      have hlt := length_after_lt pair.close_ne_nil hc
      simp only [List.length_drop] at hlt ⊢
      split
      · simp only [List.length_drop]
        omega
      · omega

theorem length_readPiece_lt (withGettext : Bool) (pair : Delimiters) (pos : Nat) {text : Bytes}
    (h : text ≠ []) : (readPiece withGettext pair pos text).2.length < text.length := by
  have ht := List.length_pos_iff.mpr h
  unfold readPiece
  split
  · next b run rest hr =>
    have hlt : (readRun pair text).2.length < text.length := length_readRun_lt (by simp [hr])
    simpa [hr] using hlt
  · split
    · simp only [List.length_drop]
      omega
    · exact length_readMark_lt withGettext pair pos h

/-- The segments of a text that starts at offset `pos`, where `pair` is in force. -/
def segments (withGettext : Bool) (pair : Delimiters) (pos : Nat) (text : Bytes) : List Segment :=
  if _h : text = [] then []
  else
    let read := readPiece withGettext pair pos text
    let s : Segment := ⟨pair, ⟨pos, pos + (text.length - read.2.length)⟩, read.1⟩
    s :: segments withGettext s.pairAfter s.extent.stop read.2
termination_by text.length
decreasing_by exact length_readPiece_lt withGettext pair pos _h

/-! ## The first segment

Where a text outside tags does not start with a literal byte, it is at its end, at a newline, or at
an open delimiter that no backslash escapes. -/

theorem textByte?_newline (pair : Delimiters) (rest : Bytes) :
    textByte? pair (newline :: rest) = none := by
  have he : Scan.escapedByte? pair (newline :: rest) = none := by
    cases rest with
    | nil => rfl
    | cons c tail =>
      have hn : newline ≠ backslash := by decide
      simp [Scan.escapedByte?, hn]
  unfold textByte?
  rw [he]
  simp

theorem cases_of_textByte?_eq_none {pair : Delimiters} {text : Bytes}
    (h : textByte? pair text = none) :
    text = [] ∨ (∃ rest, text = newline :: rest) ∨
      (pair.openMark <+: text ∧ Scan.escapedByte? pair text = none) := by
  unfold textByte? at h
  split at h
  · cases h
  · next he =>
    split at h
    · next hp => exact .inr (.inr ⟨List.isPrefixOf_iff_prefix.mp hp, he⟩)
    · match text, h with
      | [], _ => exact .inl rfl
      | b :: rest, h =>
        simp only at h
        split at h
        · next hb => exact .inr (.inl ⟨rest, by rw [hb]⟩)
        · cases h

theorem textByte?_eq_none_of_open {pair : Delimiters} {text : Bytes} (hp : pair.openMark <+: text)
    (he : Scan.escapedByte? pair text = none) : textByte? pair text = none := by
  unfold textByte?
  rw [he]
  simp [List.isPrefixOf_iff_prefix.mpr hp]

/-- Something stands where an open delimiter does. -/
theorem ne_nil_of_open {pair : Delimiters} {text : Bytes} (hp : pair.openMark <+: text) :
    text ≠ [] := by
  rintro rfl
  exact pair.open_ne_nil (List.prefix_nil.mp hp)

/-- A newline starts no open delimiter. -/
theorem head?_ne_newline_of_open {pair : Delimiters} {text : Bytes} (hp : pair.openMark <+: text) :
    text.head? ≠ some newline := by
  intro hn
  obtain ⟨rest, rfl⟩ := hp
  obtain ⟨b, tail, ho⟩ := List.exists_cons_of_ne_nil pair.open_ne_nil
  have hb : b = newline := by simpa [ho] using hn
  have hf := pair.open_blankFree b (by simp [ho])
  rw [hb] at hf
  exact absurd hf (by decide)

theorem readRun_of_none {pair : Delimiters} {text : Bytes} (h : textByte? pair text = none) :
    readRun pair text = ([], text) := by
  rw [readRun]
  split
  · rfl
  · next hs => rw [h] at hs; cases hs

theorem readRun_of_some {pair : Delimiters} {text rest : Bytes} {b : UInt8}
    (h : textByte? pair text = some (b, rest)) :
    readRun pair text = (b :: (readRun pair rest).1, (readRun pair rest).2) := by
  rw [readRun]
  split
  · next hs => rw [h] at hs; cases hs
  · next hs =>
    rw [h] at hs
    cases hs
    rfl

/-- A run is as long as it can be. -/
theorem textByte?_readRun (pair : Delimiters) (text : Bytes) :
    textByte? pair (readRun pair text).2 = none := by
  fun_induction readRun pair text with
  | case1 text h => exact h
  | case2 text b rest h ih => exact ih

theorem readRun_ne_nil {pair : Delimiters} {text rest : Bytes} {b : UInt8}
    (h : textByte? pair text = some (b, rest)) : (readRun pair text).1 ≠ [] := by
  rw [readRun_of_some h]
  exact List.cons_ne_nil _ _

@[simp] theorem segments_nil (withGettext : Bool) (pair : Delimiters) (pos : Nat) :
    segments withGettext pair pos [] = [] := by
  rw [segments]
  simp

/-- A text that starts with a literal byte starts with a run. -/
theorem segments_run (withGettext : Bool) {pair : Delimiters} (pos : Nat) {text run rest : Bytes}
    (hr : readRun pair text = (run, rest)) (hne : run ≠ []) :
    segments withGettext pair pos text =
      ⟨pair, ⟨pos, pos + (text.length - rest.length)⟩, .run run⟩ ::
        segments withGettext pair (pos + (text.length - rest.length)) rest := by
  have ht : text ≠ [] := by
    rintro rfl
    have hlt : (readRun pair []).2.length < 0 := length_readRun_lt (by simpa [hr] using hne)
    omega
  obtain ⟨b, run, rfl⟩ := List.exists_cons_of_ne_nil hne
  have hp : readPiece withGettext pair pos text = (.run (b :: run), rest) := by
    simp [readPiece, hr]
  rw [segments]
  simp [ht, hp, Segment.pairAfter]

theorem segments_newline (withGettext : Bool) (pair : Delimiters) (pos : Nat) (rest : Bytes) :
    segments withGettext pair pos (newline :: rest) =
      ⟨pair, ⟨pos, pos + 1⟩, .lineEnd⟩ :: segments withGettext pair (pos + 1) rest := by
  have hp : readPiece withGettext pair pos (newline :: rest) = (.lineEnd, rest) := by
    simp [readPiece, readRun_of_none (textByte?_newline pair rest)]
  rw [segments]
  simp [hp, Segment.pairAfter]

/-- A text that starts with an open delimiter starts with a tag or a change. -/
theorem segments_mark (withGettext : Bool) {pair : Delimiters} (pos : Nat) {text : Bytes}
    {s : Segment} (hp : pair.openMark <+: text) (he : Scan.escapedByte? pair text = none)
    (hs : s = ⟨pair, ⟨pos, pos + (text.length - (readMark withGettext pair pos text).2.length)⟩,
      (readMark withGettext pair pos text).1⟩) :
    segments withGettext pair pos text =
      s :: segments withGettext s.pairAfter s.extent.stop (readMark withGettext pair pos text).2 := by
  have ht := ne_nil_of_open hp
  have hr : readPiece withGettext pair pos text = readMark withGettext pair pos text := by
    unfold readPiece
    rw [readRun_of_none (textByte?_eq_none_of_open hp he)]
    simp [head?_ne_newline_of_open hp]
  subst hs
  rw [segments]
  simp [ht, hr]

/-! ## Tags and changes

The sigil after an open delimiter decides what is read. Without one, the body starts at once. -/

section readMark

variable {withGettext : Bool} (pair : Delimiters) (pos : Nat) {inner : Bytes}

theorem readMark_openChange {b : UInt8} (hk : Kind.ofSigil withGettext b = some .delimiterChange)
    (hc : cutAt? pair.changeMark inner = none) :
    readMark withGettext pair pos (pair.openMark ++ b :: inner) = (.openChange, []) := by
  simp [readMark, hk, hc]

theorem readMark_change {b : UInt8} {spec rest : Bytes}
    (hk : Kind.ofSigil withGettext b = some .delimiterChange)
    (hc : cutAt? pair.changeMark inner = some (spec, rest)) :
    readMark withGettext pair pos (pair.openMark ++ b :: inner) = (.change spec, rest) := by
  simp [readMark, hk, hc]

theorem readMark_openTag {sigil : Option Kind}
    (hk : inner.head?.bind (Kind.ofSigil withGettext) = sigil)
    (hne : sigil ≠ some .delimiterChange)
    (hc : cutAt? pair.closeMark (inner.drop (sigilWidth sigil)) = none) :
    readMark withGettext pair pos (pair.openMark ++ inner) = (.openTag, []) := by
  unfold readMark
  simp only [List.drop_left, hk, hc]

theorem readMark_tag {sigil : Option Kind} {body rest : Bytes}
    (hk : inner.head?.bind (Kind.ofSigil withGettext) = sigil)
    (hne : sigil ≠ some .delimiterChange)
    (hc : cutAt? pair.closeMark (inner.drop (sigilWidth sigil)) = some (body, rest)) :
    readMark withGettext pair pos (pair.openMark ++ inner) =
      (.tag (sigil.getD .escaped) body
          (pos + pair.openMark.length + sigilWidth sigil + body.length),
        if Tag.absorbsBrace pair (sigil.getD .escaped) then rest.drop 1 else rest) := by
  unfold readMark
  simp only [List.drop_left, hk, hc]

end readMark

/-- A mark is neither a run of text nor a line end. -/
theorem ne_run_of_readMark {withGettext : Bool} {pair : Delimiters} {pos : Nat} {text rest : Bytes}
    {piece : Piece} (h : readMark withGettext pair pos text = (piece, rest)) :
    (∀ run, piece ≠ .run run) ∧ piece ≠ .lineEnd := by
  unfold readMark at h
  dsimp only at h
  split at h
  · split at h <;> cases h <;> simp
  · split at h <;> cases h <;> simp

/-! ## What a segment gives -/

namespace Segment

/-- Does the segment end a line? -/
def isLineEnd (s : Segment) : Bool :=
  match s.piece with
  | .lineEnd => true
  | _ => false

/-- Is the segment a run of text? -/
def isRun (s : Segment) : Bool :=
  match s.piece with
  | .run _ => true
  | _ => false

/-- Does the segment start with an open delimiter? -/
def isMark (s : Segment) : Bool := !s.isRun && !s.isLineEnd

/-- Does the segment show nothing? A run shows unless it is blank, a tag if it is interpolating. -/
def isQuiet (withGettext : Bool) (s : Segment) : Bool :=
  match s.piece with
  | .run text => allBlank text
  | .tag kind body _ => !(Tag.classify withGettext kind body).1.isInterpolating
  | _ => true

/-- A text token of the segment. -/
def textToken (s : Segment) (text : Bytes) : Token :=
  { kind := .text
    name := text
    value := text
    openMark := s.pair.openMark
    closeMark := s.pair.closeMark
    index := s.extent.stop
    extent := s.extent }

/-- The token of the segment, if it has one. -/
def token? (withGettext : Bool) (s : Segment) : Option Token :=
  match s.piece with
  | .run text => some (s.textToken text)
  | .lineEnd => some (s.textToken [newline])
  | .tag kind body closeAt =>
    some (Tag.finish s.pair kind s.extent.stop
      (Tag.token withGettext s.pair kind s.extent.start closeAt body))
  | _ => none

/-- Tokens come from runs, line ends and tags. -/
theorem cases_token? {withGettext : Bool} {s : Segment} {t : Token}
    (h : s.token? withGettext = some t) :
    (∃ run, s.piece = .run run ∧ t = s.textToken run) ∨
      (s.piece = .lineEnd ∧ t = s.textToken [newline]) ∨
      ∃ kind body closeAt, s.piece = .tag kind body closeAt ∧
        t = Tag.finish s.pair kind s.extent.stop
          (Tag.token withGettext s.pair kind s.extent.start closeAt body) := by
  unfold token? at h
  split at h
  · next run hp => exact .inl ⟨run, hp, (Option.some.inj h).symm⟩
  · next hp => exact .inr (.inl ⟨hp, (Option.some.inj h).symm⟩)
  · next kind body closeAt hp =>
    exact .inr (.inr ⟨kind, body, closeAt, hp, (Option.some.inj h).symm⟩)
  · cases h

/-- The fault of the segment, if it has one. -/
def fault? (s : Segment) : Option Fault :=
  match s.piece with
  | .change spec =>
    match Delimiters.parse spec with
    | .error e => some ⟨.invalidChange e, s.extent⟩
    | .ok _ => none
  | .openTag => some ⟨.unterminatedTag s.pair.closeMark, s.extent⟩
  | .openChange => some ⟨.unterminatedChange s.pair.changeMark, s.extent⟩
  | _ => none

/-- What there is to note about the segment, if anything. -/
def note? (withGettext : Bool) (s : Segment) : Option Note :=
  match s.piece with
  | .tag kind body closeAt =>
    some (.tagRead (Tag.token withGettext s.pair kind s.extent.start closeAt body))
  | .change spec =>
    match Delimiters.parse spec with
    | .error e => some (.faultFound ⟨.invalidChange e, s.extent⟩)
    | .ok pair => some (.delimitersChanged pair s.extent.start)
  | .openTag => some (.faultFound ⟨.unterminatedTag s.pair.closeMark, s.extent⟩)
  | .openChange => some (.faultFound ⟨.unterminatedChange s.pair.changeMark, s.extent⟩)
  | _ => none

end Segment

/-! ## Lines -/

/-- Cuts a list after each element that ends a line. -/
def cutAfter {α : Type} (ends : α → Bool) : List α → List (List α)
  | [] => []
  | a :: rest =>
    if ends a then [a] :: cutAfter ends rest
    else
      match cutAfter ends rest with
      | [] => [[a]]
      | line :: others => (a :: line) :: others

/-- The lines of some segments. -/
def lines (segments : List Segment) : List (List Segment) := cutAfter Segment.isLineEnd segments

/-- A line is standalone if something on it starts with an open delimiter and nothing on it
shows. -/
def isStandalone (withGettext : Bool) (line : List Segment) : Bool :=
  line.any Segment.isMark && line.all (Segment.isQuiet withGettext)

/-- A token with the text of its predecessor as indent, if it is a partial right after a text. -/
def indented (before : Option Token) (t : Token) : Token :=
  match before with
  | some b => if b.isText && t.isPartial then { t with indent := some b.value } else t
  | none => t

/-- The tags among some tokens, with their indents. -/
def keptTags (tokens : List Token) : List Token :=
  (List.zipWith indented (none :: tokens.map some) tokens).filter Token.isTag

/-- The tokens of a line. -/
def lineTokens (withGettext : Bool) (line : List Segment) : List Token :=
  let tokens := line.filterMap (Segment.token? withGettext)
  if isStandalone withGettext line then keptTags tokens else tokens

/-- The notes of a line: those of its segments, and that its texts were dropped if it is
standalone. -/
def lineNotes (withGettext : Bool) (line : List Segment) : List Note :=
  line.filterMap (Segment.note? withGettext)
    ++ (if isStandalone withGettext line then [.lineDropped (line.countP Segment.isRun)] else [])

section cutAfter

variable {α : Type} {ends : α → Bool} {a : α} {line rest : List α}

/-- Elements that end no line are one line, or none. -/
theorem cutAfter_of_none (h : ∀ a ∈ line, ends a = false) :
    cutAfter ends line = if line = [] then [] else [line] := by
  induction line with
  | nil => rfl
  | cons a rest ih =>
    have ha : ends a = false := h a List.mem_cons_self
    have hr := ih fun b hb => h b (List.mem_cons_of_mem _ hb)
    by_cases he : rest = []
    · simp [cutAfter, ha, he]
    · simp [cutAfter, ha, hr, he]

/-- Cutting into lines loses nothing. -/
theorem flatten_cutAfter (ends : α → Bool) (list : List α) :
    (cutAfter ends list).flatten = list := by
  induction list with
  | nil => rfl
  | cons a rest ih =>
    simp only [cutAfter]
    split
    · simp [ih]
    · split
      · next hr =>
        rw [hr] at ih
        simp [← ih]
      · next line others hr =>
        rw [hr] at ih
        simpa using ih

theorem ne_nil_of_mem_cutAfter {list : List α} (h : line ∈ cutAfter ends list) : line ≠ [] := by
  induction list generalizing line with
  | nil => cases h
  | cons a rest ih =>
    simp only [cutAfter] at h
    split at h
    · rcases List.mem_cons.mp h with rfl | h
      · simp
      · exact ih h
    · split at h
      · rw [List.mem_singleton.mp h]
        simp
      · next others hr =>
        rcases List.mem_cons.mp h with rfl | h
        · simp
        · exact ih (hr ▸ List.mem_cons_of_mem _ h)

/-- A line ends with the first element that ends one. -/
theorem cutAfter_append_end (h : ∀ b ∈ line, ends b = false) (ha : ends a = true) :
    cutAfter ends (line ++ a :: rest) = (line ++ [a]) :: cutAfter ends rest := by
  induction line with
  | nil => simp [cutAfter, ha]
  | cons b line ih =>
    have hb : ends b = false := h b List.mem_cons_self
    have hr := ih fun c hc => h c (List.mem_cons_of_mem _ hc)
    simp [cutAfter, hb, hr]

/-- An element that ends no line joins the line after it. -/
theorem cutAfter_cons_of_not (ha : ends a = false) :
    cutAfter ends (a :: rest) =
      (a :: (cutAfter ends rest).headD []) :: (cutAfter ends rest).tail := by
  simp only [cutAfter, ha]
  cases cutAfter ends rest <;> rfl

end cutAfter

/-- What comes from the lines one by one comes from the segments. -/
theorem flatMap_lines {α : Type} (f : Segment → Option α) (segments : List Segment) :
    (lines segments).flatMap (List.filterMap f) = segments.filterMap f := by
  rw [List.flatMap_def, ← List.filterMap_flatten, lines, flatten_cutAfter]

/-! ## The whole outline -/

/-- The pair that delimiters given for a scan name. A blank specification is none. -/
def givenPair (given : Option Bytes) : Option (Except Delimiters.ParseError Delimiters) :=
  given.bind fun spec => if allBlank spec then none else some (Delimiters.parse spec)

/-- The pair a scan starts with. -/
def startPair (given : Option Bytes) : Delimiters :=
  match givenPair given with
  | some (.ok pair) => pair
  | _ => .standard

/-- The fault of the delimiters given for a scan. -/
def startFaults (given : Option Bytes) : List Fault :=
  match givenPair given with
  | some (.error e) => [⟨.invalidOverride e, ⟨0, 0⟩⟩]
  | _ => []

/-- What there is to note about the delimiters given for a scan. -/
def startNotes (given : Option Bytes) : List Note :=
  match givenPair given with
  | some (.ok pair) => [.delimitersGiven pair]
  | some (.error e) => [.faultFound ⟨.invalidOverride e, ⟨0, 0⟩⟩]
  | none => []

/-- The segments of a template. -/
def outline (withGettext : Bool) (text : Bytes) (given : Option Bytes) : List Segment :=
  segments withGettext (startPair given) 0 text

/-- The tokens of a template by its outline. -/
def tokens (withGettext : Bool) (text : Bytes) (given : Option Bytes) : List Token :=
  (lines (outline withGettext text given)).flatMap (lineTokens withGettext)

/-- The faults of a template by its outline. -/
def faults (withGettext : Bool) (text : Bytes) (given : Option Bytes) : List Fault :=
  startFaults given ++ (outline withGettext text given).filterMap Segment.fault?

/-- The notes on a template by its outline. -/
def notes (withGettext : Bool) (text : Bytes) (given : Option Bytes) : List Note :=
  startNotes given ++ (lines (outline withGettext text given)).flatMap (lineNotes withGettext)

/-- What the scan of a source gives by its outline. -/
def outcome (withGettext : Bool) (source : Source) (given : Option Bytes) : Outcome :=
  let tokens := tokens withGettext source.text given
  let faults := faults withGettext source.text given
  { tokens
    faults
    notes := notes withGettext source.text given
      ++ [.scanned source.name tokens.length faults.length] }

end TemplateLexer.Outline
