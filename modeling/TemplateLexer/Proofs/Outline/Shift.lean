import TemplateLexer.Proofs.Outline.Refinement
import TemplateLexer.Proofs.Source.Location

/-!
# Outlines further on

Where a text starts does not matter to how it is cut: the segments of a text that starts some bytes
later are the same segments, some bytes later (`segments_add`), and so are the tokens of their lines
(`lineTokens_shift`) and their faults (`fault?_shift`).
-/

namespace TemplateLexer

open Bytes

/-- The token some bytes further on. -/
def Token.shift (bytes : Nat) (t : Token) : Token :=
  { t with index := t.index + bytes, extent := t.extent.shift bytes }

/-- The fault some bytes further on. -/
def Fault.shift (bytes : Nat) (f : Fault) : Fault := { f with extent := f.extent.shift bytes }

namespace Outline

/-- The piece some bytes further on. -/
def Piece.shift (bytes : Nat) : Piece → Piece
  | .tag kind body closeAt => .tag kind body (closeAt + bytes)
  | piece => piece

/-- The segment some bytes further on. -/
def Segment.shift (bytes : Nat) (s : Segment) : Segment :=
  { s with extent := s.extent.shift bytes, piece := s.piece.shift bytes }

variable {withGettext : Bool} {n : Nat}

/-! ## Segments -/

theorem readMark_add (withGettext : Bool) (pair : Delimiters) (pos n : Nat) (text : Bytes) :
    readMark withGettext pair (pos + n) text =
      ((readMark withGettext pair pos text).1.shift n, (readMark withGettext pair pos text).2) := by
  unfold readMark
  dsimp only
  split
  · split <;> rfl
  · split
    · rfl
    · simp only [Piece.shift]
      congr 2
      omega

theorem readPiece_add (withGettext : Bool) (pair : Delimiters) (pos n : Nat) (text : Bytes) :
    readPiece withGettext pair (pos + n) text =
      ((readPiece withGettext pair pos text).1.shift n,
        (readPiece withGettext pair pos text).2) := by
  unfold readPiece
  split
  · rfl
  · split
    · rfl
    · exact readMark_add withGettext pair pos n text

theorem pairAfter_shift (n : Nat) (s : Segment) : (s.shift n).pairAfter = s.pairAfter := by
  unfold Segment.pairAfter Segment.shift
  cases s.piece <;> rfl

/-- A text that starts later is cut in the same way. -/
theorem segments_add (withGettext : Bool) (pair : Delimiters) (pos n : Nat) (text : Bytes) :
    segments withGettext pair (pos + n) text =
      (segments withGettext pair pos text).map (Segment.shift n) := by
  fun_induction segments withGettext pair pos text with
  | case1 => simp
  | case2 pair pos text hne read s ih =>
    have hread := readPiece_add withGettext pair pos n text
    -- the first segment is shifted, and so the others start later
    have hs : (⟨pair, ⟨pos + n, pos + n + (text.length - read.2.length)⟩, read.1.shift n⟩ : Segment) =
        s.shift n := by
      simp only [s, Segment.shift, Extent.shift, Nat.add_right_comm]
    have hstop : pos + n + (text.length - read.2.length) = s.extent.stop + n :=
      Nat.add_right_comm pos n _
    rw [segments, dif_neg hne, hread, List.map_cons, ← ih]
    dsimp only
    rw [hs, pairAfter_shift, hstop]

/-! ## What segments give -/

theorem isMark_shift (n : Nat) (s : Segment) : (s.shift n).isMark = s.isMark := by
  unfold Segment.isMark Segment.isRun Segment.isLineEnd Segment.shift
  cases s.piece <;> rfl

theorem isLineEnd_shift (n : Nat) (s : Segment) : (s.shift n).isLineEnd = s.isLineEnd := by
  unfold Segment.isLineEnd Segment.shift
  cases s.piece <;> rfl

theorem isQuiet_shift (n : Nat) (s : Segment) :
    (s.shift n).isQuiet withGettext = s.isQuiet withGettext := by
  unfold Segment.isQuiet Segment.shift
  cases s.piece <;> rfl

theorem fault?_shift (n : Nat) (s : Segment) : (s.shift n).fault? = s.fault?.map (Fault.shift n) := by
  unfold Segment.fault? Segment.shift
  cases s.piece with
  | change spec =>
    simp only [Piece.shift]
    cases Delimiters.parse spec <;> rfl
  | _ => rfl

/-- The token of a tag that stands later. -/
theorem token_shift (pair : Delimiters) (kind : Kind) (start closeAt : Nat) (body : Bytes) :
    Tag.token withGettext pair kind (start + n) (closeAt + n) body =
      (Tag.token withGettext pair kind start closeAt body).shift n := by
  have hstop : closeAt + n + pair.closeMark.length = closeAt + pair.closeMark.length + n := by omega
  simp only [Tag.token, Token.shift, Extent.shift, hstop]
  split <;> rfl

theorem finish_shift (pair : Delimiters) (kind : Kind) (stop : Nat) (t : Token) :
    Tag.finish pair kind (stop + n) (t.shift n) = (Tag.finish pair kind stop t).shift n := by
  unfold Tag.finish
  split
  · rfl
  · split <;> rfl

theorem token?_shift (n : Nat) (s : Segment) :
    (s.shift n).token? withGettext = (s.token? withGettext).map (Token.shift n) := by
  unfold Segment.token? Segment.shift
  cases s.piece with
  | tag kind body closeAt =>
    simp only [Piece.shift, Option.map_some, Extent.shift]
    rw [token_shift, finish_shift]
  | _ => rfl

/-! ## Lines -/

theorem cutAfter_map {α β : Type} {ends : β → Bool} (f : α → β) (list : List α) :
    cutAfter ends (list.map f) = (cutAfter (ends ∘ f) list).map (List.map f) := by
  induction list with
  | nil => rfl
  | cons a rest ih =>
    simp only [List.map_cons, cutAfter, ih, Function.comp_apply]
    split
    · rfl
    · cases cutAfter (ends ∘ f) rest <;> rfl

theorem lines_shift (n : Nat) (segs : List Segment) :
    lines (segs.map (Segment.shift n)) = (lines segs).map (List.map (Segment.shift n)) := by
  have hends : Segment.isLineEnd ∘ Segment.shift n = Segment.isLineEnd :=
    funext (isLineEnd_shift n)
  rw [lines, cutAfter_map, hends]
  rfl

theorem isStandalone_shift (n : Nat) (line : List Segment) :
    isStandalone withGettext (line.map (Segment.shift n)) = isStandalone withGettext line := by
  simp only [isStandalone, List.any_map, List.all_map, Function.comp_def, isMark_shift, isQuiet_shift]

theorem keepTags_shift (before : Option Bytes) (tokens : List Token) :
    Line.keepTags before (tokens.map (Token.shift n)) =
      (Line.keepTags before tokens).map (Token.shift n) := by
  induction tokens generalizing before with
  | nil => rfl
  | cons t rest ih =>
    have htext : (t.shift n).isText = t.isText := rfl
    have hindent : Line.withIndent before (t.shift n) = (Line.withIndent before t).shift n := by
      unfold Line.withIndent
      split
      · have hpartial : (t.shift n).isPartial = t.isPartial := rfl
        rw [hpartial]
        split <;> rfl
      · rfl
    simp only [List.map_cons, Line.keepTags, htext]
    split
    · exact ih (some t.value)
    · rw [List.map_cons, hindent, ih none]

theorem lineTokens_shift (n : Nat) (line : List Segment) :
    lineTokens withGettext (line.map (Segment.shift n)) =
      (lineTokens withGettext line).map (Token.shift n) := by
  have htokens : (line.map (Segment.shift n)).filterMap (Segment.token? withGettext) =
      (line.filterMap (Segment.token? withGettext)).map (Token.shift n) := by
    rw [List.filterMap_map, List.map_filterMap]
    exact List.filterMap_congr fun s _ => token?_shift n s
  unfold lineTokens
  dsimp only
  rw [isStandalone_shift, htokens]
  split
  · -- the indent of a partial is a text, and texts are not shifted
    rw [keptTags_eq_keepTags, keptTags_eq_keepTags, keepTags_shift]
  · rfl

end Outline

end TemplateLexer
