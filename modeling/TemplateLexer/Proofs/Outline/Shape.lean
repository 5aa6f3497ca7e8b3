import Mathlib.Data.List.Chain
import TemplateLexer.Proofs.Outline.Basic

/-!
# Where segments stand

Segments tile the text they are cut from: the first one starts where the text does, each one starts
where its predecessor ends and under the pair that its predecessor leaves in force, and each is what
is read at its place.

* `cases_readPiece`: what is read is a run, a line end or a mark;
* `segments_induction`: segments are read one after the other;
* `readAt_of_mem_segments`: a segment is what is read where it starts, and `ReadAt.mark` and
  `ReadAt.unmarked` say what that is;
* `exists_mem_segments_start`, `exists_mem_segments_next`: a segment starts where the text starts, and
  where another segment ends;
* `stop_le_of_mem_segments`, `pairwise_segments`: segments do not overlap, and no run of text follows
  another one at once;
* `exists_mem_segments_of_lt`: every byte is in a segment;
* `isChain_segments`: only a delimiter change has another pair after it.
-/

namespace TemplateLexer.Outline

open Bytes Scan

/-! ## What is read is a front of the text -/

theorem suffix_readRun (pair : Delimiters) (text : Bytes) : (readRun pair text).2 <:+ text := by
  fun_induction readRun pair text with
  | case1 text h => exact List.suffix_refl text
  | case2 text b rest h ih =>
    refine ih.trans ?_
    rcases cases_textByte? h with ⟨rfl, -⟩ | ⟨rfl, -⟩
    · exact (List.suffix_cons _ _).trans (List.suffix_cons _ _)
    · exact List.suffix_cons _ _

theorem suffix_readMark (withGettext : Bool) (pair : Delimiters) (pos : Nat) (text : Bytes) :
    (readMark withGettext pair pos text).2 <:+ text := by
  have hcut : ∀ {seq inner before after : Bytes}, inner <:+ text →
      cutAt? seq inner = some (before, after) → after <:+ text := by
    intro seq inner before after hi hc
    refine List.IsSuffix.trans ?_ hi
    rw [eq_of_cutAt? hc]
    exact List.suffix_append _ _
  have hinner : ∀ n, (text.drop pair.openMark.length).drop n <:+ text := fun n =>
    (List.drop_suffix n _).trans (List.drop_suffix _ text)
  unfold readMark
  dsimp only
  split
  · split
    · exact List.nil_suffix
    · next hc => exact hcut (hinner 1) hc
  · split
    · exact List.nil_suffix
    · next hc =>
      split
      · exact (List.drop_suffix 1 _).trans (hcut (hinner _) hc)
      · exact hcut (hinner _) hc

theorem suffix_readPiece (withGettext : Bool) (pair : Delimiters) (pos : Nat) (text : Bytes) :
    (readPiece withGettext pair pos text).2 <:+ text := by
  have hr := suffix_readRun pair text
  unfold readPiece
  split
  · next hs =>
    rw [hs] at hr
    exact hr
  · split
    · exact List.drop_suffix 1 text
    · exact suffix_readMark withGettext pair pos text

/-- What is read from a text is a run of text, a line end, or a mark that is not escaped. -/
theorem cases_readPiece {withGettext : Bool} {pair : Delimiters} {pos : Nat} {text rest : Bytes}
    {piece : Piece} (hne : text ≠ []) (h : readPiece withGettext pair pos text = (piece, rest)) :
    (∃ run, run ≠ [] ∧ readRun pair text = (run, rest) ∧ piece = .run run) ∨
      (text = newline :: rest ∧ piece = .lineEnd) ∨
      (pair.openMark <+: text ∧ escapedByte? pair text = none ∧
        readMark withGettext pair pos text = (piece, rest)) := by
  cases hb : textByte? pair text with
  | some p =>
    -- a literal byte starts a run
    have hrun := readRun_ne_nil hb
    unfold readPiece at h
    split at h
    · next b run rest' hr =>
      cases h
      exact .inl ⟨b :: run, List.cons_ne_nil _ _, hr, rfl⟩
    · next hr =>
      rw [hr] at hrun
      exact absurd rfl hrun
  | none =>
    -- no run: there is a newline or an open delimiter
    unfold readPiece at h
    rw [readRun_of_none hb] at h
    rcases cases_of_textByte?_eq_none hb with hn | ⟨tail, rfl⟩ | ⟨hp, he⟩
    · exact absurd hn hne
    · refine .inr (.inl ?_)
      simp only [List.head?_cons, if_true] at h
      cases h
      exact ⟨rfl, rfl⟩
    · refine .inr (.inr ⟨hp, he, ?_⟩)
      simpa [head?_ne_newline_of_open hp] using h

/-- What holds of no segments, and of what is read in front of segments for which it holds, holds of
all segments. -/
theorem segments_induction {withGettext : Bool}
    {motive : Delimiters → Nat → Bytes → List Segment → Prop}
    (nil : ∀ pair pos, motive pair pos [] [])
    (cons : ∀ pair pos taken rest piece, taken ≠ [] →
      readPiece withGettext pair pos (taken ++ rest) = (piece, rest) →
      let s : Segment := ⟨pair, ⟨pos, pos + taken.length⟩, piece⟩
      motive s.pairAfter (pos + taken.length) rest
        (segments withGettext s.pairAfter (pos + taken.length) rest) →
      motive pair pos (taken ++ rest)
        (s :: segments withGettext s.pairAfter (pos + taken.length) rest))
    (pair : Delimiters) (pos : Nat) (text : Bytes) :
    motive pair pos text (segments withGettext pair pos text) := by
  induction hn : text.length using Nat.strongRecOn generalizing pair pos text with
  | ind n ih =>
    subst hn
    by_cases hne : text = []
    · subst hne
      rw [segments_nil]
      exact nil pair pos
    · have hlt := length_readPiece_lt withGettext pair pos hne
      -- the text is what the first piece takes, and what it leaves
      obtain ⟨taken, htext⟩ := suffix_readPiece withGettext pair pos text
      have htaken : taken ≠ [] := by
        rintro rfl
        have h := congrArg List.length htext
        rw [List.nil_append] at h
        omega
      have hlen : text.length - (readPiece withGettext pair pos text).2.length = taken.length := by
        have h := congrArg List.length htext
        rw [List.length_append] at h
        omega
      have hread : readPiece withGettext pair pos
          (taken ++ (readPiece withGettext pair pos text).2) =
          ((readPiece withGettext pair pos text).1, (readPiece withGettext pair pos text).2) := by
        rw [htext]
      have h := cons pair pos taken _ _ htaken hread (ih _ hlt _ _ _ rfl)
      rw [htext] at h
      rw [segments]
      simpa only [hne, hlen, dif_neg, not_false_eq_true] using h

/-! ## Places -/

/-- The segment is what is read at its place in a text that starts at offset `pos`. -/
def ReadAt (withGettext : Bool) (pos : Nat) (text : Bytes) (s : Segment) : Prop :=
  ∃ before taken rest, text = before ++ taken ++ rest ∧ taken ≠ [] ∧
    s.extent = ⟨pos + before.length, pos + before.length + taken.length⟩ ∧
    readPiece withGettext s.pair s.extent.start (taken ++ rest) = (s.piece, rest)

variable {withGettext : Bool} {pair : Delimiters} {pos : Nat} {text : Bytes}

/-- Every segment is what is read where it starts. -/
theorem readAt_of_mem_segments :
    ∀ s ∈ segments withGettext pair pos text, ReadAt withGettext pos text s := by
  refine segments_induction (motive := fun _ pos text segs =>
    ∀ s ∈ segs, ReadAt withGettext pos text s) ?_ ?_ pair pos text
  · intro pair pos s hs
    cases hs
  · intro pair pos taken rest piece hne hr first ih s hs
    rcases List.mem_cons.mp hs with rfl | hs
    · exact ⟨[], taken, rest, rfl, hne, rfl, hr⟩
    · -- the first segment stands in front of a later one
      obtain ⟨before, taken', rest', rfl, hne', he, hr'⟩ := ih s hs
      refine ⟨taken ++ before, taken', rest', by simp, hne', ?_, hr'⟩
      rw [he]
      simp [Nat.add_assoc]

/-- What is read where a segment starts, if that place is known. -/
theorem ReadAt.rest {before tail : Bytes} {s : Segment} (h : ReadAt withGettext 0 text s)
    (htext : text = before ++ tail) (hs : s.extent.start = before.length) :
    ∃ taken rest, tail = taken ++ rest ∧ taken ≠ [] ∧
      s.extent.stop = before.length + taken.length ∧
      readPiece withGettext s.pair before.length tail = (s.piece, rest) := by
  obtain ⟨b, taken, rest, ht, hne, he, hr⟩ := h
  have hlen : b.length = before.length := by
    rw [he] at hs
    simpa using hs
  rw [htext, List.append_assoc] at ht
  have htail : tail = taken ++ rest := List.append_inj_right ht hlen.symm
  refine ⟨taken, rest, htail, hne, ?_, ?_⟩
  · rw [he]
    simp [hlen]
  · rw [hs] at hr
    rw [htail]
    exact hr

/-- A segment lies in the text and is not empty. -/
theorem extent_of_mem_segments {s : Segment} (hs : s ∈ segments withGettext pair pos text) :
    pos ≤ s.extent.start ∧ s.extent.start < s.extent.stop ∧ s.extent.stop ≤ pos + text.length := by
  obtain ⟨before, taken, rest, rfl, hne, he, -⟩ := readAt_of_mem_segments s hs
  have hpos := List.length_pos_iff.mpr hne
  rw [he]
  simp only [List.length_append]
  omega

/-- A segment starts where the text does. -/
theorem exists_mem_segments_start (withGettext : Bool) (pair : Delimiters) (pos : Nat)
    (hne : text ≠ []) :
    ∃ s ∈ segments withGettext pair pos text, s.extent.start = pos ∧ s.pair = pair := by
  rw [segments]
  simp only [hne, dif_neg, not_false_eq_true]
  exact ⟨_, List.mem_cons_self, rfl, rfl⟩

/-- A segment starts where another one ends, under the pair that it leaves in force. -/
theorem exists_mem_segments_next :
    ∀ s ∈ segments withGettext pair pos text, s.extent.stop < pos + text.length →
      ∃ next ∈ segments withGettext pair pos text,
        next.extent.start = s.extent.stop ∧ next.pair = s.pairAfter := by
  refine segments_induction (motive := fun _ pos text segs =>
    ∀ s ∈ segs, s.extent.stop < pos + text.length →
      ∃ next ∈ segs, next.extent.start = s.extent.stop ∧ next.pair = s.pairAfter) ?_ ?_ pair pos text
  · intro pair pos s hs
    cases hs
  · intro pair pos taken rest piece hne hr first ih s hs hlt
    rcases List.mem_cons.mp hs with rfl | hs
    · -- the text goes on, so another segment starts
      have hrest : rest ≠ [] := by
        rintro rfl
        simp [first] at hlt
      obtain ⟨next, hmem, hstart, hpair⟩ := exists_mem_segments_start withGettext
        first.pairAfter (pos + taken.length) hrest
      exact ⟨next, List.mem_cons_of_mem _ hmem, hstart, hpair⟩
    · have hlt' : s.extent.stop < pos + taken.length + rest.length := by
        simp only [List.length_append] at hlt
        omega
      obtain ⟨next, hmem, h⟩ := ih s hs hlt'
      exact ⟨next, List.mem_cons_of_mem _ hmem, h⟩

/-- Segments do not overlap. -/
theorem stop_le_of_mem_segments :
    ∀ s ∈ segments withGettext pair pos text, ∀ t ∈ segments withGettext pair pos text,
      s.extent.start < t.extent.start → s.extent.stop ≤ t.extent.start := by
  refine segments_induction (motive := fun _ _ _ segs =>
    ∀ s ∈ segs, ∀ t ∈ segs, s.extent.start < t.extent.start → s.extent.stop ≤ t.extent.start)
    ?_ ?_ pair pos text
  · intro pair pos s hs
    cases hs
  · intro pair pos taken rest piece hne hr first ih s hs t ht hlt
    rcases List.mem_cons.mp hs with rfl | hs <;> rcases List.mem_cons.mp ht with rfl | ht
    · omega
    · exact (extent_of_mem_segments ht).1
    · -- no later segment starts before the first one
      have hstart := (extent_of_mem_segments hs).1
      simp only [first] at hlt
      omega
    · exact ih s hs t ht hlt

/-- A segment that is read at an open delimiter is a mark. -/
theorem isMark_of_readMark {rest : Bytes} {s : Segment}
    (h : readMark withGettext pair pos text = (s.piece, rest)) : s.isMark = true := by
  obtain ⟨hrun, hend⟩ := ne_run_of_readMark h
  unfold Segment.isMark Segment.isRun Segment.isLineEnd
  cases hp : s.piece with
  | run run => exact absurd hp (hrun run)
  | lineEnd => exact absurd hp hend
  | _ => rfl

/-- A mark is what is read at the open delimiter where it starts. -/
theorem ReadAt.mark {s : Segment} (h : ReadAt withGettext pos text s) (hmark : s.isMark = true) :
    ∃ before taken rest, text = before ++ taken ++ rest ∧
      s.extent = ⟨pos + before.length, pos + before.length + taken.length⟩ ∧
      s.pair.openMark <+: taken ++ rest ∧
      readMark withGettext s.pair s.extent.start (taken ++ rest) = (s.piece, rest) := by
  obtain ⟨before, taken, rest, htext, hne, he, hr⟩ := h
  rcases cases_readPiece (by simp [hne]) hr with ⟨run, -, -, hp⟩ | ⟨-, hp⟩ | ⟨ho, -, hread⟩
  · simp [Segment.isMark, Segment.isRun, hp] at hmark
  · simp [Segment.isMark, Segment.isRun, Segment.isLineEnd, hp] at hmark
  · exact ⟨before, taken, rest, htext, he, ho, hread⟩

/-- A segment that is no mark is a run of text or a newline. -/
theorem ReadAt.unmarked {s : Segment} (h : ReadAt withGettext pos text s)
    (hmark : s.isMark = false) :
    ∃ before taken rest, text = before ++ taken ++ rest ∧
      s.extent = ⟨pos + before.length, pos + before.length + taken.length⟩ ∧
      ((∃ run, s.piece = .run run ∧ readRun s.pair (taken ++ rest) = (run, rest)) ∨
        (s.piece = .lineEnd ∧ taken = [newline])) := by
  obtain ⟨before, taken, rest, htext, hne, he, hr⟩ := h
  refine ⟨before, taken, rest, htext, he, ?_⟩
  rcases cases_readPiece (by simp [hne]) hr with ⟨run, -, hread, hp⟩ | ⟨hline, hp⟩ | ⟨-, -, hread⟩
  · exact .inl ⟨run, hp, hread⟩
  · exact .inr ⟨hp, List.append_cancel_right (show taken ++ rest = [newline] ++ rest from hline)⟩
  · rw [isMark_of_readMark hread] at hmark
    cases hmark

/-- A run of text starts with a literal byte, ends where none follows, and leaves the pair in force. -/
theorem textByte?_of_isRun {rest : Bytes} {s : Segment} (hne : text ≠ [])
    (h : readPiece withGettext s.pair pos text = (s.piece, rest)) (hrun : s.isRun = true) :
    textByte? s.pair text ≠ none ∧ textByte? s.pair rest = none ∧ s.pairAfter = s.pair := by
  rcases cases_readPiece hne h with ⟨run, hrun', hread, hp⟩ | ⟨-, hp⟩ | ⟨-, -, hmark⟩
  · refine ⟨?_, ?_, by simp [Segment.pairAfter, hp]⟩
    · intro hnone
      rw [readRun_of_none hnone] at hread
      exact hrun' (Prod.mk.inj hread).1.symm
    · have hnone := textByte?_readRun s.pair text
      rwa [hread] at hnone
  · simp [Segment.isRun, hp] at hrun
  · have h := isMark_of_readMark hmark
    simp [Segment.isMark, hrun] at h

/-- Segments stand one after the other, and between two runs of text there is something else. -/
theorem pairwise_segments :
    (segments withGettext pair pos text).Pairwise fun s t => s.extent.stop ≤ t.extent.start ∧
      (s.isRun = true → t.isRun = true → s.extent.stop < t.extent.start) := by
  -- the second part says that no run starts where a run before the text would have ended
  refine segments_induction (motive := fun pair pos text segs =>
    (segs.Pairwise fun s t => s.extent.stop ≤ t.extent.start ∧
      (s.isRun = true → t.isRun = true → s.extent.stop < t.extent.start)) ∧
    (textByte? pair text = none → ∀ s ∈ segs, s.isRun = true → pos < s.extent.start))
    ?_ ?_ pair pos text |>.1
  · intro pair pos
    exact ⟨.nil, by simp⟩
  · intro pair pos taken rest piece hne hr first ih
    obtain ⟨hrest, hapart⟩ := ih
    have hfirst : first.isRun = true → textByte? pair (taken ++ rest) ≠ none ∧
        textByte? pair rest = none ∧ first.pairAfter = pair :=
      textByte?_of_isRun (s := first) (by simp [hne]) hr
    constructor
    · refine List.pairwise_cons.mpr ⟨?_, hrest⟩
      intro t ht
      refine ⟨(extent_of_mem_segments ht).1, ?_⟩
      intro hrun hrun'
      obtain ⟨-, hnone, hpair⟩ := hfirst hrun
      rw [hpair] at hapart ht
      exact hapart hnone t ht hrun'
    · intro hnone s hs hrun
      rcases List.mem_cons.mp hs with rfl | hs
      · exact absurd hnone (hfirst hrun).1
      · have hstart := (extent_of_mem_segments hs).1
        have hpos := List.length_pos_iff.mpr hne
        omega

/-- Every byte of the text is in a segment. -/
theorem exists_mem_segments_of_lt {i : Nat} (hpos : pos ≤ i) (hlt : i < pos + text.length) :
    ∃ s ∈ segments withGettext pair pos text, s.extent.start ≤ i ∧ i < s.extent.stop := by
  refine segments_induction (motive := fun _ pos text segs =>
    pos ≤ i → i < pos + text.length → ∃ s ∈ segs, s.extent.start ≤ i ∧ i < s.extent.stop)
    ?_ ?_ pair pos text hpos hlt
  · intro pair pos hpos hlt
    rw [List.length_nil] at hlt
    omega
  · intro pair pos taken rest piece hne hr first ih hpos hlt
    by_cases hi : i < pos + taken.length
    · exact ⟨first, List.mem_cons_self, hpos, hi⟩
    · rw [List.length_append] at hlt
      obtain ⟨s, hs, hin⟩ := ih (by omega) (by omega)
      exact ⟨s, List.mem_cons_of_mem _ hs, hin⟩

/-- Only a delimiter change has another pair after it. -/
theorem isChain_segments :
    (segments withGettext pair pos text).IsChain fun s t => t.pair = s.pairAfter := by
  refine segments_induction (motive := fun pair _ _ segs =>
    (segs.IsChain fun s t => t.pair = s.pairAfter) ∧ ∀ s ∈ segs.head?, s.pair = pair)
    ?_ ?_ pair pos text |>.1
  · intro pair pos
    exact ⟨.nil, by simp⟩
  · intro pair pos taken rest piece hne hr first ih
    refine ⟨List.isChain_cons.mpr ⟨?_, ih.1⟩, by simp [first]⟩
    intro t ht
    exact ih.2 t ht

end TemplateLexer.Outline
