import TemplateLexer.Proofs.Rebuild.RoundTrip
import TemplateLexer.Proofs.Tokens.Decoding

/-!
# Tokens tile the text

The spans of the tokens of a scan stand one after the other, and no byte of the text is lost silently
(`tiles_of_length_lt`): one that is in no token belongs to a delimiter change, to the tag that the text
ends in, or is a blank of a standalone line (`Omitted`).

Segments tile the text by the way they are read (`pairwise_segments`, `exists_mem_segments_of_lt`). Tokens
come from them in their order, which gives the order of spans; and a segment that gives no token is
looked at to say why (`omitted_of_mem_outline`).
-/

namespace TemplateLexer.Outline

open Bytes Rebuild

variable {withGettext : Bool}

/-! ## What is left out -/

/-- Is the fault a tag or a delimiter change that the text ends in? -/
def isTail (f : Fault) : Bool :=
  match f.cause with
  | .unterminatedTag _ | .unterminatedChange _ => true
  | _ => false

/-- Why a byte of a template may be in no token. -/
inductive Omitted (withGettext : Bool) (source : Source) (given : Option Bytes) (i : Nat) : Prop
  /-- It belongs to a delimiter change, which has an effect or is a fault. -/
  | change {s : Segment} {before spec after : Bytes}
      (mem : s ∈ outline withGettext source.text given)
      (written : source.text =
        before ++ (s.pair.openMark ++ equalsSign :: (spec ++ s.pair.changeMark)) ++ after)
      (start : before.length = s.extent.start)
      (stop : (before ++ (s.pair.openMark ++ equalsSign :: (spec ++ s.pair.changeMark))).length =
        s.extent.stop)
      (inside : s.extent.start ≤ i ∧ i < s.extent.stop)
      (seen : (∃ pair, Delimiters.parse spec = .ok pair ∧
          .delimitersChanged pair s.extent.start ∈ (scan withGettext source given).notes) ∨
        ∃ e, Delimiters.parse spec = .error e ∧
          ⟨.invalidChange e, s.extent⟩ ∈ (scan withGettext source given).faults)
  /-- It belongs to what the text ends in, and that is a fault. -/
  | tail {f : Fault} (mem : f ∈ (scan withGettext source given).faults) (tail : isTail f = true)
      (start : f.extent.start ≤ i) (stop : f.extent.stop = source.text.length)
  /-- It is a blank outside the tags of a standalone line. -/
  | blank {line : List Segment} {s : Segment} {b : UInt8}
      (line_mem : line ∈ lines (outline withGettext source.text given))
      (standalone : isStandalone withGettext line = true) (mem : s ∈ line)
      (unmarked : s.isMark = false) (inside : s.extent.start ≤ i ∧ i < s.extent.stop)
      (byte : source.text[i]? = some b) (blank : isBlank b = true)

/-- The tokens of a scan tile the text, but for what is left out for a reason. -/
structure Tiles (withGettext : Bool) (source : Source) (given : Option Bytes) : Prop where
  /-- Spans are not empty and lie in the text, and indices lie in their spans. -/
  inside : ∀ p ∈ spannedTokens withGettext source given, p.2.start < p.2.stop ∧
    p.2.stop ≤ source.text.length ∧ p.2.start ≤ p.1.index ∧ p.1.index ≤ p.2.stop
  ordered : (spannedTokens withGettext source given).Pairwise fun p q =>
    p.2.start < q.2.start ∧ p.2.stop ≤ q.2.start ∧ p.1.index ≤ q.1.index
  /-- Texts that touch are parted by a newline. -/
  maximal : (spannedTokens withGettext source given).Pairwise fun p q =>
    p.1.isText = true → q.1.isText = true → p.2.stop = q.2.start →
      newline ∈ p.1.value ∨ newline ∈ q.1.value
  /-- At most one fault is about the end of the text. -/
  oneTail : (scan withGettext source given).faults.Pairwise fun f g =>
    ¬ (isTail f = true ∧ isTail g = true)
  covered : ∀ i < source.text.length,
    (∃ p ∈ spannedTokens withGettext source given, p.2.start ≤ i ∧ i < p.2.stop) ∨
      Omitted withGettext source given i

/-! ## Order -/

section order

variable {text : Bytes} {s s' : Segment} {t t' : Token}

/-- The index of a token lies in its slice. -/
theorem Slice.index_bounds {start stop : Nat} (h : Slice withGettext text t start stop)
    (hlt : start < stop) : start ≤ t.index ∧ t.index ≤ stop := by
  cases htext : t.isText with
  | true =>
    rw [(h.1 htext).index]
    omega
  | false =>
    obtain ⟨sigil, body, htag⟩ := h.2 (by simp [Token.isTag, htext])
    obtain ⟨before, after, hplace, hstart⟩ := htag.place
    have hpast : start ≤ pastClose t start sigil body ∧
        pastClose t start sigil body ≤ text.length := by
      have hlength := congrArg List.length hplace
      unfold pastClose
      simp only [List.length_append] at hlength ⊢
      omega
    have hstop := htag.stop
    rw [htag.index]
    split at hstop
    · split <;> omega
    · split <;> omega

/-- A text without a newline comes from a run. -/
theorem Gives.isRun (h : Gives withGettext s t) (hs : ReadAt withGettext 0 text s)
    (htext : t.isText = true) (hnl : newline ∉ t.value) : s.isRun = true := by
  obtain ⟨u, hu, hindent⟩ := h
  have hu' : u.isText = true ∧ newline ∉ u.value := by
    rcases hindent with rfl | ⟨-, indent, -, rfl⟩
    · exact ⟨htext, hnl⟩
    · exact ⟨htext, hnl⟩
  obtain ⟨hmark, hend, -⟩ := token?_eq hs hu
  have hline : u.endsLine = false := by
    simp only [Token.endsLine, Bool.and_eq_false_iff, decide_eq_false_iff_not]
    refine .inr ?_
    intro hv
    exact hu'.2 (hv ▸ List.mem_cons_self)
  rw [Token.isTag, hu'.1, Segment.isMark, ← hend, hline] at hmark
  simpa using hmark

/-- Tokens stand one after the other, and between two texts without newlines there is something else. -/
theorem pairwise_tokens (withGettext : Bool) (text : Bytes) (given : Option Bytes) :
    (tokens withGettext text given).Pairwise fun t t' => t.extent.stop ≤ t'.extent.start ∧
      (t.isText = true → t'.isText = true → newline ∉ t.value → newline ∉ t'.value →
        t.extent.stop < t'.extent.start) := by
  refine (comeFrom_outline withGettext text given).pairwise pairwise_segments ?_
  intro s hs s' hs' t t' hg hg' hsegs
  have hread := readAt_of_mem_segments s hs
  have hread' := readAt_of_mem_segments s' hs'
  rw [hg.extent_eq hread, hg'.extent_eq hread']
  refine ⟨hsegs.1, ?_⟩
  intro htext htext' hnl hnl'
  exact hsegs.2 (hg.isRun hread htext hnl) (hg'.isRun hread' htext' hnl')

end order

/-! ## The end of the text -/

/-- Does the text end in the segment before the segment does? -/
def Segment.isOpen (s : Segment) : Bool :=
  match s.piece with
  | .openTag | .openChange => true
  | _ => false

theorem isTail_of_fault? {s : Segment} {f : Fault} (h : s.fault? = some f) : isTail f = s.isOpen := by
  unfold Segment.fault? at h
  unfold Segment.isOpen
  cases hp : s.piece with
  | change spec =>
    rw [hp] at h
    cases hd : Delimiters.parse spec with
    | error e =>
      simp only [hd] at h
      cases h
      rfl
    | ok pair => simp [hd] at h
  | openTag =>
    simp only [hp] at h
    cases h
    rfl
  | openChange =>
    simp only [hp] at h
    cases h
    rfl
  | _ => simp [hp] at h

/-- Nothing is left after a mark that does not end. -/
theorem stop_of_isOpen {pos : Nat} {text : Bytes} {s : Segment} (hs : ReadAt withGettext pos text s)
    (hopen : s.isOpen = true) : s.extent.stop = pos + text.length := by
  have hmark : s.isMark = true := by
    unfold Segment.isOpen at hopen
    unfold Segment.isMark Segment.isRun Segment.isLineEnd
    split at hopen
    · next hp => simp [hp]
    · next hp => simp [hp]
    · cases hopen
  obtain ⟨before, taken, rest, rfl, he, -, hread⟩ := hs.mark hmark
  have hrest : rest = [] := by
    unfold Segment.isOpen at hopen
    unfold readMark at hread
    dsimp only at hread
    split at hread
    · split at hread
      · exact (Prod.mk.inj hread).2.symm
      · simp [← (Prod.mk.inj hread).1] at hopen
    · split at hread
      · exact (Prod.mk.inj hread).2.symm
      · simp [← (Prod.mk.inj hread).1] at hopen
  rw [he, hrest]
  simp only [List.length_append, List.length_nil]
  omega

/-- A text ends in one segment, so there is one fault about its end. -/
theorem pairwise_faults (withGettext : Bool) (text : Bytes) (given : Option Bytes) :
    (faults withGettext text given).Pairwise fun f g => ¬ (isTail f = true ∧ isTail g = true) := by
  have hstart : ∀ f ∈ startFaults given, isTail f = false := by
    intro f hf
    unfold startFaults at hf
    split at hf
    · rw [List.mem_singleton.mp hf]
      rfl
    · cases hf
  refine List.pairwise_append.mpr ⟨?_, ?_, ?_⟩
  · unfold startFaults
    split
    · exact List.pairwise_singleton _ _
    · exact .nil
  · refine List.pairwise_filterMap.mpr ?_
    have hsegs : (outline withGettext text given).Pairwise fun s t =>
        s.extent.stop ≤ t.extent.start ∧ (s.isRun = true → t.isRun = true →
          s.extent.stop < t.extent.start) := pairwise_segments
    refine hsegs.imp_of_mem ?_
    rintro s t hs ht ⟨hle, -⟩ f hf g hg ⟨htail, htail'⟩
    rw [isTail_of_fault? hf] at htail
    rw [isTail_of_fault? hg] at htail'
    have hstop := stop_of_isOpen (readAt_of_mem_segments s hs) htail
    have hstop' := stop_of_isOpen (readAt_of_mem_segments t ht) htail'
    have hlt := (extent_of_mem_segments ht).2.1
    omega
  · rintro f hf g - ⟨htail, -⟩
    rw [hstart f hf] at htail
    cases htail

/-! ## What no token takes -/

/-- Only blanks are resolved into blanks, because no open delimiter starts with one. -/
theorem allBlank_of_unescape {openMark text : Bytes} (hfree : BlankFree openMark)
    (h : allBlank (unescape openMark text) = true) : allBlank text = true := by
  fun_induction unescape openMark text with
  | case1 => exact h
  | case2 b => exact h
  | case3 b c rest hescape ih =>
    -- an escape is resolved into a byte of the open delimiter
    have hblank := List.all_eq_true.mp h c List.mem_cons_self
    rw [hfree c (List.mem_of_mem_head? hescape.2)] at hblank
    cases hblank
  | case4 b c rest hkept ih =>
    rw [allBlank, List.all_cons, Bool.and_eq_true] at h ⊢
    exact ⟨h.1, ih h.2⟩

section omitted

variable {source : Source} {text : Bytes} {given : Option Bytes} {s : Segment} {i : Nat}

/-- What shows nothing and is no mark takes only blanks. -/
theorem exists_blank (hs : ReadAt withGettext 0 text s) (hmark : s.isMark = false)
    (hquiet : s.isQuiet withGettext = true) (hi : s.extent.start ≤ i ∧ i < s.extent.stop) :
    ∃ b, text[i]? = some b ∧ isBlank b = true := by
  obtain ⟨before, taken, rest, rfl, he, hpiece⟩ := hs.unmarked hmark
  have hblank : allBlank taken = true := by
    rcases hpiece with ⟨run, hp, hread⟩ | ⟨-, rfl⟩
    · rw [Segment.isQuiet, hp] at hquiet
      rw [(eq_unescape_of_readRun hread).1] at hquiet
      exact allBlank_of_unescape s.pair.open_blankFree hquiet
    · decide
  rw [he, Nat.zero_add] at hi
  obtain ⟨hstart, hstop⟩ : before.length ≤ i ∧ i < before.length + taken.length := hi
  have hlt : i - before.length < taken.length := by omega
  refine ⟨taken[i - before.length], ?_, ?_⟩
  · rw [List.append_assoc, List.getElem?_append_right hstart, List.getElem?_append_left hlt,
      List.getElem?_eq_getElem hlt]
  · exact List.all_eq_true.mp hblank _ (List.getElem_mem hlt)

theorem exists_line_of_mem_outline (hs : s ∈ outline withGettext text given) :
    ∃ line ∈ lines (outline withGettext text given), s ∈ line := by
  rw [← flatten_cutAfter Segment.isLineEnd (outline withGettext text given)] at hs
  exact List.mem_flatten.mp hs

/-- A segment with a token gives it, or it is text on a standalone line. -/
theorem mem_tokens_or_standalone {u : Token} (hs : s ∈ outline withGettext text given)
    (hu : s.token? withGettext = some u) :
    (∃ t ∈ tokens withGettext text given, t.extent = s.extent) ∨
      (s.isMark = false ∧ ∃ line ∈ lines (outline withGettext text given),
        isStandalone withGettext line = true ∧ s ∈ line) := by
  have hread := readAt_of_mem_segments s hs
  obtain ⟨line, hline, hmem⟩ := exists_line_of_mem_outline hs
  have hmem' : u ∈ line.filterMap (Segment.token? withGettext) := List.mem_filterMap.mpr ⟨s, hmem, hu⟩
  cases hst : isStandalone withGettext line with
  | false =>
    refine .inl ⟨u, List.mem_flatMap.mpr ⟨line, hline, ?_⟩, extent_of_token? hread hu⟩
    simpa [lineTokens, hst] using hmem'
  | true =>
    cases hmark : s.isMark with
    | false => exact .inr ⟨rfl, line, hline, hst, hmem⟩
    | true =>
      -- a tag stays
      have htag : u.isTag = true := (token?_eq hread hu).1.trans hmark
      obtain ⟨t, ht, he⟩ : ∃ t ∈ Line.keepTags none (line.filterMap (Segment.token? withGettext)),
          t.extent = u.extent := exists_mem_keepTags hmem' htag
      refine .inl ⟨t, List.mem_flatMap.mpr ⟨line, hline, ?_⟩, he.trans (extent_of_token? hread hu)⟩
      simpa [lineTokens, hst, keptTags_eq_keepTags] using ht

/-- A delimiter change that is read as a pair is noted. -/
theorem mem_notes_of_change {text spec : Bytes} {pair : Delimiters}
    (hs : s ∈ outline withGettext text given) (hp : s.piece = .change spec)
    (hd : Delimiters.parse spec = .ok pair) :
    .delimitersChanged pair s.extent.start ∈ notes withGettext text given := by
  obtain ⟨line, hline, hmem⟩ := exists_line_of_mem_outline hs
  have hnote : Note.delimitersChanged pair s.extent.start ∈ lineNotes withGettext line := by
    refine List.mem_append_left _ (List.mem_filterMap.mpr ⟨s, hmem, ?_⟩)
    simp [Segment.note?, hp, hd]
  exact List.mem_append_right _ (List.mem_flatMap.mpr ⟨line, hline, hnote⟩)

/-- A delimiter change leaves a note or a fault. -/
theorem omitted_of_change {spec : Bytes} (hs : s ∈ outline withGettext source.text given)
    (hp : s.piece = .change spec) (hi : s.extent.start ≤ i ∧ i < s.extent.stop) :
    Omitted withGettext source given i := by
  have hmark : s.isMark = true := by simp [Segment.isMark, Segment.isRun, Segment.isLineEnd, hp]
  obtain ⟨before, taken, rest, htext, he, ho, hread⟩ := (readAt_of_mem_segments s hs).mark hmark
  rw [Nat.zero_add] at he
  rw [hp] at hread
  have htaken : taken = s.pair.openMark ++ equalsSign :: (spec ++ s.pair.changeMark) := by
    refine List.append_cancel_right ((eq_of_readMark_change ho hread).1.trans ?_)
    simp
  subst htaken
  refine .change hs htext (by rw [he]) (by rw [he, List.length_append]) hi ?_
  cases hd : Delimiters.parse spec with
  | ok pair =>
    refine .inl ⟨pair, rfl, ?_⟩
    rw [notes_scan]
    exact List.mem_append_left _ (mem_notes_of_change hs hp hd)
  | error e =>
    refine .inr ⟨e, rfl, ?_⟩
    rw [faults_scan]
    refine List.mem_append_right _ (List.mem_filterMap.mpr ⟨s, hs, ?_⟩)
    simp [Segment.fault?, hp, hd]

/-- What the text ends in leaves a fault. -/
theorem omitted_of_isOpen (hs : s ∈ outline withGettext source.text given) (hopen : s.isOpen = true)
    (hi : s.extent.start ≤ i) : Omitted withGettext source given i := by
  obtain ⟨f, hf⟩ : ∃ f, s.fault? = some f := by
    unfold Segment.isOpen at hopen
    split at hopen
    · next hp => exact ⟨_, by rw [Segment.fault?, hp]⟩
    · next hp => exact ⟨_, by rw [Segment.fault?, hp]⟩
    · cases hopen
  have hstop := stop_of_isOpen (readAt_of_mem_segments s hs) hopen
  have hext := extent_of_fault? hf
  refine .tail (f := f) ?_ ((isTail_of_fault? hf).trans hopen) (by rw [hext]; exact hi) ?_
  · rw [faults_scan]
    exact List.mem_append_right _ (List.mem_filterMap.mpr ⟨s, hs, hf⟩)
  · rw [hext, hstop, Nat.zero_add]

/-- Every byte is in a token, or there is a reason why not. -/
theorem mem_tokens_or_omitted (hi : i < source.text.length) :
    (∃ t ∈ tokens withGettext source.text given, t.extent.start ≤ i ∧ i < t.extent.stop) ∨
      Omitted withGettext source given i := by
  obtain ⟨s, hs, hin⟩ : ∃ s ∈ outline withGettext source.text given,
      s.extent.start ≤ i ∧ i < s.extent.stop :=
    exists_mem_segments_of_lt (Nat.zero_le i) (by omega)
  cases hu : s.token? withGettext with
  | some u =>
    rcases mem_tokens_or_standalone hs hu with ⟨t, ht, he⟩ | ⟨hmark, line, hline, hst, hmem⟩
    · exact .inl ⟨t, ht, by rwa [he]⟩
    · obtain ⟨b, hb, hblank⟩ := exists_blank (readAt_of_mem_segments s hs) hmark
        (isQuiet_of_isStandalone hst s hmem) hin
      exact .inr (.blank hline hst hmem hmark hin hb hblank)
  | none =>
    refine .inr ?_
    cases hp : s.piece with
    | change spec => exact omitted_of_change hs hp hin
    | openTag => exact omitted_of_isOpen hs (by rw [Segment.isOpen, hp]) hin.1
    | openChange => exact omitted_of_isOpen hs (by rw [Segment.isOpen, hp]) hin.1
    | run run => simp [Segment.token?, hp] at hu
    | lineEnd => simp [Segment.token?, hp] at hu
    | tag kind body closeAt => simp [Segment.token?, hp] at hu

end omitted

/-! ## The whole scan -/

/-- **Tokens tile the text.** In a text that offsets can tell the places of, the spans of the tokens stand
one after the other, runs of text are as long as they can be, and every byte is in a token or left out
for a reason. -/
theorem tiles_of_length_lt {source : Source} {given : Option Bytes}
    (h : source.text.length < UInt32.size) : Tiles withGettext source given := by
  have hspan : ∀ t ∈ tokens withGettext source.text given,
      (source.span t.extent).start = t.extent.start ∧ (source.span t.extent).stop = t.extent.stop :=
    fun t ht => span_of_mem_tokens h ht
  have hinside : ∀ p ∈ spannedTokens withGettext source given, p.2.start < p.2.stop ∧
      p.2.stop ≤ source.text.length ∧ p.2.start ≤ p.1.index ∧ p.1.index ≤ p.2.stop := by
    rintro ⟨t, span⟩ hp
    obtain ⟨ht, rfl⟩ := mem_spannedTokens_iff.mp hp
    obtain ⟨s, hs, hread, hg⟩ := exists_gives_of_mem_tokens ht
    have hext := extent_of_mem_segments hs
    dsimp only
    rw [(hspan t ht).1, (hspan t ht).2, hg.extent_eq hread]
    exact ⟨hext.2.1, by omega, (hg.slice hread).index_bounds hext.2.1⟩
  -- what is known of the extents of tokens is known of their spans
  have hpairs : (spannedTokens withGettext source given).Pairwise fun p q =>
      p.2.stop ≤ q.2.start ∧ (p.1.isText = true → q.1.isText = true → newline ∉ p.1.value →
        newline ∉ q.1.value → p.2.stop < q.2.start) := by
    rw [spannedTokens, tokens_scan, List.pairwise_map]
    refine (pairwise_tokens withGettext source.text given).imp_of_mem ?_
    intro t t' ht ht' hext
    rwa [(hspan t ht).2, (hspan t' ht').1]
  refine ⟨hinside, ?_, ?_, ?_, ?_⟩
  · refine hpairs.imp_of_mem ?_
    rintro p q hp hq ⟨hle, -⟩
    have hbp := hinside p hp
    have hbq := hinside q hq
    omega
  · refine hpairs.imp ?_
    rintro p q ⟨-, hlt⟩ htext htext' heq
    by_contra hnl
    rw [not_or] at hnl
    have hlt' := hlt htext htext' hnl.1 hnl.2
    omega
  · rw [faults_scan]
    exact pairwise_faults withGettext source.text given
  · intro i hi
    rcases mem_tokens_or_omitted hi with ⟨t, ht, hin⟩ | homitted
    · refine .inl ⟨(t, source.span t.extent), mem_spannedTokens_iff.mpr ⟨ht, rfl⟩, ?_⟩
      rwa [(hspan t ht).1, (hspan t ht).2]
    · exact .inr homitted

/-- A delimiter change, a standalone line, and a tag that the text ends in. -/
def gappedSource : Source :=
  .ofText [] (ascii "a\x7b\x7b=[ ]=\x7d\x7d\n  [#s]\nb[c")

/-- The change, the blanks of the standalone line and the open tag are in no token. -/
theorem tiles_gappedSource :
    gappedSource.text.length < UInt32.size ∧
      (spannedTokens false gappedSource none).map (fun p => (p.2.start, p.2.stop)) =
        [(0, 1), (10, 11), (13, 17), (18, 19)] ∧
      Tiles false gappedSource none := by
  have hlength : gappedSource.text.length < UInt32.size := by decide
  refine ⟨hlength, ?_, tiles_of_length_lt hlength⟩
  decide +kernel

end TemplateLexer.Outline
