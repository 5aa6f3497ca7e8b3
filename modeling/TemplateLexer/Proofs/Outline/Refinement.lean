import TemplateLexer.Proofs.Outline.Loop

/-!
# The scan loop computes the outline

The scan loop collects the tokens of the line it is in and takes back the texts of a line that turns
out to be standalone. The outline knows whole lines from the start. This module shows that both
give the same.

* `Follows`: the invariant that ties a state between two segments to the segments read so far, those
  of the finished lines and those of the line being read;
* `Follows.push`, `Follows.finishLine`: one segment more, and the end of a line;
* `follows_close_run`: from any state the loop reads the segments that are left;
* `tokens_scan`, `faults_scan`, `notes_scan`, `scan_eq_outcome`: a scan gives what the outline says.
-/

namespace TemplateLexer.Outline

open Bytes Scan

/-! ## Lines of tokens -/

/-- Keeping tags one after the other is keeping each with its predecessor as indent. -/
theorem keepTags_eq_filter (before : Option Token) (tokens : List Token) :
    Line.keepTags (before.bind fun b => if b.isText then some b.value else none) tokens =
      (List.zipWith indented (before :: tokens.map some) tokens).filter Token.isTag := by
  induction tokens generalizing before with
  | nil => rfl
  | cons t rest ih =>
    have hkind : (indented before t).isTag = t.isTag := by
      unfold indented
      split
      · split <;> rfl
      · rfl
    simp only [Line.keepTags, List.map_cons, List.zipWith_cons_cons, List.filter_cons, hkind]
    -- either way the token is the predecessor of the next one
    by_cases ht : t.isText = true
    · have hr := ih (some t)
      simp only [Option.bind_some, ht, if_true] at hr
      simp [ht, Token.isTag, hr]
    · have hr := ih (some t)
      simp only [Option.bind_some, ht, if_false, Bool.false_eq_true] at hr
      have hi : Line.withIndent (before.bind fun b => if b.isText then some b.value else none) t =
          indented before t := by
        unfold Line.withIndent indented
        cases before with
        | none => rfl
        | some b => by_cases hb : b.isText = true <;> simp [hb]
      simp [ht, Token.isTag, hr, hi]

theorem keptTags_eq_keepTags (tokens : List Token) :
    keptTags tokens = Line.keepTags none tokens :=
  (keepTags_eq_filter none tokens).symm

/-- A text at the end of a line leaves no trace among its tags. -/
theorem keepTags_append_text {t : Token} (ht : t.isText = true) (before : Option Bytes)
    (tokens : List Token) : Line.keepTags before (tokens ++ [t]) = Line.keepTags before tokens := by
  induction tokens generalizing before with
  | nil => simp [Line.keepTags, ht]
  | cons u rest ih => simp [Line.keepTags, ih]

@[simp] theorem isText_textToken (s : Segment) (text : Bytes) : (s.textToken text).isText = true :=
  rfl

/-- The last touch to a tag keeps its kind. -/
@[simp] theorem kind_finish (pair : Delimiters) (kind : Kind) (stop : Nat) (t : Token) :
    (Tag.finish pair kind stop t).kind = t.kind := by
  unfold Tag.finish
  split
  · rfl
  · split <;> rfl

@[simp] theorem value_finish (pair : Delimiters) (kind : Kind) (stop : Nat) (t : Token) :
    (Tag.finish pair kind stop t).value = t.value := by
  unfold Tag.finish
  split
  · rfl
  · split <;> rfl

/-- Nothing shows on a line of tokens exactly if no segment of the line shows. -/
theorem isInvisible_filterMap_token? (withGettext : Bool) (line : List Segment) :
    Line.isInvisible (line.filterMap (Segment.token? withGettext)) =
      line.all (Segment.isQuiet withGettext) := by
  unfold Line.isInvisible
  rw [List.all_filterMap]
  congr 1
  funext s
  cases hs : s.piece with
  | run text => simp [Segment.token?, Segment.isQuiet, hs, Segment.textToken, Token.isText]
  | lineEnd =>
    -- a newline is blank
    have hb : allBlank [newline] = true := by decide
    simp [Segment.token?, Segment.isQuiet, hs, Segment.textToken, Token.isText, hb]
  | tag kind body closeAt =>
    simp only [Segment.token?, Segment.isQuiet, hs, kind_finish, value_finish, Token.isText,
      Tag.token]
    split
    · next hk =>
      have hk' := of_decide_eq_true hk
      simp [hk', Kind.isInterpolating, allBlank]
    · rfl
  | change spec => simp [Segment.token?, Segment.isQuiet, hs]
  | openTag => simp [Segment.token?, Segment.isQuiet, hs]
  | openChange => simp [Segment.token?, Segment.isQuiet, hs]

/-! ## The invariant -/

/-- The state `s` stands between two segments, outside tags and without pending bytes. It has read
the finished lines `done` and, of the line being read, the segments `line`. -/
structure Follows (withGettext : Bool) (given : Option Bytes) (done : List (List Segment))
    (line : List Segment) (s : State) : Prop where
  mode : s.mode = .text
  idle : s.pending = #[]
  settled : s.settled.toList = done.flatMap (lineTokens withGettext)
  tokens : s.line.toList = line.filterMap (Segment.token? withGettext)
  seenTag : s.seenTag = line.any Segment.isMark
  faults : s.faults.toList = startFaults given ++ (done.flatten ++ line).filterMap Segment.fault?
  notes : s.notes.toList = startNotes given ++ done.flatMap (lineNotes withGettext)
    ++ line.filterMap (Segment.note? withGettext)
  /-- No line end is left in the line being read. -/
  isOpen : ∀ t ∈ line, t.isLineEnd = false
  /-- The texts of the line being read are its runs. -/
  texts : Line.countTexts (line.filterMap (Segment.token? withGettext)) = line.countP Segment.isRun

variable {withGettext : Bool} {given : Option Bytes} {done : List (List Segment)}
  {line : List Segment} {s t : State}

/-- One segment more on the line being read: its token, its fault and its note are added. -/
theorem Follows.push {seg : Segment} (h : Follows withGettext given done line s)
    (hmode : t.mode = .text) (hidle : t.pending = #[]) (hsettled : t.settled = s.settled)
    (hline : t.line.toList = s.line.toList ++ (seg.token? withGettext).toList)
    (hseen : t.seenTag = (s.seenTag || seg.isMark))
    (hfaults : t.faults.toList = s.faults.toList ++ seg.fault?.toList)
    (hnotes : t.notes.toList = s.notes.toList ++ (seg.note? withGettext).toList)
    (hopen : seg.isLineEnd = false)
    (htext : (seg.token? withGettext).any Token.isText = seg.isRun) :
    Follows withGettext given done (line ++ [seg]) t where
  mode := hmode
  idle := hidle
  settled := hsettled ▸ h.settled
  tokens := by
    rw [hline, h.tokens, List.filterMap_append]
    cases hk : seg.token? withGettext <;> simp [hk]
  seenTag := by rw [hseen, h.seenTag, List.any_append]; simp
  faults := by
    rw [hfaults, h.faults, ← List.append_assoc done.flatten, List.filterMap_append (l := _ ++ _)]
    cases hk : seg.fault? <;> simp [hk]
  notes := by
    rw [hnotes, h.notes, List.filterMap_append]
    cases hk : seg.note? withGettext <;> simp [hk]
  isOpen := by
    intro u hu
    rcases List.mem_append.mp hu with hu | hu
    · exact h.isOpen u hu
    · rw [List.mem_singleton.mp hu]
      exact hopen
  texts := by
    rw [List.filterMap_append, Line.countTexts, List.countP_append, List.countP_append]
    rw [← Line.countTexts, h.texts]
    congr 1
    cases hk : seg.token? withGettext <;> simp [hk] at htext ⊢ <;> simp [htext]

/-- Where a state has read up to does not matter. -/
theorem Follows.skipTo (h : Follows withGettext given done line s) (rest : Bytes) :
    Follows withGettext given done line (skipTo s rest) :=
  ⟨h.mode, h.idle, h.settled, h.tokens, h.seenTag, h.faults, h.notes, h.isOpen, h.texts⟩

/-- A line is standalone by its tokens exactly if it is by its segments. -/
theorem Follows.isStandalone_eq (h : Follows withGettext given done line s) :
    (s.seenTag && Line.isInvisible s.line.toList) = isStandalone withGettext line := by
  rw [h.tokens, isInvisible_filterMap_token?, h.seenTag, isStandalone]

/-- The line end at an offset, if there is one. -/
def lineEndAt (pair : Delimiters) (stop : Nat) (newlineAtStop : Bool) : List Segment :=
  if newlineAtStop then [⟨pair, ⟨stop, stop + 1⟩, .lineEnd⟩] else []

/-- A line end shows nothing and starts no tag. -/
theorem isStandalone_append_lineEndAt (withGettext : Bool) (line : List Segment)
    (pair : Delimiters) (stop : Nat) (newlineAtStop : Bool) :
    isStandalone withGettext (line ++ lineEndAt pair stop newlineAtStop) =
      isStandalone withGettext line := by
  unfold lineEndAt
  split
  · simp [isStandalone, Segment.isMark, Segment.isQuiet, Segment.isRun, Segment.isLineEnd]
  · simp

/-- The end of a line, at a newline or at the end of the text. -/
theorem Follows.finishLine (h : Follows withGettext given done line s) (stop : Nat)
    (newlineAtStop : Bool) :
    Follows withGettext given (done ++ [line ++ lineEndAt s.pair stop newlineAtStop]) []
      (s.finishLine stop newlineAtStop) := by
  have hst := h.isStandalone_eq
  have hend := isStandalone_append_lineEndAt withGettext line s.pair stop newlineAtStop
  have htokens : (lineEndAt s.pair stop newlineAtStop).filterMap (Segment.token? withGettext) =
      if newlineAtStop then [s.textToken [newline] ⟨stop, stop + 1⟩] else [] := by
    unfold lineEndAt
    split <;> rfl
  have hfaults : (lineEndAt s.pair stop newlineAtStop).filterMap Segment.fault? = [] := by
    unfold lineEndAt
    split <;> rfl
  have hnotes : (lineEndAt s.pair stop newlineAtStop).filterMap (Segment.note? withGettext) = [] := by
    unfold lineEndAt
    split <;> rfl
  have hruns : (lineEndAt s.pair stop newlineAtStop).countP Segment.isRun = 0 := by
    unfold lineEndAt
    split <;> rfl
  rw [finishLine_of_idle h.idle]
  simp only [hst]
  refine ⟨h.mode, h.idle, ?_, rfl, rfl, ?_, ?_, by simp, rfl⟩
  · -- a standalone line keeps its tags, any other line all its tokens
    rw [List.flatMap_append, List.flatMap_singleton, lineTokens, hend, List.filterMap_append,
      htokens, keptTags_eq_keepTags]
    simp only [Array.toList_appendList, h.settled, h.tokens]
    congr 1
    split
    · split
      · rw [keepTags_append_text rfl]
      · rw [List.append_nil]
    · rfl
  · simp [h.faults, hfaults]
  · rw [List.flatMap_append, List.flatMap_singleton, lineNotes, hend, List.filterMap_append, hnotes,
      List.countP_append, hruns]
    simp only [List.filterMap_nil, List.append_nil, Nat.add_zero]
    split
    · rw [Array.toList_push, h.notes, h.tokens, h.texts]
      simp
    · rw [h.notes]
      simp

/-! ## One segment after the other -/

/-- No sigil stands for plain text. -/
theorem ofSigil_ne_text {b : UInt8} {kind : Kind} (h : Kind.ofSigil withGettext b = some kind) :
    kind ≠ .text := by
  rintro rfl
  obtain ⟨before, after, ht, -⟩ := List.lookup_eq_some_iff.mp h
  have hm : (b, Kind.text) ∈ Kind.sigilTable withGettext := by simp [ht]
  have hnone : ∀ on, ∀ entry ∈ Kind.sigilTable on, entry.2 ≠ .text := by decide
  exact hnone withGettext _ hm rfl

theorem classify_ne_text {kind : Kind} (h : kind ≠ .text) (body : Bytes) :
    (Tag.classify withGettext kind body).1 ≠ .text := by
  unfold Tag.classify
  dsimp only
  split
  · split
    · simp
    · exact h
  · exact h

/-- A run of text becomes a token of the line. -/
theorem Follows.afterRun (h : Follows withGettext given done line s)
    (hne : (readRun s.pair s.rest).1 ≠ []) :
    Follows withGettext given done
      (line ++ [⟨s.pair, ⟨s.pos, (afterRun s).pos⟩, .run (readRun s.pair s.rest).1⟩])
      ((afterRun s).flush (afterRun s).pos) := by
  have hflush : (Outline.afterRun s).flush (Outline.afterRun s).pos =
      { Outline.afterRun s with
        line := s.line.push (s.textToken (readRun s.pair s.rest).1 ⟨s.pos, (Outline.afterRun s).pos⟩)
        pending := #[] } := by
    simp [State.flush, Outline.afterRun, Outline.skipTo, h.idle, hne, State.textToken]
  rw [hflush]
  apply h.push
  · exact h.mode
  · rfl
  · rfl
  · simp [Segment.token?, Segment.textToken, State.textToken]
  · simp [Outline.afterRun, Outline.skipTo, Segment.isMark, Segment.isRun]
  · simp [Outline.afterRun, Outline.skipTo, Segment.fault?]
  · simp [Outline.afterRun, Outline.skipTo, Segment.note?]
  · rfl
  · rfl

theorem isMark_markAt (withGettext : Bool) (s : State) : (markAt withGettext s).isMark = true := by
  simp only [markAt, readMark]
  split
  · split <;> rfl
  · split <;> rfl

/-- No text token comes from a tag. -/
theorem any_isText_token?_markAt (withGettext : Bool) (s : State) :
    ((markAt withGettext s).token? withGettext).any Token.isText = false := by
  simp only [markAt, readMark]
  split
  · split <;> rfl
  · split
    · rfl
    · simp only [Segment.token?, Option.any_some, Token.isText, kind_finish, Tag.token,
        decide_eq_false_iff_not]
      apply classify_ne_text
      cases hk : (List.drop s.pair.openMark.length s.rest).head?.bind (Kind.ofSigil withGettext) with
      | none => simp
      | some kind =>
        obtain ⟨b, -, hb⟩ := Option.bind_eq_some_iff.mp hk
        exact ofSigil_ne_text hb

theorem Follows.afterMark (h : Follows withGettext given done line s) (begun : Nat) :
    Follows withGettext given done (line ++ [markAt withGettext s])
      (afterMark withGettext s begun) := by
  have hm := isMark_markAt withGettext s
  have hm' : (markAt withGettext s).isRun = false ∧ (markAt withGettext s).isLineEnd = false := by
    simpa [Segment.isMark] using hm
  apply h.push
  · rfl
  · rfl
  · rfl
  · simp [Outline.afterMark]
  · simp [Outline.afterMark, hm]
  · simp [Outline.afterMark]
  · simp [Outline.afterMark]
  · exact hm'.2
  · rw [any_isText_token?_markAt, hm'.1]

/-! ## The whole scan -/

/-- The end of the text ends the line being read, if anything is on it. -/
theorem Follows.finishLine_end (h : Follows withGettext given done line s) (stop : Nat) :
    Follows withGettext given (done ++ lines line) [] (s.finishLine stop false) := by
  have hf := h.finishLine stop false
  simp only [lineEndAt, Bool.false_eq_true, if_false, List.append_nil] at hf
  rw [lines, cutAfter_of_none h.isOpen]
  split
  · next hl =>
    subst hl
    -- an empty line gives nothing
    refine ⟨hf.mode, hf.idle, ?_, hf.tokens, hf.seenTag, ?_, ?_, hf.isOpen, hf.texts⟩
    · simpa [lineTokens, isStandalone] using hf.settled
    · simpa using hf.faults
    · simpa [lineNotes, isStandalone] using hf.notes
  · exact hf

/-- From a state between two segments, the loop reads the segments that are left. The induction is on
the text not read yet; each case reads one segment. -/
theorem follows_close_run (h : Follows withGettext given done line s) :
    Follows withGettext given
      (done ++ lines (line ++ segments withGettext s.pair s.pos s.rest)) []
      (run withGettext s).close := by
  induction hn : s.rest.length using Nat.strongRecOn generalizing s done line with
  | ind n ih =>
    subst hn
    cases hb : textByte? s.pair s.rest with
    | some p =>
      -- a run: it is read to its end and becomes a token
      have hne := readRun_ne_nil hb
      have hlt : ((afterRun s).flush (afterRun s).pos).rest.length < s.rest.length := by
        simpa [afterRun, skipTo] using length_readRun_lt hne
      have hm : (afterRun s).mode = .text := h.mode
      have hrec := ih _ hlt (h.afterRun hne) rfl
      rw [run_readRun withGettext s h.mode, close_run_flush withGettext hm
        (textByte?_readRun s.pair s.rest), segments_run withGettext s.pos rfl hne]
      simpa [flush_pos, flush_pair, afterRun, skipTo] using hrec
    | none =>
      rcases cases_of_textByte?_eq_none hb with hr | ⟨rest, hr⟩ | ⟨hp, he⟩
      · -- the end of the text
        have hend := h.finishLine_end s.pos
        rw [run_of_rest_eq_nil hr, hr, segments_nil, List.append_nil]
        simp only [State.close, h.mode]
        exact ⟨rfl, hend.idle, hend.settled, hend.tokens, hend.seenTag, hend.faults, hend.notes,
          hend.isOpen, hend.texts⟩
      · -- a newline: the line is finished
        have hline := (h.skipTo rest).finishLine s.pos true
        have hlt : ((skipTo s rest).finishLine s.pos true).rest.length < s.rest.length := by
          simp [skipTo, hr]
        have hrec := ih _ hlt hline rfl
        have hne : s.rest ≠ [] := by simp [hr]
        have hpos : (skipTo s rest).pos = s.pos + 1 := by simp [skipTo, hr]
        rw [run_eq_run_step hne, step_of_newline h.mode hr, hr, segments_newline,
          lines, cutAfter_append_end h.isOpen rfl]
        rw [State.finishLine_rest, finishLine_pos, finishLine_pair, hpos] at hrec
        simpa [lineEndAt, skipTo, lines] using hrec
      · -- a tag or a delimiter change
        obtain ⟨begun, hrun⟩ := exists_run_mark h.mode h.idle hp he
        have hlt : (afterMark withGettext s begun).rest.length < s.rest.length :=
          length_readMark_lt withGettext s.pair s.pos (ne_nil_of_open hp)
        have hrec := ih _ hlt (h.afterMark begun) rfl
        rw [hrun, segments_mark withGettext s.pos hp he (s := markAt withGettext s) rfl]
        simpa [afterMark, skipTo, markAt] using hrec

theorem start_eq (text : Bytes) (given : Option Bytes) :
    State.start text given =
      match givenPair given with
      | none => { rest := text }
      | some (.error e) => State.report { rest := text } ⟨.invalidOverride e, ⟨0, 0⟩⟩
      | some (.ok pair) => State.note { rest := text, pair } (.delimitersGiven pair) := by
  unfold State.start State.override givenPair
  cases given with
  | none => rfl
  | some spec =>
    by_cases hb : allBlank spec = true
    · simp [hb]
    · cases hd : Delimiters.parse spec <;> simp [hb, hd]

/-- A scan starts between two segments, with nothing read. -/
theorem follows_start (withGettext : Bool) (text : Bytes) (given : Option Bytes) :
    Follows withGettext given [] [] (State.start text given) := by
  rw [start_eq]
  match hg : givenPair given with
  | none =>
    exact ⟨rfl, rfl, rfl, rfl, rfl, by simp [startFaults, hg], by simp [startNotes, hg], by simp,
      rfl⟩
  | some (.error e) =>
    exact ⟨rfl, rfl, rfl, rfl, rfl, by simp [startFaults, hg, State.report, State.note],
      by simp [startNotes, hg, State.report, State.note], by simp, rfl⟩
  | some (.ok pair) =>
    exact ⟨rfl, rfl, rfl, rfl, rfl, by simp [startFaults, hg, State.note],
      by simp [startNotes, hg, State.note], by simp, rfl⟩

/-- It starts with the pair of the outline at the beginning of the text. -/
theorem start_place (text : Bytes) (given : Option Bytes) :
    (State.start text given).pair = startPair given ∧
      (State.start text given).pos = 0 ∧ (State.start text given).rest = text := by
  rw [start_eq, startPair]
  match givenPair given with
  | none => exact ⟨rfl, rfl, rfl⟩
  | some (.error e) => exact ⟨rfl, rfl, rfl⟩
  | some (.ok pair) => exact ⟨rfl, rfl, rfl⟩

/-- The final state of a scan has read all segments. -/
theorem follows_final (withGettext : Bool) (text : Bytes) (given : Option Bytes) :
    Follows withGettext given (lines (outline withGettext text given)) []
      (final withGettext text given) := by
  obtain ⟨hpair, hpos, hrest⟩ := start_place text given
  have hend := follows_close_run (follows_start withGettext text given)
  rwa [hpair, hpos, hrest, List.nil_append, List.nil_append] at hend

section scan

variable (withGettext : Bool) (source : Source) (given : Option Bytes)

theorem tokens_scan :
    (scan withGettext source given).tokens = tokens withGettext source.text given :=
  (follows_final withGettext source.text given).settled

theorem faults_scan :
    (scan withGettext source given).faults = faults withGettext source.text given := by
  have h := (follows_final withGettext source.text given).faults
  rwa [List.append_nil, lines, flatten_cutAfter] at h

theorem notes_scan :
    (scan withGettext source given).notes = notes withGettext source.text given ++
      [.scanned source.name (tokens withGettext source.text given).length
        (faults withGettext source.text given).length] := by
  have h := (follows_final withGettext source.text given).notes
  rw [List.filterMap_nil, List.append_nil] at h
  rw [← tokens_scan, ← faults_scan]
  simp only [scan, State.outcome, h, notes, Array.length_toList]

/-- **A scan gives what the outline says**, its tokens, its faults and its notes: the loop that reads
a byte at a time, and takes back the texts of standalone lines, is cutting the text into segments
and each line of them into tokens. -/
theorem scan_eq_outcome : scan withGettext source given = outcome withGettext source given := by
  calc scan withGettext source given
      = ⟨(scan withGettext source given).tokens, (scan withGettext source given).faults,
          (scan withGettext source given).notes⟩ := rfl
    _ = outcome withGettext source given := by
        rw [tokens_scan, faults_scan, notes_scan]
        rfl

end scan

end TemplateLexer.Outline
