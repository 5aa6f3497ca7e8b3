import TemplateLexer.Proofs.Bytes.Search
import TemplateLexer.Proofs.Outline.Basic

/-!
# What the scan loop reads

The scan loop reads a byte at a time and keeps the run or body it is in as pending bytes. Here its
steps are put together until a whole segment of the outline is read.

* `run_readRun`: a run of text is read to its end, and `close_run_flush` makes a token of it;
* `exists_run_body`, `exists_run_openBody`: a body is read up to the first close delimiter, or to the
  end of the text if there is none;
* `afterMark`: the state after a tag or delimiter change, by the outline;
* `exists_run_mark`: the loop gets from an open delimiter to that state.
-/

namespace TemplateLexer.Outline

open Bytes Scan

/-! ## Reading runs and bodies -/

theorem run_of_rest_eq_nil {withGettext : Bool} {s : State} (h : s.rest = []) :
    run withGettext s = s := by
  rw [run]
  simp [h]

theorem run_eq_run_step {withGettext : Bool} {s : State} (h : s.rest ≠ []) :
    run withGettext s = run withGettext (step withGettext s) := by
  rw [run]
  simp [h]

/-- The state at the place where `rest` is left to read. -/
def skipTo (s : State) (rest : Bytes) : State :=
  { s with rest, pos := s.pos + (s.rest.length - rest.length) }

theorem advance_eq_skipTo (s : State) (n : Nat) : s.advance n = skipTo s (s.rest.drop n) := by
  simp only [State.advance, skipTo, List.length_take, List.length_drop]
  congr 2
  omega

theorem buffer_eq (s : State) (b : UInt8) :
    s.buffer b =
      { s with
        pending := s.pending.push b
        pendingStart := if s.pending.isEmpty then s.pos else s.pendingStart } := by
  unfold State.buffer
  split
  · next hp =>
    have hp' : s.pending = #[] := by simpa using hp
    simp [hp']
  · rfl

/-- A literal byte joins the pending bytes. -/
theorem step_of_textByte? {withGettext : Bool} {s : State} {b : UInt8} {rest : Bytes}
    (hm : s.mode = .text) (h : textByte? s.pair s.rest = some (b, rest)) :
    step withGettext s = skipTo (s.buffer b) rest := by
  unfold textByte? at h
  unfold step
  rw [hm]
  unfold stepText
  cases hc : escapedByte? s.pair s.rest with
  | some c =>
    rw [hc] at h
    cases h
    simp only [advance_eq_skipTo, State.buffer_rest]
  | none =>
    rw [hc] at h
    dsimp only at h ⊢
    split at h
    · cases h
    · next hp =>
      rw [if_neg hp]
      cases hr : s.rest with
      | nil =>
        rw [hr] at h
        cases h
      | cons c tail =>
        rw [hr] at h
        dsimp only at h ⊢
        split at h
        · cases h
        · next hb =>
          cases h
          rw [if_neg hb, advance_eq_skipTo, State.buffer_rest, hr]
          rfl

/-- The state after the run at the front of the unread text, whose bytes are pending. -/
def afterRun (s : State) : State :=
  let read := readRun s.pair s.rest
  { skipTo s read.2 with
    pending := s.pending ++ read.1.toArray
    pendingStart := if s.pending.isEmpty && !read.1.isEmpty then s.pos else s.pendingStart }

/-- The pair and the mode stay where a literal byte is read, so the rest of the run is read in the
same way. -/
theorem afterRun_skipTo_buffer {s : State} {b : UInt8} {rest : Bytes}
    (h : textByte? s.pair s.rest = some (b, rest)) :
    afterRun (skipTo (s.buffer b) rest) = afterRun s := by
  have hlt := length_lt_of_textByte? h
  have hle := length_readRun_le s.pair rest
  simp only [buffer_eq, afterRun, skipTo, readRun_of_some h]
  congr 1
  · omega
  · simp
  · simp

/-- The loop reads a run to its end. -/
theorem run_readRun (withGettext : Bool) (s : State) (hm : s.mode = .text) :
    run withGettext s = run withGettext (afterRun s) := by
  cases h : textByte? s.pair s.rest with
  | none =>
    have hs : afterRun s = s := by simp [afterRun, skipTo, readRun_of_none h]
    rw [hs]
  | some p =>
    -- one byte is read, and then the rest of the run
    obtain ⟨b, rest⟩ := p
    have hlt := length_lt_of_textByte? h
    have hne : s.rest ≠ [] := by
      intro hn
      rw [hn] at hlt
      simp at hlt
    have hm' : (skipTo (s.buffer b) rest).mode = .text := by simpa [skipTo] using hm
    rw [run_eq_run_step hne, step_of_textByte? hm h, run_readRun withGettext _ hm',
      afterRun_skipTo_buffer h]
termination_by s.rest.length
decreasing_by simpa [skipTo] using hlt

/-- A byte of a body joins the pending bytes. -/
theorem step_of_body {withGettext : Bool} {kind : Kind} {start : Nat} {s : State} {b : UInt8}
    {rest : Bytes} (hm : s.mode = .body kind start) (hr : s.rest = b :: rest)
    (hp : ¬ s.pair.closeMark <+: s.rest) : step withGettext s = skipTo (s.buffer b) rest := by
  have hp' : ¬ s.pair.closeMark.isPrefixOf (b :: rest) = true := by
    rw [← hr]
    exact fun h => hp (List.isPrefixOf_iff_prefix.mp h)
  simp only [step, hm, stepBody, hr, hp', if_false, Bool.false_eq_true]
  rw [advance_eq_skipTo, State.buffer_rest, hr]
  rfl

/-- The loop reads a body up to the first close delimiter, and then ends the tag. -/
theorem exists_run_body (withGettext : Bool) {kind : Kind} {start : Nat} {s : State}
    {body rest : Bytes} (hm : s.mode = .body kind start)
    (hc : cutAt? s.pair.closeMark s.rest = some (body, rest)) :
    ∃ begun : Nat, run withGettext s = run withGettext (State.closeTag withGettext kind start
      { s with
        rest := s.pair.closeMark ++ rest
        pos := s.pos + body.length
        pending := s.pending ++ body.toArray
        pendingStart := begun }) := by
  have ht : s.rest = body ++ s.pair.closeMark ++ rest := eq_of_cutAt? hc
  have hne : s.rest ≠ [] := by
    intro hn
    rw [hn, cutAt?_nil s.pair.close_ne_nil] at hc
    cases hc
  induction body generalizing s with
  | nil =>
    have hr : s.rest = s.pair.closeMark ++ rest := by simpa using ht
    have hp : s.pair.closeMark.isPrefixOf s.rest = true :=
      List.isPrefixOf_iff_prefix.mpr ⟨rest, hr.symm⟩
    -- the close delimiter is here
    refine ⟨s.pendingStart, ?_⟩
    rw [run_eq_run_step hne]
    simp only [step, hm, stepBody, hp, if_true, ← hr]
    simp [← hm]
  | cons b body ih =>
    have hr : s.rest = b :: (body ++ s.pair.closeMark ++ rest) := by simpa using ht
    have hp : ¬ s.pair.closeMark <+: s.rest := by
      intro hp
      rw [cutAt?_of_startsWith hp] at hc
      cases hc
    -- it is the first one after this byte, too
    have hc' : cutAt? s.pair.closeMark (body ++ s.pair.closeMark ++ rest) = some (body, rest) := by
      rw [hr] at hp hc
      rw [cutAt?_cons hp] at hc
      obtain ⟨parts, hparts, he⟩ := Option.map_eq_some_iff.mp hc
      cases he
      exact hparts
    have hne' : body ++ s.pair.closeMark ++ rest ≠ [] := by
      simp [s.pair.close_ne_nil]
    rw [run_eq_run_step hne, step_of_body hm hr hp, buffer_eq]
    obtain ⟨begun, h⟩ := @ih (skipTo { s with
        pending := s.pending.push b
        pendingStart := if s.pending.isEmpty then s.pos else s.pendingStart }
      (body ++ s.pair.closeMark ++ rest)) hm hc' rfl hne'
    refine ⟨begun, ?_⟩
    rw [h]
    congr 2
    simp only [skipTo, hr, List.length_cons, List.length_append]
    congr 1
    · omega
    · simp

/-- Where no close delimiter is left, the loop reads the body to the end of the text. -/
theorem exists_run_openBody (withGettext : Bool) {kind : Kind} {start : Nat} (s : State)
    (hm : s.mode = .body kind start) (hc : cutAt? s.pair.closeMark s.rest = none) :
    ∃ (pending : Array UInt8) (begun : Nat), run withGettext s =
      { skipTo s [] with pending, pendingStart := begun } := by
  cases hr : s.rest with
  | nil =>
    refine ⟨s.pending, s.pendingStart, ?_⟩
    rw [run_of_rest_eq_nil hr]
    simp [skipTo, ← hr]
  | cons b rest =>
    have hp : ¬ s.pair.closeMark <+: s.rest := by
      intro hp
      rw [cutAt?_of_startsWith hp] at hc
      cases hc
    have hc' : cutAt? s.pair.closeMark rest = none := by
      rw [hr] at hp hc
      rw [cutAt?_cons hp] at hc
      simpa using hc
    rw [run_eq_run_step (by simp [hr]), step_of_body hm hr hp, buffer_eq]
    obtain ⟨pending, begun, h⟩ := exists_run_openBody withGettext (skipTo { s with
        pending := s.pending.push b
        pendingStart := if s.pending.isEmpty then s.pos else s.pendingStart } rest) hm hc'
    refine ⟨pending, begun, ?_⟩
    rw [h]
    simp only [skipTo, hr, List.length_cons, List.length_nil]
    congr 1
    omega
termination_by s.rest.length
decreasing_by simp [skipTo, hr]

/-! ## Ending a run -/

theorem flush_of_idle {s : State} (h : s.pending = #[]) (stop : Nat) : s.flush stop = s := by
  simp [State.flush, h]

theorem flush_flush (s : State) (stop : Nat) : (s.flush stop).flush stop = s.flush stop := by
  by_cases h : s.pending = #[]
  · rw [flush_of_idle h, flush_of_idle h]
  · apply flush_of_idle
    simp [State.flush, h]

theorem finishLine_flush (s : State) (stop : Nat) (newlineAtStop : Bool) :
    (s.flush stop).finishLine stop newlineAtStop = s.finishLine stop newlineAtStop := by
  unfold State.finishLine
  rw [flush_flush]

theorem flush_pos (s : State) (stop : Nat) : (s.flush stop).pos = s.pos := by
  unfold State.flush
  split <;> rfl

theorem flush_pair (s : State) (stop : Nat) : (s.flush stop).pair = s.pair := by
  unfold State.flush
  split <;> rfl

theorem finishLine_pos (s : State) (stop : Nat) (newlineAtStop : Bool) :
    (s.finishLine stop newlineAtStop).pos = s.pos := by
  unfold State.finishLine
  dsimp only
  split <;> exact flush_pos s stop

theorem finishLine_pair (s : State) (stop : Nat) (newlineAtStop : Bool) :
    (s.finishLine stop newlineAtStop).pair = s.pair := by
  unfold State.finishLine
  dsimp only
  split <;> exact flush_pair s stop

theorem step_of_newline {withGettext : Bool} {s : State} {rest : Bytes} (hm : s.mode = .text)
    (hr : s.rest = newline :: rest) :
    step withGettext s = (skipTo s rest).finishLine s.pos true := by
  have hb : textByte? s.pair s.rest = none := by
    rw [hr]
    exact textByte?_newline s.pair rest
  have he : escapedByte? s.pair (newline :: rest) = none := by
    rw [hr] at hb
    unfold textByte? at hb
    split at hb
    · cases hb
    · assumption
  have hp : ¬ s.pair.openMark.isPrefixOf (newline :: rest) = true := by
    intro hp
    exact head?_ne_newline_of_open (List.isPrefixOf_iff_prefix.mp hp) rfl
  simp only [step, hm, stepText, hr, he, hp, if_false, if_true, Bool.false_eq_true]
  rw [advance_eq_skipTo, hr]
  rfl

theorem step_of_open {withGettext : Bool} {s : State} (hm : s.mode = .text)
    (hp : s.pair.openMark <+: s.rest) (he : escapedByte? s.pair s.rest = none) :
    step withGettext s = { s.flush s.pos with mode := .sniff } := by
  simp only [step, hm, stepText, he, List.isPrefixOf_iff_prefix.mpr hp, if_true]

/-- Whatever ends a run, its bytes become a token at once. -/
theorem close_run_flush (withGettext : Bool) {s : State} (hm : s.mode = .text)
    (h : textByte? s.pair s.rest = none) :
    (run withGettext s).close = (run withGettext (s.flush s.pos)).close := by
  have hm' : (s.flush s.pos).mode = .text := by simpa using hm
  have hr' : (s.flush s.pos).rest = s.rest := State.flush_rest s s.pos
  rcases cases_of_textByte?_eq_none h with hr | ⟨rest, hr⟩ | ⟨hp, he⟩
  · -- at the end, the line is finished here
    rw [run_of_rest_eq_nil hr, run_of_rest_eq_nil (hr'.trans hr)]
    simp only [State.close, hm, hm', flush_pos, finishLine_flush]
  · -- at a newline, too
    have hne : s.rest ≠ [] := by simp [hr]
    have hne' : (s.flush s.pos).rest ≠ [] := by rwa [hr']
    rw [run_eq_run_step hne, step_of_newline hm hr, run_eq_run_step hne',
      step_of_newline hm' (hr'.trans hr), flush_pos]
    have hs : skipTo (s.flush s.pos) rest = (skipTo s rest).flush s.pos := by
      unfold State.flush
      split
      · next hp => simp [skipTo, hp]
      · next hp => simp [skipTo, hp, State.textToken]
    rw [hs, finishLine_flush]
  · -- at an open delimiter, the run is ended in front of it
    have hne := ne_nil_of_open hp
    have hp' : (s.flush s.pos).pair.openMark <+: (s.flush s.pos).rest := by
      rwa [flush_pair, hr']
    have he' : escapedByte? (s.flush s.pos).pair (s.flush s.pos).rest = none := by
      rwa [flush_pair, hr']
    have hne' : (s.flush s.pos).rest ≠ [] := by rwa [hr']
    rw [run_eq_run_step hne, step_of_open hm hp he, run_eq_run_step hne', step_of_open hm' hp' he',
      flush_pos, flush_flush]

/-- What the end of a line does to a state without pending bytes. -/
theorem finishLine_of_idle {s : State} (h : s.pending = #[]) (stop : Nat) (newlineAtStop : Bool) :
    s.finishLine stop newlineAtStop =
      let standalone := s.seenTag && Line.isInvisible s.line.toList
      let lineEnd := if newlineAtStop then [s.textToken [newline] ⟨stop, stop + 1⟩] else []
      { s with
        settled := s.settled ++
          (if standalone then Line.keepTags none s.line.toList else s.line.toList ++ lineEnd)
        notes := if standalone then s.notes.push (.lineDropped (Line.countTexts s.line.toList))
          else s.notes
        line := #[]
        seenTag := false } := by
  unfold State.finishLine
  rw [flush_of_idle h]
  dsimp only
  split
  · simp [State.note]
  · simp

/-! ## Reading a tag or a delimiter change -/

variable {withGettext : Bool} {s : State}

/-- The segment that starts with the open delimiter the unread text starts with. -/
def markAt (withGettext : Bool) (s : State) : Segment :=
  let read := readMark withGettext s.pair s.pos s.rest
  ⟨s.pair, ⟨s.pos, s.pos + (s.rest.length - read.2.length)⟩, read.1⟩

/-- The state after that segment. Where pending bytes last began is left open, as nothing depends on
it. -/
def afterMark (withGettext : Bool) (s : State) (begun : Nat) : State :=
  let mark := markAt withGettext s
  { skipTo s (readMark withGettext s.pair s.pos s.rest).2 with
    mode := .text
    pair := mark.pairAfter
    pending := #[]
    pendingStart := begun
    line := s.line ++ (mark.token? withGettext).toList
    seenTag := true
    faults := s.faults ++ mark.fault?.toList
    notes := s.notes ++ (mark.note? withGettext).toList }

/-- At an open delimiter, the loop reads it and looks at the sigil. -/
theorem run_of_open (hm : s.mode = .text) (hi : s.pending = #[]) (hp : s.pair.openMark <+: s.rest)
    (he : escapedByte? s.pair s.rest = none) :
    run withGettext s = run withGettext (stepSniff withGettext { s with mode := .sniff }) := by
  have hne := ne_nil_of_open hp
  rw [run_eq_run_step hne, step_of_open hm hp he, flush_of_idle hi]
  exact run_eq_run_step (s := { s with mode := .sniff }) hne

/-- The state after an open delimiter. -/
def afterOpen (s : State) (inner : Bytes) : State :=
  { skipTo s inner with seenTag := true, mode := .sniff }

/-- A sigil of its own starts a delimiter change. -/
theorem stepSniff_of_change {b : UInt8} {inner : Bytes} (hr : s.rest = s.pair.openMark ++ b :: inner)
    (hk : Kind.ofSigil withGettext b = some .delimiterChange) :
    stepSniff withGettext { s with mode := .sniff } =
      { (afterOpen s (b :: inner)).changeDelimiters s.pos with mode := .text } := by
  have ha : State.advance { s with mode := .sniff, seenTag := true } s.pair.openMark.length =
      afterOpen s (b :: inner) := by
    rw [advance_eq_skipTo]
    simp only [afterOpen, skipTo, hr, List.drop_left]
  simp only [stepSniff]
  rw [ha]
  simp [afterOpen, skipTo, hk]

/-- A delimiter change ends where its mark first occurs. -/
theorem changeDelimiters_of_some {b : UInt8} {inner spec rest : Bytes} (hr : s.rest = b :: inner)
    (hc : cutAt? s.pair.changeMark inner = some (spec, rest)) (start : Nat) :
    s.changeDelimiters start =
      skipTo
        (match Delimiters.parse spec with
          | .error e =>
            s.report ⟨.invalidChange e, ⟨start, s.pos + (s.rest.length - rest.length)⟩⟩
          | .ok pair => { s with pair }.note (.delimitersChanged pair start))
        rest := by
  have hinner : inner = spec ++ s.pair.changeMark ++ rest := eq_of_cutAt? hc
  have hlen : s.rest.length - rest.length = 1 + spec.length + s.pair.changeMark.length := by
    rw [hr, hinner]
    simp only [List.length_append, List.length_cons]
    omega
  have hdrop : s.rest.drop (1 + spec.length + s.pair.changeMark.length) = rest := by
    have hs : s.rest = (b :: (spec ++ s.pair.changeMark)) ++ rest := by simp [hr, hinner]
    rw [hs, List.drop_left']
    simp only [List.length_cons, List.length_append]
    omega
  have hcut : cutAt? s.pair.changeMark (s.rest.drop 1) = some (spec, rest) := by
    rw [hr]
    exact hc
  unfold State.changeDelimiters
  simp only [hcut, hlen]
  cases Delimiters.parse spec with
  | error e =>
    simp only [advance_eq_skipTo, State.report_rest]
    rw [hdrop]
  | ok pair =>
    simp only [advance_eq_skipTo, State.note_rest]
    rw [hdrop]

/-- A delimiter change without an end takes the rest of the text. -/
theorem changeDelimiters_of_none {b : UInt8} {inner : Bytes} (hr : s.rest = b :: inner)
    (hc : cutAt? s.pair.changeMark inner = none) (start : Nat) :
    s.changeDelimiters start =
      skipTo (s.report ⟨.unterminatedChange s.pair.changeMark, ⟨start, s.pos + s.rest.length⟩⟩) [] := by
  have hcut : cutAt? s.pair.changeMark (s.rest.drop 1) = none := by
    rw [hr]
    exact hc
  unfold State.changeDelimiters
  simp only [hcut, advance_eq_skipTo, State.report_rest, List.drop_length]

/-- A delimiter change is read as the outline has it, whether it ends or not. -/
theorem stepSniff_change {b : UInt8} {inner : Bytes} (hi : s.pending = #[])
    (hr : s.rest = s.pair.openMark ++ b :: inner)
    (hk : Kind.ofSigil withGettext b = some .delimiterChange) :
    stepSniff withGettext { s with mode := .sniff } = afterMark withGettext s s.pendingStart := by
  have hlen : s.rest.length = s.pair.openMark.length + (inner.length + 1) := by simp [hr]
  rw [stepSniff_of_change hr hk]
  cases hc : cutAt? s.pair.changeMark inner with
  | none =>
    have hread : readMark withGettext s.pair s.pos s.rest = (.openChange, []) := by
      rw [hr]
      exact readMark_openChange s.pair s.pos hk hc
    have hend : (afterOpen s (b :: inner)).pos + (afterOpen s (b :: inner)).rest.length =
        s.pos + s.rest.length := by
      simp only [afterOpen, skipTo, List.length_cons]
      omega
    rw [changeDelimiters_of_none (s := afterOpen s (b :: inner)) rfl hc, hend]
    simp [afterMark, markAt, hread, skipTo, afterOpen, State.report, State.note, hi,
      Segment.pairAfter, Segment.token?, Segment.fault?, Segment.note?] at hend ⊢
    exact hend
  | some parts =>
    obtain ⟨spec, rest⟩ := parts
    have hread : readMark withGettext s.pair s.pos s.rest = (.change spec, rest) := by
      rw [hr]
      exact readMark_change s.pair s.pos hk hc
    have hshort : rest.length ≤ inner.length := by
      rw [eq_of_cutAt? hc]
      simp only [List.length_append]
      omega
    have hend : (afterOpen s (b :: inner)).pos +
        ((afterOpen s (b :: inner)).rest.length - rest.length) =
        s.pos + (s.rest.length - rest.length) := by
      simp only [afterOpen, skipTo, List.length_cons]
      omega
    rw [changeDelimiters_of_some (s := afterOpen s (b :: inner)) rfl hc, hend]
    cases hd : Delimiters.parse spec with
    | error e =>
      simp [afterMark, markAt, hread, skipTo, afterOpen, State.report, State.note, hi, hd,
        Segment.pairAfter, Segment.token?, Segment.fault?, Segment.note?, Except.toOption] at hend ⊢
      exact hend
    | ok pair =>
      simp [afterMark, markAt, hread, skipTo, afterOpen, State.note, hi, hd, Segment.pairAfter,
        Segment.token?, Segment.fault?, Segment.note?, Except.toOption] at hend ⊢
      exact hend

/-- Any other sigil, and none, starts a body. -/
theorem stepSniff_of_tag {inner : Bytes} {sigil : Option Kind}
    (hr : s.rest = s.pair.openMark ++ inner)
    (hk : inner.head?.bind (Kind.ofSigil withGettext) = sigil)
    (hne : sigil ≠ some .delimiterChange) :
    stepSniff withGettext { s with mode := .sniff } =
      { skipTo s (inner.drop (sigilWidth sigil)) with
        seenTag := true
        mode := .body (sigil.getD .escaped) s.pos } := by
  have ha : State.advance { s with mode := .sniff, seenTag := true } s.pair.openMark.length =
      afterOpen s inner := by
    rw [advance_eq_skipTo]
    simp only [afterOpen, skipTo, hr, List.drop_left]
  simp only [stepSniff]
  rw [ha]
  have hk' : (afterOpen s inner).rest.head?.bind (Kind.ofSigil withGettext) = sigil := hk
  rw [hk']
  cases sigil with
  | none => rfl
  | some kind =>
    have hpos : s.pos + (s.rest.length - inner.length) + (inner.length - (inner.drop 1).length) =
        s.pos + (s.rest.length - (inner.drop 1).length) := by
      rw [hr]
      simp only [List.length_append, List.length_drop]
      omega
    split
    · next h =>
      cases h
      exact absurd rfl hne
    · next h =>
      cases h
      simp only [advance_eq_skipTo, afterOpen, skipTo, sigilWidth, Option.isSome_some, if_true,
        Option.getD_some, hpos]
    · next h => cases h

/-- A tag that ends is read as the outline has it. -/
theorem exists_run_tag {inner body rest : Bytes} {sigil : Option Kind} (hi : s.pending = #[])
    (hr : s.rest = s.pair.openMark ++ inner)
    (hk : inner.head?.bind (Kind.ofSigil withGettext) = sigil)
    (hne : sigil ≠ some .delimiterChange)
    (hc : cutAt? s.pair.closeMark (inner.drop (sigilWidth sigil)) = some (body, rest)) :
    ∃ begun, run withGettext (stepSniff withGettext { s with mode := .sniff }) =
      run withGettext (afterMark withGettext s begun) := by
  -- what the outline reads, and how long it is
  have hread := readMark_tag s.pair s.pos hk hne hc
  rw [← hr] at hread
  have hinner : inner.drop (sigilWidth sigil) = body ++ s.pair.closeMark ++ rest := eq_of_cutAt? hc
  have hwidth : sigilWidth sigil ≤ inner.length := by
    cases inner with
    | nil => simp [← hk, sigilWidth]
    | cons b tail =>
      unfold sigilWidth
      split <;> simp
  have hlen : s.rest.length = s.pair.openMark.length + sigilWidth sigil + body.length
      + s.pair.closeMark.length + rest.length := by
    have h := congrArg List.length hinner
    simp only [List.length_drop, List.length_append] at h
    rw [hr, List.length_append]
    omega
  have hcloseAt : s.pos + (s.rest.length - (inner.drop (sigilWidth sigil)).length) + body.length =
      s.pos + s.pair.openMark.length + sigilWidth sigil + body.length := by
    rw [hinner]
    simp only [List.length_append]
    omega
  -- the loop reads the open delimiter and the body, and ends the tag
  rw [stepSniff_of_tag hr hk hne]
  obtain ⟨begun, hrun⟩ := exists_run_body withGettext
    (s := { skipTo s (inner.drop (sigilWidth sigil)) with
      seenTag := true, mode := .body (sigil.getD .escaped) s.pos }) rfl hc
  refine ⟨begun, ?_⟩
  rw [hrun]
  congr 1
  simp only [afterMark, markAt, hread, State.closeTag, advance_eq_skipTo, State.note, skipTo, hi,
    Segment.token?, Segment.fault?, Segment.note?, Segment.pairAfter, hcloseAt]
  by_cases hb : Tag.absorbsBrace s.pair (sigil.getD .escaped) = true
  · -- one more byte is taken, if there is one
    have hstop : s.pos + s.pair.openMark.length + sigilWidth sigil + body.length
        + s.pair.closeMark.length + (rest.length - (rest.length - 1)) =
        s.pos + (s.rest.length - (rest.length - 1)) := by omega
    simp [hb, hstop]
  · have hstop : s.pos + s.pair.openMark.length + sigilWidth sigil + body.length
        + s.pair.closeMark.length = s.pos + (s.rest.length - rest.length) := by omega
    simp [hb, hstop]

/-- A tag that does not end is reported, and its body is dropped. -/
theorem exists_run_openTag {inner : Bytes} {sigil : Option Kind}
    (hr : s.rest = s.pair.openMark ++ inner)
    (hk : inner.head?.bind (Kind.ofSigil withGettext) = sigil)
    (hne : sigil ≠ some .delimiterChange)
    (hc : cutAt? s.pair.closeMark (inner.drop (sigilWidth sigil)) = none) :
    ∃ begun, (run withGettext (stepSniff withGettext { s with mode := .sniff })).close =
      (run withGettext (afterMark withGettext s begun)).close := by
  have hread := readMark_openTag s.pair s.pos hk hne hc
  rw [← hr] at hread
  have hshort : inner.length - sigilWidth sigil ≤ s.rest.length := by
    rw [hr, List.length_append]
    omega
  have hend : s.pos + (s.rest.length - (inner.length - sigilWidth sigil))
      + (inner.length - sigilWidth sigil) = s.pos + s.rest.length := by omega
  -- the body takes the rest of the text, and the end of the text reports the tag
  rw [stepSniff_of_tag hr hk hne]
  obtain ⟨pending, begun, hrun⟩ := exists_run_openBody withGettext
    { skipTo s (inner.drop (sigilWidth sigil)) with
      seenTag := true, mode := .body (sigil.getD .escaped) s.pos } rfl hc
  refine ⟨begun, ?_⟩
  have hrest : (afterMark withGettext s begun).rest = [] := by
    simp [afterMark, skipTo, hread]
  rw [hrun, run_of_rest_eq_nil hrest]
  simp [State.close, afterMark, markAt, hread, skipTo, State.report, State.note, hend,
    Segment.token?, Segment.fault?, Segment.note?, Segment.pairAfter, finishLine_of_idle]

/-- A tag or delimiter change is read as the outline has it. -/
theorem exists_run_mark (hm : s.mode = .text) (hi : s.pending = #[])
    (hp : s.pair.openMark <+: s.rest) (he : escapedByte? s.pair s.rest = none) :
    ∃ begun, (run withGettext s).close = (run withGettext (afterMark withGettext s begun)).close := by
  rw [run_of_open hm hi hp he]
  obtain ⟨inner, hr⟩ := hp
  by_cases hk : inner.head?.bind (Kind.ofSigil withGettext) = some .delimiterChange
  · obtain ⟨b, hb, hkb⟩ := Option.bind_eq_some_iff.mp hk
    obtain ⟨tail, rfl⟩ := List.head?_eq_some_iff.mp hb
    exact ⟨s.pendingStart, by rw [stepSniff_change hi hr.symm hkb]⟩
  · cases hc : cutAt? s.pair.closeMark (inner.drop (sigilWidth
        (inner.head?.bind (Kind.ofSigil withGettext)))) with
    | none => exact exists_run_openTag hr.symm rfl hk hc
    | some parts =>
      obtain ⟨begun, hrun⟩ := exists_run_tag hi hr.symm rfl hk hc
      exact ⟨begun, by rw [hrun]⟩

end TemplateLexer.Outline
