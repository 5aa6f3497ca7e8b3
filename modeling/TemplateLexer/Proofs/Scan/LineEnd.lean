import TemplateLexer.Proofs.Outline.Refinement

/-!
# What the end of a line does

A line is settled at its newline, and the last one at the end of the input. Nothing is assumed of the
state: the tokens, the run being read and the tag that was seen may be any.

* `State.content`: what the line holds when it ends, the run being read included;
* `State.IsStandalone`: when the line loses its texts;
* `finishLine_eq`: the state after the end of a line, in one equation;
* `LineEnded`, `lineEnded_finishLine`: what is kept, what is dropped, and what stays as it was.
-/

namespace TemplateLexer.Scan

open Bytes Outline

namespace State

/-- All tokens so far, those of the finished lines and those of the line being read. -/
def tokens (s : State) : List Token := s.settled.toList ++ s.line.toList

/-- Where the line being read starts among the tokens. -/
def lineStart (s : State) : Nat := s.settled.size

/-- What the line being read holds if it ends at offset `stop`: its tokens, and the run being read as a
text if there is one. -/
def content (s : State) (stop : Nat) : List Token :=
  s.line.toList ++
    if s.pending = #[] then [] else [s.textToken s.pending.toList ⟨s.pendingStart, stop⟩]

/-- Is the line being read standalone if it ends at offset `stop`? A tag was seen, no tag that the line
holds leaves something visible, and its texts are blank. -/
def IsStandalone (s : State) (stop : Nat) : Prop :=
  s.seenTag = true ∧
    (∀ t ∈ s.content stop, t.isTag = true → t.kind.isInterpolating = false) ∧
    ∀ t ∈ s.content stop, t.isText = true → allBlank t.value = true

/-- The text that a newline at offset `stop` is read as. -/
def lineEnd (s : State) (stop : Nat) (newlineAtStop : Bool) : List Token :=
  if newlineAtStop then [s.textToken [newline] ⟨stop, stop + 1⟩] else []

end State

variable {s after : State} {stop : Nat} {newlineAtStop : Bool}

/-- Nothing shows on a line exactly if its tags are silent and its texts are blank. -/
theorem isInvisible_iff {line : List Token} :
    Line.isInvisible line = true ↔
      (∀ t ∈ line, t.isTag = true → t.kind.isInterpolating = false) ∧
        ∀ t ∈ line, t.isText = true → allBlank t.value = true := by
  simp only [Line.isInvisible, List.all_eq_true, ← forall_and]
  refine forall_congr' fun t => forall_congr' fun _ => ?_
  cases ht : t.isText <;> simp [Token.isTag, ht]

theorem isStandalone_iff :
    s.IsStandalone stop ↔ (s.seenTag && Line.isInvisible (s.content stop)) = true := by
  rw [State.IsStandalone, Bool.and_eq_true, isInvisible_iff]

instance (s : State) (stop : Nat) : Decidable (s.IsStandalone stop) :=
  decidable_of_iff _ isStandalone_iff.symm

/-- Ending the run being read puts it on the line and leaves the rest of the state alone. -/
theorem flush_eq (s : State) (stop : Nat) :
    s.flush stop = { s with line := (s.content stop).toArray, pending := #[] } := by
  unfold State.flush State.content
  by_cases h : s.pending = #[]
  · cases s
    cases h
    simp
  · simp only [Array.isEmpty_iff, h, if_false]
    congr 1
    exact Array.toList_inj.mp (by simp)

/-- The state after the end of a line. -/
theorem finishLine_eq (s : State) (stop : Nat) (newlineAtStop : Bool) :
    s.finishLine stop newlineAtStop =
      { s with
        settled := s.settled ++
          (if s.IsStandalone stop then keptTags (s.content stop)
            else s.content stop ++ s.lineEnd stop newlineAtStop)
        notes := s.notes ++
          (if s.IsStandalone stop then [Note.lineDropped (Line.countTexts (s.content stop))] else [])
        line := #[]
        pending := #[]
        seenTag := false } := by
  have hidle : (s.flush stop).pending = #[] := by rw [flush_eq]
  rw [← finishLine_flush, finishLine_of_idle hidle, flush_eq]
  by_cases h : s.IsStandalone stop
  · have hb := isStandalone_iff.mp h
    simp [h, hb, keptTags_eq_keepTags]
  · have hb := mt isStandalone_iff.mpr h
    simp only [hb, h, if_false, State.lineEnd]
    rfl

/-- What the end of a line at offset `stop` makes of a state. The fields say what is kept and what is
dropped of the line, that the next line starts empty, and that nothing else changes. -/
structure LineEnded (s : State) (stop : Nat) (newlineAtStop : Bool) (after : State) : Prop where
  /-- The lines before stay as they are. -/
  before : after.tokens.take s.lineStart = s.tokens.take s.lineStart
  /-- A standalone line keeps its tags in their order, a partial right after a text with the text as
  indent, and loses its newline. -/
  standalone : s.IsStandalone stop →
    after.tokens.drop s.lineStart = keptTags (s.content stop)
  /-- Any other line keeps all it has, and its newline is a text. -/
  kept : ¬ s.IsStandalone stop →
    after.tokens.drop s.lineStart = s.content stop ++ s.lineEnd stop newlineAtStop
  /-- The next line starts after the last token, without a tag and without a run. -/
  lineStart : after.lineStart = after.tokens.length
  seenTag : after.seenTag = false
  pending : after.pending = #[]
  /-- What is left to read and what is in force stay. -/
  place : after.rest = s.rest ∧ after.pos = s.pos ∧ after.mode = s.mode
  pair : after.pair = s.pair
  faults : after.faults = s.faults
  /-- That texts were dropped is noted. -/
  notes : after.notes.toList = s.notes.toList ++
    if s.IsStandalone stop then [Note.lineDropped (Line.countTexts (s.content stop))] else []
  /-- The end of the input has nothing left to settle. -/
  settled : ∀ stop', after.finishLine stop' false = after

/-- A state that has nothing on its line and no run is not changed by the end of the input. -/
theorem finishLine_of_empty (hline : s.line = #[]) (hpending : s.pending = #[])
    (hseen : s.seenTag = false) (stop : Nat) : s.finishLine stop false = s := by
  have hcontent : s.content stop = [] := by simp [State.content, hline, hpending]
  have hstand : ¬ s.IsStandalone stop := by simp [State.IsStandalone, hseen]
  rw [finishLine_eq, if_neg hstand, if_neg hstand, hcontent]
  cases s
  cases hline
  cases hpending
  cases hseen
  simp [State.lineEnd]

/-- **The end of a line loses no tag and touches nothing else**, in every state, at a newline and at the
end of the input. -/
theorem lineEnded_finishLine (s : State) (stop : Nat) (newlineAtStop : Bool) :
    LineEnded s stop newlineAtStop (s.finishLine stop newlineAtStop) := by
  have htokens : (s.finishLine stop newlineAtStop).tokens = s.settled.toList ++
      if s.IsStandalone stop then keptTags (s.content stop)
      else s.content stop ++ s.lineEnd stop newlineAtStop := by
    rw [finishLine_eq]
    simp [State.tokens]
  have hdrop : (s.finishLine stop newlineAtStop).tokens.drop s.lineStart =
      if s.IsStandalone stop then keptTags (s.content stop)
      else s.content stop ++ s.lineEnd stop newlineAtStop := by
    rw [htokens]
    exact List.drop_left
  refine ⟨?before, ?standalone, ?kept, ?lineStart, ?seenTag, ?pending, ?place, ?pair, ?faults,
    ?notes, ?settled⟩
  case before =>
    rw [htokens, State.tokens, State.lineStart, ← Array.length_toList, List.take_left,
      List.take_left]
  case standalone =>
    intro h
    rw [hdrop, if_pos h]
  case kept =>
    intro h
    rw [hdrop, if_neg h]
  case lineStart =>
    have hline : (s.finishLine stop newlineAtStop).line = #[] := by rw [finishLine_eq]
    simp [State.lineStart, State.tokens, hline]
  case seenTag => rw [finishLine_eq]
  case pending => rw [finishLine_eq]
  case place => exact ⟨State.finishLine_rest .., finishLine_pos .., State.finishLine_mode ..⟩
  case pair => exact finishLine_pair ..
  case faults => rw [finishLine_eq]
  case notes =>
    rw [finishLine_eq]
    simp
  case settled =>
    refine finishLine_of_empty ?_ ?_ ?_ <;> rw [finishLine_eq]

end TemplateLexer.Scan
