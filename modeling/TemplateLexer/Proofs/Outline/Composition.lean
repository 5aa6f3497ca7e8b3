import TemplateLexer.Proofs.Bytes.Blank
import TemplateLexer.Proofs.Outline.Shift
import TemplateLexer.Proofs.Outline.Tokens

/-!
# Scanning a text in two parts

A scan may be interrupted at the end of a line. If the last step of the scan of a text reads a newline
outside tags, then what the scan gives for the text and more is what it gives for the text, followed by
what a scan of the rest gives that starts with the delimiters in force there (`scan_append`).

* `step_extend`: a step that does not read to the end of the text does not see what follows the text.
  Nothing that the scan looks ahead for holds a newline, and the text ends in one;
* `run_extend`: so the scan of the longer text comes through the end of the shorter one;
* `follows_run`: there nothing is left of the lines read before.
-/

namespace TemplateLexer.Outline

open Bytes Scan

variable {withGettext : Bool} {s t : State}

/-! ## Looking ahead -/

/-- A text without blanks does not reach past the end of a line. -/
theorem isPrefixOf_append {mark text : Bytes} (hm : BlankFree mark)
    (hl : text.getLast? = some newline) (more : Bytes) :
    mark.isPrefixOf (text ++ more) = mark.isPrefixOf text := by
  rw [Bool.eq_iff_iff, List.isPrefixOf_iff_prefix, List.isPrefixOf_iff_prefix]
  constructor
  · intro hp
    by_cases hlen : mark.length ≤ text.length
    · exact List.prefix_of_prefix_length_le hp (List.prefix_append _ _) hlen
    · -- a longer mark would hold the newline
      have ht : text <+: mark :=
        List.prefix_of_prefix_length_le (List.prefix_append _ _) hp (by omega)
      have hn := hm newline (ht.subset (List.mem_of_getLast? hl))
      exact absurd hn (by decide)
  · intro hp
    exact hp.trans (List.prefix_append _ _)

/-- No escape reaches past the end of a line. -/
theorem escapedByte?_append {text : Bytes} (hl : text.getLast? = some newline)
    (pair : Delimiters) (more : Bytes) :
    escapedByte? pair (text ++ more) = escapedByte? pair text := by
  match text, hl with
  | [b], hl =>
    have hb : b ≠ backslash := by
      rintro rfl
      cases hl
    cases more with
    | nil => rfl
    | cons c rest => simp [escapedByte?, hb]
  | b :: c :: rest, _ => rfl

/-! ## More text to read -/

/-- The state with more text to read. -/
def extend (more : Bytes) (s : State) : State := { s with rest := s.rest ++ more }

@[simp] theorem extend_rest (more : Bytes) (s : State) : (extend more s).rest = s.rest ++ more := rfl
@[simp] theorem extend_pos (more : Bytes) (s : State) : (extend more s).pos = s.pos := rfl
@[simp] theorem extend_mode (more : Bytes) (s : State) : (extend more s).mode = s.mode := rfl
@[simp] theorem extend_pair (more : Bytes) (s : State) : (extend more s).pair = s.pair := rfl

theorem extend_buffer (more : Bytes) (s : State) (b : UInt8) :
    (extend more s).buffer b = extend more (s.buffer b) := by
  rw [buffer_eq, buffer_eq]
  rfl

theorem extend_flush (more : Bytes) (s : State) (stop : Nat) :
    (extend more s).flush stop = extend more (s.flush stop) := by
  have hp : (extend more s).pending = s.pending := rfl
  unfold State.flush
  rw [hp]
  split <;> rfl

theorem pending_flush (s : State) (stop : Nat) : (s.flush stop).pending = #[] := by
  unfold State.flush
  split
  · next hp => simpa using hp
  · rfl

theorem extend_finishLine (more : Bytes) (s : State) (stop : Nat) (newlineAtStop : Bool) :
    (extend more s).finishLine stop newlineAtStop =
      extend more (s.finishLine stop newlineAtStop) := by
  rw [← finishLine_flush, ← finishLine_flush s, extend_flush,
    finishLine_of_idle (s := extend more (s.flush stop)) (pending_flush s stop),
    finishLine_of_idle (pending_flush s stop)]
  rfl

/-- Bytes that are there are skipped in the same way. -/
theorem extend_advance (more : Bytes) {n : Nat} (h : n ≤ s.rest.length) :
    (extend more s).advance n = extend more (s.advance n) := by
  simp only [State.advance, extend, List.drop_append_of_le_length h,
    List.take_append_of_le_length h]

/-! ## One step -/

theorem stepText_extend (more : Bytes) (hl : s.rest.getLast? = some newline) :
    stepText (extend more s) = extend more (stepText s) := by
  unfold stepText
  -- an escape and an open delimiter stand in the longer text exactly if they do in the text
  rw [extend_pair, extend_rest, escapedByte?_append hl,
    isPrefixOf_append s.pair.open_blankFree hl]
  split
  · next c hc =>
    have hlen : 2 ≤ (s.buffer c).rest.length := by
      rw [State.buffer_rest]
      match hr : s.rest, hc with
      | _ :: _ :: _, _ => simp
    rw [extend_buffer, extend_advance more hlen]
  · split
    · rw [extend_pos, extend_flush]
      rfl
    · cases hr : s.rest with
      | nil =>
        rw [hr] at hl
        cases hl
      | cons b rest =>
        have hlen : 1 ≤ s.rest.length := by simp [hr]
        simp only [List.cons_append]
        split
        · rw [extend_advance more hlen, extend_pos, extend_finishLine]
        · rw [extend_buffer, extend_advance more (by rwa [State.buffer_rest])]

/-- A delimiter change that does not take all of the text ends inside it. -/
theorem changeDelimiters_extend (more : Bytes) (start : Nat)
    (hne : (s.changeDelimiters start).rest ≠ []) :
    (extend more s).changeDelimiters start = extend more (s.changeDelimiters start) := by
  have hrest : s.rest ≠ [] := by
    intro hn
    have hle := State.length_changeDelimiters_le s start
    rw [hn, List.length_nil, Nat.le_zero] at hle
    exact hne (List.length_eq_zero_iff.mp hle)
  obtain ⟨b, inner, hr⟩ := List.exists_cons_of_ne_nil hrest
  cases hc : cutAt? s.pair.changeMark inner with
  | none =>
    -- without an end, the change takes all of the text
    rw [changeDelimiters_of_none hr hc] at hne
    exact absurd rfl hne
  | some parts =>
    obtain ⟨spec, rest⟩ := parts
    have hr' : (extend more s).rest = b :: (inner ++ more) := by
      rw [extend_rest, hr, List.cons_append]
    -- the first end of the change stays the first one
    have hc' : cutAt? (extend more s).pair.changeMark (inner ++ more) = some (spec, rest ++ more) :=
      cutAt?_append hc more
    have hle : rest.length ≤ s.rest.length := by
      rw [hr, eq_of_cutAt? hc]
      simp only [List.length_cons, List.length_append]
      omega
    have hlen : (extend more s).rest.length - (rest ++ more).length =
        s.rest.length - rest.length := by
      simp only [extend_rest, List.length_append]
      omega
    rw [changeDelimiters_of_some hr' hc', changeDelimiters_of_some hr hc, hlen]
    cases Delimiters.parse spec with
    | error e => simp [skipTo, extend, State.report, State.note, Nat.add_sub_add_right]
    | ok pair => simp [skipTo, extend, State.note, Nat.add_sub_add_right]

/-- The step at an open delimiter, without telling apart what only the sigil tells apart. -/
theorem stepSniff_eq (withGettext : Bool) (s : State) :
    stepSniff withGettext s =
      let u := { s with seenTag := true }.advance s.pair.openMark.length
      let sigil := u.rest.head?.bind (Kind.ofSigil withGettext)
      if sigil = some .delimiterChange then { u.changeDelimiters s.pos with mode := .text }
      else { u.advance (sigilWidth sigil) with mode := .body (sigil.getD .escaped) s.pos } := by
  unfold stepSniff
  dsimp only
  split
  · next hk => rw [if_pos hk]
  · next kind hne hk =>
    rw [hk, if_neg fun h => hne (Option.some.inj h)]
    rfl
  · next hk =>
    rw [hk, if_neg (by simp)]
    simp [sigilWidth, State.advance]

/-- At an open delimiter, a step that leaves something to read has found the delimiter and the sigil
in the text. -/
theorem stepSniff_extend (more : Bytes) (hne : (stepSniff withGettext s).rest ≠ []) :
    stepSniff withGettext (extend more s) = extend more (stepSniff withGettext s) := by
  rw [stepSniff_eq] at hne ⊢
  rw [stepSniff_eq withGettext s]
  obtain ⟨u, hu⟩ : ∃ u, u = { s with seenTag := true }.advance s.pair.openMark.length := ⟨_, rfl⟩
  obtain ⟨sigil, hk⟩ : ∃ sigil, sigil = u.rest.head?.bind (Kind.ofSigil withGettext) := ⟨_, rfl⟩
  simp only [← hu, ← hk] at hne ⊢
  -- there is something after the open delimiter, or nothing would be left after the step
  have hrest : u.rest ≠ [] := by
    intro hn
    apply hne
    split
    · have hle := State.length_changeDelimiters_le u s.pos
      rw [hn, List.length_nil, Nat.le_zero] at hle
      exact List.length_eq_zero_iff.mp hle
    · rw [State.advance_rest, hn, List.drop_nil]
  have hlen : s.pair.openMark.length ≤ s.rest.length := by
    by_contra hlt
    have hle : s.rest.length ≤ s.pair.openMark.length := by omega
    apply hrest
    rw [hu, State.advance_rest]
    exact List.drop_eq_nil_of_le hle
  have hadvance : { extend more s with seenTag := true }.advance
      (extend more s).pair.openMark.length = extend more u := by
    rw [hu]
    exact extend_advance (s := { s with seenTag := true }) more hlen
  have hsigil : (extend more u).rest.head?.bind (Kind.ofSigil withGettext) = sigil := by
    rw [hk, extend_rest, List.head?_append_of_ne_nil _ hrest]
  rw [hadvance, hsigil, extend_pos]
  split
  · next hchange =>
    rw [if_pos hchange] at hne
    rw [changeDelimiters_extend more s.pos hne]
    rfl
  · have hwidth : sigilWidth sigil ≤ u.rest.length := by
      have hpos := List.length_pos_iff.mpr hrest
      unfold sigilWidth
      split <;> omega
    rw [extend_advance more hwidth]
    rfl

/-- The end of a tag that leaves something to read has found the brace it takes in the text. -/
theorem closeTag_extend (more : Bytes) {kind : Kind} {start : Nat}
    (hp : s.pair.closeMark <+: s.rest) (hne : (s.closeTag withGettext kind start).rest ≠ []) :
    (extend more s).closeTag withGettext kind start =
      extend more (s.closeTag withGettext kind start) := by
  obtain ⟨tag, htag⟩ : ∃ tag, tag = Tag.token withGettext s.pair kind start s.pos s.pending.toList :=
    ⟨_, rfl⟩
  obtain ⟨u, hu⟩ : ∃ u, u = (s.note (.tagRead tag)).advance s.pair.closeMark.length := ⟨_, rfl⟩
  have hclose : s.closeTag withGettext kind start =
      let v := if Tag.absorbsBrace s.pair kind then u.advance 1 else u
      { v with
        line := v.line.push (Tag.finish v.pair kind v.pos tag)
        pending := #[]
        mode := .text } := by
    rw [hu, htag]
    rfl
  have hadvance : ((extend more s).note (.tagRead tag)).advance s.pair.closeMark.length =
      extend more u := by
    rw [hu]
    exact extend_advance (s := s.note (.tagRead tag)) more hp.length_le
  have hclose' : (extend more s).closeTag withGettext kind start =
      let v := if Tag.absorbsBrace s.pair kind then (extend more u).advance 1 else extend more u
      { v with
        line := v.line.push (Tag.finish v.pair kind v.pos tag)
        pending := #[]
        mode := .text } := by
    rw [← hadvance, htag]
    rfl
  rw [hclose']
  rw [hclose] at hne ⊢
  by_cases hb : Tag.absorbsBrace s.pair kind = true
  · simp only [hb, if_true] at hne ⊢
    -- the byte that is taken for the brace is there
    have hrest : u.rest ≠ [] := by
      intro hn
      apply hne
      rw [State.advance_rest, hn, List.drop_nil]
    rw [extend_advance more (List.length_pos_iff.mpr hrest)]
    rfl
  · simp only [hb, if_false, Bool.false_eq_true]
    rfl

/-- In a body, a step that leaves something to read has found what it reads in the text. -/
theorem stepBody_extend (more : Bytes) {kind : Kind} {start : Nat}
    (hl : s.rest.getLast? = some newline) (hne : (stepBody withGettext kind start s).rest ≠ []) :
    stepBody withGettext kind start (extend more s) =
      extend more (stepBody withGettext kind start s) := by
  unfold stepBody at hne ⊢
  rw [extend_pair, extend_rest, isPrefixOf_append s.pair.close_blankFree hl]
  split
  · next hp =>
    rw [if_pos hp] at hne
    exact closeTag_extend more (List.isPrefixOf_iff_prefix.mp hp) hne
  · cases hr : s.rest with
    | nil =>
      rw [hr] at hl
      cases hl
    | cons b rest =>
      simp only [List.cons_append]
      rw [extend_buffer, extend_advance more (by simp [hr])]

/-- A step that does not read to the end of a line, or is in text, does not see what follows the
line. -/
theorem step_extend (more : Bytes) (hl : s.rest.getLast? = some newline)
    (hne : s.mode = .text ∨ (step withGettext s).rest ≠ []) :
    step withGettext (extend more s) = extend more (step withGettext s) := by
  unfold step at hne ⊢
  rw [extend_mode]
  cases hm : s.mode with
  | text => exact stepText_extend more hl
  | sniff =>
    rw [hm] at hne
    exact stepSniff_extend more (hne.resolve_left (by simp))
  | body kind start =>
    rw [hm] at hne
    exact stepBody_extend more hl (hne.resolve_left (by simp))

/-! ## Reading on -/

/-- The second state has read some of what the first one has left. -/
def Reads (s t : State) : Prop :=
  ∃ read, s.rest = read ++ t.rest ∧ t.pos = s.pos + read.length

theorem Reads.of_eq (hr : t.rest = s.rest) (hp : t.pos = s.pos) : Reads s t :=
  ⟨[], by simp [hr], by simp [hp]⟩

theorem Reads.trans {u : State} (h : Reads s t) (h' : Reads t u) : Reads s u := by
  obtain ⟨read, hr, hp⟩ := h
  obtain ⟨read', hr', hp'⟩ := h'
  exact ⟨read ++ read', by rw [hr, hr', List.append_assoc],
    by rw [hp', hp, List.length_append, Nat.add_assoc]⟩

theorem Reads.advance (h : Reads s t) (n : Nat) : Reads s (t.advance n) :=
  h.trans ⟨t.rest.take n, (List.take_append_drop n t.rest).symm, rfl⟩

theorem reads_buffer (s : State) (b : UInt8) : Reads s (s.buffer b) := by
  rw [buffer_eq]
  exact .of_eq rfl rfl

theorem reads_changeDelimiters (s : State) (start : Nat) : Reads s (s.changeDelimiters start) := by
  unfold State.changeDelimiters
  dsimp only
  split
  · exact Reads.advance (.of_eq rfl rfl) _
  · split
    · exact Reads.advance (.of_eq rfl rfl) _
    · exact Reads.advance (.of_eq rfl rfl) _

/-- Every step reads some of the text, or nothing. -/
theorem reads_step (withGettext : Bool) (s : State) : Reads s (step withGettext s) := by
  have hsame : Reads s s := .of_eq rfl rfl
  unfold step
  split
  · -- in text: an escape, an open delimiter, a newline or a literal byte
    unfold stepText
    split
    · exact (reads_buffer s _).advance 2
    · split
      · exact .of_eq (State.flush_rest s s.pos) (flush_pos s s.pos)
      · split
        · exact hsame
        · split
          · refine (hsame.advance 1).trans (.of_eq ?_ ?_)
            · exact State.finishLine_rest _ _ _
            · exact finishLine_pos _ _ _
          · exact (reads_buffer s _).advance 1
  · -- at an open delimiter: the delimiter, and a sigil or a change
    unfold stepSniff
    have hopen : Reads s ({ s with seenTag := true }.advance s.pair.openMark.length) :=
      Reads.advance (.of_eq rfl rfl) _
    dsimp only
    split
    · exact hopen.trans (reads_changeDelimiters _ s.pos)
    · exact hopen.advance 1
    · exact hopen
  · -- in a body: a close delimiter and perhaps a brace, or a byte
    unfold stepBody
    split
    · unfold State.closeTag
      dsimp only
      split
      · exact (Reads.advance (.of_eq rfl rfl) _).advance 1
      · exact Reads.advance (.of_eq rfl rfl) _
    · split
      · exact hsame
      · exact (reads_buffer s _).advance 1

theorem reads_run (withGettext : Bool) (s : State) : Reads s (run withGettext s) := by
  fun_induction run withGettext s with
  | case1 s h => exact .of_eq rfl rfl
  | case2 s h ih => exact (reads_step withGettext s).trans ih

theorem run_rest (withGettext : Bool) (s : State) : (run withGettext s).rest = [] := by
  fun_induction run withGettext s with
  | case1 s h => exact h
  | case2 s h ih => exact ih

/-- What is left of a text ends as the text does. -/
theorem Reads.getLast? (h : Reads s t) (hne : t.rest ≠ []) : t.rest.getLast? = s.rest.getLast? := by
  obtain ⟨read, hr, -⟩ := h
  rw [hr, List.getLast?_append_of_ne_nil _ hne]

/-! ## The whole run -/

/-- The state before the last step of the loop, and the state itself if there is nothing to read. -/
def beforeEnd (withGettext : Bool) (s : State) : State :=
  if _h : s.rest = [] ∨ (step withGettext s).rest = [] then s
  else beforeEnd withGettext (step withGettext s)
termination_by s.measure
decreasing_by exact measure_step_lt withGettext fun hr => _h (.inl hr)

theorem reads_beforeEnd (withGettext : Bool) (s : State) : Reads s (beforeEnd withGettext s) := by
  fun_induction beforeEnd withGettext s with
  | case1 s h => exact .of_eq rfl rfl
  | case2 s h ih => exact (reads_step withGettext s).trans ih

/-- The last step of the loop reads a newline outside tags. -/
def EndsAtNewline (withGettext : Bool) (s : State) : Prop :=
  (beforeEnd withGettext s).mode = .text ∧ (beforeEnd withGettext s).rest = [newline]

/-- The loop over a text of whole lines goes on over the longer text. The induction is on the steps of
the loop; only the last one reads to the end of the text. -/
theorem run_extend (more : Bytes) {s : State} (hl : s.rest.getLast? = some newline)
    (he : EndsAtNewline withGettext s) :
    run withGettext (extend more s) = run withGettext (extend more (run withGettext s)) := by
  have hne : s.rest ≠ [] := by
    intro hn
    rw [hn] at hl
    cases hl
  have hne' : (extend more s).rest ≠ [] := by simp [hne]
  unfold EndsAtNewline at he
  rw [run_eq_run_step hne', run_eq_run_step hne]
  rw [beforeEnd] at he
  split at he
  · next hend =>
    -- the last step reads the newline, in text
    have hstep : (step withGettext s).rest = [] := hend.resolve_left hne
    rw [step_extend more hl (.inl he.1), run_of_rest_eq_nil hstep]
  · next hgoes =>
    -- any other step leaves something of the text, which ends in the same newline
    have hstep : (step withGettext s).rest ≠ [] := fun hn => hgoes (.inr hn)
    have hl' := ((reads_step withGettext s).getLast? hstep).trans hl
    rw [step_extend more hl (.inr hstep)]
    exact run_extend more hl' he
termination_by s.measure
decreasing_by exact measure_step_lt withGettext hne

/-- The last state of the loop is the last step away from the one before. -/
theorem run_eq_step_beforeEnd (hne : s.rest ≠ []) :
    run withGettext s = step withGettext (beforeEnd withGettext s) := by
  fun_induction beforeEnd withGettext s with
  | case1 s h =>
    rw [run_eq_run_step hne, run_of_rest_eq_nil (h.resolve_left hne)]
  | case2 s h ih =>
    rw [run_eq_run_step hne]
    exact ih fun hn => h (.inr hn)

/-! ## Between two lines -/

/-- The state stands between two lines: nothing of a line is read, and nothing is pending. -/
structure BetweenLines (s : State) : Prop where
  mode : s.mode = .text
  idle : s.pending = #[]
  line : s.line = #[]
  seenTag : s.seenTag = false

theorem betweenLines_finishLine (hm : s.mode = .text) (stop : Nat) (newlineAtStop : Bool) :
    BetweenLines (s.finishLine stop newlineAtStop) := by
  refine ⟨(State.finishLine_mode s stop newlineAtStop).trans hm, ?_, ?_, ?_⟩ <;>
    rw [← finishLine_flush, finishLine_of_idle (pending_flush s stop)]
  exact pending_flush s stop

/-- Between two lines, the end of the text leaves nothing to settle. -/
theorem BetweenLines.close_eq (h : BetweenLines s) : s.close = s := by
  have hlast : s.finishLine s.pos false = s := by
    rw [finishLine_of_idle h.idle, h.seenTag]
    have hline := h.line
    have hseen := h.seenTag
    cases s
    simp only at hline hseen
    simp [hline, hseen]
  have hmode := h.mode
  unfold State.close
  rw [hmode]
  dsimp only
  rw [hlast, ← hmode]

/-- Where more text is read does not matter to what has been read. -/
theorem Follows.extend {given : Option Bytes} {done : List (List Segment)} {line : List Segment}
    (h : Follows withGettext given done line s) (more : Bytes) :
    Follows withGettext given done line (extend more s) :=
  ⟨h.mode, h.idle, h.settled, h.tokens, h.seenTag, h.faults, h.notes, h.isOpen, h.texts⟩

theorem start_append (text more : Bytes) (given : Option Bytes) :
    State.start (text ++ more) given = extend more (State.start text given) := by
  rw [start_eq, start_eq]
  cases givenPair given with
  | none => rfl
  | some parsed => cases parsed <;> rfl

/-- A scan of a text ends with a line: the text is empty, or the last step of the scan reads a newline
outside tags. -/
def EndsLine (withGettext : Bool) (text : Bytes) (given : Option Bytes) : Prop :=
  text = [] ∨ EndsAtNewline withGettext (State.start text given)

/-- The pair in force at the end of a text. -/
def endPair (withGettext : Bool) (text : Bytes) (given : Option Bytes) : Delimiters :=
  (run withGettext (State.start text given)).pair

instance (withGettext : Bool) (s : State) : Decidable (EndsAtNewline withGettext s) :=
  inferInstanceAs (Decidable (_ ∧ _))

instance (withGettext : Bool) (text : Bytes) (given : Option Bytes) :
    Decidable (EndsLine withGettext text given) :=
  inferInstanceAs (Decidable (_ ∨ _))

section EndsLine

variable {text : Bytes} {given : Option Bytes}

theorem EndsLine.betweenLines (h : EndsLine withGettext text given) :
    BetweenLines (run withGettext (State.start text given)) := by
  by_cases ht : text = []
  · -- nothing is read
    have hstart := follows_start withGettext text given
    rw [run_of_rest_eq_nil ((start_place text given).2.2.trans ht)]
    exact ⟨hstart.mode, hstart.idle, by simpa using hstart.tokens, hstart.seenTag⟩
  · obtain ⟨hm, hr⟩ := h.resolve_left ht
    have hne : (State.start text given).rest ≠ [] := by rwa [(start_place text given).2.2]
    rw [run_eq_step_beforeEnd hne, step_of_newline hm hr]
    exact betweenLines_finishLine (s := skipTo _ []) hm _ _

/-- After whole lines, what has been read is their outline. -/
theorem EndsLine.follows (h : EndsLine withGettext text given) :
    Follows withGettext given (lines (outline withGettext text given)) []
      (run withGettext (State.start text given)) := by
  have hfinal := follows_final withGettext text given
  rwa [final, h.betweenLines.close_eq] at hfinal

/-- A text that ends with a line is empty or ends in a newline. -/
theorem EndsLine.getLast? (h : EndsLine withGettext text given) :
    text = [] ∨ text.getLast? = some newline := by
  rcases h with ht | ⟨-, hr⟩
  · exact .inl ht
  · have hlast := (reads_beforeEnd withGettext (State.start text given)).getLast? (by simp [hr])
    rw [hr, (start_place text given).2.2] at hlast
    exact .inr hlast.symm

/-- The scan of a longer text has read the outline of whole lines and then that of what follows. -/
theorem EndsLine.follows_final_append (h : EndsLine withGettext text given) (more : Bytes) :
    Follows withGettext given
      (lines (outline withGettext text given) ++
        lines (segments withGettext (endPair withGettext text given) text.length more)) []
      (final withGettext (text ++ more) given) := by
  obtain ⟨-, hpos, hrest⟩ := start_place text given
  have hend := run_rest withGettext (State.start text given)
  have hlen : (run withGettext (State.start text given)).pos = text.length := by
    obtain ⟨read, hr, hp⟩ := reads_run withGettext (State.start text given)
    rw [hrest, hend, List.append_nil] at hr
    rw [hp, hpos, hr, Nat.zero_add]
  have hrun : run withGettext (State.start (text ++ more) given) =
      run withGettext (extend more (run withGettext (State.start text given))) := by
    rw [start_append]
    by_cases ht : text = []
    · rw [run_of_rest_eq_nil (s := State.start text given) (hrest.trans ht)]
    · have hl := h.getLast?.resolve_left ht
      exact run_extend more (by rwa [hrest]) (h.resolve_left ht)
  -- from the end of the text on, the segments of what follows are read
  have hclose := follows_close_run (h.follows.extend more)
  rw [extend_rest, extend_pos, extend_pair, hend, hlen, List.nil_append, List.nil_append] at hclose
  rw [final, hrun]
  exact hclose

end EndsLine

/-! ## The two parts of a text -/

/-- The words of a pair give the pair, and no fault. -/
theorem givenPair_render (pair : Delimiters) : givenPair (some pair.render) = some (.ok pair) := by
  obtain ⟨b, mark, ho⟩ := List.exists_cons_of_ne_nil pair.open_ne_nil
  have hb : isBlank b = false := pair.open_blankFree b (by simp [ho])
  have hblank : allBlank pair.render = false := by simp [allBlank, Delimiters.render, ho, hb]
  simp [givenPair, hblank]

theorem outline_render (withGettext : Bool) (pair : Delimiters) (text : Bytes) :
    outline withGettext text (some pair.render) = segments withGettext pair 0 text := by
  rw [outline, startPair, givenPair_render]

section append

variable {text : Bytes} {given : Option Bytes}

theorem tokens_append (h : EndsLine withGettext text given) (more : Bytes) :
    tokens withGettext (text ++ more) given =
      tokens withGettext text given ++
        (tokens withGettext more (some (endPair withGettext text given).render)).map
          (Token.shift text.length) := by
  have hwhole := (follows_final withGettext (text ++ more) given).settled
  rw [(h.follows_final_append more).settled, List.flatMap_append] at hwhole
  have hsegs := segments_add withGettext (endPair withGettext text given) 0 text.length more
  rw [Nat.zero_add] at hsegs
  rw [tokens, ← hwhole, hsegs, lines_shift, List.flatMap_map, tokens, tokens, outline_render,
    List.map_flatMap]
  congr 1
  exact List.flatMap_congr fun line _ => lineTokens_shift text.length line

theorem faults_append (h : EndsLine withGettext text given) (more : Bytes) :
    faults withGettext (text ++ more) given =
      faults withGettext text given ++
        (faults withGettext more (some (endPair withGettext text given).render)).map
          (Fault.shift text.length) := by
  have hwhole := (follows_final withGettext (text ++ more) given).faults
  rw [(h.follows_final_append more).faults] at hwhole
  have hsegs := segments_add withGettext (endPair withGettext text given) 0 text.length more
  rw [Nat.zero_add] at hsegs
  have hfaults : faults withGettext more (some (endPair withGettext text given).render) =
      (segments withGettext (endPair withGettext text given) 0 more).filterMap Segment.fault? := by
    rw [faults, startFaults, givenPair_render, outline_render]
    rfl
  have hshift : (segments withGettext (endPair withGettext text given) text.length more).filterMap
      Segment.fault? =
        ((segments withGettext (endPair withGettext text given) 0 more).filterMap
          Segment.fault?).map (Fault.shift text.length) := by
    rw [hsegs, List.filterMap_map, List.map_filterMap]
    exact List.filterMap_congr fun s _ => fault?_shift text.length s
  simp only [List.append_nil, List.flatten_append, lines, flatten_cutAfter,
    List.filterMap_append, hshift] at hwhole
  rw [faults, ← hwhole, hfaults, faults, List.append_assoc]

end append

/-- The tokens of a scan, each with its span. -/
def spannedTokens (withGettext : Bool) (source : Source) (given : Option Bytes) :
    List (Token × Span) :=
  (scan withGettext source given).tokens.map fun t => (t, source.span t.extent)

/-- The faults of a scan, each with its span. -/
def spannedFaults (withGettext : Bool) (source : Source) (given : Option Bytes) :
    List (Fault × Span) :=
  (scan withGettext source given).faults.map fun f => (f, source.span f.extent)

/-- **Scanning is compositional at line ends.** If a source is put together from two, and the scan of
the first ends with a line, then the scan of the whole gives the tokens and the faults of the first,
followed by those of a scan of the second that starts with the pair in force at the end of the first.
The latter stand as many bytes and lines further on as the first source has. -/
theorem scan_append {whole first second : Source} {given : Option Bytes}
    (h : whole.text = first.text ++ second.text) (he : EndsLine withGettext first.text given) :
    let pair := endPair withGettext first.text given
    let bytes := first.text.length
    let lines := first.text.count newline
    spannedTokens withGettext whole given =
        spannedTokens withGettext first given ++
          (spannedTokens withGettext second (some pair.render)).map
            (Prod.map (Token.shift bytes) (Span.shift lines bytes)) ∧
      spannedFaults withGettext whole given =
        spannedFaults withGettext first given ++
          (spannedFaults withGettext second (some pair.render)).map
            (Prod.map (Fault.shift bytes) (Span.shift lines bytes)) := by
  intro pair bytes lines
  have hspan : ∀ e : Extent, whole.span (e.shift bytes) = (second.span e).shift lines bytes :=
    Source.span_add h he.getLast?
  constructor
  · have htokens := tokens_append he second.text
    rw [← h] at htokens
    simp only [spannedTokens, tokens_scan]
    rw [htokens, List.map_append, List.map_map, List.map_map]
    congr 1
    · -- the tokens of the first source lie inside it
      apply List.map_congr_left
      intro t ht
      obtain ⟨hstart, hstop⟩ := stop_le_of_mem_tokens ht
      rw [Source.span_of_le h hstart hstop]
    · apply List.map_congr_left
      intro t _
      simp only [Function.comp_apply, Prod.map_apply, Prod.mk.injEq, true_and, bytes]
      exact hspan t.extent
  · have hfaults := faults_append he second.text
    rw [← h] at hfaults
    simp only [spannedFaults, faults_scan]
    rw [hfaults, List.map_append, List.map_map, List.map_map]
    congr 1
    · -- and so do its faults
      apply List.map_congr_left
      intro f hf
      obtain ⟨hstart, hstop⟩ := stop_le_of_mem_faults hf
      rw [Source.span_of_le h hstart hstop]
    · apply List.map_congr_left
      intro f _
      simp only [Function.comp_apply, Prod.map_apply, Prod.mk.injEq, true_and, bytes]
      exact hspan f.extent

/-- A line that changes the delimiters. -/
def changeLine : Source := .ofText [] (ascii "a \x7b\x7b=[ ]=\x7d\x7d\n")

/-- A line under the changed delimiters, and a tag that does not end. -/
def openLine : Source := .ofText [] (ascii "[b]\n[c")

/-- Both lines, one after the other. -/
def bothLines : Source := .ofText [] (changeLine.text ++ openLine.text)

/-- What the second line gives under the changed delimiters is found in both, one line and twelve bytes
further on, the fault of its open tag as well. -/
theorem scan_append_bothLines :
    EndsLine false changeLine.text none ∧
      (endPair false changeLine.text none).render = ascii "[ ]" ∧
      spannedTokens false bothLines none =
        spannedTokens false changeLine none ++
          (spannedTokens false openLine (some (ascii "[ ]"))).map
            (Prod.map (Token.shift 12) (Span.shift 1 12)) ∧
      spannedFaults false bothLines none =
        (spannedFaults false openLine (some (ascii "[ ]"))).map
          (Prod.map (Fault.shift 12) (Span.shift 1 12)) := by
  have he : EndsLine false changeLine.text none := by decide +kernel
  have hpair : (endPair false changeLine.text none).render = ascii "[ ]" := by decide +kernel
  have hfirst : spannedFaults false changeLine none = [] := by decide +kernel
  have hboth : bothLines.text = changeLine.text ++ openLine.text := rfl
  obtain ⟨htokens, hfaults⟩ := scan_append hboth he
  rw [hpair] at htokens hfaults
  rw [hfirst, List.nil_append] at hfaults
  exact ⟨he, hpair, htokens, hfaults⟩

end TemplateLexer.Outline
