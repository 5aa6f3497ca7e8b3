import TemplateLexer.Proofs.Outline.Composition

/-!
# The scan loop makes progress

The loop ends on every text, because each of its steps reads something or comes to an open delimiter
that the next step reads. Both rest on what holds in every state of the loop (`Sound`): the marks of the
pair in force are words, wherever the pair comes from, and a state that sniffs at a tag stands at the
open delimiter in force.

* `Reachable`: the states of the loop;
* `sound_start`, `Sound.step`, `Reachable.sound`: what holds in the first state, what a step keeps, and
  so what holds in all of them;
* `advances_step`: what one step reads;
* `touchLast?_addTag`: the end of a tag finds the token that it touches up;
* `exists_iterate_eq_run`: the loop is a bounded number of steps;
* `progress_of_reachable`, `loop_ends`: all of it for every state, and for the whole loop.
-/

namespace TemplateLexer.Scan

open Bytes Outline

variable {withGettext : Bool} {text : Bytes} {given : Option Bytes} {s : State}

/-! ## States of the loop -/

/-- A state that the loop comes to in the scan of a text: the first one, and what a step makes of a
state that has something left to read. -/
inductive Reachable (withGettext : Bool) (text : Bytes) (given : Option Bytes) : State → Prop
  | start : Reachable withGettext text given (State.start text given)
  | step {s : State} : Reachable withGettext text given s → s.rest ≠ [] →
      Reachable withGettext text given (Scan.step withGettext s)

/-- The pair is the standard one, or it is named by the two words of the delimiters given for the scan
or of a stretch of the text. -/
def PairNamed (text : Bytes) (given : Option Bytes) (pair : Delimiters) : Prop :=
  pair = .standard ∨
    ∃ spec, (given = some spec ∨ spec <:+: text) ∧ words spec = [pair.openMark, pair.closeMark]

/-- What holds in every state of the loop. -/
structure Sound (text : Bytes) (given : Option Bytes) (s : State) : Prop where
  /-- The state stands in the text or at its end. -/
  pos_le : s.pos ≤ text.length
  /-- What is left to read is the text from there on. -/
  rest_eq : s.rest = text.drop s.pos
  named : PairNamed text given s.pair
  /-- A state that sniffs at a tag stands at the open delimiter. -/
  atOpen : s.mode = .sniff → s.pair.openMark <+: s.rest

/-! ## One step -/

@[simp] theorem State.buffer_pair (s : State) (b : UInt8) : (s.buffer b).pair = s.pair := by
  rw [buffer_eq]

/-- A delimiter change leaves the pair in force, or puts one in force that the text names. -/
theorem pair_changeDelimiters (s : State) (start : Nat) :
    (s.changeDelimiters start).pair = s.pair ∨
      ∃ spec, spec <:+: s.rest ∧ Delimiters.parse spec = .ok (s.changeDelimiters start).pair := by
  unfold State.changeDelimiters
  dsimp only
  split
  · exact .inl rfl
  · next spec rest hc =>
    cases hd : Delimiters.parse spec with
    | error e => exact .inl rfl
    | ok pair =>
      refine .inr ⟨spec, ?_, hd⟩
      -- the words stand between the equals sign and the end of the change
      have hinner : spec <:+: s.rest.drop 1 :=
        ⟨[], s.pair.changeMark ++ rest, by simp [eq_of_cutAt? hc]⟩
      exact hinner.trans (List.drop_suffix 1 s.rest).isInfix

/-- In text and in bodies, the pair stays. -/
theorem pair_stepText (s : State) : (stepText s).pair = s.pair := by
  unfold stepText
  split
  · simp
  · split
    · exact flush_pair s s.pos
    · split
      · rfl
      · split
        · exact finishLine_pair _ _ _
        · simp

theorem pair_stepBody (withGettext : Bool) (kind : Kind) (start : Nat) (s : State) :
    (stepBody withGettext kind start s).pair = s.pair := by
  unfold stepBody
  split
  · unfold State.closeTag
    dsimp only
    split <;> rfl
  · split
    · rfl
    · simp

/-- A step changes the pair only to one that is named in what is left to read. -/
theorem pair_step (withGettext : Bool) (s : State) :
    (step withGettext s).pair = s.pair ∨
      ∃ spec, spec <:+: s.rest ∧ Delimiters.parse spec = .ok (step withGettext s).pair := by
  unfold step
  split
  · exact .inl (pair_stepText s)
  · rw [stepSniff_eq]
    dsimp only
    split
    · rcases pair_changeDelimiters ({ s with seenTag := true }.advance s.pair.openMark.length) s.pos
        with hp | ⟨spec, hspec, hd⟩
      · exact .inl hp
      · -- what follows the open delimiter is part of what is left to read
        exact .inr ⟨spec, hspec.trans (List.drop_suffix _ s.rest).isInfix, hd⟩
    · exact .inl rfl
  · exact .inl (pair_stepBody withGettext _ _ s)

/-- A step from text stays in text, or it has come to an open delimiter and reads nothing. -/
theorem cases_mode_stepText (hm : s.mode = .text) :
    (stepText s).mode = .text ∨
      (s.pair.openMark <+: s.rest ∧ stepText s = { s.flush s.pos with mode := .sniff }) := by
  unfold stepText
  split
  · simp [hm]
  · split
    · next hp => exact .inr ⟨List.isPrefixOf_iff_prefix.mp hp, rfl⟩
    · split
      · exact .inl hm
      · split <;> simp [hm]

/-- After an open delimiter, a step does not sniff at a tag. -/
theorem mode_stepSniff (withGettext : Bool) (s : State) :
    (stepSniff withGettext s).mode ≠ .sniff := by
  rw [stepSniff_eq]
  dsimp only
  split <;> simp

/-- Neither does a step in a body. -/
theorem mode_stepBody (withGettext : Bool) {kind : Kind} {start : Nat}
    (hm : s.mode = .body kind start) : (stepBody withGettext kind start s).mode ≠ .sniff := by
  unfold stepBody
  split
  · simp [State.closeTag]
  · split <;> simp [hm]

/-- Only a step from text to an open delimiter comes to sniff at a tag. -/
theorem text_of_step_sniff (h : (step withGettext s).mode = .sniff) :
    s.mode = .text ∧ s.pair.openMark <+: s.rest ∧
      step withGettext s = { s.flush s.pos with mode := .sniff } := by
  unfold step at h ⊢
  split at h
  · next hm =>
    rcases cases_mode_stepText hm with ht | ⟨hp, hs⟩
    · rw [ht] at h
      cases h
    · exact ⟨hm, hp, hs⟩
  · exact absurd h (mode_stepSniff withGettext s)
  · next hm => exact absurd h (mode_stepBody withGettext hm)

/-- Every step before the end of the text reads something, or comes to an open delimiter. -/
theorem advances_step (withGettext : Bool) (hne : s.rest ≠ []) :
    s.pos < (step withGettext s).pos ∨
      (s.mode = .text ∧ (step withGettext s).mode = .sniff ∧
        (step withGettext s).pos = s.pos) := by
  have hlt := measure_step_lt withGettext hne
  obtain ⟨read, hrest, hpos⟩ := reads_step withGettext s
  by_cases hread : read = []
  · right
    -- nothing is read, so the measure drops because text is left
    rw [hread, List.nil_append] at hrest
    rw [hread, List.length_nil, Nat.add_zero] at hpos
    rw [State.measure, State.measure, ← hrest] at hlt
    have hm : s.mode = .text := by
      by_contra hm
      rw [if_neg hm] at hlt
      omega
    have hm' : (step withGettext s).mode ≠ .text := by
      intro hm'
      rw [if_pos hm, if_pos hm'] at hlt
      omega
    refine ⟨hm, ?_, hpos⟩
    simp only [step, hm] at hm' ⊢
    rcases cases_mode_stepText hm with ht | ⟨-, hs⟩
    · exact absurd ht hm'
    · rw [hs]
  · left
    have hlen := List.length_pos_iff.mpr hread
    omega

/-! ## Every state -/

/-- A pair that is named in a stretch of the text is named in the text. -/
theorem PairNamed.of_parse {spec : Bytes} {pair : Delimiters} (hspec : spec <:+: text)
    (hd : Delimiters.parse spec = .ok pair) : PairNamed text given pair :=
  .inr ⟨spec, .inr hspec, Delimiters.parse_eq_ok_iff.mp hd⟩

theorem sound_start (text : Bytes) (given : Option Bytes) : Sound text given (State.start text given) := by
  obtain ⟨hpair, hpos, hrest⟩ := start_place text given
  have hmode : (State.start text given).mode = .text := (follows_start false text given).mode
  refine ⟨by simp [hpos], by simp [hpos, hrest], ?_, by simp [hmode]⟩
  rw [hpair, startPair]
  -- the delimiters given for the scan are read as a pair, or the standard pair is taken
  split
  · next pair hg =>
    obtain ⟨spec, hspec, hd⟩ := Option.bind_eq_some_iff.mp hg
    split at hd
    · cases hd
    · exact .inr ⟨spec, .inl hspec, Delimiters.parse_eq_ok_iff.mp (Option.some.inj hd)⟩
  · exact .inl rfl

theorem Sound.step (h : Sound text given s) : Sound text given (step withGettext s) := by
  obtain ⟨read, hrest, hpos⟩ := reads_step withGettext s
  have htext : text = text.take s.pos ++ (read ++ (Scan.step withGettext s).rest) := by
    rw [← hrest, h.rest_eq, List.take_append_drop]
  have hlen : (text.take s.pos).length = s.pos := by
    rw [List.length_take]
    have hle := h.pos_le
    omega
  refine ⟨?_, ?_, ?_, ?_⟩
  · have ht := congrArg List.length htext
    simp only [List.length_append, hlen] at ht
    omega
  · -- what is read stands between the two places
    conv_rhs => rw [htext, hpos, ← List.append_assoc]
    rw [List.drop_left' (by rw [List.length_append, hlen])]
  · rcases pair_step withGettext s with hp | ⟨spec, hspec, hd⟩
    · rw [hp]
      exact h.named
    · rw [h.rest_eq] at hspec
      exact .of_parse (hspec.trans (List.drop_suffix _ text).isInfix) hd
  · intro hsniff
    obtain ⟨-, hp, hs⟩ := text_of_step_sniff hsniff
    rw [hs]
    simpa [flush_pair] using hp

theorem Reachable.sound (h : Reachable withGettext text given s) : Sound text given s := by
  induction h with
  | start => exact sound_start text given
  | step _ _ ih => exact ih.step

/-! ## The token that was added last

The end of a tag adds a token, goes past the close delimiter, and then touches up the token added last.
A step does this at once; here the two parts are told apart, and the second one may fail to find a
token. -/

/-- The end of a tag up to where its token is added and its bytes are read. -/
def State.addTag (withGettext : Bool) (kind : Kind) (start : Nat) (s : State) : State :=
  let t := Tag.token withGettext s.pair kind start s.pos s.pending.toList
  let s := { s.note (.tagRead t) with line := s.line.push t, pending := #[], mode := .text }
  let s := s.advance s.pair.closeMark.length
  if Tag.absorbsBrace s.pair kind then s.advance 1 else s

/-- The last touch to the token added last, if there is one on the line. -/
def State.touchLast? (kind : Kind) (s : State) : Option State :=
  s.line.back?.map fun t => { s with line := s.line.pop.push (Tag.finish s.pair kind s.pos t) }

/-- The end of a tag finds the token that it touches up. -/
theorem touchLast?_addTag (withGettext : Bool) (kind : Kind) (start : Nat) (s : State) :
    (s.addTag withGettext kind start).touchLast? kind = some (s.closeTag withGettext kind start) := by
  unfold State.addTag State.touchLast? State.closeTag
  dsimp only [State.advance_pair, State.note_pair]
  by_cases hb : Tag.absorbsBrace s.pair kind = true
  · simp [hb, State.advance, State.note]
  · simp [hb, State.advance, State.note]

/-! ## The whole loop -/

/-- Twice the number of bytes from the position on, and one more in text. -/
def remaining (text : Bytes) (s : State) : Nat :=
  2 * (text.length - s.pos) + if s.mode = .text then 1 else 0

theorem Sound.measure_eq (h : Sound text given s) : s.measure = remaining text s := by
  rw [State.measure, remaining, h.rest_eq, List.length_drop]

/-- The loop is a number of steps that the measure bounds, each from a state that has something left to
read. -/
theorem exists_iterate_eq_run (withGettext : Bool) (s : State) :
    ∃ n ≤ s.measure, (∀ m < n, ((step withGettext)^[m] s).rest ≠ []) ∧
      run withGettext s = (step withGettext)^[n] s := by
  fun_induction run withGettext s with
  | case1 s h => exact ⟨0, Nat.zero_le _, by simp, rfl⟩
  | case2 s h ih =>
    obtain ⟨n, hn, hne, hrun⟩ := ih
    have hlt := measure_step_lt withGettext h
    refine ⟨n + 1, by omega, ?_, hrun⟩
    intro m hm
    cases m with
    | zero => exact h
    | succ m => exact hne m (by omega)

/-- The state after some steps of the loop is one of its states. -/
theorem Reachable.iterate (h : Reachable withGettext text given s) {n : Nat}
    (hne : ∀ m < n, ((Scan.step withGettext)^[m] s).rest ≠ []) :
    Reachable withGettext text given ((Scan.step withGettext)^[n] s) := by
  induction n with
  | zero => exact h
  | succ n ih =>
    rw [Function.iterate_succ_apply']
    exact .step (ih fun m hm => hne m (by omega)) (hne n (by omega))

/-- What a state of the loop is ready for, and what the next step does: every place that the step looks
at is there, and the step comes closer to the end of the text. -/
structure Progress (withGettext : Bool) (text : Bytes) (given : Option Bytes) (s : State) : Prop
    extends Sound text given s where
  marks : s.pair.openMark ≠ [] ∧ s.pair.closeMark ≠ [] ∧ BlankFree s.pair.openMark ∧
    BlankFree s.pair.closeMark
  /-- The open delimiter has a first byte. -/
  firstByte : ∃ b, s.pair.openMark.head? = some b
  /-- The end of a tag finds the token that it touches up. -/
  lastToken : ∀ kind start, s.mode = .body kind start → s.pair.closeMark <+: s.rest →
    (s.addTag withGettext kind start).touchLast? kind = some (step withGettext s)
  /-- Before the end of the text, a step goes on in the text or comes to an open delimiter. -/
  advances : s.rest ≠ [] →
    (s.pos < (step withGettext s).pos ∧ (step withGettext s).pos ≤ text.length) ∨
      (s.mode = .text ∧ (step withGettext s).mode = .sniff ∧ (step withGettext s).pos = s.pos)
  decreases : s.rest ≠ [] → remaining text (step withGettext s) < remaining text s

theorem progress_of_reachable (h : Reachable withGettext text given s) :
    Progress withGettext text given s where
  toSound := h.sound
  marks := ⟨s.pair.open_ne_nil, s.pair.close_ne_nil, s.pair.open_blankFree, s.pair.close_blankFree⟩
  firstByte := by
    obtain ⟨b, mark, ho⟩ := List.exists_cons_of_ne_nil s.pair.open_ne_nil
    exact ⟨b, by rw [ho]; rfl⟩
  lastToken := by
    intro kind start hm hp
    rw [touchLast?_addTag]
    simp only [step, hm, stepBody, List.isPrefixOf_iff_prefix.mpr hp, if_true]
  advances := by
    intro hne
    rcases advances_step withGettext hne with hlt | hsniff
    · exact .inl ⟨hlt, h.sound.step.pos_le⟩
    · exact .inr hsniff
  decreases := by
    intro hne
    rw [← h.sound.measure_eq, ← h.sound.step.measure_eq]
    exact measure_step_lt withGettext hne

/-- **The scan loop ends.** In every state that the loop comes to, the marks in force are words, a state
that sniffs at a tag stands at its open delimiter, and the next step goes on in the text or from text
to an open delimiter. So it takes at most one step more than twice the bytes of the text to read it to
its end, and it does not end where it would still have to sniff at a tag. -/
theorem loop_ends (withGettext : Bool) (text : Bytes) (given : Option Bytes) :
    (∀ s, Reachable withGettext text given s → Progress withGettext text given s) ∧
      ∃ n ≤ 2 * text.length + 1,
        (∀ m < n, ((step withGettext)^[m] (State.start text given)).rest ≠ []) ∧
        (step withGettext)^[n] (State.start text given) = run withGettext (State.start text given) ∧
        (run withGettext (State.start text given)).rest = [] ∧
        (run withGettext (State.start text given)).pos = text.length ∧
        (run withGettext (State.start text given)).mode ≠ .sniff := by
  refine ⟨fun s h => progress_of_reachable h, ?_⟩
  obtain ⟨n, hn, hne, hrun⟩ := exists_iterate_eq_run withGettext (State.start text given)
  have hend := run_rest withGettext (State.start text given)
  have hsound : Sound text given (run withGettext (State.start text given)) := by
    rw [hrun]
    exact (Reachable.start.iterate hne).sound
  have hbound : (State.start text given).measure = 2 * text.length + 1 := by
    obtain ⟨-, hpos, -⟩ := start_place text given
    have hmode : (State.start text given).mode = .text := (follows_start false text given).mode
    rw [(sound_start text given).measure_eq, remaining, hpos, if_pos hmode, Nat.sub_zero]
  refine ⟨n, by omega, hne, hrun.symm, hend, ?_, ?_⟩
  · have hle := hsound.pos_le
    have hdrop := hsound.rest_eq.symm.trans hend
    rw [List.drop_eq_nil_iff] at hdrop
    omega
  · intro hsniff
    -- an open delimiter would be left to read
    have hp := hsound.atOpen hsniff
    rw [hend, List.prefix_nil] at hp
    exact (run withGettext (State.start text given)).pair.open_ne_nil hp

/-- A run, a delimiter change and a tag under the changed delimiters. -/
def changedTag : Bytes := ascii "x\x7b\x7b=[ ]=\x7d\x7d[y]"

/-- After four steps the loop stands at the open delimiter that the change has put in force. The next
step reads it. -/
theorem loop_ends_changedTag :
    ∃ s, Reachable false changedTag none s ∧ s.mode = .sniff ∧ s.rest = ascii "[y]" ∧
      s.pair.openMark <+: s.rest ∧ s.pos < (step false s).pos := by
  have hne : ∀ m < 4, ((step false)^[m] (State.start changedTag none)).rest ≠ [] := by
    decide +kernel
  have hreach := Reachable.start.iterate hne
  have hmode : ((step false)^[4] (State.start changedTag none)).mode = .sniff := by decide +kernel
  have hrest : ((step false)^[4] (State.start changedTag none)).rest = ascii "[y]" := by
    decide +kernel
  have hprogress := (loop_ends false changedTag none).1 _ hreach
  refine ⟨_, hreach, hmode, hrest, hprogress.atOpen hmode, ?_⟩
  rcases hprogress.advances (by rw [hrest]; decide) with ⟨hlt, -⟩ | ⟨htext, -⟩
  · exact hlt
  · rw [hmode] at htext
    cases htext

end TemplateLexer.Scan
