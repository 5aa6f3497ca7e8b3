import TemplateLexer.Proofs.Scan.Progress

/-!
# Where the loop sniffs

The outline of a text says where its marks stand, the tags and delimiter changes, and under which pair.
The loop finds them a byte at a time. Here both are compared place by place.

* `marksAhead`: the marks that a state still has in front of it, told by the outline of what is left to
  read;
* `Reachable.marksAhead_eq`: a step passes by the mark that a sniffing state stands at, and by no other;
* `exists_reachable_iff`: so the loop sniffs at the marks of the outline, under their pairs, and nowhere
  else.
-/

namespace TemplateLexer.Scan

open Bytes Outline

variable {withGettext : Bool} {text : Bytes} {given : Option Bytes} {s : State} {pair : Delimiters}
  {pos : Nat}

/-! ## Marks that are left -/

/-- The marks of a text that starts at offset `pos`, where `pair` is in force. -/
def marksFrom (withGettext : Bool) (pair : Delimiters) (pos : Nat) (text : Bytes) : List Segment :=
  (segments withGettext pair pos text).filter Segment.isMark

/-- What is left after the body of a tag that ends in front of `after`. -/
def afterClose (pair : Delimiters) (kind : Kind) (after : Bytes) : Bytes :=
  if Tag.absorbsBrace pair kind then after.drop 1 else after

theorem length_afterClose_le (pair : Delimiters) (kind : Kind) (after : Bytes) :
    (afterClose pair kind after).length ≤ after.length := by
  unfold afterClose
  split
  · simp
  · exact Nat.le_refl _

/-- The marks that a state has in front of it. A sniffing state stands at the first of them. -/
def marksAhead (withGettext : Bool) (s : State) : List Segment :=
  match s.mode with
  | .text => marksFrom withGettext s.pair s.pos s.rest
  | .sniff =>
    let mark := markAt withGettext s
    mark :: marksFrom withGettext mark.pairAfter mark.extent.stop
      (readMark withGettext s.pair s.pos s.rest).2
  | .body kind _ =>
    match cutAt? s.pair.closeMark s.rest with
    | none => []
    | some (_, after) =>
      marksFrom withGettext s.pair
        (s.pos + (s.rest.length - (afterClose s.pair kind after).length))
        (afterClose s.pair kind after)

@[simp] theorem marksFrom_nil (withGettext : Bool) (pair : Delimiters) (pos : Nat) :
    marksFrom withGettext pair pos [] = [] := by
  simp [marksFrom]

/-- The marks after a run of text that starts with a literal byte are those after the byte. -/
theorem marksFrom_of_textByte? {rest : Bytes} {b : UInt8} (h : textByte? pair text = some (b, rest)) :
    marksFrom withGettext pair (pos + (text.length - rest.length)) rest =
      marksFrom withGettext pair pos text := by
  have hlt := length_lt_of_textByte? h
  have hle := length_readRun_le pair rest
  have hrun := readRun_of_some h
  have hfirst : marksFrom withGettext pair pos text =
      marksFrom withGettext pair (pos + (text.length - (readRun pair rest).2.length))
        (readRun pair rest).2 := by
    rw [marksFrom, segments_run withGettext pos hrun (List.cons_ne_nil _ _)]
    rfl
  rw [hfirst]
  by_cases hne : (readRun pair rest).1 = []
  · -- the byte is all of the run
    have hrest : (readRun pair rest).2 = rest := by
      cases hb : textByte? pair rest with
      | none => rw [readRun_of_none hb]
      | some p => exact absurd hne (readRun_ne_nil hb)
    rw [hrest]
  · have hpos : pos + (text.length - rest.length) + (rest.length - (readRun pair rest).2.length) =
        pos + (text.length - (readRun pair rest).2.length) := by omega
    rw [marksFrom, segments_run withGettext _ rfl hne, hpos]
    rfl

theorem marksFrom_newline (withGettext : Bool) (pair : Delimiters) (pos : Nat) (rest : Bytes) :
    marksFrom withGettext pair pos (newline :: rest) =
      marksFrom withGettext pair (pos + 1) rest := by
  rw [marksFrom, segments_newline]
  rfl

/-- At an open delimiter, the first mark is the one that is read there. -/
theorem marksFrom_mark (hp : s.pair.openMark <+: s.rest)
    (he : escapedByte? s.pair s.rest = none) :
    marksFrom withGettext s.pair s.pos s.rest =
      markAt withGettext s :: marksFrom withGettext (markAt withGettext s).pairAfter
        (markAt withGettext s).extent.stop (readMark withGettext s.pair s.pos s.rest).2 := by
  rw [marksFrom, segments_mark withGettext s.pos hp he (s := markAt withGettext s) rfl,
    List.filter_cons_of_pos (isMark_markAt withGettext s)]
  rfl

/-! ## One step -/

/-- In text, a step passes by no mark. -/
theorem marksAhead_stepText (hm : s.mode = .text) (hne : s.rest ≠ []) :
    marksAhead withGettext (step withGettext s) = marksAhead withGettext s := by
  have hahead : marksAhead withGettext s = marksFrom withGettext s.pair s.pos s.rest := by
    simp only [marksAhead, hm]
  rw [hahead]
  cases hb : textByte? s.pair s.rest with
  | some p =>
    obtain ⟨b, rest⟩ := p
    rw [step_of_textByte? hm hb, buffer_eq]
    simp only [marksAhead, skipTo, hm]
    exact marksFrom_of_textByte? hb
  | none =>
    rcases cases_of_textByte?_eq_none hb with hnil | ⟨rest, hr⟩ | ⟨hp, he⟩
    · exact absurd hnil hne
    · -- a newline: the line is finished and the pair stays
      have hpos : (skipTo s rest).pos = s.pos + 1 := by simp [skipTo, hr]
      have hmode : ((skipTo s rest).finishLine s.pos true).mode = .text := by
        rw [State.finishLine_mode]
        exact hm
      rw [step_of_newline hm hr]
      simp only [marksAhead, hmode]
      rw [finishLine_pair, finishLine_pos, State.finishLine_rest, hpos, hr, marksFrom_newline]
      rfl
    · -- an open delimiter: the state comes to stand at it
      rw [step_of_open hm hp he, marksFrom_mark hp he]
      simp only [marksAhead, markAt, flush_pair, flush_pos, State.flush_rest]

/-- At an open delimiter no bytes are pending: the run in front of it was ended. -/
theorem Reachable.idle (h : Reachable withGettext text given s) (hm : s.mode = .sniff) :
    s.pending = #[] := by
  cases h with
  | start =>
    rw [(follows_start false text given).mode] at hm
    cases hm
  | step h _ =>
    obtain ⟨-, -, hs⟩ := text_of_step_sniff hm
    rw [hs]
    exact pending_flush _ _

/-- The sigil of a delimiter change starts one, and only that sigil does. -/
theorem change_iff_sigil (pair : Delimiters) (pos : Nat) {inner : Bytes} :
    (readMark withGettext pair pos (pair.openMark ++ inner)).1 = .openChange ∨
        (∃ spec, (readMark withGettext pair pos (pair.openMark ++ inner)).1 = .change spec) ↔
      inner.head?.bind (Kind.ofSigil withGettext) = some .delimiterChange := by
  obtain ⟨sigil, hk⟩ : ∃ sigil, inner.head?.bind (Kind.ofSigil withGettext) = sigil := ⟨_, rfl⟩
  by_cases hchange : sigil = some .delimiterChange
  · rw [hchange] at hk
    obtain ⟨b, hb, hkb⟩ := Option.bind_eq_some_iff.mp hk
    obtain ⟨tail, rfl⟩ := List.head?_eq_some_iff.mp hb
    cases hc : cutAt? pair.changeMark tail with
    | none => simp [readMark_openChange pair pos hkb hc, hkb]
    | some parts =>
      obtain ⟨spec, rest⟩ := parts
      simp [readMark_change pair pos hkb hc, hkb]
  · -- any other sigil starts a tag
    cases hc : cutAt? pair.closeMark (inner.drop (sigilWidth sigil)) with
    | none => simp [readMark_openTag pair pos hk hchange hc, hk, hchange]
    | some parts =>
      obtain ⟨body, rest⟩ := parts
      simp [readMark_tag pair pos hk hchange hc, hk, hchange]

/-- A step reads a delimiter change to its end, whether it has one or not. -/
theorem step_of_change (hm : s.mode = .sniff) (hp : s.pair.openMark <+: s.rest)
    (hi : s.pending = #[])
    (hk : (markAt withGettext s).piece = .openChange ∨
      ∃ spec, (markAt withGettext s).piece = .change spec) :
    step withGettext s = afterMark withGettext s s.pendingStart := by
  have hs : { s with mode := .sniff } = s := by rw [← hm]
  obtain ⟨inner, hr⟩ := hp
  simp only [markAt, ← hr] at hk
  obtain ⟨b, hb, hkb⟩ := Option.bind_eq_some_iff.mp ((change_iff_sigil s.pair s.pos).mp hk)
  obtain ⟨tail, rfl⟩ := List.head?_eq_some_iff.mp hb
  have hsniff := stepSniff_change hi hr.symm hkb
  rw [hs] at hsniff
  simpa only [step, hm] using hsniff

/-- From an open delimiter, a step goes past a delimiter change, or into the body of a tag. The pair is
the one that the mark leaves in force. -/
theorem marksAhead_stepSniff (hm : s.mode = .sniff) (hp : s.pair.openMark <+: s.rest)
    (hi : s.pending = #[]) :
    (step withGettext s).pair = (markAt withGettext s).pairAfter ∧
      marksAhead withGettext (step withGettext s) =
        marksFrom withGettext (markAt withGettext s).pairAfter (markAt withGettext s).extent.stop
          (readMark withGettext s.pair s.pos s.rest).2 := by
  have hs : { s with mode := .sniff } = s := by rw [← hm]
  obtain ⟨inner, hr⟩ := hp
  obtain ⟨sigil, hk⟩ : ∃ sigil, inner.head?.bind (Kind.ofSigil withGettext) = sigil := ⟨_, rfl⟩
  by_cases hchange : sigil = some .delimiterChange
  · rw [hchange] at hk
    have hpiece := (change_iff_sigil s.pair s.pos).mpr hk
    rw [hr] at hpiece
    rw [step_of_change hm ⟨inner, hr⟩ hi hpiece]
    exact ⟨rfl, rfl⟩
  · have hsniff := stepSniff_of_tag hr.symm hk hchange
    rw [hs] at hsniff
    have hstep : step withGettext s = stepSniff withGettext s := by simp only [step, hm]
    rw [hstep, hsniff]
    cases hc : cutAt? s.pair.closeMark (inner.drop (sigilWidth sigil)) with
    | none =>
      have hread := readMark_openTag s.pair s.pos hk hchange hc
      rw [hr] at hread
      simp [marksAhead, markAt, hread, Segment.pairAfter, skipTo, hc]
    | some parts =>
      obtain ⟨body, after⟩ := parts
      have hread := readMark_tag s.pair s.pos hk hchange hc
      rw [hr] at hread
      have hafter := congrArg List.length (eq_of_cutAt? hc)
      have hclose := length_afterClose_le s.pair (sigil.getD .escaped) after
      have hlen : (inner.drop (sigilWidth sigil)).length ≤ s.rest.length := by
        rw [← hr, List.length_drop, List.length_append]
        omega
      have hpos : s.pos + (s.rest.length - (inner.drop (sigilWidth sigil)).length) +
          ((inner.drop (sigilWidth sigil)).length -
            (afterClose s.pair (sigil.getD .escaped) after).length) =
          s.pos + (s.rest.length - (afterClose s.pair (sigil.getD .escaped) after).length) := by
        simp only [List.length_append] at hafter
        omega
      simp only [marksAhead, markAt, hread, Segment.pairAfter, skipTo, hc, hpos]
      exact ⟨trivial, rfl⟩

/-- In a body, a step passes by no mark: what looks like one is part of the body. -/
theorem marksAhead_stepBody {kind : Kind} {start : Nat} (hm : s.mode = .body kind start)
    (hne : s.rest ≠ []) :
    marksAhead withGettext (step withGettext s) = marksAhead withGettext s := by
  by_cases hp : s.pair.closeMark <+: s.rest
  · -- the tag ends here
    have hcut := cutAt?_of_startsWith hp
    obtain ⟨after, hr⟩ := hp
    have hdrop : s.rest.drop s.pair.closeMark.length = after := by rw [← hr, List.drop_left]
    have hlen : s.rest.length = s.pair.closeMark.length + after.length := by
      rw [← hr, List.length_append]
    rw [hdrop] at hcut
    have hstep : step withGettext s = s.closeTag withGettext kind start := by
      simp only [step, hm, stepBody, List.isPrefixOf_iff_prefix.mpr ⟨after, hr⟩, if_true]
    rw [hstep]
    simp only [marksAhead, hm, hcut, State.closeTag, advance_eq_skipTo, State.note, skipTo, hdrop,
      afterClose]
    by_cases hb : Tag.absorbsBrace s.pair kind = true
    · have hpos : s.pos + (s.rest.length - after.length) +
          (after.length - (after.length - 1)) = s.pos + (s.rest.length - (after.length - 1)) := by
        omega
      simp [hb, hpos]
    · simp [hb]
  · obtain ⟨b, rest, hr⟩ := List.exists_cons_of_ne_nil hne
    rw [step_of_body hm hr hp, buffer_eq]
    have hp' := hp
    rw [hr] at hp'
    simp only [marksAhead, skipTo, hm, hr, cutAt?_cons hp']
    cases hc : cutAt? s.pair.closeMark rest with
    | none => rfl
    | some parts =>
      obtain ⟨before, after⟩ := parts
      have hafter := congrArg List.length (eq_of_cutAt? hc)
      have hclose := length_afterClose_le s.pair kind after
      have hpos : s.pos + ((b :: rest).length - rest.length) +
          (rest.length - (afterClose s.pair kind after).length) =
          s.pos + ((b :: rest).length - (afterClose s.pair kind after).length) := by
        simp only [List.length_append] at hafter
        simp only [List.length_cons]
        omega
      simp only [Option.map_some, hpos]

/-- **A step passes by the mark that it starts at**, if the state sniffs, and by no other. -/
theorem Reachable.marksAhead_eq (h : Reachable withGettext text given s) (hne : s.rest ≠ []) :
    marksAhead withGettext s =
      (if s.mode = .sniff then [markAt withGettext s] else []) ++
        marksAhead withGettext (Scan.step withGettext s) := by
  cases hm : s.mode with
  | text => simpa using (marksAhead_stepText hm hne).symm
  | body kind start => simpa using (marksAhead_stepBody hm hne).symm
  | sniff =>
    rw [(marksAhead_stepSniff hm (h.sound.atOpen hm) (h.idle hm)).2]
    simp only [marksAhead, hm, if_true]
    rfl

/-! ## The whole loop -/

/-- The first state has all marks in front of it. -/
theorem marksAhead_start (withGettext : Bool) (text : Bytes) (given : Option Bytes) :
    marksAhead withGettext (State.start text given) =
      (outline withGettext text given).filter Segment.isMark := by
  obtain ⟨hpair, hpos, hrest⟩ := start_place text given
  have hmode : (State.start text given).mode = .text := (follows_start false text given).mode
  simp only [marksAhead, hmode, hpair, hpos, hrest]
  rfl

/-- In every state of the loop, the marks in front of it are the last ones of the outline. -/
theorem Reachable.marksAhead_suffix (h : Reachable withGettext text given s) :
    marksAhead withGettext s <:+ (outline withGettext text given).filter Segment.isMark := by
  induction h with
  | start => exact ⟨[], marksAhead_start withGettext text given⟩
  | step hs hne ih =>
    rw [hs.marksAhead_eq hne] at ih
    exact (List.suffix_append _ _).trans ih

/-- At the end of the text no mark is left. -/
theorem marksAhead_of_rest_eq_nil (hs : Sound text given s) (hr : s.rest = []) :
    marksAhead withGettext s = [] := by
  cases hm : s.mode with
  | text => simp [marksAhead, hm, hr]
  | body kind start => simp [marksAhead, hm, hr, cutAt?_nil s.pair.close_ne_nil]
  | sniff => exact absurd hr (ne_nil_of_open (hs.atOpen hm))

/-- The loop comes to each mark that a state has in front of it. The induction is on the steps that are
left. -/
theorem Reachable.exists_of_mem_marksAhead (h : Reachable withGettext text given s) {m : Segment}
    (hm : m ∈ marksAhead withGettext s) :
    ∃ u, Reachable withGettext text given u ∧ u.mode = .sniff ∧ markAt withGettext u = m := by
  induction hn : s.measure using Nat.strongRecOn generalizing s with
  | ind n ih =>
    subst hn
    by_cases hr : s.rest = []
    · rw [marksAhead_of_rest_eq_nil h.sound hr] at hm
      cases hm
    · rw [h.marksAhead_eq hr] at hm
      rcases List.mem_append.mp hm with hhere | hlater
      · split at hhere
        · next hsniff => exact ⟨s, h, hsniff, (List.mem_singleton.mp hhere).symm⟩
        · cases hhere
      · exact ih _ (measure_step_lt withGettext hr) (h.step hr) hlater rfl

/-- **The loop sniffs at the marks of the outline**, each under its pair, and nowhere else. -/
theorem exists_reachable_iff {m : Segment} :
    (∃ s, Reachable withGettext text given s ∧ s.mode = .sniff ∧ markAt withGettext s = m) ↔
      m ∈ outline withGettext text given ∧ m.isMark = true := by
  rw [← List.mem_filter]
  constructor
  · rintro ⟨s, h, hsniff, rfl⟩
    refine h.marksAhead_suffix.subset ?_
    simp only [marksAhead, hsniff]
    exact List.mem_cons_self
  · intro hmem
    rw [← marksAhead_start] at hmem
    exact Reachable.start.exists_of_mem_marksAhead hmem

end TemplateLexer.Scan
