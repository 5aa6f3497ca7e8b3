import TemplateLexer.Proofs.Scan.Marks
import TemplateLexer.Proofs.Tokens.Tiling

/-!
# The form of the faults

The faults of a scan come in a fixed order (`FaultForm.codes`): delimiters given for the scan that are
refused, then delimiter changes that are refused, then what the text ends in. Where each of them stands
is told by the state of the loop that stands at its open delimiter.

* `exists_codes`: the faults of segments one after the other;
* `exists_sniffing`: a fault stands where the loop sniffs, under the pair in force there;
* `pair_eq_or_changed`: the pair lasts until a change that is read as a pair;
* `FaultForm`, `faultForm_of_length_lt`: all of it for a whole scan.
-/

namespace TemplateLexer.Outline

open Bytes Scan

variable {withGettext : Bool} {source : Source} {text : Bytes} {given : Option Bytes}

/-! ## Delimiters given for the scan -/

/-- Are the delimiters given for a scan refused? They are something else than blanks and not two words. -/
def Refused (given : Option Bytes) : Prop :=
  ∃ spec, given = some spec ∧ allBlank spec = false ∧ ¬ ∃ first second, TwoWords spec first second

theorem refused_iff : Refused given ↔ ∃ e, givenPair given = some (.error e) := by
  constructor
  · rintro ⟨spec, rfl, hblank, hwords⟩
    obtain ⟨e, he⟩ := Delimiters.exists_parse_error_iff.mpr hwords
    exact ⟨e, by simp [givenPair, hblank, he]⟩
  · rintro ⟨e, he⟩
    obtain ⟨spec, hspec, hparse⟩ := Option.bind_eq_some_iff.mp he
    split at hparse
    · cases hparse
    · next hblank =>
      refine ⟨spec, hspec, by simpa using hblank, ?_⟩
      exact Delimiters.exists_parse_error_iff.mp ⟨e, Option.some.inj hparse⟩

/-- Refused delimiters are one fault, and the standard pair is in force. -/
theorem start_of_refused (h : Refused given) :
    (startFaults given).map (·.cause.code) = [ascii "L004"] ∧ startPair given = .standard := by
  obtain ⟨e, he⟩ := refused_iff.mp h
  simp [startFaults, startPair, he, Cause.code]

theorem startFaults_of_not_refused (h : ¬ Refused given) : startFaults given = [] := by
  unfold startFaults
  split
  · next e he => exact absurd (refused_iff.mpr ⟨e, he⟩) h
  · rfl

/-- The fault of the delimiters given for a scan has a code of its own. -/
theorem code_of_mem_startFaults {f : Fault} (h : f ∈ startFaults given) :
    f.cause.code = ascii "L004" := by
  unfold startFaults at h
  split at h
  · rw [List.mem_singleton.mp h]
    rfl
  · cases h

/-! ## Faults of segments -/

/-- A fault comes from a change that is refused, or from what the text ends in. -/
theorem Segment.cases_fault? {s : Segment} {f : Fault} (h : s.fault? = some f) :
    (∃ spec e, s.piece = .change spec ∧ Delimiters.parse spec = .error e ∧
        f = ⟨.invalidChange e, s.extent⟩) ∨
      (s.piece = .openTag ∧ f = ⟨.unterminatedTag s.pair.closeMark, s.extent⟩) ∨
      (s.piece = .openChange ∧ f = ⟨.unterminatedChange s.pair.changeMark, s.extent⟩) := by
  unfold fault? at h
  split at h
  · next spec hp =>
    split at h
    · next e he => exact .inl ⟨spec, e, hp, he, (Option.some.inj h).symm⟩
    · cases h
  · next hp => exact .inr (.inl ⟨hp, (Option.some.inj h).symm⟩)
  · next hp => exact .inr (.inr ⟨hp, (Option.some.inj h).symm⟩)
  · cases h

/-- A refused change does not end the text, and what the text ends in is no refused change. -/
theorem code_of_fault? {s : Segment} {f : Fault} (h : s.fault? = some f) :
    (s.isOpen = false ∧ f.cause.code = ascii "L003") ∨
      (s.isOpen = true ∧ (f.cause.code = ascii "L001" ∨ f.cause.code = ascii "L002")) := by
  rcases s.cases_fault? h with ⟨spec, e, hp, -, rfl⟩ | ⟨hp, rfl⟩ | ⟨hp, rfl⟩
  · exact .inl ⟨by rw [Segment.isOpen, hp], rfl⟩
  · exact .inr ⟨by rw [Segment.isOpen, hp], .inl rfl⟩
  · exact .inr ⟨by rw [Segment.isOpen, hp], .inr rfl⟩

/-- Where a segment starts with a fault, it starts with an open delimiter. -/
theorem isMark_of_fault? {s : Segment} {f : Fault} (h : s.fault? = some f) : s.isMark = true := by
  rcases s.cases_fault? h with ⟨spec, e, hp, -, -⟩ | ⟨hp, -⟩ | ⟨hp, -⟩ <;>
    simp [Segment.isMark, Segment.isRun, Segment.isLineEnd, hp]

/-- Such a segment gives no token. -/
theorem token?_of_fault? {s : Segment} {f : Fault} (h : s.fault? = some f) :
    s.token? withGettext = none := by
  rcases s.cases_fault? h with ⟨spec, e, hp, -, -⟩ | ⟨hp, -⟩ | ⟨hp, -⟩ <;>
    simp [Segment.token?, hp]

/-- Nothing stands after what the text ends in. -/
theorem pairwise_isOpen (withGettext : Bool) (text : Bytes) (given : Option Bytes) :
    (outline withGettext text given).Pairwise fun s _ => s.isOpen = false := by
  have hsegs : (outline withGettext text given).Pairwise fun s t =>
      s.extent.stop ≤ t.extent.start ∧
        (s.isRun = true → t.isRun = true → s.extent.stop < t.extent.start) := pairwise_segments
  refine hsegs.imp_of_mem ?_
  rintro s t hs ht ⟨hle, -⟩
  by_contra hopen
  have hstop := stop_of_isOpen (readAt_of_mem_segments s hs) (by simpa using hopen)
  have hext := extent_of_mem_segments ht
  omega

/-- Segments that go on one after the other have refused changes as their faults, and then at most one
fault of what the text ends in. -/
theorem exists_codes {segs : List Segment} (h : segs.Pairwise fun s _ => s.isOpen = false) :
    ∃ n tail, (segs.filterMap Segment.fault?).map (·.cause.code) =
        List.replicate n (ascii "L003") ++ tail ∧
      (tail = [] ∨ tail = [ascii "L001"] ∨ tail = [ascii "L002"]) := by
  induction segs with
  | nil => exact ⟨0, [], rfl, .inl rfl⟩
  | cons s rest ih =>
    obtain ⟨hfirst, hrest⟩ := List.pairwise_cons.mp h
    obtain ⟨n, tail, hcodes, htail⟩ := ih hrest
    cases hf : s.fault? with
    | none =>
      rw [List.filterMap_cons_none hf]
      exact ⟨n, tail, hcodes, htail⟩
    | some f =>
      rw [List.filterMap_cons_some hf, List.map_cons, hcodes]
      rcases code_of_fault? hf with ⟨-, hc⟩ | ⟨hopen, hc⟩
      · exact ⟨n + 1, tail, by rw [hc, List.replicate_succ, List.cons_append], htail⟩
      · -- the text ends here, so no segment follows
        have hnil : rest = [] := by
          by_contra hne
          obtain ⟨t, rest, rfl⟩ := List.exists_cons_of_ne_nil hne
          rw [hfirst t List.mem_cons_self] at hopen
          cases hopen
        subst hnil
        have hempty : List.replicate n (ascii "L003") ++ tail = [] := by rw [← hcodes]; rfl
        rw [hempty]
        refine ⟨0, [f.cause.code], rfl, .inr ?_⟩
        rcases hc with hc | hc
        · exact .inl (by rw [hc])
        · exact .inr (by rw [hc])

/-- A fault of the text comes from a segment, and has its extent. -/
theorem exists_of_mem_faults {f : Fault} (h : f ∈ faults withGettext text given)
    (hcode : f.cause.code ≠ ascii "L004") :
    ∃ seg ∈ outline withGettext text given, seg.fault? = some f := by
  rcases List.mem_append.mp h with hstart | hseg
  · exact absurd (code_of_mem_startFaults hstart) hcode
  · exact List.mem_filterMap.mp hseg

/-- Tokens stand in front of a fault of the text or behind it. -/
theorem apart_of_fault? {seg : Segment} {f : Fault} (hseg : seg ∈ outline withGettext text given)
    (hf : seg.fault? = some f) {t : Token} (ht : t ∈ tokens withGettext text given) :
    t.extent.stop ≤ seg.extent.start ∨ seg.extent.stop ≤ t.extent.start := by
  obtain ⟨s, hs, hread, hgives⟩ := exists_gives_of_mem_tokens ht
  rw [hgives.extent_eq hread]
  -- the segment of the token is another one
  have hne : seg ≠ s := by
    rintro rfl
    obtain ⟨u, hu, -⟩ := hgives
    rw [token?_of_fault? hf] at hu
    cases hu
  have hsegs : (outline withGettext text given).Pairwise fun s t =>
      s.extent.stop ≤ t.extent.start ∨ t.extent.stop ≤ s.extent.start :=
    pairwise_segments.imp fun h => .inl h.1
  have : Std.Symm fun s t : Segment =>
      s.extent.stop ≤ t.extent.start ∨ t.extent.stop ≤ s.extent.start := ⟨fun _ _ h => h.symm⟩
  exact (hsegs.forall hseg hs hne).symm

/-! ## The pair in force -/

/-- A change that is read as a pair stands between the two offsets. -/
def ChangedBetween (segs : List Segment) (start stop : Nat) : Prop :=
  ∃ c ∈ segs, c.pairAfter ≠ c.pair ∧ start ≤ c.extent.start ∧ c.extent.start < stop

theorem ChangedBetween.cons {segs : List Segment} {start start' stop : Nat} {s : Segment}
    (h : ChangedBetween segs start' stop) (hle : start ≤ start') :
    ChangedBetween (s :: segs) start stop := by
  obtain ⟨c, hc, hne, hstart, hstop⟩ := h
  exact ⟨c, List.mem_cons_of_mem _ hc, hne, by omega, hstop⟩

/-- A pair lasts until a change that is read as a pair: the one that the text starts with, and the one
that a segment leaves in force. -/
theorem pair_eq_or_changed {pair : Delimiters} {pos : Nat} :
    (∀ t ∈ segments withGettext pair pos text,
        t.pair = pair ∨ ChangedBetween (segments withGettext pair pos text) pos t.extent.start) ∧
      ∀ s ∈ segments withGettext pair pos text, ∀ t ∈ segments withGettext pair pos text,
        s.extent.stop ≤ t.extent.start → t.pair = s.pairAfter ∨
          ChangedBetween (segments withGettext pair pos text) s.extent.stop t.extent.start := by
  refine segments_induction (motive := fun pair pos _ segs =>
    (∀ t ∈ segs, t.pair = pair ∨ ChangedBetween segs pos t.extent.start) ∧
      ∀ s ∈ segs, ∀ t ∈ segs, s.extent.stop ≤ t.extent.start →
        t.pair = s.pairAfter ∨ ChangedBetween segs s.extent.stop t.extent.start)
    ?_ ?_ pair pos text
  · intro pair pos
    constructor
    · intro t ht
      cases ht
    · intro s hs
      cases hs
  · intro pair pos taken rest piece hne hr first ih
    obtain ⟨hfront, hlater⟩ := ih
    have hlen := List.length_pos_iff.mpr hne
    constructor
    · intro t ht
      rcases List.mem_cons.mp ht with rfl | ht
      · exact .inl rfl
      · by_cases hchange : first.pairAfter = first.pair
        · rcases hfront t ht with hp | hc
          · exact .inl (hp.trans hchange)
          · exact .inr (hc.cons (Nat.le_add_right _ _))
        · -- the first segment is the change
          have hstart := (extent_of_mem_segments ht).1
          exact .inr ⟨first, List.mem_cons_self, hchange, Nat.le_refl _,
            Nat.lt_of_lt_of_le (Nat.lt_add_of_pos_right hlen) hstart⟩
    · intro s hs t ht hle
      rcases List.mem_cons.mp hs with rfl | hs <;> rcases List.mem_cons.mp ht with rfl | ht
      · simp only [first] at hle
        omega
      · rcases hfront t ht with hp | hc
        · exact .inl hp
        · exact .inr (hc.cons (Nat.le_refl _))
      · have hext := extent_of_mem_segments hs
        simp only [first] at hle
        omega
      · rcases hlater s hs t ht hle with hp | hc
        · exact .inl hp
        · exact .inr (hc.cons (Nat.le_refl _))

/-- A change of the pair is noted. -/
theorem exists_note_of_change {c : Segment} (hc : c ∈ outline withGettext text given)
    (hne : c.pairAfter ≠ c.pair) :
    ∃ pair, .delimitersChanged pair c.extent.start ∈ notes withGettext text given := by
  obtain ⟨spec, hp⟩ : ∃ spec, c.piece = .change spec := by
    unfold Segment.pairAfter at hne
    split at hne
    · next spec hp => exact ⟨spec, hp⟩
    · exact absurd rfl hne
  cases hd : Delimiters.parse spec with
  | error e => simp [Segment.pairAfter, hp, hd, Except.toOption] at hne
  | ok pair => exact ⟨pair, mem_notes_of_change hc hp hd⟩

/-- A token has the marks of the pair that its segment stands under. -/
theorem Gives.marks {s : Segment} {t : Token} (h : Gives withGettext s t) :
    t.openMark = s.pair.openMark ∧ t.closeMark = s.pair.closeMark := by
  obtain ⟨u, hu, hindent⟩ := h
  obtain ⟨hmarks, hpair, -, -⟩ := Rebuild.marks_of_token? hu
  have hu' : u.openMark = s.pair.openMark ∧ u.closeMark = s.pair.closeMark := by
    rw [← hpair]
    exact ⟨hmarks.openMark_pair.symm, hmarks.closeMark_pair.symm⟩
  rcases hindent with rfl | ⟨-, indent, -, rfl⟩
  · exact hu'
  · exact hu'

/-- A change stands in the text as it is written under its pair. -/
theorem exists_change_written {seg : Segment} {spec : Bytes}
    (hseg : seg ∈ outline withGettext text given) (hp : seg.piece = .change spec) :
    ∃ before after, text = before ++
        (seg.pair.openMark ++ equalsSign :: (spec ++ equalsSign :: seg.pair.closeMark)) ++ after ∧
      before.length = seg.extent.start ∧
      (before ++ (seg.pair.openMark ++ equalsSign ::
        (spec ++ equalsSign :: seg.pair.closeMark))).length = seg.extent.stop := by
  have hmark : seg.isMark = true := by
    simp [Segment.isMark, Segment.isRun, Segment.isLineEnd, hp]
  obtain ⟨before, taken, rest, htext, he, ho, hread⟩ := (readAt_of_mem_segments seg hseg).mark hmark
  rw [hp] at hread
  rw [Nat.zero_add] at he
  have htaken : taken =
      seg.pair.openMark ++ equalsSign :: (spec ++ equalsSign :: seg.pair.closeMark) := by
    refine List.append_cancel_right ((Rebuild.eq_of_readMark_change ho hread).1.trans ?_)
    simp [Delimiters.changeMark]
  refine ⟨before, rest, ?_, ?_, ?_⟩
  · rw [← htaken, htext]
  · rw [he]
  · rw [← htaken, he, List.length_append]

/-! ## The state at a fault -/

/-- The loop stands at an open delimiter, at the offset. -/
structure SniffsAt (withGettext : Bool) (text : Bytes) (given : Option Bytes) (pos : Nat) (s : State) :
    Prop where
  reachable : Reachable withGettext text given s
  mode : s.mode = .sniff
  pos_eq : s.pos = pos
  atOpen : s.pair.openMark <+: text.drop pos

/-- Where a segment with a fault starts, the loop sniffs under its pair, and the pair stays. -/
theorem exists_sniffing {seg : Segment} {f : Fault} (hseg : seg ∈ outline withGettext text given)
    (hf : seg.fault? = some f) :
    ∃ s, SniffsAt withGettext text given seg.extent.start s ∧ markAt withGettext s = seg ∧
      (step withGettext s).pair = s.pair := by
  obtain ⟨s, h, hm, hmark⟩ := exists_reachable_iff.mpr ⟨hseg, isMark_of_fault? hf⟩
  have hopen := h.sound.atOpen hm
  refine ⟨s, ⟨h, hm, ?_, ?_⟩, hmark, ?_⟩
  · rw [← hmark]
    rfl
  · rw [← hmark]
    rwa [h.sound.rest_eq] at hopen
  · have hpair : seg.pair = s.pair := by rw [← hmark]; rfl
    rw [(marksAhead_stepSniff hm hopen (h.idle hm)).1, hmark, ← hpair]
    rcases seg.cases_fault? hf with ⟨spec, e, hp, hd, -⟩ | ⟨hp, -⟩ | ⟨hp, -⟩
    · simp [Segment.pairAfter, hp, hd, Except.toOption]
    · simp [Segment.pairAfter, hp]
    · simp [Segment.pairAfter, hp]

/-- The step from a change that is no pair, or that does not end, reports it and goes past it. -/
theorem step_of_faulty_change {seg : Segment} {f : Fault} {s : State} {pos : Nat}
    (h : SniffsAt withGettext text given pos s) (hmark : markAt withGettext s = seg)
    (hf : seg.fault? = some f) (hcode : f.cause.code ≠ ascii "L001") :
    (step withGettext s).faults = s.faults.push f ∧ (step withGettext s).pos = seg.extent.stop := by
  have hpiece : seg.piece = .openChange ∨ ∃ spec, seg.piece = .change spec := by
    rcases seg.cases_fault? hf with ⟨spec, e, hp, -, -⟩ | ⟨-, rfl⟩ | ⟨hp, -⟩
    · exact .inr ⟨spec, hp⟩
    · exact absurd rfl hcode
    · exact .inl hp
  rw [← hmark] at hpiece
  have hstep := step_of_change h.mode (h.reachable.sound.atOpen h.mode) (h.reachable.idle h.mode)
    hpiece
  rw [hstep]
  constructor
  · simp [afterMark, hmark, hf]
  · rw [← hmark]
    rfl

/-! ## The whole scan -/

/-- A fault of a change that does not name two delimiters, at the state that reads the change. -/
structure InvalidChange (withGettext : Bool) (source : Source) (given : Option Bytes) (f : Fault)
    (span : Span) (s : State) : Prop extends SniffsAt withGettext source.text given span.start s where
  /-- The span is the change as it is written under the pair in force. -/
  written : ∃ before spec after, source.text =
      before ++ (s.pair.openMark ++ equalsSign :: (spec ++ equalsSign :: s.pair.closeMark)) ++ after ∧
    before.length = span.start ∧
    (before ++ (s.pair.openMark ++ equalsSign :: (spec ++ equalsSign :: s.pair.closeMark))).length =
      span.stop ∧
    ¬ ∃ first second, TwoWords spec first second
  /-- The change is reported and read, and the pair stays in force. -/
  reported : (step withGettext s).faults = s.faults.push f
  read : (step withGettext s).pos = span.stop
  pair : (step withGettext s).pair = s.pair
  /-- So later tokens have its marks, unless a later change is read as a pair. -/
  later : ∀ p ∈ spannedTokens withGettext source given, span.stop ≤ p.2.start →
    (p.1.openMark = s.pair.openMark ∧ p.1.closeMark = s.pair.closeMark) ∨
      ∃ pair place, .delimitersChanged pair place ∈ (scan withGettext source given).notes ∧
        span.stop ≤ place ∧ place < p.2.start

/-- A fault of what the text ends in, at the state that stands at its open delimiter. -/
structure Unterminated (withGettext : Bool) (source : Source) (given : Option Bytes) (f : Fault)
    (span : Span) (s : State) : Prop extends SniffsAt withGettext source.text given span.start s where
  stop : span.stop = source.text.length
  tokens : ∀ p ∈ spannedTokens withGettext source given, p.2.stop ≤ span.start
  pair : (step withGettext s).pair = s.pair
  /-- A change is reported at once. A tag is reported at the end of the text. -/
  reported : f.cause.code = ascii "L002" → (step withGettext s).faults = s.faults.push f

/-- What the faults of a scan look like. -/
structure FaultForm (withGettext : Bool) (source : Source) (given : Option Bytes) : Prop where
  /-- Refused delimiters are first, then come refused changes, and then what the text ends in. -/
  codes : ∃ first n tail, (scan withGettext source given).faults.map (·.cause.code) =
      first ++ List.replicate n (ascii "L003") ++ tail ∧
    (Refused given → first = [ascii "L004"]) ∧ (¬ Refused given → first = []) ∧
    (tail = [] ∨ tail = [ascii "L001"] ∨ tail = [ascii "L002"])
  invalid : ∀ p ∈ spannedFaults withGettext source given, p.1.cause.code = ascii "L003" →
    ∃ s, InvalidChange withGettext source given p.1 p.2 s
  /-- Refused changes stand one after the other, and no token touches them. -/
  ordered : (spannedFaults withGettext source given).Pairwise fun p q =>
    p.1.cause.code = ascii "L003" → q.1.cause.code = ascii "L003" → p.2.stop ≤ q.2.start
  apart : ∀ p ∈ spannedFaults withGettext source given, p.1.cause.code = ascii "L003" →
    ∀ q ∈ spannedTokens withGettext source given, q.2.stop ≤ p.2.start ∨ p.2.stop ≤ q.2.start
  unterminated : ∀ p ∈ spannedFaults withGettext source given,
    p.1.cause.code = ascii "L001" ∨ p.1.cause.code = ascii "L002" →
      ∃ s, Unterminated withGettext source given p.1 p.2 s
  /-- Refused delimiters leave the standard pair in force. -/
  refused : Refused given → (State.start source.text given).pair = .standard

/-- Behind a segment, tokens have the marks of the pair that it leaves in force, unless a change in
between is read as a pair. -/
theorem marks_eq_or_changed (hlength : source.text.length < UInt32.size) {seg : Segment}
    (hseg : seg ∈ outline withGettext source.text given) {p : Token × Span}
    (hp : p ∈ spannedTokens withGettext source given) (hle : seg.extent.stop ≤ p.2.start) :
    (p.1.openMark = seg.pairAfter.openMark ∧ p.1.closeMark = seg.pairAfter.closeMark) ∨
      ∃ pair place, .delimitersChanged pair place ∈ (scan withGettext source given).notes ∧
        seg.extent.stop ≤ place ∧ place < p.2.start := by
  obtain ⟨ht, hspan⟩ := mem_spannedTokens_iff.mp hp
  obtain ⟨u, hu, hread, hgives⟩ := exists_gives_of_mem_tokens ht
  rw [hspan, (span_of_mem_tokens hlength ht).1, hgives.extent_eq hread] at hle ⊢
  rcases pair_eq_or_changed.2 seg hseg u hu hle with hsame | ⟨c, hc, hne, hfrom, hto⟩
  · rw [hgives.marks.1, hgives.marks.2, hsame]
    exact .inl ⟨rfl, rfl⟩
  · obtain ⟨pair, hnote⟩ := exists_note_of_change hc hne
    refine .inr ⟨pair, c.extent.start, ?_, hfrom, hto⟩
    rw [notes_scan]
    exact List.mem_append_left _ hnote

section segments

variable {seg : Segment} {f : Fault} (hlength : source.text.length < UInt32.size)
  (hseg : seg ∈ outline withGettext source.text given) (hf : seg.fault? = some f)

include hlength hseg hf

/-- Where offsets can tell the places of a text, the span of a fault is its extent. -/
theorem span_of_fault? :
    (source.span f.extent).start = seg.extent.start ∧
      (source.span f.extent).stop = seg.extent.stop := by
  have hext := extent_of_mem_segments hseg
  rw [extent_of_fault? hf]
  exact source.span_bounds (by omega) (by omega) hlength

/-- A change that is refused stands at the state that reads it. -/
theorem exists_invalidChange (hcode : f.cause.code = ascii "L003") :
    ∃ s, InvalidChange withGettext source given f (source.span f.extent) s := by
  obtain ⟨hstart, hstop⟩ := span_of_fault? hlength hseg hf
  obtain ⟨s, hsniff, hmark, hpair⟩ := exists_sniffing hseg hf
  obtain ⟨hreported, hread⟩ := step_of_faulty_change hsniff hmark hf (by rw [hcode]; decide)
  obtain ⟨spec, e, hp, hd⟩ : ∃ spec e, seg.piece = .change spec ∧ Delimiters.parse spec = .error e := by
    rcases seg.cases_fault? hf with ⟨spec, e, hp, hd, -⟩ | ⟨-, rfl⟩ | ⟨-, rfl⟩
    · exact ⟨spec, e, hp, hd⟩
    · cases hcode
    · cases hcode
  have hsegPair : seg.pair = s.pair := by rw [← hmark]; rfl
  have hafter : seg.pairAfter = s.pair := by
    simp [Segment.pairAfter, hp, hd, Except.toOption, hsegPair]
  refine ⟨s, ⟨hstart.symm ▸ hsniff, ?_, hreported, hread.trans hstop.symm, hpair, ?_⟩⟩
  · obtain ⟨before, after, htext, hbefore, htaken⟩ := exists_change_written hseg hp
    rw [hsegPair] at htext htaken
    exact ⟨before, spec, after, htext, hbefore.trans hstart.symm, htaken.trans hstop.symm,
      Delimiters.exists_parse_error_iff.mp ⟨e, hd⟩⟩
  · intro q hq hle
    rw [hstop] at hle ⊢
    rw [← hafter]
    exact marks_eq_or_changed hlength hseg hq hle

/-- What the text ends in stands at the state that comes to it. -/
theorem exists_unterminated
    (hcode : f.cause.code = ascii "L001" ∨ f.cause.code = ascii "L002") :
    ∃ s, Unterminated withGettext source given f (source.span f.extent) s := by
  obtain ⟨hstart, hstop⟩ := span_of_fault? hlength hseg hf
  obtain ⟨s, hsniff, hmark, hpair⟩ := exists_sniffing hseg hf
  have hopen : seg.isOpen = true := by
    rcases code_of_fault? hf with ⟨-, hc⟩ | ⟨hopen, -⟩
    · rw [hc] at hcode
      exact absurd hcode (by decide)
    · exact hopen
  have hend := stop_of_isOpen (readAt_of_mem_segments seg hseg) hopen
  rw [Nat.zero_add] at hend
  refine ⟨s, ⟨hstart.symm ▸ hsniff, hstop.trans hend, ?_, hpair, ?_⟩⟩
  · intro q hq
    obtain ⟨ht, hspan⟩ := mem_spannedTokens_iff.mp hq
    have hbounds := span_of_mem_tokens hlength ht
    obtain ⟨u, hu, hread, hgives⟩ := exists_gives_of_mem_tokens ht
    have hext := extent_of_mem_segments hu
    have hapart := apart_of_fault? hseg hf ht
    -- nothing stands behind the end of the text
    rw [hgives.extent_eq hread] at hapart
    rw [hstart, hspan, hbounds.2, hgives.extent_eq hread]
    omega
  · intro hcode'
    exact (step_of_faulty_change hsniff hmark hf (by rw [hcode']; decide)).1

end segments

theorem mem_spannedFaults_iff {f : Fault} {span : Span} :
    (f, span) ∈ spannedFaults withGettext source given ↔
      f ∈ faults withGettext source.text given ∧ span = source.span f.extent := by
  rw [spannedFaults, faults_scan, List.mem_map]
  constructor
  · rintro ⟨g, hg, he⟩
    obtain ⟨rfl, rfl⟩ := Prod.mk.inj he
    exact ⟨hg, rfl⟩
  · rintro ⟨hf, rfl⟩
    exact ⟨f, hf, rfl⟩

/-- Refused changes stand in the order of their faults. -/
theorem pairwise_spannedFaults (hlength : source.text.length < UInt32.size) :
    (spannedFaults withGettext source given).Pairwise fun p q =>
      p.1.cause.code = ascii "L003" → q.1.cause.code = ascii "L003" → p.2.stop ≤ q.2.start := by
  have hcodes : ascii "L004" ≠ ascii "L003" := by decide
  rw [spannedFaults, faults_scan, List.pairwise_map]
  refine List.pairwise_append.mpr ⟨?_, ?_, ?_⟩
  · -- what is said of refused changes says nothing of the delimiters given for the scan
    refine List.pairwise_of_forall_mem_list ?_
    intro f hf g _ hcode
    exact absurd ((code_of_mem_startFaults hf).symm.trans hcode) hcodes
  · refine List.pairwise_filterMap.mpr ?_
    have hsegs : (outline withGettext source.text given).Pairwise fun s t =>
        s.extent.stop ≤ t.extent.start := pairwise_segments.imp fun h => h.1
    refine hsegs.imp_of_mem ?_
    intro s t hs ht hle f hf g hg _ _
    dsimp only
    rwa [(span_of_fault? hlength hs hf).2, (span_of_fault? hlength ht hg).1]
  · intro f hf g _ hcode
    exact absurd ((code_of_mem_startFaults hf).symm.trans hcode) hcodes

/-- **The form of the faults.** In a text that offsets can tell the places of, the faults are at most one
of the delimiters given for the scan, then those of refused changes, then at most one of what the text
ends in. Each stands where the loop sniffs under the pair in force, apart from the tokens, and leaves that
pair in force. -/
theorem faultForm_of_length_lt (hlength : source.text.length < UInt32.size) :
    FaultForm withGettext source given := by
  have hsegment : ∀ {f : Fault}, f ∈ faults withGettext source.text given →
      f.cause.code = ascii "L001" ∨ f.cause.code = ascii "L002" ∨ f.cause.code = ascii "L003" →
      ∃ seg ∈ outline withGettext source.text given, seg.fault? = some f := by
    intro f hf hcode
    refine exists_of_mem_faults hf ?_
    rcases hcode with hcode | hcode | hcode <;> rw [hcode] <;> decide
  refine ⟨?codes, ?invalid, pairwise_spannedFaults hlength, ?apart, ?unterminated, ?refused⟩
  case codes =>
    obtain ⟨n, tail, hcodes, htail⟩ := exists_codes (pairwise_isOpen withGettext source.text given)
    refine ⟨(startFaults given).map (·.cause.code), n, tail, ?_, fun hr => (start_of_refused hr).1,
      ?_, htail⟩
    · rw [faults_scan, faults, List.map_append, hcodes, List.append_assoc]
    · intro hr
      rw [startFaults_of_not_refused hr, List.map_nil]
  case invalid =>
    rintro ⟨f, span⟩ hp hcode
    obtain ⟨hf, rfl⟩ := mem_spannedFaults_iff.mp hp
    obtain ⟨seg, hseg, hfault⟩ := hsegment hf (.inr (.inr hcode))
    exact exists_invalidChange hlength hseg hfault hcode
  case apart =>
    rintro ⟨f, span⟩ hp hcode ⟨t, tspan⟩ hq
    obtain ⟨hf, rfl⟩ := mem_spannedFaults_iff.mp hp
    obtain ⟨ht, rfl⟩ := mem_spannedTokens_iff.mp hq
    obtain ⟨seg, hseg, hfault⟩ := hsegment hf (.inr (.inr hcode))
    have hbounds := span_of_mem_tokens hlength ht
    have hspan := span_of_fault? hlength hseg hfault
    dsimp only
    rw [hbounds.1, hbounds.2, hspan.1, hspan.2]
    exact apart_of_fault? hseg hfault ht
  case unterminated =>
    rintro ⟨f, span⟩ hp hcode
    obtain ⟨hf, rfl⟩ := mem_spannedFaults_iff.mp hp
    obtain ⟨seg, hseg, hfault⟩ := hsegment hf (by tauto)
    exact exists_unterminated hlength hseg hfault hcode
  case refused =>
    intro hr
    rw [(start_place source.text given).1]
    exact (start_of_refused hr).2

/-- Two changes that are refused, a change that is not, and a tag that the text ends in. -/
def faultySource : Source :=
  .ofText [] (ascii "\x7b\x7b=x=\x7d\x7da\x7b\x7b=[=\x7d\x7d\x7b\x7b=[ ]=\x7d\x7d[b][c")

/-- Delimiters of one word are refused, and so are both changes of one word. The tag between them and the
open one is read under the pair of the last change. -/
theorem faultForm_faultySource :
    faultySource.text.length < UInt32.size ∧ Refused (some (ascii "one")) ∧
      (scan false faultySource (some (ascii "one"))).faults.map (·.cause.code) =
        [ascii "L004", ascii "L003", ascii "L003", ascii "L001"] ∧
      FaultForm false faultySource (some (ascii "one")) := by
  have hlength : faultySource.text.length < UInt32.size := by decide
  refine ⟨hlength, refused_iff.mpr ⟨⟨ascii "one"⟩, by decide +kernel⟩, ?_,
    faultForm_of_length_lt hlength⟩
  decide +kernel

end TemplateLexer.Outline
