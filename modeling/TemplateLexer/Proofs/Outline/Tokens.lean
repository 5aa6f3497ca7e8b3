import TemplateLexer.Proofs.Outline.Refinement
import TemplateLexer.Proofs.Outline.Shape

/-!
# Tokens and their segments

Every token of a template comes from one of its segments (`exists_of_mem_tokens`) and takes the same
bytes (`extent_of_token?`). Only an indent may be added to it, if its line is standalone. How the bytes
of a tag are put together is said once, for what is read (`eq_of_readMark_tag`) and for where it stands
(`ReadAt.tag`).
-/

namespace TemplateLexer.Outline

open Bytes

variable {withGettext : Bool}

/-- The sigil of a tag: the byte that selects its kind, or nothing in front of a text that starts with
no sigil. -/
inductive IsSigil (withGettext : Bool) : Kind → Bytes → Bytes → Prop
  | byte {kind : Kind} {b : UInt8} {tail : Bytes} (h : Kind.ofSigil withGettext b = some kind) :
    IsSigil withGettext kind [b] tail
  | none {tail : Bytes} (h : tail.head?.bind (Kind.ofSigil withGettext) = none) :
    IsSigil withGettext .escaped [] tail

/-- The sigil at the start of a text, and what follows it. -/
theorem isSigil_take {inner : Bytes} {sigil : Option Kind}
    (hk : inner.head?.bind (Kind.ofSigil withGettext) = sigil) :
    IsSigil withGettext (sigil.getD .escaped) (inner.take (sigilWidth sigil))
        (inner.drop (sigilWidth sigil)) ∧
      (inner.take (sigilWidth sigil)).length = sigilWidth sigil := by
  cases sigil with
  | none => exact ⟨.none hk, rfl⟩
  | some kind =>
    obtain ⟨b, hb, hkb⟩ := Option.bind_eq_some_iff.mp hk
    obtain ⟨tail, rfl⟩ := List.head?_eq_some_iff.mp hb
    exact ⟨.byte hkb, rfl⟩

/-- What is read as a tag has its text, and its body ends at the first close delimiter. -/
theorem eq_of_readMark_tag {pair : Delimiters} {pos closeAt : Nat} {text body rest : Bytes}
    {kind : Kind} (hp : pair.openMark <+: text)
    (hr : readMark withGettext pair pos text = (.tag kind body closeAt, rest)) :
    ∃ sigil tail after, IsSigil withGettext kind sigil tail ∧ text = pair.openMark ++ sigil ++ tail ∧
      cutAt? pair.closeMark tail = some (body, after) ∧
      closeAt = pos + (pair.openMark ++ sigil ++ body).length ∧
      rest = if Tag.absorbsBrace pair kind then after.drop 1 else after := by
  obtain ⟨inner, rfl⟩ := hp
  obtain ⟨sigil, hk⟩ : ∃ sigil, inner.head?.bind (Kind.ofSigil withGettext) = sigil := ⟨_, rfl⟩
  by_cases hchange : sigil = some .delimiterChange
  · -- a change is no tag
    rw [hchange] at hk
    obtain ⟨b, hb, hkb⟩ := Option.bind_eq_some_iff.mp hk
    obtain ⟨tail, rfl⟩ := List.head?_eq_some_iff.mp hb
    cases hc : cutAt? pair.changeMark tail with
    | none =>
      rw [readMark_openChange pair pos hkb hc] at hr
      cases hr
    | some parts =>
      rw [readMark_change pair pos hkb hc] at hr
      cases hr
  · cases hc : cutAt? pair.closeMark (inner.drop (sigilWidth sigil)) with
    | none =>
      rw [readMark_openTag pair pos hk hchange hc] at hr
      cases hr
    | some parts =>
      obtain ⟨body', after⟩ := parts
      rw [readMark_tag pair pos hk hchange hc] at hr
      cases hr
      obtain ⟨hsigil, hwidth⟩ := isSigil_take hk
      refine ⟨inner.take (sigilWidth sigil), inner.drop (sigilWidth sigil), after, hsigil, ?_, hc, ?_,
        rfl⟩
      · rw [List.append_assoc, List.take_append_drop]
      · simp only [List.length_append, hwidth]
        omega

/-- A tag stands in the text from its open delimiter on, and ends with its close delimiter; a raw
interpolation in triple braces ends one byte later, if the text does. -/
theorem ReadAt.tag {pos closeAt : Nat} {text body : Bytes} {kind : Kind} {s : Segment}
    (h : ReadAt withGettext pos text s) (hp : s.piece = .tag kind body closeAt) :
    ∃ before sigil tail after, IsSigil withGettext kind sigil tail ∧
      text = before ++ s.pair.openMark ++ sigil ++ tail ∧
      cutAt? s.pair.closeMark tail = some (body, after) ∧
      s.extent.start = pos + before.length ∧
      closeAt = s.extent.start + (s.pair.openMark ++ sigil ++ body).length ∧
      s.extent.stop = closeAt + s.pair.closeMark.length +
        if Tag.absorbsBrace s.pair kind then min 1 after.length else 0 := by
  have hmark : s.isMark = true := by simp [Segment.isMark, Segment.isRun, Segment.isLineEnd, hp]
  obtain ⟨before, taken, rest, htext, he, ho, hread⟩ := h.mark hmark
  rw [hp] at hread
  obtain ⟨sigil, tail, after, hsigil, hinner, hcut, hclose, hrest⟩ := eq_of_readMark_tag ho hread
  refine ⟨before, sigil, tail, after, hsigil, ?_, hcut, by rw [he], hclose, ?_⟩
  · rw [htext, List.append_assoc, hinner]
    simp only [List.append_assoc]
  · -- what is taken ends where what is left starts
    have hlens := congrArg List.length hinner
    have htail := congrArg List.length (eq_of_cutAt? hcut)
    rw [hclose, he]
    by_cases habs : Tag.absorbsBrace s.pair kind = true
    · rw [if_pos habs] at hrest ⊢
      simp only [hrest, List.length_append, List.length_drop] at hlens htail ⊢
      omega
    · rw [if_neg habs] at hrest ⊢
      simp only [hrest, List.length_append] at hlens htail ⊢
      omega

/-- A token has the extent of its segment. -/
theorem extent_of_token? {pos : Nat} {text : Bytes} {s : Segment} {t : Token}
    (hs : ReadAt withGettext pos text s) (ht : s.token? withGettext = some t) :
    t.extent = s.extent := by
  rcases Segment.cases_token? ht with ⟨run, -, rfl⟩ | ⟨-, rfl⟩ | ⟨kind, body, closeAt, hp, rfl⟩
  · rfl
  · rfl
  · by_cases habs : Tag.absorbsBrace s.pair kind = true
    · simp [Tag.finish, habs, Tag.token]
    · obtain ⟨before, sigil, tail, after, -, -, -, -, -, hstop⟩ := hs.tag hp
      rw [if_neg habs, Nat.add_zero] at hstop
      have hext : (Tag.finish s.pair kind s.extent.stop
          (Tag.token withGettext s.pair kind s.extent.start closeAt body)).extent =
          ⟨s.extent.start, closeAt + s.pair.closeMark.length⟩ := by
        simp only [Tag.finish, habs, if_false, Bool.false_eq_true]
        split <;> rfl
      rw [hext, ← hstop]

theorem exists_of_mem_keepTags {before : Option Bytes} {tokens : List Token} {t : Token}
    (h : t ∈ Line.keepTags before tokens) : ∃ u ∈ tokens, ∃ indent, t = { u with indent } := by
  induction tokens generalizing before with
  | nil => cases h
  | cons u rest ih =>
    simp only [Line.keepTags] at h
    split at h
    · obtain ⟨v, hv, hi⟩ := ih h
      exact ⟨v, List.mem_cons_of_mem _ hv, hi⟩
    · rcases List.mem_cons.mp h with rfl | h
      · refine ⟨u, List.mem_cons_self, ?_⟩
        unfold Line.withIndent
        split
        · split
          · exact ⟨_, rfl⟩
          · exact ⟨u.indent, rfl⟩
        · exact ⟨u.indent, rfl⟩
      · obtain ⟨v, hv, hi⟩ := ih h
        exact ⟨v, List.mem_cons_of_mem _ hv, hi⟩

/-- Every token of a line comes from a segment of the line, but for its indent. -/
theorem exists_of_mem_lineTokens {line : List Segment} {t : Token}
    (h : t ∈ lineTokens withGettext line) :
    ∃ s ∈ line, ∃ u, s.token? withGettext = some u ∧ ∃ indent, t = { u with indent } := by
  have hall : ∃ u ∈ line.filterMap (Segment.token? withGettext), ∃ indent, t = { u with indent } := by
    unfold lineTokens at h
    dsimp only at h
    split at h
    · rw [keptTags_eq_keepTags] at h
      exact exists_of_mem_keepTags h
    · exact ⟨t, h, t.indent, rfl⟩
  obtain ⟨u, hu, hi⟩ := hall
  obtain ⟨s, hs, hsu⟩ := List.mem_filterMap.mp hu
  exact ⟨s, hs, u, hsu, hi⟩

/-- A token of a template comes from one of its segments, but for its indent. -/
theorem exists_of_mem_tokens {text : Bytes} {given : Option Bytes} {t : Token}
    (h : t ∈ tokens withGettext text given) :
    ∃ s ∈ outline withGettext text given, ∃ u, s.token? withGettext = some u ∧
      ∃ indent, t = { u with indent } := by
  obtain ⟨line, hline, ht⟩ := List.mem_flatMap.mp h
  obtain ⟨s, hs, hu⟩ := exists_of_mem_lineTokens ht
  refine ⟨s, ?_, hu⟩
  rw [← flatten_cutAfter Segment.isLineEnd (outline withGettext text given)]
  exact List.mem_flatten.mpr ⟨line, hline, hs⟩

/-- A fault has the extent of its segment. -/
theorem extent_of_fault? {s : Segment} {f : Fault} (h : s.fault? = some f) : f.extent = s.extent := by
  unfold Segment.fault? at h
  split at h
  · split at h
    · cases h
      rfl
    · cases h
  · cases h
    rfl
  · cases h
    rfl
  · cases h

/-- The tokens and faults of a text lie inside it. -/
theorem stop_le_of_mem_tokens {text : Bytes} {given : Option Bytes} {t : Token}
    (h : t ∈ tokens withGettext text given) :
    t.extent.start ≤ text.length ∧ t.extent.stop ≤ text.length := by
  obtain ⟨s, hs, u, hu, indent, rfl⟩ := exists_of_mem_tokens h
  have hext := extent_of_mem_segments hs
  have heq := extent_of_token? (readAt_of_mem_segments s hs) hu
  simp only [heq]
  omega

theorem stop_le_of_mem_faults {text : Bytes} {given : Option Bytes} {f : Fault}
    (h : f ∈ faults withGettext text given) :
    f.extent.start ≤ text.length ∧ f.extent.stop ≤ text.length := by
  rcases List.mem_append.mp h with h | h
  · -- delimiters that are no pair are reported at the start of the text
    unfold startFaults at h
    split at h
    · rw [List.mem_singleton.mp h]
      exact ⟨Nat.zero_le _, Nat.zero_le _⟩
    · cases h
  · obtain ⟨s, hs, hf⟩ := List.mem_filterMap.mp h
    have hext := extent_of_mem_segments hs
    rw [extent_of_fault? hf]
    omega

end TemplateLexer.Outline
