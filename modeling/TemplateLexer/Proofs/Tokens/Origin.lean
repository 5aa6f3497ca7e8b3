import TemplateLexer.Proofs.Outline.Composition
import TemplateLexer.Proofs.Rebuild.Scanned

/-!
# Where tokens come from

The tokens of a template come from its segments one by one, in their order (`comeFrom_outline`). A token
is that of its segment (`Gives`), but a partial on a standalone line may have taken the blanks in front
of it as its indent. Such blanks are a run of text, so they are on one line (`IsIndent`).

What any two segments have in common with respect to their order, the tokens that come from them have
too (`ComeFrom.pairwise`).
-/

namespace TemplateLexer.Outline

open Bytes Rebuild

variable {withGettext : Bool}

/-- What a partial may have as its indent: blanks on one line. -/
structure IsIndent (text : Bytes) : Prop where
  ne_nil : text ≠ []
  newline_not_mem : newline ∉ text
  blank : allBlank text = true

/-- The segment gives the token, perhaps with the indent of a partial. -/
def Gives (withGettext : Bool) (s : Segment) (t : Token) : Prop :=
  ∃ u, s.token? withGettext = some u ∧
    (t = u ∨ (u.isPartial = true ∧ ∃ indent, IsIndent indent ∧ t = { u with indent := some indent }))

/-- The tokens come from some of the segments, one from each, in their order. -/
inductive ComeFrom (withGettext : Bool) : List Segment → List Token → Prop
  | nil : ComeFrom withGettext [] []
  | skip {s : Segment} {segs : List Segment} {tokens : List Token} :
    ComeFrom withGettext segs tokens → ComeFrom withGettext (s :: segs) tokens
  | give {s : Segment} {t : Token} {segs : List Segment} {tokens : List Token} :
    Gives withGettext s t → ComeFrom withGettext segs tokens →
      ComeFrom withGettext (s :: segs) (t :: tokens)

namespace ComeFrom

variable {segs segs' : List Segment} {tokens tokens' : List Token}

theorem append (h : ComeFrom withGettext segs tokens) (h' : ComeFrom withGettext segs' tokens') :
    ComeFrom withGettext (segs ++ segs') (tokens ++ tokens') := by
  induction h with
  | nil => exact h'
  | skip _ ih => exact .skip ih
  | give hg _ ih => exact .give hg ih

/-- Segments that give nothing may follow. -/
theorem append_left (h : ComeFrom withGettext segs tokens) (more : List Segment) :
    ComeFrom withGettext (segs ++ more) tokens := by
  have hmore : ComeFrom withGettext more [] := by
    induction more with
    | nil => exact .nil
    | cons s more ih => exact .skip ih
  rw [← List.append_nil tokens]
  exact h.append hmore

theorem exists_gives (h : ComeFrom withGettext segs tokens) {t : Token} (ht : t ∈ tokens) :
    ∃ s ∈ segs, Gives withGettext s t := by
  induction h with
  | nil => cases ht
  | skip _ ih =>
    obtain ⟨s, hs, hg⟩ := ih ht
    exact ⟨s, List.mem_cons_of_mem _ hs, hg⟩
  | give hg _ ih =>
    rcases List.mem_cons.mp ht with rfl | ht
    · exact ⟨_, List.mem_cons_self, hg⟩
    · obtain ⟨s, hs, hg⟩ := ih ht
      exact ⟨s, List.mem_cons_of_mem _ hs, hg⟩

/-- What a relation says of any two segments, another may say of the tokens that come from them. -/
theorem pairwise (h : ComeFrom withGettext segs tokens) {R : Segment → Segment → Prop}
    {Q : Token → Token → Prop} (hsegs : segs.Pairwise R)
    (htokens : ∀ s ∈ segs, ∀ s' ∈ segs, ∀ t t', Gives withGettext s t → Gives withGettext s' t' →
      R s s' → Q t t') : tokens.Pairwise Q := by
  induction h with
  | nil => exact .nil
  | skip _ ih =>
    exact ih hsegs.of_cons fun s hs s' hs' =>
      htokens s (List.mem_cons_of_mem _ hs) s' (List.mem_cons_of_mem _ hs')
  | give hg hrest ih =>
    obtain ⟨hfirst, hsegs⟩ := List.pairwise_cons.mp hsegs
    refine List.pairwise_cons.mpr ⟨?_, ?_⟩
    · intro t' ht'
      obtain ⟨s', hs', hg'⟩ := hrest.exists_gives ht'
      exact htokens _ List.mem_cons_self s' (List.mem_cons_of_mem _ hs') _ t' hg hg' (hfirst s' hs')
    · exact ih hsegs fun s hs s' hs' =>
        htokens s (List.mem_cons_of_mem _ hs) s' (List.mem_cons_of_mem _ hs')

end ComeFrom

/-! ## Lines -/

/-- Only the last element of a line ends it. -/
theorem exists_init_of_mem_cutAfter {α : Type} {ends : α → Bool} {list line : List α}
    (h : line ∈ cutAfter ends list) :
    ∃ init last, line = init ++ [last] ∧ ∀ a ∈ init, ends a = false := by
  induction list generalizing line with
  | nil => cases h
  | cons a rest ih =>
    cases ha : ends a with
    | true =>
      have hcut : cutAfter ends (a :: rest) = [a] :: cutAfter ends rest := by simp [cutAfter, ha]
      rw [hcut] at h
      rcases List.mem_cons.mp h with rfl | h
      · exact ⟨[], a, rfl, by simp⟩
      · exact ih h
    | false =>
      rw [cutAfter_cons_of_not ha] at h
      rcases List.mem_cons.mp h with rfl | h
      · -- the element joins the first line of the rest
        cases hcut : cutAfter ends rest with
        | nil => exact ⟨[], a, rfl, by simp⟩
        | cons first others =>
          have hmem : first ∈ cutAfter ends rest := by simp [hcut]
          obtain ⟨init, last, hfirst, hinit⟩ := ih hmem
          refine ⟨a :: init, last, by simp [hfirst], ?_⟩
          intro b hb
          rcases List.mem_cons.mp hb with rfl | hb
          · exact ha
          · exact hinit b hb
      · exact ih (List.mem_of_mem_tail h)

/-- The tags that are kept of some segments come from them, if the texts among them can be indents. -/
theorem comeFrom_keepTags {segs : List Segment} {before : Option Bytes}
    (hbefore : ∀ text ∈ before, IsIndent text)
    (htexts : ∀ s ∈ segs, ∀ u, s.token? withGettext = some u → u.isText = true → IsIndent u.value) :
    ComeFrom withGettext segs
      (Line.keepTags before (segs.filterMap (Segment.token? withGettext))) := by
  induction segs generalizing before with
  | nil => exact .nil
  | cons s rest ih =>
    have hrest := fun u hu => htexts u (List.mem_cons_of_mem _ hu)
    have hnone : ∀ text ∈ (none : Option Bytes), IsIndent text := by simp
    rw [List.filterMap_cons]
    cases hs : s.token? withGettext with
    | none => exact .skip (ih hbefore hrest)
    | some u =>
      simp only [Line.keepTags]
      by_cases htext : u.isText = true
      · -- a text is dropped, and may be the indent of what follows
        rw [if_pos htext]
        refine .skip (ih ?_ hrest)
        rintro text ⟨⟩
        exact htexts s List.mem_cons_self u hs htext
      · rw [if_neg htext]
        refine .give ⟨u, hs, ?_⟩ (ih hnone hrest)
        unfold Line.withIndent
        split
        · next text =>
          split
          · next hpartial => exact .inr ⟨hpartial, text, hbefore text rfl, rfl⟩
          · exact .inl rfl
        · exact .inl rfl

/-- All tokens of some segments come from them. -/
theorem comeFrom_filterMap (withGettext : Bool) (segs : List Segment) :
    ComeFrom withGettext segs (segs.filterMap (Segment.token? withGettext)) := by
  induction segs with
  | nil => exact .nil
  | cons s rest ih =>
    rw [List.filterMap_cons]
    cases hs : s.token? withGettext with
    | none => exact .skip ih
    | some u => exact .give ⟨u, hs, .inl rfl⟩ ih

section line

variable {pos : Nat} {text : Bytes}

/-- A text that shows nothing and ends no line is a blank run. -/
theorem isIndent_of_isQuiet {s : Segment} {u : Token} (hread : ReadAt withGettext pos text s)
    (hquiet : s.isQuiet withGettext = true) (hend : s.isLineEnd = false)
    (hu : s.token? withGettext = some u) (htext : u.isText = true) : IsIndent u.value := by
  rcases Segment.cases_token? hu with ⟨run, hp, rfl⟩ | ⟨hp, -⟩ | ⟨kind, body, closeAt, hp, -⟩
  · obtain ⟨hne, hnl⟩ := (cases_of_readAt hread).1 run hp
    rw [Segment.isQuiet, hp] at hquiet
    exact ⟨hne, hnl, hquiet⟩
  · simp [Segment.isLineEnd, hp] at hend
  · have hmark := (token?_eq hread hu).1
    simp [Token.isTag, htext, Segment.isMark, Segment.isRun, Segment.isLineEnd, hp] at hmark

/-- A line end gives a newline. -/
theorem token?_of_isLineEnd {s : Segment} (h : s.isLineEnd = true) :
    s.token? withGettext = some (s.textToken [newline]) := by
  unfold Segment.isLineEnd at h
  split at h
  · next hp => simp [Segment.token?, hp]
  · cases h

/-- Where nothing shows on a line, its tags come from its segments. -/
theorem comeFrom_quiet {segs line : List Segment}
    (hread : ∀ s ∈ line, ReadAt withGettext pos text s) (hline : line ∈ lines segs)
    (hquiet : ∀ s ∈ line, s.isQuiet withGettext = true) :
    ComeFrom withGettext line
      (Line.keepTags none (line.filterMap (Segment.token? withGettext))) := by
  obtain ⟨init, last, rfl, hinit⟩ := exists_init_of_mem_cutAfter hline
  have hnone : ∀ text ∈ (none : Option Bytes), IsIndent text := by simp
  have htexts : ∀ s ∈ init ++ [last], s.isLineEnd = false →
      ∀ u, s.token? withGettext = some u → u.isText = true → IsIndent u.value :=
    fun s hs hend u hu htext => isIndent_of_isQuiet (hread s hs) (hquiet s hs) hend hu htext
  cases hend : last.isLineEnd with
  | true =>
    -- the newline at the end is a text, and no tag follows it
    have h := comeFrom_keepTags hnone fun s hs => htexts s (List.mem_append_left _ hs) (hinit s hs)
    rw [List.filterMap_append, List.filterMap_cons, token?_of_isLineEnd hend, List.filterMap_nil,
      keepTags_append_text rfl]
    exact h.append_left [last]
  | false =>
    refine comeFrom_keepTags hnone fun s hs => htexts s hs ?_
    rcases List.mem_append.mp hs with hs | hs
    · exact hinit s hs
    · rw [List.mem_singleton.mp hs]
      exact hend

theorem isQuiet_of_isStandalone {line : List Segment} (h : isStandalone withGettext line = true) :
    ∀ s ∈ line, s.isQuiet withGettext = true := by
  rw [isStandalone, Bool.and_eq_true, List.all_eq_true] at h
  exact h.2

/-- The tokens of a line come from its segments. -/
theorem comeFrom_line {segs line : List Segment}
    (hread : ∀ s ∈ line, ReadAt withGettext pos text s) (hline : line ∈ lines segs) :
    ComeFrom withGettext line (lineTokens withGettext line) := by
  unfold lineTokens
  dsimp only
  split
  · next hst =>
    rw [keptTags_eq_keepTags]
    exact comeFrom_quiet hread hline (isQuiet_of_isStandalone hst)
  · exact comeFrom_filterMap withGettext line

end line

/-! ## The whole text -/

/-- What holds of each line holds of the lines together. -/
theorem comeFrom_flatten {group : List (List Segment)}
    (h : ∀ line ∈ group, ComeFrom withGettext line (lineTokens withGettext line)) :
    ComeFrom withGettext group.flatten (group.flatMap (lineTokens withGettext)) := by
  induction group with
  | nil => exact .nil
  | cons line others ih =>
    rw [List.flatten_cons, List.flatMap_cons]
    exact (h line List.mem_cons_self).append (ih fun l hl => h l (List.mem_cons_of_mem _ hl))

/-- **The tokens of a template come from its segments, in their order.** -/
theorem comeFrom_outline (withGettext : Bool) (text : Bytes) (given : Option Bytes) :
    ComeFrom withGettext (outline withGettext text given) (tokens withGettext text given) := by
  have hflat : (lines (outline withGettext text given)).flatten = outline withGettext text given :=
    flatten_cutAfter Segment.isLineEnd _
  have hread : ∀ s ∈ outline withGettext text given, ReadAt withGettext 0 text s :=
    readAt_of_mem_segments
  have h : ComeFrom withGettext (lines (outline withGettext text given)).flatten
      (tokens withGettext text given) := by
    refine comeFrom_flatten fun line hline => comeFrom_line (fun s hs => hread s ?_) hline
    rw [← hflat]
    exact List.mem_flatten.mpr ⟨line, hline, hs⟩
  rwa [hflat] at h

/-- A token of a template comes from a segment that is read in it. -/
theorem exists_gives_of_mem_tokens {text : Bytes} {given : Option Bytes} {t : Token}
    (h : t ∈ tokens withGettext text given) :
    ∃ s ∈ outline withGettext text given, ReadAt withGettext 0 text s ∧ Gives withGettext s t := by
  obtain ⟨s, hs, hg⟩ := (comeFrom_outline withGettext text given).exists_gives h
  exact ⟨s, hs, readAt_of_mem_segments s hs, hg⟩

/-- What a segment gives has its extent. -/
theorem Gives.extent_eq {pos : Nat} {text : Bytes} {s : Segment} {t : Token}
    (h : Gives withGettext s t) (hs : ReadAt withGettext pos text s) : t.extent = s.extent := by
  obtain ⟨u, hu, rfl | ⟨-, indent, -, rfl⟩⟩ := h
  · exact extent_of_token? hs hu
  · exact extent_of_token? (t := u) hs hu

section spans

variable {source : Source} {given : Option Bytes} {t : Token} {span : Span}

theorem mem_spannedTokens_iff : (t, span) ∈ spannedTokens withGettext source given ↔
    t ∈ tokens withGettext source.text given ∧ span = source.span t.extent := by
  rw [spannedTokens, tokens_scan, List.mem_map]
  constructor
  · rintro ⟨u, hu, he⟩
    obtain ⟨rfl, rfl⟩ := Prod.mk.inj he
    exact ⟨hu, rfl⟩
  · rintro ⟨ht, rfl⟩
    exact ⟨t, ht, rfl⟩

/-- Where offsets can tell the places of a text, the span of a token is its extent. -/
theorem span_of_mem_tokens (hlength : source.text.length < UInt32.size)
    (h : t ∈ tokens withGettext source.text given) :
    (source.span t.extent).start = t.extent.start ∧ (source.span t.extent).stop = t.extent.stop := by
  obtain ⟨s, hs, hread, hg⟩ := exists_gives_of_mem_tokens h
  have hext := extent_of_mem_segments hs
  rw [hg.extent_eq hread]
  exact source.span_bounds (by omega) (by omega) hlength

end spans

end TemplateLexer.Outline
