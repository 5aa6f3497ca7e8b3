import TemplateLexer.Proofs.Outline.Tokens
import TemplateLexer.Proofs.Rebuild.Exact

/-!
# Rebuilding the text of a scan

Rebuilding a text from the tokens of a scan and scanning it again is meant to give the tokens back.
For a scan that dropped no line this holds for exactly the tokens that are `Reproducible`
(`scan_rebuild_iff`), and not every scan gives such tokens: the blank that kept the name of a tag
off the close delimiter is gone, and so is a change that changed nothing between two texts.
-/

namespace TemplateLexer

open Bytes Outline Scan

variable {withGettext : Bool}

namespace Rebuild

/-! ## What a scan that reads the tokens back has found -/

theorem exists_mem_keepTags {before : Option Bytes} {tokens : List Token} {u : Token}
    (hu : u ∈ tokens) (htag : u.isTag = true) :
    ∃ t ∈ Line.keepTags before tokens, t.extent = u.extent := by
  induction tokens generalizing before with
  | nil => cases hu
  | cons v rest ih =>
    simp only [Line.keepTags]
    rcases List.mem_cons.mp hu with rfl | hu
    · rw [if_neg (by simpa [Token.isTag] using htag)]
      refine ⟨_, List.mem_cons_self, ?_⟩
      unfold Line.withIndent
      split
      · split <;> rfl
      · rfl
    · split
      · exact ih hu
      · obtain ⟨t, ht, he⟩ := ih hu
        exact ⟨t, List.mem_cons_of_mem _ ht, he⟩

/-- A lasting segment gives a token of its line. -/
theorem exists_mem_lineTokens {pos : Nat} {text : Bytes} {line : List Segment} {s : Segment}
    (hs : s ∈ line) (hread : ReadAt withGettext pos text s) (hlasts : lasts s = true) :
    ∃ t ∈ lineTokens withGettext line, t.extent = s.extent := by
  obtain ⟨u, hu⟩ : ∃ u, s.token? withGettext = some u := by
    cases hp : s.piece with
    | run run => exact ⟨s.textToken run, by simp [Segment.token?, hp]⟩
    | tag kind body closeAt =>
      exact ⟨Tag.finish s.pair kind s.extent.stop
        (Tag.token withGettext s.pair kind s.extent.start closeAt body), by simp [Segment.token?, hp]⟩
    | _ => simp [lasts, hp] at hlasts
  have hmem : u ∈ line.filterMap (Segment.token? withGettext) := List.mem_filterMap.mpr ⟨s, hs, hu⟩
  have hext := extent_of_token? hread hu
  unfold lineTokens
  dsimp only
  split
  · next hst =>
    obtain ⟨-, hq⟩ : (∃ s ∈ line, s.isMark = true) ∧ ∀ s ∈ line, s.isQuiet withGettext = true := by
      simpa [isStandalone] using hst
    -- on a standalone line only a tag lasts
    have htag : u.isTag = true := by
      rw [(token?_eq hread hu).1]
      have hqs := hq s hs
      cases hp : s.piece with
      | run run =>
        simp only [lasts, hp] at hlasts
        simp [Segment.isQuiet, hp] at hqs
        simp [hqs] at hlasts
      | tag kind body closeAt => simp [Segment.isMark, Segment.isRun, Segment.isLineEnd, hp]
      | _ => simp [lasts, hp] at hlasts
    rw [keptTags_eq_keepTags]
    obtain ⟨t, ht, he⟩ := exists_mem_keepTags hmem htag
    exact ⟨t, ht, he.trans hext⟩
  · exact ⟨u, hmem, hext⟩

/-- Two lists that agree in what `f` and `e` tell of them agree place by place. -/
theorem exists_of_mem_zip {α β γ δ : Type} {f : α → γ} {e : α → δ} {e' : β → δ}
    {list others : List α} {places : List β} (hf : others.map f = list.map f)
    (he : others.map e = places.map e') {p : α × β} (hp : p ∈ list.zip places) :
    ∃ a ∈ others, f a = f p.1 ∧ e a = e' p.2 := by
  induction others generalizing list places with
  | nil =>
    rw [List.map_nil, eq_comm, List.map_eq_nil_iff] at hf
    simp [hf] at hp
  | cons a others ih =>
    obtain ⟨b, list, rfl, hfa, hfr⟩ := List.map_eq_cons_iff.mp hf.symm
    obtain ⟨c, places, rfl, hea, her⟩ := List.map_eq_cons_iff.mp he.symm
    rcases List.mem_cons.mp hp with rfl | hp
    · exact ⟨a, List.mem_cons_self, hfa.symm, hea.symm⟩
    · obtain ⟨a', ha', h⟩ := ih hfr.symm her.symm hp
      exact ⟨a', List.mem_cons_of_mem _ ha', h⟩

/-- A lasting segment gives a token of the template. -/
theorem exists_mem_tokens {text : Bytes} {given : Option Bytes} {s : Segment}
    (hs : s ∈ outline withGettext text given) (hlasts : lasts s = true) :
    ∃ t ∈ tokens withGettext text given, t.extent = s.extent := by
  have hs' := hs
  rw [← flatten_cutAfter Segment.isLineEnd (outline withGettext text given)] at hs'
  obtain ⟨line, hline, hmem⟩ := List.mem_flatten.mp hs'
  obtain ⟨t, ht, he⟩ := exists_mem_lineTokens hmem (readAt_of_mem_segments s hs) hlasts
  exact ⟨t, List.mem_flatMap.mpr ⟨line, hline, ht⟩, he⟩

/-- **Tokens that are read back are reproducible.** -/
theorem reproducible_of_readBack {tokens : List Token}
    (hw : ∀ t ∈ tokens, t.WellFormed withGettext) {name : Bytes}
    (h : ReadBack tokens (scan withGettext (.ofText name (Token.rebuild tokens)) none)) :
    Reproducible tokens := by
  have hforms : ∀ t ∈ tokens, t.HasMarks ∧ t.OneLine :=
    fun t ht => ⟨(hw t ht).marks, (hw t ht).oneLine⟩
  obtain ⟨hfaults, hcontents, hplaces⟩ := h
  rw [tokens_scan] at hcontents hplaces
  rw [faults_scan] at hfaults
  simp only [Source.ofText] at hcontents hplaces hfaults
  rw [places, placesFrom_eq_extents hforms .standard true 0] at hplaces
  have hfault : ∀ s ∈ outline withGettext (Token.rebuild tokens) none, s.fault? = none := by
    intro s hs
    have hnil := (List.append_eq_nil_iff.mp hfaults).2
    exact List.filterMap_eq_nil_iff.mp hnil s hs
  -- every token has its counterpart in the second scan, at its place
  have hfound : ∀ p ∈ tokens.zip (tokenSegments .standard true 0 tokens),
      Found withGettext (outline withGettext (Token.rebuild tokens) none) p.1 p.2 := by
    intro p hp
    obtain ⟨t, ht, hcontent, hextent⟩ := exists_of_mem_zip hcontents hplaces hp
    obtain ⟨s, hs, u, hu, indent, rfl⟩ := exists_of_mem_tokens ht
    obtain ⟨hmarks, -⟩ := marks_of_token? hu
    have hread := readAt_of_mem_segments s hs
    simp only [Token.content, Token.mk.injEq] at hcontent
    obtain ⟨hkind, -, hvalue, hopen, hclose, -⟩ := hcontent
    refine ⟨s, hs, (extent_of_token? hread hu).symm.trans hextent, u, hu, hkind, hvalue, ?_⟩
    exact (hasMarks_of_pair u.pair (hopen.symm.trans hmarks.openMark_pair.symm)
      (hclose.symm.trans hmarks.closeMark_pair.symm)).2.symm
  -- and the second scan has no others
  have hnone : ∀ s ∈ outline withGettext (Token.rebuild tokens) none, lasts s = true →
      ∃ place ∈ tokenSegments .standard true 0 tokens,
        place.extent.start = s.extent.start := by
    intro s hs hlasts
    obtain ⟨t, ht, he⟩ := exists_mem_tokens hs hlasts
    have hmem : t.extent ∈ (tokenSegments .standard true 0 tokens).map Segment.extent := by
      rw [← hplaces]
      exact List.mem_map_of_mem ht
    obtain ⟨place, hplace, hpe⟩ := List.mem_map.mp hmem
    exact ⟨place, hplace, by rw [hpe, he]⟩
  have hstart : tokens ≠ [] → ∃ s ∈ outline withGettext (Token.rebuild tokens) none,
      s.extent.start = 0 ∧ s.pair = .standard := by
    intro hne
    obtain ⟨t, rest, rfl⟩ := List.exists_cons_of_ne_nil hne
    obtain ⟨s, hs, -⟩ := hfound _ List.mem_cons_self
    refine exists_mem_segments_start withGettext .standard 0 ?_
    intro hnil
    rw [hnil] at hs
    simp [outline] at hs
  have htext : Token.rebuild tokens = [] ++ write .standard (plan .standard true tokens) :=
    rebuild_eq_write hforms
  obtain ⟨htags, hchanges, hruns⟩ := reproducible_of_found hw htext hfault hfound
    (fun s hs _ => hnone s hs) hstart
  exact ⟨htags, hchanges, hruns⟩

end Rebuild

/-- Did the scan drop no line? -/
def Outcome.keepsLines (o : Outcome) : Bool :=
  o.notes.all fun
    | .lineDropped _ => false
    | _ => true

namespace Rebuild

theorem not_standalone_of_keepsLines {source : Source} {given : Option Bytes}
    (h : (scan withGettext source given).keepsLines = true) :
    ∀ line ∈ lines (outline withGettext source.text given),
      isStandalone withGettext line = false := by
  intro line hline
  rw [← Bool.not_eq_true]
  intro hs
  -- a standalone line is noted
  have hnote : Note.lineDropped (line.countP Segment.isRun) ∈
      (scan withGettext source given).notes := by
    rw [notes_scan]
    refine List.mem_append_left _ (List.mem_append_right _ ?_)
    exact List.mem_flatMap.mpr ⟨line, hline, by simp [lineNotes, hs]⟩
  have hall := List.all_eq_true.mp h _ hnote
  cases hall

/-- **Scanning the rebuilt text of a scan.** If a scan dropped no line, then scanning the text that is
rebuilt from its tokens, without an override, gives the tokens back where they were written, and no
fault, exactly if nothing that is written for the tokens ends early and no two runs are written side by
side.

Places and faults belong to it, as tokens that are misread can still agree by accident (see the second
example below). -/
theorem scan_rebuild_iff (source : Source) (given : Option Bytes) (name : Bytes)
    (h : (scan withGettext source given).keepsLines = true) :
    ReadBack (scan withGettext source given).tokens
        (scan withGettext
          (.ofText name (Token.rebuild (scan withGettext source given).tokens)) none) ↔
      Reproducible (scan withGettext source given).tokens := by
  have hw : Writable withGettext (scan withGettext source given).tokens := by
    rw [tokens_scan]
    exact writable_of_not_standalone (not_standalone_of_keepsLines h)
  constructor
  · exact reproducible_of_readBack hw.forms
  · intro hr
    exact readBack_of_reproducible hw hr name

/-- A tag whose name ends in a brace, kept off the close delimiter by a blank. -/
def spacedBrace : Source := .ofText [] (ascii "\x7b\x7ba\x7d \x7d\x7d")

/-- The blank is not written again, so the name loses its brace. -/
theorem not_readBack_spacedBrace :
    (scan false spacedBrace none).faults = [] ∧ (scan false spacedBrace none).keepsLines = true ∧
      (scan false (.ofText [] (Token.rebuild (scan false spacedBrace none).tokens)) none).tokens.map
        Token.content ≠ (scan false spacedBrace none).tokens.map Token.content ∧
      ¬ ReadBack (scan false spacedBrace none).tokens
        (scan false (.ofText [] (Token.rebuild (scan false spacedBrace none).tokens)) none) := by
  have hkeeps : (scan false spacedBrace none).keepsLines = true := by decide +kernel
  have hnot : ¬ Reproducible (scan false spacedBrace none).tokens := by decide +kernel
  refine ⟨by decide +kernel, hkeeps, by decide +kernel, ?_⟩
  rw [scan_rebuild_iff spacedBrace none [] hkeeps]
  exact hnot

-- a change of the delimiters is reproducible
example : Reproducible (scan true (.ofText [] (ascii "\x7b\x7b=[ ]=\x7d\x7d[a] b\n")) none).tokens := by
  decide +kernel

-- the brace that is written after the name is left over, and opens a tag that does not end
example :
    let first := scan false (.ofText [] (ascii "\x7d\x7bn\x7d")) (some (ascii "\x7d \x7d"))
    let second := scan false (.ofText [] (Token.rebuild first.tokens)) none
    second.tokens.map Token.content = first.tokens.map Token.content ∧ second.faults ≠ [] := by
  decide +kernel

end Rebuild

end TemplateLexer
