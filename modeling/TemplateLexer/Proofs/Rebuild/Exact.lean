import TemplateLexer.Proofs.Rebuild.Scanned

/-!
# Exactly the reproducible tokens are read back

`readBack_of_reproducible` shows that tokens are read back if nothing that is written for them ends
early. Here the converse is shown for tokens of any scan that dropped no line.

A segment that is read where a token was written tells that the token was read whole
(`tagWhole_of_read`, `not_run_after_run`). A delimiter change gives no token, so it has to be shown
that nothing can be read from the middle of one without leaving a trace: a token that was not
written, or a fault (`changeWhole_of_read`).
-/

namespace TemplateLexer.Rebuild

open Bytes Outline Scan

variable {withGettext : Bool}

/-! ## Tags -/

/-- A tag that is read to the end of what was written for it is whole. -/
theorem tagWhole_of_read {t : Token} (hw : t.WellFormed withGettext) (htag : t.isTag = true)
    {pos closeAt : Nat} {rest body : Bytes} {kind : Kind}
    (hr : readPiece withGettext t.pair pos (t.item.render t.pair ++ rest) =
      (.tag kind body closeAt, rest)) : t.TagWhole := by
  rw [Token.item_of_isTag htag] at hr
  have hlen : 2 ≤ ((Item.tag t.sigilKind t.body).render t.pair).length :=
    Item.two_le_length_render rfl
  have hne : (Item.tag t.sigilKind t.body).render t.pair ++ rest ≠ [] := by
    intro hn
    have h := congrArg List.length hn
    simp only [List.length_append, List.length_nil] at h
    omega
  rcases cases_readPiece hne hr with ⟨run, -, -, hp⟩ | ⟨-, hp⟩ | ⟨-, he, hread⟩
  · cases hp
  · cases hp
  · constructor
    · rw [← Token.render_tag hw.marks, ← Item.escapedByte?_append hlen rest]
      exact he
    · -- the close delimiter that was found is the one that was written
      obtain ⟨sigil, hk, hne', hkind, hwidth⟩ := exists_sigil_of_selects (hw.tag htag).selects
        (t.pair.closeMark ++ (brace t.pair t.sigilKind ++ rest))
      have hinner := drop_sigilWidth hwidth t.body
        (t.pair.closeMark ++ (brace t.pair t.sigilKind ++ rest))
      rw [← List.append_assoc t.body] at hinner
      rw [render_tag_append] at hread
      cases hc : cutAt? t.pair.closeMark
          (t.body ++ t.pair.closeMark ++ (brace t.pair t.sigilKind ++ rest)) with
      | none =>
        -- without a close delimiter no tag is read
        rw [readMark_openTag t.pair pos hk hne' (hinner ▸ hc)] at hread
        cases hread
      | some parts =>
        obtain ⟨found, after⟩ := parts
        rw [readMark_tag t.pair pos hk hne' (hinner ▸ hc)] at hread
        have hrest : (if Tag.absorbsBrace t.pair t.sigilKind then after.drop 1 else after) = rest := by
          rw [← hkind]
          exact congrArg Prod.snd hread
        obtain ⟨hparts, hfirst⟩ := cutAt?_eq_some_iff.mp hc
        -- both readings leave the same rest, so the bodies have the same length
        have hle := length_le_of_cutAt? hc
        have hlens := congrArg List.length hparts
        have hsame : found.length = t.body.length := by
          simp only [List.length_append, brace] at hlens
          split at hrest
          · next habs =>
            have hlen' := congrArg List.length hrest
            simp only [habs, if_true, List.length_cons, List.length_nil, List.length_drop] at hlens hlen'
            omega
          · next habs =>
            have hlen' := congrArg List.length hrest
            simp only [habs, if_false, Bool.false_eq_true, List.length_nil] at hlens hlen'
            omega
        have hbody : found = t.body := by
          rw [List.append_assoc, List.append_assoc] at hparts
          exact (List.append_inj_left hparts hsame.symm).symm
        rw [hbody, hw.marks.closeMark_pair] at hfirst
        exact hfirst

/-! ## Changes

What is read from the middle of a delimiter change leaves a trace. -/

/-- Does the segment give a token on every line? Only blank runs and line ends are dropped. -/
def lasts (s : Segment) : Bool :=
  match s.piece with
  | .run text => !allBlank text
  | .tag _ _ _ => true
  | _ => false

/-- A run that starts with a byte that is not blank is not blank. -/
theorem not_allBlank_readRun {pair : Delimiters} {text run rest : Bytes} {b : UInt8}
    (hb : text.head? = some b) (hn : isBlank b = false) (hr : readRun pair text = (run, rest))
    (hne : run ≠ []) : allBlank run = false := by
  cases ht : textByte? pair text with
  | none =>
    rw [readRun_of_none ht] at hr
    cases hr
    exact absurd rfl hne
  | some p =>
    obtain ⟨c, tail⟩ := p
    have hc : isBlank c = false := by
      rcases cases_textByte? ht with ⟨-, ho⟩ | ⟨rfl, -⟩
      · exact pair.open_blankFree c (List.mem_of_mem_head? ho)
      · cases hb
        exact hn
    rw [readRun_of_some ht] at hr
    cases hr
    simp [allBlank, hc]

/-- What is read as a delimiter change has its text. -/
theorem eq_of_readMark_change {pair : Delimiters} {pos : Nat} {text spec rest : Bytes}
    (hp : pair.openMark <+: text)
    (hr : readMark withGettext pair pos text = (.change spec, rest)) :
    text = pair.openMark ++ equalsSign :: (spec ++ pair.changeMark ++ rest) ∧
      find? pair.changeMark (spec ++ pair.changeMark) = some spec.length := by
  obtain ⟨inner, rfl⟩ := hp
  unfold readMark at hr
  simp only [List.drop_left] at hr
  split at hr
  · next hk =>
    obtain ⟨b, hb, hkb⟩ := Option.bind_eq_some_iff.mp hk
    obtain ⟨tail, rfl⟩ := List.head?_eq_some_iff.mp hb
    have hsigil : b = equalsSign := by
      have h := sigil_of_ofSigil hkb
      exact (List.cons.inj h).1.symm
    split at hr
    · cases hr
    · next hc =>
      cases hr
      obtain ⟨hinner, hf⟩ := cutAt?_eq_some_iff.mp hc
      rw [List.drop_one, List.tail_cons] at hinner
      exact ⟨by rw [hsigil, hinner], hf⟩
  · split at hr <;> cases hr

/-- Where nothing lasting and no fault is read in front of a byte that is not blank, a delimiter
change is read. -/
theorem change_of_read {s : Segment} {pos : Nat} {text rest : Bytes} {b : UInt8}
    (hr : readPiece withGettext s.pair pos text = (s.piece, rest)) (hb : text.head? = some b)
    (hn : isBlank b = false) (hfault : s.fault? = none) (hlasts : lasts s = false) :
    ∃ spec pair, s.piece = .change spec ∧ Delimiters.parse spec = .ok pair ∧
      escapedByte? s.pair text = none ∧
      text = s.pair.openMark ++ equalsSign :: (spec ++ s.pair.changeMark ++ rest) ∧
      find? s.pair.changeMark (spec ++ s.pair.changeMark) = some spec.length := by
  have hne : text ≠ [] := by
    rintro rfl
    cases hb
  rcases cases_readPiece hne hr with ⟨run, hrun, hread, hp⟩ | ⟨rfl, -⟩ | ⟨ho, he, hmark⟩
  · have hloud := not_allBlank_readRun hb hn hread hrun
    simp [lasts, hp, hloud] at hlasts
  · cases hb
    exact absurd hn (by decide)
  · cases hp : s.piece with
    | run run => exact absurd hp ((ne_run_of_readMark hmark).1 run)
    | lineEnd => exact absurd hp (ne_run_of_readMark hmark).2
    | tag kind body closeAt => simp [lasts, hp] at hlasts
    | openTag => simp [Segment.fault?, hp] at hfault
    | openChange => simp [Segment.fault?, hp] at hfault
    | change spec =>
      rw [hp] at hmark
      obtain ⟨htext, hf⟩ := eq_of_readMark_change ho hmark
      cases hd : Delimiters.parse spec with
      | error e => simp [Segment.fault?, hp, hd] at hfault
      | ok pair => exact ⟨spec, pair, rfl, hd, he, htext, hf⟩

/-- What an early end leaves of a change is not empty and has no blank. -/
theorem exists_leftover {q : Delimiters} {mark more spec rest : Bytes}
    (h : q.render ++ mark ++ more = spec ++ mark ++ rest) (hlt : spec.length < q.render.length)
    (hspec : ¬ BlankFree spec) (hmark : BlankFree mark) :
    ∃ left, left ≠ [] ∧ BlankFree left ∧ rest = left ++ more ∧
      spec.length + left.length = q.render.length := by
  -- what the change has after the early end is part of its second delimiter
  obtain ⟨m, hm⟩ : spec <+: q.render := by
    have hspec : spec <+: q.render ++ mark ++ more := by
      rw [h, List.append_assoc]
      exact List.prefix_append _ _
    rw [List.append_assoc] at hspec
    exact List.prefix_of_prefix_length_le hspec (List.prefix_append _ _) hlt.le
  -- the blank between the two delimiters stands before the early end
  have hmfree : BlankFree m := by
    rw [Delimiters.render] at hm
    rcases List.append_eq_append_iff.mp hm with ⟨a, ha, -⟩ | ⟨c, hc, hcm⟩
    · refine absurd ?_ hspec
      intro b hb
      exact q.open_blankFree b (by rw [ha]; exact List.mem_append_left _ hb)
    · cases c with
      | nil =>
        refine absurd ?_ hspec
        rw [hc, List.append_nil]
        exact q.open_blankFree
      | cons x c =>
        obtain ⟨-, hclose⟩ := List.cons.inj hcm
        intro b hb
        exact q.close_blankFree b (by rw [hclose]; exact List.mem_append_right _ hb)
  have hrest : mark ++ rest = m ++ mark ++ more := by
    rw [← hm, List.append_assoc, List.append_assoc, List.append_assoc] at h
    rw [List.append_assoc]
    exact (List.append_cancel_left h).symm
  have hlen : spec.length + m.length = q.render.length := by
    rw [← hm, List.length_append]
  -- what is left is as long as the rest of the delimiter, but starts after the mark
  obtain ⟨left, hleft⟩ : mark <+: m ++ mark := by
    have hp : mark <+: m ++ mark ++ more := ⟨rest, hrest⟩
    exact List.prefix_of_prefix_length_le hp (List.prefix_append _ _) (by simp)
  have hleftlen : left.length = m.length := by
    have h' := congrArg List.length hleft
    simp only [List.length_append] at h'
    omega
  refine ⟨left, ?_, ?_, ?_, by omega⟩
  · rintro rfl
    simp only [List.length_nil] at hleftlen
    omega
  · intro b hb
    have hb' : b ∈ m ++ mark := by
      rw [← hleft]
      exact List.mem_append_right _ hb
    rcases List.mem_append.mp hb' with hb' | hb'
    · exact hmfree b hb'
    · exact hmark b hb'
  · rw [← hleft, List.append_assoc] at hrest
    exact List.append_cancel_left hrest

/-- What stands in a text without blanks, apart from a newline at its end, and itself ends in a mark
has no blanks. -/
theorem blankFree_of_startsWith {mark left nl : Bytes} {taken : Bytes} (hleft : BlankFree left)
    (hnl : nl = [] ∨ nl = [newline]) (hmark : BlankFree mark) (hne : mark ≠ [])
    (h : taken ++ mark <+: left ++ nl) : BlankFree (taken ++ mark) := by
  have hin : taken ++ mark <+: left := by
    rcases hnl with rfl | rfl
    · simpa using h
    · by_cases hlen : (taken ++ mark).length ≤ left.length
      · exact List.prefix_of_prefix_length_le h (List.prefix_append _ _) hlen
      · -- the newline would be the last byte of the mark
        have heq : taken ++ mark = left ++ [newline] := by
          apply h.eq_of_length
          have hle := h.length_le
          simp only [List.length_append, List.length_cons, List.length_nil] at hle hlen ⊢
          omega
        have hlast := congrArg List.getLast? heq
        rw [List.getLast?_append, List.getLast?_eq_some_getLast hne, List.getLast?_append] at hlast
        have hn : mark.getLast hne = newline := by simpa using hlast
        have hb := hmark _ (List.getLast_mem hne)
        rw [hn] at hb
        exact absurd hb (by decide)
  intro b hb
  exact hleft b (hin.subset hb)

theorem blankFree_changeMark (pair : Delimiters) : BlankFree pair.changeMark := by
  intro b hb
  rcases List.mem_cons.mp hb with rfl | hb
  · decide
  · exact pair.close_blankFree b hb

/-- A stretch without blanks, apart from a newline at its end, in front of a segment gives a fault or
a token: a delimiter change would need a blank. -/
theorem false_of_leftover {text front left nl after : Bytes} {first : Delimiters}
    (htext : text = front ++ (left ++ nl ++ after)) (hleft : left ≠ []) (hfree : BlankFree left)
    (hnl : nl = [] ∨ nl = [newline])
    (hfault : ∀ s ∈ segments withGettext first 0 text, s.fault? = none)
    (hnone : ∀ s ∈ segments withGettext first 0 text, s.extent.start = front.length →
      lasts s = false)
    (hstart : ∃ s ∈ segments withGettext first 0 text, s.extent.start = front.length)
    (hnext : ∃ s ∈ segments withGettext first 0 text,
      s.extent.start = front.length + (left ++ nl).length) : False := by
  obtain ⟨b, more, hb⟩ := List.exists_cons_of_ne_nil hleft
  have hpos := List.length_pos_iff.mpr hleft
  -- only a change gives neither a fault nor a token
  obtain ⟨s, hs, hsf⟩ := hstart
  obtain ⟨taken, rest, htaken, -, hstop, hr⟩ := (readAt_of_mem_segments s hs).rest htext hsf
  have hhead : (left ++ nl ++ after).head? = some b := by
    rw [hb]
    rfl
  obtain ⟨spec, pair, -, hparse, -, hspec, -⟩ := change_of_read hr hhead
    (hfree b (by simp [hb])) (hfault s hs) (hnone s hs hsf)
  have htaken' : taken = s.pair.openMark ++ equalsSign :: spec ++ s.pair.changeMark := by
    rw [htaken] at hspec
    refine List.append_cancel_right (?_ : taken ++ rest = _ ++ rest)
    rw [hspec]
    simp [List.append_assoc]
  -- the change ends before the next segment starts
  obtain ⟨t, ht, htf⟩ := hnext
  have hle := stop_le_of_mem_segments s hs t ht (by rw [hsf, htf, List.length_append]; omega)
  have hin : taken <+: left ++ nl := by
    have hp : taken <+: left ++ nl ++ after := by
      rw [htaken]
      exact List.prefix_append _ _
    exact List.prefix_of_prefix_length_le hp (List.prefix_append _ _) (by omega)
  rw [htaken'] at hin
  -- so it has no blank, and names no pair
  have hall := blankFree_of_startsWith hfree hnl (blankFree_changeMark s.pair)
    (by simp [Delimiters.changeMark]) hin
  refine Delimiters.not_blankFree_of_parse hparse ?_
  intro c hc
  exact hall c (by simp [hc])

/-- A change in front of a token is whole, if no fault and no other token is read from it. -/
theorem changeWhole_of_read {text before nl after : Bytes} {first p q : Delimiters}
    (htext : text = before ++ ((Item.change q).render p ++ nl ++ after))
    (hnl : nl = [] ∨ nl = [newline])
    (hfault : ∀ s ∈ segments withGettext first 0 text, s.fault? = none)
    (hnone : ∀ s ∈ segments withGettext first 0 text, before.length ≤ s.extent.start →
      s.extent.start < before.length + ((Item.change q).render p ++ nl).length → lasts s = false)
    (hstart : ∃ s ∈ segments withGettext first 0 text,
      s.extent.start = before.length ∧ s.pair = p)
    (hnext : ∃ s ∈ segments withGettext first 0 text,
      s.extent.start = before.length + ((Item.change q).render p ++ nl).length) :
    ChangeWhole p q := by
  intro _
  have hrender : (Item.change q).render p =
      p.openMark ++ equalsSign :: (q.render ++ p.changeMark) := by
    simp [Item.render]
  obtain ⟨o, mark, ho⟩ := List.exists_cons_of_ne_nil p.open_ne_nil
  obtain ⟨s, hs, hsb, rfl⟩ := hstart
  obtain ⟨taken, rest, htaken, -, hstop, hr⟩ := (readAt_of_mem_segments s hs).rest htext hsb
  have hhead : ((Item.change q).render s.pair ++ nl ++ after).head? = some o := by
    rw [hrender, ho]
    rfl
  have hlen2 : 2 ≤ ((Item.change q).render s.pair).length := Item.two_le_length_render rfl
  -- a change is read where the change was written, but perhaps a shorter one
  have hlasts : lasts s = false := by
    refine hnone s hs hsb.ge ?_
    rw [hsb, List.length_append]
    omega
  obtain ⟨spec, pair, hp, hparse, hesc, hspec, hfind⟩ := change_of_read hr hhead
    (s.pair.open_blankFree o (by simp [ho])) (hfault s hs) hlasts
  have hesc' : escapedByte? s.pair ((Item.change q).render s.pair) = none := by
    rw [List.append_assoc, Item.escapedByte?_append hlen2] at hesc
    exact hesc
  refine ⟨hesc', ?_⟩
  have heq : q.render ++ s.pair.changeMark ++ (nl ++ after) = spec ++ s.pair.changeMark ++ rest := by
    rw [hrender, List.append_assoc, List.append_assoc] at hspec
    have h := List.append_cancel_left hspec
    rw [List.cons_append] at h
    exact (List.cons.inj h).2
  have hle : spec.length ≤ q.render.length :=
    length_le_of_cutAt? (cutAt?_eq_some_iff.mpr ⟨heq, hfind⟩)
  rcases hle.lt_or_eq with hlt | hlen
  · -- an early end leaves something that is read on its own
    exfalso
    obtain ⟨left, hleft, hfree, hrest, hleftlen⟩ := exists_leftover heq hlt
      (Delimiters.not_blankFree_of_parse hparse) (blankFree_changeMark s.pair)
    have hlens := congrArg List.length htaken
    simp only [hrest, List.length_append] at hlens
    have hfront : text = (before ++ taken) ++ (left ++ nl ++ after) := by
      rw [htext, htaken, hrest]
      simp [List.append_assoc]
    have hlt' : s.extent.stop < 0 + text.length := by
      rw [hstop, hfront]
      have hpos := List.length_pos_iff.mpr hleft
      simp only [List.length_append]
      omega
    obtain ⟨t, ht, hts, -⟩ := exists_mem_segments_next s hs hlt'
    rw [hstop, ← List.length_append] at hts
    refine false_of_leftover hfront hleft hfree hnl hfault ?_ ⟨t, ht, hts⟩ ?_
    · intro u hu huf
      have hpos := List.length_pos_iff.mpr hleft
      refine hnone u hu ?_ ?_
      · rw [huf, List.length_append]
        omega
      · rw [huf]
        simp only [List.length_append]
        omega
    · obtain ⟨u, hu, huf⟩ := hnext
      refine ⟨u, hu, ?_⟩
      rw [huf]
      simp only [List.length_append]
      omega
  · have hspec' : q.render = spec := by
      rw [List.append_assoc, List.append_assoc] at heq
      exact List.append_inj_left heq hlen.symm
    rw [hspec']
    exact hfind

/-! ## Tokens where they were written -/

/-- Among the segments is one that gives the token, at the place where it was meant to be. -/
def Found (withGettext : Bool) (segs : List Segment) (t : Token) (place : Segment) : Prop :=
  ∃ s ∈ segs, s.extent = place.extent ∧
    ∃ u, s.token? withGettext = some u ∧ u.kind = t.kind ∧ u.value = t.value ∧ u.pair = t.pair

/-- A token that is found where it was written is what is read there. -/
theorem read_of_found {text front tail : Bytes} {first : Delimiters} {t : Token}
    (htext : text = front ++ (t.item.render t.pair ++ tail))
    (h : Found withGettext (segments withGettext first 0 text) t
      (t.item.segment t.pair front.length)) :
    ∃ s ∈ segments withGettext first 0 text, s.extent.start = front.length ∧
      s.extent.stop = front.length + (t.item.render t.pair).length ∧
      t.item.render t.pair ≠ [] ∧ s.pairAfter = t.pair ∧
      readPiece withGettext t.pair front.length (t.item.render t.pair ++ tail) = (s.piece, tail) ∧
      (t.isTag = true → ∃ kind body closeAt, s.piece = .tag kind body closeAt) ∧
      (t.isRun = true → ∃ run, s.piece = .run run) := by
  obtain ⟨s, hs, hextent, u, hu, hkind, hvalue, hpair⟩ := h
  have hread := readAt_of_mem_segments s hs
  have hsp : s.pair = t.pair := (marks_of_token? hu).2.1.symm.trans hpair
  have hstart : s.extent.start = front.length := by rw [hextent]; rfl
  have hstop : s.extent.stop = front.length + (t.item.render t.pair).length := by rw [hextent]; rfl
  -- the segment takes what was written, so it leaves the rest
  obtain ⟨taken, rest, htail, -, hstop', hr⟩ := hread.rest htext hstart
  have hrest : tail = rest :=
    List.append_inj_right htail (by rw [hstop'] at hstop; omega)
  have htags : t.isTag = u.isTag := by simp [Token.isTag, Token.isText, hkind]
  rw [← hrest, hsp] at hr
  refine ⟨s, hs, hstart, hstop, ?_, ?_, hr, ?_, ?_⟩
  · intro hn
    have hext := extent_of_mem_segments hs
    rw [hn, List.length_nil] at hstop
    omega
  · -- a change has no token
    rw [← hsp, Segment.pairAfter]
    split
    · next hp => simp [Segment.token?, hp] at hu
    · rfl
  · intro htag
    rcases Segment.cases_token? hu with ⟨run, -, rfl⟩ | ⟨-, rfl⟩ | ⟨kind, body, closeAt, hp, -⟩
    · rw [htags] at htag
      cases htag
    · rw [htags] at htag
      cases htag
    · exact ⟨kind, body, closeAt, hp⟩
  · intro hrun
    obtain ⟨htext', hne⟩ := Token.isRun_iff.mp hrun
    rcases Segment.cases_token? hu with ⟨run, hp, -⟩ | ⟨-, rfl⟩ | ⟨kind, body, closeAt, hp, -⟩
    · exact ⟨run, hp⟩
    · exact absurd hvalue.symm hne
    · have hmark := (token?_eq hread hu).1
      have htag : u.isTag = true := by
        rw [hmark]
        simp [Segment.isMark, Segment.isRun, Segment.isLineEnd, hp]
      rw [← htags] at htag
      simp [Token.isTag, htext'] at htag

/-- No run is read right after a run. -/
theorem not_run_after_run {pair : Delimiters} {pos pos' : Nat} {text tail run run' rest : Bytes}
    (hne : text ≠ []) (hne' : tail ≠ [])
    (h : readPiece withGettext pair pos text = (.run run, tail))
    (h' : readPiece withGettext pair pos' tail = (.run run', rest)) : False := by
  -- a run goes on as long as there are literal bytes
  have hnone : textByte? pair tail = none := by
    rcases cases_readPiece hne h with ⟨v, -, hr, -⟩ | ⟨-, hp⟩ | ⟨-, -, hmark⟩
    · have hb := textByte?_readRun pair text
      rwa [hr] at hb
    · cases hp
    · exact absurd rfl ((ne_run_of_readMark hmark).1 run)
  rcases cases_readPiece hne' h' with ⟨v, hv, hr, -⟩ | ⟨-, hp⟩ | ⟨-, -, hmark⟩
  · rw [readRun_of_none hnone] at hr
    cases hr
    exact hv rfl
  · cases hp
  · exact absurd rfl ((ne_run_of_readMark hmark).1 run')

/-- Two runs under one pair that are written side by side are not both found. -/
theorem apart_of_found {text front after : Bytes} {first : Delimiters} {t u : Token}
    (htext : text = front ++ (t.item.render t.pair ++ (u.item.render u.pair ++ after)))
    (ht : Found withGettext (segments withGettext first 0 text) t
      (t.item.segment t.pair front.length))
    (hu : Found withGettext (segments withGettext first 0 text) u
      (u.item.segment u.pair (front ++ t.item.render t.pair).length)) : t.Apart u := by
  rintro ⟨htrun, hurun, hup⟩
  have htext' : text = front ++ t.item.render t.pair ++ (u.item.render u.pair ++ after) := by
    rw [htext, List.append_assoc]
  obtain ⟨s, -, -, -, hrender, -, hread, -, hrun⟩ := read_of_found htext ht
  obtain ⟨s', -, -, -, hrender', -, hread', -, hrun'⟩ := read_of_found htext' hu
  obtain ⟨run, hp⟩ := hrun htrun
  obtain ⟨run', hp'⟩ := hrun' hurun
  rw [hp] at hread
  rw [hp', hup] at hread'
  rw [hup] at hread hrender'
  exact not_run_after_run (by simp [hrender]) (by simp [hrender']) hread hread'

theorem le_start_of_mem_tokenSegments {pair : Delimiters} {atLineStart : Bool} {pos : Nat}
    {tokens : List Token} :
    ∀ s ∈ tokenSegments pair atLineStart pos tokens, pos ≤ s.extent.start := by
  induction tokens generalizing pair atLineStart pos with
  | nil =>
    intro s hs
    cases hs
  | cons t rest ih =>
    intro s hs
    rcases List.mem_cons.mp hs with rfl | hs
    · simp [Item.segment]
    · have hle := ih s hs
      omega

/-- What is written in front of a token is nothing, or a change and perhaps a newline. -/
theorem cases_write_lead (pair : Delimiters) (atLineStart : Bool) (t : Token) (rest : List Token) :
    (t.pair = pair ∧ write pair (lead pair atLineStart t rest) = []) ∨
      (t.pair ≠ pair ∧ ∃ nl, (nl = [] ∨ nl = [newline]) ∧
        write pair (lead pair atLineStart t rest) = (Item.change t.pair).render pair ++ nl) := by
  unfold lead
  split
  · next hp => exact .inl ⟨hp, rfl⟩
  · next hp =>
    refine .inr ⟨hp, ?_⟩
    split
    · exact ⟨[newline], .inr rfl, rfl⟩
    · exact ⟨[], .inl rfl, rfl⟩

/-- Where all tokens are found and nothing else is, all that was written is whole. The induction is on
the tokens; `before` is the text that has been read. -/
theorem reproducible_of_found {tokens : List Token} (hw : ∀ t ∈ tokens, t.WellFormed withGettext)
    {text before : Bytes} {first pair : Delimiters} {atLineStart : Bool}
    (htext : text = before ++ write pair (plan pair atLineStart tokens))
    (hfault : ∀ s ∈ segments withGettext first 0 text, s.fault? = none)
    (hfound : ∀ p ∈ tokens.zip (tokenSegments pair atLineStart before.length tokens),
      Found withGettext (segments withGettext first 0 text) p.1 p.2)
    (hnone : ∀ s ∈ segments withGettext first 0 text, before.length ≤ s.extent.start →
      lasts s = true → ∃ place ∈ tokenSegments pair atLineStart before.length tokens,
        place.extent.start = s.extent.start)
    (hstart : tokens ≠ [] → ∃ s ∈ segments withGettext first 0 text,
      s.extent.start = before.length ∧ s.pair = pair) :
    (∀ t ∈ tokens, t.isTag = true → t.TagWhole) ∧
      (pair :: tokens.map Token.pair).IsChain ChangeWhole ∧ tokens.IsChain Token.Apart := by
  induction tokens generalizing before pair atLineStart with
  | nil => exact ⟨by simp, .singleton _, .nil⟩
  | cons t rest ih =>
    have hwt := hw t List.mem_cons_self
    have hwr : ∀ u ∈ rest, u.WellFormed withGettext := fun u hu => hw u (List.mem_cons_of_mem _ hu)
    -- the text in front of the token, and the token
    obtain ⟨front, hfront⟩ : ∃ front, front = before ++ write pair (lead pair atLineStart t rest) :=
      ⟨_, rfl⟩
    have hflen : before.length + (write pair (lead pair atLineStart t rest)).length =
        front.length := by rw [hfront, List.length_append]
    have htext' : text = front ++ (t.item.render t.pair ++
        write t.pair (plan t.pair t.endsLine rest)) := by
      rw [htext, plan, write_append, pairAfterAll_lead, write, Token.pairAfter_item, hfront,
        List.append_assoc]
    have hnext : front.length + (t.item.render t.pair).length =
        (front ++ t.item.render t.pair).length := by rw [List.length_append]
    simp only [tokenSegments, hflen, hnext] at hfound hnone
    obtain ⟨s, hs, hsstart, hsstop, hrender, hspair, hread, htag, hrun⟩ := read_of_found htext'
      (hfound _ List.mem_cons_self)
    have hrlen := List.length_pos_iff.mpr hrender
    have htext_rest : text = front ++ t.item.render t.pair ++
        write t.pair (plan t.pair t.endsLine rest) := by
      rw [List.append_assoc]
      exact htext'
    have hfound_rest := fun p hp => hfound p (List.mem_cons_of_mem _ hp)
    -- the hypotheses for the tokens that are left
    have hnone_rest : ∀ u ∈ segments withGettext first 0 text,
        (front ++ t.item.render t.pair).length ≤ u.extent.start → lasts u = true →
        ∃ place ∈ tokenSegments t.pair t.endsLine (front ++ t.item.render t.pair).length rest,
          place.extent.start = u.extent.start := by
      intro u hu hle hlast
      obtain ⟨place, hplace, hps⟩ := hnone u hu (by omega) hlast
      rcases List.mem_cons.mp hplace with rfl | hplace
      · simp only [Item.segment] at hps
        omega
      · exact ⟨place, hplace, hps⟩
    have hstart_rest : rest ≠ [] → ∃ u ∈ segments withGettext first 0 text,
        u.extent.start = (front ++ t.item.render t.pair).length ∧ u.pair = t.pair := by
      intro hne
      -- the next token is found, so the text goes on
      have hlt : s.extent.stop < 0 + text.length := by
        obtain ⟨u, others, rfl⟩ := List.exists_cons_of_ne_nil hne
        obtain ⟨v, hv, hvext, -⟩ := hfound_rest _ List.mem_cons_self
        have hext := extent_of_mem_segments hv
        have hge : (front ++ t.item.render t.pair).length ≤ v.extent.start := by
          rw [hvext]
          exact Nat.le_add_right _ _
        omega
      obtain ⟨u, hu, hustart, hupair⟩ := exists_mem_segments_next s hs hlt
      exact ⟨u, hu, by rw [hustart, hsstop, hnext], hupair.trans hspair⟩
    obtain ⟨htags, hchanges, hruns⟩ := ih hwr htext_rest hfound_rest hnone_rest hstart_rest
    refine ⟨?_, List.isChain_cons_cons.mpr ⟨?_, hchanges⟩, List.isChain_cons.mpr ⟨?_, hruns⟩⟩
    · intro u hu hut
      rcases List.mem_cons.mp hu with rfl | hu
      · obtain ⟨kind, body, closeAt, hp⟩ := htag hut
        rw [hp] at hread
        exact tagWhole_of_read hwt hut hread
      · exact htags u hu hut
    · -- the change in front of the token
      rcases cases_write_lead pair atLineStart t rest with ⟨hp, -⟩ | ⟨-, nl, hnl, hlead⟩
      · exact fun hne => absurd hp hne
      · rw [hlead] at hflen hfront
        have htext_change : text = before ++ ((Item.change t.pair).render pair ++ nl ++
            (t.item.render t.pair ++ write t.pair (plan t.pair t.endsLine rest))) := by
          rw [htext', hfront, List.append_assoc]
        refine changeWhole_of_read htext_change hnl hfault ?_ (hstart (by simp))
          ⟨s, hs, hsstart.trans hflen.symm⟩
        -- all tokens are found after the change
        intro u hu hle hlt
        rw [← Bool.not_eq_true]
        intro hlast
        obtain ⟨place, hplace, hps⟩ := hnone u hu hle hlast
        rcases List.mem_cons.mp hplace with rfl | hplace
        · simp only [Item.segment] at hps
          omega
        · have hge := le_start_of_mem_tokenSegments place hplace
          omega
    · -- the token after it, if nothing is written in between
      intro u hu
      by_contra hnot
      have hup : u.pair = t.pair := (Classical.not_not.mp hnot).2.2
      obtain ⟨others, rfl⟩ := List.head?_eq_some_iff.mp hu
      have hlead : lead t.pair t.endsLine u others = [] := by simp [lead, hup]
      have htext_u : text = front ++ (t.item.render t.pair ++ (u.item.render u.pair ++
          write u.pair (plan u.pair u.endsLine others))) := by
        rw [htext', plan, hlead, List.nil_append, write, Token.pairAfter_item, hup]
      have hfound_u := hfound_rest _ List.mem_cons_self
      simp only [hlead, write, List.length_nil, Nat.add_zero] at hfound_u
      exact hnot (apart_of_found htext_u (hfound _ List.mem_cons_self) hfound_u)

end TemplateLexer.Rebuild
