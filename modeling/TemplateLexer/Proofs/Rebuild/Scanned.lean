import TemplateLexer.Proofs.Outline.Shape
import TemplateLexer.Proofs.Rebuild.Reread

/-!
# Tokens of a scan

The tokens of a scan that dropped no line can be written (`writable_of_not_standalone`): they have
the form that is asked for (`wellFormed_of_readAt`), a text ends in a backslash only where no open
delimiter follows (`not_open_of_getLast?`), and their lines are the lines of the outline
(`tokens_cutAfter`).
-/

namespace TemplateLexer.Rebuild

open Bytes Outline Scan

variable {withGettext : Bool}

/-! ## The form of what is read -/

theorem newline_not_mem_readRun (pair : Delimiters) (text : Bytes) :
    newline ∉ (readRun pair text).1 := by
  fun_induction readRun pair text with
  | case1 => simp
  | case2 text b rest h ih =>
    have hb : b ≠ newline := by
      rcases cases_textByte? h with ⟨-, ho⟩ | ⟨-, hn, -⟩
      · -- an escaped byte is the first one of a mark
        rintro rfl
        exact newline_not_mem_open pair (List.mem_of_mem_head? ho)
      · exact hn
    intro hm
    rcases List.mem_cons.mp hm with hm | hm
    · exact hb hm.symm
    · exact ih hm

/-- A kind that a sigil selects can be told from other tags. -/
theorem isEmittable_of_ofSigil {b : UInt8} {kind : Kind}
    (h : Kind.ofSigil withGettext b = some kind) (hd : kind ≠ .delimiterChange) :
    kind.isEmittable withGettext = true ∧ kind ≠ .escaped ∧ kind ≠ .ngettext := by
  obtain ⟨before, after, ht, -⟩ := List.lookup_eq_some_iff.mp h
  have hm : (b, kind) ∈ Kind.sigilTable withGettext := by simp [ht]
  have hall : ∀ on, ∀ entry ∈ Kind.sigilTable on, entry.2 ≠ .delimiterChange →
      entry.2.isEmittable on = true ∧ entry.2 ≠ .escaped ∧ entry.2 ≠ .ngettext := by decide
  exact hall withGettext _ hm hd

/-- The kind of a tag that is read is one that a sigil selects, or a plain interpolation. -/
theorem kind_of_readMark {pair : Delimiters} {pos closeAt : Nat} {text body rest : Bytes}
    {kind : Kind} (h : readMark withGettext pair pos text = (.tag kind body closeAt, rest)) :
    kind.isEmittable withGettext = true ∧ kind ≠ .ngettext := by
  unfold readMark at h
  dsimp only at h
  split at h
  · split at h <;> cases h
  · next sigil hne =>
    split at h
    · cases h
    · cases h
      cases hs : (text.drop pair.openMark.length).head?.bind (Kind.ofSigil withGettext) with
      | none => exact ⟨rfl, by simp⟩
      | some kind =>
        obtain ⟨b, -, hb⟩ := Option.bind_eq_some_iff.mp hs
        have hd : kind ≠ .delimiterChange := by
          rintro rfl
          exact hne hs
        obtain ⟨he, -, hn⟩ := isEmittable_of_ofSigil hb hd
        exact ⟨he, hn⟩

/-! ## Tags -/

theorem trim_dropBrace {name : Bytes} (h : trim name = name) :
    trim (Tag.dropBrace name) = Tag.dropBrace name := by
  unfold Tag.dropBrace
  split
  · exact trim_trim _
  · exact h

/-- What follows the keyword is trimmed and not empty. -/
theorem afterNgettext?_eq_some {body text : Bytes} (hb : trim body = body)
    (h : Tag.afterNgettext? body = some text) : trim text = text ∧ text ≠ [] := by
  unfold Tag.afterNgettext? at h
  split at h
  · next b rest hs =>
    split at h
    · cases h
      refine ⟨trim_trim _, ?_⟩
      -- the last byte of the body is not blank
      rw [afterStem?_eq_some_iff.mp hs] at hb
      have hlast := (trim_eq_self_iff.mp hb).2 ((b :: rest).getLast (by simp))
      refine trim_ne_nil (List.getLast_mem (by simp)) (hlast ?_)
      rw [Option.mem_def, List.getLast?_append, List.getLast?_eq_some_getLast (by simp)]
      rfl
    · cases h
  · cases h

/-- The kind and the text of a tag body. -/
theorem cases_classify (withGettext : Bool) (kind : Kind) (body : Bytes) :
    (Tag.classify withGettext kind body = (kind, trim body) ∧
      (kind = .escaped → withGettext = true → Tag.afterNgettext? (trim body) = none)) ∨
    (withGettext = true ∧ kind = .escaped ∧
      ∃ text, Tag.classify withGettext kind body = (.ngettext, text) ∧ trim text = text ∧
        text ≠ []) := by
  unfold Tag.classify
  dsimp only
  split
  · next hk =>
    cases hn : Tag.afterNgettext? (trim body) with
    | none => exact .inl ⟨rfl, fun _ _ => rfl⟩
    | some text => exact .inr ⟨hk.1, hk.2, text, rfl, afterNgettext?_eq_some (trim_trim body) hn⟩
  · next hk =>
    refine .inl ⟨rfl, ?_⟩
    intro he hg
    exact absurd ⟨hg, he⟩ hk

/-- Name and arguments of a trimmed text. -/
theorem withArgs_cutWord {text : Bytes} (h : trim text = text) :
    BlankFree (cutWord text).1 ∧ trim (cutWord text).2 = (cutWord text).2 ∧
      ((cutWord text).1 = [] → (cutWord text).2 = []) := by
  refine ⟨blankFree_cutWord text, trim_cutWord h, ?_⟩
  intro hn
  rw [cutWord_eq_nil h hn]
  rfl

theorem args_finish (pair : Delimiters) (kind : Kind) (stop : Nat) (t : Token) :
    (Tag.finish pair kind stop t).args = t.args := by
  unfold Tag.finish
  split
  · rfl
  · split <;> rfl

/-- Only a raw interpolation may lose a brace of its name. -/
theorem name_finish (pair : Delimiters) (kind : Kind) (stop : Nat) (t : Token) :
    (Tag.finish pair kind stop t).name = t.name ∨
      (kind = .unescaped ∧ (Tag.finish pair kind stop t).name = Tag.dropBrace t.name) := by
  unfold Tag.finish
  split
  · exact .inl rfl
  · split
    · next hk => exact .inr ⟨hk, rfl⟩
    · exact .inl rfl

/-- The token of a tag has the form of a tag. -/
theorem tagForm_token (pair : Delimiters) {kind : Kind} (body : Bytes) (start closeAt stop : Nat)
    (hk : kind.isEmittable withGettext = true) (hn : kind ≠ .ngettext) :
    (Tag.finish pair kind stop
      (Tag.token withGettext pair kind start closeAt body)).TagForm withGettext := by
  -- the kind and the trimmed text that the name and the arguments are cut from
  obtain ⟨read, text, hc, ht, hread⟩ : ∃ read text,
      Tag.classify withGettext kind body = (read, text) ∧ trim text = text ∧
        ((read = kind ∧ (kind = .escaped → withGettext = true → Tag.afterNgettext? text = none)) ∨
          (read = .ngettext ∧ kind = .escaped ∧ withGettext = true ∧ text ≠ [])) := by
    rcases cases_classify withGettext kind body with ⟨hc, hplain⟩ | ⟨hg, he, text, hc, ht, hne⟩
    · exact ⟨_, _, hc, trim_trim body, .inl ⟨rfl, hplain⟩⟩
    · exact ⟨_, _, hc, ht, .inr ⟨rfl, he, hg, hne⟩⟩
  have hkind : (Tag.token withGettext pair kind start closeAt body).kind = read := by
    simp [Tag.token, hc]
  have hargs : (Tag.token withGettext pair kind start closeAt body).args =
      (Tag.nameAndArgs read text).2 := by
    simp [Tag.token, hc]
  have hname : (Tag.token withGettext pair kind start closeAt body).name =
      (Tag.nameAndArgs read text).1 := by
    simp [Tag.token, hc]
  -- only a raw interpolation has its name changed after that
  have hsame : kind ≠ .unescaped → (Tag.finish pair kind stop
      (Tag.token withGettext pair kind start closeAt body)).name = (Tag.nameAndArgs read text).1 := by
    intro hu
    rcases name_finish pair kind stop (Tag.token withGettext pair kind start closeAt body) with
      h | ⟨hu', -⟩
    · rw [h, hname]
    · exact absurd hu' hu
  have hword := withArgs_cutWord ht
  have htrim : trim (Tag.nameAndArgs read text).1 = (Tag.nameAndArgs read text).1 := by
    unfold Tag.nameAndArgs
    split
    · exact trim_eq_self_of_blankFree hword.1
    · exact ht
  refine ⟨?_, ?_, ?_, ?_, ?_, ?_, ?_⟩
  · rw [kind_finish, hkind]
    rcases hread with ⟨rfl, -⟩ | ⟨rfl, -, hg, -⟩
    · exact hk
    · exact hg
  · rw [value_finish]
    rfl
  · rcases name_finish pair kind stop (Tag.token withGettext pair kind start closeAt body) with
      h | ⟨-, h⟩
    · rw [h, hname, htrim]
    · rw [h, hname, trim_dropBrace htrim]
  · intro ha
    rw [kind_finish, hkind] at ha
    -- a raw interpolation takes no arguments
    have hu : kind ≠ .unescaped := by
      rintro rfl
      rcases hread with ⟨rfl, -⟩ | ⟨-, he, -⟩
      · cases ha
      · cases he
    refine ⟨(cutWord text).2, ?_, ?_⟩
    · rw [Option.mem_def, args_finish, hargs, Tag.nameAndArgs, if_pos ha]
    · rw [hsame hu, Tag.nameAndArgs, if_pos ha]
      exact hword
  · intro ha
    rw [kind_finish, hkind] at ha
    rw [args_finish, hargs, Tag.nameAndArgs, if_neg (by simp [ha])]
  · intro hp
    rw [kind_finish, hkind] at hp
    rcases hread with ⟨rfl, -⟩ | ⟨rfl, he, -, hne⟩
    · exact absurd hp hn
    · rw [hsame (by simp [he])]
      exact fun hnil => hne (cutWord_eq_nil ht hnil)
  · intro he hg
    rw [kind_finish, hkind] at he
    rcases hread with ⟨rfl, hplain⟩ | ⟨rfl, -⟩
    · rw [hsame (by simp [he]), he]
      exact hplain he hg
    · cases he

/-! ## Every token of a segment -/

theorem hasMarks_of_pair {t : Token} (pair : Delimiters) (ho : t.openMark = pair.openMark)
    (hc : t.closeMark = pair.closeMark) : t.HasMarks ∧ t.pair = pair := by
  have hm : t.HasMarks := by
    unfold Token.HasMarks
    rw [ho, hc]
    exact ⟨pair.open_ne_nil, pair.close_ne_nil, pair.open_blankFree, pair.close_blankFree⟩
  exact ⟨hm, Delimiters.eq_of_marks (hm.openMark_pair.trans ho) (hm.closeMark_pair.trans hc)⟩

/-- The token of a segment has the marks of its pair, starts where it starts and has no indent. -/
theorem marks_of_token? {s : Segment} {t : Token} (ht : s.token? withGettext = some t) :
    t.HasMarks ∧ t.pair = s.pair ∧ t.indent = none ∧ t.extent.start = s.extent.start := by
  have hmarks : t.openMark = s.pair.openMark ∧ t.closeMark = s.pair.closeMark ∧
      t.indent = none ∧ t.extent.start = s.extent.start := by
    rcases Segment.cases_token? ht with ⟨run, -, rfl⟩ | ⟨-, rfl⟩ | ⟨kind, body, closeAt, -, rfl⟩
    · exact ⟨rfl, rfl, rfl, rfl⟩
    · exact ⟨rfl, rfl, rfl, rfl⟩
    · unfold Tag.finish
      split
      · exact ⟨rfl, rfl, rfl, rfl⟩
      · split <;> exact ⟨rfl, rfl, rfl, rfl⟩
  obtain ⟨ho, hc, hi, hs⟩ := hmarks
  obtain ⟨hm, hp⟩ := hasMarks_of_pair s.pair ho hc
  exact ⟨hm, hp, hi, hs⟩

/-- What is read as a run has no newline, and what is read as a tag has a kind that tags have. -/
theorem cases_of_readAt {pos : Nat} {text : Bytes} {s : Segment} (h : ReadAt withGettext pos text s) :
    (∀ run, s.piece = .run run → run ≠ [] ∧ newline ∉ run) ∧
      ∀ kind body closeAt, s.piece = .tag kind body closeAt →
        kind.isEmittable withGettext = true ∧ kind ≠ .ngettext := by
  obtain ⟨before, taken, rest, -, hne, -, hr⟩ := h
  rcases cases_readPiece (by simp [hne]) hr with ⟨run, hrun, hread, hp⟩ | ⟨-, hp⟩ | ⟨-, -, hmark⟩
  · have hnl := newline_not_mem_readRun s.pair (taken ++ rest)
    rw [hread] at hnl
    rw [hp]
    refine ⟨?_, by simp⟩
    rintro run' ⟨⟩
    exact ⟨hrun, hnl⟩
  · rw [hp]
    exact ⟨by simp, by simp⟩
  · constructor
    · intro run hp
      exact absurd hp ((ne_run_of_readMark hmark).1 run)
    · intro kind body closeAt hp
      rw [hp] at hmark
      exact kind_of_readMark hmark

/-- The token of what is read has the form that can be written. -/
theorem wellFormed_of_readAt {pos : Nat} {text : Bytes} {s : Segment} {t : Token}
    (hs : ReadAt withGettext pos text s) (ht : s.token? withGettext = some t) :
    t.WellFormed withGettext := by
  obtain ⟨hmarks, -, hindent, -⟩ := marks_of_token? ht
  obtain ⟨hrun, htag⟩ := cases_of_readAt hs
  suffices hforms : (t.isText = true → t.TextForm) ∧ (t.isTag = true → t.TagForm withGettext) from
    ⟨hmarks, hindent, hforms.1, hforms.2⟩
  rcases Segment.cases_token? ht with ⟨run, hp, rfl⟩ | ⟨-, rfl⟩ | ⟨kind, body, closeAt, hp, rfl⟩
  · refine ⟨fun _ => ⟨rfl, rfl, .inr (hrun run hp)⟩, ?_⟩
    rintro ⟨⟩
  · refine ⟨fun _ => ⟨rfl, rfl, .inl rfl⟩, ?_⟩
    rintro ⟨⟩
  · obtain ⟨hk, hn⟩ := htag kind body closeAt hp
    have hform := tagForm_token s.pair body s.extent.start closeAt s.extent.stop hk hn
    refine ⟨?_, fun _ => hform⟩
    intro htext
    exact absurd (by simpa [Token.isText] using htext) hform.kind_ne_text

/-- A token is a tag, a newline or visible exactly if its segment is. -/
theorem token?_eq {pos : Nat} {text : Bytes} {s : Segment} {t : Token}
    (hs : ReadAt withGettext pos text s) (ht : s.token? withGettext = some t) :
    t.isTag = s.isMark ∧ t.endsLine = s.isLineEnd ∧ t.shows = !s.isQuiet withGettext := by
  obtain ⟨hrun, htag⟩ := cases_of_readAt hs
  rcases Segment.cases_token? ht with ⟨run, hp, rfl⟩ | ⟨hp, rfl⟩ | ⟨kind, body, closeAt, hp, rfl⟩
  · have hv : run ≠ [newline] := by
      rintro rfl
      exact (hrun _ hp).2 List.mem_cons_self
    simp [Token.isTag, Token.endsLine, Token.shows, Token.isText, Segment.textToken, Segment.isMark,
      Segment.isRun, Segment.isLineEnd, Segment.isQuiet, hp, hv]
  · have hb : allBlank [newline] = true := by decide
    simp [Token.isTag, Token.endsLine, Token.shows, Token.isText, Segment.textToken, Segment.isMark,
      Segment.isLineEnd, Segment.isQuiet, hp, hb]
  · obtain ⟨hk, hn⟩ := htag kind body closeAt hp
    have hform := tagForm_token s.pair body s.extent.start closeAt s.extent.stop hk hn
    have hkind := hform.kind_ne_text
    simp only [Token.isTag, Token.endsLine, Token.shows, Token.isText, hkind, Segment.isMark,
      Segment.isRun, Segment.isLineEnd, Segment.isQuiet, hp]
    simp [Tag.token]

/-! ## Backslashes at the end of a text -/

/-- A text that ends in a backslash of its own does not stand in front of an open delimiter: the
backslash would have been taken for an escape. -/
theorem not_open_of_getLast? {pair : Delimiters} {text : Bytes}
    (hb : (readRun pair text).1.getLast? = some backslash)
    (ho : pair.openMark.head? ≠ some backslash) : ¬ pair.openMark <+: (readRun pair text).2 := by
  fun_induction readRun pair text with
  | case1 => simp at hb
  | case2 text b rest h ih =>
    by_cases hr : (readRun pair rest).1 = []
    · -- the backslash is the last byte that is read
      have hb' : b = backslash := by simpa [hr] using hb
      have hrest : (readRun pair rest).2 = rest := by
        cases ht : textByte? pair rest with
        | none => rw [readRun_of_none ht]
        | some p => exact absurd hr (readRun_ne_nil ht)
      rw [hrest]
      rintro ⟨tail, htail⟩
      obtain ⟨c, mark, hm⟩ := List.exists_cons_of_ne_nil pair.open_ne_nil
      rcases cases_textByte? h with ⟨-, hc⟩ | ⟨rfl, -, he, -⟩
      · exact ho (hb' ▸ hc)
      · rw [← htail, hb', hm] at he
        simp [escapedByte?, hm] at he
    · apply ih
      rw [List.getLast?_cons_of_ne_nil hr] at hb
      exact hb

/-- The tokens of a text keep their backslashes away from open delimiters. -/
theorem keepsMark_segments (pair : Delimiters) (pos : Nat) (text : Bytes) :
    ((segments withGettext pair pos text).filterMap
      (Segment.token? withGettext)).IsChain Token.KeepsMark := by
  refine segments_induction (motive := fun _ _ _ segs =>
    (segs.filterMap (Segment.token? withGettext)).IsChain Token.KeepsMark) ?_ ?_ pair pos text
  · intro pair pos
    exact .nil
  · intro pair pos taken rest piece hne hr first ih
    rw [List.filterMap_cons]
    split
    · exact ih
    · next t ht =>
      refine List.isChain_cons.mpr ⟨?_, ih⟩
      intro u hu htext hlast hopen
      obtain ⟨hmarks, hpair, -⟩ := marks_of_token? ht
      have hp : t.pair = pair := hpair
      rw [← hmarks.openMark_pair, hp] at hopen
      rcases cases_readPiece (by simp [hne]) hr with ⟨run, -, hread, hrun⟩ | ⟨-, hend⟩ | ⟨-, -, hmark⟩
      · -- a run is followed by a newline or by nothing
        have hvalue : t.value = run := by
          simp only [first, Segment.token?, hrun, Option.some.injEq] at ht
          subst ht
          rfl
        have hafter : first.pairAfter = pair := by simp [first, Segment.pairAfter, hrun]
        have hnone := textByte?_readRun pair (taken ++ rest)
        have hnot : ¬ pair.openMark <+: (readRun pair (taken ++ rest)).2 :=
          not_open_of_getLast? (by rw [hread, ← hvalue, hlast]) hopen
        rw [hread] at hnone hnot
        rw [hafter] at hu
        rcases cases_of_textByte?_eq_none hnone with rfl | ⟨tail, rfl⟩ | ⟨ho, -⟩
        · simp at hu
        · rw [segments_newline] at hu
          simp only [List.filterMap_cons, Segment.token?, List.head?_cons, Option.mem_def,
            Option.some.injEq] at hu
          subst hu
          exact ⟨rfl, (hasMarks_of_pair pair rfl rfl).2.trans hp.symm⟩
        · exact absurd ho hnot
      · -- a newline is no backslash
        simp only [first, Segment.token?, hend, Option.some.injEq] at ht
        subst ht
        cases hlast
      · -- a tag is no text
        have hs : ReadAt withGettext pos (taken ++ rest) first := ⟨[], taken, rest, rfl, hne, rfl, hr⟩
        have htag := (token?_eq hs ht).1
        have hm : first.isMark = true := by
          cases hp : piece with
          | run run => exact absurd hp ((ne_run_of_readMark hmark).1 run)
          | lineEnd => exact absurd hp (ne_run_of_readMark hmark).2
          | _ => simp [Segment.isMark, Segment.isRun, Segment.isLineEnd, first, hp]
        rw [hm] at htag
        simp [Token.isTag, htext] at htag

/-! ## Lines of tokens are lines of segments -/

/-- Where every line but the first has tokens, the lines of the tokens are those of the segments. -/
theorem cutAfter_filterMap {segs : List Segment}
    (htok : ∀ s ∈ segs, ∀ t, s.token? withGettext = some t → t.endsLine = s.isLineEnd)
    (hne : ∀ line ∈ (lines segs).tail, line.filterMap (Segment.token? withGettext) ≠ []) :
    (cutAfter Token.endsLine (segs.filterMap (Segment.token? withGettext))).headD [] =
        ((lines segs).headD []).filterMap (Segment.token? withGettext) ∧
      (cutAfter Token.endsLine (segs.filterMap (Segment.token? withGettext))).tail =
        (lines segs).tail.map fun line => line.filterMap (Segment.token? withGettext) := by
  induction segs with
  | nil => exact ⟨rfl, rfl⟩
  | cons s rest ih =>
    have htok' := fun u hu => htok u (List.mem_cons_of_mem _ hu)
    have hs := htok s List.mem_cons_self
    cases hend : s.isLineEnd with
    | true =>
      -- the newline is a token of its own and ends the line of tokens, too
      have hl : lines (s :: rest) = [s] :: lines rest := by simp [lines, cutAfter, hend]
      rw [hl] at hne ⊢
      simp only [List.tail_cons, List.headD_cons] at hne ⊢
      obtain ⟨hhead, htail⟩ := ih htok' fun line hline => hne line (List.mem_of_mem_tail hline)
      obtain ⟨t, ht⟩ : ∃ t, s.token? withGettext = some t := by
        cases hp : s.piece with
        | lineEnd => exact ⟨s.textToken [newline], by simp [Segment.token?, hp]⟩
        | _ => simp [Segment.isLineEnd, hp] at hend
      have hcut : cutAfter Token.endsLine ((s :: rest).filterMap (Segment.token? withGettext)) =
          [t] :: cutAfter Token.endsLine (rest.filterMap (Segment.token? withGettext)) := by
        simp [ht, cutAfter, hs t ht, hend]
      rw [hcut]
      refine ⟨by simp [ht], ?_⟩
      -- the lines after this one all have tokens
      cases hr : lines rest with
      | nil =>
        have hrest : rest = [] := by
          have h := flatten_cutAfter Segment.isLineEnd rest
          rw [← lines, hr] at h
          exact h.symm
        simp [hrest, cutAfter]
      | cons line others =>
        rw [hr] at hhead htail
        have hline := hne line (by simp [hr])
        cases hc : cutAfter Token.endsLine (rest.filterMap (Segment.token? withGettext)) with
        | nil =>
          rw [hc] at hhead
          exact absurd hhead.symm hline
        | cons l ls =>
          rw [hc] at hhead htail
          simp only [List.headD_cons, List.tail_cons] at hhead htail
          simp [hhead, htail]
    | false =>
      -- the segment joins the first line, with a token or without
      have hl : lines (s :: rest) = (s :: (lines rest).headD []) :: (lines rest).tail :=
        cutAfter_cons_of_not hend
      rw [hl] at hne ⊢
      simp only [List.tail_cons, List.headD_cons] at hne ⊢
      obtain ⟨hhead, htail⟩ := ih htok' hne
      cases ht : s.token? withGettext with
      | none =>
        simp only [List.filterMap_cons, ht]
        exact ⟨hhead, htail⟩
      | some t =>
        have ht' : t.endsLine = false := (hs t ht).trans hend
        rw [List.filterMap_cons, ht]
        simp only [cutAfter_cons_of_not ht', List.headD_cons, List.tail_cons, List.filterMap_cons, ht]
        exact ⟨congrArg _ hhead, htail⟩

/-- Segments without marks are under one pair. -/
theorem same_pair_of_isChain {line : List Segment}
    (hchain : line.IsChain fun s t => t.pair = s.pairAfter) (hm : ∀ s ∈ line, s.isMark = false) :
    ∀ s ∈ line, ∀ t ∈ line, s.pair = t.pair := by
  induction line with
  | nil =>
    intro s hs
    cases hs
  | cons a rest ih =>
    have hrec := ih (List.isChain_of_isChain_cons hchain)
      fun s hs => hm s (List.mem_cons_of_mem _ hs)
    -- only a mark puts another pair in force
    have hafter : a.pairAfter = a.pair := by
      have ha := hm a List.mem_cons_self
      unfold Segment.pairAfter
      split
      · next hp => simp [Segment.isMark, Segment.isRun, Segment.isLineEnd, hp] at ha
      · rfl
    have hall : ∀ t ∈ rest, a.pair = t.pair := by
      cases rest with
      | nil =>
        intro t ht
        cases ht
      | cons b rest =>
        have hb : b.pair = a.pairAfter := (List.isChain_cons_cons.mp hchain).1
        intro t ht
        rw [← hafter, ← hb]
        exact hrec b List.mem_cons_self t ht
    intro s hs t ht
    rcases List.mem_cons.mp hs with rfl | hs' <;> rcases List.mem_cons.mp ht with rfl | ht'
    · rfl
    · exact hall t ht'
    · exact (hall s hs').symm
    · exact hrec s hs' t ht'

/-- A line that is not standalone has tokens, and they hold. -/
theorem lineHolds_of_not_standalone {pos : Nat} {text : Bytes} {line : List Segment}
    (hread : ∀ s ∈ line, ReadAt withGettext pos text s)
    (hchain : line.IsChain fun s t => t.pair = s.pairAfter) (hne : line ≠ [])
    (hs : isStandalone withGettext line = false) :
    line.filterMap (Segment.token? withGettext) ≠ [] ∧
      LineHolds (line.filterMap (Segment.token? withGettext)) := by
  -- a line is not standalone for one of two reasons
  have hor : (∃ s ∈ line, s.isQuiet withGettext = false) ∨ ∀ s ∈ line, s.isMark = false := by
    by_cases hm : ∃ s ∈ line, s.isMark = true
    · refine .inl ?_
      by_contra hq
      have hall : isStandalone withGettext line = true := by
        simp only [isStandalone, Bool.and_eq_true, List.any_eq_true, List.all_eq_true]
        refine ⟨hm, ?_⟩
        intro s hmem
        by_contra hloud
        exact hq ⟨s, hmem, by simpa using hloud⟩
      rw [hs] at hall
      cases hall
    · refine .inr ?_
      intro s hmem
      rw [← Bool.not_eq_true]
      exact fun h => hm ⟨s, hmem, h⟩
  rcases hor with ⟨s, hmem, hq⟩ | hm
  · -- something shows, and it has a token
    obtain ⟨t, ht⟩ : ∃ t, s.token? withGettext = some t := by
      cases hp : s.piece with
      | run run => exact ⟨s.textToken run, by simp [Segment.token?, hp]⟩
      | tag kind body closeAt =>
        exact ⟨Tag.finish s.pair kind s.extent.stop
          (Tag.token withGettext s.pair kind s.extent.start closeAt body),
          by simp [Segment.token?, hp]⟩
      | _ => simp [Segment.isQuiet, hp] at hq
    have hmem' : t ∈ line.filterMap (Segment.token? withGettext) :=
      List.mem_filterMap.mpr ⟨s, hmem, ht⟩
    refine ⟨List.ne_nil_of_mem hmem', .inl ⟨t, hmem', ?_⟩⟩
    rw [(token?_eq (hread s hmem) ht).2.2, hq]
    rfl
  · -- all is text, and no change lies between
    have hsame := same_pair_of_isChain hchain hm
    have htexts : ∀ t ∈ line.filterMap (Segment.token? withGettext), t.isText = true ∧
        ∃ s ∈ line, t.pair = s.pair := by
      intro t ht
      obtain ⟨s, hmem, hst⟩ := List.mem_filterMap.mp ht
      have htag := (token?_eq (hread s hmem) hst).1
      rw [hm s hmem] at htag
      exact ⟨by simpa [Token.isTag] using htag, s, hmem, (marks_of_token? hst).2.1⟩
    refine ⟨?_, .inr (.inl ?_)⟩
    · obtain ⟨s, others, rfl⟩ := List.exists_cons_of_ne_nil hne
      have hs' := hm s List.mem_cons_self
      cases hp : s.piece with
      | run run => simp [Segment.token?, hp]
      | lineEnd => simp [Segment.token?, hp]
      | _ => simp [Segment.isMark, Segment.isRun, Segment.isLineEnd, hp] at hs'
    · intro t ht
      obtain ⟨htext, s, hmem, hpair⟩ := htexts t ht
      refine ⟨htext, ?_⟩
      intro u hu
      obtain ⟨-, s', hmem', hpair'⟩ := htexts u hu
      rw [hpair, hpair', hsame s hmem s' hmem']

/-! ## Tokens of a scan can be written -/

section scanned

variable {text : Bytes} {given : Option Bytes}
  (hs : ∀ line ∈ lines (outline withGettext text given), isStandalone withGettext line = false)

include hs

/-- Where no line is standalone, every segment with a token gives it. -/
theorem tokens_of_not_standalone :
    tokens withGettext text given =
      (outline withGettext text given).filterMap (Segment.token? withGettext) := by
  have hline : ∀ line ∈ lines (outline withGettext text given),
      lineTokens withGettext line = line.filterMap (Segment.token? withGettext) := by
    intro line hmem
    simp [lineTokens, hs line hmem]
  calc tokens withGettext text given
      = (lines (outline withGettext text given)).flatMap fun line =>
          line.filterMap (Segment.token? withGettext) := List.flatMap_congr hline
    _ = (lines (outline withGettext text given)).flatten.filterMap
          (Segment.token? withGettext) := by
        rw [List.filterMap_flatten, List.flatMap_def]
    _ = (outline withGettext text given).filterMap (Segment.token? withGettext) := by
        rw [lines, flatten_cutAfter]

theorem writable_of_not_standalone : Writable withGettext (tokens withGettext text given) := by
  have hread : ∀ s ∈ outline withGettext text given, ReadAt withGettext 0 text s :=
    readAt_of_mem_segments
  have hpart : ∀ line ∈ lines (outline withGettext text given),
      line <:+: outline withGettext text given := by
    intro line hmem
    have h := List.infix_of_mem_flatten hmem
    rwa [lines, flatten_cutAfter] at h
  have hholds : ∀ line ∈ lines (outline withGettext text given),
      line.filterMap (Segment.token? withGettext) ≠ [] ∧
        LineHolds (line.filterMap (Segment.token? withGettext)) := by
    intro line hmem
    have hchain := List.IsChain.infix isChain_segments (hpart line hmem)
    exact lineHolds_of_not_standalone (fun s hsm => hread s ((hpart line hmem).subset hsm)) hchain
      (ne_nil_of_mem_cutAfter hmem) (hs line hmem)
  rw [tokens_of_not_standalone hs]
  refine ⟨?_, keepsMark_segments _ _ _, ?_⟩
  · intro t ht
    obtain ⟨s, hmem, hst⟩ := List.mem_filterMap.mp ht
    exact wellFormed_of_readAt (hread s hmem) hst
  · obtain ⟨hhead, htail⟩ := cutAfter_filterMap
      (fun s hmem t hst => (token?_eq (hread s hmem) hst).2.1)
      fun line hmem => (hholds line (List.mem_of_mem_tail hmem)).1
    intro l hl
    have hne := ne_nil_of_mem_cutAfter hl
    -- the first line of the tokens is that of the segments, and so are the others
    cases hc : cutAfter Token.endsLine
        ((outline withGettext text given).filterMap (Segment.token? withGettext)) with
    | nil =>
      rw [hc] at hl
      cases hl
    | cons first others =>
      rw [hc] at hl hhead htail
      rcases List.mem_cons.mp hl with rfl | hl
      · cases hlines : lines (outline withGettext text given) with
        | nil =>
          rw [hlines] at hhead
          exact absurd hhead hne
        | cons line more =>
          rw [hlines] at hhead
          rw [show l = line.filterMap (Segment.token? withGettext) from hhead]
          exact (hholds line (by simp [hlines])).2
      · have hl' : l ∈ (first :: others).tail := hl
        rw [htail] at hl'
        obtain ⟨line, hmem, rfl⟩ := List.mem_map.mp hl'
        exact (hholds line (List.mem_of_mem_tail hmem)).2

end scanned

end TemplateLexer.Rebuild
