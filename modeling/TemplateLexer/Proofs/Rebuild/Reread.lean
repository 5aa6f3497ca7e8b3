import Mathlib.Data.List.Chain
import TemplateLexer.Proofs.Outline.Refinement
import TemplateLexer.Proofs.Rebuild.Tokens

/-!
# Scanning the text of tokens

When does scanning the text that is rebuilt from tokens give the tokens back? Two kinds of conditions
are told apart.

* `Writable`: the tokens have the form that a scan gives them, no text ends in a backslash that would
  escape what is written next, and no line of them becomes standalone. Tokens of a scan that dropped
  no line are like this.
* `Reproducible`: nothing that is written ends early, and no two runs of text are written side by
  side. This has to be asked for even of the tokens of a scan.

Together they suffice (`readBack_of_reproducible`): the plan is readable (`readable_plan`), and of the
lines that are read only those are standalone that were put in front of a blank line
(`tokens_layout`).
-/

namespace TemplateLexer

open Bytes Outline Scan

namespace Token

/-- Does the token leave something visible on its line? -/
def shows (t : Token) : Bool := if t.isText then !allBlank t.value else t.kind.isInterpolating

/-- Is the token a text that is no newline? -/
def isRun (t : Token) : Bool := t.isText && !t.endsLine

theorem isRun_iff {t : Token} : t.isRun = true ↔ t.isText = true ∧ t.value ≠ [newline] := by
  cases h : t.isText <;> simp [isRun, endsLine, h]

/-- What is written for the tag is read as one tag: it is not escaped, and its close delimiter does
not occur before its end. -/
def TagWhole (t : Token) : Prop :=
  escapedByte? t.pair t.renderTag = none ∧
    find? t.closeMark (t.body ++ t.closeMark) = some t.body.length

/-- Two texts that are written side by side are kept apart by a newline or a delimiter change. -/
def Apart (t u : Token) : Prop := ¬ (t.isRun = true ∧ u.isRun = true ∧ u.pair = t.pair)

/-- A backslash at the end of a text does not stand in front of an open delimiter. -/
def KeepsMark (t u : Token) : Prop :=
  t.isText = true → t.value.getLast? = some backslash → t.openMark.head? ≠ some backslash →
    u.isText = true ∧ u.pair = t.pair

instance (t : Token) : Decidable t.TagWhole := by
  unfold TagWhole
  infer_instance

instance : DecidableRel Apart := fun t u => by
  unfold Apart
  infer_instance

instance : DecidableRel KeepsMark := fun t u => by
  unfold KeepsMark
  infer_instance

end Token

namespace Rebuild

open Token

/-- What is written for a change from one pair to another is read as one change. -/
def ChangeWhole (p q : Delimiters) : Prop :=
  q ≠ p → escapedByte? p ((Item.change q).render p) = none ∧
    find? p.changeMark (q.render ++ p.changeMark) = some q.render.length

instance : DecidableRel ChangeWhole := fun p q => by
  unfold ChangeWhole
  infer_instance

/-- Nothing that is written for the tokens ends early, and no two runs are written side by side. -/
structure Reproducible (tokens : List Token) : Prop where
  tags : ∀ t ∈ tokens, t.isTag = true → t.TagWhole
  changes : (.standard :: tokens.map Token.pair).IsChain ChangeWhole
  runs : tokens.IsChain Token.Apart

instance (tokens : List Token) : Decidable (Reproducible tokens) :=
  decidable_of_iff
    ((∀ t ∈ tokens, t.isTag = true → t.TagWhole) ∧
      (.standard :: tokens.map Token.pair).IsChain ChangeWhole ∧ tokens.IsChain Token.Apart)
    ⟨fun h => ⟨h.1, h.2.1, h.2.2⟩, fun h => ⟨h.tags, h.changes, h.runs⟩⟩

/-- The line does not lose its texts: something on it shows, or there is nothing but text under one
pair, or there is no text. -/
def LineHolds (line : List Token) : Prop :=
  (∃ t ∈ line, t.shows = true) ∨
    (∀ t ∈ line, t.isText = true ∧ ∀ u ∈ line, u.pair = t.pair) ∨
    ∀ t ∈ line, t.isTag = true

instance (line : List Token) : Decidable (LineHolds line) := by
  unfold LineHolds
  infer_instance

/-- The tokens have the form that a scan gives them, and it does not get lost. -/
structure Writable (withGettext : Bool) (tokens : List Token) : Prop where
  forms : ∀ t ∈ tokens, t.WellFormed withGettext
  backslashes : tokens.IsChain Token.KeepsMark
  lines : ∀ line ∈ cutAfter Token.endsLine tokens, LineHolds line

/-- A scan of the text that is rebuilt from the tokens has no faults and gives the tokens back, each
where it was written. -/
structure ReadBack (tokens : List Token) (reread : Outcome) : Prop where
  faults : reread.faults = []
  contents : reread.tokens.map Token.content = tokens.map Token.content
  places : reread.tokens.map Token.extent = places tokens

/-! ## The plan is readable -/

theorem head?_plan_cons (pair : Delimiters) (atLineStart : Bool) (t : Token) (rest : List Token) :
    (plan pair atLineStart (t :: rest)).head? =
      some (if t.pair = pair then t.item else .change t.pair) := by
  unfold plan lead
  split <;> rfl

/-- The change in front of a token is whole. -/
theorem readable_lead {withGettext : Bool} {pair : Delimiters} {t : Token} {items : List Item}
    (hc : ChangeWhole pair t.pair) (hr : Item.Readable withGettext t.pair items)
    (atLineStart : Bool) (rest : List Token) :
    Item.Readable withGettext pair (lead pair atLineStart t rest ++ items) := by
  unfold lead
  split
  · next hp =>
    rw [← hp]
    exact hr
  · next hp =>
    refine ⟨hc hp, ?_, ?_⟩
    · rintro text ⟨⟩
    · split
      · refine ⟨trivial, ?_, hr⟩
        rintro text ⟨⟩
      · exact hr

/-- What comes next may follow a text. -/
theorem mayFollow_plan {t u : Token} {rest : List Token} (ht : t.isText = true)
    (hv : t.value ≠ [newline]) (hm : t.HasMarks) (hk : t.KeepsMark u) (ha : t.Apart u) :
    ∀ next ∈ (plan t.pair t.endsLine (u :: rest)).head?,
      Item.MayFollow t.pair t.value next := by
  rw [head?_plan_cons]
  rintro next ⟨⟩
  constructor
  · split
    · next hp =>
      by_cases hu : u.isTag = true
      · rw [item_of_isTag hu]
        rfl
      · have hu' : u.isText = true := by simpa [isTag] using hu
        by_cases hn : u.value = [newline]
        · rw [item_of_endsLine (by simp [endsLine, hu', hn])]
          rfl
        · exact absurd ⟨by simp [Token.isRun, endsLine, ht, hv],
            by simp [Token.isRun, endsLine, hu', hn], hp⟩ ha
    · rfl
  · intro hb ho
    rw [hm.openMark_pair] at ho
    obtain ⟨hu, hp⟩ := hk ht hb ho
    rw [if_pos hp]
    unfold item
    rw [if_neg (by simp [isTag, hu])]
    split <;> rfl

/-- The item of a token is whole. -/
theorem whole_item {withGettext : Bool} {t : Token} (hw : t.WellFormed withGettext)
    (ht : t.isTag = true → t.TagWhole) : t.item.Whole withGettext t.pair := by
  by_cases htag : t.isTag = true
  · obtain ⟨he, hf⟩ := ht htag
    rw [item_of_isTag htag]
    refine ⟨(hw.tag htag).selects, ?_, ?_⟩
    · rw [render_tag hw.marks]
      exact he
    · rw [hw.marks.closeMark_pair]
      exact hf
  · have htext : t.isText = true := by simpa [isTag] using htag
    by_cases hv : t.value = [newline]
    · rw [item_of_endsLine (by simp [endsLine, htext, hv])]
      trivial
    · rw [item_of_run htext hv]
      exact (hw.text htext).oneLine.resolve_left hv

theorem readable_plan {withGettext : Bool} {tokens : List Token}
    (hw : ∀ t ∈ tokens, t.WellFormed withGettext) (hb : tokens.IsChain Token.KeepsMark)
    (ht : ∀ t ∈ tokens, t.isTag = true → t.TagWhole) (ha : tokens.IsChain Token.Apart)
    {pair : Delimiters} (hc : (pair :: tokens.map Token.pair).IsChain ChangeWhole)
    (atLineStart : Bool) : Item.Readable withGettext pair (plan pair atLineStart tokens) := by
  induction tokens generalizing pair atLineStart with
  | nil => trivial
  | cons t rest ih =>
    have hwt := hw t List.mem_cons_self
    obtain ⟨hct, hcr⟩ := List.isChain_cons_cons.mp hc
    have hrec := ih (fun u hu => hw u (List.mem_cons_of_mem _ hu)) (List.isChain_of_isChain_cons hb)
      (fun u hu => ht u (List.mem_cons_of_mem _ hu)) (List.isChain_of_isChain_cons ha) hcr t.endsLine
    apply readable_lead hct
    refine ⟨whole_item hwt (ht t List.mem_cons_self), ?_, ?_⟩
    · intro text hi
      cases rest with
      | nil =>
        rintro next ⟨⟩
      | cons u rest =>
        by_cases htag : t.isTag = true
        · rw [item_of_isTag htag] at hi
          cases hi
        · have htext : t.isText = true := by simpa [isTag] using htag
          by_cases hv : t.value = [newline]
          · rw [item_of_endsLine (by simp [endsLine, htext, hv])] at hi
            cases hi
          · rw [item_of_run htext hv] at hi
            cases hi
            exact mayFollow_plan htext hv hwt.marks (List.isChain_cons_cons.mp hb).1
              (List.isChain_cons_cons.mp ha).1
    · rw [pairAfter_item]
      exact hrec

/-! ## Lines of what is read

The segments of a token show what the token shows. -/

theorem isLineEnd_item (t : Token) (pos : Nat) :
    (t.item.segment t.pair pos).isLineEnd = t.endsLine := by
  by_cases htag : t.isTag = true
  · have htext : t.isText = false := by simpa [isTag] using htag
    rw [item_of_isTag htag]
    simp [Segment.isLineEnd, Item.segment, Item.piece, endsLine, htext]
  · have htext : t.isText = true := by simpa [isTag] using htag
    by_cases hv : t.value = [newline]
    · rw [item_of_endsLine (by simp [endsLine, htext, hv])]
      simp [Segment.isLineEnd, Item.segment, Item.piece, endsLine, htext, hv]
    · rw [item_of_run htext hv]
      simp [Segment.isLineEnd, Item.segment, Item.piece, endsLine, hv]

theorem isMark_item (t : Token) (pos : Nat) :
    (t.item.segment t.pair pos).isMark = t.isTag := by
  by_cases htag : t.isTag = true
  · rw [item_of_isTag htag, htag]
    rfl
  · have htext : t.isText = true := by simpa [isTag] using htag
    by_cases hv : t.value = [newline]
    · rw [item_of_endsLine (by simp [endsLine, htext, hv])]
      simp [Segment.isMark, Segment.isRun, Segment.isLineEnd, Item.segment, Item.piece, isTag, htext]
    · rw [item_of_run htext hv]
      simp [Segment.isMark, Segment.isRun, Segment.isLineEnd, Item.segment, Item.piece, isTag, htext]

theorem isQuiet_item {withGettext : Bool} {t : Token} (h : t.WellFormed withGettext) (pos : Nat) :
    (t.item.segment t.pair pos).isQuiet withGettext = !t.shows := by
  by_cases htag : t.isTag = true
  · have htext : t.isText = false := by simpa [isTag] using htag
    rw [item_of_isTag htag]
    simp [Segment.isQuiet, Item.segment, Item.piece, (h.tag htag).classify, shows, htext]
  · have htext : t.isText = true := by simpa [isTag] using htag
    by_cases hv : t.value = [newline]
    · have hb : allBlank [newline] = true := by decide
      rw [item_of_endsLine (by simp [endsLine, htext, hv])]
      simp [Segment.isQuiet, Item.segment, Item.piece, shows, htext, hv, hb]
    · rw [item_of_run htext hv]
      simp [Segment.isQuiet, Item.segment, Item.piece, shows, htext]

/-- Tags on their own keep as they are. -/
theorem keptTags_of_tags {tokens : List Token} (h : ∀ t ∈ tokens, t.isTag = true) :
    keptTags tokens = tokens := by
  rw [keptTags_eq_keepTags]
  induction tokens with
  | nil => rfl
  | cons t rest ih =>
    have ht : t.isText = false := by simpa [isTag] using h t List.mem_cons_self
    have hr := ih fun u hu => h u (List.mem_cons_of_mem _ hu)
    simp [Line.keepTags, ht, hr, Line.withIndent]

/-- The line that starts with the segments `line` under `pair` and goes on with the tokens `more` does
not lose its texts. -/
def Holds (withGettext : Bool) (line : List Segment) (pair : Delimiters) (more : List Token) :
    Prop :=
  ((∃ s ∈ line, s.isQuiet withGettext = false) ∨ ∃ t ∈ more, t.shows = true) ∨
    ((∀ s ∈ line, s.isMark = false) ∧
      ∃ q, (line ≠ [] → q = pair) ∧ ∀ t ∈ more, t.isText = true ∧ t.pair = q) ∨
    ((∀ s ∈ line, s.isMark = true ∧ ∀ u ∈ s.token? withGettext, u.isTag = true) ∧
      ∀ t ∈ more, t.isTag = true)

variable {withGettext : Bool}

theorem holds_of_lineHolds {more : List Token} (h : LineHolds more) (pair : Delimiters) :
    Holds withGettext [] pair more := by
  rcases h with hs | ht | ht
  · exact .inl (.inr hs)
  · refine .inr (.inl ⟨by simp, ?_⟩)
    cases more with
    | nil => exact ⟨pair, by simp, by simp⟩
    | cons t rest =>
      refine ⟨t.pair, by simp, ?_⟩
      intro u hu
      exact ⟨(ht u hu).1, (ht t List.mem_cons_self).2 u hu⟩
  · exact .inr (.inr ⟨by simp, ht⟩)

/-- At the start of a line it does not matter which pair is in force. -/
theorem Holds.of_nil {pair : Delimiters} {more : List Token} (h : Holds withGettext [] pair more)
    (other : Delimiters) : Holds withGettext [] other more := by
  rcases h with h | ⟨hline, q, -, hmore⟩ | h
  · exact .inl h
  · exact .inr (.inl ⟨hline, q, by simp, hmore⟩)
  · exact .inr (.inr h)

/-- A line that holds has all its tokens. -/
theorem lineTokens_of_holds {line : List Segment} {pair : Delimiters}
    (h : Holds withGettext line pair []) :
    lineTokens withGettext line = line.filterMap (Segment.token? withGettext) := by
  unfold lineTokens
  dsimp only
  split
  · next hs =>
    obtain ⟨hm, hq⟩ : (∃ s ∈ line, s.isMark = true) ∧ ∀ s ∈ line, s.isQuiet withGettext = true := by
      simpa [isStandalone] using hs
    -- a standalone line that holds has tags only
    rcases h with (⟨s, hmem, hloud⟩ | ⟨t, hmem, -⟩) | ⟨hnone, -⟩ | ⟨hall, -⟩
    · rw [hq s hmem] at hloud
      cases hloud
    · cases hmem
    · obtain ⟨s, hmem, hmark⟩ := hm
      rw [hnone s hmem] at hmark
      cases hmark
    · apply keptTags_of_tags
      intro t ht
      obtain ⟨s, hmem, htok⟩ := List.mem_filterMap.mp ht
      exact (hall s hmem).2 t htok
  · rfl

/-- A line holds as well with one of its tokens read. -/
theorem Holds.item {line : List Segment} {t : Token} {more : List Token}
    (h : Holds withGettext line t.pair (t :: more)) (hw : t.WellFormed withGettext) (pos : Nat) :
    Holds withGettext (line ++ [t.item.segment t.pair pos]) t.pair more := by
  rcases h with (⟨s, hmem, hs⟩ | ⟨u, hmem, hu⟩) | ⟨hline, q, -, hmore⟩ | ⟨hline, hmore⟩
  · exact .inl (.inl ⟨s, List.mem_append_left _ hmem, hs⟩)
  · rcases List.mem_cons.mp hmem with rfl | hmem
    · refine .inl (.inl ⟨_, List.mem_append_right _ List.mem_cons_self, ?_⟩)
      rw [isQuiet_item hw pos, hu]
      rfl
    · exact .inl (.inr ⟨u, hmem, hu⟩)
  · obtain ⟨ht, hq⟩ := hmore t List.mem_cons_self
    refine .inr (.inl ⟨?_, q, fun _ => hq.symm, fun u hu => hmore u (List.mem_cons_of_mem _ hu)⟩)
    intro s hs
    rcases List.mem_append.mp hs with hs | hs
    · exact hline s hs
    · rw [List.mem_singleton.mp hs, isMark_item t pos]
      simp [isTag, ht]
  · have ht := hmore t List.mem_cons_self
    refine .inr (.inr ⟨?_, fun u hu => hmore u (List.mem_cons_of_mem _ hu)⟩)
    intro s hs
    rcases List.mem_append.mp hs with hs | hs
    · exact hline s hs
    · rw [List.mem_singleton.mp hs, isMark_item t pos]
      refine ⟨ht, ?_⟩
      obtain ⟨v, hv, hcontent, -⟩ := exists_token?_item hw pos
      rintro u hu
      rw [hv] at hu
      cases hu
      have hkind : v.content.kind = t.content.kind := congrArg Token.kind hcontent
      simp only [content] at hkind
      simpa [isTag, isText, hkind] using ht

/-- A line without anything to show is blank. -/
theorem lineIsBlank_of_quiet {tokens : List Token}
    (h : ∀ t ∈ (cutAfter Token.endsLine tokens).headD [], t.isText = true ∧ t.shows = false) :
    lineIsBlank tokens = true := by
  induction tokens with
  | nil => rfl
  | cons t rest ih =>
    cases hend : t.endsLine with
    | true =>
      obtain ⟨ht, hv⟩ : t.isText = true ∧ t.value = [newline] := by simpa [endsLine] using hend
      simp [lineIsBlank, isTag, ht, hv]
    | false =>
      rw [cutAfter_cons_of_not hend] at h
      obtain ⟨ht, hs⟩ := h t List.mem_cons_self
      have hr := ih fun u hu => h u (List.mem_cons_of_mem _ hu)
      have hb : allBlank t.value = true := by simpa [shows, ht] using hs
      simp [lineIsBlank, isTag, ht, hb, hr]

/-- A change in front of a token does not make its line lose anything, as it has a line of its own
where the line is blank. -/
theorem Holds.change {line : List Segment} {pair : Delimiters} {t : Token} {rest more : List Token}
    (h : Holds withGettext line pair (t :: more))
    (hmore : (cutAfter Token.endsLine (t :: rest)).headD [] = t :: more) (hp : t.pair ≠ pair)
    (hblank : ¬ (line.isEmpty && lineIsBlank (t :: rest)) = true) (pos : Nat) :
    Holds withGettext (line ++ [(Item.change t.pair).segment pair pos]) t.pair (t :: more) := by
  rcases h with (⟨s, hmem, hs⟩ | hs) | ⟨-, q, hq, htext⟩ | ⟨hline, htag⟩
  · exact .inl (.inl ⟨s, List.mem_append_left _ hmem, hs⟩)
  · exact .inl (.inr hs)
  · obtain ⟨-, htq⟩ := htext t List.mem_cons_self
    by_cases hl : line = []
    · -- a line of text under one pair is visible, as the change was not kept off it
      by_cases hshow : ∃ u ∈ t :: more, u.shows = true
      · exact .inl (.inr hshow)
      · refine absurd ?_ hblank
        have hquiet : lineIsBlank (t :: rest) = true := by
          apply lineIsBlank_of_quiet
          rw [hmore]
          intro u hu
          refine ⟨(htext u hu).1, ?_⟩
          rw [← Bool.not_eq_true]
          exact fun hs => hshow ⟨u, hu, hs⟩
        simp [hl, hquiet]
    · -- within a line of text under one pair there is no change
      exact absurd (htq.trans (hq hl)) hp
  · refine .inr (.inr ⟨?_, htag⟩)
    intro s hs
    rcases List.mem_append.mp hs with hs | hs
    · exact hline s hs
    · rw [List.mem_singleton.mp hs]
      exact ⟨rfl, by rintro u ⟨⟩⟩

/-! ## The tokens that are read -/

/-- The tokens of a line with one more segment, from those of what follows. The segment is that of a
token, and the hypothesis `hrec` is what the tokens after it give. -/
theorem tokens_item {line : List Segment} {t : Token} {rest : List Token}
    (hw : t.WellFormed withGettext) (pos : Nat) (hopen : ∀ s ∈ line, s.isLineEnd = false)
    (hline : Holds withGettext line t.pair ((cutAfter Token.endsLine (t :: rest)).headD []))
    (hrest : ∀ l ∈ (cutAfter Token.endsLine (t :: rest)).tail, LineHolds l)
    (hrec : ∀ (line : List Segment) (pos : Nat), (∀ s ∈ line, s.isLineEnd = false) →
      t.endsLine = line.isEmpty →
      Holds withGettext line t.pair ((cutAfter Token.endsLine rest).headD []) →
      (∀ l ∈ (cutAfter Token.endsLine rest).tail, LineHolds l) →
      (lines (line ++ layout t.pair pos (plan t.pair t.endsLine rest))).flatMap
          (lineTokens withGettext) =
        line.filterMap (Segment.token? withGettext) ++
          (tokenSegments t.pair t.endsLine pos rest).filterMap (Segment.token? withGettext)) :
    (lines (line ++ layout t.pair pos (t.item :: plan t.pair t.endsLine rest))).flatMap
        (lineTokens withGettext) =
      line.filterMap (Segment.token? withGettext) ++
        (t.item.segment t.pair pos :: tokenSegments t.pair t.endsLine
          (pos + (t.item.render t.pair).length) rest).filterMap (Segment.token? withGettext) := by
  have hsplit : line.filterMap (Segment.token? withGettext) ++
      (t.item.segment t.pair pos :: tokenSegments t.pair t.endsLine
        (pos + (t.item.render t.pair).length) rest).filterMap (Segment.token? withGettext) =
      (line ++ [t.item.segment t.pair pos]).filterMap (Segment.token? withGettext) ++
        (tokenSegments t.pair t.endsLine
          (pos + (t.item.render t.pair).length) rest).filterMap (Segment.token? withGettext) := by
    rw [← List.filterMap_append, ← List.filterMap_append]
    simp
  have hend := isLineEnd_item t pos
  simp only [layout, pairAfter_item, hsplit]
  cases hline_end : t.endsLine with
  | true =>
    -- the line ends here, and the next one starts afresh
    rw [hline_end] at hend hrec
    have hcut : cutAfter Token.endsLine (t :: rest) = [t] :: cutAfter Token.endsLine rest := by
      simp [cutAfter, hline_end]
    rw [hcut] at hline hrest
    simp only [List.headD_cons, List.tail_cons] at hline hrest
    have hkeep := lineTokens_of_holds (hline.item hw pos)
    have hfirst : LineHolds ((cutAfter Token.endsLine rest).headD []) := by
      cases hc : cutAfter Token.endsLine rest with
      | nil => exact .inr (.inl (by simp))
      | cons l others => exact hrest l (by simp [hc])
    have hnext := hrec [] (pos + (t.item.render t.pair).length) (by simp) rfl
      (holds_of_lineHolds hfirst t.pair) fun l hl => hrest l (List.mem_of_mem_tail hl)
    rw [List.nil_append, List.filterMap_nil, List.nil_append] at hnext
    rw [lines, cutAfter_append_end hopen hend, List.flatMap_cons, hkeep, ← hnext, lines]
  | false =>
    -- the line goes on
    rw [hline_end] at hend hrec
    rw [cutAfter_cons_of_not hline_end] at hline hrest
    simp only [List.headD_cons, List.tail_cons] at hline hrest
    have hopen' : ∀ s ∈ line ++ [t.item.segment t.pair pos], s.isLineEnd = false := by
      intro s hs
      rcases List.mem_append.mp hs with hs | hs
      · exact hopen s hs
      · rw [List.mem_singleton.mp hs]
        exact hend
    have hnext := hrec (line ++ [t.item.segment t.pair pos]) (pos + (t.item.render t.pair).length)
      hopen' (by simp) (hline.item hw pos) hrest
    rw [← hnext]
    simp

/-- A change on a line of its own gives no tokens. -/
theorem tokens_own_line (p q : Delimiters) (pos : Nat) (more : List Segment) :
    (lines (layout p pos [.change q, .lineEnd] ++ more)).flatMap (lineTokens withGettext) =
      (lines more).flatMap (lineTokens withGettext) := by
  have hopen : ∀ s ∈ [(Item.change q).segment p pos], s.isLineEnd = false := by
    intro s hs
    rw [List.mem_singleton.mp hs]
    rfl
  have hcut : lines (layout p pos [.change q, .lineEnd] ++ more) =
      layout p pos [.change q, .lineEnd] :: lines more := cutAfter_append_end hopen rfl
  have hdrop : lineTokens withGettext (layout p pos [.change q, .lineEnd]) = [] := rfl
  rw [hcut, List.flatMap_cons, hdrop, List.nil_append]

theorem exists_headD_cutAfter {α : Type} (ends : α → Bool) (a : α) (rest : List α) :
    ∃ more, (cutAfter ends (a :: rest)).headD [] = a :: more := by
  cases ha : ends a with
  | true => exact ⟨[], by simp [cutAfter, ha]⟩
  | false => exact ⟨_, by rw [cutAfter_cons_of_not ha]; rfl⟩

/-- From the start of a line, or within one that holds, the tokens that are read are those that were
written. The induction is on the tokens; `line` are the segments of the line so far. -/
theorem tokens_layout {tokens : List Token} (hw : ∀ t ∈ tokens, t.WellFormed withGettext)
    {line : List Segment} {pair : Delimiters} {atLineStart : Bool} {pos : Nat}
    (hopen : ∀ s ∈ line, s.isLineEnd = false) (hstart : atLineStart = line.isEmpty)
    (hline : Holds withGettext line pair ((cutAfter Token.endsLine tokens).headD []))
    (hrest : ∀ l ∈ (cutAfter Token.endsLine tokens).tail, LineHolds l) :
    (lines (line ++ layout pair pos (plan pair atLineStart tokens))).flatMap
        (lineTokens withGettext) =
      line.filterMap (Segment.token? withGettext) ++
        (tokenSegments pair atLineStart pos tokens).filterMap (Segment.token? withGettext) := by
  induction tokens generalizing line pair atLineStart pos with
  | nil =>
    -- the last line is the one being read, if anything is on it
    have hkeep := lineTokens_of_holds hline
    simp only [plan, layout, tokenSegments, List.append_nil, List.filterMap_nil, lines,
      cutAfter_of_none hopen]
    split
    · next hl => simp [hl]
    · simp [hkeep]
  | cons t rest ih =>
    have hwt := hw t List.mem_cons_self
    have hwr : ∀ u ∈ rest, u.WellFormed withGettext := fun u hu => hw u (List.mem_cons_of_mem _ hu)
    -- reading the token, wherever it stands
    have hstep := fun (line : List Segment) (pos : Nat) (hopen : ∀ s ∈ line, s.isLineEnd = false)
        hline => tokens_item hwt pos hopen hline hrest
          fun line pos hopen hstart hline hrest => ih hwr hopen hstart hline hrest
    subst hstart
    simp only [plan, tokenSegments, layout_append, pairAfterAll_lead]
    by_cases hp : t.pair = pair
    · -- nothing stands in front of the token
      subst hp
      simpa [lead, write, layout] using hstep line pos hopen hline
    · by_cases hblank : (line.isEmpty && lineIsBlank (t :: rest)) = true
      · -- the change gets a line of its own
        have hnil : line = [] := by
          simp only [Bool.and_eq_true, List.isEmpty_iff] at hblank
          exact hblank.1
        subst hnil
        have hlead : lead pair true t rest = [.change t.pair, .lineEnd] := by
          have hb : lineIsBlank (t :: rest) = true := by simpa using hblank
          simp [lead, hp, hb]
        have hnext := hstep [] (pos + (write pair [.change t.pair, .lineEnd]).length) (by simp)
          (hline.of_nil t.pair)
        simp only [List.isEmpty_nil, hlead, List.nil_append] at hnext ⊢
        rw [tokens_own_line, hnext]
      · -- the change is on the line of the token
        have hlead : lead pair line.isEmpty t rest = [.change t.pair] := by
          simp [lead, hp, hblank]
        obtain ⟨more, hmore⟩ := exists_headD_cutAfter Token.endsLine t rest
        rw [hmore] at hline
        have hopen' : ∀ s ∈ line ++ [(Item.change t.pair).segment pair pos],
            s.isLineEnd = false := by
          intro s hs
          rcases List.mem_append.mp hs with hs | hs
          · exact hopen s hs
          · rw [List.mem_singleton.mp hs]
            rfl
        have hnext := hstep (line ++ [(Item.change t.pair).segment pair pos])
          (pos + (write pair [.change t.pair]).length) hopen'
          (hmore ▸ hline.change hmore hp hblank pos)
        have hsame : (line ++ [(Item.change t.pair).segment pair pos]).filterMap
            (Segment.token? withGettext) = line.filterMap (Segment.token? withGettext) := by
          rw [List.filterMap_append]
          exact List.append_nil _
        rw [hsame, List.append_assoc] at hnext
        simp only [hlead]
        exact hnext

theorem fault?_layout (pair : Delimiters) (pos : Nat) (items : List Item) :
    (layout pair pos items).filterMap Segment.fault? = [] := by
  induction items generalizing pair pos with
  | nil => rfl
  | cons i rest ih =>
    have hi : (i.segment pair pos).fault? = none := by
      cases i with
      | change other => simp [Segment.fault?, Item.segment, Item.piece]
      | _ => rfl
    simp [layout, hi, ih]

/-- The segments of the tokens give the tokens. -/
theorem contents_tokenSegments {tokens : List Token} (hw : ∀ t ∈ tokens, t.WellFormed withGettext)
    (pair : Delimiters) (atLineStart : Bool) (pos : Nat) :
    ((tokenSegments pair atLineStart pos tokens).filterMap (Segment.token? withGettext)).map
        Token.content = tokens.map Token.content ∧
      ((tokenSegments pair atLineStart pos tokens).filterMap (Segment.token? withGettext)).map
        Token.extent = (tokenSegments pair atLineStart pos tokens).map Segment.extent := by
  induction tokens generalizing pair atLineStart pos with
  | nil => exact ⟨rfl, rfl⟩
  | cons t rest ih =>
    have hrec := ih (fun u hu => hw u (List.mem_cons_of_mem _ hu)) t.pair t.endsLine
    obtain ⟨u, hu, hcontent, hextent⟩ := exists_token?_item (hw t List.mem_cons_self)
      (pos + (write pair (lead pair atLineStart t rest)).length)
    simp only [tokenSegments, List.filterMap_cons, hu, List.map_cons, hcontent, hextent]
    exact ⟨congrArg _ (hrec _).1, congrArg _ (hrec _).2⟩

/-- **Tokens that can be written and reproduced are read back** from the text that is rebuilt from
them, without faults and where they were written. -/
theorem readBack_of_reproducible {tokens : List Token} (hw : Writable withGettext tokens)
    (hr : Reproducible tokens) (name : Bytes) :
    ReadBack tokens (scan withGettext (.ofText name (rebuild tokens)) none) := by
  have hforms : ∀ t ∈ tokens, t.HasMarks ∧ t.OneLine :=
    fun t ht => ⟨(hw.forms t ht).marks, (hw.forms t ht).oneLine⟩
  -- the text is read as it was planned
  have hread := readable_plan hw.forms hw.backslashes hr.tags hr.runs hr.changes true
  have hsegments : outline withGettext (rebuild tokens) none =
      layout .standard 0 (plan .standard true tokens) := by
    rw [outline, rebuild_eq_write hforms]
    exact segments_write hread 0
  have htokens : (scan withGettext (.ofText name (rebuild tokens)) none).tokens =
      (tokenSegments .standard true 0 tokens).filterMap (Segment.token? withGettext) := by
    have hfirst : LineHolds ((cutAfter Token.endsLine tokens).headD []) := by
      cases hc : cutAfter Token.endsLine tokens with
      | nil => exact .inr (.inl (by simp))
      | cons l others => exact hw.lines l (by simp [hc])
    rw [tokens_scan]
    change Outline.tokens withGettext (rebuild tokens) none = _
    rw [Outline.tokens, hsegments]
    exact tokens_layout hw.forms (by simp) rfl (holds_of_lineHolds hfirst .standard)
      fun l hl => hw.lines l (List.mem_of_mem_tail hl)
  obtain ⟨hcontents, hextents⟩ := contents_tokenSegments hw.forms .standard true 0
  -- nothing that is planned has a fault, and its tokens are the given ones
  refine ⟨?_, ?_, ?_⟩
  · rw [faults_scan]
    change startFaults none ++ _ = []
    rw [Source.ofText]
    simp only [hsegments, fault?_layout]
    rfl
  · rw [htokens, hcontents]
  · rw [htokens, hextents]
    exact (placesFrom_eq_extents hforms .standard true 0).symm

end Rebuild

end TemplateLexer
