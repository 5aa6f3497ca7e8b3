import TemplateLexer.Proofs.Outline.Writing

/-!
# What the text of tokens consists of

`Token.rebuild` writes tokens one after the other. Here its text is taken apart into the items it
writes: the delimiter changes it puts in front of tokens, the newline that keeps such a change off a
blank line, and the tokens themselves.

* `Token.item`: what is written for a token, and `Token.body` for a tag between sigil and close
  delimiter;
* `plan`: all items of a list of tokens;
* `rebuildFrom_eq_write`: the text of the tokens is the text of the plan;
* `places`: where each token stands in that text.
-/

namespace TemplateLexer

open Bytes Outline

/-- Two pairs with the same marks are the same. -/
theorem Delimiters.eq_of_marks {p q : Delimiters} (ho : p.openMark = q.openMark)
    (hc : p.closeMark = q.closeMark) : p = q := by
  cases p
  cases q
  simp only [Delimiters.mk.injEq]
  exact ⟨ho, hc⟩

namespace Token

/-! ## What is written for a token -/

/-- The marks of the token can be delimiters. -/
def HasMarks (t : Token) : Prop :=
  t.openMark ≠ [] ∧ t.closeMark ≠ [] ∧ BlankFree t.openMark ∧ BlankFree t.closeMark

instance (t : Token) : Decidable t.HasMarks := by
  unfold HasMarks
  infer_instance

/-- The pair that the marks of the token are. -/
def pair (t : Token) : Delimiters :=
  if h : t.HasMarks then ⟨t.openMark, t.closeMark, h.1, h.2.1, h.2.2.1, h.2.2.2⟩ else .standard

theorem HasMarks.openMark_pair {t : Token} (h : t.HasMarks) : t.pair.openMark = t.openMark := by
  simp [pair, h]

theorem HasMarks.closeMark_pair {t : Token} (h : t.HasMarks) : t.pair.closeMark = t.closeMark := by
  simp [pair, h]

/-- Is the token a newline of its own? -/
def endsLine (t : Token) : Bool := t.isText && t.value = [newline]

/-- What is written for the arguments of a tag. -/
def argsText (t : Token) : Bytes :=
  match t.args with
  | some (b :: rest) => space :: b :: rest
  | _ => []

/-- What is written for a tag between its sigil and its close delimiter. The closing brace of a raw
interpolation is part of it, unless it is the one that is read past the close delimiter. -/
def body (t : Token) : Bytes :=
  (if t.kind = .ngettext then t.kind.sigil else [])
    ++ (if t.kind = .escaped ∧ needsSpace t.name then [space] else [])
    ++ t.name ++ t.argsText
    ++ (if t.kind = .unescaped ∧ t.closeMark ≠ Delimiters.standard.closeMark then [closeBrace]
        else [])

/-- The kind that the sigil of a tag selects. A plural form is written as a plain interpolation. -/
def sigilKind (t : Token) : Kind := if t.kind = .ngettext then .escaped else t.kind

/-- What is written for the token. -/
def item (t : Token) : Item :=
  if t.isTag then .tag t.sigilKind t.body
  else if t.value = [newline] then .lineEnd
  else .run t.value

/-- A text is a newline of its own or has none. -/
def OneLine (t : Token) : Prop :=
  t.isText = true → t.value = [newline] ∨ (t.value ≠ [] ∧ newline ∉ t.value)

theorem item_of_endsLine {t : Token} (h : t.endsLine = true) : t.item = .lineEnd := by
  obtain ⟨ht, hv⟩ : t.isText = true ∧ t.value = [newline] := by simpa [endsLine] using h
  simp [item, isTag, ht, hv]

theorem item_of_isTag {t : Token} (h : t.isTag = true) : t.item = .tag t.sigilKind t.body := by
  simp [item, h]

theorem item_of_run {t : Token} (h : t.isText = true) (hv : t.value ≠ [newline]) :
    t.item = .run t.value := by
  simp [item, isTag, h, hv]

theorem pairAfter_item (t : Token) (pair : Delimiters) : t.item.pairAfter pair = pair := by
  unfold item
  split
  · rfl
  · split <;> rfl

/-- The text of a tag is that of its item. -/
theorem render_tag {t : Token} (h : t.HasMarks) :
    (Item.tag t.sigilKind t.body).render t.pair = t.renderTag := by
  have hsigil : t.sigilKind.sigil ++ (if t.kind = .ngettext then t.kind.sigil else []) =
      t.kind.sigil := by
    unfold sigilKind
    by_cases hk : t.kind = .ngettext
    · rw [if_pos hk, if_pos hk]
      rfl
    · rw [if_neg hk, if_neg hk, List.append_nil]
  have hbrace : (if t.kind = .unescaped ∧ t.closeMark ≠ Delimiters.standard.closeMark
      then [closeBrace] else []) ++ t.closeMark ++ brace t.pair t.sigilKind =
      (if t.kind = .unescaped then [closeBrace] else []) ++ t.closeMark := by
    unfold brace Tag.absorbsBrace sigilKind
    rw [h.closeMark_pair]
    by_cases hk : t.kind = .unescaped
    · by_cases hc : t.closeMark = Delimiters.standard.closeMark
      · -- two braces and one more are one brace and two more
        simp only [hk, hc]
        decide
      · simp [hk, hc]
    · by_cases hn : t.kind = .ngettext
      · simp [hn]
      · simp [hk, hn]
  simp only [Item.render, h.openMark_pair, h.closeMark_pair]
  calc t.openMark ++ t.sigilKind.sigil ++ t.body ++ t.closeMark ++ brace t.pair t.sigilKind
      = t.openMark ++ (t.sigilKind.sigil ++ (if t.kind = .ngettext then t.kind.sigil else []))
        ++ (if t.kind = .escaped ∧ needsSpace t.name then [space] else []) ++ t.name
        ++ t.argsText
        ++ ((if t.kind = .unescaped ∧ t.closeMark ≠ Delimiters.standard.closeMark
            then [closeBrace] else []) ++ t.closeMark ++ brace t.pair t.sigilKind) := by
        simp only [body, List.append_assoc]
    _ = t.renderTag := by
        rw [hsigil, hbrace]
        simp only [renderTag, List.append_assoc]
        rfl

/-- The text of a token is that of its item. -/
theorem render_item {t : Token} (h : t.HasMarks) :
    t.item.render t.pair = if t.isText then escapeText t.openMark t.value else t.renderTag := by
  unfold item
  by_cases ht : t.isText = true
  · rw [if_neg (by simp [isTag, ht]), if_pos ht]
    split
    · next hv =>
      have hn : t.openMark.head? ≠ some newline := by
        intro hn
        exact newline_not_mem_open t.pair (by rw [h.openMark_pair]; exact List.mem_of_mem_head? hn)
      simp [Item.render, escapeText, hv, hn]
    · simp [Item.render, h.openMark_pair]
  · rw [if_pos (by simp [isTag, ht]), if_neg ht]
    exact render_tag h

/-! ## The plan -/

/-- Asking for other delimiters is having another pair. -/
theorem changesMarks_eq {t : Token} (h : t.HasMarks) (pair : Delimiters) :
    changesMarks pair.openMark pair.closeMark t = decide (t.pair ≠ pair) := by
  have hiff : t.pair = pair ↔ t.openMark = pair.openMark ∧ t.closeMark = pair.closeMark := by
    constructor
    · rintro rfl
      exact ⟨h.openMark_pair.symm, h.closeMark_pair.symm⟩
    · rintro ⟨ho, hc⟩
      exact Delimiters.eq_of_marks (h.openMark_pair.trans ho) (h.closeMark_pair.trans hc)
  -- a token without marks would ask for nothing, but this one has them
  by_cases hp : t.pair = pair
  · obtain ⟨ho, hc⟩ := hiff.mp hp
    simp [changesMarks, ho, hc, hp]
  · have hne : ¬ (t.openMark = pair.openMark ∧ t.closeMark = pair.closeMark) :=
      fun he => hp (hiff.mpr he)
    have ho : t.openMark ≠ [] := h.1
    by_cases he : t.openMark = pair.openMark
    · have hc : t.closeMark ≠ pair.closeMark := fun hc => hne ⟨he, hc⟩
      simp [changesMarks, he, hc, hp, pair.open_ne_nil]
    · simp [changesMarks, ho, he, hp]

theorem renderChange_eq {t : Token} (h : t.HasMarks) (pair : Delimiters) :
    renderChange pair.openMark pair.closeMark t = (Item.change t.pair).render pair := by
  simp [renderChange, Item.render, Delimiters.render, Delimiters.changeMark, h.openMark_pair,
    h.closeMark_pair, List.append_assoc]

end Token

namespace Rebuild

open Token

/-- What is written in front of a token: a change to its pair, if another one is in force, and a
newline after the change, if it would otherwise stand at the start of a blank line. -/
def lead (pair : Delimiters) (atLineStart : Bool) (t : Token) (rest : List Token) : List Item :=
  if t.pair = pair then []
  else .change t.pair :: if atLineStart && lineIsBlank (t :: rest) then [.lineEnd] else []

/-- What is written for some tokens, given the pair in force and whether a line starts here. -/
def plan (pair : Delimiters) (atLineStart : Bool) : List Token → List Item
  | [] => []
  | t :: rest => lead pair atLineStart t rest ++ t.item :: plan t.pair t.endsLine rest

/-- Where the tokens stand, if the first of them is written from offset `pos` on. It follows the
text that is written token by token. -/
def placesFrom (openMark closeMark : Bytes) (atLineStart : Bool) (pos : Nat) :
    List Token → List Extent
  | [] => []
  | t :: rest =>
    let changes := changesMarks openMark closeMark t
    let o := if changes then t.openMark else openMark
    let c := if changes then t.closeMark else closeMark
    let before :=
      (if changes then renderChange openMark closeMark t else [])
        ++ (if changes && atLineStart && lineIsBlank (t :: rest) then [newline] else [])
    let written := if t.isText then escapeText o t.value else renderTag t
    let start := pos + before.length
    let stop := start + written.length
    ⟨start, stop⟩ :: placesFrom o c (endsAtLineStart atLineStart (before ++ written)) stop rest

/-- Where the tokens stand in the text that is rebuilt from them. -/
def places (tokens : List Token) : List Extent :=
  placesFrom Delimiters.standard.openMark Delimiters.standard.closeMark true 0 tokens

/-- The segments that the tokens are meant to become. -/
def tokenSegments (pair : Delimiters) (atLineStart : Bool) (pos : Nat) : List Token → List Segment
  | [] => []
  | t :: rest =>
    let start := pos + (write pair (lead pair atLineStart t rest)).length
    t.item.segment t.pair start ::
      tokenSegments t.pair t.endsLine (start + (t.item.render t.pair).length) rest

/-! ## The text of the tokens is the text of the plan -/

/-- The pair in force after some items. -/
def pairAfterAll (pair : Delimiters) (items : List Item) : Delimiters :=
  items.foldl Item.pairAfter pair

theorem write_append (pair : Delimiters) (items more : List Item) :
    write pair (items ++ more) = write pair items ++ write (pairAfterAll pair items) more := by
  induction items generalizing pair with
  | nil => rfl
  | cons i items ih => simp [write, pairAfterAll, ih]

theorem layout_append (pair : Delimiters) (pos : Nat) (items more : List Item) :
    layout pair pos (items ++ more) = layout pair pos items ++
      layout (pairAfterAll pair items) (pos + (write pair items).length) more := by
  induction items generalizing pair pos with
  | nil => rfl
  | cons i items ih => simp [write, layout, pairAfterAll, ih, Nat.add_assoc]

/-- In front of a token its own pair is put in force. -/
theorem pairAfterAll_lead (pair : Delimiters) (atLineStart : Bool) (t : Token)
    (rest : List Token) : pairAfterAll pair (lead pair atLineStart t rest) = t.pair := by
  unfold lead
  split
  · next h => exact h.symm
  · split <;> rfl

theorem write_lead {t : Token} (h : t.HasMarks) (pair : Delimiters) (atLineStart : Bool)
    (rest : List Token) :
    write pair (lead pair atLineStart t rest) =
      (if changesMarks pair.openMark pair.closeMark t
        then renderChange pair.openMark pair.closeMark t else [])
      ++ (if changesMarks pair.openMark pair.closeMark t && atLineStart && lineIsBlank (t :: rest)
        then [newline] else []) := by
  rw [changesMarks_eq h, renderChange_eq h]
  unfold lead
  by_cases hp : t.pair = pair
  · simp [hp, write]
  · by_cases hb : (atLineStart && lineIsBlank (t :: rest)) = true
    · simp [hp, hb, write, Item.render]
    · simp [hp, hb, write]

theorem getLast?_append_of_some {text : Bytes} {b : UInt8} (before : Bytes)
    (h : text.getLast? = some b) : (before ++ text).getLast? = some b := by
  rw [List.getLast?_append, h]
  rfl

/-- Escaping leaves the last byte of a text. -/
theorem getLast?_escapeText (openMark text : Bytes) :
    (escapeText openMark text).getLast? = text.getLast? := by
  induction text with
  | nil => rfl
  | cons b rest ih =>
    have hb : (if openMark.head? = some b then [backslash, b] else [b]).getLast? = some b := by
      split <;> rfl
    simp only [escapeText, List.flatMap_cons, List.getLast?_append, hb] at ih ⊢
    rw [ih, List.getLast?_cons]
    cases rest.getLast? <;> rfl

/-- A mark is not empty and has no newline, so it does not end a line. -/
theorem exists_getLast?_of_blankFree {mark : Bytes} (hne : mark ≠ []) (hf : BlankFree mark) :
    ∃ b, mark.getLast? = some b ∧ b ≠ newline := by
  refine ⟨mark.getLast hne, List.getLast?_eq_some_getLast hne, ?_⟩
  intro hn
  have hb := hf _ (List.getLast_mem hne)
  rw [hn] at hb
  exact absurd hb (by decide)

/-- Only a newline of its own ends a line. -/
theorem exists_getLast?_render_item {t : Token} (h : t.HasMarks) (ho : t.OneLine) :
    ∃ b, (t.item.render t.pair).getLast? = some b ∧ (b = newline ↔ t.endsLine = true) := by
  by_cases ht : t.isText = true
  · by_cases hv : t.value = [newline]
    · refine ⟨newline, ?_, by simp [endsLine, ht, hv]⟩
      rw [item_of_endsLine (by simp [endsLine, ht, hv])]
      rfl
    · -- escaping keeps the last byte, which is no newline
      obtain ⟨hne, hn⟩ := (ho ht).resolve_left hv
      refine ⟨t.value.getLast hne, ?_, ?_⟩
      · rw [item_of_run ht hv, Item.render, getLast?_escapeText]
        exact List.getLast?_eq_some_getLast hne
      · have hb : t.value.getLast hne ≠ newline := by
          intro hb
          exact hn (hb ▸ List.getLast_mem hne)
        simp [endsLine, ht, hv, hb]
  · -- a tag ends in its close delimiter
    obtain ⟨b, hb, hn⟩ := exists_getLast?_of_blankFree h.2.1 h.2.2.2
    have hr : t.item.render t.pair = t.renderTag := by
      rw [render_item h, if_neg ht]
    refine ⟨b, ?_, by simp [endsLine, ht, hn]⟩
    rw [hr, renderTag]
    exact getLast?_append_of_some _ hb

theorem endsAtLineStart_append {t : Token} (h : t.HasMarks) (ho : t.OneLine)
    (atLineStart : Bool) (before : Bytes) :
    endsAtLineStart atLineStart (before ++ t.item.render t.pair) = t.endsLine := by
  obtain ⟨b, hb, hn⟩ := exists_getLast?_render_item h ho
  simp only [endsAtLineStart, getLast?_append_of_some before hb]
  by_cases hl : b = newline
  · simp [hl, hn.mp hl]
  · have he : t.endsLine = false := by
      rw [← Bool.not_eq_true]
      exact fun he => hl (hn.mpr he)
    simp [hl, he]

/-- The marks in force after a token are those of its pair. -/
theorem marks_after {t : Token} (h : t.HasMarks) (pair : Delimiters) :
    (if changesMarks pair.openMark pair.closeMark t then t.openMark else pair.openMark) =
        t.pair.openMark ∧
      (if changesMarks pair.openMark pair.closeMark t then t.closeMark else pair.closeMark) =
        t.pair.closeMark := by
  rw [changesMarks_eq h]
  by_cases hp : t.pair = pair
  · simp [hp]
  · simp [hp, h.openMark_pair, h.closeMark_pair]

/-- What is written for a token and in front of it, in the words of the rebuilt text. -/
theorem written_eq {t : Token} (h : t.HasMarks) :
    (if t.isText then escapeText t.pair.openMark t.value else renderTag t) =
      t.item.render t.pair := by
  rw [render_item h, h.openMark_pair]

/-- The text of the tokens is the text of the plan. -/
theorem rebuildFrom_eq_write {tokens : List Token}
    (h : ∀ t ∈ tokens, t.HasMarks ∧ t.OneLine) (pair : Delimiters) (atLineStart : Bool) :
    rebuildFrom pair.openMark pair.closeMark atLineStart tokens =
      write pair (plan pair atLineStart tokens) := by
  induction tokens generalizing pair atLineStart with
  | nil => rfl
  | cons t rest ih =>
    obtain ⟨hm, ho⟩ := h t List.mem_cons_self
    have hrec := ih fun u hu => h u (List.mem_cons_of_mem _ hu)
    -- the marks carried along are those of the token's pair
    obtain ⟨hopen, hclose⟩ := marks_after hm pair
    simp only [rebuildFrom]
    rw [hopen, hclose, ← write_lead hm, written_eq hm, endsAtLineStart_append hm ho, hrec, plan,
      write_append, pairAfterAll_lead, write, pairAfter_item, List.append_assoc]

theorem rebuild_eq_write {tokens : List Token} (h : ∀ t ∈ tokens, t.HasMarks ∧ t.OneLine) :
    rebuild tokens = write .standard (plan .standard true tokens) :=
  rebuildFrom_eq_write h .standard true

/-- The tokens are meant to become segments at their places. -/
theorem placesFrom_eq_extents {tokens : List Token} (h : ∀ t ∈ tokens, t.HasMarks ∧ t.OneLine)
    (pair : Delimiters) (atLineStart : Bool) (pos : Nat) :
    placesFrom pair.openMark pair.closeMark atLineStart pos tokens =
      (tokenSegments pair atLineStart pos tokens).map Segment.extent := by
  induction tokens generalizing pair atLineStart pos with
  | nil => rfl
  | cons t rest ih =>
    obtain ⟨hm, ho⟩ := h t List.mem_cons_self
    have hrec := ih fun u hu => h u (List.mem_cons_of_mem _ hu)
    obtain ⟨hopen, hclose⟩ := marks_after hm pair
    simp only [placesFrom, tokenSegments, List.map_cons]
    rw [hopen, hclose, ← write_lead hm, written_eq hm, endsAtLineStart_append hm ho, hrec]
    rfl

end Rebuild

end TemplateLexer
