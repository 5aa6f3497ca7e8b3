import TemplateLexer.Proofs.Rebuild.Reread

/-!
# Canonical tokens

A list of tokens is canonical if a scan could have given it and the text rebuilt from it leaves no
room for another reading. The conditions look at the tokens only, not at any text they came from, so
they also hold for tokens that were put together by hand, under any number of delimiter pairs.

Rebuilding the text of canonical tokens and scanning it gives the tokens back
(`scan_rebuild_of_canonical`).
-/

namespace TemplateLexer.Rebuild

open Bytes Outline Scan

/-- The tokens are in the form a scan gives, and nothing that is written for them can be read in
another way. -/
structure Canonical (withGettext : Bool) (tokens : List Token) : Prop where
  /-- Every token has the form of a text or of a tag that the scan knows. -/
  forms : ∀ t ∈ tokens, t.WellFormed withGettext
  /-- No open delimiter starts with the byte that escapes it. -/
  opens : ∀ t ∈ tokens, t.openMark.head? ≠ some backslash
  /-- No two runs of text under one pair stand side by side. -/
  runs : tokens.IsChain Token.Apart
  /-- A text that ends in a backslash is followed by a text under the same pair. -/
  backslashes : tokens.IsChain fun t u =>
    t.isText = true → t.value.getLast? = some backslash → u.isText = true ∧ u.pair = t.pair
  /-- The first close delimiter in what is written for a tag is the one that ends it. -/
  closes : ∀ t ∈ tokens, t.isTag = true →
    find? t.closeMark (t.body ++ t.closeMark) = some t.body.length
  /-- The first end of a change in what is written for a change is the one that ends it. -/
  changes : (.standard :: tokens.map Token.pair).IsChain fun p q =>
    q ≠ p → find? p.changeMark (q.render ++ p.changeMark) = some q.render.length
  /-- No line becomes standalone and loses its texts. -/
  lines : ∀ line ∈ cutAfter Token.endsLine tokens, LineHolds line

instance (withGettext : Bool) (tokens : List Token) : Decidable (Canonical withGettext tokens) :=
  decidable_of_iff
    ((∀ t ∈ tokens, t.WellFormed withGettext) ∧
      (∀ t ∈ tokens, t.openMark.head? ≠ some backslash) ∧ tokens.IsChain Token.Apart ∧
      (tokens.IsChain fun t u =>
        t.isText = true → t.value.getLast? = some backslash → u.isText = true ∧ u.pair = t.pair) ∧
      (∀ t ∈ tokens, t.isTag = true →
        find? t.closeMark (t.body ++ t.closeMark) = some t.body.length) ∧
      ((.standard :: tokens.map Token.pair).IsChain fun p q =>
        q ≠ p → find? p.changeMark (q.render ++ p.changeMark) = some q.render.length) ∧
      ∀ line ∈ cutAfter Token.endsLine tokens, LineHolds line)
    ⟨fun ⟨h1, h2, h3, h4, h5, h6, h7⟩ => ⟨h1, h2, h3, h4, h5, h6, h7⟩,
      fun h => ⟨h.forms, h.opens, h.runs, h.backslashes, h.closes, h.changes, h.lines⟩⟩

/-- Where no open delimiter starts with a backslash, none is escaped by itself. -/
theorem escapedByte?_eq_none_of_open {pair : Delimiters} {text : Bytes}
    (hp : pair.openMark <+: text) (hb : pair.openMark.head? ≠ some backslash) :
    escapedByte? pair text = none := by
  obtain ⟨b, mark, hm⟩ := List.exists_cons_of_ne_nil pair.open_ne_nil
  obtain ⟨rest, rfl⟩ := hp
  have hne : b ≠ backslash := by simpa [hm] using hb
  rw [hm, List.cons_append]
  cases mark ++ rest with
  | nil => rfl
  | cons c tail => simp [escapedByte?, hne]

theorem Canonical.writable {withGettext : Bool} {tokens : List Token}
    (h : Canonical withGettext tokens) : Writable withGettext tokens where
  forms := h.forms
  backslashes := by
    refine h.backslashes.imp ?_
    intro t u htu ht hb _
    exact htu ht hb
  lines := h.lines

theorem Canonical.reproducible {withGettext : Bool} {tokens : List Token}
    (h : Canonical withGettext tokens) : Reproducible tokens where
  tags := by
    intro t ht htag
    have hm := (h.forms t ht).marks
    refine ⟨?_, h.closes t ht htag⟩
    apply escapedByte?_eq_none_of_open
    · rw [hm.openMark_pair]
      simp [Token.renderTag, List.append_assoc]
    · rw [hm.openMark_pair]
      exact h.opens t ht
  changes := by
    have hopens : ∀ p ∈ Delimiters.standard :: tokens.map Token.pair,
        p.openMark.head? ≠ some backslash := by
      intro p hp
      rcases List.mem_cons.mp hp with rfl | hp
      · decide
      · obtain ⟨t, ht, rfl⟩ := List.mem_map.mp hp
        rw [(h.forms t ht).marks.openMark_pair]
        exact h.opens t ht
    refine h.changes.imp_of_mem_imp ?_
    intro p q hp _ hpq hne
    refine ⟨?_, hpq hne⟩
    apply escapedByte?_eq_none_of_open _ (hopens p hp)
    simp [Item.render, List.append_assoc]
  runs := h.runs

/-- **Scanning undoes rebuilding.** For canonical tokens, under any number of delimiter pairs, the
scan of the text that is rebuilt from them, started without an override, has no faults and gives the
tokens back, in all but their offsets. They stand where they were written. -/
theorem scan_rebuild_of_canonical {withGettext : Bool} {tokens : List Token}
    (h : Canonical withGettext tokens) (name : Bytes) :
    ReadBack tokens (scan withGettext (.ofText name (Token.rebuild tokens)) none) :=
  readBack_of_reproducible h.writable h.reproducible name

/-- A greeting on two lines and a half: the second line is blank and under another pair, so the change
to that pair has to stay off it. -/
def greeting : List Token :=
  [ { kind := .text, name := ascii "Hi ", value := ascii "Hi ", openMark := ascii "\x7b\x7b",
      closeMark := ascii "\x7d\x7d" },
    { kind := .unescaped, name := ascii "you", openMark := ascii "\x7b\x7b",
      closeMark := ascii "\x7d\x7d" },
    { kind := .text, name := [newline], value := [newline], openMark := ascii "\x7b\x7b",
      closeMark := ascii "\x7d\x7d" },
    { kind := .text, name := [newline], value := [newline], openMark := ascii "<%",
      closeMark := ascii "%>" },
    { kind := .escaped, name := ascii "#x", openMark := ascii "[", closeMark := ascii "]" },
    { kind := .ngettext, name := ascii "one", args := some (ascii "two three"),
      openMark := ascii "[", closeMark := ascii "]" } ]

theorem scan_rebuild_greeting :
    ReadBack greeting (scan true (.ofText [] (Token.rebuild greeting)) none) :=
  scan_rebuild_of_canonical (by decide +kernel) []

end TemplateLexer.Rebuild
