import Mathlib.Data.List.Basic
import Mathlib.Data.List.TakeWhile
import TemplateLexer.Delimiters

/-!
# Trimmed texts and words

A text is trimmed if neither its first nor its last byte is blank. Names and arguments of tags are
trimmed texts, and writing them side by side and trimming again loses nothing.

* `trim_eq_self_iff`: what it means that trimming has nothing to do;
* `cutWord_append`, `cutWord_of_blankFree`: a word and what follows it are found again;
* `blankFree_cutWord`, `trim_cutWord`: what a trimmed text is cut into;
* `words_eq_pair_iff`: what it means that a text has two words;
* `strips_iff`, `splits_cutWord`: what trimming and cutting give, told by how the text is put together;
* `Delimiters.parse_render`: a pair is read back from the two words that name it.
-/

namespace TemplateLexer.Bytes

/-! ## Trimming -/

/-- Trimming a text at its front has nothing to do exactly if it does not start with a blank. -/
theorem trimStart_eq_self_iff {text : Bytes} :
    trimStart text = text ↔ ∀ b ∈ text.head?, isBlank b = false := by
  cases text with
  | nil => simp [trimStart]
  | cons b rest =>
    cases hb : isBlank b with
    | false => simp [trimStart, hb]
    | true =>
      -- dropping the blank makes the text shorter
      have hne : rest.dropWhile isBlank ≠ b :: rest := by
        intro he
        have hle := (List.dropWhile_sublist isBlank (l := rest)).length_le
        rw [he, List.length_cons] at hle
        omega
      simp [trimStart, hb, hne]

theorem trimEnd_eq_self_iff {text : Bytes} :
    trimEnd text = text ↔ ∀ b ∈ text.getLast?, isBlank b = false := by
  have h := @trimStart_eq_self_iff text.reverse
  rw [List.head?_reverse] at h
  rw [← h, trimEnd, trimStart, List.reverse_eq_iff]

theorem not_isBlank_of_mem_head?_trimStart (text : Bytes) :
    ∀ b ∈ (trimStart text).head?, isBlank b = false := by
  intro b hb
  have h := List.head?_dropWhile_not isBlank text
  rw [trimStart] at hb
  rw [Option.mem_def] at hb
  simpa [hb] using h

theorem trimStart_trimStart (text : Bytes) : trimStart (trimStart text) = trimStart text :=
  trimStart_eq_self_iff.mpr (not_isBlank_of_mem_head?_trimStart text)

theorem trimEnd_trimEnd (text : Bytes) : trimEnd (trimEnd text) = trimEnd text := by
  have h := trimStart_trimStart text.reverse
  simp only [trimStart] at h
  simp [trimEnd, h]

/-- Trimming at the end keeps a front that has no blank. -/
theorem trimStart_trimEnd_of_trimStart {text : Bytes} (h : trimStart text = text) :
    trimStart (trimEnd text) = trimEnd text := by
  rw [trimStart_eq_self_iff] at h ⊢
  intro b hb
  -- the trimmed text is a front of the text
  have hp : trimEnd text <+: text := by
    rw [trimEnd, ← List.reverse_suffix, List.reverse_reverse]
    exact List.dropWhile_suffix isBlank
  obtain ⟨tail, ht⟩ := hp
  apply h b
  rw [← ht]
  cases hn : trimEnd text with
  | nil =>
    rw [hn] at hb
    simp at hb
  | cons c rest =>
    rw [hn] at hb
    simpa using hb

theorem trim_trim (text : Bytes) : trim (trim text) = trim text := by
  unfold trim
  rw [trimStart_trimEnd_of_trimStart (trimStart_trimStart text), trimEnd_trimEnd]

/-- Trimming has nothing to do exactly if the text neither starts nor ends with a blank. -/
theorem trim_eq_self_iff {text : Bytes} :
    trim text = text ↔
      (∀ b ∈ text.head?, isBlank b = false) ∧ ∀ b ∈ text.getLast?, isBlank b = false := by
  rw [← trimStart_eq_self_iff, ← trimEnd_eq_self_iff]
  constructor
  · intro h
    have hs : trimStart text = text := by
      have hb := trimStart_trimEnd_of_trimStart (trimStart_trimStart text)
      rw [show trimEnd (trimStart text) = text from h] at hb
      exact hb
    refine ⟨hs, ?_⟩
    rw [trim, hs] at h
    exact h
  · rintro ⟨hs, he⟩
    rw [trim, hs, he]

theorem trim_eq_self_of_blankFree {text : Bytes} (h : BlankFree text) : trim text = text := by
  rw [trim_eq_self_iff]
  constructor
  · intro b hb
    exact h b (List.mem_of_mem_head? hb)
  · intro b hb
    exact h b (List.mem_of_mem_getLast? hb)

/-- Of two trimmed texts side by side the outer ends are not blank. -/
theorem trim_append {a b : Bytes} (ha : trim a = a) (hb : trim b = b) (hne : a ≠ []) (hnb : b ≠ [])
    (between : Bytes) : trim (a ++ between ++ b) = a ++ between ++ b := by
  rw [trim_eq_self_iff] at ha hb ⊢
  constructor
  · intro c hc
    obtain ⟨x, a', rfl⟩ := List.exists_cons_of_ne_nil hne
    exact ha.1 c (by simpa using hc)
  · intro c hc
    apply hb.2 c
    rw [List.getLast?_eq_some_getLast hnb]
    simpa [List.getLast?_append, List.getLast?_eq_some_getLast hnb] using hc

/-- A leading blank is trimmed off. -/
theorem trim_cons_of_isBlank {b : UInt8} {text : Bytes} (hb : isBlank b = true) :
    trim (b :: text) = trim text := by
  simp [trim, trimStart, hb]

/-- Trimming leaves something of a text that is not blank. -/
theorem trim_ne_nil {text : Bytes} {b : UInt8} (hm : b ∈ text) (hb : isBlank b = false) :
    trim text ≠ [] := by
  intro hn
  have hs : trimStart text ≠ [] := by
    intro hd
    have h := List.dropWhile_eq_nil_iff.mp hd b hm
    rw [hb] at h
    cases h
  -- the first byte that is left at the front is not dropped at the end
  obtain ⟨c, rest, hc⟩ := List.exists_cons_of_ne_nil hs
  have hcb := not_isBlank_of_mem_head?_trimStart text c (by simp [hc])
  have hall : ∀ x ∈ (trimStart text).reverse, isBlank x = true := by
    apply List.dropWhile_eq_nil_iff.mp
    simpa [trim, trimEnd] using hn
  have h := hall c (by simp [hc])
  rw [hcb] at h
  cases h

/-! ## Words -/

theorem cutWord_of_blankFree {word : Bytes} (h : BlankFree word) : cutWord word = (word, []) := by
  have ht : word.takeWhile (fun b => !isBlank b) = word := by
    rw [List.takeWhile_eq_self_iff]
    intro b hb
    simp [h b hb]
  have hd : word.dropWhile (fun b => !isBlank b) = [] := by
    rw [List.dropWhile_eq_nil_iff]
    intro b hb
    simp [h b hb]
  simp [cutWord, ht, hd, trimStart]

/-- A word, a space and a text that starts without a blank are found again. -/
theorem cutWord_append {word text : Bytes} (h : BlankFree word) (ht : trim text = text) :
    cutWord (word ++ space :: text) = (word, text) := by
  have hw : ∀ b ∈ word, (!isBlank b) = true := by
    intro b hb
    simp [h b hb]
  have hs : isBlank space = true := by decide
  have htake : (word ++ space :: text).takeWhile (fun b => !isBlank b) = word := by
    rw [List.takeWhile_append_of_pos hw]
    simp [hs]
  have hdrop : (word ++ space :: text).dropWhile (fun b => !isBlank b) = space :: text := by
    rw [List.dropWhile_append_of_pos hw]
    simp [hs]
  have htrim : trimStart (space :: text) = text := by
    rw [trimStart, List.dropWhile_cons_of_pos hs]
    exact trimStart_eq_self_iff.mpr (trim_eq_self_iff.mp ht).1
  simp only [cutWord, htake, hdrop, htrim]

theorem blankFree_cutWord (text : Bytes) : BlankFree (cutWord text).1 := by
  intro b hb
  simpa using List.mem_takeWhile_imp hb

/-- What follows the first word of a trimmed text is trimmed. -/
theorem trim_cutWord {text : Bytes} (h : trim text = text) :
    trim (cutWord text).2 = (cutWord text).2 := by
  rw [trim_eq_self_iff] at h ⊢
  refine ⟨not_isBlank_of_mem_head?_trimStart _, ?_⟩
  intro b hb
  -- what follows the word ends as the text does
  have hs : (cutWord text).2 <:+ text :=
    (List.dropWhile_suffix _).trans (List.dropWhile_suffix _)
  obtain ⟨front, hf⟩ := hs
  apply h.2 b
  rw [Option.mem_def] at hb ⊢
  rw [← hf, List.getLast?_append, hb]
  rfl

/-- A trimmed text without a first word is empty. -/
theorem cutWord_eq_nil {text : Bytes} (h : trim text = text) (hn : (cutWord text).1 = []) :
    text = [] := by
  cases text with
  | nil => rfl
  | cons b rest =>
    have hb := (trim_eq_self_iff.mp h).1 b rfl
    simp [cutWord, hb] at hn

theorem words_of_blankFree {text : Bytes} (h : BlankFree text) (hne : text ≠ []) :
    words text = [text] := by
  rw [words, List.splitOnP_eq_singleton h]
  simp [hne]

/-- A blank in front of a text adds no word. -/
theorem words_cons_of_isBlank {b : UInt8} {text : Bytes} (hb : isBlank b = true) :
    words (b :: text) = words text := by
  rw [words, List.splitOnP_cons_eq_if_modifyHead, if_pos hb]
  simp [words]

theorem words_append_of_allBlank {left : Bytes} (h : allBlank left = true) (text : Bytes) :
    words (left ++ text) = words text := by
  induction left with
  | nil => rfl
  | cons b left ih =>
    rw [allBlank, List.all_cons, Bool.and_eq_true] at h
    rw [List.cons_append, words_cons_of_isBlank h.1, ih h.2]

theorem words_of_allBlank {text : Bytes} (h : allBlank text = true) : words text = [] := by
  have hw := words_append_of_allBlank h []
  rwa [List.append_nil] at hw

/-- A word in front of a text that does not go on with it is the first one. -/
theorem words_append_word {word rest : Bytes} (h : BlankFree word) (hne : word ≠ [])
    (hrest : ∀ b ∈ rest.head?, isBlank b = true) : words (word ++ rest) = word :: words rest := by
  cases rest with
  | nil =>
    rw [List.append_nil, words_of_blankFree h hne]
    rfl
  | cons b rest =>
    have hb : isBlank b = true := hrest b rfl
    rw [words_cons_of_isBlank hb, words, List.splitOnP_append_cons_of_forall_mem h b hb]
    simp [words, hne]

theorem words_append {a b : Bytes} (ha : BlankFree a) (hb : BlankFree b) (hna : a ≠ [])
    (hnb : b ≠ []) : words (a ++ space :: b) = [a, b] := by
  have hs : isBlank space = true := by decide
  have hhead : ∀ c ∈ (space :: b).head?, isBlank c = true := by
    intro c hc
    rwa [← Option.some.inj hc]
  rw [words_append_word ha hna hhead, words_cons_of_isBlank hs, words_of_blankFree hb hnb]

/-- A text that is not blank has a first word. -/
theorem exists_first_word {text : Bytes} (h : allBlank text = false) :
    ∃ left word rest, text = left ++ (word ++ rest) ∧ allBlank left = true ∧ BlankFree word ∧
      word ≠ [] ∧ ∀ b ∈ rest.head?, isBlank b = true := by
  refine ⟨text.takeWhile isBlank, (trimStart text).takeWhile fun b => !isBlank b,
    (trimStart text).dropWhile fun b => !isBlank b, ?_, ?_, ?_, ?_, ?_⟩
  · rw [List.takeWhile_append_dropWhile, trimStart, List.takeWhile_append_dropWhile]
  · rw [allBlank, List.all_eq_true]
    intro b hb
    exact List.mem_takeWhile_imp hb
  · exact blankFree_cutWord (trimStart text)
  · intro hnil
    cases hs : trimStart text with
    | nil =>
      -- then the text is blank
      rw [allBlank, List.all_eq_true.mpr (List.dropWhile_eq_nil_iff.mp hs)] at h
      cases h
    | cons b rest =>
      have hb := not_isBlank_of_mem_head?_trimStart text b (by rw [hs]; rfl)
      rw [hs] at hnil
      simp [hb] at hnil
  · intro b hb
    have hn := List.head?_dropWhile_not (fun b => !isBlank b) (trimStart text)
    rw [Option.mem_def] at hb
    simpa [hb] using hn

/-- A text is two words, with blanks between them and perhaps around them. -/
structure TwoWords (text first second : Bytes) : Prop where
  first_blankFree : BlankFree first
  second_blankFree : BlankFree second
  first_ne_nil : first ≠ []
  second_ne_nil : second ≠ []
  blanks : ∃ left gap right, text = left ++ (first ++ (gap ++ (second ++ right))) ∧
    allBlank left = true ∧ allBlank gap = true ∧ gap ≠ [] ∧ allBlank right = true

/-- The words of a text are two exactly if it is two words. -/
theorem words_eq_pair_iff {text first second : Bytes} :
    words text = [first, second] ↔ TwoWords text first second := by
  constructor
  · intro h
    have hblank : allBlank text = false := by
      by_contra hb
      rw [words_of_allBlank (by simpa using hb)] at h
      cases h
    obtain ⟨left, word, rest, rfl, hleft, hfree, hne, hrest⟩ := exists_first_word hblank
    rw [words_append_of_allBlank hleft, words_append_word hfree hne hrest] at h
    obtain ⟨rfl, hsecond⟩ := List.cons.inj h
    have hblank' : allBlank rest = false := by
      by_contra hb
      rw [words_of_allBlank (by simpa using hb)] at hsecond
      cases hsecond
    obtain ⟨gap, word', right, rfl, hgap, hfree', hne', hright⟩ := exists_first_word hblank'
    rw [words_append_of_allBlank hgap, words_append_word hfree' hne' hright] at hsecond
    obtain ⟨rfl, hend⟩ := List.cons.inj hsecond
    refine ⟨hfree, hfree', hne, hne', left, gap, right, rfl, hleft, hgap, ?_, ?_⟩
    · -- a second word without a gap would go on with the first one
      rintro rfl
      obtain ⟨b, word', rfl⟩ := List.exists_cons_of_ne_nil hne'
      have hb := hrest b rfl
      rw [hfree' b List.mem_cons_self] at hb
      cases hb
    · by_contra hb
      have hblank'' : allBlank right = false := by simpa using hb
      obtain ⟨left', word'', rest', rfl, hleft', hfree'', hne'', hrest'⟩ :=
        exists_first_word hblank''
      rw [words_append_of_allBlank hleft', words_append_word hfree'' hne'' hrest'] at hend
      cases hend
  · rintro ⟨hfirst, hsecond, hne, hne', left, gap, right, rfl, hleft, hgap, hgne, hright⟩
    have hafter : ∀ b ∈ (gap ++ (second ++ right)).head?, isBlank b = true := by
      rw [List.head?_append_of_ne_nil gap hgne]
      intro b hb
      exact List.all_eq_true.mp hgap b (List.mem_of_mem_head? hb)
    have hlast : ∀ b ∈ right.head?, isBlank b = true := by
      intro b hb
      exact List.all_eq_true.mp hright b (List.mem_of_mem_head? hb)
    rw [words_append_of_allBlank hleft, words_append_word hfirst hne hafter,
      words_append_of_allBlank hgap, words_append_word hsecond hne' hlast, words_of_allBlank hright]

/-! ## The parts of a text

Trimming and cutting find the only parts that a text is put together from in a certain way. -/

/-- A text that neither starts nor ends with a blank. -/
structure Trimmed (text : Bytes) : Prop where
  start : ∀ b ∈ text.head?, isBlank b = false
  stop : ∀ b ∈ text.getLast?, isBlank b = false

/-- The core of a text is trimmed, and only blanks stand around it. -/
structure Strips (text core : Bytes) : Prop where
  trimmed : Trimmed core
  blanks : ∃ left right, text = left ++ core ++ right ∧ allBlank left = true ∧ allBlank right = true

/-- A text is a word, a gap of blanks, and a tail that starts without a blank. There is no tail without
a gap. -/
structure Splits (text word tail : Bytes) : Prop where
  blankFree : BlankFree word
  start : ∀ b ∈ tail.head?, isBlank b = false
  gap : ∃ gap, text = word ++ gap ++ tail ∧ allBlank gap = true ∧ (gap = [] → tail = [])

theorem trimmed_iff {text : Bytes} : Trimmed text ↔ trim text = text := by
  rw [trim_eq_self_iff]
  constructor
  · intro h
    exact ⟨h.start, h.stop⟩
  · intro h
    exact ⟨h.1, h.2⟩

/-- Blanks in front of a text that starts without one are dropped, and nothing more. -/
theorem trimStart_append {left text : Bytes} (hleft : allBlank left = true)
    (htext : ∀ b ∈ text.head?, isBlank b = false) : trimStart (left ++ text) = text := by
  rw [trimStart, List.dropWhile_append_of_pos (List.all_eq_true.mp hleft)]
  exact trimStart_eq_self_iff.mpr htext

theorem exists_trimStart (text : Bytes) :
    ∃ left, text = left ++ trimStart text ∧ allBlank left = true := by
  refine ⟨text.takeWhile isBlank, List.takeWhile_append_dropWhile.symm, ?_⟩
  rw [allBlank, List.all_eq_true]
  intro b hb
  exact List.mem_takeWhile_imp hb

theorem exists_trimEnd (text : Bytes) :
    ∃ right, text = trimEnd text ++ right ∧ allBlank right = true := by
  obtain ⟨left, hleft, hblank⟩ := exists_trimStart text.reverse
  refine ⟨left.reverse, ?_, by simpa [allBlank] using hblank⟩
  rw [trimEnd, ← List.reverse_append, ← trimStart, ← hleft, List.reverse_reverse]

theorem strips_trim (text : Bytes) : Strips text (trim text) := by
  obtain ⟨left, hleft, hl⟩ := exists_trimStart text
  obtain ⟨right, hright, hr⟩ := exists_trimEnd (trimStart text)
  refine ⟨trimmed_iff.mpr (trim_trim text), left, right, ?_, hl, hr⟩
  rw [trim, List.append_assoc, ← hright, ← hleft]

/-- Trimming finds the core of a text. -/
theorem strips_iff {text core : Bytes} : Strips text core ↔ core = trim text := by
  constructor
  · rintro ⟨hcore, left, right, rfl, hl, hr⟩
    by_cases hne : core = []
    · -- a text of blanks has no core
      subst hne
      have hall : ∀ b ∈ left ++ [] ++ right, isBlank b = true := by
        rw [List.append_nil, ← List.all_eq_true, List.all_append, Bool.and_eq_true]
        exact ⟨hl, hr⟩
      have hs : trimStart (left ++ [] ++ right) = [] := List.dropWhile_eq_nil_iff.mpr hall
      rw [trim, hs]
      rfl
    · have hhead : ∀ b ∈ (core ++ right).head?, isBlank b = false := by
        obtain ⟨b, rest, rfl⟩ := List.exists_cons_of_ne_nil hne
        simpa using hcore.start
      have hlast : ∀ b ∈ core.reverse.head?, isBlank b = false := by
        rw [List.head?_reverse]
        exact hcore.stop
      have hback : trimStart (right.reverse ++ core.reverse) = core.reverse :=
        trimStart_append (by simpa [allBlank] using hr) hlast
      rw [List.append_assoc, trim, trimStart_append hl hhead, trimEnd, List.reverse_append,
        ← trimStart, hback, List.reverse_reverse]
  · rintro rfl
    exact strips_trim text

theorem splits_cutWord (text : Bytes) : Splits text (cutWord text).1 (cutWord text).2 := by
  obtain ⟨gap, hgap, hblank⟩ := exists_trimStart (text.dropWhile fun b => !isBlank b)
  refine ⟨blankFree_cutWord text, not_isBlank_of_mem_head?_trimStart _, gap, ?_, hblank, ?_⟩
  · rw [List.append_assoc, cutWord, ← hgap, List.takeWhile_append_dropWhile]
  · -- what follows the word starts with a blank
    rintro rfl
    have hhead := List.head?_dropWhile_not (fun b => !isBlank b) text
    have hstart := not_isBlank_of_mem_head?_trimStart (text.dropWhile fun b => !isBlank b)
    rw [List.nil_append] at hgap
    rw [← hgap] at hstart
    show trimStart (text.dropWhile fun b => !isBlank b) = []
    rw [← hgap]
    cases hd : text.dropWhile fun b => !isBlank b with
    | nil => rfl
    | cons b rest =>
      rw [hd] at hhead hstart
      have hb := hstart b rfl
      simp [hb] at hhead

theorem Strips.occurs {text core : Bytes} (h : Strips text core) : core <:+: text := by
  obtain ⟨left, right, htext, -⟩ := h.blanks
  exact ⟨left, right, htext.symm⟩

theorem Splits.occurs {text word tail : Bytes} (h : Splits text word tail) :
    word <:+: text ∧ tail <:+: text := by
  obtain ⟨gap, htext, -⟩ := h.gap
  rw [htext]
  constructor
  · rw [List.append_assoc]
    exact (List.prefix_append _ _).isInfix
  · exact (List.suffix_append _ _).isInfix

end TemplateLexer.Bytes

namespace TemplateLexer.Delimiters

open Bytes

/-- A pair is read back from the two words that name it. -/
@[simp] theorem parse_render (pair : Delimiters) : parse pair.render = .ok pair :=
  parse_eq_ok_iff.mpr
    (words_append pair.open_blankFree pair.close_blankFree pair.open_ne_nil pair.close_ne_nil)

/-- A specification is refused exactly if it is not two words. -/
theorem exists_parse_error_iff {spec : Bytes} :
    (∃ e, parse spec = .error e) ↔ ¬ ∃ first second, TwoWords spec first second := by
  constructor
  · rintro ⟨e, he⟩ ⟨first, second, h⟩
    have hd := parse_eq_ok_iff (d := ⟨first, second, h.first_ne_nil, h.second_ne_nil,
      h.first_blankFree, h.second_blankFree⟩) |>.mpr (words_eq_pair_iff.mpr h)
    rw [he] at hd
    cases hd
  · intro h
    cases hd : parse spec with
    | error e => exact ⟨e, rfl⟩
    | ok d => exact absurd ⟨_, _, words_eq_pair_iff.mp (parse_eq_ok_iff.mp hd)⟩ h

/-- A pair is not read from a single word. -/
theorem not_blankFree_of_parse {spec : Bytes} {pair : Delimiters} (h : parse spec = .ok pair) :
    ¬ BlankFree spec := by
  intro hf
  have hw := parse_eq_ok_iff.mp h
  by_cases hne : spec = []
  · rw [hne] at hw
    cases hw
  · rw [words_of_blankFree hf hne] at hw
    cases hw

end TemplateLexer.Delimiters
