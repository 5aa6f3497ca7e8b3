import TemplateLexer.Proofs.Bytes.Blank

/-!
# The words of a text

A text is made of words and of blanks around them in one way only (`HasWords`).

* `wordsInPass`: the words as a pass over the text meets them, blanks and one word in each turn;
* `hasWords_wordsInPass`, `HasWords.words_eq`: the pass finds words that the text is made of, and there are
  no others, so `words` lists what the pass finds (`words_eq_wordsInPass`);
* `words_trim`: blanks around a text add no word.
-/

namespace TemplateLexer.Bytes

/-- The text has these words in their order, and nothing else but blanks. What follows a word starts with a
blank, if there is anything. -/
inductive HasWords : Bytes → List Bytes → Prop
  | blank {gap : Bytes} (h : allBlank gap = true) : HasWords gap []
  | word {left word rest : Bytes} {others : List Bytes} (hleft : allBlank left = true)
      (hfree : BlankFree word) (hne : word ≠ []) (hrest : ∀ b ∈ rest.head?, isBlank b = true)
      (h : HasWords rest others) : HasWords (left ++ (word ++ rest)) (word :: others)

/-! ## A pass over the text -/

/-- A turn of the pass moves on, by a blank or by a byte of a word. -/
theorem length_afterWord_lt {text : Bytes} (h : text ≠ []) :
    ((trimStart text).dropWhile fun b => !isBlank b).length < text.length := by
  rcases List.exists_cons_of_ne_nil h with ⟨b, rest, rfl⟩
  rw [List.length_cons, Nat.lt_succ_iff]
  cases hb : isBlank b with
  | true =>
    have hstart : trimStart (b :: rest) = trimStart rest := List.dropWhile_cons_of_pos hb
    rw [hstart]
    exact ((List.dropWhile_sublist _).trans (List.dropWhile_sublist _)).length_le
  | false =>
    have hstart : ((trimStart (b :: rest)).dropWhile fun b => !isBlank b) =
        rest.dropWhile fun b => !isBlank b := by
      simp [trimStart, hb]
    rw [hstart]
    exact (List.dropWhile_sublist _).length_le

/-- The words that a pass over the text finds. In each turn it passes over blanks, takes the bytes up to the
next blank, and notes them as a word unless there are none. -/
def wordsInPass (text : Bytes) : List Bytes :=
  if text = [] then []
  else
    let word := (trimStart text).takeWhile fun b => !isBlank b
    let others := wordsInPass ((trimStart text).dropWhile fun b => !isBlank b)
    if word = [] then others else word :: others
termination_by text.length
decreasing_by exact length_afterWord_lt ‹_›

/-- Blanks in front of a text add no word. -/
theorem HasWords.append_left {left text : Bytes} {found : List Bytes} (h : HasWords text found)
    (hleft : allBlank left = true) : HasWords (left ++ text) found := by
  have hall : ∀ {gap : Bytes}, allBlank gap = true → allBlank (left ++ gap) = true := by
    intro gap hgap
    rw [allBlank, List.all_append, Bool.and_eq_true]
    exact ⟨hleft, hgap⟩
  cases h with
  | blank hgap => exact .blank (hall hgap)
  | word hgap hfree hne hrest h =>
    rw [← List.append_assoc]
    exact .word (hall hgap) hfree hne hrest h

/-- Blanks behind a text add no word. -/
theorem HasWords.append_right {right text : Bytes} {found : List Bytes} (h : HasWords text found)
    (hright : allBlank right = true) : HasWords (text ++ right) found := by
  induction h with
  | blank hgap =>
    refine .blank ?_
    rw [allBlank, List.all_append, Bool.and_eq_true]
    exact ⟨hgap, hright⟩
  | @word left word rest others hleft hfree hne hrest h ih =>
    rw [List.append_assoc, List.append_assoc]
    refine .word hleft hfree hne ?_ ih
    intro b hb
    cases rest with
    | nil => exact List.all_eq_true.mp hright b (List.mem_of_mem_head? hb)
    | cons c rest => exact hrest b hb

/-- What a turn passes over, what it takes, and what it leaves. -/
theorem exists_turn (text : Bytes) :
    ∃ left, allBlank left = true ∧ text = left ++ ((trimStart text).takeWhile (fun b => !isBlank b) ++
      (trimStart text).dropWhile fun b => !isBlank b) := by
  rcases exists_trimStart text with ⟨left, htext, hleft⟩
  refine ⟨left, hleft, ?_⟩
  rw [List.takeWhile_append_dropWhile]
  exact htext

/-- The pass finds words that the text is made of. -/
theorem hasWords_wordsInPass (text : Bytes) : HasWords text (wordsInPass text) := by
  fun_induction wordsInPass text with
  | case1 => exact .blank rfl
  | case2 text _ word others hnil ih =>
    -- without a word the turn passed over blanks and took nothing
    rcases exists_turn text with ⟨left, hleft, htext⟩
    rw [htext, show (trimStart text).takeWhile (fun b => !isBlank b) = [] from hnil, List.nil_append]
    exact ih.append_left hleft
  | case3 text _ word others hne ih =>
    rcases exists_turn text with ⟨left, hleft, htext⟩
    have hrest : ∀ b ∈ ((trimStart text).dropWhile fun b => !isBlank b).head?, isBlank b = true := by
      intro b hb
      have hstop := List.head?_dropWhile_not (fun b => !isBlank b) (trimStart text)
      rw [Option.mem_def] at hb
      simpa [hb] using hstop
    rw [htext]
    exact .word hleft (blankFree_cutWord (trimStart text)) hne hrest ih

/-! ## One list of words -/

theorem HasWords.words_eq {text : Bytes} {found : List Bytes} (h : HasWords text found) :
    words text = found := by
  induction h with
  | blank hgap => exact words_of_allBlank hgap
  | word hleft hfree hne hrest h ih =>
    rw [words_append_of_allBlank hleft, words_append_word hfree hne hrest, ih]

/-- The list of words is what a pass over the text finds. -/
theorem words_eq_wordsInPass (text : Bytes) : words text = wordsInPass text :=
  (hasWords_wordsInPass text).words_eq

theorem hasWords_iff {text : Bytes} {found : List Bytes} : HasWords text found ↔ words text = found := by
  constructor
  · intro h
    exact h.words_eq
  · rintro rfl
    rw [words_eq_wordsInPass]
    exact hasWords_wordsInPass text

/-- A text is two words in one way only. -/
theorem TwoWords.unique {text first second first' second' : Bytes} (h : TwoWords text first second)
    (h' : TwoWords text first' second') : first' = first ∧ second' = second := by
  have hwords := (words_eq_pair_iff.mpr h').symm.trans (words_eq_pair_iff.mpr h)
  simpa using hwords

theorem length_words_eq_two_iff {text : Bytes} :
    (words text).length = 2 ↔ ∃ first second, TwoWords text first second := by
  simp only [List.length_eq_two, words_eq_pair_iff]

/-- Trimming takes no word away. -/
theorem words_trim (text : Bytes) : words (trim text) = words text := by
  rcases (strips_trim text).blanks with ⟨left, right, htext, hleft, hright⟩
  have hcore : HasWords (trim text) (words (trim text)) := hasWords_iff.mpr rfl
  have hall := (hcore.append_left hleft).append_right hright
  rw [← htext] at hall
  exact hall.words_eq.symm

end TemplateLexer.Bytes
