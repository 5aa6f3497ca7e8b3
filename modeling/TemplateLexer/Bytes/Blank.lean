import TemplateLexer.Bytes.Basic

/-!
# Blanks and words

Six bytes count as blank in tag bodies and delimiter specifications. A *word* is a maximal run of
bytes that are not blank.

* `Bytes.trim` strips blanks at both ends;
* `Bytes.words` lists the words of a text;
* `Bytes.cutWord` splits a text at its first run of blanks.

Every word is non-empty and free of blanks (`Bytes.ne_nil_of_mem_words`,
`Bytes.blankFree_of_mem_words`), which is what makes a word usable as a delimiter.
-/

namespace TemplateLexer.Bytes

/-- Space, tab, newline, carriage return, form feed and vertical tab are blank. -/
def isBlank (b : UInt8) : Bool :=
  b == space || b == tab || b == newline || b == carriageReturn || b == 0x0C || b == 0x0B

/-- Does the text hold nothing but blanks? The empty text does. -/
def allBlank (text : Bytes) : Bool := text.all isBlank

/-- No byte of the text is blank. -/
def BlankFree (text : Bytes) : Prop := ∀ b ∈ text, isBlank b = false

/-- A text is free of blanks if a look at each byte finds none. -/
theorem blankFree_iff_all {text : Bytes} :
    (text.all fun b => !isBlank b) = true ↔ BlankFree text := by
  simp [BlankFree]

instance (text : Bytes) : Decidable (BlankFree text) := decidable_of_iff _ blankFree_iff_all

/-- The text without the blanks it starts with. -/
def trimStart (text : Bytes) : Bytes := text.dropWhile isBlank

/-- The text without the blanks it ends with. -/
def trimEnd (text : Bytes) : Bytes := (text.reverse.dropWhile isBlank).reverse

/-- The text without the blanks at its two ends. -/
def trim (text : Bytes) : Bytes := trimEnd (trimStart text)

/-- The words of a text in their order: the non-empty pieces between blanks. -/
def words (text : Bytes) : List Bytes :=
  (text.splitOnP isBlank).filter fun piece => !piece.isEmpty

/-- The first word of a text that does not start with a blank, and what follows the run of blanks
after it. -/
def cutWord (text : Bytes) : Bytes × Bytes :=
  (text.takeWhile fun b => !isBlank b, trimStart (text.dropWhile fun b => !isBlank b))

/-! ## Words have no blanks -/

/-- The pieces between separators hold no separator. -/
theorem not_sep_of_mem_splitOnP {sep : UInt8 → Bool} {text piece : Bytes} {b : UInt8}
    (hp : piece ∈ text.splitOnP sep) (hb : b ∈ piece) : sep b = false := by
  induction text generalizing piece with
  | nil =>
    simp only [List.splitOnP_nil, List.mem_singleton] at hp
    subst hp
    cases hb
  | cons c rest ih =>
    rw [List.splitOnP_cons_eq_if_modifyHead] at hp
    split at hp
    · rcases List.mem_cons.mp hp with rfl | hp
      · cases hb
      · exact ih hp hb
    · next hc =>
      cases hs : rest.splitOnP sep with
      | nil => exact absurd hs (by simp)
      | cons first others =>
        rw [hs] at hp ih
        simp only [List.modifyHead_cons] at hp
        rcases List.mem_cons.mp hp with rfl | hp
        · rcases List.mem_cons.mp hb with rfl | hb
          · simpa using hc
          · exact ih List.mem_cons_self hb
        · exact ih (List.mem_cons_of_mem _ hp) hb

theorem ne_nil_of_mem_words {text word : Bytes} (h : word ∈ words text) : word ≠ [] := by
  have h' := (List.mem_filter.mp h).2
  simpa using h'

theorem blankFree_of_mem_words {text word : Bytes} (h : word ∈ words text) : BlankFree word :=
  fun _ hb => not_sep_of_mem_splitOnP (List.mem_filter.mp h).1 hb

end TemplateLexer.Bytes
