import TemplateLexer.Proofs.Bytes.Words

/-!
# Specifications of delimiter pairs

A specification names a pair if it has two words, and which pair it names is told by the words alone.

* `readsAs_iff`: what is read is two words with blanks between them and around them;
* `parse_eq_error_iff`: any other number of words is refused;
* `parse_trim`: blanks around a specification make no difference;
* `parse_twoWords`: all of it together, and that a pair is read back from its words with a space between.
-/

namespace TemplateLexer.Delimiters

open Bytes

/-- The specification is accepted, and these are the delimiters of the pair. -/
def ReadsAs (spec first second : Bytes) : Prop :=
  ∃ pair, parse spec = .ok pair ∧ pair.openMark = first ∧ pair.closeMark = second

variable {spec first second : Bytes}

theorem readsAs_iff : ReadsAs spec first second ↔ TwoWords spec first second := by
  constructor
  · rintro ⟨pair, hpair, rfl, rfl⟩
    exact words_eq_pair_iff.mp (parse_eq_ok_iff.mp hpair)
  · intro h
    refine ⟨⟨first, second, h.first_ne_nil, h.second_ne_nil, h.first_blankFree, h.second_blankFree⟩,
      ?_, rfl, rfl⟩
    exact parse_eq_ok_iff.mpr (words_eq_pair_iff.mpr h)

/-- A pair is told by its delimiters and read back from them. -/
theorem readsAs_append_space (hfirst : BlankFree first) (hsecond : BlankFree second)
    (hne : first ≠ []) (hne' : second ≠ []) : ReadsAs (first ++ space :: second) first second :=
  let pair : Delimiters := ⟨first, second, hne, hne', hfirst, hsecond⟩
  ⟨pair, parse_render pair, rfl, rfl⟩

/-- A refusal shows the specification as it was given. -/
theorem parse_eq_error_iff : parse spec = .error ⟨spec⟩ ↔ (words spec).length ≠ 2 := by
  constructor
  · intro herror htwo
    rcases length_words_eq_two_iff.mp htwo with ⟨first, second, h⟩
    rcases readsAs_iff.mpr h with ⟨pair, hpair, -⟩
    rw [hpair] at herror
    cases herror
  · intro hlength
    unfold parse
    split
    · next first second hwords =>
      rw [hwords] at hlength
      exact absurd rfl hlength
    · rfl

/-- Blanks around a specification make no difference to the pair. -/
theorem parse_trim (pair : Delimiters) : parse (trim spec) = .ok pair ↔ parse spec = .ok pair := by
  rw [parse_eq_ok_iff, parse_eq_ok_iff, words_trim]

/-- **The grammar of pairs.** A specification is read as a pair exactly if it is the two delimiters, neither
of them empty or with a blank in it, with blanks between them and perhaps around them, and no two pairs are
read from it. Two delimiters with a space between them are read back, and trimming a specification makes no
difference. Every specification has one list of words, and exactly if these are not two it is refused. -/
theorem parse_twoWords (spec : Bytes) :
    (∀ first second, ReadsAs spec first second ↔ TwoWords spec first second) ∧
    (∀ first second first' second', TwoWords spec first second → TwoWords spec first' second' →
      first' = first ∧ second' = second) ∧
    (∀ first second, BlankFree first → BlankFree second → first ≠ [] → second ≠ [] →
      ReadsAs (first ++ space :: second) first second) ∧
    (∀ pair, parse (trim spec) = .ok pair ↔ parse spec = .ok pair) ∧
    (∃ found, HasWords spec found ∧ (∀ found', HasWords spec found' → found' = found) ∧
      (parse spec = .error ⟨spec⟩ ↔ found.length ≠ 2)) ∧
    ((∀ first second, ¬ TwoWords spec first second) → parse spec = .error ⟨spec⟩) := by
  refine ⟨fun _ _ => readsAs_iff, fun _ _ _ _ => TwoWords.unique,
    fun _ _ => readsAs_append_space, parse_trim, ?_, ?_⟩
  · refine ⟨words spec, hasWords_iff.mpr rfl, ?_, parse_eq_error_iff⟩
    intro found hfound
    exact hfound.words_eq.symm
  · intro hnone
    rw [parse_eq_error_iff, ne_eq, length_words_eq_two_iff]
    rintro ⟨first, second, h⟩
    exact hnone first second h

/-- A specification with a tab, a newline and spaces, one of three words and a blank one. -/
theorem parse_twoWords_percent :
    let spec := ascii "\t<%  %>\n"
    let second := ascii "%>"
    TwoWords spec (ascii "<%") second ∧ ReadsAs spec (ascii "<%") second ∧
      (∀ pair, parse (ascii "<%  %>") = .ok pair ↔ parse spec = .ok pair) ∧
      ReadsAs (ascii "<% %>") (ascii "<%") second ∧
      parse (ascii "<% %> end") = .error ⟨ascii "<% %> end"⟩ ∧ parse (ascii " ") = .error ⟨ascii " "⟩ := by
  intro spec second
  have htwo : TwoWords spec (ascii "<%") second := words_eq_pair_iff.mp (by decide)
  have hthree : HasWords (ascii "<% %> end") [ascii "<%", second, ascii "end"] :=
    hasWords_iff.mpr (by decide)
  have hblank : HasWords (ascii " ") [] := .blank (by decide)
  rcases parse_twoWords spec with ⟨hreads, -, hwritten, htrim, -⟩
  rcases parse_twoWords (ascii "<% %> end") with ⟨-, -, -, -, ⟨found, -, hfound, herror⟩, -⟩
  rcases parse_twoWords (ascii " ") with ⟨-, -, -, -, ⟨found', -, hfound', herror'⟩, -⟩
  refine ⟨htwo, (hreads _ _).mpr htwo, htrim, ?_, ?_, ?_⟩
  · exact hwritten (ascii "<%") second (by decide) (by decide) (by decide) (by decide)
  · rw [herror, ← hfound _ hthree]
    decide
  · rw [herror', ← hfound' _ hblank]
    decide

end TemplateLexer.Delimiters
