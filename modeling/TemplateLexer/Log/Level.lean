import TemplateLexer.Bytes.Basic

/-!
# Log levels

A level is a rank on one scale; seven ranks have names. Levels are compared by rank, so a threshold
may lie anywhere on the scale, below the lowest or above the highest name.
-/

namespace TemplateLexer.Log

open Bytes

/-- A severity, or a threshold for severities. -/
structure Level where
  rank : Int
  deriving DecidableEq, Repr

namespace Level

/-- Every token and line decision of a scan. -/
def trace : Level := ⟨0⟩
/-- Summaries and changes of state. -/
def debug : Level := ⟨1⟩
/-- General information. -/
def info : Level := ⟨2⟩
/-- Ignored configuration and suspicious input. -/
def warn : Level := ⟨3⟩
/-- Errors that can be recovered from. -/
def error : Level := ⟨4⟩
/-- Errors that cannot. -/
def fatal : Level := ⟨5⟩
/-- A threshold above all severities. -/
def off : Level := ⟨6⟩

instance : LE Level := ⟨fun a b => a.rank ≤ b.rank⟩
instance : LT Level := ⟨fun a b => a.rank < b.rank⟩
instance (a b : Level) : Decidable (a ≤ b) := inferInstanceAs (Decidable (a.rank ≤ b.rank))
instance (a b : Level) : Decidable (a < b) := inferInstanceAs (Decidable (a.rank < b.rank))
instance : Inhabited Level := ⟨info⟩

theorem le_iff {a b : Level} : a ≤ b ↔ a.rank ≤ b.rank := Iff.rfl
theorem lt_iff {a b : Level} : a < b ↔ a.rank < b.rank := Iff.rfl

theorem le_trans {a b c : Level} (hab : a ≤ b) (hbc : b ≤ c) : a ≤ c := Int.le_trans hab hbc

/-- The lower of two levels. -/
def lower (a b : Level) : Level := if b < a then b else a

theorem le_lower_iff {a b c : Level} : c ≤ a.lower b ↔ c ≤ a ∧ c ≤ b := by
  unfold lower
  split
  · next h =>
    rw [lt_iff] at h
    simp only [le_iff]
    omega
  · next h =>
    rw [lt_iff] at h
    simp only [le_iff]
    omega

theorem lower_eq_left_iff {a b : Level} : a.lower b = a ↔ a ≤ b := by
  rcases a with ⟨a⟩
  rcases b with ⟨b⟩
  simp only [lower, lt_iff, le_iff]
  split
  · simp only [Level.mk.injEq]
    omega
  · simp only [true_iff]
    omega

theorem lower_eq_right_iff {a b : Level} : a.lower b = b ↔ b ≤ a := by
  rcases a with ⟨a⟩
  rcases b with ⟨b⟩
  simp only [lower, lt_iff, le_iff]
  split
  · simp only [true_iff]
    omega
  · simp only [Level.mk.injEq]
    omega

/-- Thresholds that let the same levels pass are the same. -/
theorem eq_of_forall_le_iff {a b : Level} (h : ∀ level, a ≤ level ↔ b ≤ level) : a = b := by
  have hab : b ≤ a := (h a).mp (Int.le_refl _)
  have hba : a ≤ b := (h b).mpr (Int.le_refl _)
  rcases a with ⟨a⟩
  rcases b with ⟨b⟩
  rw [Level.mk.injEq]
  exact Int.le_antisymm hba hab

/-- The named levels with their names in capital letters. -/
def names : List (Level × Bytes) :=
  [ (trace, ascii "TRACE"), (debug, ascii "DEBUG"), (info, ascii "INFO"), (warn, ascii "WARN"),
    (error, ascii "ERROR"), (fatal, ascii "FATAL"), (off, ascii "OFF") ]

/-- The name of a level in capital letters. -/
def name (level : Level) : Bytes := (names.lookup level).getD (ascii "???")

/-- The level of a name that is written all in small or all in capital letters; any other text means
`info`. -/
def parse (text : Bytes) : Level :=
  match names.find? fun entry => entry.2 = text || entry.2.map lowerByte = text with
  | some entry => entry.1
  | none => info

end Level

end TemplateLexer.Log
