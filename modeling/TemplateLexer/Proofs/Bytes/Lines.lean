import TemplateLexer.Bytes.Basic

/-!
# Texts of lines

Lines that are written one after the other, each with a newline at its end, can be told apart again if no
line has a newline of its own (`linesOf_flatMap`), and there are as many newlines as lines
(`count_newline_lines`).
-/

namespace TemplateLexer.Bytes

/-- The lines of a text, each without the newline that ends it. What follows the last newline is no
line. -/
def linesOf (text : Bytes) : List Bytes := (text.splitOnP (· == newline)).dropLast

variable {ls : List Bytes}

theorem splitOnP_flatMap (h : ∀ line ∈ ls, newline ∉ line) :
    (ls.flatMap (· ++ [newline])).splitOnP (· == newline) = ls ++ [[]] := by
  induction ls with
  | nil => rfl
  | cons line rest ih =>
    have hfirst : ∀ b ∈ line, (b == newline) = false := by
      intro b hb
      rw [beq_eq_false_iff_ne]
      rintro rfl
      exact h line List.mem_cons_self hb
    have hrest := ih fun other hother => h other (List.mem_cons_of_mem _ hother)
    rw [List.flatMap_cons, List.append_assoc, List.singleton_append,
      List.splitOnP_append_cons_of_forall_mem hfirst newline rfl, hrest, List.cons_append]

/-- Lines are told apart by the newlines at their ends. -/
theorem linesOf_flatMap (h : ∀ line ∈ ls, newline ∉ line) :
    linesOf (ls.flatMap (· ++ [newline])) = ls := by
  rw [linesOf, splitOnP_flatMap h, List.dropLast_concat]

/-- Lines have as many newlines as there are lines. -/
theorem count_newline_lines (h : ∀ line ∈ ls, newline ∉ line) :
    (ls.flatMap (· ++ [newline])).count newline = ls.length := by
  induction ls with
  | nil => rfl
  | cons line rest ih =>
    have hfirst : line.count newline = 0 := List.count_eq_zero.mpr (h line List.mem_cons_self)
    have hrest := ih fun other hother => h other (List.mem_cons_of_mem _ hother)
    rw [List.flatMap_cons, List.count_append, List.count_append, hfirst, hrest, List.length_cons]
    simp only [List.count_singleton_self]
    omega

end TemplateLexer.Bytes
