import Mathlib.Data.List.Basic

/-! Text in cells that a character separates. -/
namespace Hftrs.Library

variable {α : Type} [BEq α] [LawfulBEq α]

/-- A cell has its characters from the text, and the separator is none of them. -/
theorem mem_of_cell {separator : α} {text cell : List α} (member : cell ∈ text.splitOn separator) :
    ∀ c ∈ cell, c ∈ text ∧ c ≠ separator := by
  induction text generalizing cell with
  | nil =>
    rw [List.splitOn_nil, List.mem_singleton] at member
    subst member
    simp
  | cons first text ih =>
    rw [List.splitOn_cons_eq_if_modifyHead] at member
    split at member
    next =>
      rcases List.mem_cons.mp member with rfl | later
      · simp
      · exact fun c inside => (ih later c inside).imp_left (List.mem_cons_of_mem first)
    next apart =>
      -- the first character joins the cell that the rest of the text begins with
      obtain ⟨head, cells, shape⟩ :=
        List.exists_cons_of_ne_nil (List.splitOn_ne_nil separator text)
      rw [shape, List.modifyHead_cons] at member
      rw [shape] at ih
      have onwards := fun {cell : List α} (here : cell ∈ head :: cells) c (inside : c ∈ cell) =>
        (ih here c inside).imp_left (List.mem_cons_of_mem first)
      rcases List.mem_cons.mp member with rfl | later
      · intro c inside
        rcases List.mem_cons.mp inside with rfl | within
        · exact ⟨List.mem_cons_self, fun same => apart (beq_iff_eq.mpr same)⟩
        · exact onwards List.mem_cons_self c within
      · exact onwards (List.mem_cons_of_mem _ later)

/-- Lines that end with a character of their own are the cells before it, and an empty one
follows. -/
theorem splitOn_lines (stop : α) (lines : List (List α))
    (free : ∀ line ∈ lines, stop ∉ line) :
    (lines.flatMap fun line => line ++ [stop]).splitOn stop = lines ++ [[]] := by
  induction lines with
  | nil => simp
  | cons line lines ih =>
    rw [List.flatMap_cons, List.append_assoc, List.singleton_append,
      List.splitOn_append_cons_self_of_not_mem (free line (by simp)),
      ih fun other member => free other (by simp [member])]
    rfl

end Hftrs.Library
