import Mathlib.Data.List.Basic

/-!
# Pieces of a text

A list is cut at an element into pieces. What is joined with that element between its parts is
cut into the pieces of the parts.
-/

namespace Disassembly

section Pieces
variable {α : Type} [BEq α] [LawfulBEq α] {c : α}

/-- A list is cut at each occurrence, so its two sides are cut on their own. -/
theorem splitOn_append_cons (s t : List α) :
    (s ++ c :: t).splitOn c = s.splitOn c ++ t.splitOn c := by
  simp only [List.splitOn_eq_splitOnP]
  exact List.splitOnP_append_cons s t (beq_self_eq_true c)

/-- Lists that are each closed by an element that none of them has are found again. -/
theorem splitOn_flatMap_closed (ps : List (List α)) (hps : ∀ p ∈ ps, c ∉ p) :
    (ps.flatMap (· ++ [c])).splitOn c = ps ++ [[]] := by
  induction ps with
  | nil => rfl
  | cons p ps ih =>
      obtain ⟨hp, hrest⟩ := List.forall_mem_cons.mp hps
      rw [List.flatMap_cons, List.append_assoc, List.singleton_append, splitOn_append_cons,
        List.splitOn_eq_singleton hp, ih hrest]
      rfl

/-- Lists that are each opened by the element are cut one after the other, behind what stands
before the first of them. -/
theorem splitOn_append_flatMap_opened (s : List α) (ps : List (List α)) :
    (s ++ ps.flatMap (c :: ·)).splitOn c = s.splitOn c ++ ps.flatMap (·.splitOn c) := by
  induction ps generalizing s with
  | nil => simp only [List.flatMap_nil, List.append_nil]
  | cons p ps ih =>
      rw [List.flatMap_cons, List.cons_append, splitOn_append_cons, ih, List.flatMap_cons]

end Pieces

end Disassembly
