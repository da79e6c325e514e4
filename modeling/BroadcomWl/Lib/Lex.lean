import Mathlib

/-!
# Lexicographic minimum and maximum

Lists over a linear order are linearly ordered lexicographically. `min_cons` and `max_cons` are the
equations that a loop over two arrays follows; octets are ordered as unsigned numbers.
-/

namespace BroadcomWl.Lib

namespace Octet

/-- Octets as unsigned numbers. -/
scoped instance linearOrder : LinearOrder UInt8 where
  le_refl := UInt8.le_refl
  le_trans _ _ _ := UInt8.le_trans
  le_antisymm _ _ := UInt8.le_antisymm
  le_total := UInt8.le_total
  lt_iff_le_not_ge _ _ := by
    rw [UInt8.lt_iff_le_and_ne]
    refine ⟨fun h => ⟨h.1, fun h' => h.2 (UInt8.le_antisymm h.1 h')⟩, fun h => ⟨h.1, fun heq => ?_⟩⟩
    exact h.2 (heq ▸ UInt8.le_refl _)
  toDecidableLE := inferInstance
  toDecidableEq := inferInstance
  toDecidableLT := inferInstance

end Octet

variable {α : Type} [LinearOrder α]

theorem cons_min_cons (a b : α) (x y : List α) : min (a :: x) (b :: y) =
    if a = b then a :: min x y else if b < a then b :: y else a :: x := by
  by_cases heq : a = b
  · subst heq
    rw [if_pos rfl]
    rcases le_total x y with h | h
    · rw [min_eq_left h, min_eq_left (List.cons_le_cons a h)]
    · rw [min_eq_right h, min_eq_right (List.cons_le_cons a h)]
  · rw [if_neg heq]
    split
    · rename_i h
      exact min_eq_right (List.cons_lt_cons_iff.mpr (.inl h)).le
    · rename_i h
      have hlt : a < b := lt_of_le_of_ne (not_lt.mp h) heq
      exact min_eq_left (List.cons_lt_cons_iff.mpr (.inl hlt)).le

theorem cons_max_cons (a b : α) (x y : List α) : max (a :: x) (b :: y) =
    if a = b then a :: max x y else if a < b then b :: y else a :: x := by
  by_cases heq : a = b
  · subst heq
    rw [if_pos rfl]
    rcases le_total x y with h | h
    · rw [max_eq_right h, max_eq_right (List.cons_le_cons a h)]
    · rw [max_eq_left h, max_eq_left (List.cons_le_cons a h)]
  · rw [if_neg heq]
    split
    · rename_i h
      exact max_eq_right (List.cons_lt_cons_iff.mpr (.inl h)).le
    · rename_i h
      have hlt : b < a := lt_of_le_of_ne (not_lt.mp h) (Ne.symm heq)
      exact max_eq_left (List.cons_lt_cons_iff.mpr (.inl hlt)).le

end BroadcomWl.Lib
