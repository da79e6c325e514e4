import Mathlib

/-!
# The words of a list

A separator cuts a list into pieces, some of which are empty where separators follow each other. The
words are the pieces that are not. `piece_eq_word_iff` says when the first pieces are the first
words. -/

namespace BroadcomWl.Lib

variable {α : Type} [DecidableEq α]

/-- The piece with an index, or nothing where there are fewer. -/
def pieceAt (sep : α) (l : List α) (i : Nat) : List α := (l.splitOn sep).getD i []

/-- The word with an index, or nothing where there are fewer. -/
def wordAt (sep : α) (l : List α) (i : Nat) : List α := ((l.splitOn sep).filter (· ≠ [])).getD i []

variable {sep : α} {w l : List α}

theorem pieceAt_zero_append (hw : sep ∉ w) : pieceAt sep (w ++ sep :: l) 0 = w := by
  rw [pieceAt, List.splitOn_append_cons_self_of_not_mem hw]
  rfl

theorem pieceAt_succ_append (hw : sep ∉ w) (i : Nat) :
    pieceAt sep (w ++ sep :: l) (i + 1) = pieceAt sep l i := by
  rw [pieceAt, List.splitOn_append_cons_self_of_not_mem hw]
  rfl

theorem pieceAt_zero_of_not_mem (hw : sep ∉ w) : pieceAt sep w 0 = w := by
  rw [pieceAt, List.splitOn_eq_singleton hw]
  rfl

theorem pieceAt_succ_of_not_mem (hw : sep ∉ w) (i : Nat) : pieceAt sep w (i + 1) = [] := by
  rw [pieceAt, List.splitOn_eq_singleton hw]
  rfl

section

variable (ls : List (List α))

omit [DecidableEq α]

theorem filter_eq_nil_iff_getD : ls.filter (· ≠ []) = [] ↔ ∀ j, ls.getD j [] = [] := by
  rw [List.filter_eq_nil_iff]
  constructor
  · intro h j
    by_cases hj : j < ls.length
    · rw [List.getD_eq_getElem _ _ hj]
      simpa using h ls[j] (List.getElem_mem hj)
    · exact List.getD_eq_default _ _ (Nat.le_of_not_lt hj)
  · intro h w hw
    obtain ⟨j, hj, rfl⟩ := List.getElem_of_mem hw
    have hempty := h j
    rw [List.getD_eq_getElem _ _ hj] at hempty
    simp [hempty]

theorem filter_eq_nil_of_getD_zero (h : (ls.filter (· ≠ [])).getD 0 [] = []) :
    ls.filter (· ≠ []) = [] := by
  cases hwords : ls.filter (· ≠ []) with
  | nil => rfl
  | cons w ws =>
      have hw : w ∈ ls.filter (· ≠ []) := hwords ▸ List.mem_cons_self
      rw [hwords, List.getD_cons_zero] at h
      exact absurd h (of_decide_eq_true (List.mem_filter.mp hw).2)

theorem getD_filter_iff (n : Nat) :
    (∀ i < n, ls.getD i [] = (ls.filter (· ≠ [])).getD i []) ↔
      ∀ i < n, ls.getD i [] = [] → ∀ j, i < j → ls.getD j [] = [] := by
  induction ls generalizing n with
  | nil => simp
  | cons l ls ih =>
      cases n with
      | zero => simp
      | succ n =>
          by_cases hl : l = []
          · -- behind an empty piece there may be no word at all
            subst hl
            have hfilter : ([] :: ls).filter (· ≠ []) = ls.filter (· ≠ []) := by simp
            rw [hfilter]
            constructor
            · intro h i _ _ j hij
              have hnone := filter_eq_nil_of_getD_zero ls (h 0 (Nat.succ_pos n)).symm
              obtain ⟨j, rfl⟩ :=
                Nat.exists_eq_succ_of_ne_zero (Nat.ne_of_gt (Nat.zero_lt_of_lt hij))
              exact (filter_eq_nil_iff_getD ls).mp hnone j
            · intro h i _
              have hall (j : Nat) : ls.getD j [] = [] :=
                h 0 (Nat.succ_pos n) rfl (j + 1) (Nat.succ_pos j)
              rw [(filter_eq_nil_iff_getD ls).mpr hall, List.getD_nil]
              cases i with
              | zero => rfl
              | succ i => exact hall i
          · have hfilter : (l :: ls).filter (· ≠ []) = l :: ls.filter (· ≠ []) := by simp [hl]
            have hrest := ih n
            rw [hfilter]
            constructor
            · intro h i hi hempty j hij
              cases i with
              | zero => exact absurd hempty hl
              | succ i =>
                  obtain ⟨j, rfl⟩ :=
                    Nat.exists_eq_succ_of_ne_zero (Nat.ne_of_gt (Nat.zero_lt_of_lt hij))
                  refine hrest.mp (fun k hk => ?_) i (Nat.lt_of_succ_lt_succ hi) hempty j
                    (Nat.lt_of_succ_lt_succ hij)
                  exact h (k + 1) (Nat.succ_lt_succ hk)
            · intro h i hi
              cases i with
              | zero => rfl
              | succ i =>
                  refine hrest.mpr (fun k hk hempty j hkj => ?_) i (Nat.lt_of_succ_lt_succ hi)
                  exact h (k + 1) (Nat.succ_lt_succ hk) hempty (j + 1) (Nat.succ_lt_succ hkj)

end

/-- **Pieces and words.** The first pieces are the first words if and only if there is no word
behind an empty one of them. -/
theorem piece_eq_word_iff (sep : α) (l : List α) (n : Nat) :
    (∀ i < n, pieceAt sep l i = wordAt sep l i) ↔
      ∀ i < n, pieceAt sep l i = [] → ∀ j, i < j → pieceAt sep l j = [] :=
  getD_filter_iff _ n

end BroadcomWl.Lib
