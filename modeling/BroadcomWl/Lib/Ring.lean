import Mathlib

/-!
# Rings

The cells of an array of `n` cells are used around the ring: position `i` is in cell `i % n`, and
positions only grow. The cells in use are those of a window of positions, and `OnRing` says what is
in them.

A window of fewer than `n` positions can be made longer at its end (`OnRing.push`) and shorter at
its front (`OnRing.tail`), and does not see what happens outside of it (`OnRing.update`). -/

namespace BroadcomWl.Lib

variable {α : Type}

/-- The cells from position `i` on are those of the list. -/
def OnRing (n : Nat) (cell : Nat → α) (i : Nat) (l : List α) : Prop :=
  ∀ j (h : j < l.length), cell ((i + j) % n) = l[j]

theorem ring_inj {n i j k : Nat} (hj : j < n) (hk : k < n) : (i + j) % n = (i + k) % n ↔ j = k := by
  constructor
  · intro h
    have hmod : j ≡ k [MOD n] := Nat.ModEq.add_left_cancel' i h
    rwa [Nat.ModEq, Nat.mod_eq_of_lt hj, Nat.mod_eq_of_lt hk] at hmod
  · rintro rfl
    rfl

theorem ring_eq {n i j : Nat} (hij : i ≤ j) (hj : j < i + n) (h : i % n = j % n) : j = i := by
  obtain ⟨d, rfl⟩ := Nat.exists_eq_add_of_le hij
  have hzero := (ring_inj (i := i) (j := 0) (k := d) (by omega) (by omega)).mp h
  omega

namespace OnRing

variable {n i : Nat} {cell : Nat → α} {a : α} {l l' : List α}

theorem nil (n : Nat) (cell : Nat → α) (i : Nat) : OnRing n cell i [] :=
  fun _ h => absurd h (Nat.not_lt_zero _)

theorem cons_iff : OnRing n cell i (a :: l) ↔ cell (i % n) = a ∧ OnRing n cell (i + 1) l := by
  constructor
  · intro h
    refine ⟨h 0 (Nat.succ_pos _), fun j hj => ?_⟩
    have hnext := h (j + 1) (Nat.succ_lt_succ hj)
    rwa [List.getElem_cons_succ, ← Nat.add_assoc, Nat.add_right_comm] at hnext
  · rintro ⟨hfirst, hrest⟩ j hj
    cases j with
    | zero => exact hfirst
    | succ j =>
        have hnext := hrest j (Nat.lt_of_succ_lt_succ hj)
        rwa [Nat.add_right_comm, Nat.add_assoc] at hnext

theorem append_iff : OnRing n cell i (l ++ l') ↔
    OnRing n cell i l ∧ OnRing n cell (i + l.length) l' := by
  induction l generalizing i with
  | nil => exact ⟨fun h => ⟨nil _ _ _, h⟩, fun h => h.2⟩
  | cons a l ih =>
      have hlength : i + (a :: l).length = i + 1 + l.length := by
        rw [List.length_cons]
        omega
      rw [List.cons_append, cons_iff, cons_iff, ih, hlength, and_assoc]

theorem head (h : OnRing n cell i (a :: l)) : cell (i % n) = a := (cons_iff.mp h).1

theorem tail (h : OnRing n cell i (a :: l)) : OnRing n cell (i + 1) l := (cons_iff.mp h).2

/-- **A cell outside of the window.** -/
theorem update (h : OnRing n cell i l) {j : Nat} (hl : l.length ≤ j) (hj : j < n) (b : α) :
    OnRing n (Function.update cell ((i + j) % n) b) i l := by
  intro k hk
  rw [Function.update_of_ne]
  · exact h k hk
  · intro heq
    have hkj := (ring_inj (by omega) hj).mp heq
    omega

/-- **The next cell.** -/
theorem push (h : OnRing n cell i l) (hl : l.length < n) (a : α) :
    OnRing n (Function.update cell ((i + l.length) % n) a) i (l ++ [a]) := by
  refine append_iff.mpr ⟨h.update le_rfl hl a, cons_iff.mpr ⟨?_, nil _ _ _⟩⟩
  rw [Function.update_self]

theorem update_head (h : OnRing n cell (i + 1) l) (hl : l.length < n) (b : α) :
    OnRing n (Function.update cell (i % n) b) (i + 1) l := by
  intro k hk
  rw [Function.update_of_ne]
  · exact h k hk
  · intro heq
    rw [Nat.add_assoc] at heq
    have hzero := (ring_inj (i := i) (j := 1 + k) (k := 0) (by omega) (by omega)).mp heq
    omega

/-- **A cell of the window.** -/
theorem set (h : OnRing n cell i l) (hl : l.length ≤ n) {j : Nat} (hj : j < l.length) (b : α) :
    OnRing n (Function.update cell ((i + j) % n) b) i (l.set j b) := by
  intro k hk
  rw [List.length_set] at hk
  by_cases hkj : k = j
  · subst hkj
    rw [Function.update_self, List.getElem_set_self]
  · rw [Function.update_of_ne, List.getElem_set_ne (Ne.symm hkj)]
    · exact h k hk
    · exact fun heq => hkj ((ring_inj (by omega) (by omega)).mp heq)

/-- **All cells**: the first one is also the one behind the last one. -/
theorem rotate (h : OnRing n cell i (a :: l)) (hl : (a :: l).length = n) (b : α) :
    OnRing n (Function.update cell (i % n) b) (i + 1) (l ++ [b]) := by
  rw [List.length_cons] at hl
  refine append_iff.mpr ⟨h.tail.update_head (by omega) b, cons_iff.mpr ⟨?_, nil _ _ _⟩⟩
  have hback : (i + 1 + l.length) % n = i % n := by
    rw [Nat.add_assoc, Nat.add_comm 1, hl, Nat.add_mod_right]
  rw [hback, Function.update_self]

end OnRing

end BroadcomWl.Lib
