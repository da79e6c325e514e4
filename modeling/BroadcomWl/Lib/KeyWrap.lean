import Mathlib

/-!
# Wrapping keys with a block cipher

The construction of RFC 3394, over any type of half blocks. The state is a register and `n` half
blocks; a step enciphers the register together with one of them and mixes the number of the step
into the register. Six passes over the half blocks make `6 * n` steps.

**Inverse.** A step is a permutation of the states where the cipher and the mixing are permutations.
So the wrapping is one as well, and its inverse takes the inverse steps in reverse order
(`wrap_symm_apply`).

**Numbers.** The wrapping depends on how the numbers up to `6 * n` are mixed, and on no others
(`wrap_congr`). -/

namespace BroadcomWl.Lib.KeyWrap

open Equiv (Perm)

/-! ## Permutations one after the other -/

section

variable {S : Type}

/-- The permutations of a list, the first one first. -/
def chain (L : List (Perm S)) : Perm S := L.reverse.prod

theorem chain_apply (L : List (Perm S)) (x : S) : chain L x = L.foldl (fun x f => f x) x := by
  induction L generalizing x with
  | nil => rfl
  | cons f L ih =>
      rw [List.foldl_cons, ← ih, chain, List.reverse_cons, List.prod_append, List.prod_singleton]
      rfl

theorem chain_symm_apply (L : List (Perm S)) (x : S) :
    (chain L).symm x = L.reverse.foldl (fun x f => f.symm x) x := by
  rw [Equiv.symm_apply_eq, chain_apply, List.foldl_reverse]
  induction L generalizing x with
  | nil => rfl
  | cons f L ih =>
      rw [List.foldr_cons, List.foldl_cons, Equiv.apply_symm_apply, ← ih]

end

/-! ## The steps -/

section

variable {W : Type} {n : ℕ}

/-- The state: the register and the half blocks. -/
abbrev State (W : Type) (n : ℕ) := W × (Fin n → W)

/-- One step, of a number and on a half block. -/
def step (E : Perm (W × W)) (mix : ℕ → Perm W) (s : ℕ × Fin n) : Perm (State W n) where
  toFun x := (mix s.1 (E (x.1, x.2 s.2)).1, Function.update x.2 s.2 (E (x.1, x.2 s.2)).2)
  invFun x :=
    ((E.symm ((mix s.1).symm x.1, x.2 s.2)).1,
      Function.update x.2 s.2 (E.symm ((mix s.1).symm x.1, x.2 s.2)).2)
  left_inv x := by simp
  right_inv x := by simp

/-- The numbers of the steps, and the half blocks that they are on. -/
def steps (n : ℕ) : List (ℕ × Fin n) :=
  (List.range 6).flatMap fun j => (List.finRange n).map fun i : Fin n => (n * j + i + 1, i)

theorem mem_steps {s : ℕ × Fin n} (h : s ∈ steps n) : 1 ≤ s.1 ∧ s.1 ≤ 6 * n := by
  simp only [steps, List.mem_flatMap, List.mem_range, List.mem_map] at h
  obtain ⟨j, hj, i, -, rfl⟩ := h
  have hi := i.isLt
  have hmul : n * j ≤ n * 5 := Nat.mul_le_mul_left n (Nat.le_of_lt_succ hj)
  constructor
  · exact Nat.le_add_left 1 _
  · omega

/-- **The wrapping.** -/
def wrap (E : Perm (W × W)) (mix : ℕ → Perm W) (n : ℕ) : Perm (State W n) :=
  chain ((steps n).map (step E mix))

variable (E : Perm (W × W)) {mix mix' : ℕ → Perm W}

theorem wrap_apply (x : State W n) :
    wrap E mix n x = (List.range 6).foldl (fun x j =>
      (List.finRange n).foldl (fun x (i : Fin n) => step E mix (n * j + i + 1, i) x) x) x := by
  rw [wrap, chain_apply, List.foldl_map, steps, List.foldl_flatMap]
  simp only [List.foldl_map]

theorem wrap_symm_apply (x : State W n) :
    (wrap E mix n).symm x = (List.range 6).reverse.foldl
      (fun x j => (List.finRange n).reverse.foldl
        (fun x (i : Fin n) => (step E mix (n * j + i + 1, i)).symm x) x) x := by
  rw [wrap, chain_symm_apply, ← List.map_reverse, List.foldl_map, steps, List.reverse_flatMap,
    List.foldl_flatMap]
  simp only [Function.comp_apply, ← List.map_reverse, List.foldl_map]

theorem wrap_congr (h : ∀ t, 1 ≤ t → t ≤ 6 * n → mix t = mix' t) :
    wrap E mix n = wrap E mix' n := by
  rw [wrap, wrap]
  refine congrArg chain (List.map_congr_left fun s hs => ?_)
  obtain ⟨hpos, hle⟩ := mem_steps hs
  simp only [step, h s.1 hpos hle]

/-- Without a cipher the register takes up the numbers, one after the other. -/
theorem wrap_one_fst (x : State W n) :
    (wrap 1 mix n x).1 = ((steps n).map Prod.fst).foldl (fun a t => mix t a) x.1 := by
  rw [wrap, chain_apply, List.foldl_map, List.foldl_map]
  generalize steps n = L
  induction L generalizing x with
  | nil => rfl
  | cons s L ih => rw [List.foldl_cons, List.foldl_cons, ih]; rfl

theorem flatMap_range (m n : ℕ) :
    ((List.range m).flatMap fun j => (List.range n).map fun i => n * j + i + 1) =
      (List.range (m * n)).map (· + 1) := by
  induction m with
  | zero => simp
  | succ m ih =>
      rw [List.range_succ, List.flatMap_append, ih, Nat.succ_mul, List.range_add, List.map_append,
        List.map_map]
      simp [Function.comp_def, Nat.mul_comm]

theorem steps_fst (n : ℕ) : (steps n).map Prod.fst = (List.range (6 * n)).map (· + 1) := by
  rw [← flatMap_range, steps, List.map_flatMap]
  refine congrArg (List.flatMap · _) (funext fun j => ?_)
  rw [List.map_map, ← List.map_coe_finRange_eq_range, List.map_map]
  rfl

end

end BroadcomWl.Lib.KeyWrap
