import Mathlib

/-!
# Ciphers of rounds

A cipher adds a key, makes rounds that substitute, mix and add a round key each, and ends with a
round that does not mix. What adds a key, substitutes and mixes are elements of a group, such as
that of the permutations of the blocks.

**The equivalent inverse.** Where adding a key is its own inverse, and the inverse of the mixing
goes past it, the inverse of a cipher is a cipher again, with inverse substitution and mixing and
other keys in reverse order (`cipher_inv`). -/

namespace BroadcomWl.Lib.Rounds

open Equiv (Perm)

variable {G K : Type} [Group G] (A : K → G) (S M : G)

/-- The cipher with a key to begin with, the keys of the full rounds, and that of the last one. -/
def cipher (first : K) (ks : List K) (last : K) : G :=
  A last * S * (ks.map fun k => A k * M * S).reverse.prod * A first

variable {A S M} {f : K → K}

/-- **The inverse of a cipher.** -/
theorem cipher_inv (hA : ∀ k, A k * A k = 1) (hM : ∀ k, M⁻¹ * A k = A (f k) * M⁻¹) (first : K)
    (ks : List K) (last : K) :
    (cipher A S M first ks last)⁻¹ = cipher A S⁻¹ M⁻¹ last (ks.map f).reverse first := by
  have hinv (k : K) : (A k)⁻¹ = A k := inv_eq_of_mul_eq_one_right (hA k)
  have hrounds : (ks.map fun k => (A k * M * S)⁻¹).prod * S⁻¹ =
      S⁻¹ * ((ks.map f).map fun k => A k * M⁻¹ * S⁻¹).prod := by
    induction ks with
    | nil => simp
    | cons k ks ih =>
        have hround : (A k * M * S)⁻¹ = S⁻¹ * (A (f k) * M⁻¹) := by
          rw [mul_inv_rev, mul_inv_rev, hinv, hM]
        simp only [List.map_cons, List.prod_cons]
        rw [mul_assoc, ih, hround]
        simp only [mul_assoc]
  rw [cipher, cipher, mul_inv_rev, mul_inv_rev, mul_inv_rev, hinv, hinv, List.prod_inv_reverse,
    List.map_reverse, List.map_reverse, List.map_map, List.reverse_reverse, List.reverse_reverse]
  calc A first * ((ks.map fun k => (A k * M * S)⁻¹).prod * (S⁻¹ * A last))
      = A first * ((ks.map fun k => (A k * M * S)⁻¹).prod * S⁻¹) * A last := by
        simp only [mul_assoc]
    _ = A first * S⁻¹ * ((ks.map f).map fun k => A k * M⁻¹ * S⁻¹).prod * A last := by
      rw [hrounds]; simp only [mul_assoc]

theorem cipher_apply {X : Type} {A : K → Perm X} {S M : Perm X} (first : K) (ks : List K)
    (last : K) (x : X) :
    cipher A S M first ks last x =
      A last (S (ks.foldl (fun x k => A k (M (S x))) (A first x))) := by
  have hrounds (y : X) :
      (ks.map fun k => A k * M * S).reverse.prod y = ks.foldl (fun x k => A k (M (S x))) y := by
    induction ks generalizing y with
    | nil => rfl
    | cons k ks ih =>
        rw [List.map_cons, List.reverse_cons, List.prod_append, List.prod_singleton,
          Perm.mul_apply, ih]
        rfl
  rw [cipher, Perm.mul_apply, Perm.mul_apply, Perm.mul_apply, hrounds]

end BroadcomWl.Lib.Rounds
