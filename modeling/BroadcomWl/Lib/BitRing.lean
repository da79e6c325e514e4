import Mathlib

/-!
# Bit strings modulo a polynomial

A string of `n` bits is a polynomial over the field of two elements, bit `j` the coefficient of `X ^
j`. With the bits `r` of a modulus `X ^ n + r` it is an element of a ring (`elem`), and different
strings are different elements (`elem_inj`).

**Doubling.** To multiply by `X` the string is shifted by one bit, and the modulus is taken off if a
bit has come out at the front (`elem_double`). -/

namespace BroadcomWl.Lib.BitRing

open Polynomial

/-- The polynomial of a string. -/
noncomputable def poly (n : Nat) (c : Nat → Bool) : (ZMod 2)[X] :=
  ∑ j ∈ Finset.range n, if c j then X ^ j else 0

/-- The modulus, without its first bit. -/
noncomputable def modulus (n : Nat) (r : Nat → Bool) : (ZMod 2)[X] := X ^ n + poly n r

/-- The element that a string stands for. -/
noncomputable def elem (n : Nat) (r c : Nat → Bool) : AdjoinRoot (modulus n r) :=
  AdjoinRoot.mk (modulus n r) (poly n c)

/-- Shift by one bit. -/
def shift (c : Nat → Bool) (j : Nat) : Bool := decide (0 < j) && c (j - 1)

/-- The string for twice the element. -/
def double (n : Nat) (r c : Nat → Bool) (j : Nat) : Bool := shift c j ^^ (c (n - 1) && r j)

variable {n : Nat} {r c d : Nat → Bool}

theorem coeff_poly (n : Nat) (c : Nat → Bool) (j : Nat) :
    (poly n c).coeff j = if j < n ∧ c j then 1 else 0 := by
  have hterm : ∀ i, (if c i then (X : (ZMod 2)[X]) ^ i else 0).coeff j = if i = j ∧
      c j then 1 else 0 := by
    intro i
    by_cases hij : i = j
    · subst hij
      cases hc : c i with
      | true => rw [if_pos rfl, coeff_X_pow_self, if_pos ⟨rfl, rfl⟩]
      | false => simp
    · have hzero : (X ^ i : (ZMod 2)[X]).coeff j = 0 := by rw [coeff_X_pow, if_neg (Ne.symm hij)]
      have hright : (if i = j ∧ c j then (1 : ZMod 2) else 0) = 0 := if_neg fun h => hij h.1
      rw [hright, apply_ite (fun p => coeff p j), hzero, coeff_zero, ite_self]
  rw [poly, finsetSum_coeff, Finset.sum_congr rfl fun i _ => hterm i]
  by_cases hj : j < n ∧ c j
  · rw [if_pos hj, Finset.sum_eq_single_of_mem j (Finset.mem_range.mpr hj.1), if_pos ⟨rfl, hj.2⟩]
    intro i _ hij
    exact if_neg fun h => hij h.1
  · rw [if_neg hj]
    apply Finset.sum_eq_zero
    intro i hi
    apply if_neg
    intro h
    exact hj ⟨h.1 ▸ Finset.mem_range.mp hi, h.2⟩

theorem poly_congr (h : ∀ j < n, c j = d j) : poly n c = poly n d := by
  apply Finset.sum_congr rfl
  intro j hj
  rw [h j (Finset.mem_range.mp hj)]

theorem poly_inj (h : poly n c = poly n d) : ∀ j < n, c j = d j := by
  intro j hj
  have hcoeff := congrArg (fun p => p.coeff j) h
  simp only [coeff_poly, hj, true_and] at hcoeff
  cases hc : c j with
  | true =>
      cases hd : d j with
      | true => rfl
      | false => simp [hc, hd] at hcoeff
  | false =>
      cases hd : d j with
      | true => simp [hc, hd] at hcoeff
      | false => rfl

theorem degree_poly_lt (n : Nat) (c : Nat → Bool) : (poly n c).degree < n := by
  rw [degree_lt_iff_coeff_zero]
  intro j hj
  rw [coeff_poly, if_neg fun h => absurd h.1 (Nat.not_lt.mpr hj)]

theorem poly_xor (n : Nat) (c d : Nat → Bool) :
    poly n (fun j => c j ^^ d j) = poly n c + poly n d := by
  have htwo : (1 : ZMod 2) + 1 = 0 := by decide
  ext j
  rw [coeff_add, coeff_poly, coeff_poly, coeff_poly]
  by_cases hj : j < n
  · cases hc : c j <;> cases hd : d j <;> simp [hj, htwo]
  · simp [hj]

theorem degree_modulus (n : Nat) (r : Nat → Bool) : (modulus n r).degree = n := by
  rw [modulus, degree_add_eq_left_of_degree_lt]
  · exact degree_X_pow n
  · rw [degree_X_pow]
    exact degree_poly_lt n r

/-- **Different strings** are different elements. -/
theorem elem_inj (h : elem n r c = elem n r d) : ∀ j < n, c j = d j := by
  apply poly_inj
  rw [elem, elem, AdjoinRoot.mk_eq_mk] at h
  apply sub_eq_zero.mp
  apply eq_zero_of_dvd_of_degree_lt h
  rw [degree_modulus]
  exact lt_of_le_of_lt (degree_sub_le _ _) (max_lt (degree_poly_lt n c) (degree_poly_lt n d))

theorem elem_congr (h : ∀ j < n, c j = d j) : elem n r c = elem n r d := by
  rw [elem, elem, poly_congr h]

theorem X_mul_poly (hn : 0 < n) (c : Nat → Bool) :
    X * poly n c = poly n (shift c) + if c (n - 1) then X ^ n else 0 := by
  ext j
  have htop : (if c (n - 1) then (X : (ZMod 2)[X]) ^ n else 0).coeff j = if j = n ∧
      c (n - 1) then 1 else 0 := by
    split
    · rename_i hc
      rw [coeff_X_pow]
      simp [hc]
    · rename_i hc
      rw [coeff_zero, if_neg fun h => hc h.2]
  rw [coeff_add, htop, coeff_poly]
  cases j with
  | zero =>
      rw [coeff_X_mul_zero, if_neg fun h => absurd h.2 (by simp [shift]),
        if_neg fun h => absurd h.1 (by omega), add_zero]
  | succ j =>
      rw [coeff_X_mul, coeff_poly]
      have hshift : shift c (j + 1) = c j := by simp [shift]
      rw [hshift]
      by_cases hlast : j + 1 = n
      · subst hlast
        simp
      · have hlt : j + 1 < n ↔ j < n := by omega
        simp [hlast, hlt]

theorem mk_X_pow (n : Nat) (r : Nat → Bool) : AdjoinRoot.mk (modulus n r) (X ^ n) = elem n r r := by
  rw [elem, AdjoinRoot.mk_eq_mk, CharTwo.sub_eq_add]
  exact dvd_rfl

/-- **Doubling** is the multiplication by `X`. -/
theorem elem_double (hn : 0 < n) (r c : Nat → Bool) :
    elem n r (double n r c) = AdjoinRoot.root (modulus n r) * elem n r c := by
  have hmul : AdjoinRoot.root (modulus n r) * elem n r c =
      elem n r (shift c) + if c (n - 1) then elem n r r else 0 := by
    rw [← AdjoinRoot.mk_X, elem, ← map_mul, X_mul_poly hn, map_add,
      apply_ite (AdjoinRoot.mk (modulus n r)), mk_X_pow, map_zero]
    rfl
  have hsum : poly n (double n r c) = poly n (shift c) + poly n fun j => c (n - 1) && r j :=
    poly_xor n _ _
  rw [hmul, elem, hsum, map_add]
  congr 1
  cases hc : c (n - 1) with
  | true => simp [elem]
  | false => simp [poly]

end BroadcomWl.Lib.BitRing
