import Mathlib

/-!
# Fields of a packed word

A word holds a field of `j` bits from bit `i` on: a mask keeps the field in its place, and an or of
two words is the or of their fields. -/

namespace BroadcomWl.Lib

/-- The field of `j` bits from bit `i` on. -/
def field (x i j : Nat) : Nat := x / 2 ^ i % 2 ^ j

theorem field_lt (x i j : Nat) : field x i j < 2 ^ j :=
  Nat.mod_lt _ (Nat.two_pow_pos j)

theorem land_mask (x i j : Nat) : x &&& (2 ^ j - 1) * 2 ^ i = field x i j * 2 ^ i := by
  apply Nat.eq_of_testBit_eq
  intro k
  rw [field, ← Nat.shiftLeft_eq, ← Nat.shiftLeft_eq, Nat.testBit_land, Nat.testBit_shiftLeft,
    Nat.testBit_shiftLeft, Nat.testBit_two_pow_sub_one, Nat.testBit_mod_two_pow,
    Nat.testBit_div_two_pow]
  by_cases hk : i ≤ k
  · have h : k - i + i = k := by omega
    simp only [hk, decide_true, Bool.true_and, h]
    exact Bool.and_comm _ _
  · simp only [hk, decide_false, Bool.false_and, Bool.and_false]

theorem field_lor (x y i j : Nat) : field (x ||| y) i j = field x i j ||| field y i j := by
  rw [field, Nat.or_div_two_pow, Nat.or_mod_two_pow]
  rfl

theorem field_mod {i j n : Nat} (x : Nat) (h : i + j ≤ n) :
    field (x % 2 ^ n) i j = field x i j := by
  apply Nat.eq_of_testBit_eq
  intro k
  simp only [field, Nat.testBit_mod_two_pow, Nat.testBit_div_two_pow]
  by_cases hk : k < j
  · have hn : k + i < n := by omega
    simp only [hk, hn, decide_true, Bool.true_and]
  · simp only [hk, decide_false, Bool.false_and]

theorem or_and_octet (a b m : UInt8) : (a ||| b) &&& m = (a &&& m) ||| (b &&& m) :=
  UInt8.toBitVec_inj.mp BitVec.and_or_distrib_right

end BroadcomWl.Lib
