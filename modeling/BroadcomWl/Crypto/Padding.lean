import BroadcomWl.Crypto.Hash
import BroadcomWl.Lib.Absorb

/-!
# Padding

What the digests share: the padded message as the blocks that a context takes in, and the octets of
a number that is kept in two words. -/

namespace BroadcomWl.Crypto

open BroadcomWl.Lib
open BroadcomWl.Nas (Bytes)

theorem foldBlocks_eq_chainBlocks {H : Type} (compress : H → Bytes → H) (k : Nat) (h : H)
    (b : Bytes) :
    foldBlocks compress k h b = chainBlocks compress 64 k h b := by
  induction k generalizing h b with
  | zero => rfl
  | succ k ih => rw [foldBlocks, chainBlocks, ih]

/-- **The padded message** has been taken in. -/
theorem foldBlocks_of_absorbed {H : Type} {compress : H → Bytes → H} {h₀ h : H} {m : Bytes}
    (ha : Absorbed compress 64 h₀ m h []) : foldBlocks compress (m.length / 64) h₀ m = h := by
  rw [foldBlocks_eq_chainBlocks, ha.value]

/-- The zeros that are put behind a buffer of `n` octets and `0x80`. -/
def padZeros (n : Nat) : Nat := if n < 56 then 55 - n else 119 - n

theorem padZeros_mod {n : Nat} (h : n < 64) : (119 - n) % 64 = padZeros n := by
  unfold padZeros
  split_ifs <;> omega

theorem padMessage_eq (lengthBytes : Nat → Bytes) {m : Bytes} {n : Nat} (h : n = m.length % 64) :
    padMessage lengthBytes m =
      m ++ [0x80] ++ List.replicate (padZeros n) 0 ++ lengthBytes (8 * m.length) := by
  rw [padMessage, ← h, padZeros_mod (by omega)]
  simp only [List.append_assoc, List.cons_append, List.nil_append]

/-! ## Numbers in two words -/

theorem beBytes_congr {n v w : Nat} (h : v % 256 ^ n = w % 256 ^ n) :
    beBytes n v = beBytes n w := by
  induction n with
  | zero => rfl
  | succ n ih =>
      have hlow : v % 256 ^ n = w % 256 ^ n := by
        rw [← Nat.mod_mul_right_mod v (256 ^ n) 256, ← Nat.mod_mul_right_mod w (256 ^ n)
          256, ← Nat.pow_succ, h]
      have htop (x : Nat) : UInt8.ofNat (x >>> (8 * n)) =
          UInt8.ofNat (x % 256 ^ (n + 1) / 256 ^ n) := by
        have hpow : 2 ^ (8 * n) = 256 ^ n := by rw [Nat.pow_mul]
        rw [← UInt8.toNat_inj, UInt8.toNat_ofNat', UInt8.toNat_ofNat',
          Nat.shiftRight_eq_div_pow, hpow, pow_succ 256 n, Nat.mod_mul_right_div_self, Nat.mod_mod]
      rw [beBytes, beBytes, ih hlow, htop v, htop w, h]

theorem beBytes_add (k l a : Nat) {b : Nat} (h : b < 256 ^ l) :
    beBytes (k + l) (a * 256 ^ l + b) = beBytes k a ++ beBytes l b := by
  induction k with
  | zero =>
      rw [Nat.zero_add]
      exact beBytes_congr (Nat.mul_add_mod_self_right _ _ _)
  | succ k ih =>
      have htop : (a * 256 ^ l + b) >>> (8 * (k + l)) = a >>> (8 * k) := by
        have hpow : 2 ^ (8 * l) = 256 ^ l := by rw [Nat.pow_mul]
        rw [Nat.mul_add, Nat.add_comm (8 * k), Nat.shiftRight_add,
          Nat.shiftRight_eq_div_pow _ (8 * l), hpow, Nat.mul_comm a,
          Nat.mul_add_div (Nat.pow_pos (by decide)), Nat.div_eq_of_lt h, Nat.add_zero]
      rw [Nat.succ_add, beBytes, beBytes, htop, ih, List.cons_append]

theorem leBytes_congr {n v w : Nat} (h : v % 256 ^ n = w % 256 ^ n) :
    leBytes n v = leBytes n w := by
  induction n generalizing v w with
  | zero => rfl
  | succ n ih =>
      rw [pow_succ' 256 n] at h
      have hlow : v % 256 = w % 256 := by
        rw [← Nat.mod_mul_right_mod v 256 (256 ^ n), h, Nat.mod_mul_right_mod]
      have hhigh : v / 256 % 256 ^ n = w / 256 % 256 ^ n := by
        rw [← Nat.mod_mul_right_div_self, h, Nat.mod_mul_right_div_self]
      have hfirst : UInt8.ofNat v = UInt8.ofNat w := by
        rw [← UInt8.toNat_inj, UInt8.toNat_ofNat', UInt8.toNat_ofNat']
        exact hlow
      rw [leBytes, leBytes, hfirst, Nat.shiftRight_eq_div_pow, Nat.shiftRight_eq_div_pow]
      exact congrArg _ (ih hhigh)

theorem leBytes_add (k l : Nat) {a : Nat} (b : Nat) (h : a < 256 ^ k) :
    leBytes (k + l) (a + 256 ^ k * b) = leBytes k a ++ leBytes l b := by
  induction k generalizing a with
  | zero =>
      obtain rfl : a = 0 := by omega
      rw [Nat.zero_add, Nat.zero_add, Nat.pow_zero, Nat.one_mul, leBytes, List.nil_append]
  | succ k ih =>
      have hlow : UInt8.ofNat (a + 256 ^ (k + 1) * b) = UInt8.ofNat a := by
        rw [← UInt8.toNat_inj, UInt8.toNat_ofNat', UInt8.toNat_ofNat', Nat.pow_succ', Nat.mul_assoc,
          Nat.add_mul_mod_self_left]
      have hrest : (a + 256 ^ (k + 1) * b) >>> 8 = a >>> 8 + 256 ^ k * b := by
        rw [Nat.shiftRight_eq_div_pow, Nat.shiftRight_eq_div_pow, Nat.pow_succ', Nat.mul_assoc,
          Nat.add_mul_div_left _ _ (by decide)]
      have hlt : a >>> 8 < 256 ^ k := by
        rw [Nat.shiftRight_eq_div_pow, Nat.div_lt_iff_lt_mul (by decide), ← Nat.pow_succ]
        exact h
      rw [Nat.succ_add, leBytes, leBytes, hlow, hrest, ih hlt, List.cons_append]

theorem mod_two_words (z : Nat) {w : Nat} (hw : w < 2 ^ 32) :
    (z * 2 ^ 32 + w) % 2 ^ 64 = z % 2 ^ 32 * 2 ^ 32 + w := by
  have hpow : (2 : Nat) ^ 64 = 2 ^ 32 * 2 ^ 32 := by rw [← pow_add]
  rw [hpow, Nat.mod_mul, Nat.mul_add_mod_self_right, Nat.mod_eq_of_lt hw,
    Nat.mul_comm z, Nat.mul_add_div (by decide), Nat.div_eq_of_lt hw, Nat.add_zero]
  omega

theorem carry_two_words (y b : Nat) {x a : Nat} (hx : x < 2 ^ 32) (ha : a < 2 ^ 32) :
    ((y + if 2 ^ 32 ≤ x + a then 1 else 0) % 2 ^ 32 + b) % 2 ^ 32 * 2 ^ 32 + (x + a) % 2 ^ 32 =
      (y * 2 ^ 32 + x + (b * 2 ^ 32 + a)) % 2 ^ 64 := by
  have hword := Nat.mod_lt (x + a) (Nat.two_pow_pos 32)
  rw [Nat.mod_add_mod, ← mod_two_words _ hword]
  split_ifs with hcarry
  · have hsum : (y + 1 + b) * 2 ^ 32 + (x + a) % 2 ^ 32 = y * 2 ^ 32 + x + (b * 2 ^ 32 + a) := by
      omega
    rw [hsum]
  · have hsum : (y + 0 + b) * 2 ^ 32 + (x + a) % 2 ^ 32 = y * 2 ^ 32 + x + (b * 2 ^ 32 + a) := by
      omega
    rw [hsum]

theorem bits_two_words (k : Nat) : k / 2 ^ 29 * 2 ^ 32 + 8 * k % 2 ^ 32 = 8 * k := by omega

/-- **The count of bits** in two words, as a 32-bit code keeps it. -/
theorem count_two_words {low high len : UInt32} {n k : Nat} (hlen : len.toNat = k)
    (h : high.toNat * 2 ^ 32 + low.toNat = 8 * n % 2 ^ 64) :
    ((if low + len <<< 3 < low then high + 1 else high) + len >>> 29).toNat * 2 ^ 32 +
      (low + len <<< 3).toNat =
      8 * (n + k) % 2 ^ 64 := by
  have hlow := low.toNat_lt
  have hhigh := high.toNat_lt
  have hshift : (len <<< 3).toNat = 8 * k % 2 ^ 32 := by
    rw [UInt32.toNat_shiftLeft, hlen, Nat.shiftLeft_eq, Nat.mul_comm]
    rfl
  have hbits : 8 * k % 2 ^ 32 < 2 ^ 32 := Nat.mod_lt _ (Nat.two_pow_pos 32)
  have hsum : (low + len <<< 3).toNat = (low.toNat + 8 * k % 2 ^ 32) % 2 ^ 32 := by
    rw [UInt32.toNat_add, hshift]
  have htop : (len >>> 29).toNat = k / 2 ^ 29 := by
    rw [UInt32.toNat_shiftRight, hlen, Nat.shiftRight_eq_div_pow]
    rfl
  have hcarry : (if low + len <<< 3 < low then high + 1 else high).toNat =
      (high.toNat + if 2 ^ 32 ≤ low.toNat + 8 * k % 2 ^ 32 then 1 else 0) % 2 ^ 32 := by
    by_cases hlt : low + len <<< 3 < low
    · have hval := UInt32.lt_iff_toNat_lt.mp hlt
      rw [hsum] at hval
      rw [if_pos hlt, if_pos (by omega), UInt32.toNat_add]
      rfl
    · have hval := mt UInt32.lt_iff_toNat_lt.mpr hlt
      rw [hsum] at hval
      rw [if_neg hlt, if_neg (by omega), Nat.add_zero, Nat.mod_eq_of_lt hhigh]
  rw [UInt32.toNat_add, hcarry, htop, hsum]
  calc _ = (high.toNat * 2 ^ 32 + low.toNat + (k / 2 ^ 29 * 2 ^ 32 + 8 * k % 2 ^ 32)) % 2 ^ 64 :=
          carry_two_words _ _ hlow hbits
    _ = (8 * n % 2 ^ 64 + 8 * k) % 2 ^ 64 :=
      congrArg₂ (fun u v => (u + v) % 2 ^ 64) h (bits_two_words k)
    _ = 8 * (n + k) % 2 ^ 64 := by rw [Nat.mod_add_mod, Nat.mul_add]

/-! ## The words of a block -/

theorem take_set_succ (block : Vector UInt8 64) {i : Nat} (b : UInt8) (h : i < 64) :
    (block.setIfInBounds i b).toList.take (i + 1) = block.toList.take i ++ [b] := by
  have hi : i < block.toList.length := by rwa [Vector.length_toList]
  rw [Vector.toList_setIfInBounds, List.take_set, List.take_add_one, List.getElem?_eq_getElem hi,
    Option.toList_some,
    List.set_append_right _ _ (by rw [List.length_take, Nat.min_eq_left (Nat.le_of_lt hi)]),
    List.length_take, Nat.min_eq_left (Nat.le_of_lt hi), Nat.sub_self, List.set_cons_zero]

theorem leWord_leBytes {n v : Nat} (h : v < 256 ^ n) : leWord (leBytes n v) = v := by
  induction n generalizing v with
  | zero =>
      obtain rfl : v = 0 := by omega
      rfl
  | succ n ih =>
      have hrest : v >>> 8 < 256 ^ n := by
        rw [Nat.shiftRight_eq_div_pow, Nat.div_lt_iff_lt_mul (by decide), ← Nat.pow_succ]
        exact h
      have hword : leWord (leBytes (n + 1) v) = leWord (leBytes n (v >>> 8)) * 256 + v % 256 := by
        rw [leBytes, leWord, List.foldr_cons, UInt8.toNat_ofNat']
        rfl
      rw [hword, ih hrest, Nat.shiftRight_eq_div_pow]
      exact Nat.div_add_mod' v 256

theorem wordsOf_append (word : Bytes → Nat) (i k : Nat) {b : Bytes} (hb : b.length = 4 * i)
    (b' : Bytes) :
    wordsOf word (i + k) (b ++ b') = wordsOf word i b ++ wordsOf word k b' := by
  induction i generalizing b with
  | zero =>
      obtain rfl : b = [] := List.length_eq_zero_iff.mp hb
      rw [Nat.zero_add, List.nil_append, wordsOf, List.nil_append]
  | succ i ih =>
      have htake : (b ++ b').take 4 = b.take 4 := List.take_append_of_le_length (by omega)
      have hdrop : (b ++ b').drop 4 = b.drop 4 ++ b' := List.drop_append_of_le_length (by omega)
      rw [Nat.succ_add, wordsOf, wordsOf, htake, hdrop, ih (by rw [List.length_drop]; omega),
        List.cons_append]

end BroadcomWl.Crypto
