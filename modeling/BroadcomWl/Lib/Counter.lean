import Mathlib

/-!
# Big-endian octet counters

A counter kept as an array of octets, most significant first, and incremented in place with
carry. `beNat` reads it as a number; `incr` adds one modulo `256 ^ length`, so that a counter
which has not yet wrapped around strictly grows.

**Cycles.** Incrementing goes through all `256 ^ length` values before the first one comes again
(`iterate_incr_inj`, `iterate_incr_eq_self`), so the values of one cycle are distinct.
-/

namespace BroadcomWl.Lib

/-- The number a big-endian octet string denotes. -/
def beNat (l : List UInt8) : Nat := l.foldl (fun n b => 256 * n + b.toNat) 0

/-- Increment from the least significant octet on, given in reverse. -/
def incrRev : List UInt8 → List UInt8
  | [] => []
  | b :: l => if b = 255 then 0 :: incrRev l else (b + 1) :: l

/-- Increment with carry. -/
def incr (l : List UInt8) : List UInt8 := (incrRev l.reverse).reverse

/-- The number of a reversed octet string, by recursion from the least significant end. -/
def leNat : List UInt8 → Nat
  | [] => 0
  | b :: l => b.toNat + 256 * leNat l

theorem beNat_append_singleton (l : List UInt8) (b : UInt8) :
    beNat (l ++ [b]) = 256 * beNat l + b.toNat := by
  simp [beNat]

theorem beNat_append (l l' : List UInt8) :
    beNat (l ++ l') = beNat l * 256 ^ l'.length + beNat l' := by
  induction l' using List.reverseRecOn with
  | nil => simp [beNat]
  | append_singleton l' b ih =>
      rw [← List.append_assoc, beNat_append_singleton, beNat_append_singleton, ih,
        List.length_append, List.length_singleton, pow_succ]
      ring

theorem beNat_cons (b : UInt8) (l : List UInt8) :
    beNat (b :: l) = b.toNat * 256 ^ l.length + beNat l := by
  have h := beNat_append [b] l
  simpa [beNat] using h

theorem beNat_reverse (l : List UInt8) : beNat l.reverse = leNat l := by
  induction l with
  | nil => rfl
  | cons b l ih =>
      rw [List.reverse_cons, beNat_append_singleton, ih, leNat]
      omega

theorem incrRev_length (l : List UInt8) : (incrRev l).length = l.length := by
  induction l with
  | nil => rfl
  | cons b l ih =>
      unfold incrRev
      split
      · simp [ih]
      · simp

@[simp] theorem incr_length (l : List UInt8) : (incr l).length = l.length := by
  simp [incr, incrRev_length]

theorem leNat_lt (l : List UInt8) : leNat l < 256 ^ l.length := by
  induction l with
  | nil => simp [leNat]
  | cons b l ih =>
      have hb := b.toNat_lt
      rw [leNat, List.length_cons, pow_succ]
      omega

theorem beNat_lt (l : List UInt8) : beNat l < 256 ^ l.length := by
  have h := leNat_lt l.reverse
  rwa [← beNat_reverse, List.reverse_reverse, List.length_reverse] at h

theorem leNat_incrRev (l : List UInt8) :
    leNat (incrRev l) = (leNat l + 1) % 256 ^ l.length := by
  induction l with
  | nil => simp [incrRev, leNat]
  | cons b l ih =>
      have hlt := leNat_lt l
      unfold incrRev
      split
      · rename_i hb
        subst hb
        have hval : (255 : UInt8).toNat = 255 := rfl
        rw [leNat, leNat, ih, hval, List.length_cons, pow_succ']
        have hz : (0 : UInt8).toNat = 0 := rfl
        rw [hz, show 255 + 256 * leNat l + 1 = 256 * (leNat l + 1) by ring, Nat.mul_mod_mul_left]
        omega
      · rename_i hb
        have hb' : b.toNat < 255 := by
          have h1 := b.toNat_lt
          have h2 : b.toNat ≠ 255 := by
            intro h
            apply hb
            exact UInt8.toNat_inj.mp h
          omega
        have hadd : (b + 1).toNat = b.toNat + 1 := by
          rw [UInt8.toNat_add]
          have : (1 : UInt8).toNat = 1 := rfl
          omega
        rw [leNat, leNat, hadd, List.length_cons, pow_succ', Nat.mod_eq_of_lt]
        · omega
        · omega

/-- **Incrementing adds one, modulo the size of the counter.** -/
theorem beNat_incr (l : List UInt8) : beNat (incr l) = (beNat l + 1) % 256 ^ l.length := by
  rw [incr, beNat_reverse, leNat_incrRev, List.length_reverse, ← beNat_reverse,
    List.reverse_reverse]

theorem beNat_incr_of_lt {l : List UInt8} (h : beNat l + 1 < 256 ^ l.length) :
    beNat (incr l) = beNat l + 1 := by
  rw [beNat_incr, Nat.mod_eq_of_lt h]

/-! ## Cycles -/

theorem leNat_inj {l l' : List UInt8} (hlen : l.length = l'.length) (h : leNat l = leNat l') :
    l = l' := by
  induction l generalizing l' with
  | nil => exact (List.length_eq_zero_iff.mp hlen.symm).symm
  | cons b l ih =>
      cases l' with
      | nil => cases hlen
      | cons b' l' =>
          rw [leNat, leNat] at h
          have hb := b.toNat_lt
          have hb' := b'.toNat_lt
          have hhead : b = b' := UInt8.toNat_inj.mp (by omega)
          rw [hhead, ih (Nat.succ.inj hlen) (by omega)]

theorem beNat_inj {l l' : List UInt8} (hlen : l.length = l'.length) (h : beNat l = beNat l') :
    l = l' := by
  rw [← List.reverse_reverse l, ← List.reverse_reverse l', beNat_reverse, beNat_reverse] at h
  have hrev := leNat_inj (by simp [hlen]) h
  exact List.reverse_injective hrev

@[simp] theorem iterate_incr_length (n : Nat) (l : List UInt8) :
    (incr^[n] l).length = l.length := by
  induction n with
  | zero => rfl
  | succ n ih => rw [Function.iterate_succ_apply', incr_length, ih]

theorem beNat_iterate_incr (n : Nat) (l : List UInt8) :
    beNat (incr^[n] l) = (beNat l + n) % 256 ^ l.length := by
  induction n with
  | zero => exact (Nat.mod_eq_of_lt (beNat_lt l)).symm
  | succ n ih =>
      rw [Function.iterate_succ_apply', beNat_incr, ih, iterate_incr_length, Nat.mod_add_mod,
        Nat.add_assoc]

theorem iterate_incr_inj {l : List UInt8} {j k : Nat} (hj : j < 256 ^ l.length)
    (hk : k < 256 ^ l.length) (h : incr^[j] l = incr^[k] l) : j = k := by
  have hmod := congrArg beNat h
  rw [beNat_iterate_incr, beNat_iterate_incr] at hmod
  have hcancel : j ≡ k [MOD 256 ^ l.length] := Nat.ModEq.add_left_cancel' (beNat l) hmod
  exact Nat.ModEq.eq_of_lt_of_lt hcancel hj hk

/-- The counter comes back to its first value at the end of a cycle, and not before. -/
theorem iterate_incr_eq_self {l : List UInt8} {n : Nat} (hpos : 0 < n) (hn : n ≤ 256 ^ l.length) :
    incr^[n] l = l ↔ n = 256 ^ l.length := by
  refine ⟨fun h => ?_, fun h => ?_⟩
  · by_contra hne
    have := iterate_incr_inj (l := l) (j := n) (k := 0) (by omega) (by omega) h
    omega
  · refine beNat_inj (iterate_incr_length n l) ?_
    rw [beNat_iterate_incr, h, Nat.add_mod_right, Nat.mod_eq_of_lt (beNat_lt l)]

theorem iterate_incr_nodup {l : List UInt8} {n : Nat} (h : n ≤ 256 ^ l.length) :
    (List.iterate incr l n).Nodup := by
  rw [← List.range_map_iterate]
  unfold List.Nodup
  rw [List.pairwise_map]
  refine List.Pairwise.imp_of_mem (fun {j k} hj hk hne heq => ?_) List.nodup_range
  rw [List.mem_range] at hj hk
  exact hne (iterate_incr_inj (by omega) (by omega) heq)

end BroadcomWl.Lib
