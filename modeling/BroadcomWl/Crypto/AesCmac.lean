import BroadcomWl.Crypto.AesCbc
import BroadcomWl.Lib.BitRing

/-!
# AES-CMAC

`aes_cmac_gen_subkeys`, `aes_cmac` and `aes_cmac_calc` of `aes.c`, for a message in memory. The
block cipher is any function of a key and a block. Lengths are computed as `uint`.

**Subkeys.** A block is a polynomial of `Lib.BitRing`, its first bit the coefficient of `X ^ 127`.
The loop over the octets shifts it, and a subkey is the block before it times `X`
(`element_subkey`).

**The standard** is `cmac`, on strings: the message is cut into blocks, and the last one is masked
with the subkey that belongs to it (`cmacBlocks`). `cmac_conforms` says that this is what is
computed. -/

namespace BroadcomWl.Crypto.AesCmac

open BroadcomWl.Nas (Bytes Mem)
open BroadcomWl.Lib.Memory BroadcomWl.Lib.BlockModes BroadcomWl.Lib.BitRing
open BroadcomWl.Crypto.AesCbc (Block xorBlock sub32)

/-! ## The code -/

/-- `Z128` -/
def z128 : Block := fun _ => 0

/-- `R128` -/
def r128 : Block := fun i => if i.val = 15 then 0x87 else 0

/-- The loops of `aes_cmac_gen_subkeys`, from the last octet to the first: `K` is the output
so far. -/
def shiftLoop (L : Block) : (k : Nat) → k ≤ 16 → Block → UInt8 → Block
  | 0, _, K, _ => K
  | k + 1, h, K, high =>
    let low := L ⟨k, h⟩ <<< 1
    shiftLoop L k (Nat.le_of_succ_le h) (Function.update K ⟨k, h⟩ (low ||| high))
      ((L ⟨k, h⟩ &&& 0x80) >>> 7)

/-- One subkey, into an array that holds `K`. -/
def subkey (L K : Block) : Block :=
  let K := shiftLoop L 16 le_rfl K 0
  if L ⟨0, by decide⟩ &&& 0x80 ≠ 0 then xorBlock K r128 else K

/-- `aes_cmac_gen_subkeys` -/
def aesCmacGenSubkeys (E : Bytes → Block → Block) (K : Bytes) (K1 K2 : Block) : Block × Block :=
  let L := E K z128
  let K1 := subkey L K1
  let K2 := subkey K1 K2
  (K1, K2)

/-- A value of type `uint`. -/
def uint (x : Nat) : Nat := x % 2 ^ 32

/-- The number of blocks, `n`. -/
def blockCount (dataLen : Nat) : Nat := if dataLen = 0 then 1 else uint (uint dataLen + 16 - 1) / 16

/-- `aes_cmac`; `AES_CMAC_AUTH_LEN` is a whole block. -/
def aesCmac (E : Bytes → Block → Block) (K : Bytes) (K1 K2 : Block) (dataLen ptxt mac : Nat)
    (mem : Mem) : Mem :=
  let n := blockCount dataLen
  let front := uint (sub32 n 1 * 16)
  let Mn : Block :=
    if dataLen = uint (n * 16) then xorBlock K1 (load mem (ptxt + front))
    else
      let pblen := sub32 (uint dataLen) front
      xorBlock K2 fun i =>
        if i < pblen then mem (ptxt + front + i) else if i = pblen then 0x80 else 0
  let C :=
    (List.range (n - 1)).foldl (fun C i => E K (xorBlock C (load mem (ptxt + i * 16)))) fun _ => 0
  store mem mac (E K (xorBlock C Mn))

/-- `aes_cmac_calc`; `K1` and `K2` are what its arrays hold. -/
def aesCmacCalc (E : Bytes → Block → Block) (data dataLength : Nat) (micKey : Bytes) (mic : Nat)
    (K1 K2 : Block) (mem : Mem) : Mem :=
  let (K1, K2) := aesCmacGenSubkeys E micKey K1 K2
  aesCmac E micKey K1 K2 dataLength data mic mem

/-! ## The standard -/

/-- The first block of a string, filled up with zeros. -/
def blockOf (m : Bytes) : Block := fun i => m.getD i 0

/-- The blocks of a message. The last one is masked, and has a bit behind it if it is
not complete. -/
def cmacBlocks (K1 K2 : Block) (m : Bytes) : List Block :=
  if m.length ≤ 16 then
    [if m.length = 16 then xorBlock K1 (blockOf m) else xorBlock K2 (blockOf (m ++ [0x80]))]
  else blockOf m :: cmacBlocks K1 K2 (m.drop 16)
  termination_by m.length

/-- The MAC of a message. -/
def cmac (E : Block → Block) (K1 K2 : Block) (m : Bytes) : Block :=
  cbcMac xorBlock E (fun _ => 0) (cmacBlocks K1 K2 m)

/-! ## Bits -/

/-- A bit of a block, from the last octet on. -/
def bit (b : Block) (j : Nat) : Bool := (b ⟨15 - j / 8, by omega⟩).toNat.testBit (j % 8)

theorem testBit_shiftLeft_one (a : UInt8) {k : Nat} (hk : k < 8) :
    (a <<< 1).toNat.testBit k = (decide (0 < k) && a.toNat.testBit (k - 1)) := by
  have hone : (1 : UInt8).toNat % 8 = 1 := rfl
  rw [UInt8.toNat_shiftLeft, hone, Nat.testBit_mod_two_pow, Nat.testBit_shiftLeft,
    decide_eq_true hk, Bool.true_and]
  rfl

theorem testBit_carry (a : UInt8) (k : Nat) :
    ((a &&& 0x80) >>> 7).toNat.testBit k = (decide (k = 0) && a.toNat.testBit 7) := by
  have hseven : (7 : UInt8).toNat % 8 = 7 := rfl
  have hmask : (0x80 : UInt8).toNat = 2 ^ 7 := rfl
  rw [UInt8.toNat_shiftRight, hseven, UInt8.toNat_and, hmask, Nat.testBit_shiftRight,
    Nat.testBit_and, Nat.testBit_two_pow]
  by_cases hk : k = 0
  · subst hk
    simp
  · simp [hk]

theorem and_ne_zero_iff (a : UInt8) : a &&& 0x80 ≠ 0 ↔ a.toNat.testBit 7 = true := by
  have hmask : (0x80 : UInt8).toNat = 2 ^ 7 := rfl
  rw [ne_eq, ← UInt8.toNat_inj, UInt8.toNat_and, hmask, Nat.and_two_pow]
  cases a.toNat.testBit 7 with
  | true => decide
  | false => decide

theorem bit_xorBlock (a b : Block) (j : Nat) : bit (xorBlock a b) j = (bit a j ^^ bit b j) := by
  rw [bit, bit, bit, xorBlock, UInt8.toNat_xor, Nat.testBit_xor]

theorem eq_of_bit {a b : Block} (h : ∀ j < 128, bit a j = bit b j) : a = b := by
  funext i
  have hi := i.isLt
  apply UInt8.toNat_inj.mp
  apply Nat.eq_of_testBit_eq
  intro k
  by_cases hk : k < 8
  · have hbit := h (8 * (15 - i) + k) (by omega)
    have hindex : (⟨15 - (8 * (15 - i) + k) / 8, by omega⟩ : Fin 16) = i :=
      Fin.ext (by simp only; omega)
    have hplace : (8 * (15 - i.val) + k) % 8 = k := by omega
    rwa [bit, bit, hindex, hplace] at hbit
  · have hpow : 2 ^ 8 ≤ 2 ^ k := Nat.pow_le_pow_right (by decide) (Nat.not_lt.mp hk)
    rw [Nat.testBit_eq_false_of_lt ((UInt8.toNat_lt _).trans_le hpow),
      Nat.testBit_eq_false_of_lt ((UInt8.toNat_lt _).trans_le hpow)]

/-! ## Subkeys -/

/-- **The loop** shifts each octet, with the first bit of the one behind it. -/
theorem shiftLoop_apply (L : Block) {k : Nat} (h : k ≤ 16) (K : Block) (high : UInt8) (i : Fin 16) :
    shiftLoop L k h K high i =
      if hk : i.val + 1 < k then (L i <<< 1) ||| ((L ⟨i + 1, by omega⟩ &&& 0x80) >>> 7)
      else if i.val + 1 = k then (L i <<< 1) ||| high else K i := by
  induction k generalizing K high with
  | zero => rfl
  | succ k ih =>
      rw [shiftLoop, ih]
      by_cases hlt : i.val + 1 < k
      · rw [dif_pos hlt, dif_pos (by omega)]
      · rw [dif_neg hlt]
        by_cases heq : i.val + 1 = k
        · subst heq
          rw [if_pos rfl, dif_pos (by omega)]
        · rw [if_neg heq, dif_neg (by omega)]
          by_cases hlast : i.val = k
          · have hi : i = ⟨k, h⟩ := Fin.ext hlast
            rw [if_pos (by omega), hi, Function.update_self]
          · rw [if_neg (by omega), Function.update_of_ne fun hi => hlast (congrArg Fin.val hi)]

theorem bit_shiftLoop (L K : Block) {j : Nat} (hj : j < 128) :
    bit (shiftLoop L 16 le_rfl K 0) j = shift (bit L) j := by
  have hmod : j % 8 < 8 := Nat.mod_lt j (by decide)
  rw [bit, shiftLoop_apply, shift]
  by_cases hlow : j % 8 = 0
  · by_cases hzero : j = 0
    · subst hzero
      rw [dif_neg (by decide), if_pos (by decide), UInt8.or_zero, testBit_shiftLeft_one _ hmod]
      rfl
    · -- the bit comes from the octet behind
      have hbit : bit L (j - 1) = (L ⟨15 - j / 8 + 1, by omega⟩).toNat.testBit 7 := by
        have hindex : (⟨15 - (j - 1) / 8, by omega⟩ : Fin 16) = ⟨15 - j / 8 + 1, by omega⟩ :=
          Fin.ext (by simp only; omega)
        have hplace : (j - 1) % 8 = 7 := by omega
        rw [bit, hindex, hplace]
      rw [dif_pos (by simp only; omega), UInt8.toNat_or, Nat.testBit_or,
        testBit_shiftLeft_one _ hmod, testBit_carry, hlow, hbit,
        decide_eq_true (Nat.pos_of_ne_zero hzero)]
      simp
  · have hbit : bit L (j - 1) = (L ⟨15 - j / 8, by omega⟩).toNat.testBit (j % 8 - 1) := by
      have hindex : (⟨15 - (j - 1) / 8, by omega⟩ : Fin 16) = ⟨15 - j / 8, by omega⟩ :=
        Fin.ext (by simp only; omega)
      have hplace : (j - 1) % 8 = j % 8 - 1 := by omega
      rw [bit, hindex, hplace]
    rw [hbit, decide_eq_true (show 0 < j by omega), Bool.true_and]
    split
    · rw [UInt8.toNat_or, Nat.testBit_or, testBit_shiftLeft_one _ hmod, testBit_carry,
        decide_eq_false hlow,
        decide_eq_true (Nat.pos_of_ne_zero hlow), Bool.false_and, Bool.or_false, Bool.true_and]
    · rw [if_pos (by simp only at *; omega), UInt8.or_zero, testBit_shiftLeft_one _ hmod,
        decide_eq_true (Nat.pos_of_ne_zero hlow), Bool.true_and]

/-- **The bits of a subkey.** -/
theorem bit_subkey (L K : Block) {j : Nat} (hj : j < 128) :
    bit (subkey L K) j = double 128 (bit r128) (bit L) j := by
  have hfirst : bit L (128 - 1) = (L 0).toNat.testBit 7 := rfl
  have hsubkey : subkey L K =
      if L 0 &&& 0x80 ≠ 0 then xorBlock (shiftLoop L 16 le_rfl K 0) r128
      else shiftLoop L 16 le_rfl K 0 := rfl
  rw [hsubkey, double, hfirst, ← bit_shiftLoop L K hj]
  cases hbit : (L 0).toNat.testBit 7 with
  | true => rw [if_pos ((and_ne_zero_iff _).mpr hbit), bit_xorBlock, Bool.true_and]
  | false =>
      have hclear : ¬L 0 &&& 0x80 ≠ 0 := by
        rw [and_ne_zero_iff, hbit]
        decide
      rw [if_neg hclear, Bool.false_and, Bool.xor_false]

open Polynomial in
/-- The polynomial of the field. -/
noncomputable def fieldPoly : (ZMod 2)[X] := X ^ 128 + (X ^ 7 + X ^ 2 + X + 1)

/-- The element of the field that a block stands for. -/
noncomputable def element (b : Block) : AdjoinRoot fieldPoly :=
  AdjoinRoot.mk fieldPoly (poly 128 (bit b))

theorem bit_r128 (j : Nat) : bit r128 j = decide (j ∈ ({7, 2, 1, 0} : Finset Nat)) := by
  by_cases hj : j < 8
  · revert j
    decide
  · have hzero : bit r128 j = false := by
      rw [bit, r128, if_neg (by simp only; omega)]
      exact Nat.zero_testBit _
    rw [hzero, eq_comm, decide_eq_false_iff_not]
    simp only [Finset.mem_insert, Finset.mem_singleton]
    omega

theorem poly_r128 :
    poly 128 (bit r128) = Polynomial.X ^ 7 + Polynomial.X ^ 2 + Polynomial.X + 1 := by
  have hbits : Finset.filter (fun j => bit r128 j = true) (Finset.range 128) = {7, 2, 1, 0} := by
    ext j
    rw [Finset.mem_filter, Finset.mem_range, bit_r128, decide_eq_true_iff, and_iff_right_iff_imp]
    simp only [Finset.mem_insert, Finset.mem_singleton]
    omega
  rw [poly, ← Finset.sum_filter, hbits, Finset.sum_insert (by decide),
    Finset.sum_insert (by decide), Finset.sum_insert (by decide), Finset.sum_singleton, pow_one,
    pow_zero, add_assoc, add_assoc]

theorem modulus_eq : modulus 128 (bit r128) = fieldPoly := by
  rw [modulus, poly_r128]
  unfold fieldPoly
  rfl

theorem element_inj {a b : Block} (h : element a = element b) : a = b := by
  apply eq_of_bit
  rw [element, element, ← modulus_eq] at h
  exact elem_inj h

/-- **A subkey** is the block before it, doubled. -/
theorem element_subkey (L K : Block) :
    element (subkey L K) = AdjoinRoot.root fieldPoly * element L := by
  have hdouble := elem_double (show 0 < 128 by decide) (bit r128) (bit L)
  rw [← elem_congr fun j hj => bit_subkey L K hj] at hdouble
  rw [elem, elem, modulus_eq] at hdouble
  exact hdouble

/-! ## Blocks -/

section

variable {mem : Mem} {K1 K2 : Block}

theorem blockOf_slice {n : Nat} (mem : Mem) (addr : Nat) (h : 16 ≤ n) :
    blockOf (mem.slice addr n) = load mem addr := by
  funext i
  have hi := i.isLt
  rw [blockOf, Nas.Mem.slice_getD mem addr (by omega), load_apply]

theorem blockOf_slice_concat (mem : Mem) (addr r : Nat) (b : UInt8) :
    blockOf (mem.slice addr r ++ [b]) = fun i : Fin 16 => if i < r then mem (addr + i) else if i =
      r then b else 0 := by
  have hlen := Nas.Mem.slice_length mem addr r
  funext i
  rw [blockOf]
  by_cases hi : i.val < r
  · rw [if_pos hi, List.getD_append _ _ _ _ (by omega), Nas.Mem.slice_getD mem addr hi]
  · rw [if_neg hi, List.getD_append_right _ _ _ _ (by omega), hlen]
    by_cases heq : i.val = r
    · rw [if_pos heq, heq, Nat.sub_self]
      rfl
    · rw [if_neg heq, List.getD_eq_default _ _ (by rw [List.length_singleton]; omega)]

/-- The last block, masked. -/
def lastBlock (K1 K2 : Block) (mem : Mem) (addr r : Nat) : Block :=
  if r = 16 then xorBlock K1 (load mem addr)
  else xorBlock K2 fun i => if i < r then mem (addr + i) else if i = r then 0x80 else 0

/-- **The blocks of a message in memory**: those in front of the last one, and the last one. -/
theorem cmacBlocks_slice (K1 K2 : Block) (mem : Mem) (addr k : Nat) {r : Nat} (hr : r ≤ 16)
    (hpos : k = 0 ∨ 0 < r) :
    cmacBlocks K1 K2 (mem.slice addr (16 * k + r)) =
      loads mem addr k ++ [lastBlock K1 K2 mem (addr + 16 * k) r] := by
  induction k generalizing addr with
  | zero =>
      have hlen := Nas.Mem.slice_length mem addr (16 * 0 + r)
      rw [cmacBlocks, if_pos (by omega), loads, List.nil_append, hlen, Nat.mul_zero, Nat.zero_add,
        Nat.add_zero, lastBlock]
      congr 1
      split
      · rename_i hfull
        rw [blockOf_slice mem addr hfull.ge]
      · rw [blockOf_slice_concat]
  | succ k ih =>
      have hlen := Nas.Mem.slice_length mem addr (16 * (k + 1) + r)
      have hrest : 16 * (k + 1) + r - 16 = 16 * k + r := by omega
      have haddr : addr + 16 * (k + 1) = addr + 16 + 16 * k := by omega
      rw [cmacBlocks, if_neg (by omega), blockOf_slice mem addr (by omega),
        Nas.Mem.slice_drop, hrest, ih (addr + 16) (by omega), loads, haddr, List.cons_append]

theorem foldl_eq (E : Block → Block) (mem : Mem) (ptxt k : Nat) (x : Block) :
    (List.range k).foldl (fun C i => E (xorBlock C (load mem (ptxt + i * 16)))) x =
      cbcMac xorBlock E x (loads mem ptxt k) := by
  induction k with
  | zero => rfl
  | succ k ih =>
      rw [List.range_succ, List.foldl_append, ih, loads_succ, cbcMac_append, Nat.mul_comm 16 k]
      rfl

/-- **Where the last block begins.** -/
theorem blockCount_spec {dataLen : Nat} (h : dataLen < 2 ^ 32 - 15) :
    ∃ k r, dataLen = 16 * k + r ∧ r ≤ 16 ∧ (k = 0 ∨ 0 < r) ∧ blockCount dataLen = k + 1 ∧
    16 * k + 16 < 2 ^ 32 := by
  by_cases hzero : dataLen = 0
  · exact ⟨0, 0, by omega, by decide, .inl rfl, if_pos hzero, by decide⟩
  · have hcount : blockCount dataLen = (dataLen + 15) / 16 := by
      rw [blockCount, if_neg hzero, uint, uint, Nat.mod_eq_of_lt (show dataLen < 2 ^ 32 by omega),
        Nat.mod_eq_of_lt (by omega)]
      omega
    refine ⟨(dataLen - 1) / 16, (dataLen - 1) % 16 + 1, ?_, ?_, ?_, ?_, ?_⟩
    · omega
    · omega
    · exact .inr (Nat.succ_pos _)
    · rw [hcount]
      omega
    · omega

/-- **`aes_cmac`** -/
theorem aesCmac_eq (E : Bytes → Block → Block) (K : Bytes) (K1 K2 : Block) (ptxt mac : Nat)
    (mem : Mem) {dataLen : Nat} (h : dataLen < 2 ^ 32 - 15) :
    aesCmac E K K1 K2 dataLen ptxt mac mem =
      store mem mac (cmac (E K) K1 K2 (mem.slice ptxt dataLen)) := by
  obtain ⟨k, r, hlen, hr, hpos, hcount, hmax⟩ := blockCount_spec h
  have hfront : uint (sub32 (k + 1) 1 * 16) = 16 * k := by
    rw [uint, sub32]
    omega
  have hend : uint ((k + 1) * 16) = 16 * k + 16 := by
    rw [uint, Nat.mod_eq_of_lt (by omega)]
    omega
  have hpart : sub32 (uint dataLen) (16 * k) = r := by
    rw [uint, sub32]
    omega
  have hfull : dataLen = 16 * k + 16 ↔ r = 16 := by omega
  have hlast : (if dataLen = uint ((k + 1) * 16) then xorBlock K1 (load mem (ptxt + 16 * k))
      else xorBlock K2 fun i => if i < r then mem (ptxt + 16 * k + i) else if i =
        r then 0x80 else 0) =
      lastBlock K1 K2 mem (ptxt + 16 * k) r := by
    rw [hend, lastBlock]
    simp only [hfull]
  have hone : ∀ x p, cbcMac xorBlock (E K) x [p] = E K (xorBlock x p) := fun _ _ => rfl
  simp only [aesCmac, hcount, hfront, hpart, hlast, Nat.add_sub_cancel, foldl_eq]
  rw [cmac, hlen, cmacBlocks_slice K1 K2 mem ptxt k hr hpos, cbcMac_append, hone]

end

/-- **The standard's MAC**, for each key and each message of less than `2 ^ 32 - 15` octets: the
subkeys are the first and the second doubling of the block of zeros enciphered, and no other blocks
are. -/
theorem cmac_conforms (E : Bytes → Block → Block) (micKey : Bytes) (data mic : Nat) (a b : Block)
    (mem : Mem) {dataLength : Nat} (h : dataLength < 2 ^ 32 - 15) :
    ∃ K1 K2, (∀ K, element K = AdjoinRoot.root fieldPoly * element (E micKey z128) ↔ K = K1) ∧
      (∀ K, element K = AdjoinRoot.root fieldPoly * element K1 ↔ K = K2) ∧
      aesCmacCalc E data dataLength micKey mic a b mem =
        store mem mic (cmac (E micKey) K1 K2 (mem.slice data dataLength)) := by
  have hunique : ∀ L K K' : Block, element K' = AdjoinRoot.root fieldPoly * element L ↔
      K' = subkey L K := by
    intro L K K'
    rw [← element_subkey L K]
    exact ⟨element_inj, congrArg element⟩
  refine ⟨subkey (E micKey z128) a, subkey (subkey (E micKey z128) a) b, hunique _ _,
    hunique _ _, ?_⟩
  simp only [aesCmacCalc, aesCmacGenSubkeys, aesCmac_eq E _ _ _ _ _ _ h]

/-- A cipher that turns the octets round and adds something. -/
def turning (key : Bytes) (b : Block) : Block := fun i => b i.rev + key.getD i 0 + 0x81

/-- Two blocks and a half. -/
theorem cmac_conforms_forty :
    turning [0x2b, 0x7e] z128 ≠ z128 ∧
      ∃ K1 K2, (∀ K, element K = AdjoinRoot.root fieldPoly * element (turning [0x2b, 0x7e] z128) ↔
        K = K1) ∧
        (∀ K, element K = AdjoinRoot.root fieldPoly * element K1 ↔ K = K2) ∧
        aesCmacCalc turning 0 40 [0x2b, 0x7e] 64 z128 z128 UInt8.ofNat =
          store UInt8.ofNat 64 (cmac (turning [0x2b, 0x7e]) K1 K2 (Mem.slice UInt8.ofNat 0 40)) :=
  ⟨by decide, cmac_conforms turning [0x2b, 0x7e] 0 64 z128 z128 UInt8.ofNat (by decide)⟩

end BroadcomWl.Crypto.AesCmac
