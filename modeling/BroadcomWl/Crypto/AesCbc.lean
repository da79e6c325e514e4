import BroadcomWl.Crypto.KeyWrap
import BroadcomWl.Lib.BlockModes
import BroadcomWl.Lib.Memory

/-!
# AES in CBC mode

`aes_cbc_encrypt_pad` and `aes_cbc_decrypt_pad` of `aes.c`, in memory: the buffers are addresses,
and the value to chain with is an address too. The block cipher is a permutation of the blocks.

**Chains.** The loops compute the chains of `Lib.BlockModes` (`encryptLoop_spec`,
`decryptLoop_spec`). Where ciphertext and plaintext are in one place, the decryption has overwritten
the block it chains with.

**Round trip.** `cbc_iff` says for which buffers and lengths the decryption undoes the encryption,
whatever the cipher, and for which lengths the value returned is the error or a length of the
plaintext. -/

namespace BroadcomWl.Crypto.AesCbc

open BroadcomWl.Nas (Mem)
open BroadcomWl.Lib.Memory BroadcomWl.Lib.BlockModes
open Equiv (Perm)

/-! ## The code -/

/-- A block of `AES_BLOCK_SZ` octets. -/
abbrev Block := Fin 16 → UInt8

/-- `xor_128bit_block` -/
def xorBlock (a b : Block) : Block := fun i => a i ^^^ b i

/-- `NO_PADDING` -/
def noPadding : UInt8 := 0

/-- `PAD_LEN_PADDING` -/
def padLenPadding : UInt8 := 1

/-- A value of type `uint32` that is returned as an `int`. -/
def int32 (x : Nat) : Int :=
  if x % 2 ^ 32 < 2 ^ 31 then (x % 2 ^ 32 : Nat) else (x % 2 ^ 32 : Nat) - 2 ^ 32

/-- A difference of type `uint32`. -/
def sub32 (x y : Nat) : Nat := (x + (2 ^ 32 - y)) % 2 ^ 32

/-- The variables of the loops: what there is to chain with, ciphertext, plaintext, what remains,
and how much has been done. -/
structure Cursor where
  mem : Mem
  iv : Nat
  cryptData : Nat
  plainData : Nat
  remaining : Nat
  len : Nat

/-- The loop of `aes_cbc_encrypt_pad`. -/
def encryptLoop (E : Block → Block) (s : Cursor) : Cursor :=
  if 16 ≤ s.remaining then
    let tmp := xorBlock (load s.mem s.iv) (load s.mem s.plainData)
    encryptLoop E ⟨store s.mem s.cryptData (E tmp), s.cryptData, s.cryptData + 16, s.plainData + 16,
      s.remaining - 16,
      (s.len + 16) % 2 ^ 32⟩
  else s
  termination_by s.remaining

/-- The last block, before it is enciphered: what remains of the text, and the padding. -/
def padBlock (s : Cursor) : Block := fun j =>
  if j < s.remaining then s.mem (s.plainData + j) ^^^ s.mem (s.iv + j)
  else UInt8.ofNat (16 - s.remaining) ^^^ s.mem (s.iv + j)

/-- `aes_cbc_encrypt_pad` -/
def aesCbcEncryptPad (E : Block → Block) (nonce dataLen ptxt ctxt : Nat) (paddType : UInt8)
    (mem : Mem) : Int × Mem :=
  let s := encryptLoop E ⟨mem, nonce, ctxt, ptxt, dataLen, 0⟩
  if paddType = noPadding then (int32 s.len, s.mem)
  else if paddType = padLenPadding then
    (int32 ((s.len + 16) % 2 ^ 32), store s.mem s.cryptData (E (padBlock s)))
  else (-1, s.mem)

/-- `aes_cbc_encrypt` -/
def aesCbcEncrypt (E : Block → Block) (nonce dataLen ptxt ctxt : Nat) (mem : Mem) : Int × Mem :=
  if dataLen % 16 ≠ 0 then (-1, mem)
  else if dataLen < 16 then (-1, mem)
  else aesCbcEncryptPad E nonce dataLen ptxt ctxt noPadding mem

/-- The loop of `aes_cbc_decrypt_pad`. -/
def decryptLoop (D : Block → Block) (s : Cursor) : Cursor :=
  if 16 ≤ s.remaining then
    let tmp := D (load s.mem s.cryptData)
    decryptLoop D ⟨store s.mem s.plainData (xorBlock tmp (load s.mem s.iv)), s.cryptData,
      s.cryptData + 16,
      s.plainData + 16, s.remaining - 16, (s.len + 16) % 2 ^ 32⟩
  else s
  termination_by s.remaining

/-- `aes_cbc_decrypt_pad` -/
def aesCbcDecryptPad (D : Block → Block) (nonce dataLen ctxt ptxt : Nat) (paddType : UInt8)
    (mem : Mem) : Int × Mem :=
  if dataLen % 16 ≠ 0 then (-1, mem)
  else if dataLen < 16 then (-1, mem)
  else
    let s := decryptLoop D ⟨mem, nonce, ctxt, ptxt, dataLen, 0⟩
    if paddType = padLenPadding then
      (int32 (sub32 s.len (s.mem (ptxt + (s.len - 1))).toNat), s.mem)
    else (int32 s.len, s.mem)

/-- `aes_cbc_decrypt` -/
def aesCbcDecrypt (D : Block → Block) (nonce dataLen ctxt ptxt : Nat) (mem : Mem) : Int × Mem :=
  aesCbcDecryptPad D nonce dataLen ctxt ptxt noPadding mem

/-! ## The loops -/

theorem xorBlock_comm (a b : Block) : xorBlock a b = xorBlock b a :=
  funext fun _ => UInt8.xor_comm _ _

theorem xorBlock_cancel (a b : Block) : xorBlock (xorBlock a b) a = b := by
  funext i
  rw [xorBlock, xorBlock, UInt8.xor_comm (a i), UInt8.xor_assoc, UInt8.xor_self, UInt8.xor_zero]

/-- What a loop over `n` blocks leaves of its variables. -/
structure Advanced (n : Nat) (s s' : Cursor) : Prop where
  iv : s'.iv = if n = 0 then s.iv else s.cryptData + 16 * (n - 1)
  cryptData : s'.cryptData = s.cryptData + 16 * n
  plainData : s'.plainData = s.plainData + 16 * n
  remaining : s'.remaining = s.remaining % 16
  len : s'.len = s.len + 16 * n

theorem Advanced.none {s : Cursor} (h : s.remaining / 16 = 0) : Advanced 0 s s :=
  ⟨rfl, rfl, rfl, by omega, rfl⟩

theorem Advanced.succ {n : Nat} {s s₁ s' : Cursor} (h : Advanced n s₁ s')
    (hiv : s₁.iv = s.cryptData) (hcrypt : s₁.cryptData = s.cryptData + 16)
    (hplain : s₁.plainData = s.plainData + 16) (hremaining : s₁.remaining + 16 = s.remaining)
    (hlen : s₁.len = s.len + 16) : Advanced (n + 1) s s' := by
  refine ⟨?_, ?_, ?_, ?_, ?_⟩
  · rw [h.iv, if_neg (Nat.succ_ne_zero n), Nat.add_sub_cancel]
    split
    · rename_i hzero
      rw [hiv, hzero, Nat.mul_zero, Nat.add_zero]
    · rw [hcrypt]
      omega
  · rw [h.cryptData, hcrypt]
    omega
  · rw [h.plainData, hplain]
    omega
  · rw [h.remaining, ← hremaining]
    omega
  · rw [h.len, hlen]
    omega

/-- What `n` passes write. -/
structure Wrote (a n : Nat) (m m' : Mem) (bs : List Block) : Prop where
  blocks : loads m' a n = bs
  outside : ∀ x, ¬(a ≤ x ∧ x < a + 16 * n) → m' x = m x

theorem Wrote.cons {a n : Nat} {m m' : Mem} {b : Block} {bs : List Block}
    (h : Wrote (a + 16) n (store m a b) m' bs) : Wrote a (n + 1) m m' (b :: bs) := by
  refine ⟨?_, fun x hx => ?_⟩
  · have hfirst : (load m' a : Block) = b := by
      rw [← load_store (m := m) (a := a) (f := b)]
      exact load_congr fun i hi => h.outside _ (by omega)
    rw [loads, hfirst, h.blocks]
  · rw [h.outside x (by omega), store_apply_of_not (by omega)]

/-- **The loop of the encryption makes a chain.** -/
theorem encryptLoop_spec (E : Block → Block) {n : Nat} {s : Cursor} (hn : s.remaining / 16 = n)
    (hlen : s.len + s.remaining < 2 ^ 32) (hplaced : Placed s.plainData s.cryptData (16 * n)) :
    Advanced n s (encryptLoop E s) ∧
      Wrote s.cryptData n s.mem (encryptLoop E s).mem
        (cbcEncrypt xorBlock E (load s.mem s.iv) (loads s.mem s.plainData n)) := by
  induction n generalizing s with
  | zero =>
      rw [encryptLoop, if_neg (by omega)]
      exact ⟨Advanced.none hn, rfl, fun _ _ => rfl⟩
  | succ n ih =>
      rw [encryptLoop, if_pos (by omega)]
      obtain ⟨c, hc⟩ : ∃ c, c = E (xorBlock (load s.mem s.iv) (load s.mem s.plainData)) := ⟨_, rfl⟩
      have hlen' : (s.len + 16) % 2 ^ 32 = s.len + 16 := Nat.mod_eq_of_lt (by omega)
      -- the rest of the plaintext has not been overwritten
      have hrest : (loads (store s.mem s.cryptData c) (s.plainData + 16) n : List Block) =
          loads s.mem (s.plainData + 16) n := by
        apply loads_congr
        intro i hi
        apply store_apply_of_not
        rw [Nat.add_assoc]
        exact hplaced.not_mem (by omega) (by omega)
      obtain ⟨hadvanced, hwrote⟩ := ih
        (s :=
          ⟨store s.mem s.cryptData c, s.cryptData, s.cryptData + 16, s.plainData + 16,
            s.remaining - 16,
          (s.len + 16) % 2 ^ 32⟩) (by simp only; omega) (by simp only; omega)
            (hplaced.mono (by omega))
      simp only [← hc]
      refine ⟨hadvanced.succ rfl rfl rfl (by simp only; omega) hlen', ?_⟩
      rw [loads, cbcEncrypt, ← hc]
      simp only [load_store, hrest] at hwrote
      exact hwrote.cons

/-- What the decryption computes: it takes a chain apart, or, in place, chains what it puts out. -/
def decrypted (D : Block → Block) (inPlace : Prop) [Decidable inPlace] (iv : Block)
    (cs : List Block) : List Block :=
  if inPlace then chainOutput xorBlock D iv cs else cbcDecrypt xorBlock D iv cs

theorem decrypted_cons (D : Block → Block) (inPlace : Prop) [Decidable inPlace] (iv c : Block)
    (cs : List Block) :
    decrypted D inPlace iv (c :: cs) =
      xorBlock (D c) iv :: decrypted D inPlace (if inPlace then xorBlock (D c) iv else c) cs := by
  unfold decrypted
  split <;> rfl

/-- **The loop of the decryption.** -/
theorem decryptLoop_spec (D : Block → Block) {n : Nat} {s : Cursor} (hn : s.remaining / 16 = n)
    (hlen : s.len + s.remaining < 2 ^ 32) (hplaced : Placed s.plainData s.cryptData (16 * n))
    (hiv : Apart s.plainData (16 * n) s.iv 16) :
    Advanced n s (decryptLoop D s) ∧
      Wrote s.plainData n s.mem (decryptLoop D s).mem
        (decrypted D (s.plainData = s.cryptData) (load s.mem s.iv)
          (loads s.mem s.cryptData n)) := by
  induction n generalizing s with
  | zero =>
      rw [decryptLoop, if_neg (by omega)]
      refine ⟨Advanced.none hn, ?_, fun _ _ => rfl⟩
      unfold decrypted
      split <;> rfl
  | succ n ih =>
      rw [decryptLoop, if_pos (by omega)]
      obtain ⟨p, hp⟩ : ∃ p, p = xorBlock (D (load s.mem s.cryptData)) (load s.mem s.iv) := ⟨_, rfl⟩
      have hlen' : (s.len + 16) % 2 ^ 32 = s.len + 16 := Nat.mod_eq_of_lt (by omega)
      have hplaced' : Placed (s.plainData + 16) (s.cryptData + 16) (16 * n) :=
        hplaced.mono (by omega)
      have hnext : Apart (s.plainData + 16) (16 * n) s.cryptData 16 := by
        cases hplaced with
        | inl heq => exact .inr (by omega)
        | inr hapart => exact hapart.mono (by omega) (by omega) (by omega) (by omega)
      -- the rest of the ciphertext has not been overwritten
      have hrest : (loads (store s.mem s.plainData p) (s.cryptData + 16) n : List Block) =
          loads s.mem (s.cryptData + 16) n := by
        apply loads_congr
        intro i hi
        apply store_apply_of_not
        rw [Nat.add_assoc]
        exact hplaced.symm.not_mem (by omega) (by omega)
      -- the block to chain with has been, where it is in place
      have hchain : (load (store s.mem s.plainData p) s.cryptData : Block) =
          if s.plainData = s.cryptData then p else load s.mem s.cryptData := by
        split
        · rename_i heq
          rw [heq, load_store]
        · rename_i hne
          have hapart := hplaced.resolve_left hne
          exact load_store_apart (hapart.mono le_rfl (by omega) le_rfl (by omega))
      obtain ⟨hadvanced, hwrote⟩ := ih
        (s :=
          ⟨store s.mem s.plainData p, s.cryptData, s.cryptData + 16, s.plainData + 16,
            s.remaining - 16,
          (s.len + 16) % 2 ^ 32⟩) (by simp only; omega) (by simp only; omega) hplaced' hnext
      simp only [← hp]
      refine ⟨hadvanced.succ rfl rfl rfl (by simp only; omega) hlen', ?_⟩
      rw [loads, decrypted_cons, ← hp]
      simp only [hrest, hchain, Nat.add_right_cancel_iff] at hwrote
      exact hwrote.cons

/-! ## Encryption and decryption -/

/-- The text with its padding behind it. -/
def paddedText (mem : Mem) (ptxt dataLen : Nat) : Mem :=
  fun x => if x < ptxt + dataLen then mem x else UInt8.ofNat (16 - dataLen % 16)

/-- The length of the ciphertext. -/
def outLen (paddType : UInt8) (dataLen : Nat) : Nat :=
  if paddType = noPadding then dataLen else 16 * (dataLen / 16) + 16

/-- A length that goes with the padding. -/
def Paddable (paddType : UInt8) (dataLen : Nat) : Prop :=
  paddType = padLenPadding ∨ (paddType = noPadding ∧ dataLen % 16 = 0 ∧ 16 ≤ dataLen)

instance (paddType : UInt8) (dataLen : Nat) : Decidable (Paddable paddType dataLen) :=
  inferInstanceAs (Decidable (_ ∨ _))

section

variable {mem m m' : Mem} {nonce dataLen ptxt ctxt a n : Nat} {paddType : UInt8} {bs : List Block}

theorem Wrote.concat (h : Wrote a n m m' bs) (b : Block) :
    Wrote a (n + 1) m (store m' (a + 16 * n) b) (bs ++ [b]) := by
  refine ⟨?_, fun x hx => ?_⟩
  · have hfront : (loads (store m' (a + 16 * n) b) a n : List Block) = loads m' a n :=
      loads_congr fun i hi => store_apply_of_not (by omega)
    rw [loads_succ, load_store, hfront, h.blocks]
  · rw [store_apply_of_not (by omega), h.outside x (by omega)]

theorem Wrote.last (h : Wrote a n m m' bs) (iv : Nat) :
    (load m' (if n = 0 then iv else a + 16 * (n - 1)) : Block) = bs.getLastD (load m iv) := by
  cases n with
  | zero =>
      obtain rfl : [] = bs := h.blocks
      exact load_congr fun i _ => h.outside _ (by omega)
  | succ n =>
      rw [← h.blocks, loads_succ, List.getLastD_concat, if_neg (Nat.succ_ne_zero n),
        Nat.add_sub_cancel]

theorem outLen_div (h : Paddable paddType dataLen) :
    outLen paddType dataLen = 16 * (outLen paddType dataLen / 16) ∧ 16 ≤ outLen paddType dataLen ∧
      dataLen ≤ outLen paddType dataLen := by
  unfold outLen
  cases h with
  | inl hpad =>
      rw [if_neg (by rw [hpad]; decide)]
      omega
  | inr hnone =>
      rw [if_pos hnone.1]
      omega

/-- **The ciphertext** is the chain of the padded text. -/
theorem encryptPad_spec (E : Block → Block) (mem : Mem) (nonce : Nat)
    (h : Paddable paddType dataLen) (hlen : dataLen < 2 ^ 32)
    (hplaced : ptxt = ctxt ∨ Apart ptxt dataLen ctxt (outLen paddType dataLen)) :
    (aesCbcEncryptPad E nonce dataLen ptxt ctxt paddType mem).1 =
      int32 (outLen paddType dataLen % 2 ^ 32) ∧
      Wrote ctxt (outLen paddType dataLen / 16) mem
        (aesCbcEncryptPad E nonce dataLen ptxt ctxt paddType mem).2
        (cbcEncrypt xorBlock E (load mem nonce)
          (loads (paddedText mem ptxt dataLen) ptxt (outLen paddType dataLen / 16))) := by
  have hout := (outLen_div h).2.2
  have htext : (loads mem ptxt (dataLen / 16) : List Block) =
      loads (paddedText mem ptxt dataLen) ptxt (dataLen / 16) := by
    apply loads_congr
    intro i hi
    exact (if_pos (by omega)).symm
  have hwhole : Placed ptxt ctxt (16 * (dataLen / 16)) := by
    cases hplaced with
    | inl heq => exact .inl heq
    | inr hapart => exact .inr (hapart.mono le_rfl (by omega) le_rfl (by omega))
  obtain ⟨hadv, hwrote⟩ :=
    encryptLoop_spec E (n := dataLen / 16) (s := ⟨mem, nonce, ctxt, ptxt, dataLen, 0⟩) rfl
    (by simpa using hlen) hwhole
  simp only [htext] at hwrote
  have hiv := hwrote.last nonce
  rw [← hadv.iv, cbcEncrypt_getLastD] at hiv
  cases h with
  | inr hnone =>
      obtain ⟨hnone, hdiv, -⟩ := hnone
      simp only [aesCbcEncryptPad, if_pos hnone, outLen]
      refine ⟨?_, hwrote⟩
      rw [hadv.len, Nat.zero_add, Nat.mod_eq_of_lt hlen]
      congr 1
      omega
  | inl hpad =>
      have hne : ¬paddType = noPadding := by
        rw [hpad]
        decide
      have hdiv : (16 * (dataLen / 16) + 16) / 16 = dataLen / 16 + 1 := by omega
      simp only [aesCbcEncryptPad, if_neg hne, if_pos hpad, outLen, hdiv] at hplaced ⊢
      -- the octets behind the whole blocks are still there
      have htail : padBlock (encryptLoop E ⟨mem, nonce, ctxt, ptxt, dataLen, 0⟩) =
          xorBlock (load (encryptLoop E ⟨mem, nonce, ctxt, ptxt, dataLen, 0⟩).mem
              (encryptLoop E ⟨mem, nonce, ctxt, ptxt, dataLen, 0⟩).iv)
            (load (paddedText mem ptxt dataLen) (ptxt + 16 * (dataLen / 16))) := by
        funext j
        have hj := j.isLt
        have hplain : (encryptLoop E ⟨mem, nonce, ctxt, ptxt, dataLen, 0⟩).plainData =
            ptxt + 16 * (dataLen / 16) :=
          hadv.plainData
        rw [xorBlock_comm, padBlock, xorBlock, load_apply, load_apply, paddedText,
          hadv.remaining, hplain]
        by_cases hin : (j : Nat) < dataLen % 16
        · rw [if_pos hin, if_pos (by omega), hwrote.outside]
          rw [Nat.add_assoc]
          cases hplaced with
          | inl heq => omega
          | inr hapart =>
              have hnot := hapart.not_mem (show 16 * (dataLen / 16) + j < dataLen by omega)
              omega
        · rw [if_neg hin, if_neg (by omega)]
      refine ⟨?_, ?_⟩
      · rw [hadv.len, Nat.zero_add]
      · rw [htail, hiv, hadv.cryptData, loads_succ, cbcEncrypt_concat]
        exact hwrote.concat _

/-- **The plaintext**, and what is returned for it. -/
theorem decryptPad_spec (D : Block → Block) (mem : Mem) (paddType : UInt8) (hdiv : dataLen % 16 = 0)
    (hmin : 16 ≤ dataLen) (hlen : dataLen < 2 ^ 32) (hplaced : Placed ptxt ctxt dataLen)
    (hnonce : Apart ptxt dataLen nonce 16) :
    Wrote ptxt (dataLen / 16) mem (aesCbcDecryptPad D nonce dataLen ctxt ptxt paddType mem).2
        (decrypted D (ptxt = ctxt) (load mem nonce) (loads mem ctxt (dataLen / 16))) ∧
      (aesCbcDecryptPad D nonce dataLen ctxt ptxt paddType mem).1 =
        if paddType = padLenPadding then
          int32 (sub32 dataLen
            ((aesCbcDecryptPad D nonce dataLen ctxt ptxt paddType mem).2
              (ptxt + (dataLen - 1))).toNat)
        else int32 dataLen := by
  have hwhole : 16 * (dataLen / 16) = dataLen := by omega
  obtain ⟨hadv, hwrote⟩ :=
    decryptLoop_spec D (n := dataLen / 16) (s := ⟨mem, nonce, ctxt, ptxt, dataLen, 0⟩) rfl
    (by simpa using hlen) (by simpa only [hwhole] using hplaced)
      (by simpa only [hwhole] using hnonce)
  have hdone : (decryptLoop D ⟨mem, nonce, ctxt, ptxt, dataLen, 0⟩).len = dataLen := by
    rw [hadv.len, Nat.zero_add, hwhole]
  rw [aesCbcDecryptPad, if_neg (not_not.mpr hdiv), if_neg (Nat.not_lt.mpr hmin)]
  by_cases hpad : paddType = padLenPadding
  · simp only [if_pos hpad, hdone, and_true]
    exact hwrote
  · simp only [if_neg hpad, hdone, and_true]
    exact hwrote

end

/-! ## What is returned -/

section

theorem int32_lt (x : Nat) : int32 x < 2 ^ 31 := by
  unfold int32
  split <;> omega

theorem int32_of_lt {x : Nat} (h : x < 2 ^ 31) : int32 x = x := by
  unfold int32
  split <;> omega

theorem int32_of_le {x : Nat} (h : 2 ^ 31 ≤ x) (hx : x < 2 ^ 32) : int32 x = x - 2 ^ 32 := by
  unfold int32
  split <;> omega

theorem int32_toNat (x : Nat) : (int32 x % 2 ^ 32).toNat = x % 2 ^ 32 := by
  unfold int32
  split <;> omega

theorem int32_sub {len b : Nat} (hlen : len ≤ 2 ^ 31) (hb : b < 256) (hpos : len = 2 ^ 31 → 0 < b) :
    int32 (sub32 len b) = len - b := by
  unfold int32 sub32
  split <;> omega

end

/-! ## Round trips -/

/-- Where the buffers are: each function works in place or into a place apart, which is apart from
the nonce. -/
structure Buffers (nonce dataLen total ptxt ctxt out : Nat) : Prop where
  encrypt : ptxt = ctxt ∨ Apart ptxt dataLen ctxt total
  decrypt : Placed out ctxt total
  nonceCtxt : Apart ctxt total nonce 16
  nonceOut : Apart out total nonce 16

/-- What has been encrypted is decrypted to the text, and its length is returned. -/
def RoundTrips (C : Perm Block) (nonce dataLen ptxt ctxt out : Nat) (paddType : UInt8) (mem : Mem) :
    Prop :=
  let (r, mem₁) := aesCbcEncryptPad C nonce dataLen ptxt ctxt paddType mem
  let (r', mem₂) := aesCbcDecryptPad C.symm nonce (r % 2 ^ 32).toNat ctxt out paddType mem₁
  r' = dataLen ∧ ∀ k < dataLen, mem₂ (out + k) = mem (ptxt + k)

section

variable {nonce dataLen ptxt ctxt out : Nat} {paddType : UInt8}

theorem decryptPad_lt (D : Block → Block) (nonce dataLen ctxt ptxt : Nat) (paddType : UInt8)
    (mem : Mem) :
    (aesCbcDecryptPad D nonce dataLen ctxt ptxt paddType mem).1 < 2 ^ 31 := by
  have herror : (-1 : Int) < 2 ^ 31 := by decide
  unfold aesCbcDecryptPad
  split
  · exact herror
  · split
    · exact herror
    · simp only
      split
      · apply int32_lt
      · apply int32_lt

/-- **One function after the other**, for a length that is an `int`. -/
theorem roundTrips_iff (C : Perm Block) (mem : Mem) (hpad : Paddable paddType dataLen)
    (hlen : dataLen < 2 ^ 31) (h : Buffers nonce dataLen (outLen paddType dataLen) ptxt ctxt out) :
    ∃ mem₁ mem₂, Wrote out (outLen paddType dataLen / 16) mem₁ mem₂
        (decrypted C.symm (out = ctxt) (load mem nonce) (cbcEncrypt xorBlock C (load mem nonce)
          (loads (paddedText mem ptxt dataLen) ptxt (outLen paddType dataLen / 16)))) ∧
      (RoundTrips C nonce dataLen ptxt ctxt out paddType mem ↔
        (if paddType = padLenPadding then
          int32 (sub32 (outLen paddType dataLen) (mem₂ (out + (outLen paddType dataLen - 1))).toNat)
        else int32 (outLen paddType dataLen)) = dataLen ∧ ∀ k < dataLen, mem₂ (out + k) =
          mem (ptxt + k)) := by
  obtain ⟨hwhole, hmin, -⟩ := outLen_div hpad
  have hmax : outLen paddType dataLen ≤ 2 ^ 31 := by
    unfold outLen
    split <;> omega
  obtain ⟨hreturn, hcipher⟩ := encryptPad_spec C mem nonce hpad (by omega) h.encrypt
  obtain ⟨mem₁, hmem₁⟩ : ∃ m, m = (aesCbcEncryptPad C nonce dataLen ptxt ctxt paddType mem).2 :=
    ⟨_, rfl⟩
  rw [← hmem₁] at hcipher
  have hsize : (int32 (outLen paddType dataLen % 2 ^ 32) % 2 ^ 32).toNat =
      outLen paddType dataLen := by
    rw [int32_toNat]
    omega
  have hnonce : (load mem₁ nonce : Block) = load mem nonce := by
    apply load_congr
    intro i hi
    apply hcipher.outside
    have hnot := h.nonceCtxt.symm.not_mem hi
    omega
  obtain ⟨hplain, hvalue⟩ :=
    decryptPad_spec C.symm mem₁ paddType (by omega) hmin (by omega) h.decrypt
    h.nonceOut
  rw [hnonce, hcipher.blocks] at hplain
  refine ⟨mem₁, _, hplain, ?_⟩
  rw [← hvalue]
  simp only [RoundTrips, hreturn, hsize, ← hmem₁]

/-- **The text comes back**, where the decryption takes the chain apart. -/
theorem roundTrips_of_decrypted (C : Perm Block) (mem : Mem) (hpad : Paddable paddType dataLen)
    (hlen : dataLen < 2 ^ 31) (h : Buffers nonce dataLen (outLen paddType dataLen) ptxt ctxt out)
    (hone : out = ctxt → outLen paddType dataLen = 16) :
    RoundTrips C nonce dataLen ptxt ctxt out paddType mem := by
  obtain ⟨mem₁, mem₂, hwrote, hiff⟩ := roundTrips_iff C mem hpad hlen h
  obtain ⟨hwhole, hmin, hle⟩ := outLen_div hpad
  have hinverse : ∀ ps, cbcDecrypt xorBlock C.symm (load mem nonce)
      (cbcEncrypt xorBlock C (load mem nonce) ps) = ps :=
    cbcDecrypt_cbcEncrypt xorBlock_cancel C.symm_apply_apply _
  have htext :
      decrypted C.symm (out = ctxt) (load mem nonce) (cbcEncrypt xorBlock C (load mem nonce)
      (loads (paddedText mem ptxt dataLen) ptxt (outLen paddType dataLen / 16))) =
      loads (paddedText mem ptxt dataLen) ptxt (outLen paddType dataLen / 16) := by
    rw [decrypted]
    split
    · -- a chain of one block
      rename_i hsame
      have hsingle := hinverse (loads (paddedText mem ptxt dataLen) ptxt 1)
      rw [hone hsame]
      exact hsingle
    · exact hinverse _
  rw [htext] at hwrote
  have hoctets := loads_inj hwrote.blocks
  rw [← hwhole] at hoctets
  rw [hiff]
  refine ⟨?_, fun k hk => ?_⟩
  · cases hpad with
    | inl hpad =>
        have hout : outLen paddType dataLen = 16 * (dataLen / 16) + 16 := by
          rw [outLen, if_neg (by rw [hpad]; decide)]
        rw [if_pos hpad, hoctets _ (by omega), paddedText, if_neg (by omega), UInt8.toNat_ofNat',
          int32_sub (by omega) (by omega) (by omega)]
        omega
    | inr hnone =>
        have hout : outLen paddType dataLen = dataLen := by rw [outLen, if_pos hnone.1]
        rw [if_neg (by rw [hnone.1]; decide), hout, int32_of_lt hlen]
  · rw [hoctets k (by omega), paddedText, if_pos (by omega)]

theorem aesCbcDecrypt_aesCbcEncrypt (C : Perm Block) (mem : Mem) (hdiv : dataLen % 16 = 0)
    (hmin : 16 ≤ dataLen) (hlen : dataLen < 2 ^ 31)
    (h : Buffers nonce dataLen dataLen ptxt ctxt out) (hone : out = ctxt → dataLen = 16) :
    let (r, mem₁) := aesCbcEncrypt C nonce dataLen ptxt ctxt mem
    let (r', mem₂) := aesCbcDecrypt C.symm nonce (r % 2 ^ 32).toNat ctxt out mem₁
    r' = dataLen ∧ ∀ k < dataLen, mem₂ (out + k) = mem (ptxt + k) := by
  have hout : outLen noPadding dataLen = dataLen := if_pos rfl
  have htrip : RoundTrips C nonce dataLen ptxt ctxt out noPadding mem := by
    apply roundTrips_of_decrypted C mem (.inr ⟨rfl, hdiv, hmin⟩) hlen
    · rwa [hout]
    · rwa [hout]
  rw [aesCbcEncrypt, if_neg (not_not.mpr hdiv), if_neg (Nat.not_lt.mpr hmin)]
  exact htrip

/-! ## In place -/

/-- The cipher that inverts the bits of a constant in each octet. -/
def xorCipher (x : UInt8) : Perm Block :=
  Function.Involutive.toPerm (fun b => xorBlock b fun _ => x) fun b => by
    funext i
    simp only [xorBlock]
    rw [UInt8.xor_assoc, UInt8.xor_self, UInt8.xor_zero]

theorem xorCipher_apply (x : UInt8) (b : Block) : xorCipher x b = xorBlock b fun _ => x := rfl

theorem xorCipher_symm (x : UInt8) : (xorCipher x).symm = xorCipher x := rfl

/-- **The second block** in place is put together with the first block of the text, not of the
ciphertext. -/
theorem inPlace_second (x : UInt8) (iv p q : Block) (ps : List Block) :
    ∃ rest,
      chainOutput xorBlock (xorCipher x).symm iv
      (cbcEncrypt xorBlock (xorCipher x) iv (p :: q :: ps)) =
      p :: xorBlock (xorBlock q iv) (fun _ => x) :: rest := by
  have hfirst : xorBlock ((xorCipher x).symm (xorCipher x (xorBlock iv p))) iv = p := by
    rw [Equiv.symm_apply_apply]
    exact xorBlock_cancel iv p
  have hsecond :
      xorBlock ((xorCipher x).symm (xorCipher x (xorBlock (xorCipher x (xorBlock iv p)) q))) p =
      xorBlock (xorBlock q iv) fun _ => x := by
    rw [Equiv.symm_apply_apply, xorCipher_apply]
    funext i
    simp only [xorBlock]
    ac_nf
    rw [← UInt8.xor_assoc (p i) (p i), UInt8.xor_self, UInt8.zero_xor]
  rw [cbcEncrypt, cbcEncrypt, chainOutput, hfirst, chainOutput, hsecond]
  exact ⟨_, rfl⟩

theorem xor_one_ne (b : UInt8) : b ^^^ 1 ≠ b := by
  intro h
  have hcancel := congrArg (b ^^^ ·) h
  simp at hcancel

/-- **In place, two blocks are too many**: with a cipher for the nonce, octet 31 is another one. -/
theorem not_roundTrips_inPlace (mem : Mem) (hpad : Paddable paddType dataLen)
    (hlen : dataLen < 2 ^ 31) (h : Buffers nonce dataLen (outLen paddType dataLen) ptxt ctxt out)
    (hsame : out = ctxt) (htwo : outLen paddType dataLen ≠ 16) :
    ¬RoundTrips (xorCipher (mem (nonce + 15) ^^^ 1)) nonce dataLen ptxt ctxt out paddType mem := by
  obtain ⟨mem₁, mem₂, hwrote, hiff⟩ :=
    roundTrips_iff (xorCipher (mem (nonce + 15) ^^^ 1)) mem hpad hlen h
  obtain ⟨hwhole, hmin, hle⟩ := outLen_div hpad
  obtain ⟨k, hk⟩ : ∃ k, outLen paddType dataLen / 16 = k + 2 :=
    ⟨outLen paddType dataLen / 16 - 2, by omega⟩
  -- the octet is changed in its lowest bit
  have hoctet : mem₂ (out + 31) = paddedText mem ptxt dataLen (ptxt + 31) ^^^ 1 := by
    have hblocks := hwrote.blocks
    rw [hk, decrypted, if_pos hsame, loads, loads, loads, loads] at hblocks
    obtain ⟨rest, hrest⟩ := inPlace_second (mem (nonce + 15) ^^^ 1) (load mem nonce)
      (load (paddedText mem ptxt dataLen) ptxt) (load (paddedText mem ptxt dataLen) (ptxt + 16))
      (loads (paddedText mem ptxt dataLen) (ptxt + 16 + 16) k)
    rw [hrest] at hblocks
    have hsecond := congrFun (List.cons.inj (List.cons.inj hblocks).2).1 ⟨15, by decide⟩
    simp only [load_apply, xorBlock] at hsecond
    rw [UInt8.xor_assoc, ← UInt8.xor_assoc (mem (nonce + _)), UInt8.xor_self, UInt8.zero_xor]
      at hsecond
    exact hsecond
  rw [hiff]
  rintro ⟨hvalue, htext⟩
  by_cases hin : 31 < dataLen
  · rw [htext 31 hin, paddedText, if_pos (by omega)] at hoctet
    exact xor_one_ne _ hoctet.symm
  · -- the octet is the padding
    have hpad' : paddType = padLenPadding := by
      cases hpad with
      | inl hpad => exact hpad
      | inr hnone =>
          rw [outLen, if_pos hnone.1] at hk
          omega
    have hout : outLen paddType dataLen = 16 * (dataLen / 16) + 16 := by
      rw [outLen, if_neg (by rw [hpad']; decide)]
    have hsize : outLen paddType dataLen = 32 := by omega
    have hnumber : (paddedText mem ptxt dataLen (ptxt + 31)).toNat = 32 - dataLen := by
      rw [paddedText, if_neg (by omega), UInt8.toNat_ofNat']
      omega
    rw [if_pos hpad', hsize, hoctet] at hvalue
    have hlow := UInt8.toNat_lt (paddedText mem ptxt dataLen (ptxt + 31) ^^^ 1)
    rw [int32_sub (by decide) hlow (by omega)] at hvalue
    refine xor_one_ne (paddedText mem ptxt dataLen (ptxt + 31)) (UInt8.toNat_inj.mp ?_)
    omega

/-! ## The value returned -/

/-- The value returned is the error or a length of the plaintext. -/
def Bounded (dataLen : Nat) (r : Int) : Prop := r = -1 ∨ (0 ≤ r ∧ r ≤ dataLen)

/-- The value is so for every ciphertext of a length. -/
def AllBounded (dataLen : Nat) (paddType : UInt8) : Prop :=
  ∀ (C : Perm Block) (mem : Mem) (nonce ctxt ptxt : Nat), Placed ptxt ctxt dataLen →
    Apart ptxt dataLen nonce 16 →
    Bounded dataLen (aesCbcDecryptPad C.symm nonce dataLen ctxt ptxt paddType mem).1

theorem decrypt_constant (x : UInt8) (hdiv : dataLen % 16 = 0) (hmin : 16 ≤ dataLen)
    (hlen : dataLen < 2 ^ 32) :
    (aesCbcDecryptPad (xorCipher x).symm 0 dataLen 16 (16 + dataLen) paddType fun _ => 0).1 =
      if paddType = padLenPadding then int32 (sub32 dataLen x.toNat) else int32 dataLen := by
  have hplaced : Placed (16 + dataLen) 16 dataLen := .inr (.inr (by omega))
  have hnonce : Apart (16 + dataLen) dataLen 0 16 := .inr (by omega)
  obtain ⟨hwrote, hvalue⟩ :=
    decryptPad_spec (xorCipher x).symm (fun _ => 0) paddType hdiv hmin hlen hplaced hnonce
  have hconst :
      ∀ n, cbcDecrypt xorBlock (xorCipher x).symm (fun _ => 0) (List.replicate n fun _ => 0) =
      List.replicate n fun _ => x := by
    intro n
    induction n with
    | zero => rfl
    | succ n ih =>
        rw [List.replicate_succ, cbcDecrypt, ih, List.replicate_succ, xorCipher_symm,
          xorCipher_apply]
        congr 1
        funext i
        simp only [xorBlock]
        rw [UInt8.zero_xor, UInt8.xor_zero]
  rw [decrypted, if_neg (by omega), loads_const, show load (fun _ => 0) 0 = fun _ : Fin 16 =>
    (0 : UInt8) from rfl, hconst, ← loads_const (a := 16 + dataLen)] at hwrote
  have hlast := loads_inj hwrote.blocks (dataLen - 1) (by omega)
  rw [hvalue, hlast]

/-- **The value returned** is no length for a ciphertext that is too short for the largest padding,
or too long for an `int`. -/
theorem allBounded_iff (hlen : dataLen < 2 ^ 32) :
    AllBounded dataLen paddType ↔
      dataLen % 16 ≠ 0 ∨ dataLen = 0 ∨
      (dataLen < 2 ^ 31 ∧ (paddType ≠ padLenPadding ∨ 256 ≤ dataLen)) := by
  refine ⟨fun h => ?_, fun h C mem nonce ctxt ptxt hplaced hnonce => ?_⟩
  · by_contra hnot
    rw [not_or, not_or, not_not, not_and_or] at hnot
    obtain ⟨hdiv, hzero, hlong⟩ := hnot
    have hbounded :=
      fun x : UInt8 => h (xorCipher x) (fun _ => 0) 0 16 (16 + dataLen) (.inr (.inr (by omega)))
      (.inr (by omega))
    simp only [decrypt_constant _ hdiv (show 16 ≤ dataLen by omega) hlen] at hbounded
    cases hlong with
    | inl hlong =>
        -- a padding of no octets leaves the length, which is negative
        have hvalue := hbounded 0
        have hsub : sub32 dataLen (0 : UInt8).toNat = dataLen := by
          rw [sub32, UInt8.toNat_zero]
          omega
        rw [hsub, ite_self, int32_of_le (by omega) hlen] at hvalue
        unfold Bounded at hvalue
        omega
    | inr hshort =>
        rw [not_or, not_not] at hshort
        have hvalue := hbounded 255
        rw [if_pos hshort.1, int32_sub (by omega) (by decide) (by omega)] at hvalue
        have hpadding : ((255 : UInt8).toNat : Int) = 255 := rfl
        unfold Bounded at hvalue
        omega
  · by_cases hdiv : dataLen % 16 = 0
    · by_cases hmin : 16 ≤ dataLen
      · obtain ⟨hint, hpadding⟩ := (h.resolve_left (not_not.mpr hdiv)).resolve_left (by omega)
        obtain ⟨-, hvalue⟩ := decryptPad_spec C.symm mem paddType hdiv hmin hlen hplaced hnonce
        rw [hvalue]
        refine .inr ?_
        split
        · rename_i hpad
          have hlong := hpadding.resolve_left (not_not.mpr hpad)
          have hlow := UInt8.toNat_lt
            ((aesCbcDecryptPad C.symm nonce dataLen ctxt ptxt paddType mem).2
              (ptxt + (dataLen - 1)))
          rw [int32_sub (by omega) hlow (by omega)]
          omega
        · rw [int32_of_lt hint]
          omega
      · rw [aesCbcDecryptPad, if_neg (not_not.mpr hdiv), if_pos (by omega)]
        exact .inl rfl
    · rw [aesCbcDecryptPad, if_pos hdiv]
      exact .inl rfl

theorem lt_of_roundTrips {C : Perm Block} {mem : Mem}
    (h : RoundTrips C nonce dataLen ptxt ctxt out paddType mem) :
    dataLen < 2 ^ 31 := by
  obtain ⟨r, mem₁, hr⟩ :
      ∃ r mem₁, aesCbcEncryptPad C nonce dataLen ptxt ctxt paddType mem = (r, mem₁) := ⟨_, _, rfl⟩
  simp only [RoundTrips, hr] at h
  have hlow := decryptPad_lt C.symm nonce (r % 2 ^ 32).toNat ctxt out paddType mem₁
  rw [h.1] at hlow
  omega

/-- **When CBC mode does what its comments say.** -/
theorem cbc_iff (mem : Mem) (hpad : Paddable paddType dataLen)
    (h : Buffers nonce dataLen (outLen paddType dataLen) ptxt ctxt out) {cryptLen : Nat}
    (hcrypt : cryptLen < 2 ^ 32)
    (paddType' : UInt8) :
    ((∀ C, RoundTrips C nonce dataLen ptxt ctxt out paddType mem) ↔
        dataLen < 2 ^ 31 ∧ (out = ctxt → outLen paddType dataLen = 16)) ∧
      (AllBounded cryptLen paddType' ↔
        cryptLen % 16 ≠ 0 ∨ cryptLen = 0 ∨
        (cryptLen < 2 ^ 31 ∧ (paddType' ≠ padLenPadding ∨ 256 ≤ cryptLen))) := by
  refine ⟨⟨fun hall => ?_, fun hcond C => roundTrips_of_decrypted C mem hpad hcond.1 h hcond.2⟩,
    allBounded_iff hcrypt⟩
  have hint := lt_of_roundTrips (hall (Equiv.refl Block))
  refine ⟨hint, fun hsame => ?_⟩
  by_contra htwo
  exact not_roundTrips_inPlace mem hpad hint h hsame htwo (hall _)

end

/-- Sixteen octets from the nonce on are the text, two blocks the ciphertext, and the decryption is
in place. -/
theorem buffers_inPlace : Buffers 0 16 32 16 16 16 := ⟨.inl rfl, .inl rfl, by decide, by decide⟩

/-- One block of a ciphertext. -/
theorem cbc_iff_block :
    ((∀ C, RoundTrips C 0 16 16 16 16 padLenPadding fun _ => 0) ↔
        16 < 2 ^ 31 ∧ (16 = 16 → outLen padLenPadding 16 = 16)) ∧
      (AllBounded 16 noPadding ↔
        16 % 16 ≠ 0 ∨ 16 = 0 ∨ (16 < 2 ^ 31 ∧ (noPadding ≠ padLenPadding ∨ 256 ≤ 16))) :=
  cbc_iff (fun _ => 0) (.inl rfl) buffers_inPlace (by decide) noPadding

/-- **Two blocks in place, and a padding that is too long.** -/
theorem inPlace_differs :
    ¬RoundTrips (xorCipher 1) 0 16 16 16 16 padLenPadding (fun _ => 0) ∧
    ¬AllBounded 16 padLenPadding := by
  refine ⟨?_, ?_⟩
  · exact not_roundTrips_inPlace (fun _ => 0) (.inl rfl) (by decide) buffers_inPlace rfl (by decide)
  · rw [allBounded_iff (by decide)]
    decide

end BroadcomWl.Crypto.AesCbc
