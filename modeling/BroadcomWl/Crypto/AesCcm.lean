import BroadcomWl.Crypto.AesCbc

/-!
# AES in CCM mode

`aes_ctr_crypt`, `aes_ccm_mac`, `aes_ccm_encrypt` and `aes_ccm_decrypt` of `aes.c`, in memory. The
block cipher is any function on blocks. A local array that is given to `aes_ctr_crypt` is a memory
of its own.

**RFC 3610**, with two octets for lengths and eight for the MAC: `authBlocks`, `ciphertext` and
`tag` are its blocks, its ciphertext and its authentication value, on strings. `ccm_correct` says
that the functions compute them, in place or not, and that what is accepted has been encrypted.

**Counters.** `ccm_counters_iff` says for which lengths the counter blocks are all different and the
length fits into its field. The limit on the length is that of a counter that starts at zero
(`longest_message`). -/

namespace BroadcomWl.Crypto.AesCcm

open BroadcomWl.Nas (Bytes Mem)
open BroadcomWl.Lib.Memory BroadcomWl.Lib.BlockModes
open BroadcomWl.Crypto.AesCbc (Block xorBlock)

/-! ## The code -/

/-- `AES_CTR_MAXBLOCKS` -/
def aesCtrMaxBlocks : Nat := 2 ^ 16

/-- `AES_CCM_AAD_MAX_LEN` -/
def aesCcmAadMaxLen : Nat := 0xfeff

/-- `AES_CCM_CRYPT_FLAGS` -/
def aesCcmCryptFlags : UInt8 := 2 - 1

/-- `AES_CCM_AUTH_FLAGS` -/
def aesCcmAuthFlags : UInt8 := 4 * (8 - 2) + (2 - 1)

/-- `AES_CCM_AUTH_AAD_FLAG` -/
def aesCcmAuthAadFlag : UInt8 := 0x40

/-- The increment of a counter block: its last octet, with the carry into the one before it. -/
def nextCtr (ctr : Block) : Block :=
  if ctr 15 + 1 = 0 then Function.update (Function.update ctr 15 (ctr 15 + 1)) 14 (ctr 14 + 1)
  else Function.update ctr 15 (ctr 15 + 1)

/-- The loop of `aes_ctr_crypt`, for a number of blocks. -/
def ctrLoop (E : Block → Block) : Nat → Block → Nat → Nat → Mem → Block × Mem
  | 0, ctr, _, _, mem => (ctr, mem)
  | n + 1, ctr, ptxt, ctxt, mem =>
    ctrLoop E n (nextCtr ctr) (ptxt + 16) (ctxt + 16)
      (store mem ctxt (xorBlock (load mem ptxt) (E ctr)))

/-- `aes_ctr_crypt` -/
def aesCtrCrypt (E : Block → Block) (nonce : Block) (dataLen ptxt ctxt : Nat) (mem : Mem) :
    Int × Mem :=
  if 16 * aesCtrMaxBlocks < dataLen then (-1, mem)
  else
    let (ctr, mem) := ctrLoop E (dataLen / 16) nonce ptxt ctxt mem
    let ptxt := ptxt + 16 * (dataLen / 16)
    let ctxt := ctxt + 16 * (dataLen / 16)
    (0, store mem ctxt fun k : Fin (dataLen % 16) =>
      mem (ptxt + k) ^^^ E ctr ⟨k, k.isLt.trans (Nat.mod_lt _ (by decide))⟩)

/-- A block that begins with flags and a nonce. -/
def flagged (flags : UInt8) (mem : Mem) (nonce : Nat) (high low : UInt8) : Block := fun i =>
  if i.val = 0 then flags else if i.val < 14 then mem (nonce + (i - 1)) else if i.val =
    14 then high else low

/-- `B_0` -/
def b0 (mem : Mem) (nonce aadLen dataLen : Nat) : Block :=
  flagged (if aadLen ≠ 0 then aesCcmAuthFlags ||| aesCcmAuthAadFlag else aesCcmAuthFlags) mem nonce
    (UInt8.ofNat (dataLen >>> 8)) (UInt8.ofNat dataLen)

/-- The loops of `aes_ccm_mac` over the additional data, behind the two octets of its length. -/
def aadMac (E : Block → Block) (aadLen aad : Nat) (mem : Mem) (x : Block) : Block :=
  let x : Block := fun i =>
    if i.val = 0 then x i ^^^ UInt8.ofNat (aadLen >>> 8)
    else if i.val = 1 then x i ^^^ UInt8.ofNat aadLen
    else x i
  flush E ((mem.slice aad aadLen).foldl (absorb (· ^^^ ·) E) (x, 2))

/-- The loop of `aes_ccm_mac` over the whole blocks of the message. -/
def dataMac (E : Block → Block) : Nat → Nat → Mem → Block → Block
  | 0, _, _, x => x
  | n + 1, ptxt, mem, x => dataMac E n (ptxt + 16) mem (E (xorBlock x (load mem ptxt)))

/-- `aes_ccm_mac`: the MAC, if there is no error. -/
def aesCcmMac (E : Block → Block) (nonce aadLen aad dataLen ptxt : Nat) (mem : Mem) :
    Option (Fin 8 → UInt8) :=
  if aesCcmAadMaxLen < aadLen then none
  else
    let x := E (b0 mem nonce aadLen dataLen)
    let x := if aadLen ≠ 0 then aadMac E aadLen aad mem x else x
    let x := dataMac E (dataLen / 16) ptxt mem x
    let ptxt := ptxt + 16 * (dataLen / 16)
    let x := if dataLen % 16 ≠ 0 then E fun i => if i < dataLen % 16 then x i ^^^ mem (ptxt + i)
      else x i else x
    some fun i => x (i.castLE (by decide))

/-- A local array. -/
def localArray (x : Fin 8 → UInt8) : Mem := fun a => if h : a < 8 then x ⟨a, h⟩ else 0

/-- `aes_ccm_encrypt` -/
def aesCcmEncrypt (E : Block → Block) (nonce aadLen aad dataLen ptxt ctxt mac : Nat) (mem : Mem) :
    Int × Mem :=
  let counter := flagged aesCcmCryptFlags mem nonce 0
  match aesCcmMac E nonce aadLen aad dataLen ptxt mem with
  | none => (-1, mem)
  | some x =>
    let (r, x) := aesCtrCrypt E (counter 0) 8 0 0 (localArray x)
    if r ≠ 0 then (-1, mem)
    else
      let mem := store mem mac (load x 0 : Fin 8 → UInt8)
      let (r, mem) := aesCtrCrypt E (counter 1) dataLen ptxt ctxt mem
      if r ≠ 0 then (-1, mem) else (0, mem)

/-- A difference of type `size_t`, which has `w` bits. -/
def subSize (w x y : Nat) : Nat := (x + (2 ^ w - y)) % 2 ^ w

/-- `aes_ccm_decrypt` -/
def aesCcmDecrypt (w : Nat) (E : Block → Block) (nonce aadLen aad dataLen ctxt ptxt : Nat)
    (mem : Mem) : Int × Mem :=
  let counter := flagged aesCcmCryptFlags mem nonce 0
  let (r, mem) := aesCtrCrypt E (counter 1) (subSize w dataLen 8) ctxt ptxt mem
  if r ≠ 0 then (-1, mem)
  else
    let (r, mem) := aesCtrCrypt E (counter 0) 8 (ctxt + dataLen - 8) (ptxt + dataLen - 8) mem
    if r ≠ 0 then (-1, mem)
    else
      match aesCcmMac E nonce aadLen aad (subSize w dataLen 8) ptxt mem with
      | none => (-1, mem)
      | some x => if x ≠ load mem (ptxt + dataLen - 8) then (-1, mem) else (0, mem)

/-! ## RFC 3610 -/

/-- `A_i` -/
def counterBlock (nonce : Fin 13 → UInt8) (i : Nat) : Block := fun j =>
  if j.val = 0 then 1
  else if h : j.val < 14 then nonce ⟨j - 1, by omega⟩
  else if j.val = 14 then UInt8.ofNat (i / 256)
  else UInt8.ofNat i

/-- `B_0`: flags, nonce and the length of the message. -/
def firstBlock (nonce : Fin 13 → UInt8) (aadLen len : Nat) : Block := fun j =>
  if j.val = 0 then if aadLen = 0 then 0x19 else 0x59
  else if h : j.val < 14 then nonce ⟨j - 1, by omega⟩
  else if j.val = 14 then UInt8.ofNat (len / 256)
  else UInt8.ofNat len

/-- The blocks for the authentication: `B_0`, the additional data behind its length, the message. -/
def authBlocks (nonce : Fin 13 → UInt8) (aad msg : Bytes) : List Block :=
  firstBlock nonce aad.length msg.length ::
    ((if aad = [] then [] else blocksOf 0 16 (beBytes 2 aad.length ++ aad)) ++ blocksOf 0 16 msg)

/-- `S_i` -/
def keyStream (E : Block → Block) (nonce : Fin 13 → UInt8) (i : Nat) : Block :=
  E (counterBlock nonce i)

/-- The encrypted message. -/
def ciphertext (E : Block → Block) (nonce : Fin 13 → UInt8) (msg : Bytes) : Bytes :=
  msg.mapIdx fun j b => b ^^^ keyStream E nonce (j / 16 + 1) ⟨j % 16, Nat.mod_lt _ (by decide)⟩

/-- `T`, the first eight octets of the CBC-MAC. -/
def authValue (E : Block → Block) (nonce : Fin 13 → UInt8) (aad msg : Bytes) :
    Fin 8 → UInt8 := fun i =>
  cbcMac xorBlock E (fun _ => 0) (authBlocks nonce aad msg) (i.castLE (by decide))

/-- `U`, the encrypted authentication value. -/
def tag (E : Block → Block) (nonce : Fin 13 → UInt8) (aad msg : Bytes) : Fin 8 → UInt8 := fun i =>
  authValue E nonce aad msg i ^^^ keyStream E nonce 0 (i.castLE (by decide))

/-- What is sent: the encrypted message and the encrypted authentication value. -/
def encryption (E : Block → Block) (nonce : Fin 13 → UInt8) (aad msg : Bytes) : Bytes :=
  ciphertext E nonce msg ++ List.ofFn (tag E nonce aad msg)

/-! ## Counter mode -/

theorem ofNat_succ (i : Nat) : UInt8.ofNat i + 1 = UInt8.ofNat (i + 1) := by
  apply UInt8.toNat_inj.mp
  simp [UInt8.toNat_add]

/-- **Counter blocks** follow each other. -/
theorem nextCtr_counterBlock (nonce : Fin 13 → UInt8) (i : Nat) :
    nextCtr (counterBlock nonce i) = counterBlock nonce (i + 1) := by
  have hlast : ∀ i, counterBlock nonce i 15 = UInt8.ofNat i := fun i => rfl
  have hcarry : ∀ i, counterBlock nonce i 14 = UInt8.ofNat (i / 256) := fun i => rfl
  have hrest : ∀ j : Fin 16, j ≠ 14 → j ≠ 15 →
      counterBlock nonce (i + 1) j = counterBlock nonce i j := by
    intro j h14 h15
    have hj := j.isLt
    have hlt : j.val < 14 := by
      have h14 : j.val ≠ 14 := fun h => h14 (Fin.ext h)
      have h15 : j.val ≠ 15 := fun h => h15 (Fin.ext h)
      omega
    simp only [counterBlock, dif_pos hlt]
  have hzero : UInt8.ofNat (i + 1) = 0 ↔ (i + 1) % 256 = 0 := by
    rw [← UInt8.toNat_inj, UInt8.toNat_ofNat']
    rfl
  funext j
  rw [nextCtr, hlast, hcarry, ofNat_succ, ofNat_succ]
  by_cases h15 : j = 15
  · subst h15
    split
    · rw [Function.update_of_ne (by decide), Function.update_self, hlast]
    · rw [Function.update_self, hlast]
  · by_cases h14 : j = 14
    · subst h14
      rw [hcarry]
      split
      · rename_i hwrap
        rw [hzero] at hwrap
        rw [Function.update_self]
        congr 1
        omega
      · rename_i hnot
        rw [hzero] at hnot
        rw [Function.update_of_ne (by decide), hcarry]
        congr 1
        omega
    · rw [hrest j h14 h15]
      split
      · rw [Function.update_of_ne h14, Function.update_of_ne h15]
      · rw [Function.update_of_ne h15]

theorem iterate_counterBlock (nonce : Fin 13 → UInt8) (i k : Nat) :
    nextCtr^[k] (counterBlock nonce i) = counterBlock nonce (i + k) := by
  induction k with
  | zero => rfl
  | succ k ih => rw [Function.iterate_succ_apply', ih, nextCtr_counterBlock, Nat.add_assoc]

/-- Octet `j` of what a counter block and those after it are enciphered to. -/
def stream (E : Block → Block) (ctr : Block) (j : Nat) : UInt8 :=
  E (nextCtr^[j / 16] ctr) ⟨j % 16, Nat.mod_lt _ (by decide)⟩

/-- `len` octets have been put together with the stream, and nothing else is written. -/
structure Crypted (E : Block → Block) (ctr : Block) (len ptxt ctxt : Nat) (mem mem' : Mem) :
    Prop where
  octets : ∀ j < len, mem' (ctxt + j) = mem (ptxt + j) ^^^ stream E ctr j
  outside : ∀ x, ¬(ctxt ≤ x ∧ x < ctxt + len) → mem' x = mem x

theorem stream_add (E : Block → Block) (ctr : Block) (n j : Nat) :
    stream E ctr (16 * n + j) = stream E (nextCtr^[n] ctr) j := by
  have hdiv : (16 * n + j) / 16 = j / 16 + n := by omega
  have hmod : (16 * n + j) % 16 = j % 16 := by omega
  simp only [stream, hdiv, hmod, Function.iterate_add_apply]

section

variable {E : Block → Block} {ctr : Block} {ptxt ctxt n : Nat} {mem : Mem}

theorem ctrLoop_fst : (ctrLoop E n ctr ptxt ctxt mem).1 = nextCtr^[n] ctr := by
  induction n generalizing ctr ptxt ctxt mem with
  | zero => rfl
  | succ n ih => rw [ctrLoop, ih, Function.iterate_succ_apply]

/-- **The loop over whole blocks.** -/
theorem ctrLoop_spec (hplaced : Placed ptxt ctxt (16 * n)) :
    Crypted E ctr (16 * n) ptxt ctxt mem (ctrLoop E n ctr ptxt ctxt mem).2 := by
  induction n generalizing ctr ptxt ctxt mem with
  | zero => exact ⟨fun j hj => absurd hj (by omega), fun _ _ => rfl⟩
  | succ n ih =>
      obtain ⟨mem₁, hmem₁⟩ : ∃ m, m = store mem ctxt (xorBlock (load mem ptxt) (E ctr)) := ⟨_, rfl⟩
      have hrest : Crypted E (nextCtr ctr) (16 * n) (ptxt + 16) (ctxt + 16) mem₁
          (ctrLoop E n (nextCtr ctr) (ptxt + 16) (ctxt + 16) mem₁).2 := ih (hplaced.mono (by omega))
      rw [ctrLoop, ← hmem₁]
      refine ⟨fun j hj => ?_, fun x hx => ?_⟩
      · by_cases hfirst : j < 16
        · have hblock : nextCtr^[j / 16] ctr = ctr := by rw [Nat.div_eq_of_lt hfirst]; rfl
          rw [hrest.outside _ (by omega), hmem₁, store_apply (by omega), stream, hblock]
          simp only [xorBlock, load_apply, Nat.add_sub_cancel_left, Nat.mod_eq_of_lt hfirst]
        · obtain ⟨k, rfl⟩ := Nat.exists_eq_add_of_le (Nat.not_lt.mp hfirst)
          have hstream := stream_add E ctr 1 k
          rw [Nat.mul_one, Function.iterate_one] at hstream
          rw [← Nat.add_assoc, hrest.octets k (by omega), hstream, hmem₁, Nat.add_assoc,
            store_apply_of_not (hplaced.not_mem (by omega) hj)]
      · rw [hrest.outside x (by omega), hmem₁, store_apply_of_not (by omega)]

/-- **`aes_ctr_crypt`**, for a length that it takes. -/
theorem aesCtrCrypt_spec {dataLen : Nat} (E : Block → Block) (ctr : Block) (mem : Mem)
    (hlen : dataLen ≤ 16 * aesCtrMaxBlocks) (hplaced : Placed ptxt ctxt dataLen) :
    ∃ mem', aesCtrCrypt E ctr dataLen ptxt ctxt mem = (0, mem') ∧
    Crypted E ctr dataLen ptxt ctxt mem mem' := by
  have hwhole : Placed ptxt ctxt (16 * (dataLen / 16)) := hplaced.mono (d := 0) (by omega)
  have hloop :
      Crypted E ctr (16 * (dataLen / 16)) ptxt ctxt mem
      (ctrLoop E (dataLen / 16) ctr ptxt ctxt mem).2 :=
    ctrLoop_spec hwhole
  refine ⟨_, by rw [aesCtrCrypt, if_neg (Nat.not_lt.mpr hlen)], fun j hj => ?_, fun x hx => ?_⟩
  · by_cases hin : j < 16 * (dataLen / 16)
    · rw [store_apply_of_not (by omega), hloop.octets j hin]
    · obtain ⟨k, rfl⟩ := Nat.exists_eq_add_of_le (Nat.not_lt.mp hin)
      have hk : k < 16 := by omega
      have htext :
          (ctrLoop E (dataLen / 16) ctr ptxt ctxt mem).2 (ptxt + (16 * (dataLen / 16) + k)) =
          mem (ptxt + (16 * (dataLen / 16) + k)) := by
        apply hloop.outside
        exact hplaced.not_mem (by omega) hj
      rw [store_apply (by omega), stream_add]
      have hoff : ctxt + (16 * (dataLen / 16) + k) - (ctxt + 16 * (dataLen / 16)) = k := by omega
      simp only [hoff, ctrLoop_fst, stream, Nat.mod_eq_of_lt hk, Nat.div_eq_of_lt hk,
        Function.iterate_zero, id]
      rw [Nat.add_assoc, htext]
  · rw [store_apply_of_not (by omega), hloop.outside x (by omega)]

theorem aesCtrCrypt_fst {dataLen : Nat} :
    (aesCtrCrypt E ctr dataLen ptxt ctxt mem).1 = if 16 * aesCtrMaxBlocks <
      dataLen then -1 else 0 :=
  apply_ite Prod.fst _ _ _

theorem aesCtrCrypt_long {dataLen : Nat} (hlen : 16 * aesCtrMaxBlocks < dataLen) :
    aesCtrCrypt E ctr dataLen ptxt ctxt mem = (-1, mem) := if_pos hlen

end

/-! ## Authentication -/

section

variable {E : Block → Block} {mem : Mem} {nonce aadLen aad dataLen ptxt : Nat}

theorem flagged_counterBlock (mem : Mem) (nonce : Nat) {i : Nat} (h : i < 256) :
    flagged aesCcmCryptFlags mem nonce 0 (UInt8.ofNat i) = counterBlock (load mem nonce) i := by
  funext j
  rw [flagged, counterBlock, Nat.div_eq_of_lt h]
  split
  · rfl
  · split
    · rw [load_apply]
    · rfl

theorem flagged_zero (mem : Mem) (nonce : Nat) :
    flagged aesCcmCryptFlags mem nonce 0 0 = counterBlock (load mem nonce) 0 :=
  flagged_counterBlock mem nonce (by decide)

theorem flagged_one (mem : Mem) (nonce : Nat) :
    flagged aesCcmCryptFlags mem nonce 0 1 = counterBlock (load mem nonce) 1 :=
  flagged_counterBlock mem nonce (by decide)

theorem b0_eq (mem : Mem) (nonce aadLen dataLen : Nat) :
    b0 mem nonce aadLen dataLen = firstBlock (load mem nonce) aadLen dataLen := by
  have hflags : (if aadLen ≠ 0 then aesCcmAuthFlags ||| aesCcmAuthAadFlag else aesCcmAuthFlags) =
      if aadLen = 0 then 0x19 else 0x59 := by
    by_cases hzero : aadLen = 0
    · rw [if_neg (not_not.mpr hzero), if_pos hzero]
      rfl
    · rw [if_pos hzero, if_neg hzero]
      rfl
  funext j
  rw [b0, flagged, firstBlock, hflags, Nat.shiftRight_eq_div_pow]
  split
  · rfl
  · split
    · rw [load_apply]
    · rfl

theorem slice_ne_nil {n : Nat} (mem : Mem) (addr : Nat) (h : n ≠ 0) : mem.slice addr n ≠ [] := by
  intro hnil
  have hlength := Nas.Mem.slice_length mem addr n
  rw [hnil] at hlength
  exact h hlength.symm

theorem blocksOf_slice {n : Nat} (mem : Mem) (addr : Nat) (h : n ≠ 0) :
    blocksOf 0 16 (mem.slice addr n) =
      (fun j : Fin 16 => if j < n then mem (addr + j) else 0) ::
        blocksOf 0 16 (mem.slice (addr + 16) (n - 16)) := by
  rw [blocksOf_cons 0 (by decide) (slice_ne_nil mem addr h), Nas.Mem.slice_drop]
  congr 1
  funext j
  split
  · rename_i hj
    rw [Nas.Mem.slice_getD mem addr hj]
  · rename_i hj
    rw [List.getD_eq_default _ _ (by rw [Nas.Mem.slice_length]; omega)]

/-- **Additional data**, behind the octets of its length. -/
theorem aadMac_eq (x : Block) :
    aadMac E aadLen aad mem x =
      cbcMac xorBlock E x (blocksOf 0 16 (beBytes 2 aadLen ++ mem.slice aad aadLen)) := by
  have hlength :=
    foldl_absorb (· ^^^ ·) (0 : UInt8) (E := E) (x := x) (k := 0) (l := beBytes 2 aadLen)
    (by rw [beBytes_length]; decide)
  have hstart : (beBytes 2 aadLen).foldl (absorb (· ^^^ ·) E) (x, 0) =
      (fun i : Fin 16 => if i.val = 0 then x i ^^^ UInt8.ofNat (aadLen >>> 8)
        else if i.val = 1 then x i ^^^ UInt8.ofNat aadLen else x i, 2) := by
    rw [hlength, beBytes_length]
    congr 1
    funext i
    by_cases hzero : i.val = 0
    · rw [if_pos (by omega), if_pos hzero, hzero]
      rfl
    · by_cases hone : i.val = 1
      · rw [if_pos (by omega), if_neg hzero, if_pos hone, hone]
        rfl
      · rw [if_neg (by omega), if_neg hzero, if_neg hone]
  have hcells := flush_absorb (· ^^^ ·) (0 : UInt8) (E := E) (fun a => UInt8.xor_zero) (by decide) x
    (beBytes 2 aadLen ++ mem.slice aad aadLen)
  rw [List.foldl_append, hstart] at hcells
  exact hcells

/-- **The message**: whole blocks, and one that need not be whole. -/
theorem dataMac_eq (E : Block → Block) (mem : Mem) (n : Nat) {r : Nat} (hr : r < 16) (ptxt : Nat)
    (x : Block) :
    (if r ≠ 0 then
      E fun i => if i < r then dataMac E n ptxt mem x i ^^^ mem (ptxt + 16 * n + i)
        else dataMac E n ptxt mem x i
    else dataMac E n ptxt mem x) =
      cbcMac xorBlock E x (blocksOf 0 16 (mem.slice ptxt (16 * n + r))) := by
  induction n generalizing ptxt x with
  | zero =>
      by_cases hzero : r = 0
      · rw [if_neg (not_not.mpr hzero), hzero, Nas.Mem.slice, blocksOf_nil 0 (by decide)]
        rfl
      · have hrest : mem.slice (ptxt + 16) (r - 16) = [] := by
          rw [Nat.sub_eq_zero_of_le hr.le]
          rfl
        rw [if_pos hzero, Nat.mul_zero, Nat.zero_add, blocksOf_slice mem ptxt hzero, hrest,
          blocksOf_nil 0 (by decide), cbcMac, List.foldl_cons, List.foldl_nil]
        congr 1
        funext i
        simp only [dataMac, xorBlock, Nat.add_zero]
        split
        · rfl
        · rw [UInt8.xor_zero]
  | succ n ih =>
      have hlen : 16 * (n + 1) + r ≠ 0 := by omega
      have hrest : 16 * (n + 1) + r - 16 = 16 * n + r := by omega
      have haddr : ptxt + 16 * (n + 1) = ptxt + 16 + 16 * n := by omega
      have hfirst : (fun j : Fin 16 => if j < 16 * (n + 1) + r then mem (ptxt + j) else 0) =
          load mem ptxt := by
        funext j
        rw [if_pos (by omega), load_apply]
      rw [blocksOf_slice mem ptxt hlen, hrest, hfirst, cbcMac,
        List.foldl_cons, ← cbcMac, ← ih (ptxt + 16), haddr]
      rfl

/-- **`aes_ccm_mac`**, for a length of the additional data that it takes. -/
theorem aesCcmMac_eq (E : Block → Block) (mem : Mem) (nonce aad dataLen ptxt : Nat)
    (h : aadLen ≤ aesCcmAadMaxLen) :
    aesCcmMac E nonce aadLen aad dataLen ptxt mem =
      some (authValue E (load mem nonce) (mem.slice aad aadLen) (mem.slice ptxt dataLen)) := by
  have hdata := dataMac_eq E mem (dataLen / 16) (Nat.mod_lt dataLen (by decide)) ptxt
  rw [Nat.div_add_mod] at hdata
  have hfirst : cbcMac xorBlock E (fun _ => 0) [firstBlock (load mem nonce) aadLen dataLen] =
      E (firstBlock (load mem nonce) aadLen dataLen) := by
    rw [cbcMac, List.foldl_cons, List.foldl_nil]
    congr 1
    funext i
    exact UInt8.zero_xor
  rw [aesCcmMac, if_neg (Nat.not_lt.mpr h)]
  simp only [b0_eq, hdata]
  congr 1
  funext i
  rw [authValue, authBlocks, Nas.Mem.slice_length, Nas.Mem.slice_length, ← List.singleton_append,
    cbcMac_append, hfirst, cbcMac_append]
  by_cases hzero : aadLen = 0
  · rw [if_neg (not_not.mpr hzero), if_pos (by rw [hzero]; rfl)]
    rfl
  · rw [if_pos hzero, if_neg (slice_ne_nil mem aad hzero), aadMac_eq]

theorem aesCcmMac_none (h : aesCcmAadMaxLen < aadLen) :
    aesCcmMac E nonce aadLen aad dataLen ptxt mem = none := if_pos h

end

/-! ## Strings -/

section

variable {E : Block → Block} {nonce : Fin 13 → UInt8} {aad msg : Bytes}

theorem stream_counterBlock (E : Block → Block) (nonce : Fin 13 → UInt8) (i j : Nat) :
    stream E (counterBlock nonce i) j =
      keyStream E nonce (j / 16 + i) ⟨j % 16, Nat.mod_lt _ (by decide)⟩ := by
  rw [stream, iterate_counterBlock, Nat.add_comm, keyStream]

@[simp] theorem ciphertext_length : (ciphertext E nonce msg).length = msg.length :=
  List.length_mapIdx

theorem ciphertext_getD {j : Nat} (h : j < msg.length) :
    (ciphertext E nonce msg).getD j 0 = msg.getD j 0 ^^^ stream E (counterBlock nonce 1) j := by
  rw [stream_counterBlock, List.getD_eq_getElem _ _ (by rw [ciphertext_length]; exact h),
    List.getD_eq_getElem _ _ h]
  simp only [ciphertext, List.getElem_mapIdx]

theorem ciphertext_ciphertext (E : Block → Block) (nonce : Fin 13 → UInt8) (msg : Bytes) :
    ciphertext E nonce (ciphertext E nonce msg) = msg := by
  apply List.ext_getElem
  · rw [ciphertext_length, ciphertext_length]
  · intro j _ _
    simp only [ciphertext, List.getElem_mapIdx]
    rw [UInt8.xor_assoc, UInt8.xor_self, UInt8.xor_zero]

theorem slice_eq_ofFn (mem : Mem) (addr n : Nat) :
    mem.slice addr n = List.ofFn (load mem addr : Fin n → UInt8) := by
  induction n generalizing addr with
  | zero => rfl
  | succ n ih =>
      rw [Nas.Mem.slice, ih, List.ofFn_succ]
      congr 2
      funext i
      rw [load_apply, load_apply, Fin.val_succ]
      congr 1
      omega

theorem slice_eq_encryption {mem : Mem} {ctxt n : Nat} (hn : msg.length = n) :
    mem.slice ctxt (n + 8) = encryption E nonce aad msg ↔
      mem.slice ctxt n = ciphertext E nonce msg ∧ load mem (ctxt + n) = tag E nonce aad msg := by
  have hfront : (mem.slice ctxt n).length = (ciphertext E nonce msg).length := by
    rw [Nas.Mem.slice_length, ciphertext_length, hn]
  rw [Nas.Mem.slice_add, encryption, slice_eq_ofFn mem (ctxt + n)]
  refine ⟨fun h => ?_, fun h => ?_⟩
  · obtain ⟨hcipher, htag⟩ := List.append_inj h hfront
    exact ⟨hcipher, List.ofFn_injective htag⟩
  · rw [h.1, h.2]

variable {len ptxt ctxt : Nat} {mem mem' : Mem}

theorem Crypted.slice (h : Crypted E (counterBlock nonce 1) len ptxt ctxt mem mem') :
    mem'.slice ctxt len = ciphertext E nonce (mem.slice ptxt len) := by
  have hlength : (ciphertext E nonce (mem.slice ptxt len)).length = len := by
    rw [ciphertext_length, Nas.Mem.slice_length]
  have hcells : ∀ j, j < (ciphertext E nonce (mem.slice ptxt len)).length →
      mem' (ctxt + j) = (ciphertext E nonce (mem.slice ptxt len)).getD j 0 := by
    intro j hj
    rw [hlength] at hj
    rw [ciphertext_getD (by rwa [Nas.Mem.slice_length]), Nas.Mem.slice_getD mem ptxt hj,
      h.octets j hj]
  have hslice := Nas.Mem.slice_eq hcells
  rwa [hlength] at hslice

theorem Crypted.mac (h : Crypted E (counterBlock nonce 0) 8 ptxt ctxt mem mem') (i : Fin 8) :
    mem' (ctxt + i) = mem (ptxt + i) ^^^ keyStream E nonce 0 (i.castLE (by decide)) := by
  have hi := i.isLt
  rw [h.octets i hi, stream_counterBlock]
  congr 2
  · omega
  · apply Fin.ext
    exact Nat.mod_eq_of_lt (by omega)

end

/-! ## Encryption -/

/-- Where `aes_ccm_encrypt` reads and writes. -/
structure EncryptArgs (dataLen ptxt ctxt mac : Nat) : Prop where
  text : Placed ptxt ctxt dataLen
  macText : Apart mac 8 ptxt dataLen
  macCipher : Apart mac 8 ctxt dataLen

/-- A message has been encrypted, and nothing else is written. -/
structure Encrypted (E : Block → Block) (nonce : Fin 13 → UInt8) (aad msg : Bytes) (ctxt mac : Nat)
    (mem mem' : Mem) : Prop where
  cipher : mem'.slice ctxt msg.length = ciphertext E nonce msg
  value : load mem' mac = tag E nonce aad msg
  outside : ∀ x, ¬(ctxt ≤ x ∧ x < ctxt + msg.length) → ¬(mac ≤ x ∧ x < mac + 8) → mem' x = mem x

section

variable {nonce aadLen aad dataLen ptxt ctxt mac : Nat}

/-- **`aes_ccm_encrypt`**, for lengths that it takes. -/
theorem aesCcmEncrypt_spec (E : Block → Block) (mem : Mem) (nonce aad : Nat)
    (haad : aadLen ≤ aesCcmAadMaxLen) (hlen : dataLen ≤ 16 * aesCtrMaxBlocks)
    (h : EncryptArgs dataLen ptxt ctxt mac) :
    ∃ mem', aesCcmEncrypt E nonce aadLen aad dataLen ptxt ctxt mac mem = (0, mem') ∧
      Encrypted E (load mem nonce) (mem.slice aad aadLen) (mem.slice ptxt dataLen) ctxt mac mem
        mem' := by
  obtain ⟨nonce', hnonce⟩ : ∃ f : Fin 13 → UInt8, f = load mem nonce := ⟨_, rfl⟩
  obtain ⟨x, hx⟩ : ∃ x, x = authValue E nonce' (mem.slice aad aadLen) (mem.slice ptxt dataLen) :=
    ⟨_, rfl⟩
  obtain ⟨local', hlocal, hmac⟩ := aesCtrCrypt_spec E (counterBlock nonce' 0) (localArray x)
    (show 8 ≤ 16 * aesCtrMaxBlocks by decide) (.inl (rfl : 0 = 0))
  obtain ⟨mem', hdata, hcrypted⟩ := aesCtrCrypt_spec E (counterBlock nonce' 1)
    (store mem mac (load local' 0 : Fin 8 → UInt8)) hlen h.text
  have htag : (load local' 0 : Fin 8 → UInt8) =
      tag E nonce' (mem.slice aad aadLen) (mem.slice ptxt dataLen) := by
    funext i
    have hi := i.isLt
    rw [load_apply, hmac.mac, Nat.zero_add, tag, ← hx, localArray, dif_pos hi]
  refine ⟨mem', ?_, ?_⟩
  · rw [aesCcmEncrypt, aesCcmMac_eq E mem nonce aad dataLen ptxt haad, ← hnonce, ← hx]
    simp only [flagged_zero, flagged_one, ← hnonce, hlocal, hdata, ne_eq,
      not_true_eq_false, if_false]
  · have htext : Nas.Mem.slice (store mem mac (load local' 0 : Fin 8 → UInt8)) ptxt dataLen =
        mem.slice ptxt dataLen := by
      apply Nas.Mem.slice_congr
      intro i hi
      rw [store_apply_of_not (h.macText.symm.not_mem hi)]
    have hcipher := hcrypted.slice
    rw [htext] at hcipher
    rw [← hnonce]
    refine ⟨?_, ?_, fun y hy hmac => ?_⟩
    · rw [Nas.Mem.slice_length, hcipher]
    · have hkept : (load mem' mac : Fin 8 → UInt8) =
          load (store mem mac (load local' 0 : Fin 8 → UInt8)) mac := by
        apply load_congr
        intro i hi
        exact hcrypted.outside _ (h.macCipher.not_mem hi)
      rw [hkept, load_store, htag]
    · rw [Nas.Mem.slice_length] at hy
      rw [hcrypted.outside y hy, store_apply_of_not hmac]

/-! ## Decryption -/

/-- Where `aes_ccm_decrypt` reads and writes. -/
structure DecryptArgs (nonce aadLen aad dataLen ctxt ptxt : Nat) : Prop where
  text : Placed ctxt ptxt dataLen
  nonceText : Apart nonce 13 ptxt dataLen
  aadText : Apart aad aadLen ptxt dataLen

section

variable {w : Nat}

theorem subSize_of_le {x y : Nat} (h : y ≤ x) (hx : x < 2 ^ w) : subSize w x y = x - y := by
  have hsum : x + (2 ^ w - y) = x - y + 2 ^ w := by omega
  rw [subSize, hsum, Nat.add_mod_right, Nat.mod_eq_of_lt (by omega)]

theorem subSize_of_lt {x y : Nat} (h : x < y) (hy : y ≤ 2 ^ w) :
    subSize w x y = 2 ^ w - (y - x) := by
  rw [subSize, Nat.mod_eq_of_lt (by omega)]
  omega

/-- **An input that is too long, or shorter than the authentication value.** -/
theorem aesCcmDecrypt_long (E : Block → Block) (mem : Mem)
    (h : 16 * aesCtrMaxBlocks < subSize w dataLen 8) :
    aesCcmDecrypt w E nonce aadLen aad dataLen ctxt ptxt mem = (-1, mem) := by
  simp only [aesCcmDecrypt, aesCtrCrypt_long h]
  exact if_pos (by decide)

theorem aesCcmDecrypt_short (E : Block → Block) (mem : Mem) (hw : 32 ≤ w) (h : dataLen < 8) :
    aesCcmDecrypt w E nonce aadLen aad dataLen ctxt ptxt mem = (-1, mem) := by
  have hpow : 2 ^ 32 ≤ 2 ^ w := Nat.pow_le_pow_right (by decide) hw
  apply aesCcmDecrypt_long
  rw [subSize_of_lt h (by omega), aesCtrMaxBlocks]
  omega

/-- **`aes_ccm_decrypt`**, for lengths that it takes. -/
theorem aesCcmDecrypt_spec (E : Block → Block) (mem : Mem) (hsize : dataLen + 8 < 2 ^ w)
    (hlen : dataLen ≤ 16 * aesCtrMaxBlocks)
    (h : DecryptArgs nonce aadLen aad (dataLen + 8) ctxt ptxt) :
    ∃ mem', aesCcmDecrypt w E nonce aadLen aad (dataLen + 8) ctxt ptxt mem =
        (if aadLen ≤ aesCcmAadMaxLen ∧
          load mem (ctxt + dataLen) =
            tag E (load mem nonce) (mem.slice aad aadLen) (mem'.slice ptxt dataLen)
        then 0 else -1, mem') ∧
      mem'.slice ptxt dataLen = ciphertext E (load mem nonce) (mem.slice ctxt dataLen) ∧
      ∀ x, ¬(ptxt ≤ x ∧ x < ptxt + (dataLen + 8)) → mem' x = mem x := by
  obtain ⟨nonce', hnonce⟩ : ∃ f : Fin 13 → UInt8, f = load mem nonce := ⟨_, rfl⟩
  have hfront : Placed ctxt ptxt dataLen := h.text.mono (d := 0) (by omega)
  obtain ⟨mem₁, hdata, htext⟩ := aesCtrCrypt_spec E (counterBlock nonce' 1) mem hlen hfront
  obtain ⟨mem₂, hvalue, hmac⟩ := aesCtrCrypt_spec E (counterBlock nonce' 0) mem₁
    (show 8 ≤ 16 * aesCtrMaxBlocks by decide) (h.text.mono (d := dataLen) le_rfl)
  have houtside : ∀ x, ¬(ptxt ≤ x ∧ x < ptxt + (dataLen + 8)) → mem₂ x = mem x := by
    intro x hx
    rw [hmac.outside x (by omega), htext.outside x (by omega)]
  have hmsg : mem₂.slice ptxt dataLen = mem₁.slice ptxt dataLen := by
    apply Nas.Mem.slice_congr
    intro i hi
    exact hmac.outside _ (by omega)
  have hkept : load mem₂ nonce = nonce' := by
    rw [hnonce]
    apply load_congr
    intro i hi
    exact houtside _ (h.nonceText.not_mem hi)
  have haad : mem₂.slice aad aadLen = mem.slice aad aadLen := by
    apply Nas.Mem.slice_congr
    intro i hi
    exact houtside _ (h.aadText.not_mem hi)
  -- the two authentication values are equal when they are equal encrypted
  have hequal :
      authValue E nonce' (mem.slice aad aadLen) (mem₂.slice ptxt dataLen) =
      load mem₂ (ptxt + dataLen) ↔
      load mem (ctxt + dataLen) =
          tag E nonce' (mem.slice aad aadLen) (mem₂.slice ptxt dataLen) := by
    rw [funext_iff, funext_iff]
    apply forall_congr'
    intro i
    have hi := i.isLt
    have hread : mem₁ (ctxt + dataLen + i) = mem (ctxt + dataLen + i) := by
      rw [Nat.add_assoc]
      apply htext.outside
      exact h.text.not_mem (by omega) (by omega)
    rw [load_apply, load_apply, hmac.mac, hread, tag]
    refine ⟨fun heq => ?_, fun heq => ?_⟩
    · rw [heq, UInt8.xor_assoc, UInt8.xor_self, UInt8.xor_zero]
    · rw [heq, UInt8.xor_assoc, UInt8.xor_self, UInt8.xor_zero]
  refine ⟨mem₂, ?_, ?_, houtside⟩
  · have hsub : subSize w (dataLen + 8) 8 = dataLen := subSize_of_le (by omega) hsize
    have hctxt : ctxt + (dataLen + 8) - 8 = ctxt + dataLen := by omega
    have hptxt : ptxt + (dataLen + 8) - 8 = ptxt + dataLen := by omega
    simp only [aesCcmDecrypt, hsub, hctxt, hptxt, flagged_zero, flagged_one, ← hnonce, hdata,
      hvalue, ne_eq, not_true_eq_false, if_false]
    by_cases hmax : aadLen ≤ aesCcmAadMaxLen
    · rw [aesCcmMac_eq E mem₂ nonce aad dataLen ptxt hmax, hkept, haad]
      simp only [hequal]
      split
      · rename_i hne
        rw [if_neg (fun hand => hne hand.2)]
      · rename_i heq
        rw [if_pos ⟨hmax, not_not.mp heq⟩]
    · rw [aesCcmMac_none (Nat.not_le.mp hmax), if_neg (fun hand => hmax hand.1)]
  · rw [hmsg, htext.slice, hnonce]

theorem error_ne {mem mem' : Mem} : ((-1 : Int), mem) ≠ (0, mem') := by
  intro h
  have hvalue : (-1 : Int) = 0 := congrArg Prod.fst h
  exact absurd hvalue (by decide)

/-- **What is accepted has been encrypted.** -/
theorem aesCcmDecrypt_zero {E : Block → Block} {mem mem' : Mem} (hw : 32 ≤ w)
    (hsize : dataLen < 2 ^ w) (h : DecryptArgs nonce aadLen aad dataLen ctxt ptxt)
    (hzero : aesCcmDecrypt w E nonce aadLen aad dataLen ctxt ptxt mem = (0, mem')) :
    8 ≤ dataLen ∧ mem.slice ctxt dataLen =
      encryption E (load mem nonce) (mem.slice aad aadLen) (mem'.slice ptxt (dataLen - 8)) := by
  by_cases hmin : dataLen < 8
  · rw [aesCcmDecrypt_short E mem hw hmin] at hzero
    exact absurd hzero error_ne
  · obtain ⟨n, rfl⟩ := Nat.exists_eq_add_of_le' (Nat.not_lt.mp hmin)
    by_cases hlen : n ≤ 16 * aesCtrMaxBlocks
    · obtain ⟨mem₂, hvalue, hmsg, -⟩ := aesCcmDecrypt_spec E mem hsize hlen h
      rw [hvalue] at hzero
      have hmem : mem₂ = mem' := congrArg Prod.snd hzero
      subst hmem
      refine ⟨Nat.le_add_left 8 n, ?_⟩
      rw [Nat.add_sub_cancel, slice_eq_encryption (Nas.Mem.slice_length _ _ _)]
      refine ⟨?_, ?_⟩
      · rw [hmsg, ciphertext_ciphertext]
      · by_contra hne
        rw [if_neg (fun hand => hne hand.2)] at hzero
        exact absurd hzero error_ne
    · rw [aesCcmDecrypt_long E mem (by rw [subSize_of_le (by omega) hsize]; omega)] at hzero
      exact absurd hzero error_ne

/-- **What has been encrypted is accepted.** -/
theorem aesCcmDecrypt_encryption {E : Block → Block} {mem : Mem} {msg : Bytes}
    (haad : aadLen ≤ aesCcmAadMaxLen) (hsize : msg.length + 8 < 2 ^ w)
    (hlen : msg.length ≤ 16 * aesCtrMaxBlocks)
    (h : DecryptArgs nonce aadLen aad (msg.length + 8) ctxt ptxt)
    (hinput : mem.slice ctxt (msg.length + 8) =
      encryption E (load mem nonce) (mem.slice aad aadLen) msg) :
    ∃ mem', aesCcmDecrypt w E nonce aadLen aad (msg.length + 8) ctxt ptxt mem = (0, mem') ∧
      mem'.slice ptxt msg.length = msg ∧ ∀ x, ¬(ptxt ≤ x ∧ x < ptxt + (msg.length + 8)) →
      mem' x = mem x := by
  obtain ⟨mem', hvalue, hmsg, houtside⟩ := aesCcmDecrypt_spec E mem hsize hlen h
  obtain ⟨hcipher, htag⟩ := (slice_eq_encryption rfl).mp hinput
  rw [hcipher, ciphertext_ciphertext] at hmsg
  rw [hmsg, if_pos ⟨haad, htag⟩] at hvalue
  exact ⟨mem', hvalue, hmsg, houtside⟩

end

end

/-- **CCM** for messages of less than `2 ^ 16` octets: encryption, in place or not, decryption of
what has been encrypted, and what is accepted. -/
theorem ccm_correct (E : Block → Block) (mem : Mem) (nonce aad : Nat) {aadLen w : Nat}
    (haad : aadLen ≤ aesCcmAadMaxLen) (hw : 32 ≤ w) :
    (∀ dataLen ptxt ctxt mac, dataLen < 2 ^ 16 → EncryptArgs dataLen ptxt ctxt mac →
      ∃ mem', aesCcmEncrypt E nonce aadLen aad dataLen ptxt ctxt mac mem = (0, mem') ∧
        Encrypted E (load mem nonce) (mem.slice aad aadLen) (mem.slice ptxt dataLen) ctxt mac
          mem mem') ∧
    (∀ (msg : Bytes) (ctxt ptxt : Nat), msg.length < 2 ^ 16 →
      DecryptArgs nonce aadLen aad (msg.length + 8) ctxt ptxt →
      mem.slice ctxt (msg.length + 8) = encryption E (load mem nonce) (mem.slice aad aadLen) msg →
      ∃ mem', aesCcmDecrypt w E nonce aadLen aad (msg.length + 8) ctxt ptxt mem = (0, mem') ∧
        mem'.slice ptxt msg.length = msg) ∧
    (∀ dataLen ctxt ptxt mem', dataLen < 2 ^ w → DecryptArgs nonce aadLen aad dataLen ctxt ptxt →
      aesCcmDecrypt w E nonce aadLen aad dataLen ctxt ptxt mem = (0, mem') →
      8 ≤ dataLen ∧ mem.slice ctxt dataLen =
        encryption E (load mem nonce) (mem.slice aad aadLen) (mem'.slice ptxt (dataLen - 8))) ∧
    ∀ dataLen ctxt ptxt, dataLen < 8 →
    aesCcmDecrypt w E nonce aadLen aad dataLen ctxt ptxt mem = (-1, mem) := by
  have hpow : 2 ^ 32 ≤ 2 ^ w := Nat.pow_le_pow_right (by decide) hw
  have hmax : 2 ^ 16 ≤ 16 * aesCtrMaxBlocks := by decide
  refine ⟨fun dataLen ptxt ctxt mac hlen h => ?_, fun msg ctxt ptxt hlen h hinput => ?_,
    fun dataLen ctxt ptxt mem' hsize h hzero => ?_, fun dataLen ctxt ptxt hlen => ?_⟩
  · exact aesCcmEncrypt_spec E mem nonce aad haad (by omega) h
  · obtain ⟨mem', hvalue, hmsg, -⟩ :=
      aesCcmDecrypt_encryption (w := w) haad (by omega) (by omega) h hinput
    exact ⟨mem', hvalue, hmsg⟩
  · exact aesCcmDecrypt_zero hw hsize h hzero
  · exact aesCcmDecrypt_short E mem hw hlen

/-- A cipher that moves the octets and adds something. -/
def turning (b : Block) : Block := fun i => b (i + 1) + 0x81

/-- The numbers from 0 to 19. -/
def twenty : Bytes := (List.range 20).map UInt8.ofNat

/-- A nonce and additional data of zeros, and behind them a message of twenty octets that is
encrypted with them. -/
def sealed : Mem :=
  Mem.ofBytes (List.replicate 20 0 ++ encryption turning (fun _ => 0) (List.replicate 4 0) twenty)

set_option maxRecDepth 10000 in
theorem sealed_slice :
    sealed.slice 20 (twenty.length + 8) =
      encryption turning (load sealed 0) (sealed.slice 13 4) twenty := by
  decide +kernel

/-- A message of twenty octets, encrypted and decrypted in place, and one that is too short. -/
theorem ccm_correct_twenty :
    (∃ mem', aesCcmEncrypt turning 0 4 13 20 20 20 40 sealed = (0, mem') ∧
      Encrypted turning (load sealed 0) (sealed.slice 13 4) (sealed.slice 20 20) 20 40
        sealed mem') ∧
    (∃ mem', aesCcmDecrypt 64 turning 0 4 13 28 20 20 sealed = (0, mem') ∧
      mem'.slice 20 20 = twenty ∧
      sealed.slice 20 28 =
        encryption turning (load sealed 0) (sealed.slice 13 4) (mem'.slice 20 20)) ∧
    aesCcmDecrypt 64 turning 0 4 13 7 20 20 sealed = (-1, sealed) := by
  obtain ⟨hencrypt, hdecrypt, haccepted, hshort⟩ :=
    ccm_correct turning sealed 0 13 (show 4 ≤ aesCcmAadMaxLen by decide) (show 32 ≤ 64 by decide)
  have hargs : DecryptArgs 0 4 13 28 20 20 := ⟨.inl rfl, by decide, by decide⟩
  obtain ⟨mem', hzero, hmsg⟩ := hdecrypt twenty 20 20 (by decide) hargs sealed_slice
  obtain ⟨-, hsent⟩ := haccepted 28 20 20 mem' (by decide) hargs hzero
  exact ⟨hencrypt 20 20 20 40 (by decide) ⟨.inl rfl, by decide, by decide⟩,
    ⟨mem', hzero, hmsg, hsent⟩,
    hshort 7 20 20 (by decide)⟩

/-! ## Counters -/

/-- The counter block for block `k` of the data: the variable `ctr` of `aes_ctr_crypt` when it is
enciphered. -/
def dataCounter (E : Block → Block) (nonce ptxt ctxt : Nat) (mem : Mem) (k : Nat) : Block :=
  (ctrLoop E k (flagged aesCcmCryptFlags mem nonce 0 1) ptxt ctxt mem).1

/-- The counter block for the MAC, `A_0`. -/
def macCounter (nonce : Nat) (mem : Mem) : Block := flagged aesCcmCryptFlags mem nonce 0 0

/-- The number in the length field of `B_0`. -/
def lengthField (nonce aadLen dataLen : Nat) (mem : Mem) : Nat :=
  256 * (b0 mem nonce aadLen dataLen 14).toNat + (b0 mem nonce aadLen dataLen 15).toNat

/-- The length is in its field, and no counter block is used twice. -/
structure Fresh (E : Block → Block) (nonce aadLen dataLen ptxt ctxt : Nat) (mem : Mem) : Prop where
  length : lengthField nonce aadLen dataLen mem = dataLen
  distinct : ∀ i < (dataLen + 15) / 16, ∀ j < (dataLen + 15) / 16,
    dataCounter E nonce ptxt ctxt mem i = dataCounter E nonce ptxt ctxt mem j → i = j
  mac : ∀ i < (dataLen + 15) / 16, dataCounter E nonce ptxt ctxt mem i ≠ macCounter nonce mem

section

variable {E : Block → Block} {nonce aadLen aad dataLen ptxt ctxt mac : Nat} {mem : Mem}

theorem counterBlock_eq_iff (f : Fin 13 → UInt8) (i j : Nat) :
    counterBlock f i = counterBlock f j ↔ i % 2 ^ 16 = j % 2 ^ 16 := by
  refine ⟨fun h => ?_, fun h => ?_⟩
  · have hhigh : UInt8.ofNat (i / 256) = UInt8.ofNat (j / 256) := congrFun h 14
    have hlow : UInt8.ofNat i = UInt8.ofNat j := congrFun h 15
    rw [← UInt8.toNat_inj, UInt8.toNat_ofNat', UInt8.toNat_ofNat'] at hhigh hlow
    omega
  · have hhigh : UInt8.ofNat (i / 256) = UInt8.ofNat (j / 256) := by
      rw [← UInt8.toNat_inj, UInt8.toNat_ofNat', UInt8.toNat_ofNat']
      omega
    have hlow : UInt8.ofNat i = UInt8.ofNat j := by
      rw [← UInt8.toNat_inj, UInt8.toNat_ofNat', UInt8.toNat_ofNat']
      omega
    funext k
    rw [counterBlock, counterBlock, hhigh, hlow]

theorem dataCounter_eq (E : Block → Block) (nonce ptxt ctxt : Nat) (mem : Mem) (k : Nat) :
    dataCounter E nonce ptxt ctxt mem k = counterBlock (load mem nonce) (k + 1) := by
  rw [dataCounter, ctrLoop_fst, flagged_one, iterate_counterBlock, Nat.add_comm]

theorem macCounter_eq (nonce : Nat) (mem : Mem) :
    macCounter nonce mem = counterBlock (load mem nonce) 0 :=
  flagged_zero mem nonce

theorem lengthField_eq (nonce aadLen dataLen : Nat) (mem : Mem) :
    lengthField nonce aadLen dataLen mem = dataLen % 2 ^ 16 := by
  have hhigh : firstBlock (load mem nonce) aadLen dataLen 14 = UInt8.ofNat (dataLen / 256) := rfl
  have hlow : firstBlock (load mem nonce) aadLen dataLen 15 = UInt8.ofNat dataLen := rfl
  rw [lengthField, b0_eq, hhigh, hlow, UInt8.toNat_ofNat', UInt8.toNat_ofNat']
  omega

/-- **The lengths that are taken.** -/
theorem aesCcmEncrypt_zero_iff (E : Block → Block) (nonce aadLen aad dataLen ptxt ctxt mac : Nat)
    (mem : Mem) :
    (aesCcmEncrypt E nonce aadLen aad dataLen ptxt ctxt mac mem).1 = 0 ↔
      aadLen ≤ aesCcmAadMaxLen ∧ dataLen ≤ 16 * aesCtrMaxBlocks := by
  have herror : (-1 : Int) ≠ 0 := by decide
  by_cases haad : aadLen ≤ aesCcmAadMaxLen
  · have hlocal : ¬16 * aesCtrMaxBlocks < 8 := by decide
    simp only [aesCcmEncrypt, aesCcmMac_eq E mem nonce aad dataLen ptxt haad, aesCtrCrypt_fst,
      if_neg hlocal, ne_eq, not_true_eq_false, if_false, haad, true_and]
    by_cases hlen : dataLen ≤ 16 * aesCtrMaxBlocks
    · simp only [if_neg (Nat.not_lt.mpr hlen), hlen, not_true_eq_false, if_false]
    · simp only [if_pos (Nat.not_le.mp hlen), hlen, herror, not_false_eq_true, if_true]
  · simp only [aesCcmEncrypt, aesCcmMac_none (Nat.not_le.mp haad), haad, herror, false_and]

/-- **The data counters** differ for every length that is taken. -/
theorem dataCounter_inj (hlen : dataLen ≤ 16 * aesCtrMaxBlocks) {i j : Nat}
    (hi : i < (dataLen + 15) / 16) (hj : j < (dataLen + 15) / 16)
    (h : dataCounter E nonce ptxt ctxt mem i = dataCounter E nonce ptxt ctxt mem j) :
    i = j := by
  rw [dataCounter_eq, dataCounter_eq, counterBlock_eq_iff] at h
  rw [aesCtrMaxBlocks] at hlen
  omega

/-- **The last block** of the longest message is encrypted like the MAC. -/
theorem dataCounter_ne_macCounter_iff (hlen : dataLen ≤ 16 * aesCtrMaxBlocks) :
    (∀ i < (dataLen + 15) / 16, dataCounter E nonce ptxt ctxt mem i ≠ macCounter nonce mem) ↔
      dataLen ≤ 16 * (aesCtrMaxBlocks - 1) := by
  simp only [dataCounter_eq, macCounter_eq, ne_eq, counterBlock_eq_iff]
  rw [aesCtrMaxBlocks] at *
  refine ⟨fun h => ?_, fun h i hi => by omega⟩
  by_contra hlong
  exact h 65535 (by omega) (by decide)

/-- **When a message that is taken is encrypted as it should be**: the length limit of the mode is
too large. -/
theorem ccm_counters_iff (E : Block → Block) (nonce aadLen aad dataLen ptxt ctxt mac : Nat)
    (mem : Mem) :
    ((aesCcmEncrypt E nonce aadLen aad dataLen ptxt ctxt mac mem).1 = 0 →
        Fresh E nonce aadLen dataLen ptxt ctxt mem) ↔
      (aadLen ≤ aesCcmAadMaxLen ∧ dataLen ≤ 16 * aesCtrMaxBlocks → dataLen < 2 ^ 16) := by
  rw [aesCcmEncrypt_zero_iff]
  apply forall_congr'
  intro hok
  refine ⟨fun h => ?_, fun h => ?_⟩
  · have hlength := h.length
    rw [lengthField_eq] at hlength
    omega
  · have hmax : 2 ^ 16 ≤ 16 * (aesCtrMaxBlocks - 1) := by decide
    refine ⟨?_, fun i hi j hj heq => dataCounter_inj hok.2 hi hj heq, ?_⟩
    · rw [lengthField_eq, Nat.mod_eq_of_lt h]
    · rw [dataCounter_ne_macCounter_iff hok.2]
      omega

end

/-- **The longest message**: its length is left out, and its last block has the counter of
the MAC. -/
theorem longest_message :
    (aesCcmEncrypt id 0 0 0 (2 ^ 20) 16 16 (2 ^ 21) fun _ => 0).1 = 0 ∧
    lengthField 0 0 (2 ^ 20) (fun _ => 0) = 0 ∧
      dataCounter id 0 16 16 (fun _ => 0) 65535 = macCounter 0 (fun _ => 0) ∧
      ¬Fresh id 0 0 (2 ^ 20) 16 16 fun _ => 0 := by
  have hlength := lengthField_eq 0 0 (2 ^ 20) fun _ => 0
  refine ⟨?_, hlength, ?_, fun h => ?_⟩
  · rw [aesCcmEncrypt_zero_iff]
    decide
  · rw [dataCounter_eq, macCounter_eq, counterBlock_eq_iff]
    decide
  · have hfresh := h.length
    rw [hlength] at hfresh
    exact absurd hfresh (by decide)

end BroadcomWl.Crypto.AesCcm
