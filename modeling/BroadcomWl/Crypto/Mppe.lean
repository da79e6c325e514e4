import BroadcomWl.Crypto.AesCbc

/-!
# MPPE keys

`mppe_crypt` of `mppe.c`, in memory: text, salt, secret and authenticator are addresses. MD5 is any
function from strings to blocks of 16 octets.

**Feedback.** The pad of a block is the digest of the secret and the ciphertext of the block before,
which is what has been written in one direction and what is about to be overwritten in the other.
`cryptLoop_spec` says that the loop makes, or takes apart, a chain with feedback, and
`mppe_crypt_inverse` that one undoes the other. -/

namespace BroadcomWl.Crypto.Mppe

open BroadcomWl.Nas (Bytes Mem)
open BroadcomWl.Lib.Memory BroadcomWl.Lib.BlockModes
open BroadcomWl.Crypto.AesCbc (Block xorBlock xorBlock_comm xorBlock_cancel Wrote)

/-! ## The code -/

/-- The octets at an address. -/
def octets (mem : Mem) (a n : Nat) : Bytes := List.ofFn (load mem a : Fin n → UInt8)

/-- The arguments of `mppe_crypt`; all but the lengths are addresses. -/
structure Args where
  salt : Nat
  text : Nat
  textLen : Int
  key : Nat
  keyLen : Nat
  vector : Nat

/-- The loop of `mppe_crypt`, with the last cipher block. -/
def cryptLoop (md5 : Bytes → Block) (s : Args) (encrypt : Bool) (p : Nat) (c : Block) (mem : Mem) :
    Mem :=
  if (p : Int) + 15 < s.text + s.textLen then
    let b :=
      md5 (octets mem s.key s.keyLen ++
        (List.ofFn c ++ if p = s.text then octets mem s.salt 2 else []))
    if encrypt then
      let c := xorBlock (load mem p) b
      cryptLoop md5 s encrypt (p + 16) c (store mem p c)
    else
      let c := load mem p
      cryptLoop md5 s encrypt (p + 16) c (store mem p (xorBlock c b))
  else mem
  termination_by (s.text + s.textLen - p).toNat

/-- `mppe_crypt` -/
def mppeCrypt (md5 : Bytes → Block) (s : Args) (encrypt : Bool) (mem : Mem) : Mem :=
  cryptLoop md5 s encrypt s.text (load mem s.vector) mem

/-! ## The loop -/

/-- A chain with feedback: what is kept of a block is the string that is hashed behind
the secret. -/
def crypted (md5 : Bytes → Block) (encrypt : Bool) (secret y : Bytes) (bs : List Block) :
    List Block :=
  if encrypt then cfbEncrypt xorBlock (fun y => md5 (secret ++ y)) List.ofFn y bs
  else cfbDecrypt xorBlock (fun y => md5 (secret ++ y)) List.ofFn y bs

theorem crypted_cons (md5 : Bytes → Block) (encrypt : Bool) (secret y : Bytes) (b : Block)
    (bs : List Block) :
    crypted md5 encrypt secret y (b :: bs) =
      xorBlock b (md5 (secret ++ y)) ::
        crypted md5 encrypt secret
          (List.ofFn (if encrypt then xorBlock b (md5 (secret ++ y)) else b)) bs := by
  cases encrypt with
  | false => rfl
  | true => rfl

variable {s : Args} {n : Nat}

theorem cryptLoop_pass (md5 : Bytes → Block) (encrypt : Bool) (p : Nat) (c : Block) (mem : Mem)
    (h : (p : Int) + 15 < s.text + s.textLen) :
    ∃ b, b = xorBlock (load mem p)
        (md5 (octets mem s.key s.keyLen ++
          (List.ofFn c ++ if p = s.text then octets mem s.salt 2 else []))) ∧
      cryptLoop md5 s encrypt p c mem =
        cryptLoop md5 s encrypt (p + 16) (if encrypt then b else load mem p) (store mem p b) := by
  refine ⟨_, rfl, ?_⟩
  rw [cryptLoop, if_pos h]
  cases encrypt with
  | false => rfl
  | true => rfl

/-- **The loop** makes the chain, or takes it apart, and keeps everything else. -/
theorem cryptLoop_spec (md5 : Bytes → Block) (encrypt : Bool) (mem : Mem) {p : Nat}
    (hn : ((s.text + s.textLen - p) / 16).toNat = n) (hp : s.text ≤ p)
    (hkey : Apart p (16 * n) s.key s.keyLen) (c : Block) :
    Wrote p n mem (cryptLoop md5 s encrypt p c mem)
      (crypted md5 encrypt (octets mem s.key s.keyLen)
        (List.ofFn c ++ if p = s.text then octets mem s.salt 2 else []) (loads mem p n)) := by
  induction n generalizing p c mem with
  | zero =>
      rw [cryptLoop, if_neg (by omega)]
      refine ⟨?_, fun _ _ => rfl⟩
      cases encrypt with
      | false => rfl
      | true => rfl
  | succ n ih =>
      obtain ⟨b, hb, hpass⟩ := cryptLoop_pass md5 encrypt p c mem (s := s) (by omega)
      have hsecret : octets (store mem p b) s.key s.keyLen = octets mem s.key s.keyLen :=
        congrArg List.ofFn (load_store_apart (hkey.mono le_rfl (by omega) le_rfl le_rfl))
      have hrest : (loads (store mem p b) (p + 16) n : List Block) = loads mem (p + 16) n :=
        loads_congr fun i _ => store_apply_of_not (by omega)
      have hwrote := ih (store mem p b) (p := p + 16) (by omega) (by omega)
        (hkey.mono (by omega) (by omega) le_rfl le_rfl) (if encrypt then b else load mem p)
      have hlater : ¬p + 16 = s.text := by omega
      rw [if_neg hlater, List.append_nil, hsecret, hrest] at hwrote
      rw [hpass, loads, crypted_cons, ← hb]
      exact hwrote.cons

/-- Where the arguments are: apart from the text. -/
structure Buffers (s : Args) : Prop where
  salt : Apart s.text s.textLen.toNat s.salt 2
  key : Apart s.text s.textLen.toNat s.key s.keyLen
  vector : Apart s.text s.textLen.toNat s.vector 16

/-- The number of blocks of the text. -/
def Args.blocks (s : Args) : Nat := (s.textLen / 16).toNat

theorem Args.blocks_le (s : Args) : 16 * s.blocks ≤ s.textLen.toNat := by
  unfold Args.blocks
  omega

/-- What is hashed for the first block, behind the secret. -/
def start (s : Args) (mem : Mem) : Bytes := octets mem s.vector 16 ++ octets mem s.salt 2

theorem mppeCrypt_spec (md5 : Bytes → Block) (h : Buffers s) (encrypt : Bool) (mem : Mem) :
    Wrote s.text s.blocks mem (mppeCrypt md5 s encrypt mem)
      (crypted md5 encrypt (octets mem s.key s.keyLen) (start s mem)
        (loads mem s.text s.blocks)) := by
  have hn : ((s.text + s.textLen - s.text : Int) / 16).toNat = s.blocks := by
    rw [Args.blocks]
    congr 2
    omega
  have hloop := cryptLoop_spec md5 encrypt mem hn le_rfl
    (h.key.mono le_rfl (Nat.add_le_add_left s.blocks_le _) le_rfl le_rfl) (load mem s.vector)
  rwa [if_pos rfl] at hloop

/-! ## Both directions -/

theorem feedback_block {m m' : Mem} {pad : Bytes → Block} {a i : Nat} {y : Bytes}
    (h : loads m' a n = cfbEncrypt xorBlock pad List.ofFn y (loads m a n)) (hi : i < n) :
    load m' (a + 16 * i) =
      xorBlock (load m (a + 16 * i))
        (pad (if i = 0 then y else octets m' (a + 16 * (i - 1)) 16)) := by
  induction n generalizing a y i with
  | zero => exact absurd hi (Nat.not_lt_zero i)
  | succ n ih =>
      rw [loads, loads, cfbEncrypt] at h
      obtain ⟨hfirst, hrest⟩ := List.cons.inj h
      rw [← hfirst] at hrest
      cases i with
      | zero => exact hfirst
      | succ i =>
          have hnext (j : Nat) : a + 16 * (j + 1) = a + 16 + 16 * j := by omega
          rw [hnext, ih hrest (by omega), if_neg (Nat.succ_ne_zero i), Nat.add_sub_cancel]
          cases i with
          | zero => rfl
          | succ i => rw [if_neg (Nat.succ_ne_zero i), Nat.add_sub_cancel, hnext]

theorem octets_mppeCrypt (md5 : Bytes → Block) (h : Buffers s) (encrypt : Bool) (mem : Mem)
    {b k : Nat} (hb : Apart s.text s.textLen.toNat b k) :
    octets (mppeCrypt md5 s encrypt mem) b k = octets mem b k := by
  have hfit := s.blocks_le
  refine congrArg List.ofFn (load_congr fun i hi => (mppeCrypt_spec md5 h encrypt mem).outside _ ?_)
  have hnot := hb.symm.not_mem hi
  omega

/-- **The inverse.** Each block is encrypted with the digest of the secret and the ciphertext block
before it, the first one with that of the secret, the authenticator and the salt; decryption
restores all that was there; and neither changes an octet that is not in the text. -/
theorem mppe_crypt_inverse (md5 : Bytes → Block) (s : Args) (h : Buffers s) (mem : Mem) :
    (∀ i < s.blocks, load (mppeCrypt md5 s true mem) (s.text + 16 * i) =
        xorBlock (load mem (s.text + 16 * i))
          (md5 (octets mem s.key s.keyLen ++
            if i = 0 then octets mem s.vector 16 ++ octets mem s.salt 2
            else octets (mppeCrypt md5 s true mem) (s.text + 16 * (i - 1)) 16))) ∧
      mppeCrypt md5 s false (mppeCrypt md5 s true mem) = mem ∧
      ∀ encrypt x, ¬(s.text ≤ x ∧ (x : Int) < s.text + s.textLen) →
      mppeCrypt md5 s encrypt mem x = mem x := by
  obtain ⟨mem₁, hmem₁⟩ : ∃ m, m = mppeCrypt md5 s true mem := ⟨_, rfl⟩
  have hcipher := mppeCrypt_spec md5 h true mem
  have hplain := mppeCrypt_spec md5 h false mem₁
  have hstart : start s mem₁ = start s mem := by
    rw [hmem₁, start, octets_mppeCrypt md5 h true mem h.vector,
      octets_mppeCrypt md5 h true mem h.salt, start]
  have hsecret : octets mem₁ s.key s.keyLen = octets mem s.key s.keyLen := by
    rw [hmem₁, octets_mppeCrypt md5 h true mem h.key]
  rw [← hmem₁] at hcipher ⊢
  refine ⟨fun i hi => feedback_block hcipher.blocks hi, ?_, fun encrypt x hx => ?_⟩
  · have hinverse : (loads (mppeCrypt md5 s false mem₁) s.text s.blocks : List Block) =
        loads mem s.text s.blocks := by
      rw [hplain.blocks, hcipher.blocks, hstart, hsecret]
      apply cfbDecrypt_cfbEncrypt
      intro a b
      rw [xorBlock_comm, xorBlock_comm a, xorBlock_comm, xorBlock_cancel]
    funext x
    by_cases hx : s.text ≤ x ∧ x < s.text + 16 * s.blocks
    · have hcell := loads_inj hinverse (x - s.text) (by omega)
      rwa [Nat.add_sub_cancel' hx.1] at hcell
    · rw [hplain.outside x hx, hcipher.outside x hx]
  · have hfit := s.blocks_le
    exact (mppeCrypt_spec md5 h encrypt mem).outside x (by omega)

/-- MD5, as a function to blocks. -/
def md5Digest (m : Bytes) : Block := fun i => (Crypto.md5 m).getD i 0

theorem mppe_crypt_inverse_key :
    mppeCrypt md5Digest ⟨0, 2, 48, 50, 7, 57⟩ false
      (mppeCrypt md5Digest ⟨0, 2, 48, 50, 7, 57⟩ true UInt8.ofNat) =
      UInt8.ofNat :=
  (mppe_crypt_inverse md5Digest ⟨0, 2, 48, 50, 7, 57⟩ ⟨by decide, by decide, by decide⟩
    UInt8.ofNat).2.1

end BroadcomWl.Crypto.Mppe
