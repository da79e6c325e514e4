import BroadcomWl.Crypto.KeyWrap
import BroadcomWl.Crypto.RijndaelTables
import BroadcomWl.Lib.Rounds

/-!
# The AES with tables

`rijndael-alg-fst.c`: the key setup and the block functions for keys of 16, 24 and 32 octets. Two
rounds are one turn of a loop over the round keys, and a round looks up four words for each column.
To decipher, the code goes through equal rounds with other tables, after it has put the round keys
in reverse order and mixed all but the first and the last one.

**The textbook.** `keyExpansion` is the recursion of the standard for the words of the round keys,
and `aesBlockEncrypt` and `aesBlockDecrypt` work on octets. `rijndael_textbook` says that the code
computes them.

**Inverse.** A round is a composition of permutations of the blocks, and the code deciphers with the
equivalent inverse of `Lib.Rounds`. So the two block functions undo each other (`aes_inverse`), and
are a `BlockCipher`. -/

namespace BroadcomWl.Crypto.Rijndael

open BroadcomWl.Nas (Bytes)
open BroadcomWl.Lib.Rounds (cipher)
open KeyWrap (ValidKey)
open Equiv (Perm)

/-! ## The code -/

/-- `s0`, `s1`, `s2`, `s3`; also four words of the round keys. -/
structure Words where
  s0 : UInt32
  s1 : UInt32
  s2 : UInt32
  s3 : UInt32

/-- `GETU32` -/
def getU32 (b : Bytes) (i : Nat) : UInt32 :=
  (b.getD i 0).toUInt32 <<< 24 ^^^ (b.getD (i + 1) 0).toUInt32 <<< 16 ^^^
    (b.getD (i + 2) 0).toUInt32 <<< 8
    ^^^ (b.getD (i + 3) 0).toUInt32

/-- `PUTU32` -/
def putU32 (w : UInt32) : Bytes :=
  [(w >>> 24).toUInt8, (w >>> 16).toUInt8, (w >>> 8).toUInt8, w.toUInt8]

/-- `SubWord(RotWord(temp))`, as the loops compute it. -/
def subRot (temp : UInt32) : UInt32 :=
  (entry te4 (temp >>> 16 &&& 0xff) &&& (0xff000000 : UInt32)) ^^^
    (entry te4 (temp >>> 8 &&& 0xff) &&& (0x00ff0000 : UInt32))
    ^^^ (entry te4 (temp &&& 0xff) &&& (0x0000ff00 : UInt32)) ^^^
      (entry te4 (temp >>> 24) &&& (0x000000ff : UInt32))

/-- The loop for 128 bits: what it writes, from the words before. -/
def loop128 : Nat → Nat → Words → List UInt32
  | 0, _, _ => []
  | n + 1, i, rk =>
    let rk4 := rk.s0 ^^^ subRot rk.s3 ^^^ rcon.getD i 0
    let rk5 := rk.s1 ^^^ rk4
    let rk6 := rk.s2 ^^^ rk5
    let rk7 := rk.s3 ^^^ rk6
    [rk4, rk5, rk6, rk7] ++ loop128 n (i + 1) ⟨rk4, rk5, rk6, rk7⟩

/-- The loop for 192 bits; the last turn ends in its middle. -/
def loop192 : Nat → Nat → Words → UInt32 → UInt32 → List UInt32
  | 0, _, _, _, _ => []
  | n + 1, i, rk, r4, r5 =>
    let rk6 := rk.s0 ^^^ subRot r5 ^^^ rcon.getD i 0
    let rk7 := rk.s1 ^^^ rk6
    let rk8 := rk.s2 ^^^ rk7
    let rk9 := rk.s3 ^^^ rk8
    if n = 0 then [rk6, rk7, rk8, rk9]
    else
      let rk10 := r4 ^^^ rk9
      let rk11 := r5 ^^^ rk10
      [rk6, rk7, rk8, rk9, rk10, rk11] ++ loop192 n (i + 1) ⟨rk6, rk7, rk8, rk9⟩ rk10 rk11

/-- The loop for 256 bits; the last turn ends in its middle. -/
def loop256 : Nat → Nat → Words → Words → List UInt32
  | 0, _, _, _ => []
  | n + 1, i, rk, rk' =>
    let rk8 := rk.s0 ^^^ subRot rk'.s3 ^^^ rcon.getD i 0
    let rk9 := rk.s1 ^^^ rk8
    let rk10 := rk.s2 ^^^ rk9
    let rk11 := rk.s3 ^^^ rk10
    if n = 0 then [rk8, rk9, rk10, rk11]
    else
      let rk12 := rk'.s0 ^^^ last te4 rk11 rk11 rk11 rk11
      let rk13 := rk'.s1 ^^^ rk12
      let rk14 := rk'.s2 ^^^ rk13
      let rk15 := rk'.s3 ^^^ rk14
      [rk8, rk9, rk10, rk11, rk12, rk13, rk14, rk15] ++
        loop256 n (i + 1) ⟨rk8, rk9, rk10, rk11⟩ ⟨rk12, rk13, rk14, rk15⟩

/-- `rijndaelKeySetupEnc`: what it returns, and the round keys. -/
def rijndaelKeySetupEnc (cipherKey : Bytes) (keyBits : Nat) : Nat × List UInt32 :=
  let w i := getU32 cipherKey (4 * i)
  if keyBits = 128 then (10, [w 0, w 1, w 2, w 3] ++ loop128 10 0 ⟨w 0, w 1, w 2, w 3⟩)
  else if keyBits = 192 then
    (12, [w 0, w 1, w 2, w 3, w 4, w 5] ++ loop192 8 0 ⟨w 0, w 1, w 2, w 3⟩ (w 4) (w 5))
  else if keyBits = 256 then
    (14, [w 0, w 1, w 2, w 3, w 4, w 5, w 6, w 7] ++
      loop256 7 0 ⟨w 0, w 1, w 2, w 3⟩ ⟨w 4, w 5, w 6, w 7⟩)
  else (0, [w 0, w 1, w 2, w 3, w 4, w 5, w 6, w 7])

/-- Exchange two words. -/
def swapWords (rk : List UInt32) (i j : Nat) : List UInt32 :=
  (rk.set i (rk.getD j 0)).set j (rk.getD i 0)

/-- `for (i = 0, j = 4*Nr; i < j; i += 4, j -= 4)` -/
def invertOrder (rk : List UInt32) (i j : Nat) : List UInt32 :=
  if i < j then
    let rk := swapWords rk i j
    let rk := swapWords rk (i + 1) (j + 1)
    let rk := swapWords rk (i + 2) (j + 2)
    let rk := swapWords rk (i + 3) (j + 3)
    invertOrder rk (i + 4) (j - 4)
  else rk
termination_by j - i

/-- The inverse mixing of a word of the round keys. -/
def invMixWord (w : UInt32) : UInt32 :=
  entry td0 (entry te4 (w >>> 24) &&& 0xff) ^^^ entry td1 (entry te4 (w >>> 16 &&& 0xff) &&& 0xff)
    ^^^ entry td2 (entry te4 (w >>> 8 &&& 0xff) &&& 0xff) ^^^
      entry td3 (entry te4 (w &&& 0xff) &&& 0xff)

/-- The loop over the round keys, from the second one on. -/
def invMixLoop : Nat → List UInt32 → List UInt32
  | 0, rk => rk
  | n + 1, rk => (rk.take 4).map invMixWord ++ invMixLoop n (rk.drop 4)

/-- `rijndaelKeySetupDec` -/
def rijndaelKeySetupDec (cipherKey : Bytes) (keyBits : Nat) : Nat × List UInt32 :=
  let (nr, rk) := rijndaelKeySetupEnc cipherKey keyBits
  let rk := invertOrder rk 0 (4 * nr)
  (nr, rk.take 4 ++ invMixLoop (nr - 1) (rk.drop 4))

/-- `rk[i]`, and the three words behind it. -/
def wordsAt (rk : List UInt32) (i : Nat) : Words :=
  ⟨rk.getD i 0, rk.getD (i + 1) 0, rk.getD (i + 2) 0, rk.getD (i + 3) 0⟩

def Words.xor (s k : Words) : Words := ⟨s.s0 ^^^ k.s0, s.s1 ^^^ k.s1, s.s2 ^^^ k.s2, s.s3 ^^^ k.s3⟩

/-- A full round of `rijndaelEncrypt`. -/
def encRound (s k : Words) : Words :=
  Words.xor
    ⟨mixed te0 te1 te2 te3 s.s0 s.s1 s.s2 s.s3, mixed te0 te1 te2 te3 s.s1 s.s2 s.s3 s.s0,
      mixed te0 te1 te2 te3 s.s2 s.s3 s.s0 s.s1, mixed te0 te1 te2 te3 s.s3 s.s0 s.s1 s.s2⟩ k

/-- The last round of `rijndaelEncrypt`. -/
def encLast (s k : Words) : Words :=
  Words.xor
    ⟨last te4 s.s0 s.s1 s.s2 s.s3, last te4 s.s1 s.s2 s.s3 s.s0, last te4 s.s2 s.s3 s.s0 s.s1,
      last te4 s.s3 s.s0 s.s1 s.s2⟩ k

/-- A full round of `rijndaelDecrypt`. -/
def decRound (s k : Words) : Words :=
  Words.xor
    ⟨mixed td0 td1 td2 td3 s.s0 s.s3 s.s2 s.s1, mixed td0 td1 td2 td3 s.s1 s.s0 s.s3 s.s2,
      mixed td0 td1 td2 td3 s.s2 s.s1 s.s0 s.s3, mixed td0 td1 td2 td3 s.s3 s.s2 s.s1 s.s0⟩ k

/-- The last round of `rijndaelDecrypt`. -/
def decLast (s k : Words) : Words :=
  Words.xor
    ⟨last td4 s.s0 s.s3 s.s2 s.s1, last td4 s.s1 s.s0 s.s3 s.s2, last td4 s.s2 s.s1 s.s0 s.s3,
      last td4 s.s3 s.s2 s.s1 s.s0⟩ k

/-- The loop: `r` turns, from the key before the next one on. It leaves `t0` to `t3` and the pointer
to the last key. -/
def rounds (round : Words → Words → Words) : Nat → Words → List UInt32 → Words × List UInt32
  | 0, s, rk => (s, rk)  -- not reached: there are 10, 12 or 14 rounds
  | r + 1, s, rk =>
    let t := round s (wordsAt rk 4)
    let rk := rk.drop 8
    if r = 0 then (t, rk) else rounds round r (round t (wordsAt rk 0)) rk

/-- What `rijndaelEncrypt` and `rijndaelDecrypt` do, with their rounds. -/
def block (round lastRound : Words → Words → Words) (rk : List UInt32) (nr : Nat) (input : Bytes) :
    Bytes :=
  let s :=
    Words.xor ⟨getU32 input 0, getU32 input 4, getU32 input 8, getU32 input 12⟩ (wordsAt rk 0)
  let (t, rk) := rounds round (nr / 2) s rk
  let s := lastRound t (wordsAt rk 0)
  putU32 s.s0 ++ putU32 s.s1 ++ putU32 s.s2 ++ putU32 s.s3

/-- `rijndaelEncrypt` -/
def rijndaelEncrypt (rk : List UInt32) (nr : Nat) (pt : Bytes) : Bytes :=
  block encRound encLast rk nr pt

/-- `rijndaelDecrypt` -/
def rijndaelDecrypt (rk : List UInt32) (nr : Nat) (ct : Bytes) : Bytes :=
  block decRound decLast rk nr ct

/-- `AES_ROUNDS` -/
def aesRoundCount (kl : Nat) : Nat := kl / 4 + 6

/-- `aes_encrypt` -/
def aesEncrypt (key ptxt : Bytes) : Bytes :=
  rijndaelEncrypt (rijndaelKeySetupEnc key (8 * key.length)).2 (aesRoundCount key.length) ptxt

/-- `aes_decrypt` -/
def aesDecrypt (key ctxt : Bytes) : Bytes :=
  rijndaelDecrypt (rijndaelKeySetupDec key (8 * key.length)).2 (aesRoundCount key.length) ctxt

/-! ## The rounds on blocks -/

/-- Four columns. -/
structure Block where
  c0 : Column
  c1 : Column
  c2 : Column
  c3 : Column

namespace Block

def add (x k : Block) : Block := ⟨x.c0.xor k.c0, x.c1.xor k.c1, x.c2.xor k.c2, x.c3.xor k.c3⟩

def mix (k0 k1 k2 k3 : Nat) (x : Block) : Block :=
  ⟨x.c0.mix k0 k1 k2 k3, x.c1.mix k0 k1 k2 k3, x.c2.mix k0 k1 k2 k3, x.c3.mix k0 k1 k2 k3⟩

/-- The octets are substituted, and the rows shifted. -/
def sub (x : Block) : Block where
  c0 := gather subByte x.c0 x.c1 x.c2 x.c3
  c1 := gather subByte x.c1 x.c2 x.c3 x.c0
  c2 := gather subByte x.c2 x.c3 x.c0 x.c1
  c3 := gather subByte x.c3 x.c0 x.c1 x.c2

def invSub (x : Block) : Block where
  c0 := gather invSubByte x.c0 x.c3 x.c2 x.c1
  c1 := gather invSubByte x.c1 x.c0 x.c3 x.c2
  c2 := gather invSubByte x.c2 x.c1 x.c0 x.c3
  c3 := gather invSubByte x.c3 x.c2 x.c1 x.c0

theorem add_add (x k : Block) : (x.add k).add k = x := by
  have hcancel (u v : Column) : (u.xor v).xor v = u := by
    have hcomm (u v : Column) : u.xor v = v.xor u := by simp only [Column.xor, UInt8.xor_comm]
    rw [hcomm, hcomm u, Column.xor_xor]
  simp only [add, hcancel]

theorem mix_add (k0 k1 k2 k3 : Nat) (x k : Block) :
    (x.add k).mix k0 k1 k2 k3 = (x.mix k0 k1 k2 k3).add (k.mix k0 k1 k2 k3) := by
  simp only [add, mix, Column.mix_xor]

end Block

/-- Adding a key. -/
def addPerm (k : Block) : Perm Block :=
  Function.Involutive.toPerm (fun x => x.add k) fun x => x.add_add k

def subPerm : Perm Block where
  toFun := Block.sub
  invFun := Block.invSub
  left_inv x := by simp only [Block.sub, Block.invSub, gather, invSubByte_subByte]
  right_inv x := by simp only [Block.sub, Block.invSub, gather, subByte_invSubByte]

def mixPerm : Perm Block where
  toFun := Block.mix 2 3 1 1
  invFun := Block.mix 14 11 13 9
  left_inv x := by simp only [Block.mix, (Column.mix_inv _).1]
  right_inv x := by simp only [Block.mix, (Column.mix_inv _).2]

theorem addPerm_mul_self (k : Block) : addPerm k * addPerm k = 1 := Equiv.ext fun x => x.add_add k

theorem mixPerm_inv_mul (k : Block) :
    mixPerm⁻¹ * addPerm k = addPerm (k.mix 14 11 13 9) * mixPerm⁻¹ :=
  Equiv.ext fun x => x.mix_add 14 11 13 9 k

/-! ## The code on blocks -/

def Words.block (s : Words) : Block := ⟨column s.s0, column s.s1, column s.s2, column s.s3⟩

theorem Words.block_xor (s k : Words) : (s.xor k).block = s.block.add k.block := by
  simp only [Words.xor, Words.block, Block.add, column_xor]

theorem encRound_block (s k : Words) :
    (encRound s k).block = addPerm k.block (mixPerm (subPerm s.block)) := by
  rw [encRound, Words.block_xor]
  simp only [Words.block, tables_eq, mixed_eq]
  rfl

theorem encLast_block (s k : Words) : (encLast s k).block = addPerm k.block (subPerm s.block) := by
  rw [encLast, Words.block_xor]
  simp only [Words.block, tables_eq, last_eq]
  rfl

theorem decRound_block (s k : Words) :
    (decRound s k).block = addPerm k.block (mixPerm⁻¹ (subPerm⁻¹ s.block)) := by
  rw [decRound, Words.block_xor]
  simp only [Words.block, tables_eq, mixed_eq]
  rfl

theorem decLast_block (s k : Words) :
    (decLast s k).block = addPerm k.block (subPerm⁻¹ s.block) := by
  rw [decLast, Words.block_xor]
  simp only [Words.block, tables_eq, last_eq]
  rfl

/-! ## Octets -/

/-- The block of sixteen octets. -/
def toBlock (b : Bytes) : Block where
  c0 := ⟨b.getD 0 0, b.getD 1 0, b.getD 2 0, b.getD 3 0⟩
  c1 := ⟨b.getD 4 0, b.getD 5 0, b.getD 6 0, b.getD 7 0⟩
  c2 := ⟨b.getD 8 0, b.getD 9 0, b.getD 10 0, b.getD 11 0⟩
  c3 := ⟨b.getD 12 0, b.getD 13 0, b.getD 14 0, b.getD 15 0⟩

def Column.octets (u : Column) : Bytes := [u.a, u.b, u.c, u.d]

def Block.octets (x : Block) : Bytes := x.c0.octets ++ x.c1.octets ++ x.c2.octets ++ x.c3.octets

theorem Block.octets_length (x : Block) : x.octets.length = 16 := rfl

theorem toBlock_octets (x : Block) : toBlock x.octets = x := rfl

theorem octets_toBlock {b : Bytes} (h : b.length = 16) : (toBlock b).octets = b := by
  refine List.ext_getElem (by rw [Block.octets_length, h]) fun i hi hi' => ?_
  rw [Block.octets_length] at hi
  rw [← List.getD_eq_getElem b 0 hi']
  interval_cases i <;> rfl

theorem block_getU32 (b : Bytes) :
    Words.block ⟨getU32 b 0, getU32 b 4, getU32 b 8, getU32 b 12⟩ = toBlock b := by
  have hcolumn (i : Nat) :
      column (getU32 b i) = ⟨b.getD i 0, b.getD (i + 1) 0, b.getD (i + 2) 0, b.getD (i + 3) 0⟩ :=
    column_word ⟨b.getD i 0, b.getD (i + 1) 0, b.getD (i + 2) 0, b.getD (i + 3) 0⟩
  simp only [Words.block, hcolumn]
  rfl

/-! ## The loop over the round keys -/

/-- Keys as the words of an array. -/
def flat (ks : List Words) : List UInt32 := ks.flatMap fun k => [k.s0, k.s1, k.s2, k.s3]

theorem flat_cons (k : Words) (ks : List Words) :
    flat (k :: ks) = [k.s0, k.s1, k.s2, k.s3] ++ flat ks := rfl

theorem flat_append (ks ks' : List Words) : flat (ks ++ ks') = flat ks ++ flat ks' :=
  List.flatMap_append

theorem flat_length (ks : List Words) : (flat ks).length = 4 * ks.length := by
  induction ks with
  | nil => rfl
  | cons k ks ih =>
      rw [flat_cons, List.length_append, ih, List.length_cons]
      exact Nat.add_comm 4 _

theorem exists_flat {n : Nat} :
    ∀ {rk : List UInt32}, rk.length = 4 * n → ∃ ks : List Words, ks.length = n ∧ flat ks = rk := by
  induction n with
  | zero => exact fun h => ⟨[], rfl, (List.eq_nil_of_length_eq_zero h).symm⟩
  | succ n ih =>
      intro rk h
      match rk, h with
      | a :: b :: c :: d :: rk, h =>
        have hlen : rk.length = 4 * n := by simpa [Nat.mul_succ] using h
        obtain ⟨ks, hks, rfl⟩ := ih hlen
        exact ⟨⟨a, b, c, d⟩ :: ks, by rw [List.length_cons, hks], rfl⟩

/-- **The loop makes the full rounds.** -/
theorem rounds_eq (round : Words → Words → Words) (r : Nat) :
    ∀ {ks : List Words}, ks.length = 2 * r + 1 → ∀ k kl s,
      rounds round (r + 1) s (flat (k :: ks ++ [kl])) = (ks.foldl round s, flat [kl]) := by
  induction r with
  | zero =>
      intro ks h k kl s
      match ks, h with
      | [k1], _ => rfl
  | succ r ih =>
      intro ks h k kl s
      match ks, h with
      | k1 :: k2 :: ks, h =>
        have hlen : ks.length = 2 * r + 1 := by simpa [Nat.mul_succ] using h
        exact ih hlen k2 kl (round (round s k1) k2)

theorem block_eq {round lastRound : Words → Words → Words} {S M : Perm Block}
    (hround : ∀ s k, (round s k).block = addPerm k.block (M (S s.block)))
    (hlast : ∀ s k, (lastRound s k).block = addPerm k.block (S s.block)) {ks : List Words}
    {nr : Nat}
    (hnr : nr % 2 = 0) (hks : ks.length + 1 = nr) (k kl : Words) (input : Bytes) :
    block round lastRound (flat (k :: ks ++ [kl])) nr input =
      (cipher addPerm S M k.block (ks.map Words.block) kl.block (toBlock input)).octets := by
  have hfold (s : Words) : (ks.foldl round s).block =
      (ks.map Words.block).foldl (fun x k => addPerm k (M (S x))) s.block := by
    rw [List.foldl_map]
    refine List.foldl_hom Words.block ?_ |>.symm
    exact fun s k => (hround s k).symm
  obtain ⟨r, hr⟩ : ∃ r, nr / 2 = r + 1 := ⟨nr / 2 - 1, by omega⟩
  rw [block, hr, rounds_eq round r (by omega), Lib.Rounds.cipher_apply, ← block_getU32]
  have hfirst : (Words.xor ⟨getU32 input 0, getU32 input 4, getU32 input 8, getU32 input 12⟩
      (wordsAt (flat (k :: ks ++ [kl])) 0)).block =
        addPerm k.block
            (Words.block ⟨getU32 input 0, getU32 input 4, getU32 input 8, getU32 input 12⟩) :=
    Words.block_xor _ _
  rw [← hfirst, ← hfold, ← hlast]
  rfl

theorem rijndaelEncrypt_eq {ks : List Words} {nr : Nat} (hnr : nr % 2 = 0)
    (hks : ks.length + 1 = nr) (k kl : Words) (pt : Bytes) :
    rijndaelEncrypt (flat (k :: ks ++ [kl])) nr pt =
      (cipher addPerm subPerm mixPerm k.block (ks.map Words.block) kl.block (toBlock pt)).octets :=
  block_eq encRound_block encLast_block hnr hks k kl pt

theorem rijndaelDecrypt_eq {ks : List Words} {nr : Nat} (hnr : nr % 2 = 0)
    (hks : ks.length + 1 = nr) (k kl : Words) (ct : Bytes) :
    rijndaelDecrypt (flat (k :: ks ++ [kl])) nr ct =
      (cipher addPerm subPerm⁻¹ mixPerm⁻¹ k.block (ks.map Words.block) kl.block
        (toBlock ct)).octets :=
  block_eq decRound_block decLast_block hnr hks k kl ct

/-! ## The key setup for deciphering -/

theorem entry_te4_and (i : UInt32) {x : UInt8} (h : i.toNat = x.toNat) :
    (entry te4 i &&& 0xff).toNat = (subByte x).toNat := by
  rw [tables_eq.1.2.2.2.2, entry_tableOf _ _ _ _ _ h, toNat_and_255, times_one]
  exact congrArg (fun u : Column => u.d.toNat) (column_word _)

/-- The substitution is undone by the one in the tables, so that only the mixing is left. -/
theorem column_invMixWord (w : UInt32) : column (invMixWord w) = (column w).mix 14 11 13 9 := by
  have hinv (x : UInt8) : invSbox.getD (subByte x).toNat 0 = x := invSubByte_subByte x
  obtain ⟨htd0, htd1, htd2, htd3, -⟩ := tables_eq.2
  rw [invMixWord, htd0, htd1, htd2, htd3,
    entry_tableOf _ _ _ _ _ (entry_te4_and _ (toNat_shiftRight_24 w)),
    entry_tableOf _ _ _ _ _ (entry_te4_and _ (toNat_and_255 (w >>> 16))),
    entry_tableOf _ _ _ _ _ (entry_te4_and _ (toNat_and_255 (w >>> 8))),
    entry_tableOf _ _ _ _ _ (entry_te4_and _ (toNat_and_255 w)), ← word_xor, ← word_xor, ← word_xor,
    column_word]
  simp only [hinv]
  rfl

def Words.invMix (k : Words) : Words :=
  ⟨invMixWord k.s0, invMixWord k.s1, invMixWord k.s2, invMixWord k.s3⟩

theorem Words.block_invMix (k : Words) : k.invMix.block = k.block.mix 14 11 13 9 := by
  simp only [Words.invMix, Words.block, Block.mix, column_invMixWord]

theorem invMixLoop_eq (ks : List Words) (rk : List UInt32) :
    invMixLoop ks.length (flat ks ++ rk) = flat (ks.map Words.invMix) ++ rk := by
  induction ks with
  | nil => rfl
  | cons k ks ih =>
    exact congrArg ([invMixWord k.s0, invMixWord k.s1, invMixWord k.s2, invMixWord k.s3] ++ ·) ih

theorem swapWords_eq (F M B : List UInt32) (a b : UInt32) {i j : Nat} (hi : i = F.length)
    (hj : j = F.length + 1 + M.length) :
    swapWords (F ++ a :: M ++ b :: B) i j = F ++ b :: M ++ a :: B := by
  subst hi hj
  have hlen : (F ++ b :: M).length = F.length + 1 + M.length := by
    rw [List.length_append, List.length_cons]
    omega
  have hlen' : (F ++ a :: M).length = F.length + 1 + M.length := by
    rw [List.length_append, List.length_cons]
    omega
  have hb : (F ++ a :: M ++ b :: B).getD (F.length + 1 + M.length) 0 = b := by
    rw [← hlen', List.getD_append_right _ _ _ _ le_rfl, Nat.sub_self]
    rfl
  have ha : (F ++ a :: M ++ b :: B).getD F.length 0 = a := by
    rw [List.append_assoc, List.getD_append_right _ _ _ _ le_rfl, Nat.sub_self]
    rfl
  have hset : (F ++ a :: M ++ b :: B).set F.length b = F ++ b :: M ++ b :: B := by
    rw [List.append_assoc, List.set_append_right _ _ le_rfl, Nat.sub_self, List.append_assoc]
    rfl
  rw [swapWords, hb, ha, hset, ← hlen, List.set_append_right _ _ le_rfl, Nat.sub_self]
  rfl

theorem swap_keys (F M B : List Words) (x y : Words) :
    let i := 4 * F.length
    let j := 4 * (F.length + 1 + M.length)
    swapWords (swapWords (swapWords (swapWords (flat (F ++ x :: M ++ y :: B)) i j) (i + 1) (j + 1))
      (i + 2) (j + 2)) (i + 3)
      (j + 3) = flat (F ++ y :: M ++ x :: B) := by
  intro i j
  have hi : i = (flat F).length := (flat_length F).symm
  have hj : j = (flat F).length + 4 + (flat M).length := by
    rw [flat_length, flat_length]
    omega
  have hflat (u v : Words) : flat (F ++ u :: M ++ v :: B) =
      flat F ++ [u.s0, u.s1, u.s2, u.s3] ++ flat M ++ [v.s0, v.s1, v.s2, v.s3] ++ flat B := by
    simp only [flat_append, flat_cons, List.append_assoc]
  rw [hflat, hflat]
  obtain ⟨f, hf⟩ : ∃ f, f = flat F := ⟨_, rfl⟩
  obtain ⟨m, hm⟩ : ∃ m, m = flat M := ⟨_, rfl⟩
  rw [← hf] at hi hj ⊢
  rw [← hm] at hj ⊢
  have h0 :=
    swapWords_eq f ([x.s1, x.s2, x.s3] ++ m) ([y.s1, y.s2, y.s3] ++ flat B) x.s0 y.s0 (i := i)
      (j := j) hi
    (by simp; omega)
  have h1 :=
    swapWords_eq (f ++ [y.s0]) ([x.s2, x.s3] ++ m ++ [x.s0]) ([y.s2, y.s3] ++ flat B) x.s1 y.s1
      (i := i + 1) (j := j + 1)
    (by simp; omega) (by simp; omega)
  have h2 :=
    swapWords_eq (f ++ [y.s0, y.s1]) ([x.s3] ++ m ++ [x.s0, x.s1]) ([y.s3] ++ flat B) x.s2 y.s2
      (i := i + 2) (j := j + 2)
    (by simp; omega) (by simp; omega)
  have h3 :=
    swapWords_eq (f ++ [y.s0, y.s1, y.s2]) (m ++ [x.s0, x.s1, x.s2]) (flat B) x.s3 y.s3 (i := i + 3)
      (j := j + 3)
    (by simp; omega) (by simp; omega)
  simp only [List.append_assoc, List.cons_append, List.nil_append] at h0 h1 h2 h3 ⊢
  rw [h0, h1, h2, h3]

theorem invertOrder_eq (mid : List Words) :
    ∀ F B : List Words,
      invertOrder (flat (F ++ mid ++ B)) (4 * F.length) (4 * (F.length + mid.length - 1)) =
      flat (F ++ mid.reverse ++ B) := by
  induction mid using List.bidirectionalRec with
  | nil =>
      intro F B
      rw [invertOrder, if_neg]
      · rfl
      · rw [List.length_nil]
        omega
  | singleton x =>
      intro F B
      rw [invertOrder, if_neg]
      · rfl
      · rw [List.length_singleton]
        omega
  | cons_append x mid y ih =>
      intro F B
      have hlist : F ++ (x :: (mid ++ [y])) ++ B = F ++ x :: mid ++ y :: B := by simp
      have hj : 4 * (F.length + (x :: (mid ++ [y])).length - 1) =
          4 * (F.length + 1 + mid.length) := by
        simp
        omega
      have hswap := swap_keys F mid B x y
      dsimp only at hswap
      rw [hlist, hj, invertOrder, if_pos (by omega)]
      dsimp only
      rw [hswap]
      have hnext := ih (F ++ [y]) (x :: B)
      have hi : 4 * (F ++ [y]).length = 4 * F.length + 4 := by
        rw [List.length_append, List.length_singleton]
        omega
      have hj' : 4 * ((F ++ [y]).length + mid.length - 1) =
          4 * (F.length + 1 + mid.length) - 4 := by
        rw [List.length_append, List.length_singleton]
        omega
      rw [hi, hj'] at hnext
      simp only [List.append_assoc, List.cons_append, List.reverse_cons, List.reverse_append,
        List.nil_append] at hnext ⊢
      exact hnext

/-- **The keys for deciphering**: in reverse order, and mixed but for the first and the last one. -/
theorem rijndaelKeySetupDec_eq {cipherKey : Bytes} {keyBits nr : Nat} {ks : List Words}
    {k kl : Words} (h : rijndaelKeySetupEnc cipherKey keyBits = (nr, flat (k :: ks ++ [kl])))
    (hks : ks.length + 1 = nr) :
    rijndaelKeySetupDec cipherKey keyBits =
      (nr, flat (kl :: (ks.map Words.invMix).reverse ++ [k])) := by
  have horder : invertOrder (flat (k :: ks ++ [kl])) 0 (4 * nr) =
      flat (kl :: ks.reverse ++ [k]) := by
    have hall := invertOrder_eq (k :: ks ++ [kl]) [] []
    have hj : 4 * (([] : List Words).length + (k :: ks ++ [kl]).length - 1) = 4 * nr := by
      rw [List.length_append, List.length_cons, List.length_singleton, List.length_nil]
      omega
    rw [hj, List.append_nil, List.append_nil, List.nil_append, List.nil_append] at hall
    rw [List.length_nil, Nat.mul_zero] at hall
    rw [hall]
    simp
  have hmix := invMixLoop_eq ks.reverse (flat [k])
  rw [List.length_reverse, ← flat_append] at hmix
  have hn : nr - 1 = ks.length := by omega
  rw [rijndaelKeySetupDec, h]
  dsimp only
  rw [horder, hn, List.cons_append, flat_cons]
  have htake : ([kl.s0, kl.s1, kl.s2, kl.s3] ++ flat (ks.reverse ++ [k])).take 4 =
      [kl.s0, kl.s1, kl.s2, kl.s3] := rfl
  have hdrop : ([kl.s0, kl.s1, kl.s2, kl.s3] ++ flat (ks.reverse ++ [k])).drop 4 =
      flat (ks.reverse ++ [k]) := rfl
  rw [htake, hdrop, hmix, ← flat_append, List.map_reverse]
  rfl

/-! ## The key expansion of the standard -/

def subWord (w : UInt32) : UInt32 :=
  word ⟨subByte (column w).a, subByte (column w).b, subByte (column w).c, subByte (column w).d⟩

def rotWord (w : UInt32) : UInt32 := word ⟨(column w).b, (column w).c, (column w).d, (column w).a⟩

/-- The powers of `x`. -/
def rconWord (j : Nat) : UInt32 := word ⟨double^[j - 1] 1, 0, 0, 0⟩

/-- What is added to the word `nk` places before, from the one just before. -/
def temp (nk i : Nat) (w : UInt32) : UInt32 :=
  if i % nk = 0 then subWord (rotWord w) ^^^ rconWord (i / nk) else if 6 < nk ∧
    i % nk = 4 then subWord w else w

/-- The words from an index on, with the last `nk` words before it. -/
def expand (nk : Nat) : Nat → Nat → List UInt32 → List UInt32
  | 0, _, _ => []
  | n + 1, i, ws =>
    let w := ws.headD 0 ^^^ temp nk i (ws.getLastD 0)
    w :: expand nk n (i + 1) (ws.tail ++ [w])

/-- `KeyExpansion` of the standard. -/
def keyExpansion (key : Bytes) : List UInt32 :=
  let nk := key.length / 4
  let ws := (List.range nk).map fun i => getU32 key (4 * i)
  ws ++ expand nk (4 * (nk + 7) - nk) nk ws

theorem expand_length (nk n : Nat) : ∀ i ws, (expand nk n i ws).length = n := by
  induction n with
  | zero => exact fun _ _ => rfl
  | succ n ih => exact fun i ws => congrArg (· + 1) (ih _ _)

theorem keyExpansion_length {key : Bytes} {nk : Nat} (h : key.length = 4 * nk) :
    (keyExpansion key).length = 4 * (nk + 7) := by
  have hnk : key.length / 4 = nk := by omega
  rw [keyExpansion, hnk, List.length_append, List.length_map, List.length_range, expand_length]
  omega

theorem subRot_eq (w : UInt32) : subRot w = subWord (rotWord w) := by
  rw [subRot, subWord, rotWord, column_word, tables_eq.1.2.2.2.2,
    entry_tableOf _ _ _ _ _ (toNat_and_255 (w >>> 16)),
    entry_tableOf _ _ _ _ _ (toNat_and_255 (w >>> 8)), entry_tableOf _ _ _ _ _ (toNat_and_255 w),
    entry_tableOf _ _ _ _ _ (toNat_shiftRight_24 w), ← word_column (_ ^^^ _)]
  simp only [times_one, column_xor, column_and, column_word, column_mask, UInt8.and_zero,
    UInt8.and_neg_one, Column.xor, UInt8.xor_zero, UInt8.zero_xor]
  rfl

theorem last_te4 (w : UInt32) : last te4 w w w w = subWord w := by
  rw [← word_column (last te4 w w w w), tables_eq.1.2.2.2.2, last_eq]
  rfl

theorem rcon_eq {i : Nat} (h : i < 10) : rcon.getD i 0 = rconWord (i + 1) := by
  interval_cases i <;> decide

theorem temp_mul {nk j : Nat} (hnk : 0 < nk) (w : UInt32) :
    temp nk (nk * j) w = subWord (rotWord w) ^^^ rconWord j := by
  rw [temp, if_pos (Nat.mul_mod_right nk j), Nat.mul_div_cancel_left j hnk]

theorem temp_other {nk i : Nat} (w : UInt32) (h : i % nk ≠ 0) (h' : ¬(6 < nk ∧ i % nk = 4)) :
    temp nk i w = w := by
  rw [temp, if_neg h, if_neg h']

theorem loop128_eq (n : Nat) : ∀ i rk, i + n ≤ 10 →
    loop128 n i rk = expand 4 (4 * n) (4 * (i + 1)) [rk.s0, rk.s1, rk.s2, rk.s3] := by
  induction n with
  | zero => exact fun _ _ _ => rfl
  | succ n ih =>
      intro i rk h
      have h1 (w : UInt32) : temp 4 (4 * (i + 1) + 1) w = w := temp_other w (by omega) (by omega)
      have h2 (w : UInt32) : temp 4 (4 * (i + 1) + 1 + 1) w = w :=
        temp_other w (by omega) (by omega)
      have h3 (w : UInt32) : temp 4 (4 * (i + 1) + 1 + 1 + 1) w = w :=
        temp_other w (by omega) (by omega)
      rw [loop128, Nat.mul_succ, expand, expand, expand, expand]
      simp only [List.headD_cons, List.tail_cons, List.cons_append, List.nil_append,
        List.getLastD_cons, List.getLastD_nil, temp_mul (Nat.succ_pos 3), h1, h2, h3, subRot_eq,
        rcon_eq (show i < 10 by omega), UInt32.xor_assoc]
      rw [ih _ _ (by omega)]
      rfl

theorem loop192_eq (n : Nat) : ∀ i rk r4 r5, i + (n + 1) ≤ 10 →
    loop192 (n + 1) i rk r4 r5 =
      expand 6 (6 * n + 4) (6 * (i + 1)) [rk.s0, rk.s1, rk.s2, rk.s3, r4, r5] := by
  induction n with
  | zero =>
      intro i rk r4 r5 h
      have h1 (w : UInt32) : temp 6 (6 * (i + 1) + 1) w = w := temp_other w (by omega) (by omega)
      have h2 (w : UInt32) : temp 6 (6 * (i + 1) + 1 + 1) w = w :=
        temp_other w (by omega) (by omega)
      have h3 (w : UInt32) : temp 6 (6 * (i + 1) + 1 + 1 + 1) w = w :=
        temp_other w (by omega) (by omega)
      rw [loop192, if_pos rfl, expand, expand, expand, expand]
      simp only [List.headD_cons, List.tail_cons, List.cons_append, List.nil_append,
        List.getLastD_cons, List.getLastD_nil, temp_mul (Nat.succ_pos 5), h1, h2, h3, subRot_eq,
        rcon_eq (show i < 10 by omega), UInt32.xor_assoc]
      rfl
  | succ n ih =>
      intro i rk r4 r5 h
      have h1 (w : UInt32) : temp 6 (6 * (i + 1) + 1) w = w := temp_other w (by omega) (by omega)
      have h2 (w : UInt32) : temp 6 (6 * (i + 1) + 1 + 1) w = w :=
        temp_other w (by omega) (by omega)
      have h3 (w : UInt32) : temp 6 (6 * (i + 1) + 1 + 1 + 1) w = w :=
        temp_other w (by omega) (by omega)
      have h4 (w : UInt32) : temp 6 (6 * (i + 1) + 1 + 1 + 1 + 1) w = w :=
        temp_other w (by omega) (by omega)
      have h5 (w : UInt32) : temp 6 (6 * (i + 1) + 1 + 1 + 1 + 1 + 1) w = w :=
        temp_other w (by omega) (by omega)
      have hn : 6 * (n + 1) + 4 = 6 * n + 4 + 1 + 1 + 1 + 1 + 1 + 1 := by omega
      rw [loop192, if_neg (Nat.succ_ne_zero n), hn, expand, expand, expand, expand, expand, expand]
      simp only [List.headD_cons, List.tail_cons, List.cons_append, List.nil_append,
        List.getLastD_cons, List.getLastD_nil, temp_mul (Nat.succ_pos 5), h1, h2, h3, h4, h5,
        subRot_eq, rcon_eq (show i < 10 by omega), UInt32.xor_assoc]
      rw [ih _ _ _ _ (by omega)]
      rfl

theorem loop256_eq (n : Nat) : ∀ i rk rk', i + (n + 1) ≤ 10 →
    loop256 (n + 1) i rk rk' =
      expand 8 (8 * n + 4) (8 * (i + 1)) [rk.s0, rk.s1, rk.s2, rk.s3, rk'.s0, rk'.s1, rk'.s2,
        rk'.s3] := by
  induction n with
  | zero =>
      intro i rk rk' h
      have h1 (w : UInt32) : temp 8 (8 * (i + 1) + 1) w = w := temp_other w (by omega) (by omega)
      have h2 (w : UInt32) : temp 8 (8 * (i + 1) + 1 + 1) w = w :=
        temp_other w (by omega) (by omega)
      have h3 (w : UInt32) : temp 8 (8 * (i + 1) + 1 + 1 + 1) w = w :=
        temp_other w (by omega) (by omega)
      rw [loop256, if_pos rfl, expand, expand, expand, expand]
      simp only [List.headD_cons, List.tail_cons, List.cons_append, List.nil_append,
        List.getLastD_cons, List.getLastD_nil, temp_mul (Nat.succ_pos 7), h1, h2, h3, subRot_eq,
        rcon_eq (show i < 10 by omega), UInt32.xor_assoc]
      rfl
  | succ n ih =>
      intro i rk rk' h
      have h1 (w : UInt32) : temp 8 (8 * (i + 1) + 1) w = w := temp_other w (by omega) (by omega)
      have h2 (w : UInt32) : temp 8 (8 * (i + 1) + 1 + 1) w = w :=
        temp_other w (by omega) (by omega)
      have h3 (w : UInt32) : temp 8 (8 * (i + 1) + 1 + 1 + 1) w = w :=
        temp_other w (by omega) (by omega)
      -- the word in the middle is substituted once more
      have h4 (w : UInt32) : temp 8 (8 * (i + 1) + 1 + 1 + 1 + 1) w = subWord w := by
        rw [temp, if_neg (by omega), if_pos (by omega)]
      have h5 (w : UInt32) : temp 8 (8 * (i + 1) + 1 + 1 + 1 + 1 + 1) w = w :=
        temp_other w (by omega) (by omega)
      have h6 (w : UInt32) : temp 8 (8 * (i + 1) + 1 + 1 + 1 + 1 + 1 + 1) w = w :=
        temp_other w (by omega) (by omega)
      have h7 (w : UInt32) : temp 8 (8 * (i + 1) + 1 + 1 + 1 + 1 + 1 + 1 + 1) w = w :=
        temp_other w (by omega) (by omega)
      have hn : 8 * (n + 1) + 4 = 8 * n + 4 + 1 + 1 + 1 + 1 + 1 + 1 + 1 + 1 := by omega
      rw [loop256, if_neg (Nat.succ_ne_zero n), hn, expand, expand, expand, expand, expand, expand,
        expand, expand]
      simp only [List.headD_cons, List.tail_cons, List.cons_append, List.nil_append,
        List.getLastD_cons, List.getLastD_nil, temp_mul (Nat.succ_pos 7), h1, h2, h3, h4, h5, h6,
        h7, subRot_eq, last_te4, rcon_eq (show i < 10 by omega), UInt32.xor_assoc]
      rw [ih _ _ _ (by omega)]
      rfl

/-- **The key setup is the key expansion of the standard.** -/
theorem rijndaelKeySetupEnc_eq {key : Bytes} (h : ValidKey key) :
    rijndaelKeySetupEnc key (8 * key.length) = (key.length / 4 + 6, keyExpansion key) := by
  rcases h with h | h | h <;> rw [rijndaelKeySetupEnc, keyExpansion, h]
  · rw [if_pos (by decide), loop128_eq 10 0 _ (by omega)]
    rfl
  · rw [if_neg (by decide), if_pos (by decide), loop192_eq 7 0 _ _ _ (by omega)]
    rfl
  · rw [if_neg (by decide), if_neg (by decide), if_pos (by decide), loop256_eq 6 0 _ _ (by omega)]
    rfl

/-! ## The textbook -/

/-- The octets of a column, as numbers. -/
def Column.nats (u : Column) : List Nat := [u.a.toNat, u.b.toNat, u.c.toNat, u.d.toNat]

def Block.nats (x : Block) : List Nat := x.c0.nats ++ x.c1.nats ++ x.c2.nats ++ x.c3.nats

/-- The round keys of an array of words. -/
def roundKeys : Nat → List UInt32 → List (List Nat)
  | 0, _ => []
  | n + 1, ws => (wordsAt ws 0).block.nats :: roundKeys n (ws.drop 4)

theorem roundKeys_flat (ks : List Words) :
    roundKeys ks.length (flat ks) = ks.map fun k => k.block.nats := by
  induction ks with
  | nil => rfl
  | cons k ks ih => exact congrArg (k.block.nats :: ·) ih

theorem nats_toBlock {b : Bytes} (h : b.length = 16) : (toBlock b).nats = b.map (·.toNat) := by
  have hoctets := congrArg (List.map (·.toNat)) (octets_toBlock h)
  exact hoctets

theorem map_ofNat_nats (x : Block) : x.nats.map UInt8.ofNat = x.octets := by
  simp [Block.nats, Block.octets, Column.nats, Column.octets]

theorem addRoundKey_nats (x k : Block) : addRoundKey x.nats k.nats = (addPerm k x).nats := by
  simp only [addRoundKey, Block.nats, Column.nats, List.cons_append, List.nil_append,
    List.zipWith_cons_cons, List.zipWith_nil_left, ← UInt8.toNat_xor]
  rfl

theorem permute_nats (x : Block) :
    permute shiftRows (x.nats.map (lookup sboxTable)) = (subPerm x).nats := by
  simp only [Block.nats, Column.nats, List.cons_append, List.nil_append, List.map_cons,
    List.map_nil, ← subByte_toNat]
  rfl

theorem permute_inv_nats (x : Block) :
    (permute invShiftRows x.nats).map (lookup invSboxTable) = (subPerm⁻¹ x).nats := by
  have horder : permute invShiftRows x.nats =
      Block.nats ⟨⟨x.c0.a, x.c3.b, x.c2.c, x.c1.d⟩, ⟨x.c1.a, x.c0.b, x.c3.c, x.c2.d⟩,
        ⟨x.c2.a, x.c1.b, x.c0.c, x.c3.d⟩,
        ⟨x.c3.a, x.c2.b, x.c1.c, x.c0.d⟩⟩ := rfl
  rw [horder]
  simp only [Block.nats, Column.nats, List.cons_append, List.nil_append, List.map_cons,
    List.map_nil, ← invSubByte_toNat]
  rfl

theorem mixColumns_nats (k0 k1 k2 k3 : Nat) (x : Block) :
    mixColumns k0 k1 k2 k3 x.nats = (x.mix k0 k1 k2 k3).nats := by
  simp only [Block.nats, Column.nats, List.cons_append, List.nil_append,
    mixColumns, ← times_toNat, ← UInt8.toNat_xor]
  rfl

theorem aesRounds_nats (ks : List Block) (kl : Block) :
    ∀ x : Block, aesRounds ((ks ++ [kl]).map Block.nats) x.nats =
      (addPerm kl (subPerm (ks.foldl (fun x k => addPerm k (mixPerm (subPerm x))) x))).nats := by
  induction ks with
  | nil =>
      intro x
      show addRoundKey (permute shiftRows (x.nats.map (lookup sboxTable))) kl.nats = _
      rw [permute_nats, addRoundKey_nats]
      rfl
  | cons k ks ih =>
      intro x
      have hround : addRoundKey
          (mixColumns 2 3 1 1 (permute shiftRows (x.nats.map (lookup sboxTable)))) k.nats =
          (addPerm k (mixPerm (subPerm x))).nats := by
        rw [permute_nats, mixColumns_nats, addRoundKey_nats]
        rfl
      rw [List.foldl_cons, ← ih, ← hround]
      cases ks <;> rfl

theorem aesInvRounds_nats (ks : List Block) (kl : Block) :
    ∀ x : Block, aesInvRounds ((ks ++ [kl]).map Block.nats) x.nats =
      (addPerm kl
        (subPerm⁻¹ (ks.foldl (fun x k => mixPerm⁻¹ (addPerm k (subPerm⁻¹ x))) x))).nats := by
  induction ks with
  | nil =>
      intro x
      show addRoundKey ((permute invShiftRows x.nats).map (lookup invSboxTable)) kl.nats = _
      rw [permute_inv_nats, addRoundKey_nats]
      rfl
  | cons k ks ih =>
      intro x
      have hround :
          mixColumns 14 11 13 9 (addRoundKey
          ((permute invShiftRows x.nats).map (lookup invSboxTable)) k.nats) =
          (mixPerm⁻¹ (addPerm k (subPerm⁻¹ x))).nats := by
        rw [permute_inv_nats, addRoundKey_nats, mixColumns_nats]
        rfl
      rw [List.foldl_cons, ← ih, ← hround]
      cases ks <;> rfl

theorem iterate_double (i : Nat) : (double^[i] 1).toNat = xtime^[i] 1 := by
  induction i with
  | zero => rfl
  | succ i ih => rw [Function.iterate_succ_apply', Function.iterate_succ_apply', double_toNat, ih]

theorem addRoundKey_column (u v : Column) : addRoundKey u.nats v.nats = (u.xor v).nats := by
  simp only [addRoundKey, Column.nats, List.zipWith_cons_cons,
    List.zipWith_nil_left, ← UInt8.toNat_xor]
  rfl

theorem expandKey_succ (n i : Nat) (k : Words) :
    expandKey (n + 1) (xtime^[i] 1) k.block.nats =
      let w0 := k.s0 ^^^ (subWord (rotWord k.s3) ^^^ rconWord (i + 1))
      let w1 := k.s1 ^^^ w0
      let w2 := k.s2 ^^^ w1
      let w3 := k.s3 ^^^ w2
      k.block.nats :: expandKey n (xtime^[i + 1] 1) (Words.block ⟨w0, w1, w2, w3⟩).nats := by
  have hcomm (u v : Column) : u.xor v = v.xor u := by simp only [Column.xor, UInt8.xor_comm]
  have hrcon : column (rconWord (i + 1)) = ⟨double^[i] 1, 0, 0, 0⟩ := column_word _
  have hsub : column (subWord (rotWord k.s3)) =
      ⟨subByte (column k.s3).b, subByte (column k.s3).c, subByte (column k.s3).d,
          subByte (column k.s3).a⟩ := by
    rw [subWord, rotWord, column_word, column_word]
  have ht :
      [lookup sboxTable (k.block.nats.getD 13 0) ^^^ xtime^[i] 1,
      lookup sboxTable (k.block.nats.getD 14 0), lookup sboxTable (k.block.nats.getD 15 0),
      lookup sboxTable (k.block.nats.getD 12 0)] =
        (column (subWord (rotWord k.s3) ^^^ rconWord (i + 1))).nats := by
    rw [column_xor, hrcon, hsub]
    simp only [Column.nats, Column.xor, UInt8.xor_zero, UInt8.toNat_xor, subByte_toNat,
      iterate_double]
    rfl
  have hnext {u v : UInt32} :
      addRoundKey (column u).nats (column v).nats = (column (u ^^^ v)).nats := by
    rw [addRoundKey_column, column_xor]
  rw [expandKey, ht]
  have htake : k.block.nats.take 4 = (column k.s0).nats ∧
      (k.block.nats.drop 4).take 4 = (column k.s1).nats ∧
      (k.block.nats.drop 8).take 4 = (column k.s2).nats ∧
        k.block.nats.drop 12 = (column k.s3).nats := ⟨rfl, rfl, rfl, rfl⟩
  obtain ⟨h0, h1, h2, h3⟩ := htake
  rw [h0, h1, h2, h3, hnext, hnext, hnext, hnext, Function.iterate_succ_apply']
  rfl

theorem roundKeys_expand (n : Nat) : ∀ (i : Nat) (k : Words),
    roundKeys (n + 1) ([k.s0, k.s1, k.s2, k.s3] ++
      expand 4 (4 * n) (4 * (i + 1)) [k.s0, k.s1, k.s2, k.s3]) =
      expandKey n (xtime^[i] 1) k.block.nats := by
  induction n with
  | zero => exact fun _ _ => rfl
  | succ n ih =>
      intro i k
      have h1 (w : UInt32) : temp 4 (4 * (i + 1) + 1) w = w := temp_other w (by omega) (by omega)
      have h2 (w : UInt32) : temp 4 (4 * (i + 1) + 1 + 1) w = w :=
        temp_other w (by omega) (by omega)
      have h3 (w : UInt32) : temp 4 (4 * (i + 1) + 1 + 1 + 1) w = w :=
        temp_other w (by omega) (by omega)
      rw [expandKey_succ]
      dsimp only
      rw [← ih, Nat.mul_succ, expand, expand, expand, expand]
      simp only [List.headD_cons, List.tail_cons, List.cons_append, List.nil_append,
        List.getLastD_cons, List.getLastD_nil, temp_mul (Nat.succ_pos 3), h1, h2, h3]
      rfl

theorem roundKeys_eq {key : Bytes} (h : key.length = 16) :
    roundKeys 11 (keyExpansion key) = aesRoundKeys key := by
  have hkey : (Words.block ⟨getU32 key 0, getU32 key 4, getU32 key 8, getU32 key 12⟩).nats =
      key.map (·.toNat) := by
    rw [block_getU32, nats_toBlock h]
  have hkeys := roundKeys_expand 10 0 ⟨getU32 key 0, getU32 key 4, getU32 key 8, getU32 key 12⟩
  rw [hkey] at hkeys
  rw [aesRoundKeys, keyExpansion, h]
  exact hkeys

theorem exists_keys {key : Bytes} (h : ValidKey key) :
    ∃ (k : Words) (ks : List Words) (kl : Words), keyExpansion key = flat (k :: ks ++ [kl]) ∧
      ks.length + 1 = aesRoundCount key.length ∧ aesRoundCount key.length % 2 = 0 := by
  have hmul : key.length = 4 * (key.length / 4) := by rcases h with h | h | h <;> omega
  have hnr : aesRoundCount key.length % 2 = 0 ∧ aesRoundCount key.length = key.length / 4 + 6 := by
    unfold aesRoundCount
    rcases h with h | h | h <;> omega
  obtain ⟨ks, hlen, hflat⟩ := exists_flat (keyExpansion_length hmul)
  match ks, hlen with
  | k :: ks, hlen =>
    rcases List.eq_nil_or_concat ks with rfl | ⟨ks, kl, rfl⟩
    · simp at hlen
    · rw [List.concat_eq_append] at hflat hlen
      refine ⟨k, ks, kl, hflat.symm, ?_, hnr.1⟩
      simp only [List.length_cons, List.length_append, List.length_nil] at hlen
      omega

theorem aes_eq {key : Bytes} (h : ValidKey key) :
    ∃ (k : Block) (ks : List Block) (kl : Block),
      roundKeys (key.length / 4 + 7) (keyExpansion key) = (k :: ks ++ [kl]).map Block.nats ∧
      (∀ b, aesEncrypt key b = (cipher addPerm subPerm mixPerm k ks kl (toBlock b)).octets) ∧
      ∀ b, aesDecrypt key b =
        (cipher addPerm subPerm⁻¹ mixPerm⁻¹ kl (ks.map (Block.mix 14 11 13 9)).reverse k
          (toBlock b)).octets := by
  obtain ⟨k, ks, kl, hkeys, hlen, heven⟩ := exists_keys h
  have hsetup : rijndaelKeySetupEnc key (8 * key.length) =
      (aesRoundCount key.length, flat (k :: ks ++ [kl])) := by
    rw [rijndaelKeySetupEnc_eq h, hkeys]
    rfl
  refine ⟨k.block, ks.map Words.block, kl.block, ?_, fun b => ?_, fun b => ?_⟩
  · have hcount : key.length / 4 + 7 = (k :: ks ++ [kl]).length := by
      rw [List.length_append, List.length_cons, List.length_singleton, hlen]
      rfl
    rw [hkeys, hcount, roundKeys_flat]
    simp
  · rw [aesEncrypt, hsetup]
    exact rijndaelEncrypt_eq heven hlen k kl b
  · have hmix : ((ks.map Words.invMix).reverse).map Words.block =
        ((ks.map Words.block).map (Block.mix 14 11 13 9)).reverse := by
      rw [List.map_reverse, List.map_map, List.map_map]
      congr 1
      exact List.map_congr_left fun k _ => k.block_invMix
    rw [aesDecrypt, rijndaelKeySetupDec_eq hsetup hlen, ← hmix]
    exact rijndaelDecrypt_eq heven (by rw [List.length_reverse, List.length_map, hlen]) kl k b

theorem aes_inverse {key block : Bytes} (hkey : ValidKey key) (hblock : block.length = 16) :
    aesDecrypt key (aesEncrypt key block) = block ∧
    aesEncrypt key (aesDecrypt key block) = block := by
  obtain ⟨k, ks, kl, -, henc, hdec⟩ := aes_eq hkey
  have hinv := Lib.Rounds.cipher_inv (S := subPerm) addPerm_mul_self mixPerm_inv_mul k ks kl
  rw [henc, hdec, hdec, henc, toBlock_octets, toBlock_octets, ← hinv]
  constructor
  · exact (congrArg Block.octets (Equiv.symm_apply_apply _ _)).trans (octets_toBlock hblock)
  · exact (congrArg Block.octets (Equiv.apply_symm_apply _ _)).trans (octets_toBlock hblock)

theorem aesEncrypt_textbook {key block : Bytes} (hkey : ValidKey key) (hblock : block.length = 16) :
    aesEncrypt key block =
      aesBlockEncrypt (roundKeys (key.length / 4 + 7) (keyExpansion key)) block := by
  obtain ⟨k, ks, kl, hkeys, henc, -⟩ := aes_eq hkey
  rw [hkeys, henc, aesBlockEncrypt, ← nats_toBlock hblock]
  show _ = (aesRounds ((ks ++ [kl]).map Block.nats) (addRoundKey (toBlock block).nats k.nats)).map
    UInt8.ofNat
  rw [addRoundKey_nats, aesRounds_nats, map_ofNat_nats, Lib.Rounds.cipher_apply]

theorem aesDecrypt_textbook {key block : Bytes} (hkey : ValidKey key) (hblock : block.length = 16) :
    aesDecrypt key block =
      aesBlockDecrypt (roundKeys (key.length / 4 + 7) (keyExpansion key)) block := by
  obtain ⟨k, ks, kl, hkeys, -, hdec⟩ := aes_eq hkey
  have hmix (k : Block) (x : Block) :
      addPerm (k.mix 14 11 13 9) (mixPerm⁻¹ x) = mixPerm⁻¹ (addPerm k x) :=
    congrArg (fun f : Perm Block => f x) (mixPerm_inv_mul k).symm
  have hreverse : ((k :: ks ++ [kl]).map Block.nats).reverse =
      kl.nats :: (ks.reverse ++ [k]).map Block.nats := by simp
  rw [hkeys, hdec, aesBlockDecrypt, ← nats_toBlock hblock, hreverse]
  show _ =
    (aesInvRounds ((ks.reverse ++ [k]).map Block.nats)
    (addRoundKey (toBlock block).nats kl.nats)).map UInt8.ofNat
  rw [addRoundKey_nats, aesInvRounds_nats, map_ofNat_nats,
    Lib.Rounds.cipher_apply, ← List.map_reverse, List.foldl_map]
  simp only [hmix]

/-- The block functions, as the key wrap takes them. -/
def rijndael : KeyWrap.BlockCipher where
  encrypt := aesEncrypt
  decrypt := aesDecrypt
  encrypt_length _ _ _ := rfl
  decrypt_length _ _ _ := rfl
  decrypt_encrypt _ _ hkey hblock := (aes_inverse hkey hblock).1
  encrypt_decrypt _ _ hkey hblock := (aes_inverse hkey hblock).2

/-- **The tables compute the AES**, for each length of the key: with the round keys of the standard
the block functions are those on octets, and each undoes the other. -/
theorem rijndael_textbook {key block : Bytes} (hkey : ValidKey key) (hblock : block.length = 16) :
    aesEncrypt key block =
      aesBlockEncrypt (roundKeys (key.length / 4 + 7) (keyExpansion key)) block ∧
      aesDecrypt key block =
        aesBlockDecrypt (roundKeys (key.length / 4 + 7) (keyExpansion key)) block ∧
      aesDecrypt key (aesEncrypt key block) = block ∧
      aesEncrypt key (aesDecrypt key block) = block ∧
      (key.length = 16 → roundKeys (key.length / 4 + 7) (keyExpansion key) = aesRoundKeys key) := by
  obtain ⟨hdecenc, hencdec⟩ := aes_inverse hkey hblock
  refine ⟨aesEncrypt_textbook hkey hblock, aesDecrypt_textbook hkey hblock, hdecenc, hencdec,
    fun hlen => ?_⟩
  rw [hlen]
  exact roundKeys_eq hlen

theorem rijndael_textbook_zero :
    aesEncrypt (List.replicate 24 0) (List.replicate 16 0) =
        aesBlockEncrypt (roundKeys 13 (keyExpansion (List.replicate 24 0))) (List.replicate 16 0) ∧
      aesDecrypt (List.replicate 24 0) (aesEncrypt (List.replicate 24 0) (List.replicate 16 0)) =
        List.replicate 16 0 := by
  have hkey : ValidKey (List.replicate 24 0) := .inr (.inl rfl)
  obtain ⟨henc, -, hinverse, -⟩ := rijndael_textbook hkey (List.length_replicate (n := 16))
  exact ⟨henc, hinverse⟩

end BroadcomWl.Crypto.Rijndael
