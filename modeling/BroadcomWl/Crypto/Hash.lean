import BroadcomWl.Nas.Proto

/-!
# Message digests

`libbcmcrypto`: SHA-1 (`sha1.c`), MD5 (`md5.c`), HMAC over either (`prf.c`, `hmac.c`) and the
pseudo-random function of 802.11i (`fPRF` in `prf.c`).

A digest pads the message to whole 64-octet blocks and folds a compression function over them.
Words are numbers below `2 ^ 32`; the block functions run on lists of words, so that the
kernel can evaluate a digest.
-/

namespace BroadcomWl.Crypto

open BroadcomWl.Nas (Bytes)

/-! ## Words and blocks -/

/-- `SHA1CircularShift`, `ROTATE_LEFT`. -/
def rotl (bits word : Nat) : Nat := ((word <<< bits) % 2 ^ 32) ||| (word >>> (32 - bits))

/-- Bitwise complement of a 32-bit word. -/
def compl32 (word : Nat) : Nat := word ^^^ 0xffffffff

def beWord (b : Bytes) : Nat := b.foldl (fun n x => n * 256 + x.toNat) 0

def leWord (b : Bytes) : Nat := b.foldr (fun x n => n * 256 + x.toNat) 0

/-- `n` octets of a number, most significant first. -/
def beBytes : Nat → Nat → Bytes
  | 0, _ => []
  | n + 1, v => UInt8.ofNat (v >>> (8 * n)) :: beBytes n v

/-- `n` octets of a number, least significant first. -/
def leBytes : Nat → Nat → Bytes
  | 0, _ => []
  | n + 1, v => UInt8.ofNat v :: leBytes n (v >>> 8)

/-- The words of a block. -/
def wordsOf (word : Bytes → Nat) : Nat → Bytes → List Nat
  | 0, _ => []
  | n + 1, b => word (b.take 4) :: wordsOf word n (b.drop 4)

/-- Pad with `0x80`, zeros and the bit length to a multiple of 64 octets. -/
def padMessage (lengthBytes : Nat → Bytes) (m : Bytes) : Bytes :=
  m ++ 0x80 :: List.replicate ((119 - m.length % 64) % 64) 0 ++ lengthBytes (8 * m.length)

/-- Fold a compression function over `n` blocks. -/
def foldBlocks {H : Type} (compress : H → Bytes → H) : Nat → H → Bytes → H
  | 0, h, _ => h
  | n + 1, h, b => foldBlocks compress n (compress h (b.take 64)) (b.drop 64)

/-! ## SHA-1 -/

/-- The word buffers `A` to `E`. -/
structure Sha1State where
  a : Nat
  b : Nat
  c : Nat
  d : Nat
  e : Nat

/-- The round function and constant of round `t`. -/
def sha1Round (t b c d : Nat) : Nat :=
  if t < 20 then ((b &&& c) ||| (compl32 b &&& d)) + 0x5a827999
  else if t < 40 then (b ^^^ c ^^^ d) + 0x6ed9eba1
  else if t < 60 then ((b &&& c) ||| (b &&& d) ||| (c &&& d)) + 0x8f1bbcdc
  else (b ^^^ c ^^^ d) + 0xca62c1d6

/-- The rounds from `t` on. The list holds the sixteen words `W[t]` to `W[t+15]`. -/
def sha1Rounds : Nat → Nat → List Nat → Sha1State → Sha1State
  | 0, _, _, s => s
  | _ + 1, _, [], s => s
  | n + 1, t, w :: ws, ⟨a, b, c, d, e⟩ =>
    let next := rotl 1 (ws.getD 12 0 ^^^ ws.getD 7 0 ^^^ ws.getD 1 0 ^^^ w)
    let temp := (rotl 5 a + sha1Round t b c d + e + w) % 2 ^ 32
    sha1Rounds n (t + 1) (ws ++ [next]) ⟨temp, a, rotl 30 b, c, d⟩

/-- `SHA1ProcessMessageBlock`. -/
def sha1Block (h : Sha1State) (block : Bytes) : Sha1State :=
  let r := sha1Rounds 80 0 (wordsOf beWord 16 block) h
  ⟨(h.a + r.a) % 2 ^ 32, (h.b + r.b) % 2 ^ 32, (h.c + r.c) % 2 ^ 32, (h.d + r.d) % 2 ^ 32,
    (h.e + r.e) % 2 ^ 32⟩

def sha1 (m : Bytes) : Bytes :=
  let p := padMessage (beBytes 8) m
  let h := foldBlocks sha1Block (p.length / 64)
    ⟨0x67452301, 0xefcdab89, 0x98badcfe, 0x10325476, 0xc3d2e1f0⟩ p
  beBytes 4 h.a ++ beBytes 4 h.b ++ beBytes 4 h.c ++ beBytes 4 h.d ++ beBytes 4 h.e

/-! ## MD5 -/

structure Md5State where
  a : Nat
  b : Nat
  c : Nat
  d : Nat

/-- The additive constants of the 64 steps. -/
def md5Constants : List Nat := [
    0xd76aa478, 0xe8c7b756, 0x242070db, 0xc1bdceee, 0xf57c0faf, 0x4787c62a,
    0xa8304613, 0xfd469501, 0x698098d8, 0x8b44f7af, 0xffff5bb1, 0x895cd7be,
    0x6b901122, 0xfd987193, 0xa679438e, 0x49b40821, 0xf61e2562, 0xc040b340,
    0x265e5a51, 0xe9b6c7aa, 0xd62f105d, 0x02441453, 0xd8a1e681, 0xe7d3fbc8,
    0x21e1cde6, 0xc33707d6, 0xf4d50d87, 0x455a14ed, 0xa9e3e905, 0xfcefa3f8,
    0x676f02d9, 0x8d2a4c8a, 0xfffa3942, 0x8771f681, 0x6d9d6122, 0xfde5380c,
    0xa4beea44, 0x4bdecfa9, 0xf6bb4b60, 0xbebfbc70, 0x289b7ec6, 0xeaa127fa,
    0xd4ef3085, 0x04881d05, 0xd9d4d039, 0xe6db99e5, 0x1fa27cf8, 0xc4ac5665,
    0xf4292244, 0x432aff97, 0xab9423a7, 0xfc93a039, 0x655b59c3, 0x8f0ccc92,
    0xffeff47d, 0x85845dd1, 0x6fa87e4f, 0xfe2ce6e0, 0xa3014314, 0x4e0811a1,
    0xf7537e82, 0xbd3af235, 0x2ad7d2bb, 0xeb86d391]

/-- The function, the word index and the rotation of step `t`. -/
def md5Step (t b c d : Nat) : Nat × Nat × Nat :=
  if t < 16 then
    ((b &&& c) ||| (compl32 b &&& d), t, [7, 12, 17, 22].getD (t % 4) 0)
  else if t < 32 then
    ((b &&& d) ||| (c &&& compl32 d), (5 * t + 1) % 16, [5, 9, 14, 20].getD (t % 4) 0)
  else if t < 48 then (b ^^^ c ^^^ d, (3 * t + 5) % 16, [4, 11, 16, 23].getD (t % 4) 0)
  else (c ^^^ (b ||| compl32 d), 7 * t % 16, [6, 10, 15, 21].getD (t % 4) 0)

def md5Rounds (ws : List Nat) : List Nat → Nat → Md5State → Md5State
  | [], _, s => s
  | k :: ks, t, ⟨a, b, c, d⟩ =>
    let (f, i, r) := md5Step t b c d
    let x := rotl r ((a + f + ws.getD i 0 + k) % 2 ^ 32)
    md5Rounds ws ks (t + 1) ⟨d, (b + x) % 2 ^ 32, b, c⟩

/-- `Transform`. -/
def md5Block (h : Md5State) (block : Bytes) : Md5State :=
  let r := md5Rounds (wordsOf leWord 16 block) md5Constants 0 h
  ⟨(h.a + r.a) % 2 ^ 32, (h.b + r.b) % 2 ^ 32, (h.c + r.c) % 2 ^ 32, (h.d + r.d) % 2 ^ 32⟩

def md5 (m : Bytes) : Bytes :=
  let p := padMessage (leBytes 8) m
  let h := foldBlocks md5Block (p.length / 64) ⟨0x67452301, 0xefcdab89, 0x98badcfe, 0x10325476⟩ p
  leBytes 4 h.a ++ leBytes 4 h.b ++ leBytes 4 h.c ++ leBytes 4 h.d

/-! ## HMAC and the pseudo-random function -/

/-- HMAC over a digest with 64-octet blocks: a longer key is replaced by its digest. -/
def hmac (digest : Bytes → Bytes) (text key : Bytes) : Bytes :=
  let key := if 64 < key.length then digest key else key
  let pad := fun (x : UInt8) => (key ++ List.replicate (64 - key.length) 0).map (· ^^^ x)
  digest (pad 0x5c ++ digest (pad 0x36 ++ text))

def hmacMd5 (text key : Bytes) : Bytes := hmac md5 text key

def hmacSha1 (text key : Bytes) : Bytes := hmac sha1 text key

/-- The blocks of `fPRF`, counted from `i` on. -/
def prfBlocks (key input : Bytes) : Nat → Nat → Bytes
  | 0, _ => []
  | n + 1, i => hmacSha1 (input ++ [UInt8.ofNat i]) key ++ prfBlocks key input n (i + 1)

/-- `fPRF`: the output is whole digests, of which the caller takes `len` octets. -/
def fPRF (key label data : Bytes) (len : Nat) : Bytes :=
  let input := (if label = [] then [] else label ++ [0]) ++ data
  prfBlocks key input ((len + 19) / 20) 0

/-! ## Lengths -/

@[simp] theorem leBytes_length (n v : Nat) : (leBytes n v).length = n := by
  induction n generalizing v with
  | zero => rfl
  | succ n ih => simp [leBytes, ih]

@[simp] theorem beBytes_length (n v : Nat) : (beBytes n v).length = n := by
  induction n with
  | zero => rfl
  | succ n ih => simp [beBytes, ih]

theorem hmacSha1_length (text key : Bytes) : (hmacSha1 text key).length = 20 := by
  simp [hmacSha1, hmac, sha1]

theorem hmacMd5_length (text key : Bytes) : (hmacMd5 text key).length = 16 := by
  simp [hmacMd5, hmac, md5]

theorem prfBlocks_length (key input : Bytes) (n i : Nat) :
    (prfBlocks key input n i).length = 20 * n := by
  induction n generalizing i with
  | zero => rfl
  | succ n ih =>
      rw [prfBlocks, List.length_append, hmacSha1_length, ih]
      omega

theorem le_fPRF_length (key label data : Bytes) (len : Nat) :
    len ≤ (fPRF key label data len).length := by
  rw [fPRF, prfBlocks_length]
  omega

end BroadcomWl.Crypto
