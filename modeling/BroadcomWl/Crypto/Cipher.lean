import BroadcomWl.Crypto.Hash
import BroadcomWl.Nas.State

/-!
# Ciphers

RC4 (`rc4.c`), the AES block cipher (which `rijndael-alg-fst.c` computes with combined tables)
and the AES key wrap of `aeskeywrap.c`. `bcmcrypto` collects the primitives that `nas` uses.
-/

namespace BroadcomWl.Crypto

open BroadcomWl.Nas (Bytes)

/-! ## RC4 -/

/-- `rc4_ks_t`: the state array and the two indices. -/
structure Rc4State where
  state : List UInt8
  x : UInt8
  y : UInt8

def swap (l : List UInt8) (i j : Nat) : List UInt8 := (l.set i (l.getD j 0)).set j (l.getD i 0)

/-- The key schedule: the remaining counters, `index1`, `index2`. -/
def rc4Schedule (key : Bytes) : List Nat → Nat → Nat → List UInt8 → List UInt8
  | [], _, _, l => l
  | counter :: cs, index1, index2, l =>
    let index2 := ((key.getD index1 0).toNat + (l.getD counter 0).toNat + index2) % 256
    rc4Schedule key cs ((index1 + 1) % key.length) index2 (swap l counter index2)

/-- `prepare_key`. -/
def prepareKey (key : Bytes) : Rc4State :=
  ⟨rc4Schedule key (List.range 256) 0 0 ((List.range 256).map UInt8.ofNat), 0, 0⟩

/-- `rc4`: encrypt or decrypt a buffer, and the state afterwards. -/
def rc4 : Bytes → Rc4State → Bytes × Rc4State
  | [], ks => ([], ks)
  | b :: buf, ks =>
    let x := ks.x + 1
    let y := ks.y + ks.state.getD x.toNat 0
    let state := swap ks.state x.toNat y.toNat
    let out := b ^^^ state.getD (state.getD x.toNat 0 + state.getD y.toNat 0).toNat 0
    let (rest, ks) := rc4 buf ⟨state, x, y⟩
    (out :: rest, ks)

/-- RC4 with the first 256 octets of the stream dropped. -/
def rc4Drop256 (key buf : Bytes) : Bytes :=
  (rc4 buf (rc4 (List.replicate 256 0) (prepareKey key)).2).1

/-! ## AES -/

def sbox : List UInt8 := [
    0x63, 0x7c, 0x77, 0x7b, 0xf2, 0x6b, 0x6f, 0xc5, 0x30, 0x01, 0x67, 0x2b, 0xfe, 0xd7, 0xab, 0x76,
    0xca, 0x82, 0xc9, 0x7d, 0xfa, 0x59, 0x47, 0xf0, 0xad, 0xd4, 0xa2, 0xaf, 0x9c, 0xa4, 0x72, 0xc0,
    0xb7, 0xfd, 0x93, 0x26, 0x36, 0x3f, 0xf7, 0xcc, 0x34, 0xa5, 0xe5, 0xf1, 0x71, 0xd8, 0x31, 0x15,
    0x04, 0xc7, 0x23, 0xc3, 0x18, 0x96, 0x05, 0x9a, 0x07, 0x12, 0x80, 0xe2, 0xeb, 0x27, 0xb2, 0x75,
    0x09, 0x83, 0x2c, 0x1a, 0x1b, 0x6e, 0x5a, 0xa0, 0x52, 0x3b, 0xd6, 0xb3, 0x29, 0xe3, 0x2f, 0x84,
    0x53, 0xd1, 0x00, 0xed, 0x20, 0xfc, 0xb1, 0x5b, 0x6a, 0xcb, 0xbe, 0x39, 0x4a, 0x4c, 0x58, 0xcf,
    0xd0, 0xef, 0xaa, 0xfb, 0x43, 0x4d, 0x33, 0x85, 0x45, 0xf9, 0x02, 0x7f, 0x50, 0x3c, 0x9f, 0xa8,
    0x51, 0xa3, 0x40, 0x8f, 0x92, 0x9d, 0x38, 0xf5, 0xbc, 0xb6, 0xda, 0x21, 0x10, 0xff, 0xf3, 0xd2,
    0xcd, 0x0c, 0x13, 0xec, 0x5f, 0x97, 0x44, 0x17, 0xc4, 0xa7, 0x7e, 0x3d, 0x64, 0x5d, 0x19, 0x73,
    0x60, 0x81, 0x4f, 0xdc, 0x22, 0x2a, 0x90, 0x88, 0x46, 0xee, 0xb8, 0x14, 0xde, 0x5e, 0x0b, 0xdb,
    0xe0, 0x32, 0x3a, 0x0a, 0x49, 0x06, 0x24, 0x5c, 0xc2, 0xd3, 0xac, 0x62, 0x91, 0x95, 0xe4, 0x79,
    0xe7, 0xc8, 0x37, 0x6d, 0x8d, 0xd5, 0x4e, 0xa9, 0x6c, 0x56, 0xf4, 0xea, 0x65, 0x7a, 0xae, 0x08,
    0xba, 0x78, 0x25, 0x2e, 0x1c, 0xa6, 0xb4, 0xc6, 0xe8, 0xdd, 0x74, 0x1f, 0x4b, 0xbd, 0x8b, 0x8a,
    0x70, 0x3e, 0xb5, 0x66, 0x48, 0x03, 0xf6, 0x0e, 0x61, 0x35, 0x57, 0xb9, 0x86, 0xc1, 0x1d, 0x9e,
    0xe1, 0xf8, 0x98, 0x11, 0x69, 0xd9, 0x8e, 0x94, 0x9b, 0x1e, 0x87, 0xe9, 0xce, 0x55, 0x28, 0xdf,
    0x8c, 0xa1, 0x89, 0x0d, 0xbf, 0xe6, 0x42, 0x68, 0x41, 0x99, 0x2d, 0x0f, 0xb0, 0x54, 0xbb, 0x16]

def invSbox : List UInt8 := [
    0x52, 0x09, 0x6a, 0xd5, 0x30, 0x36, 0xa5, 0x38, 0xbf, 0x40, 0xa3, 0x9e, 0x81, 0xf3, 0xd7, 0xfb,
    0x7c, 0xe3, 0x39, 0x82, 0x9b, 0x2f, 0xff, 0x87, 0x34, 0x8e, 0x43, 0x44, 0xc4, 0xde, 0xe9, 0xcb,
    0x54, 0x7b, 0x94, 0x32, 0xa6, 0xc2, 0x23, 0x3d, 0xee, 0x4c, 0x95, 0x0b, 0x42, 0xfa, 0xc3, 0x4e,
    0x08, 0x2e, 0xa1, 0x66, 0x28, 0xd9, 0x24, 0xb2, 0x76, 0x5b, 0xa2, 0x49, 0x6d, 0x8b, 0xd1, 0x25,
    0x72, 0xf8, 0xf6, 0x64, 0x86, 0x68, 0x98, 0x16, 0xd4, 0xa4, 0x5c, 0xcc, 0x5d, 0x65, 0xb6, 0x92,
    0x6c, 0x70, 0x48, 0x50, 0xfd, 0xed, 0xb9, 0xda, 0x5e, 0x15, 0x46, 0x57, 0xa7, 0x8d, 0x9d, 0x84,
    0x90, 0xd8, 0xab, 0x00, 0x8c, 0xbc, 0xd3, 0x0a, 0xf7, 0xe4, 0x58, 0x05, 0xb8, 0xb3, 0x45, 0x06,
    0xd0, 0x2c, 0x1e, 0x8f, 0xca, 0x3f, 0x0f, 0x02, 0xc1, 0xaf, 0xbd, 0x03, 0x01, 0x13, 0x8a, 0x6b,
    0x3a, 0x91, 0x11, 0x41, 0x4f, 0x67, 0xdc, 0xea, 0x97, 0xf2, 0xcf, 0xce, 0xf0, 0xb4, 0xe6, 0x73,
    0x96, 0xac, 0x74, 0x22, 0xe7, 0xad, 0x35, 0x85, 0xe2, 0xf9, 0x37, 0xe8, 0x1c, 0x75, 0xdf, 0x6e,
    0x47, 0xf1, 0x1a, 0x71, 0x1d, 0x29, 0xc5, 0x89, 0x6f, 0xb7, 0x62, 0x0e, 0xaa, 0x18, 0xbe, 0x1b,
    0xfc, 0x56, 0x3e, 0x4b, 0xc6, 0xd2, 0x79, 0x20, 0x9a, 0xdb, 0xc0, 0xfe, 0x78, 0xcd, 0x5a, 0xf4,
    0x1f, 0xdd, 0xa8, 0x33, 0x88, 0x07, 0xc7, 0x31, 0xb1, 0x12, 0x10, 0x59, 0x27, 0x80, 0xec, 0x5f,
    0x60, 0x51, 0x7f, 0xa9, 0x19, 0xb5, 0x4a, 0x0d, 0x2d, 0xe5, 0x7a, 0x9f, 0x93, 0xc9, 0x9c, 0xef,
    0xa0, 0xe0, 0x3b, 0x4d, 0xae, 0x2a, 0xf5, 0xb0, 0xc8, 0xeb, 0xbb, 0x3c, 0x83, 0x53, 0x99, 0x61,
    0x17, 0x2b, 0x04, 0x7e, 0xba, 0x77, 0xd6, 0x26, 0xe1, 0x69, 0x14, 0x63, 0x55, 0x21, 0x0c, 0x7d]

/-- A table of octets as one number, so that a lookup is a shift. -/
def packTable (l : List UInt8) : Nat := l.foldr (fun b n => n * 256 + b.toNat) 0

def sboxTable : Nat := packTable sbox
def invSboxTable : Nat := packTable invSbox

def lookup (table x : Nat) : Nat := (table >>> (8 * x)) % 256

/-- Multiplication by `x` in the field of 256 elements. -/
def xtime (a : Nat) : Nat := if a < 128 then 2 * a else (2 * a - 256) ^^^ 0x1b

/-- The product with a small constant, by double and add. -/
def gmul (k a : Nat) : Nat :=
  let a2 := xtime a
  let a4 := xtime a2
  let a8 := xtime a4
  (if k % 2 = 1 then a else 0) ^^^ (if k / 2 % 2 = 1 then a2 else 0)
    ^^^ (if k / 4 % 2 = 1 then a4 else 0) ^^^ (if k / 8 % 2 = 1 then a8 else 0)

/-- Mix the columns of a state with the rotations of one row of coefficients. -/
def mixColumns (k0 k1 k2 k3 : Nat) : List Nat → List Nat
  | a :: b :: c :: d :: l =>
    (gmul k0 a ^^^ gmul k1 b ^^^ gmul k2 c ^^^ gmul k3 d)
      :: (gmul k3 a ^^^ gmul k0 b ^^^ gmul k1 c ^^^ gmul k2 d)
      :: (gmul k2 a ^^^ gmul k3 b ^^^ gmul k0 c ^^^ gmul k1 d)
      :: (gmul k1 a ^^^ gmul k2 b ^^^ gmul k3 c ^^^ gmul k0 d)
      :: mixColumns k0 k1 k2 k3 l
  | l => l

def permute (order : List Nat) (l : List Nat) : List Nat := order.map fun i => l.getD i 0

def shiftRows : List Nat := [0, 5, 10, 15, 4, 9, 14, 3, 8, 13, 2, 7, 12, 1, 6, 11]
def invShiftRows : List Nat := [0, 13, 10, 7, 4, 1, 14, 11, 8, 5, 2, 15, 12, 9, 6, 3]

def addRoundKey (l k : List Nat) : List Nat := List.zipWith (· ^^^ ·) l k

/-- The round keys of AES-128, from the current one on. -/
def expandKey : Nat → Nat → List Nat → List (List Nat)
  | 0, _, k => [k]
  | n + 1, rcon, k =>
    let t := [lookup sboxTable (k.getD 13 0) ^^^ rcon, lookup sboxTable (k.getD 14 0),
      lookup sboxTable (k.getD 15 0), lookup sboxTable (k.getD 12 0)]
    let w0 := addRoundKey (k.take 4) t
    let w1 := addRoundKey ((k.drop 4).take 4) w0
    let w2 := addRoundKey ((k.drop 8).take 4) w1
    let w3 := addRoundKey (k.drop 12) w2
    k :: expandKey n (xtime rcon) (w0 ++ w1 ++ w2 ++ w3)

/-- `rijndaelKeySetupEnc` for a 16-octet key. -/
def aesRoundKeys (key : Bytes) : List (List Nat) := expandKey 10 1 (key.map (·.toNat))

def aesRounds : List (List Nat) → List Nat → List Nat
  | [], s => s
  | [k], s => addRoundKey (permute shiftRows (s.map (lookup sboxTable))) k
  | k :: ks, s =>
    aesRounds ks (addRoundKey (mixColumns 2 3 1 1 (permute shiftRows (s.map (lookup sboxTable)))) k)

/-- The inverse rounds, over the round keys in reverse order. -/
def aesInvRounds : List (List Nat) → List Nat → List Nat
  | [], s => s
  | [k], s => addRoundKey ((permute invShiftRows s).map (lookup invSboxTable)) k
  | k :: ks, s =>
    let s := addRoundKey ((permute invShiftRows s).map (lookup invSboxTable)) k
    aesInvRounds ks (mixColumns 14 11 13 9 s)

/-- `aes_block_encrypt`. -/
def aesBlockEncrypt (rk : List (List Nat)) (block : Bytes) : Bytes :=
  (aesRounds rk.tail (addRoundKey (block.map (·.toNat)) (rk.headD []))).map UInt8.ofNat

/-- `aes_block_decrypt`. -/
def aesBlockDecrypt (rk : List (List Nat)) (block : Bytes) : Bytes :=
  let kr := rk.reverse
  (aesInvRounds kr.tail (addRoundKey (block.map (·.toNat)) (kr.headD []))).map UInt8.ofNat

/-! ## AES key wrap -/

def aeskeywrapIV : Bytes := List.replicate 8 0xa6

/-- The eight-octet blocks of a buffer. -/
def blocks8 : Nat → Bytes → List Bytes
  | 0, _ => []
  | n + 1, b => b.take 8 :: blocks8 n (b.drop 8)

/-- `A[7] ^= t`, in octets. -/
def xorLast (a : Bytes) (t : Nat) : Bytes := a.take 7 ++ [a.getD 7 0 ^^^ UInt8.ofNat t]

/-- One pass over the blocks with the encryption `E`; `t` counts the steps. -/
def wrapPass (E : Bytes → Bytes) : Nat → Bytes → List Bytes → Bytes × List Bytes
  | _, a, [] => (a, [])
  | t, a, r :: rs =>
    let b := E (a ++ r)
    let (a', rs') := wrapPass E (t + 1) (xorLast (b.take 8) t) rs
    (a', b.drop 8 :: rs')

/-- `n` passes. -/
def wrapPasses (E : Bytes → Bytes) : Nat → Nat → Bytes → List Bytes → Bytes × List Bytes
  | 0, _, a, rs => (a, rs)
  | n + 1, t, a, rs =>
    let (a, rs) := wrapPass E t a rs
    wrapPasses E n (t + rs.length) a rs

/-- One pass of the unwrapping with the decryption `D`, over the blocks in reverse order. -/
def unwrapPass (D : Bytes → Bytes) : Nat → Bytes → List Bytes → Bytes × List Bytes
  | _, a, [] => (a, [])
  | t, a, r :: rs =>
    let b := D (xorLast a t ++ r)
    let (a', rs') := unwrapPass D (t - 1) (b.take 8) rs
    (a', b.drop 8 :: rs')

def unwrapPasses (D : Bytes → Bytes) : Nat → Nat → Bytes → List Bytes → Bytes × List Bytes
  | 0, _, a, rs => (a, rs)
  | n + 1, t, a, rs =>
    let (a, rs) := unwrapPass D t a rs
    unwrapPasses D n (t - rs.length) a rs

/-- `AKW_MAX_WRAP_LEN`. -/
def akwMaxWrapLen : Nat := 384

/-- `aes_wrap` for a 16-octet key. -/
def aesWrap (key input : Bytes) : Option Bytes :=
  if key.length ≠ 16 ∨ akwMaxWrapLen < input.length ∨ input.length % 8 ≠ 0 then none
  else
    let rk := aesRoundKeys key
    let n := input.length / 8
    let (a, rs) := wrapPasses (aesBlockEncrypt rk) 6 1 aeskeywrapIV (blocks8 n input)
    some (a ++ rs.flatten)

/-- `aes_unwrap` for a 16-octet key. -/
def aesUnwrap (key input : Bytes) : Option Bytes :=
  if key.length ≠ 16 ∨ akwMaxWrapLen + 8 < input.length ∨ input.length % 8 ≠ 0 then none
  else
    let rk := aesRoundKeys key
    let n := input.length / 8 - 1
    let (a, rs) := unwrapPasses (aesBlockDecrypt rk) 6 (6 * n) (input.take 8)
      (blocks8 n (input.drop 8)).reverse
    if a = aeskeywrapIV then some rs.reverse.flatten else none

/-- The primitives of `libbcmcrypto`. -/
def bcmcrypto : Nas.Crypto where
  hmacMd5 := hmacMd5
  hmacSha1 := hmacSha1
  fPRF := fPRF
  rc4 := rc4Drop256
  aesWrap := aesWrap
  aesUnwrap := aesUnwrap
  le_fPRF_length := le_fPRF_length

end BroadcomWl.Crypto
