import BroadcomWl.Crypto.Padding

/-!
# The context of MD5

`md5.c`: a message is given in pieces, with `MD5Update`, and `MD5Final` gives the digest. How much
of the block is filled follows from the count of bits, which is kept in two words and wraps around.

`md5_pieces` says that the digest is that of the whole message, of any length. `hmac.c` gives the
pads and the text as pieces; `hmac_md5_code` says that this is HMAC. -/

namespace BroadcomWl.Crypto.Md5

open BroadcomWl.Lib
open BroadcomWl.Nas (Bytes)

/-! ## The code -/

/-- `MD5_CTX`: the count of bits, the hash, and the input buffer `in`. -/
structure Context where
  i0 : UInt32
  i1 : UInt32
  buf : Md5State
  input : Vector UInt8 64

def initialBuf : Md5State := ⟨0x67452301, 0xefcdab89, 0x98badcfe, 0x10325476⟩

/-- `MD5Init` -/
def md5Init (c : Context) : Context := { c with i0 := 0, i1 := 0, buf := initialBuf }

/-- `Transform`, on the words of a block. -/
def transform (h : Md5State) (words : List Nat) : Md5State :=
  let r := md5Rounds words md5Constants 0 h
  ⟨(h.a + r.a) % 2 ^ 32, (h.b + r.b) % 2 ^ 32, (h.c + r.c) % 2 ^ 32, (h.d + r.d) % 2 ^ 32⟩

/-- `mdi`: the octets in the buffer. -/
def filled (c : Context) : Nat := (c.i0 >>> 3 &&& 0x3f).toNat

/-- The loop of `MD5Update`. -/
def inputOctets : Nat → Md5State × Vector UInt8 64 → Bytes → Md5State × Vector UInt8 64
  | _, s, [] => s
  | mdi, (buf, input), b :: bs =>
    let input := input.setIfInBounds mdi b
    if mdi + 1 = 0x40 then inputOctets 0 (transform buf (wordsOf leWord 16 input.toList), input) bs
    else inputOctets (mdi + 1) (buf, input) bs

/-- `MD5Update` -/
def md5Update (c : Context) (inBuf : Bytes) : Context :=
  let inLen := UInt32.ofNat inBuf.length
  let i1 := if c.i0 + inLen <<< 3 < c.i0 then c.i1 + 1 else c.i1
  let (buf, input) := inputOctets (filled c) (c.buf, c.input) inBuf
  { i0 := c.i0 + inLen <<< 3
    i1 := i1 + inLen >>> 29
    buf := buf
    input := input }

/-- `PADDING` -/
def padding : Bytes := 0x80 :: List.replicate 63 0

/-- `MD5Final`: the context that it leaves. -/
def md5Finished (c : Context) : Context :=
  let mdi := filled c
  let padLen := if mdi < 56 then 56 - mdi else 120 - mdi
  let c' := md5Update c (padding.take padLen)
  let words := wordsOf leWord 14 (c'.input.toList.take 56) ++ [c.i0.toNat, c.i1.toNat]
  { c' with buf := transform c'.buf words }

/-- `MD5Final`: the digest. -/
def md5Final (c : Context) : Bytes :=
  let buf := (md5Finished c).buf
  leBytes 4 buf.a ++ leBytes 4 buf.b ++ leBytes 4 buf.c ++ leBytes 4 buf.d

/-- The pads of `hmac_md5`. -/
def pad (key : Bytes) (x : UInt8) : Bytes :=
  ((key ++ List.replicate (65 - key.length) 0).take 64).map (· ^^^ x)

/-- `hmac_md5`, with what is in `tctx` and `context` before; the second pass has the context of the
first one. -/
def hmacMd5Code (tctx context : Context) (text key : Bytes) : Bytes :=
  let key := if 64 < key.length then md5Final (md5Update (md5Init tctx) key) else key
  let context := md5Update (md5Update (md5Init context) (pad key 0x36)) text
  let digest := md5Final context
  md5Final (md5Update (md5Update (md5Init (md5Finished context)) (pad key 0x5c)) digest)

/-! ## The invariant -/

theorem md5Block_eq (h : Md5State) (block : Bytes) :
    md5Block h block = transform h (wordsOf leWord 16 block) := by
  rw [md5Block, transform]

/-- The octets `m` have come. -/
structure Hashing (m : Bytes) (c : Context) : Prop where
  count : c.i1.toNat * 2 ^ 32 + c.i0.toNat = 8 * m.length % 2 ^ 64
  absorbed : Absorbed md5Block 64 initialBuf m c.buf (c.input.toList.take (m.length % 64))

theorem hashing_init (c : Context) : Hashing [] (md5Init c) := by
  constructor
  · simp [md5Init]
  · rw [List.length_nil, Nat.zero_mod, List.take_zero]
    exact .nil _ _ _

theorem Hashing.filled_eq {m : Bytes} {c : Context} (h : Hashing m c) :
    filled c = m.length % 64 := by
  have hcount := h.count
  have hmask : (c.i0 >>> 3 &&& 0x3f).toNat = c.i0.toNat / 8 % 64 := by
    rw [UInt32.toNat_and, UInt32.toNat_shiftRight, Nat.shiftRight_eq_div_pow]
    exact Nat.and_two_pow_sub_one_eq_mod _ 6
  rw [filled, hmask]
  generalize c.i0.toNat = x at *
  omega

/-! ## Pieces -/

/-- **An octet**, and the whole loop. -/
theorem inputOctets_spec {m : Bytes} {mdi : Nat} {buf : Md5State} {input : Vector UInt8 64}
    (hmdi : mdi = m.length % 64) (h : Absorbed md5Block 64 initialBuf m buf (input.toList.take mdi))
    (l : Bytes) :
    Absorbed md5Block 64 initialBuf (m ++ l) (inputOctets mdi (buf, input) l).1
      ((inputOctets mdi (buf, input) l).2.toList.take ((m ++ l).length % 64)) := by
  induction l generalizing m mdi buf input with
  | nil =>
      rw [List.append_nil, inputOctets, ← hmdi]
      exact h
  | cons b l ih =>
      have hlt : mdi < 64 := by omega
      have hset := take_set_succ input b hlt
      have hlength : (input.toList.take mdi ++ [b]).length = mdi + 1 := by
        rw [← hset, List.length_take, Vector.length_toList, Nat.min_eq_left hlt]
      have hcount : (m ++ [b]).length = m.length + 1 := by
        rw [List.length_append, List.length_singleton]
      have hmessage : m ++ b :: l = m ++ [b] ++ l := by
        rw [List.append_assoc, List.singleton_append]
      rw [inputOctets, hmessage]
      by_cases hfull : mdi + 1 = 0x40
      · have hfill := h.fill (l := [b]) (by decide) (hlength.trans hfull)
        rw [← hset, hfull, List.take_of_length_le (Nat.le_of_eq (Vector.length_toList ..)),
          md5Block_eq] at hfill
        rw [if_pos hfull]
        refine ih ?_ ?_
        · rw [hcount]
          omega
        · rwa [List.take_zero]
      · have hwait := h.wait (l := [b]) (by rw [hlength]; omega)
        rw [if_neg hfull]
        refine ih ?_ ?_
        · rw [hcount]
          omega
        · rwa [hset]

/-- **A piece of the message.** -/
theorem Hashing.update {m : Bytes} {c : Context} (h : Hashing m c) {l : Bytes}
    (hl : l.length < 2 ^ 32) :
    Hashing (m ++ l) (md5Update c l) := by
  have hlen : (UInt32.ofNat l.length).toNat = l.length := UInt32.toNat_ofNat_of_lt' hl
  constructor
  · rw [List.length_append]
    exact count_two_words hlen h.count
  · have hspec := inputOctets_spec rfl h.absorbed l
    rw [← h.filled_eq] at hspec
    exact hspec

theorem Hashing.updates {chunks : List Bytes} (hl : ∀ l ∈ chunks, l.length < 2 ^ 32) {m : Bytes}
    {c : Context} (h : Hashing m c) : Hashing (m ++ chunks.flatten) (chunks.foldl md5Update c) := by
  induction chunks generalizing m c with
  | nil => rwa [List.flatten_nil, List.append_nil]
  | cons l chunks ih =>
      rw [List.flatten_cons, ← List.append_assoc]
      exact ih (fun l' hl' => hl l' (List.mem_cons_of_mem l hl'))
        (h.update (hl l List.mem_cons_self))

/-! ## The digest -/

theorem padding_take {mdi : Nat} (h : mdi < 64) :
    padding.take (if mdi < 56 then 56 - mdi else 120 - mdi) =
      0x80 :: List.replicate (padZeros mdi) 0 := by
  have hlen : (if mdi < 56 then 56 - mdi else 120 - mdi) = padZeros mdi + 1 := by
    unfold padZeros
    split_ifs <;> omega
  have hroom : padZeros mdi ≤ 63 := by
    unfold padZeros
    split_ifs <;> omega
  rw [hlen, padding, List.take_succ_cons, List.take_replicate, Nat.min_eq_left hroom]

/-- **The digest** is that of what has come. -/
theorem Hashing.final {m : Bytes} {c : Context} (h : Hashing m c) : md5Final c = md5 m := by
  have hlt : m.length % 64 < 64 := Nat.mod_lt _ (by decide)
  have hpad := padding_take hlt
  rw [← h.filled_eq] at hpad
  have hzeros : (0x80 :: List.replicate (padZeros (filled c)) (0 : UInt8)).length =
      padZeros (filled c) + 1 := by
    rw [List.length_cons, List.length_replicate]
  have hpadded := h.update (l := 0x80 :: List.replicate (padZeros (filled c)) 0) (by
    rw [hzeros, h.filled_eq, padZeros]
    split_ifs <;> omega)
  have hfilled :
      (m ++ 0x80 :: List.replicate (padZeros (filled c)) (0 : UInt8)).length % 64 = 56 := by
    rw [List.length_append, hzeros, h.filled_eq, padZeros]
    split_ifs <;> omega
  have hbuffer := hpadded.absorbed
  rw [hfilled] at hbuffer
  have hcut := hbuffer.length
  rw [hfilled] at hcut
  have hbits : leBytes 4 c.i0.toNat ++ leBytes 4 c.i1.toNat = leBytes 8 (8 * m.length) := by
    rw [← leBytes_add 4 4 _ c.i0.toNat_lt]
    refine leBytes_congr ?_
    have hcount := h.count
    have hpow : (256 : Nat) ^ (4 + 4) = 2 ^ 64 := by rw [Nat.pow_mul 2 8 8]
    have hswap : c.i0.toNat + 256 ^ 4 * c.i1.toNat = c.i1.toNat * 2 ^ 32 + c.i0.toNat := by
      rw [Nat.add_comm, Nat.mul_comm]
      rfl
    rw [hpow, hswap, hcount, Nat.mod_mod]
  have hwords : wordsOf leWord 2 (leBytes 4 c.i0.toNat ++ leBytes 4 c.i1.toNat) =
      [c.i0.toNat, c.i1.toNat] := by
    have htake : (leBytes 4 c.i0.toNat ++ leBytes 4 c.i1.toNat).take (leBytes 4 c.i0.toNat).length =
        leBytes 4 c.i0.toNat := List.take_left
    have hdrop : (leBytes 4 c.i0.toNat ++ leBytes 4 c.i1.toNat).drop (leBytes 4 c.i0.toNat).length =
        leBytes 4 c.i1.toNat := List.drop_left
    rw [leBytes_length] at htake hdrop
    rw [wordsOf, wordsOf, wordsOf, htake, hdrop, List.take_of_length_le (by rw [leBytes_length]),
      leWord_leBytes c.i0.toNat_lt, leWord_leBytes c.i1.toNat_lt]
  have hfill := hbuffer.fill (l := leBytes 8 (8 * m.length)) (by decide)
    (by rw [List.length_append, hcut, leBytes_length])
  rw [md5Block_eq, ← hbits, wordsOf_append leWord 14 2 hcut, hwords, hbits] at hfill
  have hmessage : m ++ 0x80 :: List.replicate (padZeros (filled c)) 0 ++ leBytes 8 (8 * m.length) =
      padMessage (leBytes 8) m := by
    rw [padMessage_eq _ h.filled_eq, List.append_assoc m [0x80], List.singleton_append]
  rw [hmessage] at hfill
  have hfold := foldBlocks_of_absorbed hfill
  unfold initialBuf at hfold
  rw [md5Final, md5Finished, md5, hpad, hfold]

/-- **MD5 in pieces**: however the message is cut, and whatever its length. -/
theorem md5_pieces (c : Context) (chunks : List Bytes) (hl : ∀ l ∈ chunks, l.length < 2 ^ 32) :
    md5Final (chunks.foldl md5Update (md5Init c)) = md5 chunks.flatten :=
  ((hashing_init c).updates hl).final

/-- The last piece fills the block. -/
theorem md5_pieces_example :
    md5Final ([[0x61], [], List.replicate 63 0x62].foldl md5Update
      (md5Init ⟨5, 7, initialBuf, Vector.replicate 64 9⟩)) = md5 (0x61 :: List.replicate 63 0x62) :=
  md5_pieces _ [[0x61], [], List.replicate 63 0x62] (by decide)

/-! ## HMAC -/

theorem pad_eq {key : Bytes} (h : key.length ≤ 64) (x : UInt8) :
    pad key x = (key ++ List.replicate (64 - key.length) 0).map (· ^^^ x) := by
  have hzeros : 65 - key.length = 64 - key.length + 1 := by omega
  have hlength : (key ++ List.replicate (64 - key.length) (0 : UInt8)).length = 64 := by
    rw [List.length_append, List.length_replicate]
    omega
  rw [pad, hzeros, List.replicate_succ', ← List.append_assoc,
    List.take_append_of_le_length (by rw [hlength]), List.take_of_length_le (by rw [hlength])]

theorem pad_length (key : Bytes) (x : UInt8) : (pad key x).length = 64 := by
  rw [pad, List.length_map, List.length_take, List.length_append, List.length_replicate]
  omega

theorem md5_length (m : Bytes) : (md5 m).length = 16 := by
  simp [md5]

theorem two_pieces (c : Context) (p text : Bytes) (hp : p.length < 2 ^ 32)
    (ht : text.length < 2 ^ 32) :
    md5Final (md5Update (md5Update (md5Init c) p) text) = md5 (p ++ text) :=
  (((hashing_init c).update hp).update ht).final

/-- **HMAC**, with contexts whose contents do not matter. -/
theorem hmac_md5_code (tctx context : Context) {text key : Bytes} (ht : text.length < 2 ^ 31)
    (hk : key.length < 2 ^ 31) : hmacMd5Code tctx context text key = hmacMd5 text key := by
  have hkey : md5Final (md5Update (md5Init tctx) key) = md5 key :=
    ((hashing_init tctx).update (by omega)).final
  obtain ⟨k, hreduced⟩ : ∃ k, k = if 64 < key.length then md5 key else key := ⟨_, rfl⟩
  have hshort : k.length ≤ 64 := by
    rw [hreduced]
    split_ifs with hlong
    · rw [md5_length]
      decide
    · omega
  have hpad (x : UInt8) : (pad k x).length < 2 ^ 32 := by
    rw [pad_length]
    decide
  have hinner := two_pieces context (pad k 0x36) text (hpad 0x36) (by omega)
  have houter :=
    two_pieces (md5Finished (md5Update (md5Update (md5Init context) (pad k 0x36)) text))
      (pad k 0x5c) (md5 (pad k 0x36 ++ text)) (hpad 0x5c) (by rw [md5_length]; decide)
  rw [hmacMd5Code, hmacMd5, hmac, hkey, ← hreduced]
  dsimp only
  rw [hinner, houter, pad_eq hshort, pad_eq hshort]

/-- A text of more than a block. -/
theorem hmac_md5_code_example :
    hmacMd5Code ⟨0, 0, initialBuf, Vector.replicate 64 0⟩ ⟨1, 2, initialBuf, Vector.replicate 64 3⟩
        (List.replicate 65 0x61) [0x6b] =
      hmacMd5 (List.replicate 65 0x61) [0x6b] :=
  hmac_md5_code _ _ (by decide) (by decide)

end BroadcomWl.Crypto.Md5
