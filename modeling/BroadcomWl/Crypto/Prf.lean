import BroadcomWl.Crypto.KeyWrap

/-!
# The pseudo-random functions

`prf.c`: `hmac_sha1`, `PRF`, and `fPRF`, which sets up the key once. SHA-1 is a parameter, a
function with digests of 20 octets; its context is what it has been given so far. A sum of type
`int` that is too large and a write behind the input buffer have no result.

**Blocks.** Each loop writes the digests of the input with a count behind it (`prf_blocks`,
`fPRF_blocks`).

**Agreement.** `prfs_agree_iff` says when the two functions are one and the same, the concatenation
of these digests, and leave the key alone. A long key is overwritten with its digest, and by `PRF`
again for each block; and the octet between prefix and data is missing in the check of the length.
-/

namespace BroadcomWl.Crypto.Prf

open BroadcomWl.Nas (Bytes Mem)
open BroadcomWl.Crypto.KeyWrap

/-! ## The code -/

/-- A function in the place of SHA-1. -/
structure Hash where
  hash : Bytes → Bytes
  hash_length : ∀ m, (hash m).length = 20

/-- `PRF_MAX_I_D_LEN` -/
def prfMaxIDLen : Nat := 128

/-- `PRF_MAX_KEY_LEN` -/
def prfMaxKeyLen : Nat := 64

/-- A sum of type `int`. -/
def intAdd (a b : Nat) : Option Nat := if a + b < 2 ^ 31 then some (a + b) else none

/-- Put octets into an array, where it has room for them. -/
def put (buf : Bytes) (off : Nat) (src : Bytes) : Option Bytes :=
  if off + src.length ≤ buf.length then some (splice buf off src) else none

/-- A key that is too long becomes its digest, in the memory of the caller. -/
def reduceKey (H : Hash) (key : Bytes) : Bytes × Nat :=
  if prfMaxKeyLen < key.length then (splice key 0 (H.hash key), 20) else (key, key.length)

/-- A pad: the key, zeros up to the 65th octet, and the first 64 octets of both with a constant. -/
def pad (key : Bytes) (keyLen : Nat) (x : UInt8) : Bytes :=
  ((key.take keyLen ++ List.replicate (prfMaxKeyLen + 1 - keyLen) 0).take prfMaxKeyLen).map
    (· ^^^ x)

/-- `hmac_sha1`: the digest, and the caller's key. -/
def hmacSha1 (H : Hash) (text key : Bytes) : Bytes × Bytes :=
  let (key, keyLen) := reduceKey H key
  let digest := H.hash (pad key keyLen 0x36 ++ text)
  (H.hash (pad key keyLen 0x5c ++ digest), key)

/-- The input buffer with prefix, data and count, and how much of it that is. -/
def prepareInput (input pre data : Bytes) : Option (Bytes × Nat) := do
  let (input, dataOffset) ←
    if pre.length ≠ 0 then do
      let input ← put input 0 pre
      let input ← put input pre.length [0]
      some (input, pre.length + 1)
    else some (input, 0)
  let input ← put input dataOffset data
  let totalLen := dataOffset + data.length
  let input ← put input totalLen [0]
  some (input, totalLen + 1)

/-- `input[total_len-1]++` -/
def count (input : Bytes) (totalLen : Nat) : Bytes :=
  input.set (totalLen - 1) (input.getD (totalLen - 1) 0 + 1)

/-- What the caller gets: the status, the key and the output. -/
structure Result where
  status : Int
  key : Bytes
  output : Mem

/-- The key, the input buffer and the output between two blocks of `PRF`. -/
structure Blocks where
  key : Bytes
  input : Bytes
  output : Mem

/-- The body of the loop of `PRF`. -/
def prfStep (H : Hash) (totalLen : Nat) (s : Blocks) (i : Nat) : Blocks :=
  let (digest, key) := hmacSha1 H (s.input.take totalLen) s.key
  ⟨key, count s.input totalLen, Mem.write s.output (20 * i) digest⟩

/-- `PRF`; `stack` is what is in the input buffer before. -/
def PRF (H : Hash) (stack : Vector UInt8 prfMaxIDLen) (key pre data : Bytes) (output : Mem)
    (len : Nat) : Option Result := do
  let size ← intAdd (← intAdd pre.length data.length) 1
  if prfMaxIDLen < size then some ⟨-1, key, output⟩
  else do
    let (input, totalLen) ← prepareInput stack.toList pre data
    let rounded ← intAdd len 19
    let s := (List.range (rounded / 20)).foldl (prfStep H totalLen) ⟨key, input, output⟩
    some ⟨0, s.key, s.output⟩

/-- The body of the loop of `fPRF`; the inner digest is in the output first. -/
def fPRFStep (H : Hash) (refi refo : Bytes) (totalLen : Nat) (s : Bytes × Mem) (i : Nat) :
    Bytes × Mem :=
  let output := Mem.write s.2 (20 * i) (H.hash (refi ++ s.1.take totalLen))
  let output := Mem.write output (20 * i) (H.hash (refo ++ output.slice (20 * i) 20))
  (count s.1 totalLen, output)

/-- `fPRF` -/
def fPRF (H : Hash) (stack : Vector UInt8 prfMaxIDLen) (key pre data : Bytes) (output : Mem)
    (len : Nat) : Option Result := do
  let size ← intAdd (← intAdd pre.length data.length) 1
  if prfMaxIDLen < size then some ⟨-1, key, output⟩
  else do
    let (input, totalLen) ← prepareInput stack.toList pre data
    let (key, keyLen) := reduceKey H key
    let sum ← intAdd len 20
    let s :=
      (List.range ((sum - 1) / 20)).foldl
        (fPRFStep H (pad key keyLen 0x36) (pad key keyLen 0x5c) totalLen)
      (input, output)
    some ⟨0, key, s.2⟩

/-! ## One digest -/

section

variable {H : Hash} {key : Bytes}

/-- The key that the pads are made from. -/
def hmacKey (H : Hash) (key : Bytes) : Bytes :=
  if prfMaxKeyLen < key.length then H.hash key else key

theorem hmacKey_length (H : Hash) (key : Bytes) : (hmacKey H key).length ≤ prfMaxKeyLen := by
  rw [hmacKey]
  split
  · rw [H.hash_length]
    decide
  · omega

theorem splice_zero (key d : Bytes) : splice key 0 d = d ++ key.drop d.length := by
  rw [splice, List.take_zero, List.nil_append, Nat.zero_add]

theorem reduceKey_take (H : Hash) (key : Bytes) :
    (reduceKey H key).1.take (reduceKey H key).2 = hmacKey H key := by
  rw [reduceKey, hmacKey]
  split
  · rw [splice_zero]
    exact List.take_left' (H.hash_length key)
  · exact List.take_length

theorem reduceKey_snd (H : Hash) (key : Bytes) : (reduceKey H key).2 = (hmacKey H key).length := by
  rw [reduceKey, hmacKey]
  split
  · exact (H.hash_length key).symm
  · rfl

theorem pad_reduceKey (H : Hash) (key : Bytes) (x : UInt8) :
    pad (reduceKey H key).1 (reduceKey H key).2 x =
      (hmacKey H key ++ List.replicate (64 - (hmacKey H key).length) 0).map (· ^^^ x) := by
  have hlen := hmacKey_length H key
  rw [pad, reduceKey_take, reduceKey_snd]
  congr 1
  rw [List.take_append, List.take_replicate, List.take_of_length_le hlen]
  unfold prfMaxKeyLen
  congr 2
  omega

/-- **`hmac_sha1` is HMAC.** -/
theorem hmacSha1_digest (H : Hash) (text key : Bytes) :
    (hmacSha1 H text key).1 = hmac H.hash text key := by
  simp only [hmacSha1, pad_reduceKey]
  rfl

theorem hmac_length (H : Hash) (text key : Bytes) : (hmac H.hash text key).length = 20 :=
  H.hash_length _

/-- The key is the one that the caller has given, or its beginning is overwritten. -/
theorem reduceKey_key_iff (H : Hash) (key : Bytes) :
    (reduceKey H key).1 = key ↔ key.length ≤ prfMaxKeyLen ∨ H.hash key = key.take 20 := by
  by_cases hlong : prfMaxKeyLen < key.length
  · have hhead : splice key 0 (H.hash key) = key ↔ H.hash key = key.take 20 := by
      rw [splice_zero, H.hash_length]
      refine ⟨fun h => ?_, fun h => ?_⟩
      · exact (List.take_left' (H.hash_length key)).symm.trans (congrArg (List.take 20) h)
      · rw [h, List.take_append_drop]
    rw [reduceKey, if_pos hlong, hhead]
    exact ⟨.inr, fun h => h.resolve_left (by omega)⟩
  · rw [reduceKey, if_neg hlong]
    exact ⟨fun _ => .inl (by omega), fun _ => rfl⟩

end

/-! ## The input -/

section

variable {stack pre data : Bytes}

/-- What is hashed, up to the count. -/
def message (pre data : Bytes) : Bytes := (if pre = [] then [] else pre ++ [0]) ++ data

theorem put_ok {buf : Bytes} {off : Nat} {src : Bytes} (h : off + src.length ≤ buf.length) :
    put buf off src = some (splice buf off src) := if_pos h

theorem put_none {buf : Bytes} {off : Nat} {src : Bytes} (h : buf.length < off + src.length) :
    put buf off src = none :=
  if_neg (Nat.not_le.mpr h)

theorem splice_behind (front rest src : Bytes) : splice (front ++ rest) front.length src =
    front ++ src ++ rest.drop src.length := by
  rw [splice, List.take_left, List.drop_append, Nat.add_sub_cancel_left,
    List.drop_eq_nil_of_le (by omega), List.nil_append]

theorem put_behind (front : Bytes) {rest src : Bytes} (h : src.length ≤ rest.length) :
    put (front ++ rest) front.length src = some (front ++ src ++ rest.drop src.length) := by
  rw [put_ok (by rw [List.length_append]; omega), splice_behind]

/-- **The input fits**, and so it is made. -/
theorem prepareInput_fits (stack : Bytes) (h : (message pre data).length < stack.length) :
    ∃ rest, prepareInput stack pre data =
      some (message pre data ++ 0 :: rest, (message pre data).length + 1) := by
  have hdata : ∀ front rest : Bytes, (front ++ data).length < (front ++ rest).length →
      put (front ++ rest) front.length data = some (front ++ data ++ rest.drop data.length) ∧
        put (front ++ data ++ rest.drop data.length) (front.length + data.length) [0] =
          some (front ++ data ++ 0 :: rest.drop (data.length + 1)) := by
    intro front rest hlt
    rw [List.length_append, List.length_append] at hlt
    refine ⟨put_behind front (by omega), ?_⟩
    have hroom : [(0 : UInt8)].length ≤ (rest.drop data.length).length := by
      rw [List.length_drop, List.length_singleton]
      omega
    have hput := put_behind (front ++ data) hroom
    rw [List.length_append] at hput
    rw [hput, List.length_singleton, List.drop_drop, List.append_assoc (front ++ data)]
    rfl
  by_cases hpre : pre = []
  · subst hpre
    obtain ⟨hput, hzero⟩ := hdata [] stack h
    refine ⟨stack.drop (data.length + 1), ?_⟩
    simp only [List.nil_append, List.length_nil, Nat.zero_add] at hput hzero
    simp [prepareInput, message, hput, hzero]
  · have hmessage : message pre data = pre ++ [0] ++ data := by rw [message, if_neg hpre]
    have hne : pre.length ≠ 0 := fun hlen => hpre (List.length_eq_zero_iff.mp hlen)
    rw [hmessage] at h ⊢
    simp only [List.length_append, List.length_singleton] at h
    have hfront : put stack 0 pre = some (pre ++ stack.drop pre.length) := by
      have hput := put_behind [] (show pre.length ≤ stack.length by omega)
      simpa using hput
    have hroom : [(0 : UInt8)].length ≤ (stack.drop pre.length).length := by
      rw [List.length_drop, List.length_singleton]
      omega
    have hsep := put_behind pre hroom
    rw [List.length_singleton, List.drop_drop] at hsep
    obtain ⟨hput, hzero⟩ := hdata (pre ++ [0]) (stack.drop (pre.length + 1)) (by
      simp only [List.length_append, List.length_singleton, List.length_drop]
      omega)
    rw [List.length_append, List.length_singleton] at hput hzero
    refine ⟨(stack.drop (pre.length + 1)).drop (data.length + 1), ?_⟩
    have htotal : pre.length + 1 + data.length = (pre ++ [0] ++ data).length := by
      rw [List.length_append, List.length_append, List.length_singleton]
    simp only [prepareInput, ne_eq, hne, not_false_eq_true, if_true, hfront, hsep, hput, hzero,
      bind, Option.bind]
    rw [htotal]

/-- **The octet behind the buffer**: with a prefix, a message that fills the buffer leaves no room
for the count. -/
theorem prepareInput_full (hpre : pre ≠ []) (h : stack.length ≤ (message pre data).length) :
    prepareInput stack pre data = none := by
  have hne : pre.length ≠ 0 := fun hlen => hpre (List.length_eq_zero_iff.mp hlen)
  rw [message, if_neg hpre, List.length_append, List.length_append, List.length_singleton] at h
  have hput : ∀ {buf src out : Bytes} {off : Nat}, put buf off src = some out →
      out.length = buf.length := by
    intro buf src out off hsome
    rw [put] at hsome
    split at hsome
    · cases hsome
      simp only [splice, List.length_append, List.length_take, List.length_drop]
      omega
    · cases hsome
  cases hfirst : put stack 0 pre with
  | none => simp [prepareInput, hne, hfirst]
  | some input₁ =>
      cases hsecond : put input₁ pre.length [0] with
      | none => simp [prepareInput, hne, hfirst, hsecond]
      | some input₂ =>
          cases hthird : put input₂ (pre.length + 1) data with
          | none => simp [prepareInput, hne, hfirst, hsecond, hthird]
          | some input₃ =>
              have hlen : input₃.length = stack.length := by
                rw [hput hthird, hput hsecond, hput hfirst]
              have hlast : put input₃ (pre.length + 1 + data.length) [0] = none := by
                apply put_none
                rw [List.length_singleton]
                omega
              simp [prepareInput, hne, hfirst, hsecond, hthird, hlast]

end

/-! ## The loops -/

/-- The digests of a message with a count of one octet behind it. -/
def blocks (block : Bytes → Bytes) (msg : Bytes) (n : Nat) : Bytes :=
  (List.range n).flatMap fun i => block (msg ++ [UInt8.ofNat i])

section

variable {H : Hash} {msg rest key : Bytes} {out : Mem} {block : Bytes → Bytes}

theorem write_nil (out : Mem) : Mem.write out 0 [] = out := by
  funext x
  exact write_apply_of_not_mem fun hx => Nat.not_lt_zero x (by simpa using hx.2)

theorem write_again {addr : Nat} {b b' : Bytes} (h : b.length = b'.length) :
    Mem.write (Mem.write out addr b) addr b' = Mem.write out addr b' := by
  funext x
  by_cases hx : addr ≤ x ∧ x < addr + b'.length
  · rw [Mem.write, if_pos hx, Mem.write, if_pos hx]
  · rw [write_apply_of_not_mem hx, write_apply_of_not_mem hx, write_apply_of_not_mem (h ▸ hx)]

theorem blocks_zero (block : Bytes → Bytes) (msg : Bytes) : blocks block msg 0 = [] := rfl

theorem blocks_succ (block : Bytes → Bytes) (msg : Bytes) (n : Nat) :
    blocks block msg (n + 1) = blocks block msg n ++ block (msg ++ [UInt8.ofNat n]) := by
  simp [blocks, List.range_succ]

theorem blocks_length (hblock : ∀ m, (block m).length = 20) (msg : Bytes) (n : Nat) :
    (blocks block msg n).length = 20 * n := by
  induction n with
  | zero => rfl
  | succ n ih =>
      rw [blocks_succ, List.length_append, ih, hblock]
      omega

theorem count_next (msg rest : Bytes) (n : Nat) :
    count (msg ++ UInt8.ofNat n :: rest) (msg.length + 1) = msg ++ UInt8.ofNat (n + 1) :: rest := by
  have hlast : (msg ++ UInt8.ofNat n :: rest).getD msg.length 0 = UInt8.ofNat n := by
    rw [List.getD_append_right _ _ _ _ le_rfl, Nat.sub_self]
    rfl
  rw [count, Nat.add_sub_cancel, hlast, List.set_append_right _ _ le_rfl, Nat.sub_self,
    List.set_cons_zero]
  congr 2
  apply UInt8.toNat_inj.mp
  simp [UInt8.toNat_add]

theorem take_input (msg rest : Bytes) (b : UInt8) :
    (msg ++ b :: rest).take (msg.length + 1) = msg ++ [b] := by
  rw [List.take_append, List.take_of_length_le (by omega), Nat.add_sub_cancel_left]
  rfl

theorem write_block (block : Bytes → Bytes) (hblock : ∀ m, (block m).length = 20) (msg : Bytes)
    (out : Mem) (n : Nat) :
    Mem.write (Mem.write out 0 (blocks block msg n)) (20 * n) (block (msg ++ [UInt8.ofNat n])) =
      Mem.write out 0 (blocks block msg (n + 1)) := by
  have happend := write_append out 0 (blocks block msg n) (block (msg ++ [UInt8.ofNat n]))
  rw [blocks_length hblock, Nat.zero_add] at happend
  rw [happend, blocks_succ]

/-- **The loop of `PRF`**, with a key that stays as it is. -/
theorem prf_blocks (hkey : (reduceKey H key).1 = key) (msg rest : Bytes) (out : Mem) (n : Nat) :
    (List.range n).foldl (prfStep H (msg.length + 1)) ⟨key, msg ++ 0 :: rest, out⟩ =
      ⟨key, msg ++ UInt8.ofNat n :: rest,
        Mem.write out 0 (blocks (fun m => hmac H.hash m key) msg n)⟩ := by
  induction n with
  | zero =>
      rw [blocks_zero, write_nil, List.range_zero, List.foldl_nil]
      rfl
  | succ n ih =>
      have hdigest := hmacSha1_digest H (msg ++ [UInt8.ofNat n]) key
      have hsame : (hmacSha1 H (msg ++ [UInt8.ofNat n]) key).2 = key := hkey
      rw [List.range_succ, List.foldl_append, ih, List.foldl_cons, List.foldl_nil]
      simp only [prfStep, take_input, count_next, hdigest, hsame]
      rw [write_block (fun m => hmac H.hash m key) fun m => hmac_length H m key]

/-- **The loop of `fPRF`.** -/
theorem fPRF_blocks (H : Hash) (refi refo msg rest : Bytes) (out : Mem) (n : Nat) :
    (List.range n).foldl (fPRFStep H refi refo (msg.length + 1)) (msg ++ 0 :: rest, out) =
      (msg ++ UInt8.ofNat n :: rest,
        Mem.write out 0 (blocks (fun m => H.hash (refo ++ H.hash (refi ++ m))) msg n)) := by
  induction n with
  | zero =>
      rw [blocks_zero, write_nil, List.range_zero, List.foldl_nil]
      rfl
  | succ n ih =>
      rw [List.range_succ, List.foldl_append, ih, List.foldl_cons, List.foldl_nil]
      have hinner := write_slice
        (Mem.write out 0 (blocks (fun m => H.hash (refo ++ H.hash (refi ++ m))) msg n)) (20 * n)
        (H.hash (refi ++ (msg ++ [UInt8.ofNat n])))
      rw [H.hash_length] at hinner
      simp only [fPRFStep, take_input, count_next, hinner]
      rw [write_again (by rw [H.hash_length, H.hash_length]),
        write_block _ fun m => H.hash_length _]

end

/-! ## Agreement -/

/-- The digests of prefix, zero, data and count, which is an octet, as many as there are octets
asked for. -/
def concatenation (H : Hash) (key pre data : Bytes) (len : Nat) : Bytes :=
  (blocks (fun m => hmac H.hash m key) (message pre data) ((len + 19) / 20)).take len

/-- The two functions end with one status, the key is left alone, and the output is the
concatenation. -/
structure Agree (H : Hash) (key pre data : Bytes) (len : Nat) (r r' : Result) : Prop where
  status : r.status = r'.status
  kept : r.key = key ∧ r'.key = key
  output : r.status = 0 → r.output.slice 0 len = concatenation H key pre data len ∧
    r'.output.slice 0 len = concatenation H key pre data len

/-- Both functions have a result, which is the same. -/
def PrfsAgree (H : Hash) (stack stack' : Vector UInt8 prfMaxIDLen) (key pre data : Bytes)
    (output output' : Mem) (len : Nat) : Prop :=
  ∃ r r', PRF H stack key pre data output len = some r ∧
    fPRF H stack' key pre data output' len = some r' ∧
    Agree H key pre data len r r'

/-- What both functions rely on: lengths that are no more than an `int`, room for the count in the
buffer, and a key that does not become another one. -/
structure Reliable (H : Hash) (key pre data : Bytes) (len : Nat) : Prop where
  size : pre.length + data.length + 1 < 2 ^ 31
  /-- The input is refused, or the rest of the code is right about it. -/
  input : prfMaxIDLen < pre.length + data.length + 1 ∨
    ((pre = [] ∨ pre.length + data.length + 2 ≤ prfMaxIDLen) ∧ len + 20 < 2 ^ 31 ∧
      (key.length ≤ prfMaxKeyLen ∨ H.hash key = key.take 20))

section

variable {H : Hash} {key pre data : Bytes} {len : Nat}

theorem intAdd_ok {a b : Nat} (h : a + b < 2 ^ 31) : intAdd a b = some (a + b) := if_pos h

theorem intAdd_none {a b : Nat} (h : ¬a + b < 2 ^ 31) : intAdd a b = none := if_neg h

theorem message_length (pre data : Bytes) :
    (message pre data).length = pre.length + data.length + (if pre = [] then 0 else 1) := by
  rw [message]
  split
  · rename_i hpre
    subst hpre
    simp
  · simp only [List.length_append, List.length_singleton]
    omega

theorem slice_blocks {block : Bytes → Bytes} (hblock : ∀ m, (block m).length = 20) (msg : Bytes)
    (out : Mem) (len : Nat) :
    (Mem.write out 0 (blocks block msg ((len + 19) / 20))).slice 0 len =
      (blocks block msg ((len + 19) / 20)).take len := by
  have hwhole := write_slice out 0 (blocks block msg ((len + 19) / 20))
  have hcut := congrArg (List.take len) hwhole
  rwa [Nas.Mem.slice_take, blocks_length hblock, Nat.min_eq_left (by omega)] at hcut

theorem hmac_eq (H : Hash) (key m : Bytes) :
    H.hash (pad (reduceKey H key).1 (reduceKey H key).2 0x5c ++
      H.hash (pad (reduceKey H key).1 (reduceKey H key).2 0x36 ++ m)) = hmac H.hash m key :=
  hmacSha1_digest H m key

variable {stack : Vector UInt8 prfMaxIDLen} {output : Mem}

section

variable (hmsg : (message pre data).length < prfMaxIDLen) (hlen : len + 20 < 2 ^ 31)
include hmsg hlen

omit hlen in
theorem sizes_fit : pre.length + data.length < 2 ^ 31 ∧ pre.length + data.length + 1 < 2 ^ 31 ∧
    ¬prfMaxIDLen < pre.length + data.length + 1 := by
  have hsize := message_length pre data
  unfold prfMaxIDLen at *
  omega

/-- `PRF`, for a message that leaves room for the count, and a key that stays. -/
theorem PRF_fits (stack : Vector UInt8 prfMaxIDLen) (output : Mem)
    (hkey : (reduceKey H key).1 = key) :
    ∃ output', PRF H stack key pre data output len = some ⟨0, key, output'⟩ ∧
      output'.slice 0 len = concatenation H key pre data len := by
  obtain ⟨hsum, hsize, hfits⟩ := sizes_fit hmsg
  obtain ⟨rest, hprepare⟩ := prepareInput_fits stack.toList (by rwa [Vector.length_toList])
  have hrounded : len + 19 < 2 ^ 31 := by omega
  refine ⟨_, ?_, slice_blocks (fun m => hmac_length H m key) (message pre data) output len⟩
  simp only [PRF, intAdd_ok hsum, intAdd_ok hsize, intAdd_ok hrounded, hprepare, if_neg hfits,
    Option.bind_eq_bind, Option.bind_some, prf_blocks hkey]

theorem fPRF_fits (H : Hash) (stack : Vector UInt8 prfMaxIDLen) (key : Bytes) (output : Mem) :
    ∃ output', fPRF H stack key pre data output len = some ⟨0, (reduceKey H key).1, output'⟩ ∧
      output'.slice 0 len = concatenation H key pre data len := by
  obtain ⟨hsum, hsize, hfits⟩ := sizes_fit hmsg
  obtain ⟨rest, hprepare⟩ := prepareInput_fits stack.toList (by rwa [Vector.length_toList])
  refine ⟨_, ?_, slice_blocks (fun m => hmac_length H m key) (message pre data) output len⟩
  have hrounded : len + 20 - 1 = len + 19 := rfl
  simp only [fPRF, intAdd_ok hsum, intAdd_ok hsize, intAdd_ok hlen, hprepare, if_neg hfits,
    Option.bind_eq_bind, Option.bind_some, hrounded, fPRF_blocks, hmac_eq]

end

/-- A result needs a sum of lengths that is an `int`, and of an input that is not refused, room for
the count and an output length that can be rounded up. -/
theorem fPRF_some {r : Result} (h : fPRF H stack key pre data output len = some r) :
    pre.length + data.length + 1 < 2 ^ 31 ∧ (prfMaxIDLen < pre.length + data.length + 1 ∨
      ((pre = [] ∨ pre.length + data.length + 2 ≤ prfMaxIDLen) ∧ len + 20 < 2 ^ 31)) := by
  have hsum : pre.length + data.length < 2 ^ 31 := by
    by_contra hnot
    simp [fPRF, intAdd_none hnot] at h
  have hsize : pre.length + data.length + 1 < 2 ^ 31 := by
    by_contra hnot
    simp [fPRF, intAdd_ok hsum, intAdd_none hnot] at h
  refine ⟨hsize, ?_⟩
  by_cases hrefused : prfMaxIDLen < pre.length + data.length + 1
  · exact .inl hrefused
  refine .inr ⟨?_, ?_⟩
  · by_contra hfull
    rw [not_or, not_le] at hfull
    have hnone : prepareInput stack.toList pre data = none := by
      apply prepareInput_full hfull.1
      rw [Vector.length_toList, message_length, if_neg hfull.1]
      omega
    simp [fPRF, intAdd_ok hsum, intAdd_ok hsize, hrefused, hnone] at h
  · by_contra hlen
    cases hprepare : prepareInput stack.toList pre data with
    | none => simp [fPRF, intAdd_ok hsum, intAdd_ok hsize, hrefused, hprepare] at h
    | some prepared =>
      simp [fPRF, intAdd_ok hsum, intAdd_ok hsize, hrefused, hprepare, intAdd_none hlen] at h

theorem refused (hsize : pre.length + data.length + 1 < 2 ^ 31)
    (h : prfMaxIDLen < pre.length + data.length + 1) :
    PRF H stack key pre data output len = some ⟨-1, key, output⟩ ∧
      fPRF H stack key pre data output len = some ⟨-1, key, output⟩ := by
  have hsum : pre.length + data.length < 2 ^ 31 := by omega
  simp only [PRF, fPRF, intAdd_ok hsum, intAdd_ok hsize, Option.bind_eq_bind, Option.bind_some,
    if_pos h, and_self]

theorem message_fits (h : pre = [] ∨ pre.length + data.length + 2 ≤ prfMaxIDLen)
    (hsize : ¬prfMaxIDLen < pre.length + data.length + 1) :
    (message pre data).length < prfMaxIDLen := by
  rw [message_length]
  by_cases hpre : pre = []
  · rw [if_pos hpre]
    omega
  · have hroom := h.resolve_left hpre
    rw [if_neg hpre]
    omega

/-- **When the two functions agree.** -/
theorem prfs_agree_iff (H : Hash) (stack stack' : Vector UInt8 prfMaxIDLen) (key pre data : Bytes)
    (output output' : Mem) (len : Nat) :
    PrfsAgree H stack stack' key pre data output output' len ↔ Reliable H key pre data len := by
  refine ⟨fun ⟨r, r', hprf, hfprf, hagree⟩ => ?_, fun h => ?_⟩
  · obtain ⟨hsize, hroom⟩ := fPRF_some hfprf
    refine ⟨hsize, ?_⟩
    by_cases hrefused : prfMaxIDLen < pre.length + data.length + 1
    · exact .inl hrefused
    obtain ⟨hfits, hlen⟩ := hroom.resolve_left hrefused
    obtain ⟨out, hresult, -⟩ := fPRF_fits (message_fits hfits hrefused) hlen H stack' key output'
    rw [hfprf] at hresult
    cases hresult
    exact .inr ⟨hfits, hlen, (reduceKey_key_iff H key).mp hagree.kept.2⟩
  · by_cases hrefused : prfMaxIDLen < pre.length + data.length + 1
    · refine ⟨_, _, (refused h.size hrefused).1, (refused h.size hrefused).2,
        ⟨rfl, ⟨rfl, rfl⟩, fun hzero => ?_⟩⟩
      cases hzero
    · obtain ⟨hfits, hlen, hkey⟩ := h.input.resolve_left hrefused
      have hmsg := message_fits hfits hrefused
      have hkept := (reduceKey_key_iff H key).mpr hkey
      obtain ⟨out, hprf, hout⟩ := PRF_fits hmsg hlen stack output hkept
      obtain ⟨out', hfprf, hout'⟩ := fPRF_fits hmsg hlen H stack' key output'
      exact ⟨_, _, hprf, hfprf, ⟨rfl, ⟨rfl, hkept⟩, fun _ => ⟨hout, hout'⟩⟩⟩

end

/-! ## The octet behind the buffer -/

/-- SHA-1. -/
def sha1Hash : Hash := ⟨sha1, fun m => by simp [sha1]⟩

/-- **One octet too many**: a prefix of one octet and 126 octets of data pass the check, and the
count is written behind the buffer. -/
theorem count_behind_buffer :
    ¬PrfsAgree sha1Hash (Vector.replicate prfMaxIDLen 0) (Vector.replicate prfMaxIDLen 0) [] [0x50]
      (List.replicate 126 0) (fun _ => 0) (fun _ => 0) 20 := by
  intro ⟨r, r', hprf, hfprf, hagree⟩
  obtain ⟨hsize, hroom⟩ := fPRF_some hfprf
  rw [List.length_replicate, List.length_singleton] at hroom
  cases hroom with
  | inl hrefused => exact absurd hrefused (by decide)
  | inr hfits => exact absurd hfits.1 (by decide)

end BroadcomWl.Crypto.Prf
