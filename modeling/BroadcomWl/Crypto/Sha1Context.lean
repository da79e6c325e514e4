import BroadcomWl.Crypto.Padding
import BroadcomWl.Lib.Calls

/-!
# The context of SHA-1

`sha1.c`: a message is given in pieces, with `SHA1Input`, and `SHA1Result` gives the digest. The
context counts the bits in two words and keeps the octets of the incomplete block.

**The abstract object** (`Phase`) remembers the octets that have come, or the digest's message, or
an error. A message of `2 ^ 61` octets or more is an error, and so is more input after the result.

`sha1_refines` says that no list of calls tells the context from the abstract object.
-/

namespace BroadcomWl.Crypto.Sha1

open BroadcomWl.Lib
open BroadcomWl.Nas (Bytes)

/-! ## The code -/

/-- `SHA1Context` -/
structure Context where
  intermediateHash : Sha1State
  lengthLow : UInt32
  lengthHigh : UInt32
  messageBlockIndex : Nat
  messageBlock : Vector UInt8 64
  computed : Bool
  corrupted : Nat

def shaSuccess : Nat := 0
def shaStateError : Nat := 3

/-- The words that `SHA1Reset` puts in. -/
def initialHash : Sha1State := ⟨0x67452301, 0xefcdab89, 0x98badcfe, 0x10325476, 0xc3d2e1f0⟩

/-- `SHA1Reset` -/
def sha1Reset (c : Context) : Context :=
  { c with
    lengthLow := 0
    lengthHigh := 0
    messageBlockIndex := 0
    intermediateHash := initialHash
    computed := false
    corrupted := 0 }

/-- Octets into the block, from a place on. -/
def store : Vector UInt8 64 → Nat → Bytes → Vector UInt8 64
  | block, _, [] => block
  | block, i, b :: bs => store (block.setIfInBounds i b) (i + 1) bs

/-- `SHA1ProcessMessageBlock` -/
def sha1ProcessMessageBlock (c : Context) : Context :=
  { c with
    intermediateHash := sha1Block c.intermediateHash c.messageBlock.toList
    messageBlockIndex := 0 }

@[simp] theorem process_hash (c : Context) : (sha1ProcessMessageBlock c).intermediateHash =
    sha1Block c.intermediateHash c.messageBlock.toList := by
  rw [sha1ProcessMessageBlock]

@[simp] theorem process_index (c : Context) :
    (sha1ProcessMessageBlock c).messageBlockIndex = 0 := by
  rw [sha1ProcessMessageBlock]

@[simp] theorem process_block (c : Context) :
    (sha1ProcessMessageBlock c).messageBlock = c.messageBlock := by
  rw [sha1ProcessMessageBlock]

@[simp] theorem process_low (c : Context) :
    (sha1ProcessMessageBlock c).lengthLow = c.lengthLow := by
  rw [sha1ProcessMessageBlock]

@[simp] theorem process_high (c : Context) :
    (sha1ProcessMessageBlock c).lengthHigh = c.lengthHigh := by
  rw [sha1ProcessMessageBlock]

@[simp] theorem process_computed (c : Context) :
    (sha1ProcessMessageBlock c).computed = c.computed := by
  rw [sha1ProcessMessageBlock]

@[simp] theorem process_corrupted (c : Context) :
    (sha1ProcessMessageBlock c).corrupted = c.corrupted := by
  rw [sha1ProcessMessageBlock]

/-- The body of the loop of `SHA1Input`. -/
def inputOctet (c : Context) (b : UInt8) : Context :=
  let block := c.messageBlock.setIfInBounds c.messageBlockIndex b
  let low := c.lengthLow + 8
  let high := if low = 0 then c.lengthHigh + 1 else c.lengthHigh
  -- the message is too long
  let corrupted := if low = 0 ∧ high = 0 then 1 else c.corrupted
  let c := { c with
    messageBlock := block
    messageBlockIndex := c.messageBlockIndex + 1
    lengthLow := low
    lengthHigh := high
    corrupted := corrupted }
  if c.messageBlockIndex = 64 then sha1ProcessMessageBlock c else c

def inputOctets : Context → Bytes → Context
  | c, [] => c
  | c, b :: bs => if c.corrupted = 0 then inputOctets (inputOctet c b) bs else c

/-- `SHA1Input`: the status, and the context. -/
def sha1Input (c : Context) (message : Bytes) : Nat × Context :=
  if message.length = 0 then (shaSuccess, c)
  else if c.computed then (shaStateError, { c with corrupted := shaStateError })
  else if c.corrupted ≠ 0 then (c.corrupted, c)
  else (shaSuccess, inputOctets c message)

/-- `context->Message_Block[context->Message_Block_Index++] = b`, for several octets. -/
def putOctets (c : Context) (bs : Bytes) : Context :=
  { c with
    messageBlock := store c.messageBlock c.messageBlockIndex bs
    messageBlockIndex := c.messageBlockIndex + bs.length }

/-- `while (context->Message_Block_Index < n)`, with zeros. -/
def putZeros (c : Context) (n : Nat) : Context :=
  putOctets c (List.replicate (n - c.messageBlockIndex) 0)

/-- The octets of a word, the most significant one first. -/
def wordOctets (word : UInt32) : Bytes :=
  [(word >>> 24).toUInt8, (word >>> 16).toUInt8, (word >>> 8).toUInt8, word.toUInt8]

/-- `SHA1PadMessage` -/
def sha1PadMessage (c : Context) : Context :=
  let c :=
    if 55 < c.messageBlockIndex then
      putZeros (sha1ProcessMessageBlock (putZeros (putOctets c [0x80]) 64)) 56
    else putZeros (putOctets c [0x80]) 56
  sha1ProcessMessageBlock
    { c with
      messageBlock := store c.messageBlock 56 (wordOctets c.lengthHigh ++ wordOctets c.lengthLow) }

/-- `Message_Digest[i] = context->Intermediate_Hash[i >> 2] >> 8 * (3 - (i & 0x03))` -/
def digestOctets (h : Sha1State) : Bytes :=
  (List.range 20).map fun i =>
    UInt8.ofNat ([h.a, h.b, h.c, h.d, h.e].getD (i >>> 2) 0 >>> (8 * (3 - (i &&& 3))))

/-- `SHA1Result`: the digest or the error, and the context. -/
def sha1Result (c : Context) : Except Nat Bytes × Context :=
  if c.corrupted ≠ 0 then (.error c.corrupted, c)
  else
    let c :=
      if c.computed then c
      else { sha1PadMessage c with
        messageBlock := Vector.replicate 64 0
        lengthLow := 0
        lengthHigh := 0
        computed := true }
    (.ok (digestOctets c.intermediateHash), c)

/-! ## Calls -/

inductive Call
  | reset
  | input (message : Bytes)
  | result

/-- What a call returns: a status, or a digest. -/
inductive Answer
  | status (code : Nat)
  | digest (octets : Bytes)
  deriving DecidableEq

def Answer.ofResult : Except Nat Bytes → Answer
  | .error code => .status code
  | .ok octets => .digest octets

def Context.call (c : Context) : Call → Answer × Context
  | .reset => (.status shaSuccess, sha1Reset c)
  | .input message =>
    let (code, c) := sha1Input c message
    (.status code, c)
  | .result =>
    let (r, c) := sha1Result c
    (.ofResult r, c)

/-- What the context stands for. -/
inductive Phase
  /-- these octets have come -/
  | hashing (m : Bytes)
  /-- this message's digest has been given -/
  | computed (m : Bytes)
  | corrupted (code : Nat)

def Phase.input (message : Bytes) : Phase → Answer × Phase
  | .hashing m =>
    (.status shaSuccess, if (m ++ message).length < 2 ^ 61 then .hashing (m ++ message)
      else .corrupted 1)
  | .computed _ => (.status shaStateError, .corrupted shaStateError)
  | .corrupted code => (.status code, .corrupted code)

def Phase.result : Phase → Answer × Phase
  | .hashing m => (.digest (sha1 m), .computed m)
  | .computed m => (.digest (sha1 m), .computed m)
  | .corrupted code => (.status code, .corrupted code)

def Phase.call (p : Phase) : Call → Answer × Phase
  | .reset => (.status shaSuccess, .hashing [])
  | .input message => if message = [] then (.status shaSuccess, p) else p.input message
  | .result => p.result

/-! ## The block -/

theorem store_take (block : Vector UInt8 64) (i : Nat) (bs : Bytes) (h : i + bs.length ≤ 64) :
    (store block i bs).toList.take (i + bs.length) = block.toList.take i ++ bs := by
  induction bs generalizing block i with
  | nil => rw [store, List.append_nil, List.length_nil, Nat.add_zero]
  | cons b bs ih =>
      rw [List.length_cons] at h
      have hcount : i + (b :: bs).length = i + 1 + bs.length := by
        rw [List.length_cons]
        omega
      rw [store, hcount, ih _ _ (by omega), take_set_succ block b (by omega), List.append_assoc,
        List.singleton_append]

/-! ## The invariant -/

/-- The context between two calls when the octets `m` have come. -/
structure Hashing (m : Bytes) (c : Context) : Prop where
  short : m.length < 2 ^ 61
  length : c.lengthHigh.toNat * 2 ^ 32 + c.lengthLow.toNat = 8 * m.length
  absorbed :
    Absorbed sha1Block 64 initialHash m c.intermediateHash
      (c.messageBlock.toList.take c.messageBlockIndex)
  index : c.messageBlockIndex < 64
  computed : c.computed = false
  corrupted : c.corrupted = 0

theorem hashing_reset (c : Context) : Hashing [] (sha1Reset c) := by
  refine ⟨?_, by simp [sha1Reset], .nil _ _ _, Nat.succ_pos 63, rfl, rfl⟩
  rw [List.length_nil]
  exact Nat.two_pow_pos 61

theorem count_octet {low high : UInt32} {n : Nat}
    (h : high.toNat * 2 ^ 32 + low.toNat = 8 * n) :
    (low + 8 = 0 ∧ (if low + 8 = 0 then high + 1 else high) = 0 ↔ n + 1 = 2 ^ 61) ∧
      (n + 1 < 2 ^ 61 →
        (if low + 8 = 0 then high + 1 else high).toNat * 2 ^ 32 + (low + 8).toNat =
          8 * (n + 1)) := by
  have hlow := low.toNat_lt
  have hhigh := high.toNat_lt
  have hsum : (low + 8).toNat = (low.toNat + 8) % 2 ^ 32 := by
    rw [UInt32.toNat_add]
    rfl
  have hnext : (high + 1).toNat = (high.toNat + 1) % 2 ^ 32 := by
    rw [UInt32.toNat_add]
    rfl
  have hzero (x : UInt32) : x = 0 ↔ x.toNat = 0 := by
    rw [← UInt32.toNat_inj]
    rfl
  by_cases hwrap : low + 8 = 0
  · have hval := (hzero _).mp hwrap
    rw [if_pos hwrap, and_iff_right hwrap, hzero, hnext, hsum]
    rw [hsum] at hval
    generalize low.toNat = x at *
    generalize high.toNat = y at *
    omega
  · have hval := mt (hzero _).mpr hwrap
    rw [if_neg hwrap, iff_false_intro hwrap, false_and, hsum]
    rw [hsum] at hval
    have hroom : low.toNat + 8 < 2 ^ 32 := by omega
    rw [Nat.mod_eq_of_lt hroom]
    refine ⟨⟨False.elim, fun hend => ?_⟩, fun _ => ?_⟩
    · omega
    · omega

/-- **An octet.** -/
theorem inputOctet_spec {m : Bytes} {c : Context} (h : Hashing m c) (b : UInt8) :
    (m.length + 1 < 2 ^ 61 → Hashing (m ++ [b]) (inputOctet c b)) ∧
      (¬m.length + 1 < 2 ^ 61 →
        (inputOctet c b).corrupted = 1 ∧ (inputOctet c b).computed = false) := by
  obtain ⟨hover, hcount⟩ := count_octet h.length
  have hshort := h.short
  have hindex := h.index
  have htake :
      (c.messageBlock.setIfInBounds c.messageBlockIndex b).toList.take (c.messageBlockIndex + 1) =
      c.messageBlock.toList.take c.messageBlockIndex ++ [b] :=
    store_take c.messageBlock _ [b] hindex
  have hfilled : (c.messageBlock.toList.take c.messageBlockIndex ++ [b]).length =
      c.messageBlockIndex + 1 := by
    rw [List.length_append, List.length_take, Vector.length_toList, List.length_singleton,
      Nat.min_eq_left (by omega)]
  constructor
  · intro hlt
    have hno := mt hover.mp (by omega)
    have hlength := hcount hlt
    by_cases hfull : c.messageBlockIndex + 1 = 64
    · have hblock : (c.messageBlock.setIfInBounds c.messageBlockIndex b).toList =
          c.messageBlock.toList.take c.messageBlockIndex ++ [b] := by
        rw [← htake, hfull, List.take_of_length_le (by rw [Vector.length_toList])]
      unfold inputOctet
      simp only [if_neg hno, if_pos hfull]
      constructor
      · rwa [List.length_append, List.length_singleton]
      · rwa [process_low, process_high, List.length_append, List.length_singleton]
      · have hfill := h.absorbed.fill (Nat.succ_pos 63) (hfilled.trans hfull)
        rw [process_index, process_hash, List.take_zero, hblock]
        exact hfill
      · exact Nat.succ_pos 63
      · rw [process_computed, h.computed]
      · rw [process_corrupted, h.corrupted]
    · unfold inputOctet
      simp only [if_neg hno, if_neg hfull]
      constructor
      · rwa [List.length_append, List.length_singleton]
      · rwa [List.length_append, List.length_singleton]
      · simp only [htake]
        exact h.absorbed.wait (by rw [hfilled]; omega)
      · simp only
        omega
      · exact h.computed
      · exact h.corrupted
  · intro hge
    have hyes := hover.mpr (by omega)
    unfold inputOctet
    simp only [if_pos hyes]
    by_cases hfull : c.messageBlockIndex + 1 = 64
    · rw [if_pos hfull, process_corrupted, process_computed]
      exact ⟨rfl, h.computed⟩
    · rw [if_neg hfull]
      exact ⟨rfl, h.computed⟩

/-- **A piece of the message.** -/
theorem inputOctets_spec {m : Bytes} {c : Context} (h : Hashing m c) (l : Bytes) :
    ((m ++ l).length < 2 ^ 61 → Hashing (m ++ l) (inputOctets c l)) ∧
      (¬(m ++ l).length < 2 ^ 61 →
        (inputOctets c l).corrupted = 1 ∧ (inputOctets c l).computed = false) := by
  induction l generalizing m c with
  | nil =>
      rw [List.append_nil, inputOctets]
      exact ⟨fun _ => h, fun hlong => absurd h.short hlong⟩
  | cons b l ih =>
      obtain ⟨hnext, hover⟩ := inputOctet_spec h b
      have hmessage : m ++ b :: l = m ++ [b] ++ l := by
        rw [List.append_assoc, List.singleton_append]
      rw [inputOctets, if_pos h.corrupted, hmessage]
      by_cases hlt : m.length + 1 < 2 ^ 61
      · exact ih (hnext hlt)
      · obtain ⟨hcorrupted, hcomputed⟩ := hover hlt
        have hstop : inputOctets (inputOctet c b) l = inputOctet c b := by
          cases l with
          | nil => rfl
          | cons => rw [inputOctets, if_neg (by rw [hcorrupted]; decide)]
        rw [hstop]
        refine ⟨fun hall => ?_, fun _ => ⟨hcorrupted, hcomputed⟩⟩
        rw [List.length_append, List.length_append, List.length_singleton] at hall
        omega

/-! ## The padding -/

/-- The block holds `buffer` up to its index. -/
structure Filled (c : Context) (buffer : Bytes) : Prop where
  index : c.messageBlockIndex = buffer.length
  take : c.messageBlock.toList.take buffer.length = buffer

theorem Filled.put {c : Context} {buffer bs : Bytes} (h : Filled c buffer)
    (hroom : (buffer ++ bs).length ≤ 64) :
    Filled (putOctets c bs) (buffer ++ bs) := by
  rw [List.length_append] at hroom
  constructor
  · rw [putOctets, h.index, List.length_append]
  · have htake := store_take c.messageBlock _ _ hroom
    rwa [h.take, ← List.length_append, ← h.index] at htake

theorem Filled.zeros {c : Context} {buffer : Bytes} (h : Filled c buffer) {n : Nat}
    (hroom : buffer.length ≤ n) (hn : n ≤ 64) :
    Filled (putZeros c n) (buffer ++ List.replicate (n - buffer.length) 0) := by
  rw [putZeros, h.index]
  refine h.put ?_
  rw [List.length_append, List.length_replicate]
  omega

theorem Filled.process (c : Context) : Filled (sha1ProcessMessageBlock c) [] :=
  ⟨process_index c, rfl⟩

theorem Filled.whole {c : Context} {buffer : Bytes} (h : Filled c buffer)
    (hfull : buffer.length = 64) :
    c.messageBlock.toList = buffer := by
  have htake := h.take
  rwa [hfull, List.take_of_length_le (by rw [Vector.length_toList])] at htake

/-- Nothing but the block changes. -/
structure SameCount (c c' : Context) : Prop where
  low : c'.lengthLow = c.lengthLow
  high : c'.lengthHigh = c.lengthHigh
  corrupted : c'.corrupted = c.corrupted

theorem SameCount.trans {c c' c'' : Context} (h : SameCount c c') (h' : SameCount c' c'') :
    SameCount c c'' :=
  ⟨h'.low.trans h.low, h'.high.trans h.high, h'.corrupted.trans h.corrupted⟩

theorem SameCount.put (c : Context) (bs : Bytes) : SameCount c (putOctets c bs) := ⟨rfl, rfl, rfl⟩

theorem SameCount.process (c : Context) : SameCount c (sha1ProcessMessageBlock c) :=
  ⟨process_low c, process_high c, process_corrupted c⟩

/-- **Up to the length.** -/
theorem padding_spec {m : Bytes} {c : Context} (h : Hashing m c) :
    let c' := if 55 < c.messageBlockIndex then
        putZeros (sha1ProcessMessageBlock (putZeros (putOctets c [0x80]) 64)) 56
      else putZeros (putOctets c [0x80]) 56
    ∃ buffer, buffer.length = 56 ∧ Filled c' buffer ∧ SameCount c c' ∧
      Absorbed sha1Block 64 initialHash (m ++ [0x80] ++ List.replicate (padZeros (m.length % 64)) 0)
        c'.intermediateHash buffer := by
  obtain ⟨buffer, hbuffer⟩ : ∃ buffer, buffer = c.messageBlock.toList.take c.messageBlockIndex :=
    ⟨_, rfl⟩
  have hindex : c.messageBlockIndex = buffer.length := by
    rw [hbuffer, List.length_take, Vector.length_toList, Nat.min_eq_left (Nat.le_of_lt h.index)]
  have hfilled : Filled c buffer := ⟨hindex, by rw [← hindex, ← hbuffer]⟩
  have habsorbed := h.absorbed
  rw [← hbuffer] at habsorbed
  have hlt := h.index
  have hbit : (buffer ++ [0x80]).length = buffer.length + 1 := by
    rw [List.length_append, List.length_singleton]
  have hput : Filled (putOctets c [0x80]) (buffer ++ [0x80]) := hfilled.put (by rw [hbit]; omega)
  rw [← habsorbed.length, padZeros]
  dsimp only
  by_cases hlong : 55 < c.messageBlockIndex
  · rw [if_pos hlong, if_neg (by omega)]
    have hblock := hput.zeros (n := 64) (by rw [hbit]; omega) le_rfl
    have hfull : (buffer ++ [0x80] ++
        List.replicate (64 - (buffer ++ [(0x80 : UInt8)]).length) 0).length = 64 := by
      rw [List.length_append, List.length_replicate, hbit]
      omega
    obtain ⟨c', hc'⟩ : ∃ c', c' = putZeros (putOctets c [0x80]) 64 := ⟨_, rfl⟩
    have hhash : c'.intermediateHash = c.intermediateHash := by rw [hc']; rfl
    have hcount : SameCount c c' := by
      rw [hc']
      exact (SameCount.put c _).trans (.put _ _)
    rw [← hc'] at hblock ⊢
    have hfirst :=
      habsorbed.fill (l := [0x80] ++ List.replicate (64 - (buffer ++ [(0x80 : UInt8)]).length) 0)
        (Nat.succ_pos 63)
      (by rw [← List.append_assoc, hfull])
    have hsecond := hfirst.wait (l := List.replicate 56 0) (by decide)
    have hzeros : 119 - buffer.length = 64 - (buffer ++ [0x80]).length + 56 := by
      rw [hbit]
      omega
    refine ⟨List.replicate 56 0, rfl, ?_, (hcount.trans (.process c')).trans (.put _ _), ?_⟩
    · exact (Filled.process c').zeros (n := 56) (Nat.zero_le _) (by decide)
    · have hstart : (putZeros (sha1ProcessMessageBlock c') 56).intermediateHash =
          sha1Block c.intermediateHash (buffer ++
              ([0x80] ++ List.replicate (64 - (buffer ++ [0x80]).length) 0)) := by
        rw [putZeros, putOctets, process_hash, hhash, hblock.whole hfull, List.append_assoc]
      rw [hstart, hzeros, List.replicate_add]
      simp only [List.append_assoc, List.nil_append] at hsecond ⊢
      exact hsecond
  · rw [if_neg hlong, if_pos (by omega)]
    have hlast := hput.zeros (n := 56) (by rw [hbit]; omega) (by decide)
    have hfull : (buffer ++ [0x80] ++
        List.replicate (56 - (buffer ++ [(0x80 : UInt8)]).length) 0).length = 56 := by
      rw [List.length_append, List.length_replicate, hbit]
      omega
    refine ⟨_, hfull, hlast, (SameCount.put c _).trans (.put _ _), ?_⟩
    have hwait :=
      habsorbed.wait (l := [0x80] ++ List.replicate (56 - (buffer ++ [(0x80 : UInt8)]).length) 0)
      (by rw [← List.append_assoc, hfull]; decide)
    have hzeros : 55 - buffer.length = 56 - (buffer ++ [0x80]).length := by
      rw [hbit]
      omega
    rw [hzeros, List.append_assoc, List.append_assoc]
    exact hwait

theorem wordOctets_eq (w : UInt32) : wordOctets w = beBytes 4 w.toNat := by
  simp [wordOctets, beBytes, ← UInt8.toNat_inj, UInt32.toNat_shiftRight]

theorem digestOctets_eq (h : Sha1State) :
    digestOctets h = beBytes 4 h.a ++ beBytes 4 h.b ++ beBytes 4 h.c ++ beBytes 4 h.d ++
      beBytes 4 h.e := by
  rfl

/-- **The padding**, and the last block. -/
theorem sha1PadMessage_spec {m : Bytes} {c : Context} (h : Hashing m c) :
    digestOctets (sha1PadMessage c).intermediateHash = sha1 m ∧
    (sha1PadMessage c).corrupted = 0 := by
  obtain ⟨buffer, hbuffer, hfilled, hcount, habsorbed⟩ := padding_spec h
  rw [sha1PadMessage]
  generalize (if 55 < c.messageBlockIndex then
      putZeros (sha1ProcessMessageBlock (putZeros (putOctets c [0x80]) 64)) 56
    else putZeros (putOctets c [0x80]) 56) = c' at hfilled hcount habsorbed ⊢
  have hlength : wordOctets c'.lengthHigh ++ wordOctets c'.lengthLow =
      beBytes 8 (8 * m.length) := by
    rw [wordOctets_eq, wordOctets_eq, hcount.low, hcount.high, ← h.length]
    exact (beBytes_add 4 4 _ c.lengthLow.toNat_lt).symm
  have hlast := store_take c'.messageBlock 56 (beBytes 8 (8 * m.length)) (by rw [beBytes_length])
  have htake := hfilled.take
  rw [hbuffer] at htake
  rw [beBytes_length, List.take_of_length_le (by rw [Vector.length_toList]), htake] at hlast
  have hfill := habsorbed.fill (l := beBytes 8 (8 * m.length)) (Nat.succ_pos 63)
    (by rw [List.length_append, beBytes_length, hbuffer])
  rw [← padMessage_eq _ rfl] at hfill
  rw [process_hash, process_corrupted, hlength, hlast]
  refine ⟨?_, hcount.corrupted.trans h.corrupted⟩
  rw [digestOctets_eq, sha1]
  dsimp only
  have hfold := foldBlocks_of_absorbed hfill
  unfold initialHash at hfold
  rw [hfold]

/-! ## The refinement -/

/-- The context stands for the phase. -/
def Shows (c : Context) : Phase → Prop
  | .hashing m => Hashing m c
  | .computed m => c.computed = true ∧ c.corrupted = 0 ∧ digestOctets c.intermediateHash = sha1 m
  | .corrupted code => c.corrupted = code ∧ code ≠ 0 ∧ (c.computed = true → code = shaStateError)

theorem sha1Input_spec {c : Context} {p : Phase} (h : Shows c p) {message : Bytes}
    (hne : message ≠ []) :
    .status (sha1Input c message).1 = (p.input message).1 ∧
    Shows (sha1Input c message).2 (p.input message).2 := by
  have hlength : ¬message.length = 0 := mt List.length_eq_zero_iff.mp hne
  rw [sha1Input, if_neg hlength]
  cases p with
  | hashing m =>
      obtain ⟨hnext, hover⟩ := inputOctets_spec h message
      have hcomputed : ¬c.computed = true := by rw [h.computed]; decide
      rw [if_neg hcomputed, if_neg (not_not_intro h.corrupted), Phase.input]
      refine ⟨rfl, ?_⟩
      by_cases hlt : (m ++ message).length < 2 ^ 61
      · rw [if_pos hlt]
        exact hnext hlt
      · rw [if_neg hlt]
        obtain ⟨hone, hnot⟩ := hover hlt
        exact ⟨hone, Nat.one_ne_zero, fun hc => absurd (hnot.symm.trans hc) Bool.false_ne_true⟩
  | computed m =>
      rw [if_pos h.1, Phase.input]
      exact ⟨rfl, rfl, by decide, fun _ => rfl⟩
  | corrupted code =>
      obtain ⟨hcode, hcne, hstate⟩ := h
      rw [Phase.input]
      by_cases hcomputed : c.computed = true
      · rw [if_pos hcomputed, hstate hcomputed]
        exact ⟨rfl, rfl, by decide, fun _ => rfl⟩
      · rw [if_neg hcomputed, if_pos (by rwa [hcode]), hcode]
        exact ⟨rfl, hcode, hcne, hstate⟩

theorem sha1Result_spec {c : Context} {p : Phase} (h : Shows c p) :
    .ofResult (sha1Result c).1 = p.result.1 ∧ Shows (sha1Result c).2 p.result.2 := by
  rw [sha1Result]
  cases p with
  | hashing m =>
      have hcomputed : ¬c.computed = true := by rw [h.computed]; decide
      obtain ⟨hdigest, hcorrupted⟩ := sha1PadMessage_spec h
      rw [if_neg (not_not_intro h.corrupted), if_neg hcomputed, Phase.result, ← hdigest]
      exact ⟨rfl, rfl, hcorrupted, hdigest⟩
  | computed m =>
      rw [if_neg (not_not_intro h.2.1), if_pos h.1, Phase.result, ← h.2.2]
      exact ⟨rfl, h⟩
  | corrupted code =>
      have hne : c.corrupted ≠ 0 := by rw [h.1]; exact h.2.1
      rw [if_pos hne, Phase.result, h.1]
      exact ⟨rfl, h⟩

/-- **A call.** -/
theorem call_spec (c : Context) (p : Phase) (e : Call) (h : Shows c p) :
    (c.call e).1 = (p.call e).1 ∧ Shows (c.call e).2 (p.call e).2 := by
  cases e with
  | reset => exact ⟨rfl, hashing_reset c⟩
  | input message =>
      rw [Context.call, Phase.call]
      by_cases hnil : message = []
      · rw [if_pos hnil, sha1Input, if_pos (by rw [hnil]; rfl)]
        exact ⟨rfl, h⟩
      · rw [if_neg hnil]
        exact sha1Input_spec h hnil
  | result => exact sha1Result_spec h

/-- **SHA-1 in pieces**: whatever the list of calls after a reset. -/
theorem sha1_refines (c : Context) (es : List Call) :
    answers Context.call (sha1Reset c) es = answers Phase.call (.hashing []) es :=
  answers_eq_of_forall call_spec es (hashing_reset c)

end BroadcomWl.Crypto.Sha1
