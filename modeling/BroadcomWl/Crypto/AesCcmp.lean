import BroadcomWl.Crypto.AesCcm
import BroadcomWl.Crypto.Hash

/-!
# AES in CCMP mode

`aes_ccmp_cal_params`, `aes_ccmp_encrypt` and `aes_ccmp_decrypt` of `aes.c`, for a frame in memory.
The local arrays for the nonce and the additional data are in memory, too, apart from the frame.
Frames are as without `MFP`.

**What the header is bound by.** `calParams_eq` says what nonce and additional data are, as strings.
`params_eq_iff` compares two headers: nonce, additional data and length are equal exactly if the
headers have the same immutable fields.

**Round trip.** What has been encrypted is decrypted to the same text, whatever has become of the
other fields (`ccmp_correct`). -/

namespace BroadcomWl.Crypto.AesCcmp

open BroadcomWl.Nas (Bytes Mem)
open BroadcomWl.Lib.Memory
open BroadcomWl.Crypto (leBytes leBytes_length)
open BroadcomWl.Crypto.KeyWrap (Mem.write write_slice write_append write_apply_of_not_mem)
open BroadcomWl.Crypto.AesCbc (Block)
open BroadcomWl.Crypto.AesCcm

/-! ## The code -/

/-- `AES_CCMP_FC_MASK`, as a `uint16` -/
def fcMask : Nat := 0xffff ^^^ (0x0070 ||| 0x800 ||| 0x1000 ||| 0x2000)

/-- `AES_CCMP_LEGACY_FC_MASK`, as a `uint16` -/
def legacyFcMask : Nat := 0xffff ^^^ 0x800

/-- `AES_CCMP_SEQ_MASK` -/
def seqMask : Nat := 0x000f

/-- `AES_CCMP_LEGACY_SEQ_MASK` -/
def legacySeqMask : Nat := 0x0000

/-- `AES_CCMP_QOS_MASK` -/
def qosMask : Nat := 0x000f

/-- `AES_CCMP_LEGACY_QOS_MASK` -/
def legacyQosMask : Nat := 0xffff

/-- A frame control with four addresses. -/
def wds (fc : Nat) : Bool := fc &&& (0x100 ||| 0x200) == (0x100 ||| 0x200)

/-- A frame control with a QoS control behind the addresses. -/
def qos (fc : Nat) : Bool :=
  let subtype := (fc &&& 0xf0) >>> 4
  (fc &&& 0xc) >>> 2 == 2 && subtype &&& 8 != 0

/-- `addlen` -/
def addlen (fc : Nat) : Nat := (if wds fc then 6 else 0) + if qos fc then 2 else 0

/-- A write with a pointer that is advanced. -/
def put (s : Mem × Nat) (b : Bytes) : Mem × Nat := (Mem.write s.1 s.2 b, s.2 + b.length)

/-- The part of `aes_ccmp_cal_params` for the nonce. -/
def calNonce (h ivData : Nat) (nonce1stByte : UInt8) (s : Mem × Nat) : Mem × Nat :=
  let s := put s [nonce1stByte]
  let s := put s (s.1.slice (h + 10) 6)
  [7, 6, 5, 4, 1, 0].foldl (fun s i => put s [s.1 (ivData + i)]) s

/-- The part for the additional data. -/
def calAad (h : Nat) (legacy : Bool) (fc qc : Nat) (s : Mem × Nat) : Mem × Nat :=
  let s := put s (leBytes 2 (fc &&& if legacy then legacyFcMask else fcMask))
  let s := put s (s.1.slice (h + 4) 18)
  let s := put s (leBytes 2 (s.1.le16 (h + 22) &&& if legacy then legacySeqMask else seqMask))
  let s := if wds fc then put s (s.1.slice (h + 24) 6) else s
  if qos fc then put s (leBytes 2 (qc &&& if legacy then legacyQosMask else qosMask)) else s

/-- What `aes_ccmp_cal_params` leaves: the memory, the pointer `aad` behind what it has written, and
the lengths. -/
structure Params where
  mem : Mem
  aad : Nat
  la : Nat
  lh : Nat

/-- `aes_ccmp_cal_params` -/
def aesCcmpCalParams (h : Nat) (legacy : Bool) (nonce1stByte : UInt8) (nonce aad : Nat)
    (mem : Mem) : Params :=
  let mem := Mem.write mem nonce (List.replicate 13 0)
  let mem := Mem.write mem aad (List.replicate 30 0)
  let fc := mem.le16 h
  let qc := if qos fc then mem.le16 (h + if wds fc then 30 else 24) else 0
  let lh := 24 + 8 + addlen fc
  let la := 22 + addlen fc
  let ivData := h + 24 + addlen fc
  let s := calNonce h ivData nonce1stByte (mem, nonce)
  let s := calAad h legacy fc qc (s.1, aad)
  ⟨s.1, s.2, la, lh⟩

section

variable (w : Nat) (E : Block → Block)

/-- `aes_ccmp_encrypt` -/
def aesCcmpEncrypt (nonce aad dataLen p : Nat) (legacy : Bool) (nonce1stByte : UInt8) (mem : Mem) :
    Int × Mem :=
  let r := aesCcmpCalParams p legacy nonce1stByte nonce aad mem
  let (status, mem) :=
    aesCcmEncrypt E nonce r.la aad (subSize w dataLen r.lh) (p + r.lh) (p + r.lh)
      (p + dataLen) r.mem
  (if status ≠ 0 then -1 else 0, mem)

/-- `aes_ccmp_decrypt` -/
def aesCcmpDecrypt (nonce aad dataLen p : Nat) (legacy : Bool) (nonce1stByte : UInt8) (mem : Mem) :
    Int × Mem :=
  let r := aesCcmpCalParams p legacy nonce1stByte nonce aad mem
  let (status, mem) :=
    aesCcmDecrypt w E nonce r.la aad (subSize w dataLen r.lh) (p + r.lh) (p + r.lh) r.mem
  (if status ≠ 0 then -2 else 0, mem)

end

/-! ## Headers -/

/-- The length of a header, with the initialization vector. -/
def headerLen (mem : Mem) (h : Nat) : Nat := 32 + addlen (mem.le16 h)

/-- The QoS control of a header that has one. -/
def qosControl (mem : Mem) (h : Nat) : Nat := mem.le16 (h + if wds (mem.le16 h) then 30 else 24)

/-- The packet number, its octets 5 to 0. -/
def packetNumber (mem : Mem) (h : Nat) : Bytes :=
  [7, 6, 5, 4, 1, 0].map fun i => mem (h + 24 + addlen (mem.le16 h) + i)

/-- Two headers have the same immutable fields. -/
structure SameFields (mem : Mem) (h : Nat) (mem' : Mem) (h' : Nat) : Prop where
  fc : mem.le16 h &&& fcMask = mem'.le16 h' &&& fcMask
  a1 : mem.slice (h + 4) 6 = mem'.slice (h' + 4) 6
  a2 : mem.slice (h + 10) 6 = mem'.slice (h' + 10) 6
  a3 : mem.slice (h + 16) 6 = mem'.slice (h' + 16) 6
  fragment : mem.le16 (h + 22) &&& seqMask = mem'.le16 (h' + 22) &&& seqMask
  pn : packetNumber mem h = packetNumber mem' h'
  a4 : wds (mem.le16 h) → mem.slice (h + 24) 6 = mem'.slice (h' + 24) 6
  tid : qos (mem.le16 h) → qosControl mem h &&& qosMask = qosControl mem' h' &&& qosMask

/-- The nonce for a header. -/
def nonceOf (nonce1stByte : UInt8) (mem : Mem) (h : Nat) : Bytes :=
  nonce1stByte :: (mem.slice (h + 10) 6 ++ packetNumber mem h)

/-- The additional data for a frame control and a QoS control. -/
def aadFor (legacy : Bool) (mem : Mem) (h fc qc : Nat) : Bytes :=
  leBytes 2 (fc &&& if legacy then legacyFcMask else fcMask) ++ mem.slice (h + 4) 18 ++
    leBytes 2 (mem.le16 (h + 22) &&& if legacy then legacySeqMask else seqMask) ++
    (if wds fc then mem.slice (h + 24) 6 else []) ++
    if qos fc then leBytes 2 (qc &&& if legacy then legacyQosMask else qosMask) else []

/-- The additional data for a header. -/
def aadOf (legacy : Bool) (mem : Mem) (h : Nat) : Bytes :=
  aadFor legacy mem h (mem.le16 h) (qosControl mem h)

/-- The local arrays are apart from each other and from some octets of a frame. -/
structure Locals (h len nonce aad : Nat) : Prop where
  arrays : Apart nonce 13 aad 30
  nonce : Apart h len nonce 13
  aad : Apart h len aad 30

theorem leBytes_inj {v v' : Nat} (h : v < 2 ^ 16) (h' : v' < 2 ^ 16) :
    leBytes 2 v = leBytes 2 v' ↔ v = v' := by
  refine ⟨fun heq => ?_, fun heq => by rw [heq]⟩
  obtain ⟨hlow, hrest⟩ := List.cons.inj heq
  have hhigh : UInt8.ofNat (v >>> 8) = UInt8.ofNat (v' >>> 8) := (List.cons.inj hrest).1
  rw [← UInt8.toNat_inj, UInt8.toNat_ofNat', UInt8.toNat_ofNat'] at hlow hhigh
  rw [Nat.shiftRight_eq_div_pow, Nat.shiftRight_eq_div_pow] at hhigh
  omega

theorem and_lt {v m : Nat} (h : m < 2 ^ 16) : v &&& m < 2 ^ 16 := lt_of_le_of_lt Nat.and_le_right h

/-- **The mask** leaves what the layout depends on. -/
theorem wds_and (fc : Nat) : wds (fc &&& fcMask) = wds fc := by
  have hbits : fcMask &&& (0x100 ||| 0x200) = 0x100 ||| 0x200 := by decide
  rw [wds, wds, Nat.and_assoc, hbits]

theorem qos_and (fc : Nat) : qos (fc &&& fcMask) = qos fc := by
  have htype : fcMask &&& 0xc = 0xc := by decide
  have hsubtype : ∀ v, ((v &&& 0xf0) >>> 4) &&& 8 = (v &&& 0x80) >>> 4 := by
    intro v
    have height : (8 : Nat) = 0x80 >>> 4 := rfl
    have hbit : 0xf0 &&& 0x80 = 0x80 := by decide
    rw [height, ← Nat.shiftRight_and_distrib, Nat.and_assoc, hbit]
  have hbit : fcMask &&& 0x80 = 0x80 := by decide
  simp only [qos, hsubtype]
  simp only [Nat.and_assoc, htype, hbit]

theorem addlen_and (fc : Nat) : addlen (fc &&& fcMask) = addlen fc := by
  rw [addlen, wds_and, qos_and, addlen]

theorem addlen_le (fc : Nat) : addlen fc ≤ 8 := by
  unfold addlen
  split <;> split <;> decide

/-! ## The parameters -/

section

variable {m m' mem : Mem} {h h' nonce aad : Nat}

theorem write_nil (mem : Mem) (addr : Nat) : Mem.write mem addr [] = mem := by
  funext x
  apply write_apply_of_not_mem
  rw [List.length_nil]
  omega

theorem put_nil (s : Mem × Nat) : put s [] = s := by
  rw [put, write_nil, List.length_nil, Nat.add_zero]

/-- **One write after the other** is a write of both. -/
theorem put_append (mem : Mem) (addr : Nat) (b c : Bytes) :
    put (Mem.write mem addr b, addr + b.length) c =
      (Mem.write mem addr (b ++ c), addr + (b ++ c).length) := by
  rw [put, write_append, List.length_append, Nat.add_assoc]

theorem start_put (mem : Mem) (addr : Nat) :
    (mem, addr) = (Mem.write mem addr [], addr + ([] : Bytes).length) := by
  rw [write_nil, List.length_nil, Nat.add_zero]

theorem foldl_put (mem : Mem) (addr off : Nat) (l : List Nat) (b : Bytes)
    (hl : ∀ i ∈ l, ¬(addr ≤ off + i ∧ off + i < addr + (b.length + l.length))) :
    l.foldl (fun s i => put s [s.1 (off + i)]) (Mem.write mem addr b, addr + b.length) =
      (Mem.write mem addr (b ++ l.map fun i => mem (off + i)),
        addr + (b ++ l.map fun i => mem (off + i)).length) := by
  induction l generalizing b with
  | nil => rw [List.foldl_nil, List.map_nil, List.append_nil]
  | cons i l ih =>
      have hread : Mem.write mem addr b (off + i) = mem (off + i) := by
        apply write_apply_of_not_mem
        have hi := hl i List.mem_cons_self
        rw [List.length_cons] at hi
        omega
      rw [List.foldl_cons, put_append]
      simp only [hread]
      rw [ih, List.map_cons, List.append_assoc]
      · rfl
      · intro j hj
        have hnot := hl j (List.mem_cons_of_mem i hj)
        rw [List.length_append, List.length_singleton]
        rw [List.length_cons] at hnot
        omega

/-- The header is as in the other memory. -/
def Agree (h n : Nat) (m mem : Mem) : Prop := ∀ i < n, m (h + i) = mem (h + i)

theorem Agree.slice {n o k : Nat} (hagree : Agree h n m mem) (hk : o + k ≤ n) :
    m.slice (h + o) k = mem.slice (h + o) k := by
  apply Nas.Mem.slice_congr
  intro i hi
  rw [Nat.add_assoc]
  exact hagree (o + i) (by omega)

theorem Agree.le16 {n o : Nat} (hagree : Agree h n m mem) (hk : o + 2 ≤ n) :
    m.le16 (h + o) = mem.le16 (h + o) := by
  rw [Nas.Mem.le16, Nas.Mem.le16, hagree o (by omega), Nat.add_assoc, hagree (o + 1) (by omega)]

theorem agree_write {b : Bytes} {addr n : Nat} (hapart : Apart h n addr b.length) :
    Agree h n (Mem.write mem addr b) mem :=
  fun _ hi => write_apply_of_not_mem (hapart.not_mem hi)

theorem calNonce_eq {n : Nat} (m : Mem) (nonce1stByte : UInt8) (off : Nat)
    (hapart : Apart h n nonce 13) (hoff : 16 ≤ off) (hn : off + 8 ≤ n) :
    calNonce h (h + off) nonce1stByte (m, nonce) =
      (Mem.write m nonce
        (nonce1stByte :: (m.slice (h + 10) 6 ++ [7, 6, 5, 4, 1, 0].map fun i => m (h + off + i))),
        nonce + 13) := by
  have hfirst : Agree h n (Mem.write m nonce [nonce1stByte]) m :=
    agree_write (hapart.mono le_rfl le_rfl le_rfl (by rw [List.length_singleton]; omega))
  have ha2 := hfirst.slice (o := 10) (k := 6) (by omega)
  have hcopy :=
      foldl_put m nonce (h + off) [7, 6, 5, 4, 1, 0] ([nonce1stByte] ++ m.slice (h + 10) 6)
        fun i hi => by
    have hlen : i < 8 := by
      revert i
      decide
    have hnot := hapart.not_mem (show off + i < n by omega)
    rw [List.length_append, Nas.Mem.slice_length, List.length_singleton]
    simp only [List.length_cons, List.length_nil]
    omega
  rw [calNonce, start_put]
  simp only [put_append, List.nil_append, ha2]
  rw [hcopy]
  rfl

/-- **The additional data.** -/
theorem calAad_eq {n : Nat} (m : Mem) (legacy : Bool) (fc qc : Nat) (hapart : Apart h n aad 30)
    (hn : 30 ≤ n) :
    calAad h legacy fc qc (m, aad) =
      (Mem.write m aad (aadFor legacy m h fc qc), aad + (aadFor legacy m h fc qc).length) := by
  have hread : ∀ b : Bytes, b.length ≤ 30 → Agree h n (Mem.write m aad b) m :=
    fun b hb => agree_write (hapart.mono le_rfl le_rfl le_rfl (by omega))
  have hif : ∀ (p : Bool) (s : Mem × Nat) (b : Bytes), (if p then put s b else s) =
      put s (if p then b else []) := by
    intro p s b
    cases p with
    | true => rfl
    | false => exact (put_nil s).symm
  obtain ⟨first, hfirst⟩ : ∃ b, b = leBytes 2 (fc &&& if legacy then legacyFcMask else fcMask) :=
    ⟨_, rfl⟩
  obtain ⟨seq, hseq⟩ : ∃ b,
      b = leBytes 2 (m.le16 (h + 22) &&& if legacy then legacySeqMask else seqMask) := ⟨_, rfl⟩
  have hfirstLen : first.length = 2 := by rw [hfirst, leBytes_length]
  have hseqLen : seq.length = 2 := by rw [hseq, leBytes_length]
  have haddr : (Mem.write m aad first).slice (h + 4) 18 = m.slice (h + 4) 18 :=
    (hread first (by omega)).slice (by omega)
  have hcontrol : (Mem.write m aad (first ++ m.slice (h + 4) 18)).le16 (h + 22) = m.le16 (h + 22) :=
    (hread _ (by rw [List.length_append, Nas.Mem.slice_length]; omega)).le16 (by omega)
  have ha4 : (Mem.write m aad (first ++ m.slice (h + 4) 18 ++ seq)).slice (h + 24) 6 =
      m.slice (h + 24) 6 :=
    (hread _ (by rw [List.length_append, List.length_append, Nas.Mem.slice_length]; omega)).slice
      (by omega)
  rw [calAad, start_put]
  simp only [hif]
  simp only [← hfirst, put_append, List.nil_append, haddr, hcontrol, ← hseq, ha4]
  rw [aadFor, ← hfirst, ← hseq]

/-! ### Strings -/

@[simp] theorem packetNumber_length (mem : Mem) (h : Nat) : (packetNumber mem h).length = 6 := rfl

theorem nonceOf_length (nonce1stByte : UInt8) (mem : Mem) (h : Nat) :
    (nonceOf nonce1stByte mem h).length = 13 := by
  rw [nonceOf, List.length_cons, List.length_append, Nas.Mem.slice_length, packetNumber_length]

theorem aadFor_length (legacy : Bool) (mem : Mem) (h fc qc : Nat) :
    (aadFor legacy mem h fc qc).length = 22 + addlen fc := by
  have ha4 : (if wds fc then mem.slice (h + 24) 6 else []).length = if wds fc then 6 else 0 := by
    rw [apply_ite List.length, Nas.Mem.slice_length, List.length_nil]
  have hqc :
      (if qos fc then leBytes 2 (qc &&& if legacy then legacyQosMask else qosMask) else []).length =
      if qos fc then 2 else 0 := by
    rw [apply_ite List.length, leBytes_length, List.length_nil]
  rw [aadFor, List.length_append, List.length_append, List.length_append, List.length_append, ha4,
    hqc, leBytes_length, leBytes_length, Nas.Mem.slice_length, addlen, ← Nat.add_assoc]

theorem aadFor_qosControl (legacy : Bool) (mem : Mem) (h fc qc : Nat) :
    aadFor legacy mem h fc (if qos fc then qc else 0) = aadFor legacy mem h fc qc := by
  by_cases hqos : qos fc
  · rw [if_pos hqos]
  · rw [aadFor, aadFor, if_neg hqos, if_neg hqos]

theorem Agree.fc (hagree : Agree h (headerLen mem h) m mem) : m.le16 h = mem.le16 h :=
  hagree.le16 (o := 0) (by rw [headerLen]; omega)

theorem Agree.headerLen (hagree : Agree h (headerLen mem h) m mem) :
    headerLen m h = headerLen mem h := by
  rw [AesCcmp.headerLen, AesCcmp.headerLen, hagree.fc]

theorem Agree.packetNumber (hagree : Agree h (AesCcmp.headerLen mem h) m mem) :
    packetNumber m h = packetNumber mem h := by
  apply List.map_congr_left
  intro i hi
  have hlen : i < 8 := by
    revert i
    decide
  rw [hagree.fc, Nat.add_assoc, Nat.add_assoc]
  apply hagree
  rw [AesCcmp.headerLen]
  omega

theorem Agree.nonceOf (hagree : Agree h (AesCcmp.headerLen mem h) m mem) (nonce1stByte : UInt8) :
    nonceOf nonce1stByte m h = nonceOf nonce1stByte mem h := by
  rw [AesCcmp.nonceOf, AesCcmp.nonceOf, hagree.packetNumber,
    hagree.slice (by rw [AesCcmp.headerLen]; omega)]

theorem Agree.qosControl (hagree : Agree h (AesCcmp.headerLen mem h) m mem) :
    qosControl m h = qosControl mem h := by
  rw [AesCcmp.qosControl, AesCcmp.qosControl, hagree.fc]
  apply hagree.le16
  rw [AesCcmp.headerLen]
  split <;> omega

theorem Agree.aadFor {n : Nat} (hagree : Agree h n m mem) (hn : 30 ≤ n) (legacy : Bool)
    (fc qc : Nat) :
    aadFor legacy m h fc qc = aadFor legacy mem h fc qc := by
  rw [AesCcmp.aadFor, AesCcmp.aadFor, hagree.slice (o := 4) (by omega),
    hagree.le16 (o := 22) (by omega), hagree.slice (o := 24) (by omega)]

theorem Agree.aadOf (hagree : Agree h (AesCcmp.headerLen mem h) m mem) (legacy : Bool) :
    aadOf legacy m h = aadOf legacy mem h := by
  rw [AesCcmp.aadOf, AesCcmp.aadOf, hagree.fc, hagree.qosControl,
    hagree.aadFor (by rw [AesCcmp.headerLen]; omega)]

/-! ### Parameters -/

/-- The parameters for a header. -/
structure Computed (legacy : Bool) (nonce1stByte : UInt8) (mem : Mem) (h nonce aad : Nat)
    (r : Params) : Prop where
  nonceOctets : r.mem.slice nonce 13 = nonceOf nonce1stByte mem h
  aadOctets : r.mem.slice aad r.la = aadOf legacy mem h
  written : r.aad = aad + r.la
  la : r.la = 22 + addlen (mem.le16 h)
  lh : r.lh = headerLen mem h
  behind : ∀ i, r.la ≤ i → i < 30 → r.mem (aad + i) = 0
  outside : ∀ x, ¬(nonce ≤ x ∧ x < nonce + 13) → ¬(aad ≤ x ∧ x < aad + 30) → r.mem x = mem x

/-- **`aes_ccmp_cal_params`** -/
theorem calParams_eq (legacy : Bool) (nonce1stByte : UInt8)
    (hl : Locals h (headerLen mem h) nonce aad) :
    Computed legacy nonce1stByte mem h nonce aad
      (aesCcmpCalParams h legacy nonce1stByte nonce aad mem) := by
  have hle := addlen_le (mem.le16 h)
  have hlen : headerLen mem h = 32 + addlen (mem.le16 h) := rfl
  obtain ⟨mem₀, hmem₀⟩ :
      ∃ m, m = Mem.write (Mem.write mem nonce (List.replicate 13 0)) aad (List.replicate 30 0) :=
    ⟨_, rfl⟩
  have hzero : Agree h (headerLen mem h) mem₀ mem := by
    intro i hi
    rw [hmem₀, write_apply_of_not_mem, write_apply_of_not_mem]
    · rw [List.length_replicate]
      exact hl.nonce.not_mem hi
    · rw [List.length_replicate]
      exact hl.aad.not_mem hi
  have hfc : mem₀.le16 h = mem.le16 h := hzero.fc
  have hqc : mem₀.le16 (h + if wds (mem.le16 h) then 30 else 24) = qosControl mem h := by
    rw [← hzero.qosControl, qosControl, hfc]
  have hnonce : calNonce h (h + 24 + addlen (mem.le16 h)) nonce1stByte (mem₀, nonce) =
      (Mem.write mem₀ nonce (nonceOf nonce1stByte mem h), nonce + 13) := by
    have hcal :=
      calNonce_eq mem₀ nonce1stByte (24 + addlen (mem.le16 h)) hl.nonce (by omega) (by omega)
    rw [← Nat.add_assoc] at hcal
    rw [hcal, ← hzero.nonceOf, nonceOf, packetNumber, hfc]
  have hagree :
      Agree h (headerLen mem h) (Mem.write mem₀ nonce (nonceOf nonce1stByte mem h)) mem := by
    intro i hi
    rw [← hzero i hi]
    exact agree_write (by rw [nonceOf_length]; exact hl.nonce) i hi
  have haad := calAad_eq (Mem.write mem₀ nonce (nonceOf nonce1stByte mem h)) legacy (mem.le16 h)
    (if qos (mem.le16 h) then qosControl mem h else 0) hl.aad (by omega)
  rw [hagree.aadFor (by omega), aadFor_qosControl, ← aadOf] at haad
  have haadLen : (aadOf legacy mem h).length = 22 + addlen (mem.le16 h) := aadFor_length _ _ _ _ _
  have hresult : aesCcmpCalParams h legacy nonce1stByte nonce aad mem =
      ⟨Mem.write (Mem.write mem₀ nonce (nonceOf nonce1stByte mem h)) aad (aadOf legacy mem h),
        aad + (22 + addlen (mem.le16 h)), 22 + addlen (mem.le16 h), 32 + addlen (mem.le16 h)⟩ := by
    simp only [aesCcmpCalParams, ← hmem₀, hfc, hqc, hnonce, haad, haadLen]
  rw [hresult]
  refine ⟨?_, ?_, rfl, rfl, rfl, fun i hla hi => ?_, fun x hx hx' => ?_⟩
  · have hkept :
        Mem.slice (Mem.write (Mem.write mem₀ nonce (nonceOf nonce1stByte mem h)) aad
        (aadOf legacy mem h)) nonce
        13 = Mem.slice (Mem.write mem₀ nonce (nonceOf nonce1stByte mem h)) nonce 13 := by
      apply Nas.Mem.slice_congr
      intro i hi
      apply write_apply_of_not_mem
      have hnot := hl.arrays.not_mem hi
      omega
    have hwrite := write_slice mem₀ nonce (nonceOf nonce1stByte mem h)
    rw [nonceOf_length] at hwrite
    exact hkept.trans hwrite
  · have hwrite :=
      write_slice (Mem.write mem₀ nonce (nonceOf nonce1stByte mem h)) aad (aadOf legacy mem h)
    rwa [haadLen] at hwrite
  · simp only at hla ⊢
    have hnot := hl.arrays.symm.not_mem hi
    rw [write_apply_of_not_mem (by omega),
      write_apply_of_not_mem (by rw [nonceOf_length]; exact hnot), hmem₀, Mem.write,
      if_pos (by rw [List.length_replicate]; omega), List.getD_replicate]
    omega
  · simp only
    rw [write_apply_of_not_mem (by omega),
      write_apply_of_not_mem (by rw [nonceOf_length]; exact hx), hmem₀,
      write_apply_of_not_mem (by rw [List.length_replicate]; exact hx'),
      write_apply_of_not_mem (by rw [List.length_replicate]; exact hx)]

/-! ### Two headers -/

theorem nonceOf_eq_iff (nonce1stByte : UInt8) :
    nonceOf nonce1stByte mem h = nonceOf nonce1stByte m' h' ↔
      mem.slice (h + 10) 6 = m'.slice (h' + 10) 6 ∧ packetNumber mem h = packetNumber m' h' := by
  rw [nonceOf, nonceOf, List.cons_inj_right]
  refine ⟨fun heq => List.append_inj heq ?_, fun heq => ?_⟩
  · rw [Nas.Mem.slice_length, Nas.Mem.slice_length]
  · rw [heq.1, heq.2]

theorem slice_addresses (mem : Mem) (h : Nat) :
    mem.slice (h + 4) 18 =
      mem.slice (h + 4) 6 ++ (mem.slice (h + 10) 6 ++ mem.slice (h + 16) 6) := by
  have hsplit := Nas.Mem.slice_add mem (h + 4) 6 (6 + 6)
  rwa [Nas.Mem.slice_add] at hsplit

theorem append_eq_iff {a a' b b' : Bytes} (hlen : a.length = a'.length) :
    a ++ b = a' ++ b' ↔ a = a' ∧ b = b' := by
  refine ⟨fun heq => List.append_inj heq hlen, fun heq => ?_⟩
  rw [heq.1, heq.2]

theorem addresses_eq_iff :
    mem.slice (h + 4) 18 = m'.slice (h' + 4) 18 ↔
      mem.slice (h + 4) 6 = m'.slice (h' + 4) 6 ∧ mem.slice (h + 10) 6 = m'.slice (h' + 10) 6 ∧
        mem.slice (h + 16) 6 = m'.slice (h' + 16) 6 := by
  rw [slice_addresses, slice_addresses,
    append_eq_iff (by rw [Nas.Mem.slice_length, Nas.Mem.slice_length]),
    append_eq_iff (by rw [Nas.Mem.slice_length, Nas.Mem.slice_length])]

theorem ite_nil_eq_iff {p : Bool} {b b' : Bytes} :
    (if p then b else []) = (if p then b' else []) ↔ (p → b = b') := by
  cases p with
  | true => simp
  | false => simp

theorem aadOf_eq_iff :
    aadOf false mem h = aadOf false m' h' ↔
      mem.le16 h &&& fcMask = m'.le16 h' &&& fcMask ∧ mem.slice (h + 4) 18 = m'.slice (h' + 4) 18 ∧
        mem.le16 (h + 22) &&& seqMask = m'.le16 (h' + 22) &&& seqMask ∧
        (wds (mem.le16 h) → mem.slice (h + 24) 6 = m'.slice (h' + 24) 6) ∧
        (qos (mem.le16 h) → qosControl mem h &&& qosMask = qosControl m' h' &&& qosMask) := by
  have hoctets : ∀ {v v' mask : Nat}, mask < 2 ^ 16 →
      (leBytes 2 (v &&& mask) = leBytes 2 (v' &&& mask) ↔ v &&& mask = v' &&& mask) :=
    fun hmask => leBytes_inj (and_lt hmask) (and_lt hmask)
  simp only [aadOf, aadFor, Bool.false_eq_true, if_false, List.append_assoc]
  rw [append_eq_iff (by rw [leBytes_length, leBytes_length]), hoctets (by decide)]
  apply and_congr_right
  intro hmask
  have hwds : wds (m'.le16 h') = wds (mem.le16 h) := by rw [← wds_and, ← hmask, wds_and]
  have hqos : qos (m'.le16 h') = qos (mem.le16 h) := by rw [← qos_and, ← hmask, qos_and]
  have ha4 : (if wds (mem.le16 h) then mem.slice (h + 24) 6 else []).length =
      (if wds (mem.le16 h) then m'.slice (h' + 24) 6 else []).length := by
    rw [apply_ite List.length, apply_ite List.length, Nas.Mem.slice_length, Nas.Mem.slice_length]
  rw [hwds, hqos, append_eq_iff (by rw [Nas.Mem.slice_length, Nas.Mem.slice_length]),
    append_eq_iff (by rw [leBytes_length, leBytes_length]), hoctets (by decide), append_eq_iff ha4,
    ite_nil_eq_iff, ite_nil_eq_iff, hoctets (by decide)]

theorem headerLen_eq (hmask : mem.le16 h &&& fcMask = m'.le16 h' &&& fcMask) :
    headerLen mem h = headerLen m' h' := by
  rw [headerLen, headerLen, ← addlen_and, hmask, addlen_and]

/-- **What is bound**: the immutable fields, and nothing else. -/
theorem sameFields_iff (nonce1stByte : UInt8) :
    (nonceOf nonce1stByte mem h = nonceOf nonce1stByte m' h' ∧
      aadOf false mem h = aadOf false m' h' ∧
        headerLen mem h = headerLen m' h') ↔ SameFields mem h m' h' := by
  rw [nonceOf_eq_iff, aadOf_eq_iff, addresses_eq_iff]
  refine ⟨fun heq => ?_, fun heq => ?_⟩
  · obtain ⟨⟨ha2, hpn⟩, ⟨hfc, ⟨ha1, -, ha3⟩, hfragment, ha4, htid⟩, -⟩ := heq
    exact ⟨hfc, ha1, ha2, ha3, hfragment, hpn, ha4, htid⟩
  · exact ⟨⟨heq.a2, heq.pn⟩, ⟨heq.fc, ⟨heq.a1, heq.a2, heq.a3⟩, heq.fragment, heq.a4, heq.tid⟩,
      headerLen_eq heq.fc⟩

end

/-! ## Encryption and decryption -/

/-- The nonce as the mode takes it. -/
def nonceArray (nonce1stByte : UInt8) (mem : Mem) (h : Nat) : Fin 13 → UInt8 :=
  fun i => (nonceOf nonce1stByte mem h).getD i 0

section

variable {w : Nat} {E : Block → Block} {mem : Mem} {p nonce aad dataLen : Nat}

theorem Computed.load {legacy : Bool} {nonce1stByte : UInt8} {r : Params}
    (h : Computed legacy nonce1stByte mem p nonce aad r) :
    load r.mem nonce = nonceArray nonce1stByte mem p := by
  funext i
  rw [load_apply, nonceArray, ← h.nonceOctets, Nas.Mem.slice_getD _ _ i.isLt]

theorem Computed.la_le {legacy : Bool} {nonce1stByte : UInt8} {r : Params}
    (h : Computed legacy nonce1stByte mem p nonce aad r) : r.la ≤ 30 := by
  have hle := addlen_le (mem.le16 p)
  rw [h.la]
  omega

theorem Computed.agree {legacy : Bool} {nonce1stByte : UInt8} {r : Params} {n : Nat}
    (h : Computed legacy nonce1stByte mem p nonce aad r) (hl : Locals p n nonce aad) :
    Agree p n r.mem mem :=
  fun _ hi => h.outside _ (hl.nonce.not_mem hi) (hl.aad.not_mem hi)

theorem Locals.mono {n k : Nat} (hl : Locals p n nonce aad) (hk : k ≤ n) : Locals p k nonce aad :=
  ⟨hl.arrays, hl.nonce.mono le_rfl (by omega) le_rfl le_rfl,
    hl.aad.mono le_rfl (by omega) le_rfl le_rfl⟩

/-- **`aes_ccmp_encrypt`** puts the encryption in the place of the body, and leaves the header. -/
theorem aesCcmpEncrypt_spec (E : Block → Block) (legacy : Bool) (nonce1stByte : UInt8)
    (hheader : headerLen mem p ≤ dataLen) (hsize : dataLen < 2 ^ w)
    (hbody : dataLen - headerLen mem p ≤ 16 * aesCtrMaxBlocks)
    (hl : Locals p (dataLen + 8) nonce aad) :
    ∃ mem', aesCcmpEncrypt w E nonce aad dataLen p legacy nonce1stByte mem = (0, mem') ∧
      mem'.slice (p + headerLen mem p) (dataLen - headerLen mem p + 8) =
        encryption E (nonceArray nonce1stByte mem p) (aadOf legacy mem p)
          (mem.slice (p + headerLen mem p) (dataLen - headerLen mem p)) ∧
      Agree p (headerLen mem p) mem' mem := by
  obtain ⟨r, hr⟩ : ∃ r, r = aesCcmpCalParams p legacy nonce1stByte nonce aad mem := ⟨_, rfl⟩
  have hparams : Computed legacy nonce1stByte mem p nonce aad r := by
    rw [hr]
    exact calParams_eq legacy nonce1stByte (hl.mono (by omega))
  have hsub : subSize w dataLen (headerLen mem p) = dataLen - headerLen mem p :=
    subSize_of_le hheader hsize
  have hmac : p + dataLen = p + headerLen mem p + (dataLen - headerLen mem p) := by omega
  have hagree := hparams.agree hl
  have hargs :
      EncryptArgs (dataLen - headerLen mem p) (p + headerLen mem p) (p + headerLen mem p)
      (p + dataLen) :=
    ⟨.inl rfl, .inr (by omega), .inr (by omega)⟩
  obtain ⟨mem', hresult, henc⟩ := aesCcmEncrypt_spec E r.mem nonce aad
    (hparams.la_le.trans (by decide : 30 ≤ aesCcmAadMaxLen)) hbody hargs
  rw [hparams.load, hparams.aadOctets, hagree.slice (by omega)] at henc
  refine ⟨mem', ?_, ?_, fun i hi => ?_⟩
  · simp only [aesCcmpEncrypt, ← hr, hparams.lh, hsub, hresult, ne_eq, not_true_eq_false, if_false]
  · rw [slice_eq_encryption (Nas.Mem.slice_length _ _ _), ← hmac]
    have hcipher := henc.cipher
    rw [Nas.Mem.slice_length] at hcipher
    exact ⟨hcipher, henc.value⟩
  · rw [henc.outside (p + i) (by omega) (by omega), hagree i (by omega)]

/-- **`aes_ccmp_decrypt`** puts the text in the place of its encryption, and leaves the header. -/
theorem aesCcmpDecrypt_spec {msg : Bytes} (legacy : Bool) (nonce1stByte : UInt8)
    (hlen : headerLen mem p + msg.length = dataLen) (hsize : dataLen + 8 < 2 ^ w)
    (hbody : msg.length ≤ 16 * aesCtrMaxBlocks) (hl : Locals p (dataLen + 8) nonce aad)
    (hinput : mem.slice (p + headerLen mem p) (msg.length + 8) =
      encryption E (nonceArray nonce1stByte mem p) (aadOf legacy mem p) msg) :
    ∃ mem', aesCcmpDecrypt w E nonce aad (dataLen + 8) p legacy nonce1stByte mem = (0, mem') ∧
      mem'.slice (p + headerLen mem p) msg.length = msg ∧ Agree p (headerLen mem p) mem' mem := by
  obtain ⟨r, hr⟩ : ∃ r, r = aesCcmpCalParams p legacy nonce1stByte nonce aad mem := ⟨_, rfl⟩
  have hparams : Computed legacy nonce1stByte mem p nonce aad r := by
    rw [hr]
    exact calParams_eq legacy nonce1stByte (hl.mono (by omega))
  have hsub : subSize w (dataLen + 8) (headerLen mem p) = msg.length + 8 := by
    rw [subSize_of_le (by omega) hsize]
    omega
  have hagree := hparams.agree hl
  have hargs :
      DecryptArgs nonce r.la aad (msg.length + 8) (p + headerLen mem p) (p + headerLen mem p) := by
    have hle := hparams.la_le
    exact ⟨.inl rfl, hl.nonce.symm.mono le_rfl le_rfl (by omega) (by omega),
      hl.aad.symm.mono le_rfl (by omega) (by omega) (by omega)⟩
  rw [← hagree.slice (by omega), ← hparams.load, ← hparams.aadOctets] at hinput
  obtain ⟨mem', hresult, hmsg, houtside⟩ := aesCcmDecrypt_encryption (w := w)
    (hparams.la_le.trans (by decide : 30 ≤ aesCcmAadMaxLen)) (by omega) hbody hargs hinput
  refine ⟨mem', ?_, hmsg, fun i hi => ?_⟩
  · simp only [aesCcmpDecrypt, ← hr, hparams.lh, hsub, hresult, ne_eq, not_true_eq_false, if_false]
  · rw [houtside (p + i) (by omega), hagree i (by omega)]

end

/-- The same nonce, additional data and length of the header. -/
def SameParams (nonce aad : Nat) (r : Params) (nonce' aad' : Nat) (r' : Params) : Prop :=
  r.mem.slice nonce 13 = r'.mem.slice nonce' 13 ∧ r.mem.slice aad r.la = r'.mem.slice aad' r'.la ∧
    r.lh = r'.lh

/-- What `aes_ccmp_cal_params` has written: additional data of the length it says, into arrays that
hold them. -/
structure Written (mem : Mem) (nonce aad : Nat) (r : Params) : Prop where
  len : r.aad = aad + r.la
  max : r.la ≤ 30
  outside : ∀ x, ¬(nonce ≤ x ∧ x < nonce + 13) → ¬(aad ≤ x ∧ x < aad + 30) → r.mem x = mem x

/-- **CCMP**: what a header is bound by, what is written, and the round trip, with another frame
that has the same immutable fields and the same encrypted body. -/
theorem ccmp_correct (E : Block → Block) {w : Nat} (hw : 32 ≤ w) (nonce1stByte : UInt8) :
    (∀ (mem mem' : Mem) (h h' nonce nonce' aad aad' : Nat), Locals h (headerLen mem h) nonce aad →
      Locals h' (headerLen mem' h') nonce' aad' →
      (SameParams nonce aad (aesCcmpCalParams h false nonce1stByte nonce aad mem)
        nonce' aad' (aesCcmpCalParams h' false nonce1stByte nonce' aad' mem') ↔
        SameFields mem h mem' h')) ∧
    (∀ (mem : Mem) (h nonce aad : Nat) (legacy : Bool), Locals h (headerLen mem h) nonce aad →
      Written mem nonce aad (aesCcmpCalParams h legacy nonce1stByte nonce aad mem)) ∧
    ∀ (mem : Mem) (p nonce aad dataLen : Nat), headerLen mem p ≤ dataLen →
    dataLen - headerLen mem p ≤ 65519 →
      Locals p (dataLen + 8) nonce aad →
      ∃ mem₁, aesCcmpEncrypt w E nonce aad dataLen p false nonce1stByte mem = (0, mem₁) ∧
        (∀ i < headerLen mem p, mem₁ (p + i) = mem (p + i)) ∧
        ∀ (mem₂ : Mem) (p' nonce' aad' : Nat), Locals p' (dataLen + 8) nonce' aad' →
        SameFields mem₁ p mem₂ p' →
          (∀ i, headerLen mem p ≤ i → i < dataLen + 8 → mem₂ (p' + i) = mem₁ (p + i)) →
          ∃ mem₃, aesCcmpDecrypt w E nonce' aad' (dataLen + 8) p' false nonce1stByte mem₂ =
            (0, mem₃) ∧
            (∀ i < headerLen mem p, mem₃ (p' + i) = mem₂ (p' + i)) ∧
            ∀ i, headerLen mem p ≤ i → i < dataLen → mem₃ (p' + i) = mem (p + i) := by
  have hpow : 2 ^ 32 ≤ 2 ^ w := Nat.pow_le_pow_right (by decide) hw
  have hmax : 65519 ≤ 16 * aesCtrMaxBlocks := by decide
  refine ⟨fun mem mem' h h' nonce nonce' aad aad' hl hl' => ?_, fun mem h nonce aad legacy hl => ?_,
    fun mem p nonce aad dataLen hheader hbody hl => ?_⟩
  · have hr := calParams_eq false nonce1stByte hl
    have hr' := calParams_eq false nonce1stByte hl'
    rw [SameParams, hr.nonceOctets, hr.aadOctets, hr.lh, hr'.nonceOctets, hr'.aadOctets, hr'.lh,
      sameFields_iff]
  · have hr := calParams_eq legacy nonce1stByte hl
    exact ⟨hr.written, hr.la_le, hr.outside⟩
  · have hlen : headerLen mem p = 32 + addlen (mem.le16 p) := rfl
    have hle := addlen_le (mem.le16 p)
    obtain ⟨mem₁, hencrypt, hinput, hkept⟩ :=
      aesCcmpEncrypt_spec (w := w) E false nonce1stByte hheader (by omega) (by omega) hl
    refine ⟨mem₁, hencrypt, hkept, fun mem₂ p' nonce' aad' hl' hsame hbody' => ?_⟩
    obtain ⟨msg, hmsg⟩ : ∃ msg, msg = mem.slice (p + headerLen mem p) (dataLen - headerLen mem p) :=
      ⟨_, rfl⟩
    have hmsgLen : msg.length = dataLen - headerLen mem p := by rw [hmsg, Nas.Mem.slice_length]
    -- nonce and additional data are those of the encryption
    have hheader₂ : headerLen mem₂ p' = headerLen mem p := by
      rw [← headerLen_eq hsame.fc, hkept.headerLen]
    have hfields := (sameFields_iff nonce1stByte).mpr hsame
    have hnonce : nonceArray nonce1stByte mem₂ p' = nonceArray nonce1stByte mem p := by
      funext i
      rw [nonceArray, nonceArray, ← hfields.1, hkept.nonceOf]
    have haad : aadOf false mem₂ p' = aadOf false mem p := by
      rw [← hfields.2.1, hkept.aadOf]
    have hcipher : mem₂.slice (p' + headerLen mem₂ p') (msg.length + 8) =
        encryption E (nonceArray nonce1stByte mem₂ p') (aadOf false mem₂ p') msg := by
      rw [hnonce, haad, hmsg, ← hinput, ← hmsg, hmsgLen, hheader₂]
      apply Nas.Mem.slice_congr
      intro i hi
      rw [Nat.add_assoc, Nat.add_assoc]
      exact hbody' _ (by omega) (by omega)
    have hframe : headerLen mem₂ p' + msg.length = dataLen := by omega
    obtain ⟨mem₃, hdecrypt, htext, hkept'⟩ :=
      aesCcmpDecrypt_spec (w := w) false nonce1stByte hframe (by omega) (by omega) hl' hcipher
    rw [hheader₂] at htext hkept'
    refine ⟨mem₃, hdecrypt, hkept', fun i hi hi' => ?_⟩
    obtain ⟨k, rfl⟩ := Nat.exists_eq_add_of_le hi
    have hout := Nas.Mem.slice_getD mem₃ (p' + headerLen mem p) (show k < msg.length by omega)
    have hin :=
      Nas.Mem.slice_getD mem (p + headerLen mem p) (show k < dataLen - headerLen mem p by omega)
    rw [← Nat.add_assoc, ← hout, htext, hmsg, hin, Nat.add_assoc]

/-- A frame at address 100 with no bit set, and the same with the bit for a retry. -/
theorem ccmp_correct_retry :
    SameParams 0 20 (aesCcmpCalParams 100 false 0 0 20 fun _ => 0)
        0 20 (aesCcmpCalParams 100 false 0 0 20 (Function.update (fun _ => 0) 101 8)) ∧
      Written (fun _ => 0) 0 20 (aesCcmpCalParams 100 true 0 0 20 fun _ => 0) ∧
      ∃ mem₁ mem₃, aesCcmpEncrypt 64 id 0 20 42 100 false 0 (fun _ => 0) = (0, mem₁) ∧
        aesCcmpDecrypt 64 id 0 20 50 100 false 0 mem₁ = (0, mem₃) ∧ ∀ i, 32 ≤ i → i < 42 →
        mem₃ (100 + i) = 0 := by
  have hlocals : ∀ n, Locals 100 n 0 20 :=
    fun n => ⟨.inl (by decide), .inr (by decide), .inr (by decide)⟩
  obtain ⟨hbound, hwritten, hround⟩ := ccmp_correct id (show 32 ≤ 64 by decide) 0
  refine ⟨?_, hwritten (fun _ => 0) 100 0 20 true (hlocals _), ?_⟩
  · rw [hbound (fun _ => 0) (Function.update (fun _ => 0) 101 8) 100 100 0 0 20 20 (hlocals _)
      (hlocals _)]
    exact ⟨by decide, by decide, by decide, by decide, by decide, by decide, by decide, by decide⟩
  · obtain ⟨mem₁, hencrypt, -, hdecrypt⟩ :=
      hround (fun _ => 0) 100 0 20 42 (by decide) (by decide) (hlocals _)
    obtain ⟨mem₃, hresult, -, htext⟩ :=
      hdecrypt mem₁ 100 0 20 (hlocals _) ⟨rfl, rfl, rfl, rfl, rfl, rfl, fun _ => rfl, fun _ => rfl⟩
        fun _ _ _ => rfl
    exact ⟨mem₁, mem₃, hencrypt, hresult, fun i hi hi' => htext i hi hi'⟩

end BroadcomWl.Crypto.AesCcmp
