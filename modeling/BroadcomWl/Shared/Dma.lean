import BroadcomWl.Lib.Ring

/-!
# Descriptors

`hnddma.c`, what both directions share: the indices of a ring, and the descriptors that the driver
writes for the 64-bit engine. A physical address has 32 bits; its upper two bits go into the second
control word if they do not fit behind the PCI window.

`ddUpd_address`, `ddUpd_length` and `ddUpd_ctrl1` say that the engine reads from a descriptor what
was put into it, and `ddUpd_parity` that its bits have even parity. -/

namespace BroadcomWl.Shared.Dma

/-! ## Indices -/

/-- `XXD`: faster than `%`, but `n` must be a power of 2. -/
def xxd (x : UInt32) (n : Nat) : Nat := (x &&& (UInt32.ofNat n - 1)).toNat

/-- `NEXTTXD`, `NEXTRXD` -/
def next (n i : Nat) : Nat := xxd (UInt32.ofNat i + 1) n

/-- `PREVTXD`, `PREVRXD` -/
def prev (n i : Nat) : Nat := xxd (UInt32.ofNat i - 1) n

/-- `NTXDACTIVE`, `NRXDACTIVE`: the descriptors from `h` to `t`. -/
def active (n h t : Nat) : Nat := xxd (UInt32.ofNat t - UInt32.ofNat h) n

/-- `sizeof(dma64dd_t)` -/
def descriptorSize : Nat := 16

/-- `I2B` -/
def i2b (index : Nat) : UInt32 := UInt32.ofNat (index * descriptorSize)

/-- `B2I` -/
def b2i (bytes : UInt32) : Nat := bytes.toNat / descriptorSize % 2 ^ 16

/-! ## Descriptors -/

def ctrl1Eot : UInt32 := (1 : UInt32) <<< 28
def ctrl1Ioc : UInt32 := (1 : UInt32) <<< 29
def ctrl1Eof : UInt32 := (1 : UInt32) <<< 30
def ctrl1Sof : UInt32 := (1 : UInt32) <<< 31

def ctrl2BcMask : UInt32 := 0x7fff
def ctrl2Ae : UInt32 := 0x30000
def ctrl2Parity : UInt32 := 0x40000

/-- `PCI32ADDR_HIGH`: `address[31:30]` -/
def pci32addrHigh : UInt32 := 0xc0000000

/-- `dma64dd_t` -/
structure Descriptor where
  ctrl1 : UInt32
  ctrl2 : UInt32
  addrlow : UInt32
  addrhigh : UInt32
  deriving DecidableEq

/-- The address of a descriptor that has been taken off. -/
def deadbeef : UInt32 := 0xdeadbeef

/-- What a ring has from `dma_attach` on. -/
structure Ring where
  /-- `ntxd`, `nrxd` -/
  size : Nat
  /-- the bits of an index -/
  bits : Nat
  size_eq : size = 2 ^ bits
  /-- `d64_xs0_cd_mask`, `d64_rs0_cd_mask` -/
  mask : UInt32
  /-- the bits of the mask -/
  maskBits : Nat
  mask_eq : mask.toNat = 2 ^ maskBits - 1
  maskBits_le : maskBits ≤ 16
  /-- the ring is not longer than what the register can say -/
  bits_le : bits + 4 ≤ maskBits
  /-- `xmtptrbase`, `rcvptrbase` -/
  base : UInt32
  dataoffsetlow : UInt32
  dataoffsethigh : UInt32
  /-- `DMA_CTRL_PEN` -/
  parity : Bool

/-- `data ^= data >> n` -/
def xorFold (data n : UInt32) : UInt32 := data ^^^ data >>> n

/-- `parity32`: check for odd number of 1's -/
def parity32 (data : UInt32) : UInt32 :=
  xorFold (xorFold (xorFold (xorFold (xorFold data 16) 8) 4) 2) 1 &&& 1

/-- `DMA64_DD_PARITY` -/
def Descriptor.parity (dd : Descriptor) : UInt32 :=
  parity32 (dd.addrlow ^^^ dd.addrhigh ^^^ dd.ctrl1 ^^^ dd.ctrl2)

/-- A descriptor for `bufcount` octets at a physical address, without parity. -/
def ddPlace (r : Ring) (pa flags bufcount : UInt32) : Descriptor :=
  let ctrl2 := bufcount &&& ctrl2BcMask
  if r.dataoffsetlow = 0 ∨ pa &&& pci32addrHigh = 0 then
    { ctrl1 := flags, ctrl2 := ctrl2
      addrlow := pa + r.dataoffsetlow, addrhigh := r.dataoffsethigh }
  else
    -- address extension
    let ae := (pa &&& pci32addrHigh) >>> 30
    { ctrl1 := flags
      ctrl2 := ctrl2 ||| (ae <<< 16 &&& ctrl2Ae)
      addrlow := (pa &&& ~~~pci32addrHigh) + r.dataoffsetlow
      addrhigh := r.dataoffsethigh }

/-- `dma64_dd_upd` -/
def ddUpd (r : Ring) (pa flags bufcount : UInt32) : Descriptor :=
  let dd := ddPlace r pa flags bufcount
  if r.parity ∧ dd.parity ≠ 0 then { dd with ctrl2 := dd.ctrl2 ||| ctrl2Parity } else dd

/-- The index in a status register. -/
def currIndex (r : Ring) (status : UInt32) : Nat := b2i (((status &&& r.mask) - r.base) &&& r.mask)

/-! ## What the engine reads -/

/-- The address in memory, through the PCI window. -/
def Descriptor.address (r : Ring) (dd : Descriptor) : UInt32 :=
  (dd.addrlow - r.dataoffsetlow) ||| ((dd.ctrl2 &&& ctrl2Ae) >>> 16) <<< 30

def Descriptor.length (dd : Descriptor) : Nat := (dd.ctrl2 &&& ctrl2BcMask).toNat

def Descriptor.has (dd : Descriptor) (flag : UInt32) : Prop := dd.ctrl1 &&& flag ≠ 0

instance (dd : Descriptor) (flag : UInt32) : Decidable (dd.has flag) :=
  inferInstanceAs (Decidable (_ ≠ _))

/-- The status register when the engine is at a descriptor; other bits of it are its state. -/
def statusAt (r : Ring) (state : UInt32) (index : Nat) : UInt32 :=
  (state &&& ~~~r.mask) ||| ((r.base + i2b index) &&& r.mask)

/-! ## Indices, as positions -/

theorem Ring.size_pos (r : Ring) : 0 < r.size := by
  rw [r.size_eq]
  exact Nat.two_pow_pos _

theorem Ring.size_le (r : Ring) : r.size ≤ 2 ^ 12 := by
  have hbits := r.bits_le
  have hmask := r.maskBits_le
  rw [r.size_eq]
  exact Nat.pow_le_pow_right (by decide) (by omega)

theorem Ring.size_dvd (r : Ring) : r.size ∣ 2 ^ 32 := by
  have hbits := r.bits_le
  have hmask := r.maskBits_le
  rw [r.size_eq]
  exact Nat.pow_dvd_pow 2 (by omega)

theorem xxd_eq (r : Ring) (x : UInt32) : xxd x r.size = x.toNat % r.size := by
  have hle := r.size_le
  have hpos := r.size_pos
  have hmask : (UInt32.ofNat r.size - 1).toNat = r.size - 1 := by
    rw [UInt32.toNat_sub_of_le, UInt32.toNat_ofNat_of_lt' (by omega : r.size < 2 ^ 32)]
    · rfl
    · rw [UInt32.le_iff_toNat_le, UInt32.toNat_ofNat_of_lt' (by omega : r.size < 2 ^ 32)]
      exact hpos
  rw [xxd, UInt32.toNat_and, hmask, r.size_eq, Nat.and_two_pow_sub_one_eq_mod]

theorem ofNat_mod (r : Ring) (i : Nat) : (UInt32.ofNat (i % r.size)).toNat = i % r.size := by
  have hlt := Nat.mod_lt i r.size_pos
  have hle := r.size_le
  exact UInt32.toNat_ofNat_of_lt' (by omega : i % r.size < 2 ^ 32)

theorem next_eq (r : Ring) (i : Nat) : next r.size (i % r.size) = (i + 1) % r.size := by
  have hone : (1 : UInt32).toNat = 1 := rfl
  rw [next, xxd_eq, UInt32.toNat_add, ofNat_mod, hone, Nat.mod_mod_of_dvd _ r.size_dvd,
    Nat.mod_add_mod]

theorem active_eq (r : Ring) (i d : Nat) :
    active r.size (i % r.size) ((i + d) % r.size) = d % r.size := by
  have hle := r.size_le
  have hlt := Nat.mod_lt i r.size_pos
  rw [active, xxd_eq, UInt32.toNat_sub, ofNat_mod, ofNat_mod, Nat.mod_mod_of_dvd _ r.size_dvd]
  -- both sides, with the first index on top
  have hsum : 2 ^ 32 - i % r.size + (i + d) % r.size + i % r.size ≡
      d + i % r.size [MOD r.size] := by
    have hback : 2 ^ 32 - i % r.size + (i + d) % r.size + i % r.size =
        2 ^ 32 + (i + d) % r.size := by omega
    have hwhole : 2 ^ 32 ≡ 0 [MOD r.size] := (Nat.modEq_zero_iff_dvd).mpr r.size_dvd
    rw [hback]
    calc 2 ^ 32 + (i + d) % r.size ≡ 0 + (i + d) [MOD r.size] := hwhole.add (Nat.mod_modEq _ _)
      _ = d + i := by omega
      _ ≡ d + i % r.size [MOD r.size] := (Nat.ModEq.refl d).add (Nat.mod_modEq _ _).symm
  exact Nat.ModEq.add_right_cancel' _ hsum

theorem prev_eq (r : Ring) (i : Nat) : prev r.size ((i + 1) % r.size) = i % r.size := by
  have hback := active_eq r 1 i
  have hle := r.size_le
  by_cases hone : r.size = 1
  · rw [prev, xxd_eq, hone, Nat.mod_one, Nat.mod_one]
  · have hpos := r.size_pos
    have hmod : 1 % r.size = 1 := Nat.mod_eq_of_lt (by omega)
    rw [hmod, Nat.add_comm] at hback
    rw [prev, ← hback]
    rfl

/-- **The engine's index** is read right, whatever the state bits. -/
theorem currIndex_statusAt (r : Ring) (state : UInt32) {index : Nat} (h : index < r.size) :
    currIndex r (statusAt r state index) = index := by
  have hbits := r.bits_le
  have hmaskBits := r.maskBits_le
  have hbytes : index * descriptorSize < 2 ^ r.maskBits := by
    calc index * descriptorSize < 2 ^ r.bits * 2 ^ 4 := by
          rw [← r.size_eq]
          exact Nat.mul_lt_mul_of_pos_right h (by decide)
      _ = 2 ^ (r.bits + 4) := (Nat.pow_add 2 _ _).symm
      _ ≤ 2 ^ r.maskBits := Nat.pow_le_pow_right (by decide) hbits
  have hword : 2 ^ r.maskBits ≤ 2 ^ 16 := Nat.pow_le_pow_right (by decide) hmaskBits
  have hdvd : 2 ^ r.maskBits ∣ 2 ^ 32 := Nat.pow_dvd_pow 2 (by omega)
  have hmask (x : UInt32) : (x &&& r.mask).toNat = x.toNat % 2 ^ r.maskBits := by
    rw [UInt32.toNat_and, r.mask_eq, Nat.and_two_pow_sub_one_eq_mod]
  have hstatus : statusAt r state index &&& r.mask = (r.base + i2b index) &&& r.mask := by
    apply UInt32.toBitVec_inj.mp
    rw [statusAt]
    ext j hj
    simp only [UInt32.toBitVec_and, UInt32.toBitVec_or, UInt32.toBitVec_not, BitVec.getElem_and,
      BitVec.getElem_or, BitVec.getElem_not]
    cases r.mask.toBitVec[j] <;> simp
  have hindex : (i2b index).toNat = index * descriptorSize :=
    UInt32.toNat_ofNat_of_lt' (by omega : index * descriptorSize < 2 ^ 32)
  have hdiff : ((r.base + i2b index) &&& r.mask) - r.base &&& r.mask = i2b index := by
    rw [← UInt32.toNat_inj, hmask, UInt32.toNat_sub, hmask, UInt32.toNat_add,
      Nat.mod_mod_of_dvd _ hdvd, Nat.mod_mod_of_dvd _ hdvd]
    have hbase := r.base.toNat_lt
    have hback : 2 ^ 32 - r.base.toNat + (r.base.toNat + (i2b index).toNat) % 2 ^ r.maskBits ≡
        (i2b index).toNat
        [MOD 2 ^ r.maskBits] := by
      calc _ ≡ 2 ^ 32 - r.base.toNat + (r.base.toNat + (i2b index).toNat) [MOD 2 ^ r.maskBits] :=
            (Nat.ModEq.refl _).add (Nat.mod_modEq _ _)
        _ = 2 ^ 32 + (i2b index).toNat := by omega
        _ ≡ 0 + (i2b index).toNat [MOD 2 ^ r.maskBits] :=
          ((Nat.modEq_zero_iff_dvd).mpr hdvd).add_right _
        _ = (i2b index).toNat := Nat.zero_add _
    have hmod := hback
    rw [Nat.ModEq, hindex, Nat.mod_eq_of_lt hbytes] at hmod
    rw [hindex]
    exact hmod
  rw [currIndex, hstatus, hdiff, b2i, hindex, Nat.mul_div_cancel _ (by decide)]
  exact Nat.mod_eq_of_lt (by
    have hle := r.size_le
    omega)

/-! ## Descriptors, as the engine reads them -/

theorem ddPlace_spec (r : Ring) (pa flags bufcount : UInt32) : ∃ ae : UInt32,
    (ddPlace r pa flags bufcount).ctrl2 = (bufcount &&& ctrl2BcMask) ||| (ae <<< 16 &&& ctrl2Ae) ∧
      (ddPlace r pa flags bufcount).addrlow - r.dataoffsetlow |||
        (ae <<< 16 &&& ctrl2Ae) >>> 16 <<< 30 = pa := by
  unfold ddPlace
  dsimp only
  by_cases hplain : r.dataoffsetlow = 0 ∨ pa &&& pci32addrHigh = 0
  · refine ⟨0, ?_, ?_⟩
    · rw [if_pos hplain]
      simp
    · rw [if_pos hplain]
      simp
  · have hsplit :
        (pa &&& ~~~pci32addrHigh) ||| (((pa &&& pci32addrHigh) >>> 30) <<< 16 &&& ctrl2Ae) >>>
        16 <<< 30 = pa := by
      apply UInt32.toBitVec_inj.mp
      apply BitVec.eq_of_getLsbD_eq
      intro i hi
      interval_cases i <;> simp [pci32addrHigh, ctrl2Ae]
    refine ⟨(pa &&& pci32addrHigh) >>> 30, ?_, ?_⟩
    · rw [if_neg hplain]
    · rw [if_neg hplain, UInt32.add_sub_cancel]
      exact hsplit

theorem ddUpd_spec (r : Ring) (pa flags bufcount : UInt32) : ∃ p : UInt32,
    ddUpd r pa flags bufcount =
      { ddPlace r pa flags bufcount with
        ctrl2 := (ddPlace r pa flags bufcount).ctrl2 ||| (p &&& ctrl2Parity) } := by
  unfold ddUpd
  dsimp only
  by_cases hodd : r.parity ∧ (ddPlace r pa flags bufcount).parity ≠ 0
  · exact ⟨ctrl2Parity, by rw [if_pos hodd, UInt32.and_self]⟩
  · exact ⟨0, by rw [if_neg hodd, UInt32.zero_and, UInt32.or_zero]⟩

theorem fields_apart (bc x p : UInt32) :
    ((bc &&& ctrl2BcMask) ||| (x &&& ctrl2Ae) ||| (p &&& ctrl2Parity)) &&& ctrl2Ae = x &&& ctrl2Ae ∧
      ((bc &&& ctrl2BcMask) ||| (x &&& ctrl2Ae) ||| (p &&& ctrl2Parity)) &&& ctrl2BcMask =
        bc &&& ctrl2BcMask := by
  constructor
  · apply UInt32.toBitVec_inj.mp
    apply BitVec.eq_of_getLsbD_eq
    intro i hi
    interval_cases i <;> simp [ctrl2BcMask, ctrl2Ae, ctrl2Parity]
  · apply UInt32.toBitVec_inj.mp
    apply BitVec.eq_of_getLsbD_eq
    intro i hi
    interval_cases i <;> simp [ctrl2BcMask, ctrl2Ae, ctrl2Parity]

/-- **The address.** -/
theorem ddUpd_address (r : Ring) (pa flags bufcount : UInt32) :
    (ddUpd r pa flags bufcount).address r = pa := by
  obtain ⟨ae, hctrl2, haddress⟩ := ddPlace_spec r pa flags bufcount
  obtain ⟨p, hupd⟩ := ddUpd_spec r pa flags bufcount
  rw [hupd, Descriptor.address, hctrl2]
  dsimp only
  rw [(fields_apart bufcount (ae <<< 16) p).1, haddress]

/-- **The length.** -/
theorem ddUpd_length (r : Ring) (pa flags : UInt32) {bufcount : UInt32}
    (h : bufcount.toNat < 2 ^ 15) :
    (ddUpd r pa flags bufcount).length = bufcount.toNat := by
  obtain ⟨ae, hctrl2, -⟩ := ddPlace_spec r pa flags bufcount
  obtain ⟨p, hupd⟩ := ddUpd_spec r pa flags bufcount
  rw [hupd, Descriptor.length, hctrl2]
  dsimp only
  rw [(fields_apart bufcount (ae <<< 16) p).2, UInt32.toNat_and]
  exact (Nat.and_two_pow_sub_one_eq_mod _ 15).trans (Nat.mod_eq_of_lt h)

theorem ddUpd_ctrl1 (r : Ring) (pa flags bufcount : UInt32) :
    (ddUpd r pa flags bufcount).ctrl1 = flags := by
  obtain ⟨p, hupd⟩ := ddUpd_spec r pa flags bufcount
  rw [hupd, ddPlace]
  dsimp only
  split_ifs <;> rfl

theorem parity32_xor (a b : UInt32) : parity32 (a ^^^ b) = parity32 a ^^^ parity32 b := by
  have hfold (x y n : UInt32) : xorFold (x ^^^ y) n = xorFold x n ^^^ xorFold y n := by
    rw [xorFold, UInt32.shiftRight_xor, xorFold, xorFold]
    ac_rfl
  rw [parity32, parity32, parity32, hfold, hfold, hfold, hfold, hfold]
  apply UInt32.toBitVec_inj.mp
  ext i hi
  simp only [UInt32.toBitVec_and, UInt32.toBitVec_xor, BitVec.getElem_and, BitVec.getElem_xor,
    Bool.and_xor_distrib_right]

theorem parity32_cases (a : UInt32) : parity32 a = 0 ∨ parity32 a = 1 := by
  have hbit (x : UInt32) : x &&& 1 = 0 ∨ x &&& 1 = 1 := by
    rw [← UInt32.toNat_inj, ← UInt32.toNat_inj, UInt32.toNat_and]
    exact (Nat.and_one_is_mod _).symm ▸ Nat.mod_two_eq_zero_or_one _
  exact hbit _

/-- **Even parity**, when the engine checks it. -/
theorem ddUpd_parity (r : Ring) (pa flags bufcount : UInt32) (h : r.parity = true) :
    (ddUpd r pa flags bufcount).parity = 0 := by
  obtain ⟨ae, hctrl2, -⟩ := ddPlace_spec r pa flags bufcount
  unfold ddUpd
  dsimp only
  split_ifs with hodd
  · -- the bit is not set yet
    have hor : (ddPlace r pa flags bufcount).ctrl2 ||| ctrl2Parity =
        (ddPlace r pa flags bufcount).ctrl2 ^^^ ctrl2Parity := by
      rw [hctrl2]
      apply UInt32.toBitVec_inj.mp
      apply BitVec.eq_of_getLsbD_eq
      intro i hi
      interval_cases i <;> simp [ctrl2BcMask, ctrl2Ae, ctrl2Parity]
    have hone := (parity32_cases _).resolve_left hodd.2
    have hbit : parity32 ctrl2Parity = 1 := by decide
    rw [Descriptor.parity, hor, ← UInt32.xor_assoc, parity32_xor, hbit]
    exact (congrArg (· ^^^ 1) hone).trans (by decide)
  · by_contra hne
    exact hodd ⟨h, hne⟩

end BroadcomWl.Shared.Dma
