import BroadcomWl.Lib.Run
import BroadcomWl.Shared.Dma

/-!
# The transmit ring

`hnddma.c`, the transmit side of a 64-bit engine: `dma64_txfast` puts the descriptors of a packet on
the ring, and `dma64_getnexttxp` takes a packet off again when the engine has sent it. The engine
goes along the ring on its own: it sends what it finds from one descriptor with the start flag up to
one with the end flag, returns to the first descriptor behind one with the flag for that, and stops
at the descriptor that it has been told.

**The invariant** (`Inv`) gives each descriptor a position that only grows. The packets that have
been posted are those that were returned and those on the ring; the engine is between the two ends
of the ring, and what it has sent follows from its position.

`tx_ring` says that no order of posting, sending and reclaiming loses, repeats or reorders a packet,
and that none comes back before it has been sent. -/

namespace BroadcomWl.Shared.DmaTx

open BroadcomWl.Lib
open BroadcomWl.Shared.Dma

/-! ## The code -/

/-- `hnddma_seg_t` -/
structure Segment where
  addr : UInt32
  length : UInt32

/-- A packet buffer: `PKTLEN`, and the segments that `DMA_MAP` finds from it on. -/
structure Buffer where
  len : Nat
  segs : List Segment

/-- A packet: a chain of buffers. -/
structure Packet where
  id : Nat
  bufs : List Buffer

/-- What the driver knows of its ring from `dma_attach` on. -/
structure Config where
  ring : Ring
  /-- `DMA_CTRL_DMA_AVOIDANCE_WAR` -/
  war : Bool

def Config.ntxd (c : Config) : Nat := c.ring.size

/-- The part of `dma_info_t` for the transmit ring. -/
structure TxInfo where
  txin : Nat
  txout : Nat
  xs0cd : Nat
  txp : Nat → Option Packet
  /-- `txp_dmah[].nsegs` -/
  nsegs : Nat → Nat
  txd : Nat → Descriptor
  txavail : Nat
  txnobuf : Nat

/-- What changes in the loops of `dma64_txfast`. -/
structure Post where
  txd : Nat → Descriptor
  txout : Nat
  flags : UInt32
  segsadd : Nat

/-- Write a descriptor and go on to the next one; `false` if this is out of descriptors. -/
def put (c : Config) (txin : Nat) (pa flags len : UInt32) (s : Post) : Bool × Post :=
  let s := { s with
    txd := Function.update s.txd s.txout (ddUpd c.ring pa flags len)
    txout := next c.ntxd s.txout
    flags := flags }
  (s.txout != txin, s)

/-- What is left for a second descriptor when a segment has to be split, or zero. -/
def splitRemain (c : Config) (seg : Segment) : UInt32 :=
  if c.war ∧ 128 < seg.length then
    let align64 := (64 - (seg.addr &&& 0x3f)) &&& 0x3f
    let remain := (seg.length - align64) % 128
    if 0 < remain ∧ remain ≤ 4 then remain + 64 else 0
  else 0

/-- The body of the loop over the segments. -/
def postSegment (c : Config) (txin : Nat) (sof eof : Bool) (seg : Segment) (s : Post) :
    Bool × Post :=
  let flags := (if sof then ctrl1Sof else 0) ||| (if eof then ctrl1Ioc ||| ctrl1Eof else 0) |||
    (if s.txout = c.ntxd - 1 then ctrl1Eot else 0)
  let remain := splitRemain c seg
  if remain ≠ 0 then
    let (ok, s) :=
      put c txin seg.addr (flags &&& ~~~(ctrl1Eof ||| ctrl1Ioc)) (seg.length - remain) s
    if ok then
      let flags :=
        (flags &&& ~~~(ctrl1Sof ||| ctrl1Eot)) ||| (if s.txout = c.ntxd - 1 then ctrl1Eot else 0)
      put c txin (seg.addr + (seg.length - remain)) flags remain { s with segsadd := s.segsadd + 1 }
    else (false, s)
  else put c txin seg.addr flags seg.length s

/-- The loop over the segments; `sof` says that the next one is the first of the packet. -/
def postSegments (c : Config) (txin : Nat) : Bool → List Segment → Post → Bool × Post
  | _, [], s => (true, s)
  | sof, seg :: segs, s =>
    let (ok, s) := postSegment c txin sof segs.isEmpty seg s
    if ok then postSegments c txin false segs s else (false, s)

/-- The loop over the buffers, up to the first one with octets in it; `sof` says that this is the
first one. -/
def postBuffers (c : Config) (di : TxInfo) :
    Bool → List Buffer → (Nat → Nat) → Post → Bool × (Nat → Nat) × Post
  | _, [], nsegs, s => (true, nsegs, s)
  | sof, b :: bs, nsegs, s =>
    if next c.ntxd s.txout = di.txin then (false, nsegs, s)
    else if b.len = 0 then postBuffers c di false bs nsegs s
    else
      let map := s.txout
      let nsegs := Function.update nsegs map b.segs.length
      -- see if all the segments can be accounted for
      if c.ntxd - active c.ntxd di.txin di.txout - 1 < b.segs.length then (false, nsegs, s)
      else
        let (ok, s) := postSegments c di.txin sof b.segs s
        if ok then (true, Function.update nsegs map (nsegs map + s.segsadd), s)
        else (false, nsegs, s)

/-- `dma64_txfast`: the status, the ring, and what is written to the engine's pointer. -/
def txfast (c : Config) (di : TxInfo) (p : Packet) (commit : Bool) : Int × TxInfo × Option UInt32 :=
  let (ok, nsegs, s) :=
    postBuffers c di true p.bufs di.nsegs
      { txd := di.txd, txout := di.txout, flags := 0, segsadd := 0 }
  if ok then
    -- if last txd eof not set, fix it
    let last := prev c.ntxd s.txout
    let txd :=
      if s.flags &&& ctrl1Eof = 0 then
        Function.update s.txd last { s.txd last with ctrl1 := s.flags ||| ctrl1Ioc ||| ctrl1Eof }
      else s.txd
    let di := { di with
      txd := txd
      nsegs := nsegs
      txp := Function.update di.txp last (some p)
      txout := s.txout
      txavail := c.ntxd - active c.ntxd di.txin s.txout - 1 }
    (0, di, if commit then some (c.ring.base + i2b s.txout) else none)
  else (-1, { di with txd := s.txd, nsegs := nsegs, txavail := 0, txnobuf := di.txnobuf + 1 }, none)

/-- `txd_range_t` -/
inductive Range
  | all
  | transmitted
  | transfered

/-- The loop that takes the descriptors of a packet off: where it ends, and the pointer that it has
found there. -/
def takeOff (c : Config) : Nat → TxInfo → Nat → Option Packet → TxInfo × Nat × Option Packet
  | 0, di, i, txp => (di, i, txp)
  | j + 1, di, i, _ =>
    let txp := di.txp i
    let di := { di with
      txd := Function.update di.txd i { di.txd i with addrlow := deadbeef, addrhigh := deadbeef }
      txp := Function.update di.txp i none }
    takeOff c j di (if 0 < j then next c.ntxd i else i) txp

/-- The loop of `dma64_getnexttxp`. -/
def scan (c : Config) (stop : Nat) :
    Nat → TxInfo → Nat → Option Packet → TxInfo × Nat × Option Packet
  | 0, di, i, txp => (di, i, txp)
  | fuel + 1, di, i, txp =>
    if i ≠ stop ∧ txp.isNone then
      let nsegs := di.nsegs i
      -- not all of the packet is there
      if active c.ntxd i stop < nsegs then ({ di with xs0cd := i }, i, txp)
      else
        let (di, i, txp) := takeOff c nsegs di i txp
        scan c stop fuel di (next c.ntxd i) txp
    else (di, i, txp)

/-- `dma64_getnexttxp`, with what the two status registers say. -/
def getnexttxp (c : Config) (di : TxInfo) (range : Range) (status0 status1 : UInt32) :
    Option Packet × TxInfo :=
  if c.ntxd = 0 then (none, di)
  else
    let fresh : Nat × TxInfo :=
      if di.txin = di.xs0cd then (currIndex c.ring status0,
        { di with xs0cd := currIndex c.ring status0 })
      else (di.xs0cd, di)
    let (stop, di) : Nat × TxInfo :=
      match range with
      | .all => (di.txout, di)
      | .transmitted => fresh
      | .transfered =>
        let activeDesc := currIndex c.ring status1
        (if fresh.1 ≠ activeDesc then prev c.ntxd activeDesc else fresh.1, fresh.2)
    -- bogus
    if di.txin = 0 ∧ di.txout < stop then (none, di)
    else
      let (di, i, txp) := scan c stop c.ntxd di di.txin none
      (txp, { di with txin := i, txavail := c.ntxd - active c.ntxd i di.txout - 1 })

/-- The loop of `dma64_txreclaim`: the packets that are freed. -/
def reclaimLoop (c : Config) (range : Range) (status0 status1 : UInt32) :
    Nat → TxInfo → List Packet × TxInfo
  | 0, di => ([], di)
  | fuel + 1, di =>
    match getnexttxp c di range status0 status1 with
    | (none, di) => ([], di)
    | (some p, di) =>
      let (ps, di) := reclaimLoop c range status0 status1 fuel di
      (p :: ps, di)

/-- `dma64_txreclaim` -/
def txreclaim (c : Config) (range : Range) (status0 status1 : UInt32) (di : TxInfo) :
    List Packet × TxInfo :=
  if di.txin = di.txout then ([], di) else reclaimLoop c range status0 status1 c.ntxd di

/-- `dma64_txinit`, on a ring that has no packets. -/
def txinit (c : Config) : TxInfo where
  txin := 0
  txout := 0
  xs0cd := 0
  txp := fun _ => none
  nsegs := fun _ => 0
  txd := fun _ => { ctrl1 := 0, ctrl2 := 0, addrlow := 0, addrhigh := 0 }
  txavail := c.ntxd - 1
  txnobuf := 0

/-! ## The engine -/

/-- The addresses of `len` octets. -/
def span (pa len : UInt32) : List UInt32 := (List.range len.toNat).map fun k => pa + UInt32.ofNat k

/-- The octets of a descriptor. -/
def octets (r : Ring) (dd : Descriptor) : List UInt32 :=
  span (dd.address r) (UInt32.ofNat dd.length)

/-- What the engine does with a descriptor: the octets of the frame so far, and the frames that are
sent. -/
def send (r : Ring) (wire : List UInt32 × List (List UInt32)) (dd : Descriptor) :
    List UInt32 × List (List UInt32) :=
  let frame := (if dd.has ctrl1Sof then [] else wire.1) ++ octets r dd
  if dd.has ctrl1Eof then ([], wire.2 ++ [frame]) else (frame, wire.2)

structure Engine where
  index : Nat
  /-- the `ptr` register: it stops there -/
  ptr : UInt32
  wire : List UInt32 × List (List UInt32)

def Engine.advance (r : Ring) (txd : Nat → Descriptor) (e : Engine) : Engine :=
  if (r.base + i2b e.index) &&& r.mask = e.ptr &&& r.mask then e
  else
    let dd := txd e.index
    { e with
      index := if dd.has ctrl1Eot then 0 else e.index + 1
      wire := send r e.wire dd }

/-! ## Driver and engine -/

structure System where
  di : TxInfo
  engine : Engine
  /-- the packets that the driver has taken -/
  posted : List Packet
  /-- the packets that it has given back -/
  returned : List Packet

inductive Event
  | post (p : Packet) (commit : Bool)
  /-- the engine works on a descriptor -/
  | advance
  /-- with the state bits of the status register -/
  | reclaim (state : UInt32)

def init (c : Config) : System where
  di := txinit c
  engine := { index := 0, ptr := c.ring.base, wire := ([], []) }
  posted := []
  returned := []

def step (c : Config) (s : System) : Event → System
  | .post p commit =>
    let (status, di, ptr) := txfast c s.di p commit
    { s with
      di := di
      engine := { s.engine with ptr := ptr.getD s.engine.ptr }
      posted := if status = 0 then s.posted ++ [p] else s.posted }
  | .advance => { s with engine := s.engine.advance c.ring s.di.txd }
  | .reclaim state =>
    let (p, di) := getnexttxp c s.di .transmitted (statusAt c.ring state s.engine.index) 0
    { s with di := di, returned := s.returned ++ p.toList }

/-- A packet as the callers post it: its first buffer has octets, and no segment is too long for a
descriptor. -/
def PacketOk (p : Packet) : Prop :=
  ∃ b bs, p.bufs = b :: bs ∧ b.len ≠ 0 ∧ b.segs ≠ [] ∧ ∀ seg ∈ b.segs, seg.length.toNat < 2 ^ 15

/-- The segments that are posted. -/
def Packet.segs (p : Packet) : List Segment := (p.bufs.headD { len := 0, segs := [] }).segs

/-- The octets of a packet. -/
def Packet.octets (p : Packet) : List UInt32 := p.segs.flatMap fun seg => span seg.addr seg.length

/-! ## Pieces -/

/-- The pieces of a segment, one for each descriptor. -/
def pieces (c : Config) (seg : Segment) : List Segment :=
  let remain := splitRemain c seg
  if remain = 0 then [seg]
  else [{ addr := seg.addr, length := seg.length - remain },
    { addr := seg.addr + (seg.length - remain), length := remain }]

theorem splitRemain_le (c : Config) (seg : Segment) : splitRemain c seg ≤ seg.length := by
  unfold splitRemain
  dsimp only
  split_ifs with hwar hremain
  · rw [UInt32.le_iff_toNat_le]
    have hlong := UInt32.lt_iff_toNat_lt.mp hwar.2
    have hsmall := UInt32.le_iff_toNat_le.mp hremain.2
    have h4 : (4 : UInt32).toNat = 4 := rfl
    have h64 : (64 : UInt32).toNat = 64 := rfl
    have h128 : (128 : UInt32).toNat = 128 := rfl
    rw [UInt32.toNat_add, h64]
    omega
  · exact UInt32.zero_le
  · exact UInt32.zero_le

theorem span_add (pa a b : UInt32) (h : a ≤ b) :
    span pa a ++ span (pa + a) (b - a) = span pa b := by
  have hab := UInt32.le_iff_toNat_le.mp h
  have hsum : b.toNat = a.toNat + (b - a).toNat := by
    rw [UInt32.toNat_sub_of_le _ _ h]
    omega
  rw [span, span, span, hsum, List.range_add, List.map_append, List.map_map]
  congr 1
  apply List.map_congr_left
  intro k hk
  rw [Function.comp_apply, UInt32.ofNat_add, UInt32.ofNat_toNat, UInt32.add_assoc]

/-- **Splitting** leaves the octets alone. -/
theorem pieces_octets (c : Config) (seg : Segment) :
    (pieces c seg).flatMap (fun piece => span piece.addr piece.length) =
      span seg.addr seg.length := by
  have hle := splitRemain_le c seg
  unfold pieces
  dsimp only
  split_ifs
  · rw [List.flatMap_singleton]
  · have hback : seg.length - (seg.length - splitRemain c seg) = splitRemain c seg := by
      rw [← UInt32.toNat_inj, UInt32.toNat_sub_of_le, UInt32.toNat_sub_of_le _ _ hle]
      · have := UInt32.le_iff_toNat_le.mp hle
        omega
      · rw [UInt32.le_iff_toNat_le, UInt32.toNat_sub_of_le _ _ hle]
        omega
    have hsub : seg.length - splitRemain c seg ≤ seg.length := by
      rw [UInt32.le_iff_toNat_le, UInt32.toNat_sub_of_le _ _ hle]
      omega
    have hspan := span_add seg.addr _ _ hsub
    rw [hback] at hspan
    rw [List.flatMap_cons, List.flatMap_singleton]
    exact hspan

theorem pieces_pos (c : Config) (seg : Segment) : 0 < (pieces c seg).length := by
  unfold pieces
  dsimp only
  split_ifs <;> exact Nat.succ_pos _

/-! ## Frames -/

/-- The descriptors of a frame, from position `i` on: the flags say where it starts, where it ends,
and where the ring ends. -/
def Framed (r : Ring) : Bool → Bool → Nat → List Descriptor → Prop
  | _, _, _, [] => True
  | sof, eof, i, dd :: dds =>
    (dd.has ctrl1Sof ↔ sof) ∧ (dd.has ctrl1Eof ↔ dds = [] ∧ eof) ∧
      (dd.has ctrl1Eot ↔ i % r.size = r.size - 1) ∧
      (r.parity = true → dd.parity = 0) ∧ Framed r false eof (i + 1) dds

theorem Framed.append {r : Ring} {sof eof : Bool} {i : Nat} {a b : List Descriptor}
    (ha : Framed r sof false i a) (hne : a ≠ []) (hb : Framed r false eof (i + a.length) b)
    (hbne : b ≠ []) : Framed r sof eof i (a ++ b) := by
  induction a generalizing sof i with
  | nil => exact absurd rfl hne
  | cons dd a ih =>
      obtain ⟨hsof, heof, heot, hparity, hrest⟩ := ha
      rw [List.length_cons, Nat.add_comm a.length, ← Nat.add_assoc] at hb
      have hnever : ¬(a = [] ∧ false = true) := fun h => Bool.false_ne_true h.2
      have hlater : ¬(a ++ b = [] ∧ eof = true) := fun h => hbne (List.append_eq_nil_iff.mp h.1).2
      refine ⟨hsof, (iff_false_intro (mt heof.mp hnever)).trans (iff_false_intro hlater).symm, heot,
        hparity, ?_⟩
      by_cases hlast : a = []
      · rw [hlast] at hb ⊢
        exact hb
      · exact ih hrest hlast hb

theorem Framed.get {r : Ring} {sof eof : Bool} {i : Nat} {dds : List Descriptor}
    (h : Framed r sof eof i dds) {j : Nat} (hj : j < dds.length) :
    (dds[j].has ctrl1Eot ↔ (i + j) % r.size = r.size - 1) ∧
    (r.parity = true → dds[j].parity = 0) := by
  induction dds generalizing sof i j with
  | nil => exact absurd hj (Nat.not_lt_zero _)
  | cons dd dds ih =>
      obtain ⟨-, -, heot, hparity, hrest⟩ := h
      cases j with
      | zero => exact ⟨heot, hparity⟩
      | succ j =>
          have hnext := ih hrest (Nat.lt_of_succ_lt_succ hj)
          rwa [Nat.add_assoc, Nat.add_comm 1] at hnext

/-! ## Posting -/

/-- The descriptors `l` are on the ring from position `i` on, and the next one comes behind them. -/
structure Posting (c : Config) (i : Nat) (l : List Descriptor) (s : Post) : Prop where
  ring : OnRing c.ntxd s.txd i l
  out : s.txout = (i + l.length) % c.ntxd

section

variable {c : Config} {i : Nat} {l : List Descriptor} {s : Post}

theorem put_spec (h : Posting c i l s) (hl : l.length < c.ntxd) (pa flags len : UInt32) :
    Posting c i (l ++ [ddUpd c.ring pa flags len]) (put c (i % c.ntxd) pa flags len s).2 ∧
      ((put c (i % c.ntxd) pa flags len s).1 = true ↔ l.length + 1 < c.ntxd) := by
  have hnext : next c.ntxd s.txout = (i + (l.length + 1)) % c.ntxd := by
    rw [h.out]
    exact next_eq c.ring _
  refine ⟨⟨?_, ?_⟩, ?_⟩
  · have hpush := h.ring.push hl (ddUpd c.ring pa flags len)
    rwa [← h.out] at hpush
  · rw [List.length_append, List.length_singleton]
    exact hnext
  · rw [put]
    dsimp only
    rw [bne_iff_ne, hnext]
    constructor
    · intro hne
      by_contra hfull
      have hall : l.length + 1 = c.ntxd := by omega
      rw [hall, Nat.add_mod_right] at hne
      exact hne rfl
    · intro hlt heq
      have hzero := (ring_inj (i := i) (j := l.length + 1) (k := 0) hlt (by omega)).mp heq
      omega

theorem ddUpd_octets (r : Ring) (pa flags : UInt32) {len : UInt32} (h : len.toNat < 2 ^ 15) :
    octets r (ddUpd r pa flags len) = span pa len := by
  rw [octets, ddUpd_address, ddUpd_length r pa flags h, UInt32.ofNat_toNat]

theorem ddUpd_has (r : Ring) (pa flags len flag : UInt32) :
    (ddUpd r pa flags len).has flag ↔ flags &&& flag ≠ 0 := by
  rw [Descriptor.has, ddUpd_ctrl1]

theorem flags_whole (sof eof : Bool) (eot : Prop) [Decidable eot] :
    let flags :=
      (if sof then ctrl1Sof else 0) ||| (if eof then ctrl1Ioc ||| ctrl1Eof else 0) |||
      (if eot then ctrl1Eot else 0)
    (flags &&& ctrl1Sof ≠ 0 ↔ sof = true) ∧ (flags &&& ctrl1Eof ≠ 0 ↔ eof = true) ∧
        (flags &&& ctrl1Eot ≠ 0 ↔ eot) := by
  by_cases heot : eot
  · simp only [heot, if_true, iff_true]
    revert sof eof
    decide
  · simp only [heot, if_false, iff_false]
    revert sof eof
    decide

theorem flags_split (sof eof : Bool) (eot eot' : Prop) [Decidable eot] [Decidable eot'] :
    let flags :=
      (if sof then ctrl1Sof else 0) ||| (if eof then ctrl1Ioc ||| ctrl1Eof else 0) |||
      (if eot then ctrl1Eot else 0)
    let first := flags &&& ~~~(ctrl1Eof ||| ctrl1Ioc)
    let second := (flags &&& ~~~(ctrl1Sof ||| ctrl1Eot)) ||| (if eot' then ctrl1Eot else 0)
    ((first &&& ctrl1Sof ≠ 0 ↔ sof = true) ∧ first &&& ctrl1Eof = 0 ∧
      (first &&& ctrl1Eot ≠ 0 ↔ eot)) ∧
      second &&& ctrl1Sof = 0 ∧ (second &&& ctrl1Eof ≠ 0 ↔ eof = true) ∧
          (second &&& ctrl1Eot ≠ 0 ↔ eot') := by
  by_cases heot : eot
  · by_cases heot' : eot'
    · simp only [heot, heot', if_true, iff_true]
      revert sof eof
      decide
    · simp only [heot, heot', if_true, if_false, iff_true, iff_false]
      revert sof eof
      decide
  · by_cases heot' : eot'
    · simp only [heot, heot', if_true, if_false, iff_true, iff_false]
      revert sof eof
      decide
    · simp only [heot, heot', if_false, iff_false]
      revert sof eof
      decide

/-- **A segment.** -/
theorem postSegment_spec (h : Posting c i l s) (hl : l.length < c.ntxd) (sof eof : Bool)
    {seg : Segment} (hseg : seg.length.toNat < 2 ^ 15) : ∃ dds : List Descriptor,
    Posting c i (l ++ dds) (postSegment c (i % c.ntxd) sof eof seg s).2 ∧
      ((postSegment c (i % c.ntxd) sof eof seg s).1 = true ↔
        l.length + (pieces c seg).length < c.ntxd) ∧
      ((postSegment c (i % c.ntxd) sof eof seg s).1 = true →
        dds.length = (pieces c seg).length ∧ Framed c.ring sof eof (i + l.length) dds ∧
          dds.flatMap (octets c.ring) = span seg.addr seg.length ∧
          (postSegment c (i % c.ntxd) sof eof seg s).2.segsadd + 1 = s.segsadd + dds.length ∧
          (eof = true → (postSegment c (i % c.ntxd) sof eof seg s).2.flags &&& ctrl1Eof ≠ 0)) := by
  have hposition (k : Nat) (t : Post) (ht : t.txout = (i + k) % c.ntxd) :
      t.txout = c.ntxd - 1 ↔ (i + k) % c.ring.size = c.ring.size - 1 := by
    rw [ht]
    rfl
  have hle := UInt32.le_iff_toNat_le.mp (splitRemain_le c seg)
  unfold postSegment pieces
  dsimp only
  by_cases hsplit : splitRemain c seg = 0
  · rw [if_neg (not_not_intro hsplit), if_pos hsplit]
    obtain ⟨hsof, heof, heot⟩ := flags_whole sof eof (s.txout = c.ntxd - 1)
    obtain ⟨hposting, hok⟩ := put_spec h hl seg.addr _ seg.length
    refine ⟨_, hposting, hok,
      fun _ => ⟨rfl, ⟨?_, ?_, ?_, ddUpd_parity _ _ _ _, trivial⟩, ?_, rfl, heof.mpr⟩⟩
    · exact (ddUpd_has ..).trans hsof
    · exact (ddUpd_has ..).trans (heof.trans (by simp))
    · exact (ddUpd_has ..).trans (heot.trans (hposition _ s h.out))
    · rw [List.flatMap_singleton, ddUpd_octets _ _ _ hseg]
  · rw [if_pos hsplit, if_neg hsplit]
    obtain ⟨hfirst, hok₁⟩ := put_spec h hl seg.addr
      (((if sof then ctrl1Sof else 0) ||| (if eof then ctrl1Ioc ||| ctrl1Eof else 0) |||
        (if s.txout = c.ntxd - 1 then ctrl1Eot else 0)) &&& ~~~(ctrl1Eof ||| ctrl1Ioc))
          (seg.length - splitRemain c seg)
    have hkept : (put c (i % c.ntxd) seg.addr (((if sof then ctrl1Sof else 0) |||
        (if eof then ctrl1Ioc ||| ctrl1Eof else 0) |||
          (if s.txout = c.ntxd - 1 then ctrl1Eot else 0)) &&&
          ~~~(ctrl1Eof ||| ctrl1Ioc)) (seg.length - splitRemain c seg) s).2.segsadd = s.segsadd :=
            rfl
    generalize put c (i % c.ntxd) seg.addr _ (seg.length - splitRemain c seg) s = r
      at hfirst hok₁ hkept ⊢
    obtain ⟨ok, s'⟩ := r
    dsimp only at hfirst hok₁ hkept ⊢
    have hlength (dd : Descriptor) : (l ++ [dd]).length = l.length + 1 := by
      rw [List.length_append, List.length_singleton]
    by_cases hok : ok = true
    · rw [if_pos hok]
      have hroom := hok₁.mp hok
      have hsecond : Posting c i (l ++ _) { s' with segsadd := s'.segsadd + 1 } :=
        ⟨hfirst.ring, hfirst.out⟩
      obtain ⟨⟨hsof, heof, heot⟩, hsof', heof', heot'⟩ :=
        flags_split sof eof (s.txout = c.ntxd - 1) (s'.txout = c.ntxd - 1)
      obtain ⟨hposting, hok₂⟩ :=
        put_spec hsecond (by rwa [hlength]) (seg.addr + (seg.length - splitRemain c seg)) _
        (splitRemain c seg)
      rw [List.append_assoc] at hposting
      have hremain : (splitRemain c seg).toNat < 2 ^ 15 := by omega
      have hrest : (seg.length - splitRemain c seg).toNat < 2 ^ 15 := by
        rw [UInt32.toNat_sub_of_le _ _ (splitRemain_le c seg)]
        omega
      have hout := hfirst.out
      rw [hlength] at hout
      refine ⟨_, hposting, ?_, fun _ => ⟨rfl,
        ⟨?_, ?_, ?_, ddUpd_parity _ _ _ _, ?_, ?_, ?_, ddUpd_parity _ _ _ _, trivial⟩,
        ?_, ?_, heof'.mpr⟩⟩
      · rw [hok₂, hlength]
        rfl
      · exact (ddUpd_has ..).trans hsof
      · rw [ddUpd_has, heof]
        simp
      · exact (ddUpd_has ..).trans (heot.trans (hposition _ s h.out))
      · rw [ddUpd_has, hsof']
        simp
      · exact (ddUpd_has ..).trans (heof'.trans (by simp))
      · exact (ddUpd_has ..).trans (heot'.trans (hposition _ s' hout))
      · rw [List.singleton_append, List.flatMap_cons, List.flatMap_singleton,
          ddUpd_octets _ _ _ hrest, ddUpd_octets _ _ _ hremain, ← pieces_octets c seg, pieces,
          if_neg hsplit, List.flatMap_cons, List.flatMap_singleton]
      · rw [← hkept]
        rfl
    · rw [if_neg hok]
      refine ⟨_, hfirst, ?_, fun hfalse => absurd hfalse Bool.false_ne_true⟩
      have hfull := mt hok₁.mpr hok
      constructor
      · intro hfalse
        exact absurd hfalse Bool.false_ne_true
      · intro hlt
        have htwo : l.length + 2 < c.ntxd := hlt
        omega

/-- **All segments** of a packet. -/
theorem postSegments_spec {segs : List Segment} (hne : segs ≠ [])
    (hsegs : ∀ seg ∈ segs, seg.length.toNat < 2 ^ 15) (h : Posting c i l s) (hl : l.length < c.ntxd)
    (sof : Bool) : ∃ dds : List Descriptor,
    Posting c i (l ++ dds) (postSegments c (i % c.ntxd) sof segs s).2 ∧
      ((postSegments c (i % c.ntxd) sof segs s).1 = true ↔
        l.length + (segs.flatMap (pieces c)).length < c.ntxd) ∧
      ((postSegments c (i % c.ntxd) sof segs s).1 = true →
        dds.length = (segs.flatMap (pieces c)).length ∧ Framed c.ring sof true (i + l.length) dds ∧
          dds.flatMap (octets c.ring) = segs.flatMap (fun seg => span seg.addr seg.length) ∧
          (postSegments c (i % c.ntxd) sof segs s).2.segsadd + segs.length =
            s.segsadd + dds.length ∧
          (postSegments c (i % c.ntxd) sof segs s).2.flags &&& ctrl1Eof ≠ 0) := by
  induction segs generalizing l s sof with
  | nil => exact absurd rfl hne
  | cons seg segs ih =>
      obtain ⟨dds, hposting, hok, hdone⟩ :=
        postSegment_spec h hl sof segs.isEmpty (hsegs seg List.mem_cons_self)
      rw [postSegments]
      generalize postSegment c (i % c.ntxd) sof segs.isEmpty seg s = r at hposting hok hdone ⊢
      obtain ⟨ok, s'⟩ := r
      dsimp only at hposting hok hdone ⊢
      have hcount : ((seg :: segs).flatMap (pieces c)).length =
          (pieces c seg).length + (segs.flatMap (pieces c)).length := by
        rw [List.flatMap_cons, List.length_append]
      by_cases htrue : ok = true
      · rw [if_pos htrue]
        obtain ⟨hlength, hframed, hoctets, hadd, heof⟩ := hdone htrue
        have hroom := hok.mp htrue
        have hboth : (l ++ dds).length = l.length + (pieces c seg).length := by
          rw [List.length_append, hlength]
        by_cases hlast : segs = []
        · subst hlast
          refine ⟨dds, hposting, ?_, fun _ => ⟨?_, hframed, ?_, hadd, heof rfl⟩⟩
          · rw [hcount]
            exact iff_of_true rfl hroom
          · rw [hcount, hlength]
            rfl
          · rw [hoctets, List.flatMap_singleton]
        · obtain ⟨dds', hposting', hok', hdone'⟩ :=
            ih hlast (fun seg' hmem => hsegs seg' (List.mem_cons_of_mem _ hmem))
            hposting (by rwa [hboth]) false
          rw [List.append_assoc] at hposting'
          refine ⟨dds ++ dds', hposting', ?_, fun hall => ?_⟩
          · rw [hok', hboth, hcount, Nat.add_assoc]
          · obtain ⟨hlength', hframed', hoctets', hadd', hflags⟩ := hdone' hall
            have hsome : dds ≠ [] := by
              rintro rfl
              have hpos := pieces_pos c seg
              rw [← hlength] at hpos
              exact Nat.lt_irrefl 0 hpos
            have hsome' : dds' ≠ [] := by
              rintro rfl
              obtain ⟨seg', segs', rfl⟩ := List.exists_cons_of_ne_nil hlast
              have hpos := pieces_pos c seg'
              rw [List.flatMap_cons, List.length_append, List.length_nil] at hlength'
              omega
            have hnot : segs.isEmpty = false := by
              rw [List.isEmpty_eq_false_iff]
              exact hlast
            rw [hnot] at hframed
            rw [List.length_append, ← Nat.add_assoc] at hframed'
            refine ⟨?_, hframed.append hsome hframed' hsome', ?_, ?_, hflags⟩
            · rw [List.length_append, hlength, hlength', hcount]
            · rw [List.flatMap_append, List.flatMap_cons, hoctets, hoctets']
            · rw [List.length_cons, List.length_append]
              omega
      · rw [if_neg htrue]
        refine ⟨dds, hposting, ?_, fun hfalse => absurd hfalse Bool.false_ne_true⟩
        have hfull := mt hok.mpr htrue
        constructor
        · intro hfalse
          exact absurd hfalse Bool.false_ne_true
        · intro hlt
          rw [hcount] at hlt
          omega

end

/-! ## Packets on the ring -/

/-- A packet and its descriptors. -/
structure Entry where
  packet : Packet
  dds : List Descriptor

/-- The pointers of a packet: it is at its last descriptor. -/
def Entry.pointers (e : Entry) : List (Option Packet) :=
  List.replicate (e.dds.length - 1) none ++ [some e.packet]

/-- The descriptors of one packet after another. -/
def Entries (r : Ring) : Nat → List Entry → Prop
  | _, [] => True
  | i, e :: es => e.dds ≠ [] ∧ Framed r true true i e.dds ∧
      e.dds.flatMap (octets r) = e.packet.octets ∧
      Entries r (i + e.dds.length) es

/-- The count of descriptors is with the first one of each packet. -/
def Counts (n : Nat) (nsegs : Nat → Nat) : Nat → List Entry → Prop
  | _, [] => True
  | i, e :: es => e.dds ≠ [] ∧ nsegs (i % n) = e.dds.length ∧ Counts n nsegs (i + e.dds.length) es

/-- The descriptors of packets. -/
def flat (es : List Entry) : List Descriptor := es.flatMap Entry.dds

theorem flat_append (es es' : List Entry) : flat (es ++ es') = flat es ++ flat es' :=
  List.flatMap_append

theorem Entries.append_iff {r : Ring} {i : Nat} {es es' : List Entry} :
    Entries r i (es ++ es') ↔ Entries r i es ∧ Entries r (i + (flat es).length) es' := by
  induction es generalizing i with
  | nil => exact ⟨fun h => ⟨trivial, h⟩, fun h => h.2⟩
  | cons e es ih =>
      have hlength : i + (flat (e :: es)).length = i + e.dds.length + (flat es).length := by
        rw [flat, List.flatMap_cons, List.length_append, Nat.add_assoc]
        rfl
      rw [List.cons_append, Entries, Entries, ih, hlength, and_assoc, and_assoc, and_assoc]

theorem Entries.get {r : Ring} {i : Nat} {es : List Entry} (h : Entries r i es) {j : Nat}
    (hj : j < (flat es).length) :
    ((flat es)[j].has ctrl1Eot ↔ (i + j) % r.size = r.size - 1) ∧
    (r.parity = true → (flat es)[j].parity = 0) := by
  induction es generalizing i j with
  | nil => exact absurd hj (Nat.not_lt_zero _)
  | cons e es ih =>
      obtain ⟨-, hframed, -, hrest⟩ := h
      have hflat : flat (e :: es) = e.dds ++ flat es := List.flatMap_cons
      simp only [hflat] at hj ⊢
      by_cases hin : j < e.dds.length
      · rw [List.getElem_append_left hin]
        exact hframed.get hin
      · have hrest' := ih hrest (j := j - e.dds.length) (by rw [List.length_append] at hj; omega)
        have hsum : i + e.dds.length + (j - e.dds.length) = i + j := by omega
        rw [hsum] at hrest'
        rw [List.getElem_append_right (Nat.le_of_not_lt hin)]
        exact hrest'

theorem Counts.append_iff {n i : Nat} {nsegs : Nat → Nat} {es es' : List Entry} :
    Counts n nsegs i (es ++ es') ↔
    Counts n nsegs i es ∧ Counts n nsegs (i + (flat es).length) es' := by
  induction es generalizing i with
  | nil => exact ⟨fun h => ⟨trivial, h⟩, fun h => h.2⟩
  | cons e es ih =>
      have hlength : i + (flat (e :: es)).length = i + e.dds.length + (flat es).length := by
        rw [flat, List.flatMap_cons, List.length_append, Nat.add_assoc]
        rfl
      rw [List.cons_append, Counts, Counts, ih, hlength, and_assoc, and_assoc]

theorem flat_cons_length (e : Entry) (es : List Entry) :
    (flat (e :: es)).length = e.dds.length + (flat es).length := by
  rw [flat, List.flatMap_cons, List.length_append]
  rfl

theorem Counts.update {n i j : Nat} {nsegs : Nat → Nat} {es : List Entry} (h : Counts n nsegs i es)
    (hle : (flat es).length ≤ j) (hj : j < n) (v : Nat) :
    Counts n (Function.update nsegs ((i + j) % n) v) i es := by
  induction es generalizing i j with
  | nil => trivial
  | cons e es ih =>
      obtain ⟨hne, hcount, hrest⟩ := h
      have hpos := List.length_pos_iff.mpr hne
      rw [flat_cons_length] at hle
      refine ⟨hne, ?_, ?_⟩
      · rw [Function.update_of_ne, hcount]
        intro heq
        have hzero := (ring_inj (i := i) (j := 0) (k := j) (by omega) hj).mp heq
        omega
      · have hrec := ih hrest (j := j - e.dds.length) (by omega) (by omega)
        have hsum : i + e.dds.length + (j - e.dds.length) = i + j := by omega
        rwa [hsum] at hrec

theorem Entry.pointers_length {e : Entry} (h : e.dds ≠ []) : e.pointers.length = e.dds.length := by
  have hpos := List.length_pos_iff.mpr h
  rw [pointers, List.length_append, List.length_replicate, List.length_singleton]
  omega

theorem Counts.pointers_length {n i : Nat} {nsegs : Nat → Nat} {es : List Entry}
    (h : Counts n nsegs i es) :
    (es.flatMap Entry.pointers).length = (flat es).length := by
  induction es generalizing i with
  | nil => rfl
  | cons e es ih =>
      rw [List.flatMap_cons, List.length_append, flat_cons_length,
        Entry.pointers_length h.1, ih h.2.2]

/-- The driver's side of the ring: these packets are on it, from position `i` on. -/
structure Loaded (c : Config) (i : Nat) (es : List Entry) (di : TxInfo) : Prop where
  txin : di.txin = i % c.ntxd
  txout : di.txout = (i + (flat es).length) % c.ntxd
  room : (flat es).length < c.ntxd
  txd : OnRing c.ntxd di.txd i (flat es)
  /-- the cells that are not used have no packet -/
  txp :
    OnRing c.ntxd di.txp i (es.flatMap Entry.pointers ++
      List.replicate (c.ntxd - (flat es).length) none)
  nsegs : Counts c.ntxd di.nsegs i es
  avail : di.txavail = 0 ∨ di.txavail = c.ntxd - 1 - (flat es).length

/-- The descriptors that a packet needs. -/
def Packet.count (c : Config) (p : Packet) : Nat := (p.segs.flatMap (pieces c)).length

theorem count_ge (c : Config) (segs : List Segment) :
    segs.length ≤ (segs.flatMap (pieces c)).length := by
  induction segs with
  | nil => exact Nat.zero_le _
  | cons seg segs ih =>
      have hpos := pieces_pos c seg
      rw [List.flatMap_cons, List.length_append, List.length_cons]
      omega

theorem pointers_set (ptrs : List (Option Packet)) {k m : Nat} (hm : 0 < m) (hk : m ≤ k)
    (p : Packet) :
    (ptrs ++ List.replicate k none).set (ptrs.length + (m - 1)) (some p) =
      ptrs ++ (List.replicate (m - 1) none ++ [some p]) ++ List.replicate (k - m) none := by
  have hzeros : List.replicate k (none : Option Packet) =
      List.replicate (m - 1) none ++ none :: List.replicate (k - m) none := by
    rw [← List.replicate_succ, ← List.replicate_add]
    congr 1
    omega
  rw [hzeros, List.set_append_right _ _ (Nat.le_add_right _ _), Nat.add_sub_cancel_left,
    List.set_append_right _ _ (by rw [List.length_replicate]), List.length_replicate, Nat.sub_self,
    List.set_cons_zero]
  simp only [List.append_assoc, List.singleton_append]

theorem Loaded.active {c : Config} {i : Nat} {es : List Entry} {di : TxInfo}
    (h : Loaded c i es di) :
    active c.ntxd di.txin di.txout = (flat es).length := by
  have hactive := active_eq c.ring i (flat es).length
  rw [h.txin, h.txout]
  exact hactive.trans (Nat.mod_eq_of_lt h.room)

/-! ## One call of the driver -/

section

variable {c : Config} {i : Nat} {es : List Entry} {di : TxInfo} {p : Packet}

theorem postBuffers_spec (h : Loaded c i es di) (hp : PacketOk p) :
    let r :=
      postBuffers c di true p.bufs di.nsegs
      { txd := di.txd, txout := di.txout, flags := 0, segsadd := 0 }
    ∃ dds : List Descriptor, Posting c i (flat es ++ dds) r.2.2 ∧ Counts c.ntxd r.2.1 i es ∧
      (r.1 = true ↔ (flat es).length + p.count c < c.ntxd) ∧
      (r.1 = true → dds.length = p.count c ∧ Framed c.ring true true (i + (flat es).length) dds ∧
        dds.flatMap (octets c.ring) = p.octets ∧ r.2.2.flags &&& ctrl1Eof ≠ 0 ∧
        r.2.1 ((i + (flat es).length) % c.ntxd) = dds.length) := by
  obtain ⟨b, bs, hbufs, hlen, hne, hsegs⟩ := hp
  have hsegments : p.segs = b.segs := by rw [Packet.segs, hbufs, List.headD_cons]
  have hcount : p.count c = (b.segs.flatMap (pieces c)).length := by rw [Packet.count, hsegments]
  have hoctets : p.octets = b.segs.flatMap fun seg => span seg.addr seg.length := by
    rw [Packet.octets, hsegments]
  have hroom := h.room
  have hge := count_ge c b.segs
  have hpos := List.length_pos_iff.mpr hne
  have hstart :
      Posting c i (flat es) { txd := di.txd, txout := di.txout, flags := 0, segsadd := 0 } :=
    ⟨h.txd, h.txout⟩
  have hnext : next c.ntxd di.txout = (i + ((flat es).length + 1)) % c.ntxd := by
    rw [h.txout]
    exact next_eq c.ring _
  have hupdate (v : Nat) := h.nsegs.update le_rfl hroom v
  rw [hbufs, postBuffers, hcount, hoctets]
  dsimp only
  by_cases hfull : next c.ntxd di.txout = di.txin
  · rw [if_pos hfull]
    refine ⟨[], by rwa [List.append_nil], h.nsegs, ?_,
      fun hfalse => absurd hfalse Bool.false_ne_true⟩
    constructor
    · intro hfalse
      exact absurd hfalse Bool.false_ne_true
    · intro hlt
      rw [hnext, h.txin] at hfull
      have hzero :=
        (ring_inj (i := i) (j := (flat es).length + 1) (k := 0) (by omega) (by omega)).mp hfull
      omega
  · rw [if_neg hfull, if_neg hlen, h.active]
    by_cases hfew : c.ntxd - (flat es).length - 1 < b.segs.length
    · rw [if_pos hfew]
      refine ⟨[], by rwa [List.append_nil], ?_, ?_, fun hfalse => absurd hfalse Bool.false_ne_true⟩
      · rw [h.txout]
        exact hupdate _
      · constructor
        · intro hfalse
          exact absurd hfalse Bool.false_ne_true
        · intro hlt
          omega
    · obtain ⟨dds, hposting, hok, hdone⟩ := postSegments_spec hne hsegs hstart hroom true
      rw [if_neg hfew, h.txin]
      generalize postSegments c (i % c.ntxd) true b.segs _ = r at hposting hok hdone ⊢
      obtain ⟨ok, s⟩ := r
      dsimp only at hposting hok hdone ⊢
      by_cases htrue : ok = true
      · obtain ⟨hlength, hframed, hspan, hadd, heof⟩ := hdone htrue
        rw [if_pos htrue, h.txout]
        refine ⟨dds, hposting, ?_, ?_, fun _ => ⟨hlength, hframed, hspan, heof, ?_⟩⟩
        · rw [Function.update_idem]
          exact hupdate _
        · exact iff_of_true rfl (hok.mp htrue)
        · dsimp only
          rw [Function.update_self, Function.update_self]
          omega
      · rw [if_neg htrue, h.txout]
        refine ⟨dds, hposting, hupdate _, ?_, fun hfalse => absurd hfalse Bool.false_ne_true⟩
        exact iff_of_false Bool.false_ne_true (mt hok.mpr htrue)

/-- **A packet is posted** when there is room for its descriptors. -/
theorem txfast_posted (h : Loaded c i es di) (hp : PacketOk p)
    (hroom : (flat es).length + p.count c < c.ntxd) (commit : Bool) :
    ∃ e : Entry, e.packet = p ∧ Entries c.ring (i + (flat es).length) [e] ∧
      (txfast c di p commit).1 = 0 ∧ Loaded c i (es ++ [e]) (txfast c di p commit).2.1 ∧
      (txfast c di p commit).2.1.xs0cd = di.xs0cd ∧
      (txfast c di p commit).2.2 =
        if commit then some (c.ring.base + i2b ((i + (flat (es ++ [e])).length) % c.ntxd))
        else none := by
  obtain ⟨dds, hposting, hcounts, hok, hdone⟩ := postBuffers_spec h hp
  rw [txfast]
  generalize postBuffers c di true p.bufs di.nsegs _ = r at hposting hcounts hok hdone ⊢
  obtain ⟨ok, nsegs, s⟩ := r
  dsimp only at hposting hcounts hok hdone ⊢
  have htrue := hok.mpr hroom
  obtain ⟨hlength, hframed, hoctets, heof, hcount⟩ := hdone htrue
  rw [if_pos htrue, if_neg heof]
  have hflat : flat (es ++ [⟨p, dds⟩]) = flat es ++ dds := by
    rw [flat_append]
    exact congrArg _ (List.flatMap_singleton _ _)
  have hflatLength : (flat (es ++ [⟨p, dds⟩])).length = (flat es).length + p.count c := by
    rw [hflat, List.length_append, hlength]
  have hpos : 0 < dds.length := by
    obtain ⟨b, bs, hbufs, -, hne, -⟩ := hp
    have hge := count_ge c p.segs
    have hsome := List.length_pos_iff.mpr hne
    have hsegments : p.segs = b.segs := by rw [Packet.segs, hbufs, List.headD_cons]
    rw [hsegments] at hge
    rw [hlength, Packet.count, hsegments]
    omega
  have hne : dds ≠ [] := List.length_pos_iff.mp hpos
  have hout := hposting.out
  rw [← hflat] at hout
  have hlast : prev c.ntxd s.txout = (i + ((flat es).length + (dds.length - 1))) % c.ntxd := by
    have hsum : i + (flat (es ++ [⟨p, dds⟩])).length =
        i + ((flat es).length + (dds.length - 1)) + 1 := by
      rw [hflatLength, ← hlength]
      omega
    rw [hout, hsum]
    exact prev_eq c.ring _
  have hring : Posting c i (flat (es ++ [⟨p, dds⟩])) s := by rwa [hflat]
  have hroom' : (flat (es ++ [⟨p, dds⟩])).length < c.ring.size := by
    rw [hflatLength]
    exact hroom
  have hactive :=
    (active_eq c.ring i (flat (es ++ [⟨p, dds⟩])).length).trans (Nat.mod_eq_of_lt hroom')
  refine ⟨⟨p, dds⟩, rfl, ⟨hne, hframed, hoctets, trivial⟩, rfl, ?_, rfl, ?_⟩
  · constructor
    · exact h.txin
    · exact hout
    · exact hroom'
    · exact hring.ring
    · have hsum : ((es ++ [(⟨p, dds⟩ : Entry)]).flatMap Entry.pointers ++
          List.replicate (c.ntxd - (flat (es ++ [⟨p, dds⟩])).length) none) =
          (es.flatMap Entry.pointers ++ List.replicate (c.ntxd - (flat es).length) none).set
            ((flat es).length + (dds.length - 1)) (some p) := by
        have hset := pointers_set (es.flatMap Entry.pointers) hpos
          (k := c.ntxd - (flat es).length) (by omega) p
        rw [h.nsegs.pointers_length] at hset
        rw [hset, hflatLength, ← hlength, ← Nat.sub_sub, List.flatMap_append,
          List.flatMap_singleton]
        rfl
      have hall :
          (es.flatMap Entry.pointers ++ List.replicate (c.ntxd - (flat es).length)
          (none : Option Packet)).length
          = c.ntxd := by
        have hbefore := h.room
        rw [List.length_append, List.length_replicate, h.nsegs.pointers_length]
        omega
      rw [hsum]
      dsimp only
      rw [hlast]
      exact h.txp.set (Nat.le_of_eq hall) (by rw [hall]; omega) _
    · exact Counts.append_iff.mpr ⟨hcounts, hne, hcount, trivial⟩
    · refine Or.inr ?_
      dsimp only
      rw [h.txin, hout, Nat.sub_right_comm]
      exact congrArg (c.ntxd - 1 - ·) hactive
  · rw [hout]

/-- **A packet is refused** when there is no room. -/
theorem txfast_refused (h : Loaded c i es di) (hp : PacketOk p)
    (hroom : ¬(flat es).length + p.count c < c.ntxd) (commit : Bool) :
    (txfast c di p commit).1 = -1 ∧ Loaded c i es (txfast c di p commit).2.1 ∧
      (txfast c di p commit).2.1.xs0cd = di.xs0cd ∧ (txfast c di p commit).2.2 = none := by
  obtain ⟨dds, hposting, hcounts, hok, -⟩ := postBuffers_spec h hp
  rw [txfast]
  generalize postBuffers c di true p.bufs di.nsegs _ = r at hposting hcounts hok ⊢
  obtain ⟨ok, nsegs, s⟩ := r
  dsimp only at hposting hcounts hok ⊢
  rw [if_neg (mt hok.mp hroom)]
  exact ⟨rfl, ⟨h.txin, h.txout, h.room, (OnRing.append_iff.mp hposting.ring).1, h.txp, hcounts,
    Or.inl rfl⟩, rfl, rfl⟩

/-- What a call that takes packets off does not touch. -/
structure SameRest (di di' : TxInfo) : Prop where
  txin : di'.txin = di.txin
  txout : di'.txout = di.txout
  xs0cd : di'.xs0cd = di.xs0cd
  nsegs : di'.nsegs = di.nsegs
  txavail : di'.txavail = di.txavail

theorem SameRest.trans {di di' di'' : TxInfo} (h : SameRest di di') (h' : SameRest di' di'') :
    SameRest di di'' :=
  ⟨h'.txin.trans h.txin, h'.txout.trans h.txout, h'.xs0cd.trans h.xs0cd, h'.nsegs.trans h.nsegs,
    h'.txavail.trans h.txavail⟩

/-- **Taking a packet off**: the cells become those behind the last one. -/
theorem takeOff_spec {dds rest : List Descriptor} {ptrs more : List (Option Packet)}
    (hne : dds ≠ []) (hptrs : ptrs.length = dds.length)
    (htxd : OnRing c.ntxd di.txd i (dds ++ rest)) (hlt : (dds ++ rest).length < c.ntxd)
    (htxp : OnRing c.ntxd di.txp i (ptrs ++ more)) (hall : (ptrs ++ more).length = c.ntxd)
    (txp : Option Packet) :
    ∃ di' : TxInfo, takeOff c dds.length di (i % c.ntxd) txp =
      (di', (i + (dds.length - 1)) % c.ntxd, ptrs.getLastD none) ∧
      OnRing c.ntxd di'.txd (i + dds.length) rest ∧
      OnRing c.ntxd di'.txp (i + dds.length) (more ++ List.replicate dds.length none) ∧
      SameRest di di' := by
  induction dds generalizing i di ptrs more txp with
  | nil => exact absurd rfl hne
  | cons dd dds ih =>
      obtain ⟨ptr, ptrs, rfl⟩ :=
        List.exists_cons_of_length_pos (by rw [hptrs, List.length_cons]; omega : 0 < ptrs.length)
      rw [List.length_cons, List.length_cons] at hptrs
      rw [List.cons_append] at htxd htxp hall
      have hptr : di.txp (i % c.ntxd) = ptr := htxp.head
      rw [List.cons_append, List.length_cons] at hlt
      obtain ⟨di₁, hdi₁⟩ : ∃ di₁ : TxInfo, di₁ = { di with
          txd := Function.update di.txd (i % c.ntxd)
            { di.txd (i % c.ntxd) with addrlow := deadbeef, addrhigh := deadbeef }
          txp := Function.update di.txp (i % c.ntxd) none } := ⟨_, rfl⟩
      have htxd' : OnRing c.ntxd di₁.txd (i + 1) (dds ++ rest) := by
        rw [hdi₁]
        exact htxd.tail.update_head (by omega) _
      have htxp' : OnRing c.ntxd di₁.txp (i + 1) (ptrs ++ (more ++ [none])) := by
        rw [hdi₁, ← List.append_assoc]
        exact OnRing.rotate htxp hall none
      have hsame₁ : SameRest di di₁ := by
        rw [hdi₁]
        exact ⟨rfl, rfl, rfl, rfl, rfl⟩
      rw [List.length_cons, takeOff]
      dsimp only
      rw [← hdi₁, hptr]
      by_cases hlast : dds = []
      · subst hlast
        obtain rfl : ptrs = [] := List.length_eq_zero_iff.mp (by simpa using hptrs)
        exact ⟨di₁, rfl, htxd', htxp', hsame₁⟩
      · have hpos := List.length_pos_iff.mpr hlast
        have hnext : next c.ntxd (i % c.ntxd) = (i + 1) % c.ntxd := next_eq c.ring i
        have hall' : (ptrs ++ (more ++ [none])).length = c.ntxd := by
          simp only [← hall, List.length_append, List.length_cons, List.length_nil]
          omega
        rw [if_pos hpos, hnext]
        obtain ⟨di', htake, htxd'', htxp'', hsame⟩ :=
          ih hlast (by omega) htxd' (by omega) htxp' hall' ptr
        have hlastPtr : (ptr :: ptrs).getLastD none = ptrs.getLastD none := by
          obtain ⟨ptr', ptrs', rfl⟩ := List.exists_cons_of_length_pos (by omega : 0 < ptrs.length)
          rfl
        have hposition : i + 1 + (dds.length - 1) = i + (dds.length + 1 - 1) := by omega
        have hbehind : i + 1 + dds.length = i + (dds.length + 1) := by omega
        rw [hposition] at htake
        rw [hbehind] at htxd'' htxp''
        rw [List.append_assoc, List.singleton_append, ← List.replicate_succ] at htxp''
        exact ⟨di', by rw [htake, hlastPtr], htxd'', htxp'',
          hsame₁.trans hsame⟩

theorem scan_some (stop fuel : Nat) (j : Nat) (q : Packet) :
    scan c stop fuel di j (some q) = (di, j, some q) := by
  cases fuel with
  | zero => rfl
  | succ fuel => rw [scan, if_neg fun h => Bool.false_ne_true h.2]

/-- How `dma64_getnexttxp` ends when the engine is at position `x`: a packet of which it has sent
all, or none. -/
inductive Taken (c : Config) (i x : Nat) (es : List Entry) (di di' : TxInfo) : Option Packet → Prop
  | packet (e : Entry) (rest : List Entry) : es = e :: rest → i + e.dds.length ≤ x →
      Loaded c (i + e.dds.length) rest di' → di'.xs0cd = di.xs0cd →
        Taken c i x es di di' (some e.packet)
  | none : Loaded c i es di' → (di'.xs0cd = di.xs0cd ∨ di'.xs0cd = i % c.ntxd) →
      (x = i + (flat es).length → es = []) → Taken c i x es di di' none

/-- **The scan**, and what is set behind it. -/
theorem scan_spec (h : Loaded c i es di) {x : Nat} (hix : i ≤ x) (hx : x ≤ i + (flat es).length) :
    ∃ di' j txp, scan c (x % c.ntxd) c.ntxd di (i % c.ntxd) none = (di', j, txp) ∧
      Taken c i x es di { di' with txin := j, txavail := c.ntxd - active c.ntxd j di'.txout - 1 }
        txp := by
  have hroom := h.room
  obtain ⟨fuel, hfuel⟩ := Nat.exists_eq_succ_of_ne_zero (Nat.ne_of_gt c.ring.size_pos)
  have hscan : scan c (x % c.ntxd) c.ntxd di (i % c.ntxd) none =
      scan c (x % c.ntxd) (fuel + 1) di (i % c.ntxd) none :=
        congrArg (fun n => scan c (x % c.ntxd) n di (i % c.ntxd) none) hfuel
  have hkept (d : TxInfo) (hd : Loaded c i es d) :
      Loaded c i es { d with
        txin := i % c.ntxd, txavail := c.ntxd - active c.ntxd (i % c.ntxd) d.txout - 1 } := by
    have hactive := hd.active
    rw [hd.txin] at hactive
    refine ⟨rfl, hd.txout, hd.room, hd.txd, hd.txp, hd.nsegs, Or.inr ?_⟩
    dsimp only
    rw [hactive, Nat.sub_right_comm]
  rw [hscan, scan]
  by_cases hat : x = i
  · subst hat
    rw [if_neg fun hgo => hgo.1 rfl]
    refine ⟨di, _, none, rfl, .none (hkept di h) (Or.inl rfl) fun hend => ?_⟩
    cases es with
    | nil => rfl
    | cons e es =>
        have hpos := List.length_pos_iff.mpr h.nsegs.1
        rw [flat_cons_length] at hend
        omega
  · have hne : i % c.ntxd ≠ x % c.ntxd := fun heq => hat (ring_eq hix (by omega) heq)
    obtain ⟨d, rfl⟩ := Nat.exists_eq_add_of_le hix
    have hactive := (active_eq c.ring i d).trans (Nat.mod_eq_of_lt (by
      have hsize : c.ntxd = c.ring.size := rfl
      omega : d < c.ring.size))
    rw [if_pos ⟨hne, rfl⟩]
    dsimp only
    cases es with
    | nil => exact absurd (Nat.le_antisymm hx hix) hat
    | cons e es =>
        obtain ⟨hsome, hcount, hcounts⟩ := h.nsegs
        have hactive' : active c.ntxd (i % c.ntxd) ((i + d) % c.ntxd) = d := hactive
        rw [hcount, hactive']
        rw [flat_cons_length] at hroom hx
        by_cases hpart : d < e.dds.length
        · rw [if_pos hpart]
          have hset : Loaded c i (e :: es) { di with xs0cd := i % c.ntxd } :=
            ⟨h.txin, h.txout, h.room, h.txd, h.txp, h.nsegs, h.avail⟩
          refine ⟨_, _, none, rfl, .none (hkept _ hset) (Or.inr rfl) fun hend => ?_⟩
          rw [flat_cons_length] at hend
          omega
        · rw [if_neg hpart]
          have hflat : flat (e :: es) = e.dds ++ flat es := List.flatMap_cons
          have htxd := h.txd
          rw [hflat] at htxd
          have htxp := h.txp
          rw [List.flatMap_cons, List.append_assoc] at htxp
          have hpointers := h.nsegs.pointers_length
          rw [List.flatMap_cons, List.length_append, flat_cons_length] at hpointers
          have hall : (e.pointers ++ (es.flatMap Entry.pointers ++
              List.replicate (c.ntxd - (flat (e :: es)).length) (none : Option Packet))).length =
                  c.ntxd := by
            rw [List.length_append, List.length_append, List.length_replicate, flat_cons_length]
            omega
          obtain ⟨di', htake, htxd', htxp', hsame⟩ :=
            takeOff_spec hsome (Entry.pointers_length hsome) htxd
            (by rw [List.length_append]; omega) htxp hall none
          have hpos := List.length_pos_iff.mpr hsome
          have hnext : next c.ntxd ((i + (e.dds.length - 1)) % c.ntxd) =
              (i + e.dds.length) % c.ntxd := by
            have hstep := next_eq c.ring (i + (e.dds.length - 1))
            have hsum : i + (e.dds.length - 1) + 1 = i + e.dds.length := by omega
            rwa [hsum] at hstep
          have hlast : e.pointers.getLastD none = some e.packet := by
            rw [Entry.pointers, List.getLastD_concat]
          rw [htake]
          dsimp only
          rw [hlast, hnext, scan_some]
          refine ⟨di', _, _, rfl, .packet e es rfl (by omega) ?_ hsame.xs0cd⟩
          have hout : di'.txout = (i + e.dds.length + (flat es).length) % c.ntxd := by
            rw [hsame.txout, h.txout, flat_cons_length, Nat.add_assoc]
          have hrest :=
              (active_eq c.ring (i + e.dds.length) (flat es).length).trans (Nat.mod_eq_of_lt (by
            have hsize : c.ntxd = c.ring.size := rfl
            omega : (flat es).length < c.ring.size))
          constructor
          · rfl
          · exact hout
          · omega
          · exact htxd'
          · rw [List.append_assoc, ← List.replicate_add, flat_cons_length] at htxp'
            have hzeros : c.ntxd - (e.dds.length + (flat es).length) + e.dds.length =
                c.ntxd - (flat es).length := by omega
            rw [hzeros] at htxp'
            exact htxp'
          · dsimp only
            rw [hsame.nsegs]
            exact hcounts
          · refine Or.inr ?_
            dsimp only
            rw [hout, Nat.sub_right_comm]
            exact congrArg (c.ntxd - 1 - ·) hrest

theorem not_bogus (h : Loaded c i es di) {x : Nat} (hix : i ≤ x) (hx : x ≤ i + (flat es).length) :
    ¬(di.txin = 0 ∧ di.txout < x % c.ntxd) := by
  rintro ⟨hzero, hlt⟩
  have hroom := h.room
  obtain ⟨d, rfl⟩ := Nat.exists_eq_add_of_le hix
  rw [h.txin] at hzero
  rw [h.txout, Nat.add_mod, hzero, Nat.zero_add, Nat.mod_mod, Nat.add_mod, hzero, Nat.zero_add,
    Nat.mod_mod, Nat.mod_eq_of_lt hroom, Nat.mod_eq_of_lt (by omega)] at hlt
  omega

/-- **Reclaiming what is transmitted**: the engine is at position `w`, and the driver has seen it at
position `x`. -/
theorem getnexttxp_transmitted (h : Loaded c i es di) {x w : Nat} (hxs : di.xs0cd = x % c.ntxd)
    (hix : i ≤ x) (hxw : x ≤ w) (hw : w ≤ i + (flat es).length) (state status1 : UInt32) :
    let r := getnexttxp c di .transmitted (statusAt c.ring state (w % c.ntxd)) status1
    ∃ x', i ≤ x' ∧ x' ≤ w ∧ ∃ di' : TxInfo, di'.xs0cd = x' % c.ntxd ∧
        Taken c i x' es di' r.2 r.1 := by
  have hroom := h.room
  have hcurr : currIndex c.ring (statusAt c.ring state (w % c.ntxd)) = w % c.ntxd :=
    currIndex_statusAt c.ring state (Nat.mod_lt _ c.ring.size_pos)
  have hntxd : c.ntxd ≠ 0 := Nat.ne_of_gt c.ring.size_pos
  have hsame : di.txin = di.xs0cd ↔ x = i := by
    rw [h.txin, hxs]
    constructor
    · exact fun heq => ring_eq hix (by omega) heq
    · rintro rfl
      rfl
  rw [getnexttxp, if_neg hntxd]
  dsimp only
  by_cases hfresh : x = i
  · rw [if_pos (hsame.mpr hfresh), hcurr]
    have hset : Loaded c i es { di with xs0cd := w % c.ntxd } :=
      ⟨h.txin, h.txout, h.room, h.txd, h.txp, h.nsegs, h.avail⟩
    obtain ⟨di', j, txp, hscan, htaken⟩ := scan_spec hset (by omega) hw
    rw [if_neg (not_bogus hset (by omega) hw)]
    rw [← h.txin] at hscan
    dsimp only
    rw [hscan]
    exact ⟨w, by omega, le_rfl, _, rfl, htaken⟩
  · rw [if_neg (mt hsame.mp hfresh)]
    dsimp only
    obtain ⟨di', j, txp, hscan, htaken⟩ := scan_spec h hix (by omega)
    rw [hxs, if_neg (not_bogus h hix (by omega)), h.txin, hscan]
    exact ⟨x, hix, hxw, di, hxs, htaken⟩

/-- **Reclaiming everything**: one packet after another, until the ring is empty. -/
theorem reclaimLoop_all (h : Loaded c i es di) {fuel : Nat} (hfuel : (flat es).length < fuel)
    (status0 status1 : UInt32) :
    ∃ di', reclaimLoop c .all status0 status1 fuel di = (es.map Entry.packet, di') ∧
      Loaded c (i + (flat es).length) [] di' := by
  induction fuel generalizing i es di with
  | zero => exact absurd hfuel (Nat.not_lt_zero _)
  | succ fuel ih =>
      have hntxd : c.ntxd ≠ 0 := Nat.ne_of_gt c.ring.size_pos
      obtain ⟨di', j, txp, hscan, htaken⟩ := scan_spec h (Nat.le_add_right i _) le_rfl
      have hget : getnexttxp c di .all status0 status1 =
          (txp, { di' with txin := j, txavail := c.ntxd - active c.ntxd j di'.txout - 1 }) := by
        rw [getnexttxp, if_neg hntxd]
        dsimp only
        rw [h.txout, if_neg (h.txout ▸ not_bogus h (Nat.le_add_right i _) le_rfl), h.txin, hscan]
      rw [reclaimLoop, hget]
      cases htaken with
      | packet e rest hes hle hloaded _ =>
          subst hes
          have hpos := List.length_pos_iff.mpr h.nsegs.1
          rw [flat_cons_length] at hfuel
          obtain ⟨di'', hloop, hempty⟩ := ih hloaded (by omega)
          dsimp only
          rw [hloop, flat_cons_length, ← Nat.add_assoc]
          exact ⟨di'', rfl, hempty⟩
      | none hloaded _ hend =>
          obtain rfl := hend rfl
          exact ⟨_, rfl, hloaded⟩

end

/-! ## What the engine sends -/

theorem send_framed {r : Ring} {sof eof : Bool} {i : Nat} {dds : List Descriptor}
    (h : Framed r sof eof i dds) (hne : dds ≠ []) (wire : List UInt32 × List (List UInt32)) :
    dds.foldl (send r) wire =
      let frame := (if sof then [] else wire.1) ++ dds.flatMap (octets r)
      if eof then ([], wire.2 ++ [frame]) else (frame, wire.2) := by
  induction dds generalizing sof i wire with
  | nil => exact absurd rfl hne
  | cons dd dds ih =>
      obtain ⟨hsof, heof, -, -, hrest⟩ := h
      rw [List.foldl_cons, List.flatMap_cons]
      by_cases hlast : dds = []
      · subst hlast
        have hflag : dd.has ctrl1Eof ↔ eof = true := heof.trans (and_iff_right rfl)
        rw [List.foldl_nil, send, List.flatMap_nil, List.append_nil]
        simp only [hsof, hflag]
      · have hflag : ¬dd.has ctrl1Eof := fun hhas => hlast (heof.mp hhas).1
        rw [ih hrest hlast, send, if_neg hflag]
        simp only [hsof, Bool.false_eq_true, if_false, List.append_assoc]

theorem send_part {r : Ring} {sof eof : Bool} {i : Nat} {dds : List Descriptor}
    (h : Framed r sof eof i dds) {k : Nat} (hk : k < dds.length)
    (wire : List UInt32 × List (List UInt32)) : ((dds.take k).foldl (send r) wire).2 = wire.2 := by
  induction dds generalizing sof i k wire with
  | nil => exact absurd hk (Nat.not_lt_zero _)
  | cons dd dds ih =>
      obtain ⟨-, heof, -, -, hrest⟩ := h
      cases k with
      | zero => rfl
      | succ k =>
          rw [List.length_cons] at hk
          have hflag : ¬dd.has ctrl1Eof := by
            intro hhas
            rw [(heof.mp hhas).1, List.length_nil] at hk
            omega
          rw [List.take_succ_cons, List.foldl_cons, ih hrest (by omega), send, if_neg hflag]

/-- **The frames that are sent** at position `x`: those of the packets that end before it. -/
theorem send_entries {r : Ring} {i : Nat} {es : List Entry} (h : Entries r i es) (x : Nat)
    (wire : List UInt32 × List (List UInt32)) : ∃ m,
    (((flat es).take x).foldl (send r) wire).2 =
      wire.2 ++ (es.take m).map (fun e => e.packet.octets) ∧
      ∀ es' rest, es = es' ++ rest → (flat es').length ≤ x → es'.length ≤ m := by
  induction es generalizing i x wire with
  | nil =>
      refine ⟨0, ?_, fun es' rest hes _ => ?_⟩
      · rw [flat, List.flatMap_nil, List.take_nil, List.foldl_nil, List.take_zero, List.map_nil,
          List.append_nil]
      · rw [(List.append_eq_nil_iff.mp hes.symm).1, List.length_nil]
  | cons e es ih =>
      obtain ⟨hne, hframed, hoctets, hrest⟩ := h
      have hflat : flat (e :: es) = e.dds ++ flat es := List.flatMap_cons
      by_cases hpart : x < e.dds.length
      · refine ⟨0, ?_, fun es' rest hes hle => ?_⟩
        · rw [hflat, List.take_append_of_le_length (Nat.le_of_lt hpart), send_part hframed hpart,
            List.take_zero, List.map_nil, List.append_nil]
        · cases es' with
          | nil => exact Nat.zero_le _
          | cons e' es' =>
              obtain ⟨rfl, -⟩ := List.cons.inj hes
              rw [flat_cons_length] at hle
              omega
      · obtain ⟨m, hwire, hwhole⟩ := ih hrest (x - e.dds.length) ([], wire.2 ++ [e.packet.octets])
        refine ⟨m + 1, ?_, fun es' rest hes hle => ?_⟩
        · have htake : (e.dds ++ flat es).take x = e.dds ++ (flat es).take (x - e.dds.length) := by
            rw [List.take_append, List.take_of_length_le (by omega)]
          rw [hflat, htake, List.foldl_append, send_framed hframed hne]
          simp only [if_true, List.nil_append]
          rw [hoctets, hwire, List.take_succ_cons, List.map_cons, List.append_assoc,
            List.singleton_append]
        · cases es' with
          | nil => exact Nat.zero_le _
          | cons e' es' =>
              obtain ⟨rfl, hes'⟩ := List.cons.inj hes
              rw [flat_cons_length] at hle
              exact Nat.succ_le_succ (hwhole es' rest hes' (by omega))

/-! ## The invariant -/

/-- The packets that were returned are `done`, those on the ring `live`. The driver has seen the
engine at position `x`; it is at position `w`, and will stop at position `z`. -/
structure Inv (c : Config) (done live : List Entry) (x w z : Nat) (s : System) : Prop where
  posted : s.posted = (done ++ live).map Entry.packet
  returned : s.returned = done.map Entry.packet
  loaded : Loaded c (flat done).length live s.di
  entries : Entries c.ring 0 (done ++ live)
  xs0cd : s.di.xs0cd = x % c.ntxd
  done_le : (flat done).length ≤ x
  seen_le : x ≤ w
  stop_le : w ≤ z
  posted_le : z ≤ (flat (done ++ live)).length
  index : s.engine.index = w % c.ntxd
  ptr : s.engine.ptr = c.ring.base + i2b (z % c.ntxd)
  wire : s.engine.wire = ((flat (done ++ live)).take w).foldl (send c.ring) ([], [])

/-- The invariant, for some positions. -/
def Good (c : Config) (s : System) : Prop := ∃ done live x w z, Inv c done live x w z s

theorem good_init (c : Config) : Good c (init c) := by
  refine ⟨[], [], 0, 0, 0, ?_⟩
  have hring : OnRing c.ntxd (txinit c).txp 0 (List.replicate (c.ntxd - 0) none) := by
    intro j hj
    rw [List.getElem_replicate]
    rfl
  have hzero : 0 = 0 % c.ntxd := (Nat.zero_mod _).symm
  constructor
  · rfl
  · rfl
  · exact ⟨hzero, hzero, c.ring.size_pos, .nil _ _ _, hring, trivial, Or.inr rfl⟩
  · trivial
  · exact hzero
  · exact le_rfl
  · exact le_rfl
  · exact le_rfl
  · exact le_rfl
  · exact hzero
  · rw [← hzero]
    exact (UInt32.add_zero _).symm
  · rfl

/-- **A packet is posted.** -/
theorem good_post {c : Config} {s : System} {p : Packet} (h : Good c s) (hp : PacketOk p)
    (commit : Bool) :
    Good c (step c s (.post p commit)) := by
  obtain ⟨done, live, x, w, z, h⟩ := h
  have hlength : (flat (done ++ live)).length = (flat done).length + (flat live).length := by
    rw [flat_append, List.length_append]
  rw [step]
  by_cases hroom : (flat live).length + p.count c < c.ntxd
  · obtain ⟨e, hpacket, hentry, hstatus, hloaded, hxs, hptr⟩ :=
      txfast_posted h.loaded hp hroom commit
    have happend : done ++ (live ++ [e]) = done ++ live ++ [e] := (List.append_assoc ..).symm
    have hlonger : (flat (done ++ (live ++ [e]))).length =
        (flat (done ++ live)).length + (flat [e]).length := by
      rw [happend, flat_append, List.length_append]
    have hall : (flat done).length + (flat (live ++ [e])).length =
        (flat (done ++ (live ++ [e]))).length := by
      rw [flat_append done, List.length_append]
    rw [hall] at hptr
    have hposted := h.posted_le
    have hstop := h.stop_le
    have hwire : (flat (done ++ (live ++ [e]))).take w = (flat (done ++ live)).take w := by
      rw [happend, flat_append (done ++ live), List.take_append_of_le_length (by omega)]
    dsimp only
    rw [hptr, if_pos hstatus]
    refine ⟨done, live ++ [e], x, w, if commit then (flat (done ++ (live ++ [e]))).length
      else z, ?_⟩
    constructor
    · dsimp only
      rw [h.posted, happend, ← hpacket]
      simp only [List.map_append, List.map_cons, List.map_nil]
    · exact h.returned
    · exact hloaded
    · rw [happend]
      refine Entries.append_iff.mpr ⟨h.entries, ?_⟩
      rw [Nat.zero_add, hlength]
      exact hentry
    · exact hxs.trans h.xs0cd
    · exact h.done_le
    · exact h.seen_le
    · split_ifs
      · omega
      · exact hstop
    · split_ifs
      · exact le_rfl
      · omega
    · exact h.index
    · dsimp only
      split_ifs
      · rfl
      · exact h.ptr
    · rw [hwire]
      exact h.wire
  · obtain ⟨hstatus, hloaded, hxs, hptr⟩ := txfast_refused h.loaded hp hroom commit
    dsimp only
    rw [hptr, hstatus, if_neg (by decide)]
    exact ⟨done, live, x, w, z, h.posted, h.returned, hloaded, h.entries, hxs.trans h.xs0cd,
      h.done_le, h.seen_le,
      h.stop_le, h.posted_le, h.index, h.ptr, h.wire⟩

theorem Inv.bounds {c : Config} {done live : List Entry} {x w z : Nat} {s : System}
    (h : Inv c done live x w z s) :
    (flat done).length ≤ w ∧
    (flat (done ++ live)).length = (flat done).length + (flat live).length := by
  have hdone := h.done_le
  have hseen := h.seen_le
  refine ⟨by omega, ?_⟩
  rw [flat_append, List.length_append]

theorem Inv.descriptor {c : Config} {done live : List Entry} {x w z : Nat} {s : System}
    (h : Inv c done live x w z s) {k : Nat} (hle : (flat done).length ≤ k)
    (hlt : k < (flat (done ++ live)).length) :
    s.di.txd (k % c.ntxd) = (flat (done ++ live))[k] := by
  obtain ⟨-, hlength⟩ := h.bounds
  have hcell := h.loaded.txd (k - (flat done).length) (by omega)
  have hsum : (flat done).length + (k - (flat done).length) = k := by omega
  rw [hsum] at hcell
  rw [hcell]
  simp only [flat_append]
  rw [List.getElem_append_right hle]

/-- **The engine works on a descriptor.** -/
theorem good_advance {c : Config} {s : System} (h : Good c s) : Good c (step c s .advance) := by
  obtain ⟨done, live, x, w, z, h⟩ := h
  have hw : w % c.ntxd < c.ring.size := Nat.mod_lt _ c.ring.size_pos
  have hz : z % c.ntxd < c.ring.size := Nat.mod_lt _ c.ring.size_pos
  obtain ⟨hdone, hlength⟩ := h.bounds
  have hstop := h.stop_le
  have hposted := h.posted_le
  have hroom := h.loaded.room
  rw [step, Engine.advance, h.index, h.ptr]
  by_cases hat : (c.ring.base + i2b (w % c.ntxd)) &&& c.ring.mask =
    (c.ring.base + i2b (z % c.ntxd)) &&& c.ring.mask
  · rw [if_pos hat]
    exact ⟨done, live, x, w, z, h⟩
  · have hne : w ≠ z := fun heq => hat (by rw [heq])
    have hlt : w < (flat (done ++ live)).length := by omega
    have hflags := h.entries.get hlt
    rw [Nat.zero_add] at hflags
    have hsize : c.ntxd = c.ring.size := rfl
    rw [if_neg hat]
    dsimp only
    rw [h.descriptor hdone hlt]
    refine ⟨done, live, x, w + 1, z, ?_⟩
    constructor
    · exact h.posted
    · exact h.returned
    · exact h.loaded
    · exact h.entries
    · exact h.xs0cd
    · exact h.done_le
    · exact Nat.le_succ_of_le h.seen_le
    · omega
    · exact hposted
    · dsimp only
      by_cases heot : (flat (done ++ live))[w].has ctrl1Eot
      · have hlast := hflags.1.mp heot
        rw [if_pos heot, Nat.add_mod, hsize, hlast]
        have hpos := c.ring.size_pos
        by_cases hone : c.ring.size = 1
        · rw [hone]
        · rw [Nat.mod_eq_of_lt (by omega : 1 < c.ring.size), Nat.sub_add_cancel (by omega),
            Nat.mod_self]
      · have hlast := mt hflags.1.mpr heot
        rw [if_neg heot, hsize]
        rw [hsize] at hw
        have hone : 1 < c.ring.size := by omega
        rw [Nat.add_mod, Nat.mod_eq_of_lt hone,
          Nat.mod_eq_of_lt (by omega : w % c.ring.size + 1 < c.ring.size)]
    · rfl
    · dsimp only
      rw [h.wire, List.take_add_one, List.getElem?_eq_getElem hlt, Option.toList_some,
        List.foldl_append]
      rfl

/-- **The driver reclaims.** -/
theorem good_reclaim {c : Config} {s : System} (h : Good c s) (state : UInt32) :
    Good c (step c s (.reclaim state)) := by
  obtain ⟨done, live, x, w, z, h⟩ := h
  obtain ⟨hdone, hlength⟩ := h.bounds
  have hstop := h.stop_le
  have hposted := h.posted_le
  obtain ⟨x', hix, hxw, di', hxs, htaken⟩ :=
    getnexttxp_transmitted h.loaded h.xs0cd h.done_le h.seen_le
    (by omega : w ≤ (flat done).length + (flat live).length) state 0
  rw [step, h.index]
  generalize getnexttxp c s.di .transmitted (statusAt c.ring state (w % c.ntxd)) 0 = r at htaken ⊢
  obtain ⟨p, di''⟩ := r
  dsimp only at htaken ⊢
  cases htaken with
  | packet e rest hes hle hloaded hkept =>
      subst hes
      have happend : done ++ e :: rest = done ++ [e] ++ rest := by
        rw [List.append_assoc, List.singleton_append]
      have hlonger : (flat (done ++ [e])).length = (flat done).length + e.dds.length := by
        rw [flat_append, List.length_append]
        exact congrArg _ (congrArg List.length (List.flatMap_singleton _ _))
      rw [← hlonger] at hle hloaded
      refine ⟨done ++ [e], rest, x', w, z, ?_⟩
      constructor
      · rw [← happend]
        exact h.posted
      · dsimp only
        rw [h.returned]
        simp only [List.map_append, List.map_cons, List.map_nil, Option.toList_some]
      · exact hloaded
      · rw [← happend]
        exact h.entries
      · exact hkept.trans hxs
      · exact hle
      · exact hxw
      · exact hstop
      · rw [← happend]
        exact hposted
      · exact h.index
      · exact h.ptr
      · rw [← happend]
        exact h.wire
  | none hloaded hkept hend =>
      dsimp only [Option.toList_none]
      rw [List.append_nil]
      obtain hsame | hback := hkept
      · exact ⟨done, live, x', w, z, h.posted, h.returned, hloaded, h.entries, hsame.trans hxs, hix,
          hxw, hstop, hposted,
          h.index, h.ptr, h.wire⟩
      · exact ⟨done, live, (flat done).length, w, z, h.posted, h.returned, hloaded, h.entries,
          hback, le_rfl, hdone, hstop,
          hposted, h.index, h.ptr, h.wire⟩

/-! ## Runs -/

theorem good_step {c : Config} (s : System) (e : Event) (h : Good c s)
    (hok : ∀ p commit, e = .post p commit → PacketOk p) : Good c (step c s e) := by
  cases e with
  | post p commit => exact good_post h (hok p commit rfl) commit
  | advance => exact good_advance h
  | reclaim state => exact good_reclaim h state

theorem good_run {c : Config} {es : List Event} (hok : ∀ p commit, .post p commit ∈ es → PacketOk p)
    {s : System} (h : Good c s) : Good c (run (step c) s es) := by
  induction es generalizing s with
  | nil => exact h
  | cons e es ih =>
      refine ih (fun p commit hmem => hok p commit (List.mem_cons_of_mem e hmem))
        (good_step s e h ?_)
      rintro p commit rfl
      exact hok p commit List.mem_cons_self

/-- **The transmit ring**, whatever the order of posting, sending and reclaiming. The engine has
sent the packets in the order in which they were posted, and each of them once and whole. The driver
has got them back in that order, and none before it was sent; a reclaim of everything frees exactly
the others. -/
theorem tx_ring (c : Config) (es : List Event)
    (hok : ∀ p commit, .post p commit ∈ es → PacketOk p) :
    let s := run (step c) (init c) es
    s.engine.wire.2 <+: s.posted.map Packet.octets ∧ s.returned <+: s.posted ∧
      s.returned.length ≤ s.engine.wire.2.length ∧
      (∀ status0 status1, s.returned ++ (txreclaim c .all status0 status1 s.di).1 = s.posted) := by
  obtain ⟨done, live, x, w, z, h⟩ := good_run hok (good_init c)
  obtain ⟨hdone, hlength⟩ := h.bounds
  obtain ⟨m, hwire, hwhole⟩ := send_entries h.entries w ([], [])
  rw [← h.wire, List.nil_append] at hwire
  have hreturned := hwhole done live rfl hdone
  dsimp only
  refine ⟨?_, ?_, ?_, fun status0 status1 => ?_⟩
  · rw [hwire, h.posted, List.map_map, List.map_take]
    exact List.take_prefix _ _
  · rw [h.returned, h.posted, List.map_append]
    exact List.prefix_append _ _
  · rw [hwire, h.returned, List.length_map, List.length_map, List.length_take, List.length_append]
    omega
  · rw [h.posted, h.returned, List.map_append]
    congr 1
    rw [txreclaim]
    by_cases hempty : (run (step c) (init c) es).di.txin = (run (step c) (init c) es).di.txout
    · rw [if_pos hempty]
      have hzero := h.loaded.active
      rw [hempty, active, UInt32.sub_self] at hzero
      have hnone : (flat live).length = 0 :=
        hzero.symm.trans ((xxd_eq c.ring 0).trans (Nat.zero_mod _))
      cases live with
      | nil => rfl
      | cons e live =>
          have hpos := List.length_pos_iff.mpr h.loaded.nsegs.1
          rw [flat_cons_length] at hnone
          omega
    · rw [if_neg hempty]
      obtain ⟨di', hloop, -⟩ := reclaimLoop_all h.loaded h.loaded.room status0 status1
      rw [hloop]

/-- **The cells of the ring.** Its descriptors have even parity if the engine checks that. The cells
behind the last one are empty, as the assertions in `dma64_txfast` say, the count of free ones is
right or zero, and a packet is posted if and only if there are enough of them. -/
theorem tx_ring_cells (c : Config) (es : List Event)
    (hok : ∀ p commit, .post p commit ∈ es → PacketOk p) :
    let di := (run (step c) (init c) es).di
    let used := active c.ntxd di.txin di.txout
    (c.ring.parity = true → ∀ k < used, (di.txd ((di.txin + k) % c.ntxd)).parity = 0) ∧
      (∀ k, used ≤ k → k < c.ntxd → di.txp ((di.txin + k) % c.ntxd) = none) ∧
      (di.txavail = 0 ∨ di.txavail = c.ntxd - 1 - used) ∧
      (∀ p commit, PacketOk p → ((txfast c di p commit).1 = 0 ↔ used + p.count c < c.ntxd)) := by
  obtain ⟨done, live, x, w, z, h⟩ := good_run hok (good_init c)
  obtain ⟨-, hlength⟩ := h.bounds
  have hcell (k : Nat) :
      ((run (step c) (init c) es).di.txin + k) % c.ntxd = ((flat done).length + k) % c.ntxd := by
    rw [h.loaded.txin, Nat.mod_add_mod]
  dsimp only
  rw [h.loaded.active]
  refine ⟨fun hparity k hk => ?_, fun k hle hk => ?_, h.loaded.avail, fun p commit hp => ?_⟩
  · rw [hcell, h.descriptor (Nat.le_add_right _ _) (by omega)]
    exact (h.entries.get (by omega)).2 hparity
  · have hcells := h.loaded.nsegs.pointers_length
    have hempty := h.loaded.txp k (by rw [List.length_append, List.length_replicate, hcells]; omega)
    rw [List.getElem_append_right (by rw [hcells]; exact hle), List.getElem_replicate] at hempty
    rw [hcell, hempty]
  · by_cases hroom : (flat live).length + p.count c < c.ntxd
    · obtain ⟨e, -, -, hstatus, -⟩ := txfast_posted h.loaded hp hroom commit
      exact iff_of_true hstatus hroom
    · obtain ⟨hstatus, -⟩ := txfast_refused h.loaded hp hroom commit
      exact iff_of_false (by rw [hstatus]; decide) hroom

/-! ## A small ring -/

/-- A ring of four descriptors; long segments may have to be split. -/
def smallRing : Config where
  ring := {
    size := 4
    bits := 2
    size_eq := rfl
    mask := 0x1fff
    maskBits := 13
    mask_eq := rfl
    maskBits_le := by decide
    bits_le := by decide
    base := 0x3000
    dataoffsetlow := 0x40000000
    dataoffsethigh := 0
    parity := true }
  war := true

/-- Two segments: a header, and data that is split. -/
def twoSegments : Packet :=
  { id := 1, bufs := [{ len := 150, segs := [⟨0x1000, 20⟩, ⟨0xc0002000, 130⟩] }] }

theorem twoSegments_ok : PacketOk twoSegments :=
  ⟨_, [], rfl, by decide, by decide, by decide⟩

/-- The second packet has to wait for the first one. -/
def smallRun : List Event :=
  [.post twoSegments true, .post twoSegments true, .advance, .reclaim 0, .advance, .advance,
    .reclaim 0, .post twoSegments true, .advance]

theorem smallRun_ok : ∀ p commit, .post p commit ∈ smallRun → PacketOk p := by
  intro p commit hmem
  simp only [smallRun, List.mem_cons, Event.post.injEq, reduceCtorEq, List.not_mem_nil, or_false,
    false_or] at hmem
  obtain ⟨rfl, -⟩ | ⟨rfl, -⟩ | ⟨rfl, -⟩ := hmem <;> exact twoSegments_ok

theorem tx_ring_smallRun :
    let s := run (step smallRing) (init smallRing) smallRun
    s.engine.wire.2 <+: s.posted.map Packet.octets ∧ s.returned <+: s.posted ∧
      s.returned.length ≤ s.engine.wire.2.length ∧
      (∀ status0 status1, s.returned ++ (txreclaim smallRing .all status0 status1 s.di).1 =
          s.posted) :=
  tx_ring smallRing smallRun smallRun_ok

theorem tx_ring_cells_smallRun :
    let di := (run (step smallRing) (init smallRing) smallRun).di
    ∀ k < active 4 di.txin di.txout, (di.txd ((di.txin + k) % 4)).parity = 0 :=
  (tx_ring_cells smallRing smallRun smallRun_ok).1 rfl

end BroadcomWl.Shared.DmaTx
