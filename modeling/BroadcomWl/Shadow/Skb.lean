import Mathlib
import BroadcomWl.Shadow.Netdev

/-!
# The packet shadow

The blob reads and writes `sk_buff` fields at the offsets of the kernel it was compiled for.
`wl_shadow_skb.c` gives it a structure in that layout beside each real packet; both point into
one data buffer, and only the fields are kept twice. `sync_up` carries the blob's fields to the
real packet before a kernel function works on it, `sync_down` carries them back afterwards.

The fields have the widths of the 32-bit target, on which `tail` and `end` are pointers on both
sides. The kernel's functions are modelled with their checks: where the kernel stops with a BUG,
the result is `none`. What is used of them later is that they treat packets with the same fields
alike (`Agree`), whatever else the packets have, and of `__skb_trim` that it sets the length and the
tail of a packet that is linear.
-/

namespace BroadcomWl.Shadow.Skb

open BroadcomWl.Lib

/-! ## The data -/

/-- The fields that both sides carry. -/
structure Fields where
  len : BitVec 32
  dataLen : BitVec 32
  macLen : BitVec 16
  hdrLen : BitVec 16
  priority : BitVec 32
  protocol : BitVec 16
  head : BitVec 32
  data : BitVec 32
  tail : BitVec 32
deriving Repr, DecidableEq

/-- The kernel's `struct sk_buff`. A `dev` of 0 is NULL. -/
structure SkBuff extends Fields where
  endPtr : BitVec 32
  truesize : BitVec 32
  sk : Nat
  dev : Netdev.Ptr
  /-- What `skb_cloned` answers. -/
  cloned : Bool
deriving Repr, DecidableEq

/-- The `struct sk_buff` in the blob's layout, as far as the shim touches it. -/
structure S236 extends Fields where
  endPtr : BitVec 32
  truesize : BitVec 32
  sk : Nat
  dev : Netdev.Ptr
  flags1 : BitVec 8
deriving Repr, DecidableEq

/-- `WL236_SKB_CLONED`. -/
def skbCloned : BitVec 8 := 0x02

/-- `struct wl_skb_shadow`, with the packet it stands for. -/
structure SkbShadow where
  s236 : S236
  real : SkBuff
deriving Repr, DecidableEq

/-- A shadow's structure after `memset(sh->s236, 0, sizeof(sh->s236))`. -/
def S236.zero : S236 := ⟨⟨0, 0, 0, 0, 0, 0, 0, 0, 0⟩, 0, 0, 0, 0, 0⟩

/-! ## Synchronisation -/

/-- `sync_down`. The device is translated, and left alone if the packet has none. -/
def syncDown (devs : Netdev.State) (sh : SkbShadow) : SkbShadow :=
  let r := sh.real
  let s := sh.s236
  { sh with
    s236 :=
      { s with
        toFields := r.toFields
        truesize := r.truesize
        endPtr := r.endPtr
        sk := r.sk
        dev := if r.dev ≠ 0 then (devs.blobOf r.dev).getD 0 else s.dev
        flags1 := if r.cloned then s.flags1 ||| skbCloned else s.flags1 &&& ~~~ skbCloned } }

/-- `skb_set_tail_pointer`, on a target where `tail` is a pointer. -/
def skbSetTailPointer (r : SkBuff) (offset : BitVec 32) : SkBuff :=
  { r with tail := r.data + offset }

/-- `sync_up`. A shadow whose `head` has moved is refused. -/
def syncUp (sh : SkbShadow) : SkbShadow :=
  let r := sh.real
  let s := sh.s236
  if s.head ≠ r.head then sh
  else
    let r :=
      { r with
        len := s.len
        dataLen := s.dataLen
        macLen := s.macLen
        hdrLen := s.hdrLen
        priority := s.priority
        protocol := s.protocol
        data := s.data }
    { sh with real := skbSetTailPointer r (s.tail - r.data) }

/-- The shadow that `wl_skb_wrap` makes of a packet. -/
def wrap (devs : Netdev.State) (r : SkBuff) : SkbShadow := syncDown devs ⟨S236.zero, r⟩

/-! ## The kernel's functions -/

/-- `skb_put`: the old end of the data. -/
def skbPut (r : SkBuff) (len : BitVec 32) : Option (BitVec 32 × SkBuff) :=
  let r' := { r with tail := r.tail + len, len := r.len + len }
  if r.dataLen ≠ 0 ∨ r'.tail > r'.endPtr then none else some (r.tail, r')

/-- `skb_push`: the new start of the data. -/
def skbPush (r : SkBuff) (len : BitVec 32) : Option (BitVec 32 × SkBuff) :=
  let r' := { r with data := r.data - len, len := r.len + len }
  if r'.data < r'.head then none else some (r'.data, r')

/-- `skb_pull`: the new start of the data, or NULL if the packet is shorter. -/
def skbPull (r : SkBuff) (len : BitVec 32) : Option (BitVec 32 × SkBuff) :=
  if len > r.len then some (0, r)
  else
    let r' := { r with len := r.len - len, data := r.data + len }
    if r'.len < r'.dataLen then none else some (r'.data, r')

/-- `eth_type_trans`: it takes the 14 octets of the ethernet header off. `proto` is the protocol
of the frame at an address, which is what it returns. -/
def ethTypeTrans (proto : BitVec 32 → BitVec 16) (r : SkBuff) (dev : Netdev.Ptr) :
    Option (BitVec 16 × SkBuff) :=
  match skbPull { r with dev := dev } 14 with
  | none => none
  | some (_, r') => some (proto r.data, r')

/-- `__skb_trim`, which is what `PKTSETLEN` is on a native packet. A packet with data outside
its linear area is left alone with a warning. -/
def skbTrim (r : SkBuff) (len : BitVec 32) : SkBuff :=
  if r.dataLen ≠ 0 then r else { r with len := len, tail := r.data + len }

/-! ## The blob's side -/

/-- `wl_shadow_pktsetlen`. -/
def pktsetlen (s : S236) (len : BitVec 32) : S236 :=
  { s with len := len, tail := s.data + len }

/-- What is done to a packet: the blob's direct writes and the boundary calls. -/
inductive Op where
  /-- `PKTSETLEN`. -/
  | setLen (len : BitVec 32)
  /-- `PKTSETPRIO`. -/
  | setPrio (priority : BitVec 32)
  | setProtocol (protocol : BitVec 16)
  | put (len : BitVec 32)
  | push (len : BitVec 32)
  | pull (len : BitVec 32)
  | ethTypeTrans (blobDev : Netdev.Ptr)
  /-- `wl_skb_unwrap`, as `osl_pktdup` and `skb_to_sgvec` use it. -/
  | unwrap
  /-- `wl_skb_sync_to_blob`. -/
  | syncToBlob
  | netifRx
deriving Repr, DecidableEq

/-- A packet in the course of its operations: alive, handed to the network stack with some
fields, or stopped by a BUG of the kernel. -/
inductive Packet (α : Type) where
  | live (a : α)
  | handed (fields : Fields)
  | bug
deriving Repr, DecidableEq

/-- A packet and the values its operations have returned, the newest first. -/
structure Traced (α : Type) where
  packet : Packet α
  returned : List (BitVec 32)
deriving Repr, DecidableEq

/-- The end of an operation: a BUG, or a value and the packet afterwards. -/
def Traced.after {α : Type} (t : Traced α) : Option (BitVec 32 × α) → Traced α
  | none => { t with packet := .bug }
  | some (v, a) => ⟨.live a, v :: t.returned⟩

/-- `htons(ETH_P_802_2)` on the little-endian target. -/
def ethP8022 : BitVec 16 := 0x0400

/-- A rerouted kernel function: `sync_up`, the function on the real packet, `sync_down`. -/
def rerouted (devs : Netdev.State) (f : SkBuff → Option (BitVec 32 × SkBuff)) (sh : SkbShadow) :
    Option (BitVec 32 × SkbShadow) :=
  let sh := syncUp sh
  (f sh.real).map fun (v, r) => (v, syncDown devs { sh with real := r })

/-- `wl_shim_eth_type_trans`. -/
def shimEthTypeTrans (devs : Netdev.State) (proto : BitVec 32 → BitVec 16) (sh : SkbShadow)
    (blobDev : Netdev.Ptr) : Option (BitVec 32 × SkbShadow) :=
  let dev := (devs.realOf blobDev).getD sh.real.dev
  if dev = 0 then some (ethP8022.setWidth 32, sh)
  else
    rerouted devs (fun r => (ethTypeTrans proto r dev).map fun (p, r) => (p.setWidth 32, r)) sh

section System

variable (devs : Netdev.State) (proto : BitVec 32 → BitVec 16)

/-- An operation on a shadow. -/
def shadowStep (t : Traced SkbShadow) (op : Op) : Traced SkbShadow :=
  match t.packet with
  | .live sh =>
      match op with
      | .setLen n => { t with packet := .live { sh with s236 := pktsetlen sh.s236 n } }
      | .setPrio p => { t with packet := .live { sh with s236 := { sh.s236 with priority := p } } }
      | .setProtocol p =>
          { t with packet := .live { sh with s236 := { sh.s236 with protocol := p } } }
      | .put n => t.after (rerouted devs (skbPut · n) sh)
      | .push n => t.after (rerouted devs (skbPush · n) sh)
      | .pull n => t.after (rerouted devs (skbPull · n) sh)
      | .ethTypeTrans d => t.after (shimEthTypeTrans devs proto sh d)
      | .unwrap => { t with packet := .live (syncUp sh) }
      | .syncToBlob => { t with packet := .live (syncDown devs sh) }
      | .netifRx => { t with packet := .handed (syncUp sh).real.toFields }
  | _ => t

/-- The same operation on a native packet, on which synchronising is nothing. -/
def nativeStep (t : Traced SkBuff) (op : Op) : Traced SkBuff :=
  match t.packet with
  | .live r =>
      match op with
      | .setLen n => { t with packet := .live (skbTrim r n) }
      | .setPrio p => { t with packet := .live { r with priority := p } }
      | .setProtocol p => { t with packet := .live { r with protocol := p } }
      | .put n => t.after (skbPut r n)
      | .push n => t.after (skbPush r n)
      | .pull n => t.after (skbPull r n)
      | .ethTypeTrans d =>
          t.after ((ethTypeTrans proto r d).map fun (p, r) => (p.setWidth 32, r))
      | .unwrap => t
      | .syncToBlob => t
      | .netifRx => { t with packet := .handed r.toFields }
  | _ => t

end System

end BroadcomWl.Shadow.Skb
