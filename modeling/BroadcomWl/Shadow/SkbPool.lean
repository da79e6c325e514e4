import Mathlib
import BroadcomWl.Lib.Access
import BroadcomWl.Lib.Run

/-!
# Packets and their shadows

`Skb` is about one packet and its fields; this is about all of them: which packets exist, which
data areas they share, which shadows exist, and who owns what. A packet enters the driver where
the stack transmits it (`wl_tramp_start_xmit`) or where the driver allocates it (`dev_alloc_skb`,
`osl_pktget`, `osl_pktdup`), and leaves it in `osl_pktfree`, `netif_rx`, or a refused transmit.

The kernel counts the references to a data area; `skb_cloned` and `skb_header_cloned` read that
count. Here it is the number of packets with this area, and the owner of a packet is the only
one who holds a reference to it. Addresses of new packets, areas and shadows are the allocators'
answers and come with the events. The blob is not modelled: it may make any call at any time.

Every access of the shim to a shadow is logged.
-/

namespace BroadcomWl.Shadow.SkbPool

open BroadcomWl.Lib

/-- A kernel address; 0 is NULL. -/
abbrev Ptr := Nat

/-! ## The data -/

inductive Owner where
  | kernel
  | driver
deriving Repr, DecidableEq

/-- A live `struct sk_buff`, as far as sharing goes: its data area, the flag `cloned`, the flag
`nohdr` of a packet that has given up its part of the header, and who owns it. -/
structure SkBuff where
  area : Ptr
  cloned : Bool
  nohdr : Bool
  owner : Owner
deriving Repr, DecidableEq

/-- A live `struct wl_skb_shadow`. -/
structure SkbShadow where
  real : Ptr
  /-- `WL236_SKB_CLONED` in `flags1`. -/
  clonedBit : Bool
  /-- `->next`, with which the blob chains packets. -/
  next : Ptr
  /-- The blob's `ndo_start_xmit` has it and has not returned. -/
  sending : Bool
  /-- It was left behind by a transmit that the blob has refused. -/
  abandoned : Bool
deriving Repr, DecidableEq

structure State where
  skbs : AList fun _ : Ptr => SkBuff
  shadows : AList fun _ : Ptr => SkbShadow
  /-- `wl_skb_live`. -/
  live : Int
  /-- `wl_xmit_notok`. -/
  notok : Nat
  /-- What the shim has done to shadows, the newest first. -/
  log : List (Access Ptr)

/-- The module has been loaded. -/
def init : State := ⟨∅, ∅, 0, 0, []⟩

/-! ## The kernel's packets -/

/-- The number of references to a data area. -/
def State.refs (s : State) (area : Ptr) : Nat :=
  s.skbs.entries.countP fun e => e.2.area = area

/-- The number of references to the header in a data area. -/
def State.headerRefs (s : State) (area : Ptr) : Nat :=
  s.skbs.entries.countP fun e => e.2.area = area ∧ ¬ e.2.nohdr

/-- `skb_cloned`. -/
def State.skbCloned (s : State) (r : Ptr) : Bool :=
  match s.skbs.lookup r with
  | some k => k.cloned && s.refs k.area ≠ 1
  | none => false

/-- `skb_header_cloned`. -/
def State.skbHeaderCloned (s : State) (r : Ptr) : Bool :=
  match s.skbs.lookup r with
  | some k => k.cloned && s.headerRefs k.area ≠ 1
  | none => false

/-- A change of a packet. -/
def State.setSkb (s : State) (r : Ptr) (f : SkBuff → SkBuff) : State :=
  match s.skbs.lookup r with
  | some k => { s with skbs := s.skbs.insert r (f k) }
  | none => s

/-- `kfree_skb` and its siblings, for the owner's reference. -/
def State.kfreeSkb (s : State) (r : Ptr) : State := { s with skbs := s.skbs.erase r }

/-- `__netdev_alloc_skb`: a packet with a data area of its own. -/
def State.allocSkb (s : State) (r area : Ptr) : State :=
  { s with skbs := s.skbs.insert r ⟨area, false, false, .kernel⟩ }

/-- `skb_clone`: a second packet on the same data area, and both are marked. -/
def State.skbClone (s : State) (r r' : Ptr) : State :=
  match s.skbs.lookup r with
  | some k =>
      { s with
        skbs := (s.skbs.insert r { k with cloned := true }).insert r'
          ⟨k.area, true, false, .kernel⟩ }
  | none => s

/-! ## The shadows -/

/-- The shim reads or writes the shadow at `p`, the magic number in `to_shadow` first of all. -/
def State.touch (s : State) (p : Ptr) : State :=
  if p = 0 then s else { s with log := .use p :: s.log }

/-- A change of a shadow. -/
def State.setShadow (s : State) (p : Ptr) (f : SkbShadow → SkbShadow) : State :=
  match s.shadows.lookup p with
  | some sh => { s with shadows := s.shadows.insert p (f sh) }
  | none => s

/-- `sync_down`, as far as the blob's view of sharing goes. -/
def State.syncDown (s : State) (p : Ptr) : State :=
  (s.touch p).setShadow p fun sh => { sh with clonedBit := s.skbCloned sh.real }

/-- `wl_skb_wrap`. `p` is the answer of `kmem_cache_alloc`. -/
def State.wrap (s : State) (r p : Ptr) (sending : Bool) : State :=
  State.syncDown
    { s with
      shadows := s.shadows.insert p ⟨r, false, 0, sending, false⟩
      live := s.live + 1
      log := .alloc p :: s.log } p

/-- What every caller of `wl_skb_wrap` does with its answer: the packet is the driver's from then
on, or is freed if there is no memory for a shadow. -/
def State.wrapOrFree (s : State) (r : Ptr) (sh : Option Ptr) (sending : Bool) : State :=
  match sh with
  | none => s.kfreeSkb r
  | some p => (s.wrap r p sending).setSkb r fun k => { k with owner := .driver }

/-- `wl_skb_shadow_put`. -/
def State.shadowPut (s : State) (p : Ptr) : State :=
  match s.shadows.lookup p with
  | none => s.touch p
  | some _ =>
      { s with
        shadows := s.shadows.erase p
        live := s.live - 1
        log := .release p :: .use p :: s.log }

/-! ## Into the driver -/

/-- What happens in a `wl_tramp_start_xmit` up to the call of the blob. -/
inductive Xmit where
  /-- The blob has no `ndo_start_xmit`. -/
  | noFn
  /-- It has one. `area` is the answer to a reallocation of the data area, which `skb_cow_head`
  makes if the header is cloned, and `sh` that to the allocation of the shadow. -/
  | fn (area sh : Option Ptr)
deriving Repr, DecidableEq

/-- `skb_cow_head` with no extra headroom: the packet's header is its own afterwards, or there is
no memory. -/
def State.skbCowHead (s : State) (r : Ptr) (area : Option Ptr) : Option State :=
  if s.skbHeaderCloned r then
    area.map fun b => s.setSkb r fun k => { k with area := b, cloned := false, nohdr := false }
  else some s

/-- `wl_tramp_start_xmit`, up to the call of the blob. -/
def startXmit (s : State) (r : Ptr) : Xmit → State
  | .noFn => s.kfreeSkb r
  | .fn area sh =>
      match s.skbCowHead r area with
      | none => s.kfreeSkb r
      | some s => s.wrapOrFree r sh true

/-- `wl_tramp_start_xmit`, from the return of the blob on. A refused packet is the kernel's
again, and its shadow stays. -/
def xmitReturn (s : State) (p : Ptr) (ok : Bool) : State :=
  if ok then s.setShadow p fun sh => { sh with sending := false }
  else
    match s.shadows.lookup p with
    | none => { s with notok := s.notok + 1 }
    | some sh =>
        { s with
          notok := s.notok + 1
          shadows := s.shadows.insert p { sh with sending := false, abandoned := true } }.setSkb
          sh.real fun k => { k with owner := .kernel }

/-- A new packet for the driver. -/
def allocWrapped (s : State) (real : Option (Ptr × Ptr)) (sh : Option Ptr) : State :=
  match real with
  | none => s
  | some (r, area) => (s.allocSkb r area).wrapOrFree r sh false

/-- `wl_shim_dev_alloc_skb`. -/
def devAllocSkb := allocWrapped

/-- `osl_pktget`. -/
def pktget := allocWrapped

/-- `osl_pktdup`. `clone` is the answer of `skb_clone`. -/
def pktdup (s : State) (p : Ptr) (clone sh : Option Ptr) : State :=
  match s.shadows.lookup p, clone with
  | some k, some r' => ((s.touch p).skbClone k.real r').wrapOrFree r' sh false
  | _, _ => s.touch p

/-! ## Out of the driver -/

/-- The beginning of a round in `osl_pktfree`: `nskb = skb->next; skb->next = NULL;`, and then
`wl_skb_unwrap`. -/
def State.unlink (s : State) (p : Ptr) : State :=
  ((s.touch p).setShadow p fun sh => { sh with next := 0 }).touch p

/-- One round of the loop in `osl_pktfree`. -/
def pktfreeOne (s : State) (p : Ptr) (sh : SkbShadow) : State :=
  ((s.unlink p).kfreeSkb sh.real).shadowPut p

/-- The loop in `osl_pktfree`. Each round releases a shadow, so there are no more rounds than
shadows; at an address that is not a shadow there is no telling what `next` is. -/
def pktfreeLoop : Nat → State → Ptr → State
  | 0, s, _ => s
  | n + 1, s, p =>
      if p = 0 then s
      else
        match s.shadows.lookup p with
        | none => s.touch p
        | some sh => pktfreeLoop n (pktfreeOne s p sh) sh.next

/-- `osl_pktfree`. -/
def pktfree (s : State) (p : Ptr) : State := pktfreeLoop (s.shadows.entries.length + 1) s p

/-- `wl_shim_netif_rx`. The stack owns the packet afterwards. -/
def netifRx (s : State) (p : Ptr) : State :=
  match s.shadows.lookup p with
  | none => s.touch p
  | some sh =>
      ((s.touch p).shadowPut p).setSkb sh.real fun k => { k with owner := .kernel }

/-! ## The system -/

inductive Event where
  /-- The stack gets a new packet. -/
  | stackAlloc (r area : Ptr)
  | stackClone (r r' : Ptr)
  /-- `skb_header_release`. -/
  | stackHeaderRelease (r : Ptr)
  | stackFree (r : Ptr)
  | startXmit (r : Ptr) (call : Xmit)
  | xmitReturn (p : Ptr) (ok : Bool)
  | devAllocSkb (real : Option (Ptr × Ptr)) (sh : Option Ptr)
  | pktget (real : Option (Ptr × Ptr)) (sh : Option Ptr)
  | pktdup (p : Ptr) (clone sh : Option Ptr)
  | pktfree (p : Ptr)
  | netifRx (p : Ptr)
  /-- `skb_put`, `skb_push`, `skb_pull`, `eth_type_trans` and `wl_skb_sync_to_blob`: they end with
  a `sync_down`. -/
  | rerouted (p : Ptr)
  /-- `skb_to_sgvec`, and `eth_type_trans` for an unknown device: there is no `sync_down`. -/
  | unwrap (p : Ptr)
  /-- `PKTSETNEXT`. -/
  | setNext (p q : Ptr)
deriving Repr, DecidableEq

def step (s : State) : Event → State
  | .stackAlloc r area => s.allocSkb r area
  | .stackClone r r' => s.skbClone r r'
  | .stackHeaderRelease r => s.setSkb r fun k => { k with nohdr := true }
  | .stackFree r => s.kfreeSkb r
  | .startXmit r call => startXmit s r call
  | .xmitReturn p ok => xmitReturn s p ok
  | .devAllocSkb real sh => devAllocSkb s real sh
  | .pktget real sh => pktget s real sh
  | .pktdup p clone sh => pktdup s p clone sh
  | .pktfree p => pktfree s p
  | .netifRx p => netifRx s p
  | .rerouted p => (s.touch p).syncDown p
  | .unwrap p => s.touch p
  | .setNext p q => s.setShadow p fun sh => { sh with next := q }

end BroadcomWl.Shadow.SkbPool
