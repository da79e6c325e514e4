import Mathlib
import BroadcomWl.Lib.Run

/-!
# The device map and the transmit queue

`wl_shadow_netdev.c` gives the blob a `net_device` in the layout it was compiled for and keeps a
real device beside it. The list `wl_netdev_shadows` is the map between the two; the packet paths
look devices up in it in both directions.

The blob stops and wakes its transmit queue with bit operations on `->_tx[0].state`, which are
calls of `_set_bit_le` and its siblings. These reach `wl_shadow_netdev_txq_bitop`, which looks
for the address among the queue-state words of the shadows and mirrors bit 0 to the real queue.

The allocators and `register_netdev` are the kernel's: their answers come with the events.
-/

namespace BroadcomWl.Shadow.Netdev

open BroadcomWl.Lib

/-- A kernel address; 0 is NULL. -/
abbrev Ptr := Nat

/-! ## The data -/

/-- `WL_NETDEV_SHADOW_MAGIC`. -/
def shadowMagic : Nat := 0x57314E44

/-- Where `fake_txq`'s state word lies in a `struct wl_netdev_shadow`: behind the 896 octets of
the 2.6.36 `net_device`, its 4 octets of private data, and 8 octets of the queue. -/
def txqStateOffset : Nat := 896 + 4 + 8

/-- `struct wl_netdev_shadow`, by its address, which is also that of its `s236`, with the
device it stands for. -/
structure NetdevShadow where
  ptr : Ptr
  real : Ptr
deriving Repr, DecidableEq

/-- `&wl236_txq_state(sh->fake_txq)`. -/
def NetdevShadow.txqState (sh : NetdevShadow) : Ptr := sh.ptr + txqStateOffset

structure State where
  /-- `wl_netdev_shadows`, the newest first. -/
  shadows : List NetdevShadow
  /-- The word at the offset of `magic`, for each address that the blob may pass. -/
  magic : Ptr → Nat
  /-- The words of memory that bit operations work on, by their addresses. -/
  words : Ptr → BitVec 32
  /-- The kernel has queue 0 of the device stopped. -/
  stopped : Ptr → Bool
  /-- The device is registered. -/
  registered : Ptr → Bool
  /-- What the bit operations returned, the newest first. -/
  returned : List (Option Bool)

/-- The module has been loaded. `foreign` is what memory that is not the shim's holds. -/
def init (foreign : Ptr → Nat) (words : Ptr → BitVec 32) : State where
  shadows := []
  magic := foreign
  words := words
  stopped := fun _ => false
  registered := fun _ => false
  returned := []

/-! ## The life of a shadow -/

/-- `to_shadow`. -/
def State.toShadow (s : State) (blob : Ptr) : Bool :=
  blob ≠ 0 && s.magic blob = shadowMagic

/-- The device of a shadow. -/
def State.deviceOf (s : State) (blob : Ptr) : Option Ptr :=
  (s.shadows.find? fun sh => sh.ptr = blob).map NetdevShadow.real

/-- `wl_shim_alloc_netdev_mq`. `sh` and `real` are the answers of `kzalloc` and of
`alloc_netdev_mqs`, which is called only if there is a `sh`. -/
def allocNetdevMq (s : State) (sh real : Option Ptr) : State :=
  match sh, real with
  | none, _ => s
  | some p, none =>
      -- zeroed by `kzalloc` and freed again
      { s with
        magic := Function.update s.magic p 0
        words := Function.update s.words (p + txqStateOffset) 0 }
  | some p, some r =>
      { s with
        shadows := ⟨p, r⟩ :: s.shadows
        magic := Function.update s.magic p shadowMagic
        words := Function.update s.words (p + txqStateOffset) 0
        stopped := Function.update s.stopped r false
        registered := Function.update s.registered r false }

/-- `wl_shim_register_netdev`. `ok` is the answer of `register_netdev`. -/
def registerNetdev (s : State) (blob : Ptr) (ok : Bool) : State :=
  if s.toShadow blob then
    match s.deviceOf blob with
    | some r => if ok then { s with registered := Function.update s.registered r true } else s
    | none => s
  else s

/-- `wl_shim_unregister_netdev`. -/
def unregisterNetdev (s : State) (blob : Ptr) : State :=
  if s.toShadow blob then
    match s.deviceOf blob with
    | some r => { s with registered := Function.update s.registered r false }
    | none => s
  else s

/-- `wl_shim_free_netdev`. -/
def freeNetdev (s : State) (blob : Ptr) : State :=
  if s.toShadow blob then
    { s with
      shadows := s.shadows.filter fun sh => sh.ptr ≠ blob
      magic := Function.update s.magic blob 0 }
  else s

/-- `wl_shadow_netdev_exit`. -/
def netdevExit (s : State) : State :=
  { s with
    shadows := []
    magic := fun p => if (s.deviceOf p).isSome then 0 else s.magic p }

/-! ## The lookups -/

/-- `wl_netdev_blob_of`. -/
def State.blobOf (s : State) (real : Ptr) : Option Ptr :=
  if real = 0 then none
  else (s.shadows.find? fun sh => sh.real = real).map NetdevShadow.ptr

/-- `wl_netdev_real_of`. -/
def State.realOf (s : State) (blob : Ptr) : Option Ptr :=
  if blob = 0 then none
  else (s.shadows.find? fun sh => sh.ptr = blob).map NetdevShadow.real

/-! ## The bit operations -/

/-- The operations of the `_*_bit_le` family. -/
inductive BitOp where
  | set
  | testAndSet
  | testAndClear
deriving Repr, DecidableEq

/-- The word in which bit `nr`, counted from the word at `p`, lies. -/
def bitWord (nr : Nat) (p : Ptr) : Ptr := p + 4 * (nr / 32)

/-- `test_bit`. -/
def testBit (words : Ptr → BitVec 32) (nr : Nat) (p : Ptr) : Bool :=
  (words (bitWord nr p)).getLsbD (nr % 32)

/-- `set_bit`. -/
def setBit (words : Ptr → BitVec 32) (nr : Nat) (p : Ptr) : Ptr → BitVec 32 :=
  Function.update words (bitWord nr p) (words (bitWord nr p) ||| 1#32 <<< (nr % 32))

/-- `clear_bit`. -/
def clearBit (words : Ptr → BitVec 32) (nr : Nat) (p : Ptr) : Ptr → BitVec 32 :=
  Function.update words (bitWord nr p) (words (bitWord nr p) &&& ~~~ (1#32 <<< (nr % 32)))

/-- The kernel's own `set_bit`, `test_and_set_bit` and `test_and_clear_bit`: the words
afterwards, and the old bit where the operation returns it. -/
def plainBitop (words : Ptr → BitVec 32) (op : BitOp) (nr : Nat) (p : Ptr) :
    (Ptr → BitVec 32) × Option Bool :=
  match op with
  | .set => (setBit words nr p, none)
  | .testAndSet => (setBit words nr p, some (testBit words nr p))
  | .testAndClear => (clearBit words nr p, some (testBit words nr p))

/-- `wl_shadow_netdev_txq_bitop`: the old bit and the state afterwards, or `none` if the address
is not that of a queue-state word. -/
def txqBitop (s : State) (nr : Nat) (p : Ptr) (op : BitOp) : Option (Bool × State) :=
  match s.shadows.find? fun sh => p = sh.txqState with
  | none => none
  | some found =>
      let prev := testBit s.words nr p
      let words :=
        if op = .testAndClear then clearBit s.words nr p else setBit s.words nr p
      let s' := { s with words := words }
      if nr ≠ 0 then some (prev, s')
      else if op = .testAndClear then
        -- `netif_tx_wake_queue` only if the bit was set
        if prev then
          some (prev, { s' with stopped := Function.update s.stopped found.real false })
        else some (prev, s')
      else some (prev, { s' with stopped := Function.update s.stopped found.real true })

/-- `_set_bit_le`, `_test_and_set_bit_le` and `_test_and_clear_bit_le`. -/
def bitLe (s : State) (op : BitOp) (nr : Nat) (p : Ptr) : State :=
  match txqBitop s nr p op with
  | some (old, s') =>
      { s' with returned := (if op = .set then none else some old) :: s.returned }
  | none =>
      let r := plainBitop s.words op nr p
      { s with words := r.1, returned := r.2 :: s.returned }

/-! ## The system -/

/-- One call of the blob, or the end of the module. -/
inductive Event where
  | allocNetdevMq (sh real : Option Ptr)
  | registerNetdev (blob : Ptr) (ok : Bool)
  | unregisterNetdev (blob : Ptr)
  | freeNetdev (blob : Ptr)
  | exit
  | bit (op : BitOp) (nr : Nat) (p : Ptr)
deriving Repr, DecidableEq

def step (s : State) : Event → State
  | .allocNetdevMq sh real => allocNetdevMq s sh real
  | .registerNetdev blob ok => registerNetdev s blob ok
  | .unregisterNetdev blob => unregisterNetdev s blob
  | .freeNetdev blob => freeNetdev s blob
  | .exit => netdevExit s
  | .bit op nr p => bitLe s op nr p

/-- What the kernel's allocators promise: an address that is not NULL and not in use. -/
def Fresh (s : State) : Event → Prop
  | .allocNetdevMq sh real =>
      (∀ p ∈ sh, p ≠ 0 ∧ ∀ x ∈ s.shadows, x.ptr ≠ p) ∧
        ∀ r ∈ real, r ≠ 0 ∧ ∀ x ∈ s.shadows, x.real ≠ r
  | _ => True

instance (s : State) : (e : Event) → Decidable (Fresh s e)
  | .allocNetdevMq sh real => inferInstanceAs (Decidable
      ((∀ p ∈ sh, p ≠ 0 ∧ ∀ x ∈ s.shadows, x.ptr ≠ p) ∧
        ∀ r ∈ real, r ≠ 0 ∧ ∀ x ∈ s.shadows, x.real ≠ r))
  | .registerNetdev _ _ => isTrue trivial
  | .unregisterNetdev _ => isTrue trivial
  | .freeNetdev _ => isTrue trivial
  | .exit => isTrue trivial
  | .bit _ _ _ => isTrue trivial

end BroadcomWl.Shadow.Netdev
