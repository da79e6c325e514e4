import BroadcomWl.Eapd.Station
import BroadcomWl.Lib.Wp

/-!
# The packet buffer of eapd

A packet is read into `packet` of the workspace, behind `IFNAMSIZ` octets that are reserved for the
name of an interface, and everything is done in place. Here are the octets of the buffer, the
stations, and a log of what is read from the buffer and what is sent; the operations that the
handlers are made of.

What does not change while a packet is handled is the context `Ctx`: the applications, their sockets
and control blocks, and the answers of the helpers that convert names of interfaces. -/

namespace BroadcomWl.Eapd

open BroadcomWl.Lib
open BroadcomWl.Nas (Bytes Mem)

/-- `eapd_app_mode_t`, less what is not built. -/
inductive App where
  | wps
  | ses
  | nas
deriving Repr, DecidableEq

/-- `IFNAMSIZ`, and the offset in the buffer at which a packet begins. -/
def ifnamsiz : Nat := 16

/-- A socket of the driver, as the handlers see it. -/
structure From where
  ifname : Bytes
  flag : Nat
deriving Repr, DecidableEq

/-- What the handlers consult. -/
structure Ctx where
  now : Int
  /-- `appSocket` is open. -/
  appSocket : App → Bool
  /-- The names of the control blocks, in the order of the list. -/
  cbs : App → List Bytes
  /-- `isset` of the application's event mask. -/
  bitvec : App → Nat → Bool
  /-- The names in `ifnames`. -/
  ifnames : App → List Bytes
  /-- `wl_wlif_is_psta`. -/
  psta : Bytes → Bool
  /-- `osifname_to_nvifname`. -/
  osifnameToNvifname : Bytes → Option Bytes

/-- What is done with the buffer, and what is sent. -/
inductive Touch where
  /-- Octets are examined or copied. -/
  | read (off len : Nat)
  /-- Octets of the buffer are handed to an application. -/
  | sendup (app : App) (off : Nat) (frame : Bytes)
  /-- `eapd_eapol_canned_send`. -/
  | canned (i : Slot) (code type : UInt8)
deriving Repr, DecidableEq

/-- What a handler works on; the log is newest first. -/
structure Work where
  packet : Mem
  stas : StaTable
  log : List Touch

/-- Why a handler does not return: it runs along a chain that does not end. -/
inductive Stuck where
  | chain
deriving Repr, DecidableEq

abbrev EapdM := EStateM Stuck Work

/-- `memmove` within the buffer. -/
def Work.move (w : Work) (dst src n : Nat) : Work :=
  { w with
    packet := fun i => if dst ≤ i ∧ i < dst + n then w.packet (src + (i - dst)) else w.packet i }

/-- Octets from elsewhere are copied into the buffer. -/
def Work.store (w : Work) (dst : Nat) (b : Bytes) : Work :=
  { w with
    packet := fun i => if dst ≤ i ∧ i < dst + b.length then b.getD (i - dst) 0 else w.packet i }

def Work.touch (w : Work) (t : Touch) : Work := { w with log := t :: w.log }

section

variable (c : Ctx)

def touch (t : Touch) : EapdM Unit := modify fun w => w.touch t

/-- The octets from `off` on. -/
def octets (off n : Nat) : EapdM Bytes := do
  touch (.read off n)
  let w ← get
  return w.packet.slice off n

def octet (off : Nat) : EapdM UInt8 := do
  touch (.read off 1)
  let w ← get
  return w.packet off

/-- `ntohs`. -/
def u16 (off : Nat) : EapdM Nat := do
  touch (.read off 2)
  let w ← get
  return w.packet.u16 off

/-- `ltoh16_ua`. -/
def le16 (off : Nat) : EapdM Nat := do
  touch (.read off 2)
  let w ← get
  return w.packet.le16 off

/-- `ntohl`. -/
def u32 (off : Nat) : EapdM Nat := do
  touch (.read off 4)
  let w ← get
  return w.packet.u16 off * 65536 + w.packet.u16 (off + 2)

def memmove (dst src n : Nat) : EapdM Unit := do
  touch (.read src n)
  modify fun w => w.move dst src n

def store (dst : Nat) (b : Bytes) : EapdM Unit := modify fun w => w.store dst b

def getSta (i : Slot) : EapdM Sta := do return (← get).stas.sta i

def modSta (i : Slot) (f : Sta → Sta) : EapdM Unit :=
  modify fun w => { w with stas := w.stas.updSta i f }

/-- `sta_lookup` with `EAPD_SEARCH_ENTER`, for addresses and a name that stand in the buffer. -/
def staLookup (staEa bssidEa ifname : Nat) : EapdM (Option Slot) := do
  let sta ← octets staEa 6
  let bssid ← octets bssidEa 6
  let name ← octets ifname ifnamsiz
  let w ← get
  match w.stas.staLookup c.psta sta (some bssid) name .searchEnter c.now with
  | none => throw .chain
  | some (stas, i) =>
    set { w with stas := stas }
    return i

/-- `sta_remove`. -/
def staRemove (i : Slot) : EapdM Unit := do
  let w ← get
  match w.stas.staRemove i with
  | none => throw .chain
  | some stas => set { w with stas := stas }

/-- `nas_app_sendup`, `wps_app_monitor_sendup` and `ses_app_sendup`: one datagram. -/
def appSendup (app : App) (pData len : Nat) : EapdM Unit := do
  let w ← get
  if c.appSocket app then touch (.sendup app pData (w.packet.slice pData len))

def nasAppSendup (pData len : Nat) : EapdM Unit := appSendup c .nas pData len
def wpsAppMonitorSendup (pData len : Nat) : EapdM Unit := appSendup c .wps pData len
def sesAppSendup (pData len : Nat) : EapdM Unit := appSendup c .ses pData len

end

/-! ## Rules -/

section

variable {c : Ctx} {E : Stuck → Work → Prop} {w : Work}

@[simp] theorem touch_packet (t : Touch) : (w.touch t).packet = w.packet := rfl
@[simp] theorem touch_stas (t : Touch) : (w.touch t).stas = w.stas := rfl
@[simp] theorem touch_log (t : Touch) : (w.touch t).log = t :: w.log := rfl

theorem store_packet (dst : Nat) (b : Bytes) {i : Nat} (h : dst ≤ i ∧ i < dst + b.length) :
    (w.store dst b).packet i = b.getD (i - dst) 0 := if_pos h

theorem store_packet_of_not (dst : Nat) (b : Bytes) {i : Nat}
    (h : ¬(dst ≤ i ∧ i < dst + b.length)) :
    (w.store dst b).packet i = w.packet i := if_neg h

theorem move_packet (dst src n : Nat) {i : Nat} (h : dst ≤ i ∧ i < dst + n) :
    (w.move dst src n).packet i = w.packet (src + (i - dst)) := if_pos h

theorem move_packet_of_not (dst src n : Nat) {i : Nat} (h : ¬(dst ≤ i ∧ i < dst + n)) :
    (w.move dst src n).packet i = w.packet i := if_neg h

@[simp] theorem wp_touch {Q : Unit → Work → Prop} (t : Touch) :
    wp (touch t) Q E w ↔ Q () (w.touch t) := Iff.rfl

@[simp] theorem wp_octets {Q : Bytes → Work → Prop} (off n : Nat) :
    wp (octets off n) Q E w ↔ Q (w.packet.slice off n) (w.touch (.read off n)) := Iff.rfl

@[simp] theorem wp_octet {Q : UInt8 → Work → Prop} (off : Nat) :
    wp (octet off) Q E w ↔ Q (w.packet off) (w.touch (.read off 1)) := Iff.rfl

@[simp] theorem wp_u16 {Q : Nat → Work → Prop} (off : Nat) :
    wp (u16 off) Q E w ↔ Q (w.packet.u16 off) (w.touch (.read off 2)) := Iff.rfl

@[simp] theorem wp_le16 {Q : Nat → Work → Prop} (off : Nat) :
    wp (le16 off) Q E w ↔ Q (w.packet.le16 off) (w.touch (.read off 2)) := Iff.rfl

@[simp] theorem wp_u32 {Q : Nat → Work → Prop} (off : Nat) :
    wp (u32 off) Q E w ↔
      Q (w.packet.u16 off * 65536 + w.packet.u16 (off + 2)) (w.touch (.read off 4)) := Iff.rfl

@[simp] theorem wp_memmove {Q : Unit → Work → Prop} (dst src n : Nat) :
    wp (memmove dst src n) Q E w ↔ Q () ((w.touch (.read src n)).move dst src n) := Iff.rfl

@[simp] theorem wp_store {Q : Unit → Work → Prop} (dst : Nat) (b : Bytes) :
    wp (store dst b) Q E w ↔ Q () (w.store dst b) := Iff.rfl

@[simp] theorem wp_getSta {Q : Sta → Work → Prop} (i : Slot) :
    wp (getSta i) Q E w ↔ Q (w.stas.sta i) w := Iff.rfl

@[simp] theorem wp_modSta {Q : Unit → Work → Prop} (i : Slot) (f : Sta → Sta) :
    wp (modSta i f) Q E w ↔ Q () { w with stas := w.stas.updSta i f } := Iff.rfl

theorem wp_appSendup {Q : Unit → Work → Prop} (app : App) (pData len : Nat) :
    wp (appSendup c app pData len) Q E w ↔
      (c.appSocket app = true → Q () (w.touch (.sendup app pData (w.packet.slice pData len)))) ∧
        (¬c.appSocket app = true → Q () w) := by
  unfold appSendup
  rw [wp_bind, wp_get, wp_ite]
  exact Iff.rfl

end

end BroadcomWl.Eapd
