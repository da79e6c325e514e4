import BroadcomWl.Nas.Dispatch

/-!
# The workspace of nas

`nas_wksp.c`: one process serves several interfaces. Each has a control block with an instance of
`nas`, and all of them share a socket to `eapd`; an interface that asks a RADIUS server has a socket
of its own to it.

**Initialisation.** `nas_init_nas` checks what has been configured. Where something is wrong it sets
`NAS_WPA_CB_FLAG_ERROR` and leaves the instance as it is by then, which is at a different point for
each of the checks.

**The main loop.** A round waits for the sockets and dispatches what comes: a packet of `eapd` to
the control block that belongs to its address and interface (which may have to be set up on demand),
a packet of a RADIUS server to the block with its socket. Between rounds timers expire, and a signal
asks for new group keys.

What the kernel answers and what is read from the sockets is a parameter, and so is the
configuration that `get_wsec` reads for a new interface. -/

namespace BroadcomWl.Nas

open BroadcomWl.Lib

/-! ## The configuration -/

/-- What `nas_init_nas` reads of a control block that has been filled. The strings end at their
first zero octet. -/
structure Setup where
  interface : Bytes
  role : Role
  wds : Bool
  mode : Nat
  wsec : Nat
  ea : Bytes
  /-- `wds remote address`. -/
  remote : Bytes
  psk : Bytes
  ssid : Bytes
  wep : Bytes
  index : Nat
  gtkRekeySecs : Nat
  ssnTo : Nat
  disablePreauth : Bool
  /-- The parser of the command line has set the error flag already. -/
  flagged : Bool
  /-- The answers of the interface's driver. -/
  drv : Driver

def gtkIndex1 : Nat := 1
def gtkIndex2 : Nat := 2

/-- `NAS_WKSP_PSK_LEN`. -/
def wkspPskLen : Nat := 64
def wkspPassphraseMin : Nat := 8
def wkspPassphraseMax : Nat := 63

/-- The key index and the rekey interval, as an authenticator corrects them. -/
def validIndex (s : Setup) : Nat × Nat :=
  let index := if s.index ≠ gtkIndex1 + 1 ∧ s.index ≠ gtkIndex2 + 1 then gtkIndex1 + 1 else s.index
  match s.role with
  | .authenticator =>
    if checkNas s.mode && wsecWepEnabled s.wsec then (index, 0)
    else (if s.index = 0 then 0 else index, s.gtkRekeySecs)
  | .supplicant => (s.index, s.gtkRekeySecs)

/-! ## Keys -/

def isDigit (c : UInt8) : Bool := 0x30 ≤ c && c ≤ 0x39

def isxdigit (c : UInt8) : Bool := isDigit c || (0x41 ≤ c && c ≤ 0x46) || (0x61 ≤ c && c ≤ 0x66)

/-- The value of a hexadecimal digit. -/
def hexValue (c : UInt8) : UInt8 :=
  if isDigit c then c - 0x30 else if c ≤ 0x46 then c - 0x37 else c - 0x57

/-- `strtoul` of two characters to base 16, as an octet: white space and a sign are skipped, and the
number ends where there is no digit. -/
def strtoul16 (a b : UInt8) : UInt8 :=
  let digit := if isxdigit b then hexValue b else 0
  if isxdigit a then (if isxdigit b then 16 * hexValue a + hexValue b else hexValue a)
  else if a = 0x20 || (0x09 ≤ a && a ≤ 0x0d) || a = 0x2b then digit
  else if a = 0x2d then 0 - digit
  else 0

/-- The digits of a numeric pre-shared key. -/
def numericPsk (psk : Bytes) : Option Bytes :=
  if psk.length = wkspPskLen then some psk
  else if psk.length = wkspPskLen + 2 ∧ (psk.take 2 = [0x30, 0x78] ∨ psk.take 2 = [0x30, 0x58]) then
    some (psk.drop 2)
  else none

/-- The loop over a numeric key: it ends at the first pair that is not hexadecimal. -/
def hexOctets : Nat → Bytes → Bytes × Bool
  | n + 1, a :: b :: rest =>
    if isxdigit a && isxdigit b then
      let (octets, ok) := hexOctets n rest
      (strtoul16 a b :: octets, ok)
    else ([], false)
  | _, _ => ([], true)

/-- The PMK of a pre-shared key, and whether it is in order; `none` where the initialisation ends.
What the loop has not written of a numeric key is zero. -/
def pskKey (passhash : Bytes → Bytes → Option Bytes) (s : Setup) : Option (Bytes × Bool) :=
  if !checkPsk s.mode then some ([], true)
  else
    match numericPsk s.psk with
    | some num =>
      let (octets, ok) := hexOctets (wkspPskLen / 2) num
      some (octets ++ List.replicate (wkspPskLen / 2 - octets.length) 0, ok)
    | none =>
      if s.psk.length < wkspPassphraseMin ∨ wkspPassphraseMax < s.psk.length then none
      else (passhash s.psk s.ssid).map fun output => (output.take pmkLen, true)

def wep1KeyHexSize : Nat := 10
def wep128KeyHexSize : Nat := 26

def hexPairs : Bytes → Bytes
  | a :: b :: rest => strtoul16 a b :: hexPairs rest
  | _ => []

theorem hexPairs_length (key : Bytes) : (hexPairs key).length = key.length / 2 := by
  induction key using hexPairs.induct with
  | case1 a b rest ih =>
      rw [hexPairs, List.length_cons, ih]
      simp only [List.length_cons]
      omega
  | case2 key h =>
      cases key with
      | nil => rfl
      | cons a rest =>
          cases rest with
          | nil => simp [hexPairs]
          | cons b rest => exact absurd rfl (h a b rest)

/-- A static WEP key in octets or in hexadecimal digits. -/
def wepOctets (wep : Bytes) : Option Bytes :=
  if wep.length = wep1KeySize ∨ wep.length = wep128KeySize then some wep
  else if wep.length = wep1KeyHexSize ∨ wep.length = wep128KeyHexSize then some (hexPairs wep)
  else none

theorem wepOctets_length (wep key : Bytes) (h : wepOctets wep = some key) :
    key.length = wep1KeySize ∨ key.length = wep128KeySize := by
  unfold wepOctets at h
  split at h
  · rename_i hlen
    cases h
    exact hlen
  · split at h
    · rename_i hlen
      cases h
      rw [hexPairs_length]
      rcases hlen with hlen | hlen
      · exact .inl (by rw [hlen]; rfl)
      · exact .inr (by rw [hlen]; rfl)
    · cases h

/-! ## Control blocks -/

/-- `nas_wpa_cb_t`. -/
structure Block where
  interface : Bytes
  /-- `NAS_WPA_CB_FLAG_ERROR`. -/
  error : Bool
  ctx : Ctx
  /-- The socket to the RADIUS server. -/
  wan : Option Nat
  /-- `nas_start` has been called, or something has been dispatched to the block. -/
  started : Bool
  nas : World

/-- The host: the primitives, `passhash`, and the kernel's answer to an attempt to open and connect
a socket. The descriptor is none of those that are open. -/
structure Host where
  crypto : Crypto
  passhash : Bytes → Bytes → Option Bytes
  radiusOpen : Nat → List Nat → Option Nat
  radiusOpen_fresh : ∀ n held fd, radiusOpen n held = some fd → fd ∉ held

/-- The configuration with the index, the rekey interval and the PMK that have been found. -/
def Setup.ctx (s : Setup) (h : Host) (index gtkRekeySecs : Nat) (pmk : Bytes) : Ctx where
  crypto := h.crypto
  cfg :=
    { role := s.role
      wds := s.wds
      mode := s.mode
      wsec := s.wsec
      ea := s.ea
      remote := s.remote
      pmk := pmk
      index := index
      wepKey := wepOctets s.wep
      gtkRekeySecs := gtkRekeySecs
      ssnTo := s.ssnTo
      disablePreauth := s.disablePreauth
      wep_ok := wepOctets_length s.wep }
  drv := s.drv

/-- `wsec` is set, and to nothing unknown. -/
def wsecOk (wsec : Nat) : Bool :=
  wsec != 0 && wsec &&& (aesEnabled ||| tkipEnabled ||| wepEnabled) == wsec

/-- A static WEP key is configured and is to be used, but has no valid length. -/
def wepBroken (c : Ctx) (wep : Bytes) : Bool :=
  c.cfg.gtkRekeySecs = 0 && wsecWepEnabled c.cfg.wsec && c.cfg.index != 0 && wep != []
    && c.cfg.wepKey.isNone

/-- The part of `nas_init_nas` before the pre-shared key. -/
def initLen (c : Ctx) : NasM Unit := do
  if has c.cfg.mode radius then modify fun w => { w with gtkLen := wep128KeySize }

/-- `nas_init_nas`, of a block with this socket. -/
def nasInitBlock (h : Host) (wan : Option Nat) (s : Setup) : Block :=
  let failed := fun (c : Ctx) (w : World) => Block.mk s.interface true c wan false w
  if !checkAuth s.mode || !wsecOk s.wsec then
    failed (s.ctx h s.index s.gtkRekeySecs []) { World.zero with gtkIndex := 0 }
  else
    let (index, gtkRekeySecs) := validIndex s
    match pskKey h.passhash s with
    | none =>
      let c := s.ctx h index gtkRekeySecs []
      failed c (exec (initLen c) World.zero)
    | some (pmk, ok) =>
      let c := s.ctx h index gtkRekeySecs pmk
      if wepBroken c s.wep then failed c (exec (do initLen c; initSeeds c) World.zero)
      else if s.flagged || !ok then failed c (exec (nasInitKeys c) World.zero)
      else ⟨s.interface, false, c, wan, true, initWorld c⟩

/-! ## The workspace -/

/-- `NAS_WKSP_MAX_NUM_INTERFACES`. -/
def wkspMaxNumInterfaces : Nat := 66

/-- `nas_wksp_t`; `calls` counts the sockets that the kernel has been asked for. -/
structure Wksp where
  eapd : Option Nat
  nwcbs : List Block
  calls : Nat
  /-- `NAS_WKSP_FLAG_SHUTDOWN`. -/
  shutdown : Bool

namespace Wksp

/-- The descriptors that are open. -/
def held (W : Wksp) : List Nat := W.eapd.toList ++ W.nwcbs.filterMap Block.wan

def modify (W : Wksp) (k : Nat) (f : Block → Block) : Wksp := { W with nwcbs := W.nwcbs.modify k f }

/-- `nas_radius_open`: the old socket is closed first. -/
def radiusOpen (W : Wksp) (h : Host) (k : Nat) : Wksp :=
  let W := W.modify k fun b => { b with wan := none }
  let fd := h.radiusOpen W.calls W.held
  { W.modify k fun b => { b with wan := fd } with calls := W.calls + 1 }

/-- The search of `nas_wksp_find_nwcb`. Without a name, any interface with the address will do. -/
def findNwcb (W : Wksp) (mac : Bytes) (osifname : Option Bytes) : Option Nat :=
  W.nwcbs.findIdx? fun b => b.ctx.cfg.ea = mac && osifname.all (b.interface = ·)

/-- `nas_wksp_add_nwcb`, with the configuration that `nas_get_wsec` finds. The block is entered
before its socket is opened and before it is initialised. -/
def addNwcb (W : Wksp) (h : Host) (info : Option Setup) : Wksp × Option Nat :=
  if W.nwcbs.length < wkspMaxNumInterfaces then
    match info with
    | none => (W, none)
    | some s =>
      if checkRadius s.mode then
        let wan := h.radiusOpen W.calls W.held
        ({ W with nwcbs := W.nwcbs ++ [nasInitBlock h wan s], calls := W.calls + 1 },
          some W.nwcbs.length)
      else ({ W with nwcbs := W.nwcbs ++ [nasInitBlock h none s] }, some W.nwcbs.length)
  else (W, none)

end Wksp

/-! ## Dispatching -/

/-- What is read from the socket of `eapd`: a frame with the name of the interface in front, or an
event of the driver that is meant for `nas`. An event of a type that `nas` does not handle is
`none`. -/
inductive EapdPacket
  | eapol (ifname : Bytes) (f : Frame)
  | preauth (f : Frame)
  | brcmevent (ifname dhost : Bytes) (event : Option Event)

namespace EapdPacket

/-- The destination address. -/
def mac : EapdPacket → Bytes
  | .eapol _ f => f.mem.slice 0 6
  | .preauth f => f.mem.slice 0 6
  | .brcmevent _ dhost _ => dhost

/-- The name that is looked for. -/
def osifname : EapdPacket → Option Bytes
  | .eapol ifname _ => some ifname
  | .preauth _ => none
  | .brcmevent ifname _ _ => some ifname

/-- What is dispatched to the instance. -/
def event : EapdPacket → Option Event
  | .eapol _ f => some (.eapol f)
  | .preauth f => some (.preauth f)
  | .brcmevent _ _ ev => ev

end EapdPacket

/-- A round of the main loop, as the outside decides it. -/
structure Round where
  now : Nat
  /-- What is read from the socket of `eapd`. -/
  packet : Option EapdPacket
  /-- The configuration of an interface that has no block. -/
  info : Option Setup
  /-- The descriptors that `select` reports. -/
  ready : Nat → Bool
  /-- What is read from a socket to a RADIUS server; `none` for an error. -/
  radius : Nat → Option RadiusResponse
  /-- While an event is dispatched to the block a request cannot be sent, and the socket is opened
  again. -/
  reopened : Nat → Bool

namespace Wksp

/-- An event for the instance of a block. -/
def deliver (W : Wksp) (h : Host) (r : Round) (k : Nat) (ev : Event) : Wksp :=
  let W := W.modify k fun b => { b with nas := step b.ctx b.nas (r.now, ev), started := true }
  if r.reopened k then W.radiusOpen h k else W

/-- A packet of `eapd`. -/
def eapdPacket (W : Wksp) (h : Host) (r : Round) (p : EapdPacket) : Wksp :=
  let (W, k) := match W.findNwcb p.mac p.osifname with
    | some k => (W, some k)
    | none => W.addNwcb h r.info
  match k, p.event with
  | some k, some ev => W.deliver h r k ev
  | _, _ => W

/-- The descriptors that are waited for: a block with the error flag is ignored. -/
def fdset (W : Wksp) : List Nat :=
  W.eapd.toList ++ (W.nwcbs.filter fun b => !b.error).filterMap Block.wan

/-- The RADIUS data of a block. -/
def radiusBlock (h : Host) (r : Round) (fdset : List Nat) (W : Wksp) (k : Nat) : Wksp :=
  match (W.nwcbs[k]?).bind Block.wan with
  | none => W
  | some fd =>
    if fd ∈ fdset && r.ready fd then
      match r.radius fd with
      | none => W.radiusOpen h k
      | some resp => W.deliver h r k (.radius resp)
    else W

/-- `nas_wksp_dispatch_packet`. -/
def dispatchPacket (W : Wksp) (h : Host) (r : Round) : Wksp :=
  let set := W.fdset
  if set = [] then { W with shutdown := true }
  else
    let W := match W.eapd, r.packet with
      | some fd, some p => if r.ready fd then W.eapdPacket h r p else W
      | _, _ => W
    (List.range W.nwcbs.length).foldl (radiusBlock h r set) W

end Wksp

/-- A timer of an instance. -/
def Event.isTimer : Event → Bool
  | .retxTimer _ | .wdsTimer _ | .gtkTimer | .ptkTimer | .countermeasuresTimer | .watchdogTimer =>
    true
  | _ => false

/-- The timer of the group key, which a new key for all blocks sets as well. -/
def Event.isGtkTimer : Event → Bool
  | .gtkTimer => true
  | _ => false

inductive WkspEvent
  | round (r : Round)
  /-- A timer of a block expires. But for that of the group key, only `nas_start` and what is
  dispatched set them. -/
  | timer (k now : Nat) (ev : Event)
  /-- The signal for new group keys. -/
  | rekey (now : Nat)

/-- One iteration of `nas_wksp_main_loop`, or a timer that expires. -/
def wkspStep (h : Host) (W : Wksp) : WkspEvent → Wksp
  | .round r => if W.shutdown then W else W.dispatchPacket h r
  | .timer k now ev =>
    W.modify k fun b =>
      if ev.isTimer && (b.started || ev.isGtkTimer)
        then { b with nas := step b.ctx b.nas (now, ev) } else b
  | .rekey now =>
    { W with nwcbs := W.nwcbs.map fun b => { b with nas := step b.ctx b.nas (now, .forceRekey) } }

/-- `nas_wksp_init`, with the interfaces of the command line. -/
def initWksp (h : Host) (eapd : Option Nat) (setups : List Setup) : Wksp :=
  let start : Wksp := ⟨eapd, [], 0, false⟩
  setups.foldl (fun W s => (W.addNwcb h (some s)).1) start

end BroadcomWl.Nas
