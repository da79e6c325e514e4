import Mathlib
import BroadcomWl.Nas.State

/-!
# The station table and the port entity

The driver calls of `nas_wl.c` and the parts of `nas.c` that every other function builds on:
entering, finding, evicting and tossing a station, and the 802.1x port states.

`lookupSta` follows the hash chains; a slot for a new station is the first unused one, else
the least recently used one, which is tossed first. `cleanupSta` is what the callers run when
something went wrong: a station with a live PMK cache entry is kept, on a WDS link nothing is
tossed.
-/

namespace BroadcomWl.Nas

variable (c : Ctx)

/-! ## Driver calls -/

def nasSetKey (a : KeyArgs) : NasM Int := do
  let ret ← oracle fun n => c.drv.setKey n a
  emit (.setKey a ret)
  return ret

/-- Remove the key at an index, or the pairwise key of an address. -/
def KeyArgs.clear (ea : Option Bytes) (index : Nat) : KeyArgs := ⟨ea, [], index, false, [], false⟩

def nasAuthorize (ea : Bytes) : NasM Unit := emit (.authorize ea)

def nasDeauthorize (ea : Bytes) : NasM Unit := emit (.deauthorize ea)

def nasDeauthenticate (ea : Bytes) (reason : Nat) : NasM Unit := do
  let _ ← nasSetKey c (KeyArgs.clear (some ea) 0)
  emit (.deauthenticate ea reason)

/-- `nas_get_group_rsc`, with the callers' fallback to zero. -/
def nasGetGroupRsc : NasM Unit := do
  match ← oracle c.drv.groupRsc with
  | some rsc => modify fun w => { w with gtkRsc := rsc }
  | none => modify fun w => { w with gtkRsc := List.replicate 8 0 }

def nasRand128 : NasM Bytes := oracle c.drv.rand128

/-- `nas_get_wpacap`, where a failure leaves the capabilities as they are. -/
def nasGetWpacap : NasM Unit := do
  match ← oracle c.drv.wpaCap with
  | some cap => modify fun w => { w with cap := cap }
  | none => return

/-- `wpa_set_itimer`: the new value of the timer descriptor. A failed creation leaves the old
one in place. -/
def wpaSetItimer (td : Option Nat) : NasM (Option Nat) := do
  let stamp := (← get).calls
  match ← oracle c.drv.itimer with
  | .createError => return td
  | _ => return some stamp

/-- Remove the retransmission timer, if any, and forget the handler. -/
def wpaStopRetx (i : Slot) : NasM Unit :=
  modSta i fun s => { s with td := none, retxExceedHndlr := false }

/-- Set a timeout for retransmission. -/
def armRetx (i : Slot) : NasM Unit := do
  let td ← wpaSetItimer c (← getSta i).td
  modSta i fun s => { s with td := td }

/-! ## The station table -/

def slots : List Slot := List.finRange maxSupplicants

def paeHash (ea : Bytes) : Slot :=
  let h := (ea.getD 3 0 ^^^ ea.getD 4 0 ^^^ ea.getD 5 0).toNat % maxSupplicants
  ⟨h, Nat.mod_lt _ maxSupplicants_pos⟩

/-- `toss_sta`. -/
def tossSta (i : Slot) (reason : Nat) (driverSignal : Bool) : NasM Unit := do
  let s ← getSta i
  if !driverSignal then nasDeauthenticate c s.ea reason
  wpaStopRetx i
  modify fun w => w.setChain (paeHash s.ea) ((w.staHashed (paeHash s.ea)).erase i)
  modSta i fun s => { s with used := false }
  emit (.toss i s.ea)

/-- The end of `cleanup_sta`: the station is tossed, unless it is the peer of a WDS link or an
authenticated WPA2 station whose cached PMK is respected. -/
def cleanupTail (i : Slot) (auth : Bool) : NasM Unit := do
  wpaStopRetx i
  let s ← getSta i
  if has s.mode wpa2 && s.pae.state = .authenticated && s.pae.ssnto != 0 then
    modSta i fun s => { s with state := .ptkstart }
  else if !auth then tossSta c i 0 true

/-- `cleanup_sta`. -/
def cleanupSta (i : Slot) (reason : Nat) (driverSignal : Bool) : NasM Unit := do
  let auth := c.cfg.wds && c.cfg.role = .authenticator
  -- On a WDS link the station is only marked as disconnected, and the driver is not told.
  if auth && !driverSignal then
    modSta i fun s => { s with state := .disconnected }
  if !driverSignal && !auth then
    nasDeauthenticate c (← getSta i).ea reason
  cleanupTail c i auth

/-- The slot for a new station: the first unused one, else the least recently used one that
is older than `oldest`; the flag says that it has to be evicted. -/
def scanSlots (w : World) : List Slot → Nat → Option Slot → Option (Slot × Bool)
  | [], _, old => old.map fun i => (i, true)
  | i :: l, oldest, old =>
    if !(w.sta i).used then some (i, false)
    else if (w.sta i).lastUse < oldest then scanSlots w l (w.sta i).lastUse (some i)
    else scanSlots w l oldest old

/-- A freshly initialised station. -/
def newSta (ea : Bytes) (now : Nat) : Sta :=
  let s := { Sta.zero with
    ea := ea, used := true, lastUse := now, eapolVersion := wpaEapolVersion, pkState := .unknown }
  let s := match c.cfg.role with
    | .authenticator => { s with state := .authentication2, retryState := .authentication2 }
    | .supplicant => { s with state := .supAuthentication, retryState := .supAuthentication }
  if has c.cfg.mode radius && has c.cfg.wsec wepEnabled then
    { s with mode := radius, wsec := wepEnabled, algo := cryptoAlgoWep128 }
  else s

/-- Initialise a slot for a station, and link it in. -/
def enterSta (ea : Bytes) (now : Nat) (i : Slot) : NasM Unit := do
  modSta i fun _ => newSta c ea now
  if c.cfg.role = .supplicant then modify fun w => { w with gtkPlumbed := false }
  modify fun w => w.setChain (paeHash ea) (i :: w.staHashed (paeHash ea))
  emit (.init i ea)

/-- `lookup_sta`. With `enter` unset, no entry is created. -/
def lookupSta (ea : Bytes) (enter : Bool) : NasM (Option Slot) := do
  let w ← get
  match (w.staHashed (paeHash ea)).find? fun i => (w.sta i).ea = ea with
  | some i =>
    modSta i fun s => { s with lastUse := w.now }
    return some i
  | none =>
    if !enter then return none
    match scanSlots w slots w.now none with
    | none => return none
    | some (i, evict) =>
      if evict then tossSta c i dot11RcBusy false
      enterSta c ea w.now i
      return some i

/-! ## The port entity -/

/-- `eapol_canned`. -/
def eapolCanned (i : Slot) (code type : UInt8) : NasM Unit := do
  let s ← getSta i
  emit (.eap s.ea s.preAuth code type s.pae.id)

/-- The part of `pae_state` for `CONNECTING`. -/
def paeConnecting (i : Slot) : NasM Unit := do
  modSta i fun s => { s with
    pae := { s.pae with
      state := .connecting, eapSuccess := false, ssnto := 0 } }
  eapolCanned i eapRequest eapIdentity
  modSta i fun s => { s with rxauths := s.rxauths + 1, txWhen := 30 }

/-- `pae_state`: transition to a new port state. -/
def paeState (i : Slot) (state : PaeState) : NasM Unit := do
  match state with
  | .authenticated =>
    modSta i fun s => { s with pae := { s.pae with state := .authenticated } }
    eapolCanned i eapSuccess 0
    modSta i fun s => { s with pae := { s.pae with id := s.pae.id + 1 }, rxauths := 0 }
  | .held =>
    modSta i fun s => { s with pae := { s.pae with state := .held } }
    eapolCanned i eapFailure 0
    modSta i fun s => { s with pae := { s.pae with id := s.pae.id + 1 }, quietWhile := 60 }
  | .aborting =>
    modSta i fun s => { s with
      pae := { s.pae with
        state := .aborting, username := [], radiusState := [], request := none,
        id := s.pae.id + 1 } }
  | .disconnected =>
    modSta i fun s => { s with pae := { s.pae with state := .disconnected } }
    eapolCanned i eapFailure 0
    modSta i fun s => { s with
      pae := { s.pae with id := s.pae.id + 1, state := .connecting }, rxauths := 0 }
    paeConnecting i
  | .connecting => paeConnecting i
  | .authenticating =>
    modSta i fun s => { s with pae := { s.pae with state := .authenticating }, authWhile := 60 }
  | .initialise => modSta i fun s => { s with pae := { s.pae with state := .initialise } }

/-- What `eapol_dispatch_ex` does with an EAPOL-Start. -/
def eapolStartCase (i : Slot) : NasM Unit := do
  modSta i fun s => { s with pae := { s.pae with id := 0 } }
  if (← getSta i).pae.state = .authenticating then paeState i .aborting
  paeState i .connecting
  modSta i fun s => { s with state := .ptkstart, retryState := .ptkstart }

/-- `send_identity_req` pretends that the station has sent an EAPOL-Start: this is the path
of such a frame through `eapol_dispatch_ex`. -/
def sendIdentityReq (i : Slot) : NasM Unit := do
  match ← lookupSta c (← getSta i).ea true with
  | none => return
  | some j =>
    let s ← getSta j
    if s.pae.state = .held then return
    if checkPsk s.mode then return
    modSta j fun s => { s with preAuth := false }
    eapolStartCase j

end BroadcomWl.Nas
