import BroadcomWl.Nas.Supplicant

/-!
# Dispatching events

`nas.c` and `nas_radius.c`: the entry points that the main loop calls for a received frame, a
driver message, a RADIUS response or an expired timer, and `nas_start`. Together they make
an instance a transition system: `step` processes one event to its end.

A RADIUS response is an identifier, a code and the decoded sequence of its attributes; the
octet-level walk over the packet, the check of the Message-Authenticator and the decryption of
the MPPE keys produce this sequence. A group rekey timer may fire at any time: a link-down
makes `wpa_init_gtk` arm a second one without deleting the first, so its descriptor says
nothing about whether one is running.
-/

namespace BroadcomWl.Nas

open BroadcomWl.Lib

variable (c : Ctx)

/-! ## RADIUS -/

/-- `radius_forward`: the request is kept unless it could not be sent. -/
def radiusForward (i : Slot) (eap : Bytes) : NasM Unit := do
  let s ← getSta i
  let _ ← nasRand128 c
  modSta i fun s => { s with pae := { s.pae with radiusState := [] } }
  emit (.radiusForward i s.pae.username s.pae.radiusState eap)
  let sent ← oracle c.drv.radiusSend
  modSta i fun s => { s with pae := { s.pae with request := if sent then some i.val else none } }

/-- The attributes of a RADIUS response that `radius_dispatch` looks at. An `eapMessage` carries
what stands at the places of the code and the identifier of an EAP header, which an empty or
one-octet value does not contain; a `mppeRecv` carries the decrypted key, whose first octet is its
length; `bad` stands for every malformed attribute that ends the processing. -/
inductive RadiusAttr
  | messageAuthenticator (valid : Bool)
  | state (v : Bytes)
  | eapMessage (code id : UInt8) (v : Bytes)
  | mppeSend (plain : Bytes)
  | mppeRecv (plain : Bytes)
  | sessionTimeout (n : Nat)
  | wnm (kind : WnmKind)
  | other
  | bad
  deriving DecidableEq, Repr

inductive RadiusCode
  | accept | reject | challenge | other
  deriving DecidableEq, Repr

structure RadiusResponse where
  id : UInt8
  code : RadiusCode
  attrs : List RadiusAttr
  deriving DecidableEq, Repr

/-- `RADIUS_MAX_ATTRIBUTES`, the number of entries of the array for the EAPOL header and the
fragments of an EAP message. -/
def radiusMaxAttributes : Nat := (4096 - 20) / 255 + 1

/-- What the attribute loop has gathered: the signature verdict, the code and the identifier at the
first EAP message, the length field of the EAPOL header with the fragments behind it, and the MPPE
keys. -/
structure Gathered where
  authenticated : Bool
  eap : Option (UInt8 × UInt8)
  length : Nat
  frags : List Bytes
  mppeSend : Option Bytes
  mppeRecv : Option Bytes
  deriving DecidableEq, Repr

namespace Gathered

def empty : Gathered := ⟨false, none, 0, [], none, none⟩

/-- Gather a fragment, unless the array is full. -/
def addFragment (g : Gathered) (code id : UInt8) (v : Bytes) : Gathered :=
  let g := { g with eap := some (g.eap.getD (code, id)) }
  if g.frags.length + 1 < radiusMaxAttributes then
    { g with length := (g.length + v.length) % 65536, frags := g.frags ++ [v] }
  else g

end Gathered

/-- The attribute loop of `radius_dispatch`; `none` where it goes to `done`. -/
def radiusAttrs (i : Slot) (code : RadiusCode) : List RadiusAttr → Gathered → NasM (Option Gathered)
  | [], g => return some g
  | a :: l, g => do
    match a with
    | .messageAuthenticator valid =>
      if valid then radiusAttrs i code l { g with authenticated := true } else return none
    | .state v =>
      modSta i fun s => { s with pae := { s.pae with radiusState := v } }
      radiusAttrs i code l g
    | .eapMessage first id v =>
      if g.eap.isNone && first = eapSuccess then
        modSta i fun s => { s with pae := { s.pae with eapSuccess := true } }
      radiusAttrs i code l (g.addFragment first id v)
    | .mppeSend plain =>
      radiusAttrs i code l (if code = .accept then { g with mppeSend := some plain } else g)
    | .mppeRecv plain =>
      radiusAttrs i code l (if code = .accept then { g with mppeRecv := some plain } else g)
    | .sessionTimeout n =>
      if code = .accept then modSta i fun s => { s with pae := { s.pae with ssnto := n } }
      radiusAttrs i code l g
    | .wnm kind =>
      if code = .accept then
        modify fun w => { w with wnm := match kind with
          | .deauthImminent => { w.wnm with deauthReq := true }
          | .subscriptionRemediation => { w.wnm with subremReq := true }
          | .bssTransition => { w.wnm with bsstranReq := true } }
      radiusAttrs i code l g
    | .other => radiusAttrs i code l g
    | .bad => return none

/-- The EAPOL key message that `fix_wpa` fakes: a pairwise key request, all else zero. -/
def fakeKeyRequest (s : Sta) : Frame where
  mem := fun off =>
    if off = 18 then if checkWpa2 s.mode then eapolWpa2Key else eapolWpaKey
    else if off = 19 ∨ off = 20 then 0x08 else 0
  bytes := 0

/-- The PMK that `fix_wpa` takes from a decrypted MPPE key: as many octets as its length octet
says, but at most 32. -/
def pmkOf (plain : Bytes) : Bytes := (plain.drop 1).take (min (plain.getD 0 0).toNat pmkLen)

/-- `fix_wpa`: use the MPPE receive key as PMK and start the 4-way handshake. -/
def fixWpa (i : Slot) (plain : Bytes) : NasM Unit := do
  let s ← getSta i
  emit (.pmk s.ea (pmkOf plain))
  modSta i fun s => { s with pmk := pmkOf plain }
  if has s.mode wpa2 then
    nasWpaCalcPmkid c i
    if s.preAuth then
      modSta i fun s => { s with preAuth := false }
      return
  if ← processWpa c (fakeKeyRequest s) i then cleanupSta c i dot11Rc8021xAuthFail false

/-- The key frame of the 802.1x mode (`eapol_key`). -/
def eapolRc4Key (i : Slot) (key : Bytes) (index : Nat) (unicast : Bool) : NasM Unit := do
  let _ ← nasRand128 c
  emit (.rc4Key (← getSta i).ea key index unicast)

/-- Cobble a multicast key if there is none yet. -/
def cobbleGtk : NasM Unit := do
  if (← get).gtkPlumbed then return
  modify fun w =>
    { w with gtkIndex := 1, gtkLen := if w.gtkLen = 0 then wep128KeySize else w.gtkLen }
  let r ← nasRand128 c
  modify fun w => { w with gtk := r ++ w.gtk.drop r.length }
  let w ← get
  if (← nasSetKey c ⟨none, w.groupKey.1, w.groupKey.2, true, [], false⟩) < 0 then nasHandleError
  modify fun w => { w with gtkPlumbed := true }

/-- The 802.1x end of an Access-Accept: give the keys to the driver and to the peer. -/
def radiusPlumb (i : Slot) (plain : Bytes) : NasM Unit := do
  cobbleGtk c
  let w ← get
  eapolRc4Key c i w.groupKey.1 w.groupKey.2 false
  let ea := (← getSta i).ea
  let key := (plain.drop 1).take wep128KeySize
  if (← nasSetKey c ⟨some ea, key, 3, true, [], false⟩) < 0 then
    cleanupSta c i dot11RcBusy false
  eapolRc4Key c i [] 3 true
  nasAuthorize ea

/-- An Access-Accept. -/
def radiusAccept (i : Slot) (g : Gathered) : NasM Unit := do
  if !(← getSta i).pae.eapSuccess then
    paeState i .held
    nasDeauthorize (← getSta i).ea
    return
  paeState i .authenticated
  modSta i fun s => { s with pae := { s.pae with
    ssnto := if s.pae.ssnto = 0 ∨ c.cfg.ssnTo < s.pae.ssnto then c.cfg.ssnTo else s.pae.ssnto } }
  match g.mppeRecv with
  | none => return
  | some plain =>
    -- WPA-mode needs to do the 4-way handshake here instead.
    if checkWpa (← getSta i).mode then fixWpa c i plain
    else radiusPlumb c i plain

/-- An Access-Reject. -/
def radiusReject (i : Slot) : NasM Unit := do
  paeState i .held
  nasDeauthorize (← getSta i).ea
  modSta i fun s => { s with pae := { s.pae with ssnto := 0 } }

/-- Relay the EAP message to the station, unless it is the success of an Accept or the failure of a
Reject. -/
def radiusRelay (i : Slot) (code : RadiusCode) (g : Gathered) : NasM Unit := do
  match g.eap with
  | none => return
  | some (first, id) =>
    modSta i fun s => { s with pae := { s.pae with id := id.toNat } }
    if (first ≠ eapSuccess ∨ code ≠ .accept) ∧ (first ≠ eapFailure ∨ code ≠ .reject) then
      let s ← getSta i
      emit (.relay s.ea s.preAuth g.length g.frags.flatten)

/-- The decision of the server. -/
def radiusDecision (i : Slot) (code : RadiusCode) (g : Gathered) : NasM Unit :=
  match code with
  | .accept => radiusAccept c i g
  | .reject => radiusReject i
  | .challenge => return
  | .other => return

/-- What `radius_dispatch` does after the attribute loop. -/
def radiusEvent (i : Slot) (code : RadiusCode) (g : Gathered) : NasM Unit := do
  if !g.authenticated && code ≠ .reject then return
  radiusRelay i code g
  radiusDecision c i code g

/-- The slot a RADIUS response is for. -/
def RadiusResponse.slot (r : RadiusResponse) : Slot :=
  ⟨r.id.toNat % maxSupplicants, Nat.mod_lt _ maxSupplicants_pos⟩

/-- `radius_dispatch`. -/
def radiusDispatch (r : RadiusResponse) : NasM Unit := do
  modify fun w => { w with wnm := ⟨false, false, false⟩ }
  let i := r.slot
  let s ← getSta i
  if !s.used then return
  if s.pae.request ≠ some r.id.toNat then return
  match ← radiusAttrs i r.code r.attrs .empty with
  | none => pure ()
  | some g => radiusEvent c i r.code g
  modSta i fun s => { s with pae := { s.pae with request := none } }

/-! ## EAPOL frames -/

/-- An EAP packet: record the identity, and forward to the authentication server. -/
def eapPacketCase (f : Frame) (i : Slot) : NasM Unit := do
  if f.length < eapHeaderLen + 1 then return
  let forward := radiusForward c i (f.mem.slice 18 f.eapLength)
  if f.eapType = eapIdentity then
    let s ← getSta i
    if f.eapId.toNat ≠ s.pae.id ∨ f.eapCode ≠ eapResponse then return
    if s.pae.state = .authenticating then return
    if (f.eapLength : Int) > f.bytes - eapolHeaderLen then return
    if eapHeaderLen + 1 < f.eapLength then
      modSta i fun s => { s with
        pae := { s.pae with username := f.mem.slice 23 (f.eapLength - eapHeaderLen - 1) } }
    paeState i .authenticating
    forward
  else forward

/-- An EAPOL-Logoff. -/
def eapolLogoffCase (i : Slot) : NasM Unit := do
  let st := (← getSta i).pae.state
  if st ≠ .connecting ∧ st ≠ .authenticated then paeState i .aborting
  paeState i .disconnected
  nasDeauthorize (← getSta i).ea

/-- `eapol_dispatch_ex`: a frame of a station, on the air or by pre-authentication. -/
def eapolDispatchEx (f : Frame) (preauth : Bool) : NasM Unit := do
  match ← lookupSta c f.shost true with
  | none => return
  | some i =>
    let s ← getSta i
    if s.pae.state = .held then return
    if !preauth then
      if f.type = eapolKey && checkEapolKey f.bodyType && checkNas s.mode
          && (s.pae.state = .authenticated || s.pae.state = .initialise) then
        if ← processWpa c f i then cleanupSta c i dot11Rc8021xAuthFail false
        return
      if checkPsk s.mode then return
      modSta i fun s => { s with preAuth := false }
    else
      modSta i fun s => { s with preAuth := true, mode := wpa2, eapolVersion := wpa2EapolVersion }
    if f.type = eapPacket then eapPacketCase c f i
    else if f.type = eapolStart then eapolStartCase i
    else if f.type = eapolLogoff then eapolLogoffCase i

/-! ## Driver messages -/

/-- `WLC_EVENT_MSG_LINK`. -/
def eventMsgLink : Nat := 0x1
/-- `WLC_EVENT_MSG_GROUP`. -/
def eventMsgGroup : Nat := 0x4

/-- `WLC_E_LINK`. -/
def driverLink (m : DrvMsg) : NasM Unit := do
  if c.cfg.wds then return
  match c.cfg.role with
  | .authenticator =>
    nasGetWpacap c
    if !wsecWepEnabled c.cfg.wsec && !has m.flags eventMsgLink then
      modify fun w => { w with gtkPlumbed := false }
  | .supplicant => if has m.flags eventMsgLink then driverAssoc c m

/-- One end of a WDS link starts the key exchange: `wpa_request` or `wpa_start`. -/
def linkStart (i : Slot) : NasM Unit :=
  match c.cfg.role with
  | .supplicant => wpaRequest c i
  | .authenticator => wpaStart c i

/-- `wpa_driver_disassoc_msg`: `true` where the station is to be cleaned up. Only a WDS link
acts on the reason code. -/
def wpaDriverDisassocMsg (m : DrvMsg) (sta : Option Slot) : NasM Bool := do
  if !c.cfg.wds then return true
  if m.len ≠ 2 then return true
  if m.data.u16 0 ≠ dot11RcAuthInval then return true
  let sta ← match sta with
    | some i => pure (some i)
    | none => lookupSta c m.shost true
  match sta with
  | none => return true
  | some i =>
    if (← getSta i).td.isSome then return false
    linkStart c i
    return false

/-- The part of `driver_message_dispatch` for disassociations and deauthentications. -/
def driverDisassoc (m : DrvMsg) : NasM Unit := do
  let sta ← lookupSta c m.addr false
  if ← wpaDriverDisassocMsg c m sta then
    match sta with
    | some i => cleanupSta c i 0 true
    | none => return

/-- `WLC_E_MIC_ERROR`. -/
def driverMicError (m : DrvMsg) : NasM Unit := do
  let sta ← lookupSta c m.addr false
  if has m.flags eventMsgGroup && c.cfg.role = .authenticator then return
  match sta with
  | some i => wpaMicError c i true false
  | none => return

/-! ## The watchdog -/

/-- One station's pass of `nas_watchdog`. -/
def watchdogSta (i : Slot) : NasM Unit := do
  let s ← getSta i
  match s.pae.state with
  | .authenticated =>
    if s.pae.ssnto = 0 then return
    modSta i fun s => { s with pae := { s.pae with ssnto := s.pae.ssnto - 1 } }
    if s.pae.ssnto ≠ 1 then return
    sendIdentityReq c i
  | .held =>
    modSta i fun s => { s with quietWhile := s.quietWhile - 1 }
    if s.quietWhile = 1 then paeState i .connecting
  | .connecting =>
    modSta i fun s => { s with txWhen := s.txWhen - 1 }
    if s.txWhen = 1 then
      if 2 < s.rxauths then paeState i .disconnected else paeState i .connecting
  | .authenticating =>
    modSta i fun s => { s with authWhile := s.authWhile - 1 }
    if s.authWhile = 1 then
      paeState i .aborting
      paeState i .connecting
  | _ => return

/-- `nas_watchdog`, which walks the hash chains. -/
def nasWatchdog : NasM Unit :=
  slots.forM fun h => do
    let chain := (← get).staHashed h
    chain.forM (watchdogSta c)

/-! ## The transition system -/

inductive Event
  | eapol (f : Frame)
  | preauth (f : Frame)
  | link (m : DrvMsg)
  /-- `WLC_E_ASSOC_IND` or `WLC_E_REASSOC_IND`. -/
  | assoc (m : DrvMsg)
  /-- `WLC_E_DISASSOC_IND` or `WLC_E_DEAUTH_IND`. -/
  | disassoc (m : DrvMsg)
  | micError (m : DrvMsg)
  | radius (r : RadiusResponse)
  | retxTimer (i : Slot)
  | wdsTimer (i : Slot)
  | gtkTimer
  | ptkTimer
  | countermeasuresTimer
  | watchdogTimer
  /-- `SIGUSR1`. -/
  | forceRekey

/-- `nas_eapol_message_dispatch`. -/
def nasEapolMessageDispatch (f : Frame) : NasM Unit :=
  match c.cfg.role with
  | .authenticator => eapolDispatchEx c f false
  | .supplicant => eapolSupDispatch c f

/-- The timer of a WDS link fires. The slot of an evicted station keeps its running timer, so
the descriptor says nothing about whether one is running. -/
def wdsTimeout (i : Slot) : NasM Unit := do
  if c.cfg.wds then
    match c.cfg.role with
    | .authenticator => startPkinit c i
    | .supplicant => requestPkinit c i

/-- The main loop's call for an event. A timer whose descriptor is cleared does not fire. -/
def dispatch : Event → NasM Unit
  | .eapol f => nasEapolMessageDispatch c f
  | .preauth f => do if !c.cfg.disablePreauth then eapolDispatchEx c f true
  | .link m => driverLink c m
  | .assoc m => driverAssoc c m
  | .disassoc m => driverDisassoc c m
  | .micError m => driverMicError c m
  | .radius r => radiusDispatch c r
  | .retxTimer i => do if (← getSta i).td.isSome then wpaRetransmission c i
  | .wdsTimer i => wdsTimeout c i
  | .gtkTimer => wpaNewGtkCallback c
  | .ptkTimer => do if (← get).ptkRekeyTimer.isSome then wpaNewPtkCallback c
  | .countermeasuresTimer => do if (← get).countermeasuresTimer.isSome then wpaCountermeasuresCb
  | .watchdogTimer => do if checkRadius c.cfg.mode then nasWatchdog c
  | .forceRekey => do if c.cfg.role = .authenticator then wpaNewGtk c

/-- Run a function to its end; a stop halts the instance. -/
def exec (m : NasM Unit) (w : World) : World :=
  match m w with
  | .ok _ w' => w'
  | .error _ w' => { w' with halted := true }

/-- One event, at a given time. -/
def step (w : World) (e : Nat × Event) : World :=
  if w.halted then w else exec (dispatch c e.2) { w with now := e.1 }

/-- What a function ends with, and where a stop ends, holds of the step that runs it. -/
theorem step_of_wp {P : World → Prop} {w : World} {now : Nat} {ev : Event}
    (hlive : w.halted = false)
    (h : wp (dispatch c ev) (fun _ => P) (fun _ w' => P { w' with halted := true })
      { w with now := now }) : P (step c w (now, ev)) := by
  rw [step, if_neg (by simp [hlive])]
  unfold exec
  unfold wp at h
  split at h
  · rename_i heq
    rw [heq]
    exact h
  · rename_i heq
    rw [heq]
    exact h

/-- A world of zero octets, as `nas_init_nas` finds it. -/
def World.zero : World where
  now := 0
  calls := 0
  halted := false
  log := []
  sta := fun _ => Sta.zero
  staHashed := fun _ => []
  gtkPlumbed := false
  micFailures := 0
  micCountermeasures := false
  prevMicError := 0
  wnm := ⟨false, false, false⟩
  globalKeyCounter := List.replicate 32 0
  initialGkc := List.replicate 32 0
  gmk := List.replicate 32 0
  gtk := List.replicate 32 0
  gtkLen := 0
  gtkIndex := 1
  gtkRsc := List.replicate 8 0
  gnonce := List.replicate 32 0
  gtkRekeyTimer := none
  ptkRekeySecs := 0
  ptkRekeyTimer := none
  countermeasuresTimer := none
  cap := (0, 0)

/-- `nas_start`: on a WDS link, enter the peer and start the key exchange. -/
def nasStart : NasM Unit := do
  if !c.cfg.wds then return
  match ← lookupSta c c.cfg.remote true with
  | none => return
  | some i =>
    if checkPsk c.cfg.mode then modSta i fun s => { s with pmk := c.cfg.pmk }
    let _ ← wpaSetSuppl c i c.cfg.mode c.cfg.wsec cryptoAlgoOff
    linkStart c i

/-- The part of `nas_init_nas` that seeds the key generation. -/
def initSeeds : NasM Unit := do
  if checkNas c.cfg.mode then
    initGlobalKeyCounter c
    let r ← nasRand128 c
    let r' ← nasRand128 c
    modify fun w => { w with gmk := r ++ r' }

/-- The part of `nas_init_nas` for a configured key index and a static WEP key. -/
def initIndex : NasM Unit := do
  if c.cfg.gtkRekeySecs = 0 ∧ c.cfg.index ≠ 0 then
    modify fun w => { w with gtkIndex := c.cfg.index - 1 }
    match c.cfg.wepKey with
    | some key =>
      if wsecWepEnabled c.cfg.wsec then
        modify fun w => { w with
          gtk := key ++ w.gtk.drop key.length, gtkLen := key.length, gtkPlumbed := true }
    | none => pure ()

/-- `nas_init_nas` after the validation of the configuration, up to `nas_start`. -/
def nasInitKeys : NasM Unit := do
  if has c.cfg.mode radius then modify fun w => { w with gtkLen := wep128KeySize }
  initSeeds c
  initIndex c
  if c.cfg.role = .authenticator then nasGetWpacap c

/-- `nas_init_nas`. -/
def nasInitNas : NasM Unit := do
  nasInitKeys c
  nasStart c

/-- The instance when it starts to serve. -/
def initWorld : World := exec (nasInitNas c) World.zero

/-! ## A concrete outside -/

/-- A driver that accepts every key and has nothing to tell, with working timers. -/
def calmDriver : Driver where
  setKey := fun _ _ => 0
  groupRsc := fun _ => none
  wpaIe := fun _ => none
  listenInterval := fun _ => 100
  wpaCap := fun _ => none
  itimer := fun _ => .ok
  rand128 := fun n => List.replicate 16 (UInt8.ofNat n)
  radiusSend := fun _ => true
  assocReqIes := fun _ => none
  rand128_length := fun _ => List.length_replicate

/-- An instance with a pre-shared key. -/
def plainConfig (role : Role) (mode wsec : Nat) : Config where
  role := role
  wds := false
  mode := mode
  wsec := wsec
  ea := [2, 0, 0, 0, 0, 1]
  remote := []
  pmk := List.replicate pmkLen 1
  index := 0
  wepKey := none
  gtkRekeySecs := 3600
  ssnTo := 36000
  disablePreauth := false
  wep_ok := fun key h => absurd h.symm (Option.some_ne_none key)

/-- An RSN element: AES for both ciphers, a pre-shared key, no capabilities; `extra` more octets
are counted by the length octet. -/
def rsnElement (extra : Nat) : Bytes :=
  [dot11MngRsnId, UInt8.ofNat (20 + extra), 1, 0] ++ wpa2Oui ++ [4, 1, 0] ++ wpa2Oui ++ [4, 1, 0]
    ++ wpa2Oui ++ [2, 0, 0] ++ List.replicate extra 0

/-- A WPA element: TKIP for both ciphers, a pre-shared key. -/
def wpaElement : Bytes :=
  [dot11MngWpaId, 22] ++ wpaOui ++ [1, 1, 0] ++ wpaOui ++ [2, 1, 0] ++ wpaOui ++ [2, 1, 0] ++ wpaOui
    ++ [2]

/-- The driver reports an association. -/
def assocFrom (ea ie : Bytes) : DrvMsg := ⟨ea, ea, 0, Mem.ofBytes ie, ie.length⟩

/-- An association of the station `02:00:00:00:00:09`. -/
def assocMsg (ie : Bytes) : DrvMsg := assocFrom [2, 0, 0, 0, 0, 9] ie

/-- The events of a run in which each one depends on the state before it. -/
def script : World → List (World → Event) → List (Nat × Event)
  | _, [] => []
  | w, f :: fs => (1, f w) :: script (step c w (1, f w)) fs

/-- A key frame as it is received. -/
def KeyFrame.received (k : KeyFrame) (dhost shost : Bytes) : Frame :=
  ⟨Mem.ofBytes (dhost ++ shost ++ [0x88, 0x8e] ++ k.encode), 113 + k.data.length⟩

/-- A message of the station in a slot, with the MIC that belongs to its nonce. -/
def World.reply (w : World) (i : Slot) (info : Nat) (nonce data : Bytes) : Frame :=
  let s := w.sta i
  let ptk := calcPtk c.crypto s.pmk c.cfg.ea s.ea s.anonce nonce s.ptkLen
  let k := { keyFrame s (s.desc ||| info) with nonce := nonce, data := data }
  (k.sign c.crypto { s with ptk := ptk }).received c.cfg.ea s.ea

/-- Message 2, with the element of the association. -/
def World.message2 (w : World) (i : Slot) : Frame :=
  w.reply c i (wpaKeyPairwise ||| wpaKeyMic) (List.replicate 32 2) (w.sta i).assocWpaie

/-- Message 4. -/
def World.message4 (w : World) (i : Slot) : Frame :=
  w.reply c i (m4Required c (w.sta i)) (w.sta i).snonce []

/-- The slot of the first station. -/
def firstSlot : Slot := ⟨0, maxSupplicants_pos⟩

/-- A station associates, and answers messages 1 and 3. -/
def joinScript : List (World → Event) :=
  [fun _ => .assoc (assocMsg (rsnElement 0)), fun w => .eapol (w.message2 c firstSlot),
    fun w => .eapol (w.message4 c firstSlot)]

def joining : List (Nat × Event) := script c (initWorld c) (joinScript c)

end BroadcomWl.Nas
