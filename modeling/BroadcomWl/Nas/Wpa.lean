import BroadcomWl.Nas.Keys

/-!
# The authenticator

`wpa.c` from `wpa_retransmission` to `process_wpa`: what the authenticator does with an
association, with each kind of EAPOL-Key frame in each state, and when its timers expire.

Handlers return `true` where the source returns `1`: something is wrong and the caller loses
the station. Each comment-free `return false` is one of the source's silent discards.
-/

namespace BroadcomWl.Nas

open BroadcomWl.Lib

variable (c : Ctx)

/-- The number of retransmissions before a handshake is given up. -/
def wpaRetry : Nat := 7

/-! ## The MIC of a received frame -/

/-- `wpa_check_mic`, for a given key: the descriptor version comes from the frame. -/
def checkMicWith (cr : Crypto) (key : Bytes) (f : Frame) : Bool :=
  match wpaDoMic cr key (f.keyInfo &&& (wpaKeyDescV1 ||| wpaKeyDescV2)) f.micInput with
  | none => false
  | some digest => digest == f.mic

/-- `wpa_check_mic`. -/
def wpaCheckMic (s : Sta) (f : Frame) : Bool := checkMicWith c.crypto s.micKey f

/-! ## Group key update -/

/-- `wpa_send_rekey_frame`. -/
def wpaSendRekeyFrame (i : Slot) : NasM Unit := do
  modSta i fun s =>
    { s with state := .rekeynegotiating, retryState := .rekeynegotiating, retries := 0 }
  wpaStopRetx i
  modSta i fun s => { s with replay := incr s.replay }
  if !(← wpaSendEapol c i) then cleanupSta c i dot11RcUnspecified false
  else if (← getSta i).state = .rekeynegotiating then armRetx c i

/-- Generate a new group key at the other index, and plumb it, not yet for sending. -/
def makeGtk : NasM Unit := do
  wpaGenGtk c
  modify fun w => { w with gtkIndex := gtkNextIndex w.gtkIndex }
  let _ ← wpaPlumbGtk c false

/-- The loop of `wpa_new_gtk_callback`: the first station that holds keys makes a new group
key necessary, and every such station is sent it. The result tells whether there was one. -/
def newGtkLoop : List Slot → Bool → NasM Bool
  | [], didOne => return didOne
  | i :: l, didOne => do
    let s ← getSta i
    if !s.used || s.state ≠ .setkeysdone then newGtkLoop l didOne
    else
      if !didOne then makeGtk c
      wpaSendRekeyFrame c i
      newGtkLoop l true

/-- `wpa_new_gtk_callback`. -/
def wpaNewGtkCallback : NasM Unit := do
  let didOne ← newGtkLoop c slots false
  -- Make it primary after it has been sent to all known supplicants.
  if didOne then let _ ← wpaPlumbGtk c true

/-- `wpa_new_gtk`: a new group key at a time of its own. -/
def wpaNewGtk : NasM Unit := do
  modify fun w => { w with gtkRekeyTimer := none }
  wpaNewGtkCallback c
  wpaSetGtkTimer c

/-! ## MIC failures -/

/-- `wpa_send_mic_failure`, the supplicant's report. -/
def wpaSendMicFailure (i : Slot) : NasM Unit := do
  modSta i fun s => { s with replay := incr s.replay }
  let s ← getSta i
  let k := keyFrame s (s.desc ||| wpaKeyError ||| wpaKeyReq ||| wpaKeyMic)
  emit (.micFailureReport s.ea (k.sign c.crypto s))

/-- A MIC error report that is not acted upon. -/
def micErrorProhibit (s : Sta) (pairwise : Bool) : Bool :=
  let aesOnly := fun wsec => wsecAesEnabled wsec && !wsecTkipEnabled wsec
  let mixed := wsecAesEnabled c.cfg.wsec && wsecTkipEnabled c.cfg.wsec
  match c.cfg.role with
  | .authenticator => aesOnly c.cfg.wsec || (mixed && aesOnly s.wsec && pairwise)
  | .supplicant => aesOnly c.cfg.wsec && pairwise

/-- Countermeasures: toss all stations and clobber the group keys. The loop of the source runs
one element past the station array, onto the head of the first hash chain: unless that chain
is empty by then, what follows is undefined. -/
def takeCountermeasures : NasM Unit := do
  modify fun w => { w with micCountermeasures := true }
  emit (.tkipCountermeasures true)
  let td ← wpaSetItimer c (← get).countermeasuresTimer
  modify fun w => { w with countermeasuresTimer := td }
  slots.forM fun i => do
    if (← getSta i).used then cleanupSta c i dot11RcMicFailure false
  if (← get).staHashed ⟨0, maxSupplicants_pos⟩ ≠ [] then throw .fault
  modify fun w => { w with gtkRekeyTimer := none }
  let index := (← get).gtkIndex
  let _ ← nasSetKey c (KeyArgs.clear none index)
  let _ ← nasSetKey c (KeyArgs.clear none (gtkNextIndex index))
  modify fun w => { w with gtkPlumbed := false }

/-- `wpa_mic_error`. -/
def wpaMicError (i : Slot) (fromDriver pairwise : Bool) : NasM Unit := do
  if micErrorProhibit c (← getSta i) pairwise then return
  let w ← get
  let since : Int := (w.now : Int) - w.prevMicError
  modify fun w => { w with micFailures := w.micFailures + 1, prevMicError := w.now }
  if c.cfg.role = .supplicant then
    if !fromDriver then return
    let s ← getSta i
    let since : Int := (w.now : Int) - s.prevMicError
    modSta i fun s => { s with micFailures := s.micFailures + 1, prevMicError := w.now }
    wpaSendMicFailure c i
    if since < 60 then cleanupSta c i dot11RcMicFailure false
    return
  if (← get).micFailures ≠ 0 && !w.micCountermeasures && since < 60 then takeCountermeasures c

/-- `wpa_countermeasures_cb`: the lock-out is over. -/
def wpaCountermeasuresCb : NasM Unit := do
  modify fun w => { w with micCountermeasures := false, countermeasuresTimer := none }
  emit (.tkipCountermeasures false)

/-! ## Association -/

/-- `wpa_set_suppl`: `true` where the source returns `1`. -/
def wpaSetSuppl (i : Slot) (mode wsec algo : Nat) : NasM Bool := do
  if mode ≠ mode &&& c.cfg.mode then return true
  if wsec ≠ wsec &&& c.cfg.wsec then return true
  if wsecAesEnabled wsec then
    modSta i fun s => { s with ptkLen := aesPtkLen, tkLen := aesTkLen, desc := wpaKeyDescV2 }
  else if wsecTkipEnabled wsec then
    modSta i fun s => { s with ptkLen := tkipPtkLen, tkLen := tkipTkLen, desc := wpaKeyDescV1 }
  else return true
  modSta i fun s => { s with
    mode := mode, wsec := wsec, algo := algo,
    eapolVersion := if checkWpa2 mode then wpa2EapolVersion else wpaEapolVersion }
  return false

/-- A driver event: its type is in the constructor of `Event`; here are the station it is
about, the source address of its frame, its flags and its data. -/
structure DrvMsg where
  addr : Bytes
  shost : Bytes
  flags : Nat
  data : Mem
  len : Nat

/-- The element that `wpa_driver_assoc_msg` selects: the WPA one, else the RSN one, with its
length (zero if there is none). -/
def DrvMsg.wpaie (m : DrvMsg) : Mem × Nat :=
  let off := match bcmFindWpaie m.data m.len with
    | some off => some off
    | none => bcmParseTlvs m.data dot11MngRsnId m.len 0 m.len
  match off with
  | some off => (fun i => m.data (off + i), (m.data (off + 1)).toNat + 2)
  | none => (m.data, 0)

/-- `wpa_check_ie`, the walk over a suite list. -/
def checkSuites (ie : Mem) (oui : Bytes) (bits : Nat → Nat) : Nat → Nat → Int → Nat → Nat × Int
  | 0, _, len, mask => (mask, len)
  | count + 1, off, len, mask =>
    if len < 4 then (mask, len)
    else
      let gone := if ie.slice off 3 = oui then bits (ie (off + 3)).toNat else 0
      checkSuites ie oui bits count (off + 4) (len - 4) (mask &&& (0xffffffff ^^^ gone))

/-- `wpa_check_ie`: what is left of the supplicant's ciphers and modes, and the capabilities. -/
def wpaCheckIe (ie : Mem) (ieLen wsec mode : Nat) : Option (Nat × Option (UInt8 × UInt8)) := do
  let h ← wpaIeHeader ie ieLen
  let len : Int := (ieLen : Int) - h.suites
  let mcast := h.suites
  let gone := if 4 ≤ len ∧ ie.slice mcast 3 = h.oui then wpaCipher2wsec (ie (mcast + 3)).toNat
    else 0
  let wsec := wsec &&& (0xffffffff ^^^ gone)
  let len := if 4 ≤ len then len - 4 else len
  let ucast := mcast + 4
  let count := if 2 ≤ len then ie.le16 ucast else 0
  let (wsec, len) := if 2 ≤ len then
      checkSuites ie h.oui wpaCipher2wsec count (ucast + 2) (len - 2) wsec
    else (wsec, len)
  let mgmt := ucast + 2 + 4 * count
  let akm := fun t => wpaAuth2mode (h.akm2auth t)
  let (mode, len') := if 2 ≤ len then
      checkSuites ie h.oui akm (ie.le16 mgmt) (mgmt + 2) (len - 2) mode
    else (mode, len)
  let cap := if 2 ≤ len' then some (ie (mgmt + 6), ie (mgmt + 7)) else none
  pure (wsec + mode, cap)

/-- The station's side of an association: check its element against the configuration.
`none` where `wpa_driver_assoc_msg` gives up; else the ciphers, the mode and the PMKID
verdict. -/
def assocCheckIe (i : Slot) (ie : Mem) (ieLen : Nat) : NasM (Option (Nat × Nat × Int)) := do
  match c.cfg.role with
  | .authenticator =>
    match wpaParseIe ie ieLen (some (← getSta i).pmkid) with
    | none => return none
    | some p =>
      modSta i fun s => { s with keyAuthSha1 := s.keyAuthSha1 || p.akm, cap := p.cap }
      return some (p.wsec, p.mode, p.pmkc)
  | .supplicant =>
    match wpaCheckIe ie ieLen c.cfg.wsec c.cfg.mode with
    | none => return none
    | some (rest, cap) =>
      match cap with
      | some cap => modSta i fun s => { s with cap := cap }
      | none => pure ()
      if rest ≠ 0 then return none
      return some (c.cfg.wsec, c.cfg.mode, 0)

/-- Copy an element into `assoc_wpaie`. -/
def saveWpaie (i : Slot) (ie : Bytes) : NasM Unit := do
  emit (.saveIe i ie.length)
  if maxWpaIe < ie.length then throw .fault
  modSta i fun s => { s with assocWpaie := ie }

/-- Take the next nonce from the global key counter, for the station in a slot. -/
def nextNonce (i : Slot) : NasM Bytes := do
  let nonce := (← get).globalKeyCounter
  emit (.draw (some i) nonce)
  wpaIncrGkc c
  return nonce

/-- Send message 1, move to `WPA_PTKINITNEGOTIATING` and set the timeout. `true` where the
message could not be sent. -/
def startPtk (i : Slot) : NasM Bool := do
  modSta i fun s => { s with retries := 0 }
  if !(← wpaSendEapol c i) then return true
  modSta i fun s => { s with retryState := s.state, state := .ptkinitnegotiating }
  armRetx c i
  return false

/-- Start the 4-way handshake of an associated station, or first its authentication with the
RADIUS server. -/
def assocStart (i : Slot) (pmkc : Int) : NasM Bool := do
  let s ← getSta i
  if has s.mode wpa then
    sendIdentityReq c i
    return false
  if has s.mode wpa2 then
    if !(pmkc = 1 && s.pae.ssnto != 0) then
      sendIdentityReq c i
      return false
  else if has s.mode wpa2Psk then nasWpaCalcPmkid c i
  if ← startPtk c i then return true
  modify fun w => { w with ptkRekeySecs := 0, ptkRekeyTimer := none }
  return false

/-- The end of `wpa_driver_assoc_msg`: the element is accepted. -/
def assocAccepted (i : Slot) (wsec : Nat) (pmkc : Int) : NasM Bool := do
  if c.cfg.role = .supplicant then
    let nonce ← nextNonce c i
    modSta i fun s => { s with snonce := nonce }
    return false
  if (← get).micCountermeasures && wsecTkipEnabled wsec then
    cleanupSta c i dot11RcMicFailure false
    return false
  let nonce ← nextNonce c i
  modSta i fun s => { s with anonce := nonce }
  -- The driver could have a stale pairwise key.
  let _ ← nasSetKey c (KeyArgs.clear (some (← getSta i).ea) 0)
  modSta i fun s => { s with retryState := s.state, state := .ptkstart }
  assocStart c i pmkc

/-- The part of `wpa_driver_assoc_msg` for a station with an element. -/
def assocElement (i : Slot) (ie : Mem) (ieLen : Nat) : NasM Bool := do
  wpaStopRetx i
  modSta i fun s => { s with retries := 0 }
  match ← assocCheckIe c i ie ieLen with
  | none => return true
  | some (wsec, mode, pmkc) =>
    if ← wpaSetSuppl c i mode wsec ((wpaFindMckeyAlgo ie ieLen).getD 0xffff) then return true
    modSta i fun s => { s with wpaMsgTimeoutS := 1, wpaMsgTimeoutMs := 0 }
    if checkWpa2 mode then
      let li ← oracle c.drv.listenInterval
      modSta i fun s => { s with
        wpaMsgTimeoutS := 0, wpaMsgTimeoutMs := 990, listenIntervalMs := li }
    saveWpaie i (ie.slice 0 ieLen)
    if checkPsk mode then modSta i fun s => { s with pmk := c.cfg.pmk }
    assocAccepted c i wsec pmkc

/-- `wpa_driver_assoc_msg`: `true` where the source returns `1`. The order of the last
assignments (PTK rekey period, next state, timer) is immaterial and follows `startPtk`. -/
def wpaDriverAssocMsg (m : DrvMsg) (sta : Option Slot) : NasM Bool := do
  match sta with
  | none => return true
  | some i =>
    modSta i fun s => { s with assocWpaie := [] }
    let (ie, ieLen) := m.wpaie
    -- A non-WPA station comes in without WPA IE.
    if ieLen = 0 && wsecWepEnabled c.cfg.wsec then
      if !has c.cfg.mode radius then
        let w ← get
        let ea := (w.sta i).ea
        let _ ← nasSetKey c ⟨some ea, w.groupKey.1, w.groupKey.2, false, [], false⟩
        nasAuthorize ea
        return false
      else
        modSta i fun s => { s with mode := radius, wsec := wepEnabled, algo := cryptoAlgoWep128 }
        return false
    if c.cfg.role = .supplicant then
      match ← oracle c.drv.wpaCap with
      | none => return true
      | some cap => modify fun w => { w with cap := cap }
    assocElement c i ie ieLen

/-- The part of `driver_message_dispatch` for associations. -/
def driverAssoc (m : DrvMsg) : NasM Unit := do
  let sta ← lookupSta c m.addr true
  if !checkNas c.cfg.mode then return
  if ← wpaDriverAssocMsg c m sta then
    match sta with
    | some i => cleanupSta c i 0 true
    | none => return

/-! ## WDS -/

/-- `start_pkinit`: pretend to have received an association from the driver, and process it
as `driver_message_dispatch` does. -/
def startPkinit (i : Slot) : NasM Unit := do
  let s ← getSta i
  match ← wpaBuildIe c s.wsec s.algo s.mode 202 with
  | none => return
  | some ie =>
    if 128 < ie.length then return
    driverAssoc c ⟨s.ea, s.ea, 0, Mem.ofBytes ie, ie.length⟩

/-- `wpa_start`: kick off the negotiation on a WDS link, with a timer that repeats it. -/
def wpaStart (i : Slot) : NasM Unit := do
  modSta i fun s => { s with wdsTd := none }
  startPkinit c i
  let td ← wpaSetItimer c (← getSta i).wdsTd
  modSta i fun s => { s with wdsTd := td }

/-- `request_pkinit`: the supplicant asks the authenticator to start a handshake. -/
def requestPkinit (i : Slot) : NasM Unit := do
  wpaStopRetx i
  let ie ← wpaBuildIe c c.cfg.wsec cryptoAlgoOff c.cfg.mode maxWpaIe
  modSta i fun s => { s with
    assocWpaie := ie.getD [], retryState := s.state, state := .supInitialise }
  if has c.cfg.mode wpa then return
  modSta i fun s => { s with retries := 0 }
  if !(← wpaSendEapol c i) then return
  modSta i fun s => { s with retryState := s.state, state := .supAuthentication }
  armRetx c i

/-- `wpa_request`. -/
def wpaRequest (i : Slot) : NasM Unit := do
  modSta i fun s => { s with wdsTd := none, wpaMsgTimeoutS := 1, wpaMsgTimeoutMs := 0 }
  let s ← getSta i
  if s.pkState = .unknown ∨ s.pkState = .done then requestPkinit c i
  else wpaStopRetx i
  let td ← wpaSetItimer c (← getSta i).wdsTd
  modSta i fun s => { s with wdsTd := td }

/-! ## EAPOL-Key frames, state by state -/

/-- `wpa_verifystart`: a key request from a station that has none. -/
def wpaVerifystart (i : Slot) (f : Frame) : NasM Bool := do
  if !has f.keyInfo wpaKeyReq then return true
  wpaStopRetx i
  match wpaParseIe f.data f.dataLen none with
  | none => return true
  | some p =>
    if p.mode &&& c.cfg.mode ≠ p.mode then return true
    saveWpaie i (f.data.slice 0 f.dataLen)
    let nonce ← nextNonce c i
    modSta i fun s => { s with
      anonce := nonce, retryState := s.state, state := .ptkstart, retries := 0 }
    return false

/-- `wpa_ptkstart`. -/
def wpaPtkstart (i : Slot) (f : Frame) : NasM Bool := do
  if !has f.keyInfo wpaKeyReq then return false
  if has f.keyInfo wpaKeyError then return true
  wpaStopRetx i
  startPtk c i

/-- Every flag of `required` is set and none of `prohibited`. -/
def flagsOk (keyInfo required prohibited : Nat) : Bool :=
  keyInfo &&& required == required && keyInfo &&& prohibited == 0

/-- The element in message 2 equals the one of the association. -/
def ieMatches (s : Sta) (f : Frame) : Bool :=
  f.dataLen != 0 && f.dataLen == s.assocWpaie.length && f.data.slice 0 f.dataLen == s.assocWpaie

/-- `wpa_ptkinitnegotiating`: message 2. -/
def wpaPtkinitnegotiating (i : Slot) (f : Frame) : NasM Bool := do
  if !flagsOk f.keyInfo (wpaKeyPairwise ||| wpaKeyMic) (wpaKeyAck ||| wpaKeyIndexMask) then
    return false
  if f.replay ≠ (← getSta i).replay then return false
  wpaStopRetx i
  if !ieMatches (← getSta i) f then return true
  modSta i fun s => { s with snonce := f.nonce }
  wpaCalcPtk c i
  let s ← getSta i
  if !wpaCheckMic c s f then
    -- "Silently" discard, but tell the driver of the wrong key.
    emit (.brcmEvent s.ea dot11RcMicFailure)
    armRetx c i
    return false
  modSta i fun s => { s with replay := incr s.replay, retries := 0 }
  if !(← wpaSendEapol c i) then return true
  modSta i fun s => { s with
    retxExceedHndlr := s.retxExceedHndlr || has s.mode (wpa ||| wpaPsk) }
  armRetx c i
  modSta i fun s => { s with retryState := s.state, state := .ptkinitdone }
  return false

/-- Start the group key exchange of a station whose pairwise key is plumbed. -/
def startGroup (i : Slot) : NasM Bool := do
  modSta i fun s => { s with replay := incr s.replay, state := .rekeynegotiating }
  ensureGtk c
  modSta i fun s => { s with retries := 0 }
  if !(← wpaSendEapol c i) then return true
  modSta i fun s => { s with retryState := .rekeynegotiating }
  armRetx c i
  return false

/-- `wpa_ptkinitdone2`: plumb the pairwise key, then authorize or start the group key
exchange. -/
def wpaPtkinitdone2 (i : Slot) : NasM Bool := do
  wpaStopRetx i
  let s ← getSta i
  if (← nasSetKey c ⟨some s.ea, s.tempKey, 0, true, [], true⟩) < 0 then
    cleanupSta c i dot11RcBusy false
    return false
  if c.cfg.wds || checkWpa2 s.mode then
    modSta i fun s => { s with wdsTd := none }
    nasAuthorize s.ea
    modSta i fun s => { s with state := .setkeysdone, retryState := .setkeysdone }
    return false
  startGroup c i

/-- The flags message 4 must carry. -/
def m4Required (s : Sta) : Nat :=
  wpaKeyPairwise ||| wpaKeyMic ||| (if c.cfg.wds || checkWpa2 s.mode then wpaKeySecure else 0)

/-- `wpa_ptkinitdone`: message 4. -/
def wpaPtkinitdone (i : Slot) (f : Frame) : NasM Bool := do
  let s ← getSta i
  if !flagsOk f.keyInfo (m4Required c s) (wpaKeyAck ||| wpaKeyIndexMask) then return false
  if f.dataLen ≠ 0 then return false
  if f.replay ≠ s.replay then return false
  if !wpaCheckMic c s f then return false
  wpaPtkinitdone2 c i

/-- `wpa_setkeysdone`: a request for new keys, or a MIC failure report. -/
def wpaSetkeysdone (i : Slot) (f : Frame) : NasM Unit := do
  if !flagsOk f.keyInfo wpaKeyReq wpaKeyAck then return
  let s ← getSta i
  if !has f.keyInfo wpaKeyMic || !wpaCheckMic c s f then return
  if has f.keyInfo wpaKeyError then
    wpaMicError c i false (has f.keyInfo wpaKeyPairwise)
    return
  if has f.keyInfo wpaKeyPairwise then
    -- This will fall into the 4-way handshake on return.
    modSta i fun s => { s with state := .ptkstart }
  else wpaNewGtk c

/-- `wpa_rekeyneg`: the reply to a group key message. -/
def wpaRekeyneg (i : Slot) (f : Frame) : NasM Unit := do
  if !flagsOk f.keyInfo (wpaKeySecure ||| wpaKeyMic)
      (wpaKeyAck ||| wpaKeyPairwise ||| wpaKeyError) then
    -- MIC failure reports arrive while we are in a group key exchange, too.
    if has f.keyInfo wpaKeyError then wpaSetkeysdone c i f
    return
  let s ← getSta i
  if f.replay ≠ s.replay then return
  if !wpaCheckMic c s f then return
  wpaStopRetx i
  nasAuthorize s.ea
  modSta i fun s => { s with state := .setkeysdone, retryState := .setkeysdone }
  if (← get).ptkRekeySecs ≠ 0 then
    let td ← wpaSetItimer c (← get).ptkRekeyTimer
    modify fun w => { w with ptkRekeyTimer := td }

/-- `nas_send_wnm_notifications`. -/
def nasSendWnmNotifications (ea : Bytes) : NasM Unit := do
  let p := (← get).wnm
  if p.deauthReq then emit (.wnm ea .deauthImminent)
  if p.subremReq then emit (.wnm ea .subscriptionRemediation)
  if p.bsstranReq then emit (.wnm ea .bssTransition)
  modify fun w => { w with wnm := ⟨false, false, false⟩ }

/-- From `WPA_AUTHENTICATION2` on: verify the request, and start the handshake unless RADIUS
has to accept the station first. -/
def processStart (i : Slot) (f : Frame) : NasM Bool := do
  if ← wpaVerifystart c i f then return true
  let s ← getSta i
  if has s.mode wpa && s.retryState ≠ .ptkstart then return false
  wpaPtkstart c i f

/-- `process_wpa`: an EAPOL-Key frame of a station. -/
def processWpa (f : Frame) (i : Slot) : NasM Bool := do
  let s ← getSta i
  if c.cfg.wds && has f.keyInfo wpaKeyReq && has f.keyInfo wpaKeyPairwise then
    if s.state = .authentication2 ∨ s.state = .ptkinitnegotiating ∨ s.state = .setkeysdone
        ∨ s.state = .disconnect then
      if s.wdsTd.isNone then wpaStart c i
    return false
  if (← get).micCountermeasures && wsecTkipEnabled s.wsec then
    cleanupSta c i dot11RcMicFailure false
    return false
  match s.state with
  | .setkeysdone =>
    wpaSetkeysdone c i f
    if (← getSta i).state ≠ .ptkstart then return false
    processStart c i f
  | .authentication2 => processStart c i f
  | .ptkstart => wpaPtkstart c i f
  | .ptkinitnegotiating => wpaPtkinitnegotiating c i f
  | .ptkinitdone =>
    let ret ← wpaPtkinitdone c i f
    nasSendWnmNotifications (← getSta i).ea
    return ret
  | .rekeynegotiating =>
    wpaRekeyneg c i f
    return false
  | _ => return false

/-! ## Timers -/

/-- Retransmit the message of `retry_state` (`xmit:` in `wpa_retransmission`). The change of
the timer's period is not visible in the descriptor. -/
def retransmit (i : Slot) : NasM Unit := do
  modSta i fun s => { s with replay := incr s.replay }
  let save := (← getSta i).state
  modSta i fun s => { s with state := s.retryState }
  if !(← wpaSendEapol c i) then wpaStopRetx i
  modSta i fun s => { s with state := save }

/-- `wpa_retransmission`. -/
def wpaRetransmission (i : Slot) : NasM Unit := do
  if (← get).micCountermeasures then return
  let s ← getSta i
  if s.state = .setkeysdone || (c.cfg.wds && s.state = .ptkinitdone) then
    wpaStopRetx i
    return
  modSta i fun s => { s with retries := s.retries + 1 }
  let s ← getSta i
  if s.retries ≤ wpaRetry then
    retransmit c i
    return
  if s.wdsTd.isSome then
    -- Deauth the station after the first batch of retries; stop after the second.
    if s.retries = wpaRetry + 1 then nasDeauthenticate c s.ea dot11Rc4whTimeout
    else if s.retries = (wpaRetry + 1) * 2 then
      wpaStopRetx i
      return
    retransmit c i
    return
  if s.retxExceedHndlr then
    -- `wpa_goto_rekeyneg` ignores what `wpa_ptkinitdone2` returns.
    let _ ← wpaPtkinitdone2 c i
    wpaStopRetx i
    return
  modSta i fun s => { s with pae := { s.pae with ssnto := 0 } }
  let reason := if s.retryState = .rekeynegotiating then dot11RcGtkUpdateTimeout
    else dot11Rc4whTimeout
  cleanupSta c i reason false

/-- `wpa_new_ptk_callback`, which takes the first slot, whatever is in it. -/
def wpaNewPtkCallback : NasM Unit := do
  let i : Slot := ⟨0, maxSupplicants_pos⟩
  wpaStopRetx i
  modSta i fun s => { s with retries := 0 }
  if c.cfg.role = .supplicant then return
  let nonce ← nextNonce c i
  modSta i fun s => { s with anonce := nonce, retryState := s.state, state := .ptkstart }
  let _ ← startPtk c i

end BroadcomWl.Nas
