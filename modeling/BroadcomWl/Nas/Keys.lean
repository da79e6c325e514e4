import BroadcomWl.Lib.Counter
import BroadcomWl.Nas.Station

/-!
# Keys and key frames

The part of `wpa.c` below the state machines: deriving the pairwise and the group key,
plumbing the group key, building the key data of a message, and `wpa_send_eapol`, which builds
and sends the message that belongs to the state a station is in.

`wpaSendEapol` returns `false` where the source returns `FALSE`; an encryption that fails
resets the board, so the caller never sees it.
-/

namespace BroadcomWl.Nas

open BroadcomWl.Lib

variable (c : Ctx)

/-! ## Counters and nonces -/

/-- `initialize_global_key_counter`. The label is the text "Init Counter". -/
def initGlobalKeyCounter : NasM Unit := do
  let r ← nasRand128 c
  let r' ← nasRand128 c
  let label : Bytes := [0x49, 0x6e, 0x69, 0x74, 0x20, 0x43, 0x6f, 0x75, 0x6e, 0x74, 0x65, 0x72]
  let gkc := (c.crypto.fPRF (r ++ r') label c.cfg.ea 32).take 32
  modify fun w => { w with globalKeyCounter := gkc, initialGkc := gkc }

def wpaIncrGkc : NasM Unit := do
  modify fun w => { w with globalKeyCounter := incr w.globalKeyCounter }
  let w ← get
  if w.globalKeyCounter = w.initialGkc then
    initGlobalKeyCounter c
    emit (.reseed (← get).globalKeyCounter)

/-! ## The pairwise key -/

/-- `nas_wpa_calc_pmkid`: the label is the text "PMK Name". -/
def nasWpaCalcPmkid (i : Slot) : NasM Unit :=
  modSta i fun s =>
    let label : Bytes := [0x50, 0x4d, 0x4b, 0x20, 0x4e, 0x61, 0x6d, 0x65]
    { s with pmkid := (c.crypto.hmacSha1 (label ++ c.cfg.ea ++ s.ea) s.pmk).take 16 }

/-- `wpa_array_cmp`: the greater or the lesser of two arrays; the first one when they are
equal. -/
def wpaArrayCmp (maxArray : Bool) : Bytes → Bytes → Bytes
  | a :: x, b :: y =>
    if a = b then a :: wpaArrayCmp maxArray x y
    else if (maxArray && a < b) || (!maxArray && b < a) then b :: y
    else a :: x
  | x, _ => x

/-- The PTK that `wpa_calc_ptk` computes from a PMK, two addresses and two nonces; the label
is the text "Pairwise key expansion". -/
def calcPtk (cr : Crypto) (pmk aa spa anonce snonce : Bytes) (len : Nat) : Bytes :=
  let label : Bytes := [0x50, 0x61, 0x69, 0x72, 0x77, 0x69, 0x73, 0x65, 0x20, 0x6b, 0x65, 0x79,
    0x20, 0x65, 0x78, 0x70, 0x61, 0x6e, 0x73, 0x69, 0x6f, 0x6e]
  (cr.fPRF pmk label (wpaArrayCmp false aa spa ++ wpaArrayCmp true aa spa
    ++ wpaArrayCmp false snonce anonce ++ wpaArrayCmp true snonce anonce) len).take len

/-- `wpa_calc_ptk`: the first `ptk_len` of the 64 octets of the key are overwritten. -/
def wpaCalcPtk (i : Slot) : NasM Unit := do
  let s ← getSta i
  if tkipPtkLen < s.ptkLen then nasHandleError
  modSta i fun s =>
    { s with ptk :=
        calcPtk c.crypto s.pmk c.cfg.ea s.ea s.anonce s.snonce s.ptkLen ++ s.ptk.drop s.ptkLen }

/-! ## The group key -/

/-- `GTK_NEXT_INDEX`. -/
def gtkNextIndex (index : Nat) : Nat := if index = 1 then 2 else 1

/-- The group key length of a multicast cipher; `none` where `wpa_gen_gtk` gives up. -/
def gtkLenOf (cipher : Nat) : Option Nat :=
  if cipher = wpaCipherTkip then some tkipTkLen
  else if cipher = wpaCipherAesCcm then some aesTkLen else none

/-- `wpa_gen_gtk`: the label is the text "Group key expansion". -/
def wpaGenGtk : NasM Unit := do
  let w ← get
  match gtkLenOf (wpaMcastCipher c.cfg.wsec (wepKey2algo w.gtkLen)) with
  | none => return
  | some len =>
    let label : Bytes := [0x47, 0x72, 0x6f, 0x75, 0x70, 0x20, 0x6b, 0x65, 0x79, 0x20, 0x65, 0x78,
      0x70, 0x61, 0x6e, 0x73, 0x69, 0x6f, 0x6e]
    let gnonce := w.globalKeyCounter
    modify fun w => { w with gtkLen := len, gnonce := gnonce }
    emit (.draw none gnonce)
    wpaIncrGkc c
    let gtk := (c.crypto.fPRF w.gmk label (c.cfg.ea ++ gnonce) len).take len
    modify fun w => { w with gtk := gtk ++ w.gtk.drop len, gtkRsc := List.replicate 8 0 }

def enodev : Int := 19

/-- The arguments with which the group key is plumbed. -/
def World.groupKeyArgs (w : World) (primary : Bool) : KeyArgs :=
  ⟨none, w.groupKey.1, w.groupKey.2, primary, w.gtkRsc.take 6, false⟩

/-- `wpa_plumb_gtk`. -/
def wpaPlumbGtk (primary : Bool) : NasM Int := do
  let ret ← nasSetKey c ((← get).groupKeyArgs primary)
  if ret < 0 then
    if ret = -enodev then return ret
    else nasHandleError
  else
    modify fun w => { w with gtkPlumbed := true }
    return ret

def wpaSetGtkTimer : NasM Unit := do
  if c.cfg.gtkRekeySecs != 0 then
    let td ← wpaSetItimer c (← get).gtkRekeyTimer
    modify fun w => { w with gtkRekeyTimer := td }

/-- `wpa_init_gtk`: cobble the key and plumb it. -/
def wpaInitGtk : NasM Unit := do
  wpaGenGtk c
  let _ ← wpaPlumbGtk c true
  wpaSetGtkTimer c

/-! ## Key data -/

/-- Pad to at least 16 octets and to a multiple of the key-wrap block. -/
def padKeyData (first : UInt8) (data : Bytes) : Bytes :=
  let len := data.length
  if len < 16 then data ++ (first :: List.replicate 15 0).take (16 - len)
  else if len % 8 ≠ 0 then data ++ (first :: List.replicate 7 0).take (8 - len % 8)
  else data

/-- `wpa_encr_key_data`: the key data of a WPA2 message under the station's encryption key. -/
def encrKeyData (cr : Crypto) (s : Sta) (iv data : Bytes) : Option Bytes :=
  if s.desc = wpaKeyDescV1 then some (cr.rc4 (iv ++ s.encrKey) data)
  else if s.desc = wpaKeyDescV2 then cr.aesWrap s.encrKey (padKeyData 0xdd data)
  else none

/-- `wpa_encr_gtk`: the group key of a WPA message, padded with zeros for the key wrap. The
source pads in place, in `wpa->gtk`, past the key's length. -/
def wpaEncrGtk (s : Sta) : NasM (Option Bytes) := do
  let w ← get
  let gtk := w.gtk.take w.gtkLen
  if s.desc = wpaKeyDescV1 then
    return some (c.crypto.rc4 (w.globalKeyCounter.drop 16 ++ s.encrKey) gtk)
  else if s.desc = wpaKeyDescV2 then
    let padded := padKeyData 0 gtk
    modify fun w => { w with gtk := padded ++ w.gtk.drop padded.length }
    return c.crypto.aesWrap s.encrKey padded
  else return none

/-- A key data encapsulation. -/
def encapData (subtype : UInt8) (data : Bytes) : Bytes :=
  [dot11MngWpaId, UInt8.ofNat (4 + data.length)] ++ wpa2Oui ++ [subtype] ++ data

/-- Make sure that there is a group key, and that its sequence counter is current. -/
def ensureGtk : NasM Unit := do
  if !(← get).gtkPlumbed then wpaInitGtk c
  else nasGetGroupRsc c

/-- `wpa_insert_gtk`: make sure there is a group key, and encapsulate it. -/
def wpaInsertGtk : NasM Bytes := do
  ensureGtk c
  let w ← get
  return encapData 1 ([UInt8.ofNat (w.gtkIndex &&& 3), 0] ++ w.gtk.take w.gtkLen)

/-- The loop of `nas_get_wpa_ie`: the first of the driver's two elements that fits the
station's mode. -/
def pickWpaIe (buf : Mem) (staMode bufLen : Nat) : Nat → Nat → Bytes
  | 0, _ => []
  | n + 1, off =>
    let len := (buf (off + 1)).toNat
    if len = 0 then []
    else if buf off = dot11MngRsnId ∧ (staMode = wpa ∨ staMode = wpaPsk) then
      pickWpaIe buf staMode bufLen n (off + len + 2)
    else if buf off ≠ dot11MngRsnId ∧ (staMode = wpa2 ∨ staMode = wpa2Psk) then
      pickWpaIe buf staMode bufLen n (off + len + 2)
    else if len + 2 ≤ bufLen then buf.slice off (len + 2)
    else []

/-- The one element that `wpa_build_ie` builds for a supplicant or a WDS link: header, one
multicast, one unicast and one AKM suite, capabilities. `fixed` is what stands between the
length octet and the suites. The source checks the room left before every part; all checks
together say that the parts before the capabilities fit. -/
def buildSuites (tag : UInt8) (fixed oui mcast : Bytes) (ucast akm : Nat) (cap : Bytes)
    (bufLen : Nat) : Option Bytes :=
  let body := fixed ++ mcast ++ [1, 0] ++ oui ++ [UInt8.ofNat ucast] ++ [1, 0] ++ oui
    ++ [UInt8.ofNat akm]
  if bufLen < 2 + body.length then none
  else some ([tag, UInt8.ofNat (body.length + cap.length)] ++ body ++ cap)

/-- `wpa_auth2akm` of a mode: only PSK and 802.1x have a number. -/
def akmOf (mode unspecified psk : Nat) : Nat :=
  if has mode unspecified then 1 else if has mode psk then 2 else 0

/-- The unicast suite of a single-suite element. -/
def ucastOf (wsec : Nat) : Nat :=
  if wsecAesEnabled wsec then wpaCipherAesCcm
  else if wsecTkipEnabled wsec then wpaCipherTkip else wpaCipherNone

/-- The multicast suite of `wpa_build_ie` for a supplicant or a WDS link. -/
def mcastSuite (wds : Bool) (wsec algo : Nat) (oui : Bytes) : Bytes :=
  if wds then brcmOui ++ [0]
  else if wsecWepEnabled wsec then oui ++ [UInt8.ofNat (wpaMcastCipher wsec algo)]
  else oui ++ [UInt8.ofNat (cryptoAlgo2cipher algo)]

/-- `wpa_get_rsn_cap`: the capabilities of the RSN element in the driver's copy of the
association request (`WLC_IOCTL_SMLEN` octets). After a skip the source subtracts the length of
the next element instead of the skipped one, and the model keeps that. -/
def rsnCapWalk (buf : Mem) : Nat → Nat → Int → Option (UInt8 × UInt8)
  | 0, _, _ => none
  | fuel + 1, off, ieLen =>
    let len := (buf (off + 1)).toNat
    if len = 0 then none
    else if ieLen < len + 2 then none
    else if buf off ≠ dot11MngRsnId then
      let next := off + len + 2
      rsnCapWalk buf fuel next (ieLen - ((buf (next + 1)).toNat + 2))
    else (wpaParseIe (fun i => buf (off + i)) ieLen.toNat (some (List.replicate 16 0))).map (·.cap)

def ioctlSmlen : Nat := 256

def wpaGetRsnCap : NasM (Option (UInt8 × UInt8)) := do
  match ← oracle c.drv.assocReqIes with
  | none => return none
  | some buf => return rsnCapWalk buf ioctlSmlen 0 ioctlSmlen

/-- The capabilities that close an element of `wpa_build_ie`. -/
def buildCap : NasM Bytes := do
  if c.cfg.wds then return []
  match ← wpaGetRsnCap c with
  | some cap => return [cap.1, cap.2]
  | none =>
    let cap := (← get).cap
    return [cap.1, cap.2]

/-- `wpa_build_ie`. An authenticator on its own interface asks the driver for the element it
beacons; a supplicant and both ends of a WDS link build one. -/
def wpaBuildIe (wsec algo staMode bufLen : Nat) : NasM (Option Bytes) := do
  if !c.cfg.wds && c.cfg.role = .authenticator then
    if checkNas staMode then
      match ← oracle c.drv.wpaIe with
      | none => return some []
      | some buf => return some (pickWpaIe buf staMode bufLen 2 0)
    else return some []
  else
    let mode := c.cfg.mode
    let rsn := checkWpa2 mode && checkWpa2 staMode
    let ie2 ← if rsn then do
        let cap ← buildCap c
        pure (buildSuites dot11MngRsnId [1, 0] wpa2Oui (mcastSuite c.cfg.wds wsec algo wpa2Oui)
          (ucastOf wsec) (akmOf mode wpa2 wpa2Psk) cap bufLen)
      else pure (some [])
    match ie2 with
    | none => return none
    | some ie2 =>
      -- On a WDS link the first element is the only one.
      if rsn && c.cfg.wds then return some ie2
      if has mode (wpa ||| wpaPsk) && has staMode (wpa ||| wpaPsk) then
        let cap ← buildCap c
        let left := if rsn then bufLen - 2 else bufLen
        let ie := buildSuites dot11MngWpaId (wpaOui ++ [1, 1, 0]) wpaOui
          (mcastSuite c.cfg.wds wsec algo wpaOui) (ucastOf wsec) (akmOf mode wpa wpaPsk) cap left
        return ie.map fun ie => ie2 ++ ie
      return some ie2

/-! ## Sending a key frame -/

/-- `wpa_do_mic`: an unknown descriptor version yields no MIC. -/
def wpaDoMic (cr : Crypto) (key : Bytes) (kdver : Nat) (buf : Bytes) : Option Bytes :=
  if kdver = wpaKeyDescV1 then some ((cr.hmacMd5 buf key).take 16)
  else if kdver = wpaKeyDescV2 then some ((cr.hmacSha1 buf key).take 16)
  else none

/-- The frame header that all messages share. -/
def keyFrame (s : Sta) (keyInfo : Nat) : KeyFrame where
  version := s.eapolVersion
  bodyType := if checkWpa2 s.mode then eapolWpa2Key else eapolWpaKey
  keyInfo := keyInfo
  keyLen := 0
  replay := s.replay
  nonce := List.replicate 32 0
  iv := List.replicate 16 0
  rsc := List.replicate 8 0
  mic := List.replicate 16 0
  data := []

/-- Fill in the MIC. -/
def KeyFrame.sign (cr : Crypto) (s : Sta) (k : KeyFrame) : KeyFrame :=
  { k with mic := (wpaDoMic cr s.micKey s.desc k.encode).getD k.mic }

/-- The room for key data in the 1024-octet buffer, as `wpa_send_eapol` computes it. -/
def sendRoom : Nat := 929

/-- Message 1 of the 4-way handshake. -/
def sendPtkstart (i : Slot) : NasM Bool := do
  let s ← getSta i
  let k := keyFrame s (s.desc ||| wpaKeyAck ||| wpaKeyPairwise)
  let data := if checkWpa2 s.mode then encapData 4 s.pmkid else []
  emit (.send i s.ea { k with keyLen := s.tkLen, nonce := s.anonce, data := data } none)
  return true

/-- Message 3 of the 4-way handshake; with WPA2 it carries the group key. -/
def sendPtkinitnegotiating (i : Slot) : NasM Bool := do
  let s ← getSta i
  match ← wpaBuildIe c c.cfg.wsec (wepKey2algo (← get).gtkLen) s.mode sendRoom with
  | none => return false
  | some ie =>
    let info := s.desc ||| wpaKeyAck ||| wpaKeyPairwise ||| wpaKeyInstall ||| wpaKeyMic
    let info := if checkWpa2 s.mode then info ||| wpaKeySecure ||| wpaKeyEncryptedData else info
    let info := if c.cfg.wds then info ||| wpaKeySecure else info
    let k := { keyFrame s info with keyLen := s.tkLen, nonce := s.anonce }
    if checkWpa2 s.mode then
      let kde ← wpaInsertGtk c
      let w ← get
      let iv := w.globalKeyCounter.drop 16
      match encrKeyData c.crypto s iv (ie ++ kde) with
      | none => nasHandleError
      | some data =>
        emit (.encrypt s.ea s.desc s.encrKey iv (ie ++ kde))
        let k := { k with rsc := w.gtkRsc, iv := iv, data := data }
        emit (.send i s.ea (k.sign c.crypto s) (some w.groupKey))
        return true
    else
      let k := { k with data := ie }
      emit (.send i s.ea (k.sign c.crypto s) none)
      return true

/-- The group key message. -/
def sendRekeynegotiating (i : Slot) : NasM Bool := do
  let s ← getSta i
  let info := s.desc ||| wpaKeySecure ||| wpaKeyAck ||| wpaKeyMic
  if checkWpa2 s.mode then
    let kde ← wpaInsertGtk c
    let w ← get
    let iv := w.globalKeyCounter.drop 16
    match encrKeyData c.crypto s iv kde with
    | none => nasHandleError
    | some data =>
      emit (.encrypt s.ea s.desc s.encrKey iv kde)
      let k := { keyFrame s (info ||| wpaKeyEncryptedData) with
        rsc := w.gtkRsc, iv := iv, data := data }
      emit (.send i s.ea (k.sign c.crypto s) (some w.groupKey))
      return true
  else
    let w ← get
    match ← wpaEncrGtk c s with
    | none => nasHandleError
    | some data =>
      let iv := w.globalKeyCounter.drop 16
      emit (.encrypt s.ea s.desc s.encrKey iv (w.gtk.take w.gtkLen))
      let index := (w.gtkIndex <<< 4) &&& wpaKeyIndexMask
      let k := { keyFrame s (info ||| index) with
        keyLen := w.gtkLen, nonce := w.gnonce, iv := iv, rsc := w.gtkRsc, data := data }
      emit (.send i s.ea (k.sign c.crypto s) (some w.groupKey))
      return true

/-- The supplicant's messages 2 and 4 and its group key reply. -/
def sendStakeystart (i : Slot) (pairwise : Bool) : NasM Bool := do
  let s ← getSta i
  let info := s.desc ||| wpaKeyMic ||| (if pairwise then wpaKeyPairwise else wpaKeySecure)
  let secure := c.cfg.wds || checkWpa2 s.mode
  let info := if pairwise && s.pkState = .msg3 && secure then info ||| wpaKeySecure else info
  let ie ← if pairwise && s.pkState = .msg1 then
      wpaBuildIe c c.cfg.wsec s.algo s.mode 40
    else pure (some [])
  match ie with
  | none => return false
  | some data =>
    -- Expect message 3 after sending message 2.
    if pairwise && s.pkState = .msg1 then modSta i fun s => { s with pkState := .msg3 }
    if s.desc = wpaKeyDescV1 ∨ s.desc = wpaKeyDescV2 then
      let k := { keyFrame s info with keyLen := s.tkLen, nonce := s.snonce, data := data }
      emit (.send i s.ea (k.sign c.crypto s) none)
      return true
    else
      if !c.cfg.wds then emit .disassoc
      return false

/-- `wpa_send_eapol`: send the message that belongs to the station's state. -/
def wpaSendEapol (i : Slot) : NasM Bool := do
  match (← getSta i).state with
  | .ptkstart => sendPtkstart i
  | .ptkinitnegotiating => sendPtkinitnegotiating c i
  | .rekeynegotiating => sendRekeynegotiating c i
  | .supInitialise =>
    let s ← getSta i
    let k := keyFrame s (s.desc ||| wpaKeyReq ||| wpaKeyPairwise)
    emit (.send i s.ea { k with keyLen := s.tkLen, nonce := s.snonce } none)
    return true
  | .supStakeystartp => sendStakeystart c i true
  | .supStakeystartg => sendStakeystart c i false
  | _ => return false

end BroadcomWl.Nas
