import BroadcomWl.Eapd.AssocIe

/-!
# The handlers of driver packets

`eapd_brcm_recv_handler` takes what comes in on a socket of the driver. An event of the driver goes
to the applications that ask for it; an event that encapsulates an EAPOL frame is turned into that
frame, in place, and `eapd_eapol_dispatch` decides who gets it.

The functions take offsets in the buffer where the source has pointers into it.
-/

namespace BroadcomWl.Eapd

open BroadcomWl.Nas (Bytes Mem has checkPsk eapPacket eapolStart eapolLogoff eapRequest eapResponse
  eapSuccess
  eapFailure eapIdentity)

def bcmilcpBcmSubtypeEvent : Nat := 1

def wlcEDeauthInd : Nat := 6
def wlcEAssocInd : Nat := 8
def wlcEReassocInd : Nat := 10
def wlcEDisassocInd : Nat := 12
def wlcEEapolMsg : Nat := 25

def eapExpanded : UInt8 := 254

def eapdCapNas : Nat := 2
def eapdCapWps : Nat := 4

/-- The first identity of `eapdispuserlist`, `WFA-SimpleConfig-Enrollee-1-0`. -/
def enrolleeIdentity : Bytes :=
  [87, 70, 65, 45, 83, 105, 109, 112, 108, 101, 67, 111, 110, 102, 105, 103, 45, 69, 110, 114,
   111, 108, 108, 101, 101, 45, 49, 45, 48]

/-- The second identity of `eapdispuserlist`, `WFA-SimpleConfig-Registrar-1-0`. -/
def registrarIdentity : Bytes :=
  [87, 70, 65, 45, 83, 105, 109, 112, 108, 101, 67, 111, 110, 102, 105, 103, 45, 82, 101, 103,
   105, 115, 116, 114, 97, 114, 45, 49, 45, 48]

section

variable (c : Ctx)

/-! ## Events -/

/-- What `wps_app_handle_event` and `ses_app_handle_event` do: the application gets the event with
the name of the interface in front, if it asks for it and has a control block for the socket. -/
def appHandleEvent (app : App) (pData len : Nat) (frm : From) : EapdM Unit := do
  let type ← u32 (pData + 28)
  if c.bitvec app type && (c.cbs app).contains frm.ifname then
    memmove (pData - ifnamsiz) (pData + 54) ifnamsiz
    appSendup c app (pData - ifnamsiz) (len + ifnamsiz)

def wpsAppHandleEvent (pData len : Nat) (frm : From) : EapdM Unit :=
  appHandleEvent c .wps pData len frm
def sesAppHandleEvent (pData len : Nat) (frm : From) : EapdM Unit :=
  appHandleEvent c .ses pData len frm

/-- `nas_app_handle_event`. The length of the data is cut to 16 bits. -/
def nasAppHandleEvent (pData len : Nat) (frm : From) : EapdM Unit := do
  let data := pData + 72
  let datalen := (← u32 (pData + 44)) % 65536
  let type ← u32 (pData + 28)
  if c.bitvec .nas type && (c.cbs .nas).contains frm.ifname then
    if type = wlcEAssocInd || type = wlcEReassocInd || type = wlcEDisassocInd || type =
        wlcEDeauthInd then
      match ← staLookup c (pData + 48) pData (pData + 54) with
      | none => return
      | some i =>
        if type = wlcEDisassocInd || type = wlcEDeauthInd then
          modSta i fun s => { s with mode := .unknow }
        else if (← nasAppFindWpsie data datalen).isSome then
          modSta i fun s => { s with mode := .unknow }
          return
        else
          match ← nasAppParseIe data datalen with
          | none => pure ()
          | some (_, mode) => if checkPsk mode then modSta i fun s => { s with mode := .nasPsk }
    memmove (pData - ifnamsiz) (pData + 54) ifnamsiz
    nasAppSendup c (pData - ifnamsiz) (len + ifnamsiz)

/-- `eapd_brcm_dispatch`. -/
def eapdBrcmDispatch (frm : From) (pData len : Nat) : EapdM Unit := do
  nasAppHandleEvent c pData len frm
  wpsAppHandleEvent c pData len frm
  sesAppHandleEvent c pData len frm

/-! ## EAPOL frames -/

/-- `eapd_valid_eapol_start`. -/
def eapdValidEapolStart (frm : From) (ifname : Bytes) : Bool :=
  match c.osifnameToNvifname ifname with
  | none => false
  | some nvName =>
      has frm.flag (eapdCapNas ||| eapdCapWps) &&
        ((c.ifnames .nas).contains nvName || (c.ifnames .wps).contains nvName)

/-- `eapd_get_method(user) == EAP_TYPE_WSC`: both identities of the list are of this method. -/
def isWscIdentity (user : Nat) : EapdM Bool := do
  if (← octets user 29) == enrolleeIdentity then return true
  return (← octets user 30) == registrarIdentity

/-- The frame is one of a WPS exchange that is under way. -/
def isWpsExchange (s : Sta) (eapol eap : Nat) : EapdM Bool := do
  if s.paeState = .identity && (s.mode = .wps || s.mode = .wpsEnr) then
    if (← octet (eapol + 15)) = eapPacket then
      if (← octet (eap + 4)) = eapExpanded then return true
      else return (← octet eap) == eapFailure
    else return false
  else return false

/-- The frame is an EAP packet of the expanded type with the vendor id of SES, `BCM_SMI_ID`. -/
def isSesIdentity (eapol eap : Nat) : EapdM Bool := do
  if (← octet (eapol + 15)) = eapPacket then
    if (← octet (eap + 4)) = eapExpanded then
      if (← octet (eap + 7)) = 0x3d then
        if (← octet (eap + 6)) = 0x11 then return (← octet (eap + 5)) == 0
        else return false
      else return false
    else return false
  else return false

/-- A frame of a WPS exchange, in `eapd_eapol_dispatch`. -/
def wpsExchangeCase (i : Slot) (mode : StaMode) (pData len eap : Nat) : EapdM Unit := do
  let code ← octet eap
  if code = eapRequest || code = eapFailure then
    if mode = .wpsEnr then
      if code = eapFailure || code = eapSuccess then staRemove i
      wpsAppMonitorSendup c pData len
  else if code = eapResponse then
    if mode = .wps then wpsAppMonitorSendup c pData len

/-- An EAP packet, in `eapd_eapol_dispatch`. -/
def eapPacketCase (i : Slot) (mode : StaMode) (pData len eapol eap : Nat) : EapdM Unit := do
  if 5 ≤ (← u16 (eapol + 16)) then
    let type ← octet (eap + 4)
    if type = eapIdentity then
      let bssid ← octets eapol 6
      let ifname ← octets pData ifnamsiz
      modSta i fun s => { s with bssid := bssid, ifname := ifname }
      if ← isWscIdentity (eap + 5) then
        wpsAppMonitorSendup c pData len
        modSta i fun s => { s with mode := .wps }
      else if mode = .wpsEnr then
        wpsAppMonitorSendup c pData len
      else
        nasAppSendup c pData len
        modSta i fun s => { s with mode := .nas }
      modSta i fun s => { s with paeState := .identity }
    else
      nasAppSendup c pData len
      modSta i fun s => { s with mode := .unknow }

/-- An EAPOL-Start frame, in `eapd_eapol_dispatch`. -/
def eapolStartCase (frm : From) (i : Slot) (mode : StaMode) (pData eapol : Nat) : EapdM Unit := do
  let bssid ← octets eapol 6
  let ifname ← octets pData ifnamsiz
  modSta i fun s => { s with paeId := 0, bssid := bssid, ifname := ifname }
  if eapdValidEapolStart c frm ifname && mode ≠ .nasPsk then
    touch (.canned i eapRequest eapIdentity)
    modSta i fun s => { s with mode := .unknow }

/-- An EAPOL-Logoff frame, in `eapd_eapol_dispatch`. -/
def eapolLogoffCase (mode : StaMode) (pData len : Nat) : EapdM Unit := do
  if mode = .wps || mode = .wpsEnr then wpsAppMonitorSendup c pData len
  else if mode = .nas || mode = .nasPsk then nasAppSendup c pData len

/-- `eapd_eapol_dispatch`, once there is a station for the frame. -/
def dispatchSta (frm : From) (i : Slot) (sta : Sta) (pData len eapol eap : Nat) : EapdM Unit := do
  if ← isWpsExchange sta eapol eap then
    wpsExchangeCase c i sta.mode pData len eap
  else if ← isSesIdentity eapol eap then
    sesAppSendup c pData len
    modSta i fun s => { s with mode := .ses, paeState := .identity }
  else
    let type ← octet (eapol + 15)
    if type = eapPacket then eapPacketCase c i sta.mode pData len eapol eap
    else if type = eapolStart then eapolStartCase c frm i sta.mode pData eapol
    else if type = eapolLogoff then eapolLogoffCase c sta.mode pData len
    else nasAppSendup c pData len

/-- `eapd_eapol_dispatch`. The version is only compared for a message. -/
def eapdEapolDispatch (frm : From) (pData len : Nat) : EapdM Unit := do
  let ifname := pData
  let eapol := ifname + ifnamsiz
  let eap := eapol + 18
  match ← staLookup c (eapol + 6) eapol ifname with
  | none => return
  | some i =>
    let _ ← octet (eapol + 14)
    let sta ← getSta i
    dispatchSta c frm i sta pData len eapol eap

/-- The frame of an EAPOL event is built over the end of its header: `eapol` points to an Ethernet
header that ends where the data begin. -/
def rebuildEapol (pData : Nat) : EapdM Unit := do
  let eapol := pData + 72 - 14
  let ifname := eapol - ifnamsiz
  let ifnameTmp ← octets (pData + 54) ifnamsiz
  memmove eapol pData 14
  store (eapol + 12) [0x88, 0x8e]
  let addr ← octets (pData + 48) 6
  store (eapol + 6) addr
  store ifname ifnameTmp

/-- `eapd_brcm_recv_handler`, for a packet of `len` octets. -/
def eapdBrcmRecvHandler (frm : From) (pData len : Nat) : EapdM Unit := do
  let subtype ← u16 (pData + 22)
  if subtype = bcmilcpBcmSubtypeEvent then
    let type ← u32 (pData + 28)
    if type = wlcEEapolMsg then
      let datalen ← u32 (pData + 44)
      rebuildEapol pData
      eapdEapolDispatch c frm (pData + 72 - 14 - ifnamsiz) ((datalen + 14 + ifnamsiz) % 2 ^ 32)
    else eapdBrcmDispatch c frm pData len

end

end BroadcomWl.Eapd
