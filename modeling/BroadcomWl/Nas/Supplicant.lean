import BroadcomWl.Nas.Wpa

/-!
# The supplicant

`wpa.c` under `BCMSUPPL`: decrypting the key data of a received message, extracting the group
key from it, and `eapol_sup_process_key`, which handles messages 1 and 3 of the 4-way handshake
and the group key message.

The source keeps the MIC verdict in a local variable `state` and decides what to do by that
variable, by the flags of the frame and by `pk_state`. The function is cut here at the points
at which it may return early: `supVerify` up to the decision whether a pairwise or a group key
is new, `supFinish` from the answer to the authenticator on.

`aes_unwrap` of an empty input copies a negative number of octets, and a key longer than the
32 octets of `wpa->gtk` is copied past its end: both are faults.
-/

namespace BroadcomWl.Nas

open BroadcomWl.Lib

variable (c : Ctx)

/-! ## Key data -/

/-- The frame after its key data has been overwritten in place. -/
def Frame.withData (f : Frame) (d : Bytes) : Frame where
  mem := fun off => if 113 ≤ off ∧ off < 113 + d.length then d.getD (off - 113) 0 else f.mem off
  bytes := f.bytes

/-- The 16-octet-key unwrap as the callers use it. -/
def aesUnwrap (key input : Bytes) : NasM (Option Bytes) := do
  if input = [] then throw .fault
  return c.crypto.aesUnwrap key input

/-- The RC4 stream that the two decryptions share. -/
def rc4Data (s : Sta) (f : Frame) : Frame :=
  f.withData (c.crypto.rc4 (f.iv ++ s.encrKey) (f.data.slice 0 f.dataLen))

/-- `wpa_decr_key_data`. -/
def wpaDecrKeyData (s : Sta) (f : Frame) : NasM (Option Frame) := do
  if s.desc = wpaKeyDescV1 then return some (rc4Data c s f)
  else if s.desc = wpaKeyDescV2 then
    return (← aesUnwrap c s.encrKey (f.data.slice 0 f.dataLen)).map f.withData
  else return none

/-- `EAPOL_WPA2_GTK_ENCAP_MIN_LEN`. -/
def gtkEncapMinLen : Nat := 6

/-- `wpa_extract_gtk`: the key is stored before the encryption flag is looked at. -/
def wpaExtractGtk (f : Frame) : NasM Bool := do
  match wpaFindKde f.data f.dataLen 1 with
  | none => return false
  | some ie =>
    let length := (f.data (ie + 1)).toNat
    if length < gtkEncapMinLen ∨ tkipTkLen < length - gtkEncapMinLen then return false
    let len := length - gtkEncapMinLen
    modify fun w => { w with
      gtkLen := len, gtkIndex := (f.data (ie + 6)).toNat &&& 3,
      gtk := f.data.slice (ie + 8) len ++ w.gtk.drop len }
    if !has f.keyInfo wpaKeyEncryptedData then return false
    modify fun w => { w with gtkRsc := f.rsc }
    return true

/-- `wpa_decr_gtk`, for the group key message of WPA. -/
def wpaDecrGtk (s : Sta) (f : Frame) : NasM Bool := do
  modify fun w => { w with
    gtkLen := f.keyLen, gtkIndex := (f.keyInfo &&& wpaKeyIndexMask) >>> 4 }
  if s.desc = wpaKeyDescV1 then
    if tkipTkLen < f.keyLen then throw .fault
    modify fun w => { w with
      gtk := (rc4Data c s f).data.slice 0 f.keyLen ++ w.gtk.drop f.keyLen }
    return true
  else if s.desc = wpaKeyDescV2 then
    match ← aesUnwrap c s.encrKey (f.data.slice 0 f.dataLen) with
    | none => return false
    | some key =>
      if tkipTkLen < key.length then throw .fault
      modify fun w => { w with gtk := key ++ w.gtk.drop key.length }
      return true
  else return false

/-- The copy of the group key that a message is compared with (`t_gtk`). -/
def tempGtk : NasM Bytes := do
  let w ← get
  if tkipTkLen < w.gtkLen then throw .fault
  return (w.groupKey.1 ++ List.replicate tkipTkLen 0).take tkipTkLen

/-- The group key differs from the copy, or none is plumbed. -/
def gtkChanged (old : Bytes) : NasM Bool := do
  let w ← get
  if tkipTkLen < w.gtkLen then throw .fault
  return !(old.take w.gtkLen == w.groupKey.1) || !w.gtkPlumbed

/-! ## `eapol_sup_process_key` -/

/-- The local variables: the MIC verdict and whether the keys are to be installed. -/
structure SupVerdict where
  state : PkState
  updatePtk : Bool
  updateGtk : Bool
  deriving DecidableEq, Repr

/-- The verdict on the MIC. -/
def supMic (s : Sta) (f : Frame) : PkState :=
  if has f.keyInfo wpaKeyMic then if wpaCheckMic c s f then .micok else .micfailed else .unknown

/-- The group key of an RSN message: `none` where its extraction fails, else whether it is
new. -/
def supExtractGtk (f : Frame) : NasM (Option Bool) := do
  let old ← tempGtk
  if !(← wpaExtractGtk f) then return none
  return some (← gtkChanged old)

/-- The checks on a pairwise message that carries the install flag: `some (.ok u)` goes on,
with `u` the verdict on its group key. -/
def supInstallChecks (i : Slot) (f : Frame) : NasM (Except PkState Bool) := do
  let s ← getSta i
  if f.nonce ≠ s.anonce then return .error .error
  if checkWpa2 s.mode then
    match ← supExtractGtk f with
    | none => return .error .unknown
    | some update => return .ok update
  else if !ieMatches s f then return .error .error
  else return .ok false

/-- Message 1: a new nonce makes a new PTK. -/
def supMsg1 (i : Slot) (f : Frame) : NasM Unit := do
  if f.nonce ≠ (← getSta i).anonce then
    modSta i fun s => { s with anonce := f.nonce }
    wpaCalcPtk c i

/-- A pairwise message whose MIC is right: is its PTK to be installed? -/
def supPtkUpdate (i : Slot) (f : Frame) : NasM (Except PkState Bool) := do
  if !has f.keyInfo wpaKeyInstall then return .ok false
  let s ← getSta i
  match s.pkState with
  | .done =>
    -- A retransmitted message 3: change the state so that message 4 is sent.
    modSta i fun s => { s with pkState := .msg3 }
    return .ok false
  | .msg3 => return .ok (s.eapolTempPtk.take s.tkLen != s.tempKey)
  | _ => return .error .error

/-- A pairwise message whose MIC is not wrong: check message 3, or take the nonce of
message 1. -/
def supPairwiseChecks (i : Slot) (f : Frame) : NasM (Except PkState Bool) := do
  let r ← if has f.keyInfo wpaKeyInstall then supInstallChecks i f else pure (.ok false)
  match r with
  | .error r => return .error r
  | .ok update =>
    if !has f.keyInfo wpaKeyMic then supMsg1 c i f
    return .ok update

/-- A pairwise message. -/
def supPairwise (i : Slot) (f : Frame) (state : PkState) : NasM (Except PkState SupVerdict) := do
  let r ← if state ≠ .micfailed then supPairwiseChecks c i f else pure (.ok false)
  match r with
  | .error r => return .error r
  | .ok updateGtk =>
    let r ← if state = .micok then supPtkUpdate i f else pure (.ok false)
    match r with
    | .error r => return .error r
    | .ok updatePtk => return .ok ⟨state, updatePtk, updateGtk⟩

/-- A group key message whose MIC is right. -/
def supGroup (i : Slot) (f : Frame) : NasM (Except PkState SupVerdict) := do
  let s ← getSta i
  if checkWpa2 s.mode then
    match ← supExtractGtk f with
    | none => return .error .unknown
    | some update => return .ok ⟨.micok, false, update⟩
  else
    let old ← tempGtk
    if !(← wpaDecrGtk c s f) then return .ok ⟨.micfailed, false, false⟩
    if ← gtkChanged old then let _ ← wpaPlumbGtk c (has f.keyInfo wpaKeyInstall)
    return .ok ⟨.micok, false, false⟩

/-- The step in the handshake that a pairwise message belongs to: message 1 resets `pk_state`,
any other one is accepted only when message 3 is expected or has been seen. -/
def supExpected (i : Slot) (f : Frame) : NasM Bool := do
  modSta i fun s => { s with state := .supStakeystartp }
  if !has f.keyInfo wpaKeyMic then
    modSta i fun s => { s with pkState := .msg1 }
    return true
  else
    let s ← getSta i
    return s.pkState = .msg3 || s.pkState = .done

/-- Everything before the answer: `.error` where the function returns. -/
def supVerify (i : Slot) (f : Frame) (state : PkState) : NasM (Except PkState SupVerdict) := do
  if has f.keyInfo wpaKeyPairwise then
    if ← supExpected i f then supPairwise c i f state
    else return .error state
  else
    modSta i fun s => { s with state := .supStakeystartg }
    if state = .micok then supGroup c i f
    else return .ok ⟨.micfailed, false, false⟩

/-- Install the temporal key. -/
def supInstallPtk (i : Slot) : NasM Unit := do
  let s ← getSta i
  if (← nasSetKey c ⟨some s.ea, s.tempKey, 0, true, [], false⟩) < 0 then
    nasDeauthenticate c s.ea dot11RcBusy
  else
    modSta i fun s => { s with
      eapolTempPtk := s.tempKey ++ List.replicate (tkipTkLen - s.tempKey.length) 0,
      pkState := .done }

/-- Answer, install what is new, and authorize. -/
def supFinish (i : Slot) (f : Frame) (v : SupVerdict) : NasM PkState := do
  if has f.keyInfo wpaKeyAck && v.state ≠ .micfailed then
    if !(← wpaSendEapol c i) then return .error
  if v.updatePtk then supInstallPtk c i
  if v.updateGtk then
    if (← wpaPlumbGtk c (has f.keyInfo wpaKeyInstall)) = -enodev then return .error
  if has f.keyInfo wpaKeyPairwise && has f.keyInfo wpaKeyInstall && !v.updatePtk then
    modSta i fun s => { s with pkState := .done }
  if v.state = .micok && has f.keyInfo wpaKeySecure then
    nasAuthorize (← getSta i).ea
    wpaStopRetx i
    modSta i fun s => { s with wdsTd := none }
  return v.state

/-- `eapol_sup_process_key`. -/
def eapolSupProcessKey (i : Slot) (f : Frame) : NasM PkState := do
  modSta i fun s => { s with replay := f.replay }
  let s ← getSta i
  let state := supMic c s f
  let f' ← if checkWpa2 s.mode && has f.keyInfo wpaKeyEncryptedData then wpaDecrKeyData c s f
    else pure (some f)
  match f' with
  | none => return .unknown
  | some f' =>
    match ← supVerify c i f' state with
    | .error r => return r
    | .ok v => supFinish c i f' v

/-- `process_sup_wpa`: `true` where the source returns `1`. -/
def processSupWpa (f : Frame) (i : Slot) : NasM Bool := do
  modSta i fun s => { s with
    state := if s.state = .supAuthentication then .supStakeystartp else s.state,
    retryState := if s.retryState = .supAuthentication then .supStakeystartp else s.retryState }
  match (← getSta i).state with
  | .supStakeystartp | .supStakeystartg =>
    wpaStopRetx i
    return (← eapolSupProcessKey c i f) = .error
  | .supDisconnected | .supInitialise | .supAuthentication | .supKeyupdate => return false
  | _ => return true

/-- `eapol_sup_dispatch`. -/
def eapolSupDispatch (f : Frame) : NasM Unit := do
  match ← lookupSta c f.shost true with
  | none => return
  | some i =>
    let s ← getSta i
    if f.type = eapolKey && checkEapolKey f.bodyType && checkNas s.mode
        && (s.pae.state = .authenticated || s.pae.state = .initialise) then
      if ← processSupWpa c f i then cleanupSta c i dot11Rc8021xAuthFail false

end BroadcomWl.Nas
