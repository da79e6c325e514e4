import BroadcomWl.Eapd.Work

/-!
# The elements of an association request

When a station associates, `eapd` looks into the elements that it sent to learn whether it will use
a pre-shared key. The search helpers are its own; so is `nas_app_parse_ie`, which finds the WPA or
RSN element among the others and decodes it.

A search that runs out of fuel is `Stuck`; each pass takes two octets at least, so that the fuel
given here is never used up. -/

namespace BroadcomWl.Eapd

open BroadcomWl.Nas (Bytes Mem wpaOui wpa2Oui dot11MngRsnId dot11MngWpaId IeHeader wepEnabled
  tkipEnabled
  aesEnabled wpa wpaPsk wpa2 wpa2Psk radius)

/-- `NAS_APP_WPA_CIPHER2WSEC`. -/
def nasAppWpaCipher2wsec (cipher : Nat) : Nat :=
  if cipher = 1 then wepEnabled
  else if cipher = 5 then wepEnabled
  else if cipher = 2 then tkipEnabled
  else if cipher = 4 then aesEnabled else 0

/-- `nas_app_wpa_akm2auth`: `RSN_AKM_PSK` is 2 and `RSN_AKM_UNSPECIFIED` is 1. -/
def nasAppWpaAkm2auth (akm : Nat) : Nat := if akm = 2 then 0x4 else if akm = 1 then 0x2 else 0x1

/-- `nas_app_wpa2_akm2auth`. -/
def nasAppWpa2Akm2auth (akm : Nat) : Nat := if akm = 2 then 0x80 else if akm = 1 then 0x40 else 0x1

/-- `nas_app_wpa_auth2mode`. -/
def nasAppWpaAuth2mode (auth : Nat) : Nat :=
  if auth = 0x4 then wpaPsk
  else if auth = 0x2 then wpa
  else if auth = 0x80 then wpa2Psk
  else if auth = 0x40 then wpa2 else radius

/-! ## Searches -/

/-- `nas_app_parse_tlvs`: the first element with this id that fits into the remaining octets. -/
def nasAppParseTlvs (key : UInt8) : Nat → Nat → Int → EapdM (Option Nat)
  | 0, _, _ => throw .chain
  | fuel + 1, elt, totlen => do
    if totlen < 2 then return none
    let len := (← octet (elt + 1)).toNat
    let id ← octet elt
    if id = key && len + 2 ≤ totlen then return some elt
    nasAppParseTlvs key fuel (elt + (len + 2)) (totlen - (len + 2))

/-- What `nas_app_is_wpa_ie` and `nas_app_is_wps_ie` test: a vendor element of this type. -/
def isVendorIe (type : UInt8) (ie : Nat) : EapdM Bool := do
  let len ← octet (ie + 1)
  if 4 < len.toNat then
    let body ← octets (ie + 2) 4
    return body == wpaOui ++ [type]
  else return false

/-- `nas_app_is_wpa_ie`, the test. -/
def nasAppIsWpaIe (ie : Nat) : EapdM Bool := isVendorIe 1 ie

/-- `nas_app_is_wps_ie`, the test. -/
def nasAppIsWpsIe (ie : Nat) : EapdM Bool := isVendorIe 4 ie

/-- The loop of `nas_app_find_wpaie` and `nas_app_find_wpsie`: where the test fails, the search goes
on behind the element. -/
def nasAppFind (test : Nat → EapdM Bool) : Nat → Nat → Nat → EapdM (Option Nat)
  | 0, _, _ => throw .chain
  | fuel + 1, parse, len => do
    match ← nasAppParseTlvs dot11MngWpaId (len + 1) parse len with
    | none => return none
    | some ie =>
      if ← test ie then return some ie
      let next := ie + (← octet (ie + 1)).toNat + 2
      nasAppFind test fuel next (len - (next - parse))

def nasAppFindWpaie (parse len : Nat) : EapdM (Option Nat) :=
  nasAppFind nasAppIsWpaIe (len + 1) parse len

def nasAppFindWpsie (data dataLen : Nat) : EapdM (Option Nat) :=
  nasAppFind nasAppIsWpsIe (dataLen + 1) data dataLen

/-! ## The element -/

/-- The type-specific header of `nas_app_parse_ie`. -/
def nasAppIeHeader (wpaie : Nat) : EapdM (Option IeHeader) := do
  let tag ← octet wpaie
  if tag = dot11MngRsnId then
    let len ← octet (wpaie + 1)
    if len.toNat < 2 then return none
    let version ← le16 (wpaie + 2)
    if version ≠ 1 then return none
    return some ⟨4, wpa2Oui, nasAppWpa2Akm2auth⟩
  else if tag = dot11MngWpaId then
    let len ← octet (wpaie + 1)
    if len.toNat < 6 then return none
    let oui ← octets (wpaie + 2) 4
    if oui ≠ wpaOui ++ [1] then return none
    let version ← le16 (wpaie + 6)
    if version ≠ 1 then return none
    return some ⟨8, wpaOui, nasAppWpaAkm2auth⟩
  else return none

/-- The type of a suite with the right OUI. -/
def suiteType (oui : Bytes) (suite : Nat) : EapdM (Option Nat) := do
  let b ← octets suite 3
  if b = oui then
    let type ← octet (suite + 3)
    return some type.toNat
  else return none

/-- The multicast suite, if there is room for it, and the octets left. -/
def mcastSuite (oui : Bytes) (mcast : Nat) (len : Int) : EapdM (Option Nat × Int) := do
  if 4 ≤ len then
    let type ← suiteType oui mcast
    return (type, len - 4)
  else return (none, len)

/-- A counted list of suites, of which there must be one, if there is room for the count. The inner
`none` is a suite that is not there or is of another OUI. -/
def countedSuite (oui : Bytes) (list : Nat) (len : Int) : EapdM (Option (Option Nat × Int)) := do
  if 2 ≤ len then
    let count ← le16 list
    if count ≠ 1 then return none
    let type ← suiteType oui (list + 2)
    return some (type, len - 2 - 4)
  else return some (none, len)

/-- The suites of `nas_app_parse_ie`, from `mcast` on, with `len` octets left: `wsec` and `mode`. -/
def nasAppParseSuites (h : IeHeader) (mcast : Nat) (len : Int) : EapdM (Option (Nat × Nat)) := do
  let (group, len) ← mcastSuite h.oui mcast len
  match ← countedSuite h.oui (mcast + 4) len with
  | none => return none
  | some (cipher, len) =>
    match ← countedSuite h.oui (mcast + 10) len with
    | none => return none
    | some (akm, _) =>
      let wsec := group.elim 0 nasAppWpaCipher2wsec ||| cipher.elim 0 nasAppWpaCipher2wsec
      return some (wsec, akm.elim 0 fun type => nasAppWpaAuth2mode (h.akm2auth type))

/-- Where `nas_app_parse_ie` finds the element: the first WPA element, else the first
RSN element. -/
def nasAppSearchIe (ie ieLen : Nat) : EapdM (Option Nat) := do
  match ← nasAppFindWpaie ie ieLen with
  | some wpaie => return some wpaie
  | none => nasAppParseTlvs dot11MngRsnId (ieLen + 1) ie ieLen

/-- `nas_app_parse_ie`. The octets left are counted from the length of all elements. -/
def nasAppParseIe (ie ieLen : Nat) : EapdM (Option (Nat × Nat)) := do
  match ← nasAppSearchIe ie ieLen with
  | none => return none
  | some wpaie =>
    match ← nasAppIeHeader wpaie with
    | none => return none
    | some h => nasAppParseSuites h (wpaie + h.suites) ((ieLen : Int) - h.suites)

end BroadcomWl.Eapd
