import Mathlib

/-!
# Frames, information elements and the constants of the key exchange

The wire formats that `nas` reads and writes: the EAPOL-Key frame (`proto/eapol.h`), the WPA
and RSN information elements (`proto/wpa.h`), and the TLV walk of `bcmutils.c` and
`bcmwpa.c`.

**Received bytes.** The C code is handed a pointer and looks behind it; the number of bytes
that were received is a separate value that it may or may not consult. So a received object
is a memory `Mem` (what stands at each offset from the pointer) and, beside it, a length. The
parsers below read the memory at the offsets at which the source reads it.

**Bit masks.** Authentication modes, cipher masks and `key_info` are numbers that are tested
with `&&&`, as in the source.
-/

namespace BroadcomWl.Nas

/-- A string of octets. -/
abbrev Bytes := List UInt8

/-- What stands in memory at each offset from a pointer. -/
abbrev Mem := Nat → UInt8

/-- A flag test: `mask` and `bits` have a bit in common. -/
def has (bits mask : Nat) : Bool := bits &&& mask != 0

def be16 (n : Nat) : Bytes := [UInt8.ofNat (n / 256), UInt8.ofNat n]

namespace Mem

def u16 (m : Mem) (off : Nat) : Nat := (m off).toNat * 256 + (m (off + 1)).toNat

/-- `ltoh16_ua`. -/
def le16 (m : Mem) (off : Nat) : Nat := (m off).toNat + (m (off + 1)).toNat * 256

/-- The `n` octets from offset `off` on. -/
def slice (m : Mem) (off : Nat) : Nat → Bytes
  | 0 => []
  | n + 1 => m off :: slice m (off + 1) n

/-- A buffer with known contents; everything behind it reads as zero. -/
def ofBytes (b : Bytes) : Mem := fun i => b.getD i 0

theorem slice_length (m : Mem) (off n : Nat) : (m.slice off n).length = n := by
  induction n generalizing off with
  | zero => rfl
  | succ n ih => simp [slice, ih]

theorem slice_getD (m : Mem) (off : Nat) {i n : Nat} (h : i < n) :
    (m.slice off n).getD i 0 = m (off + i) := by
  induction n generalizing off i with
  | zero => cases h
  | succ n ih =>
      cases i with
      | zero => rfl
      | succ i =>
          rw [show off + (i + 1) = off + 1 + i by omega]
          exact ih (off + 1) (Nat.lt_of_succ_lt_succ h)

theorem slice_congr {m m' : Mem} {off off' n : Nat} (h : ∀ i, i < n → m (off + i) = m' (off' + i)) :
    m.slice off n = m'.slice off' n := by
  induction n generalizing off off' with
  | zero => rfl
  | succ n ih =>
      have hhead := h 0 (Nat.succ_pos n)
      have htail : m.slice (off + 1) n = m'.slice (off' + 1) n := by
        apply ih
        intro i hi
        have hnext := h (i + 1) (Nat.succ_lt_succ hi)
        rwa [show off + (i + 1) = off + 1 + i by omega,
          show off' + (i + 1) = off' + 1 + i by omega] at hnext
      simp only [Nat.add_zero] at hhead
      simp only [slice, hhead, htail]

theorem slice_eq {mem : Mem} {addr : Nat} {b : Bytes}
    (h : ∀ i, i < b.length → mem (addr + i) = b.getD i 0) :
    mem.slice addr b.length = b := by
  induction b generalizing addr with
  | nil => rfl
  | cons x b ih =>
      have hfirst : mem addr = x := h 0 (Nat.zero_lt_succ _)
      have htail : ∀ i, i < b.length → mem (addr + 1 + i) = b.getD i 0 := by
        intro i hi
        have hnext := h (i + 1) (Nat.succ_lt_succ hi)
        rwa [Nat.add_assoc, Nat.add_comm 1 i]
      rw [List.length_cons, slice, hfirst, ih htail]

theorem slice_add (mem : Mem) (addr k m : Nat) :
    mem.slice addr (k + m) = mem.slice addr k ++ mem.slice (addr + k) m := by
  induction k generalizing addr with
  | zero => rw [Nat.zero_add]; rfl
  | succ k ih =>
      rw [Nat.succ_add, slice, ih, slice, List.cons_append, Nat.add_right_comm, Nat.add_assoc]

theorem slice_take (m : Mem) (k : Nat) :
    ∀ off n : Nat, (m.slice off n).take k = m.slice off (min k n) := by
  induction k with
  | zero => intro off n; simp [slice]
  | succ k ih =>
      intro off n
      cases n with
      | zero => rfl
      | succ n =>
          rw [Nat.add_min_add_right]
          exact congrArg (List.cons _) (ih (off + 1) n)

theorem slice_drop (m : Mem) (k : Nat) :
    ∀ off n : Nat, (m.slice off n).drop k = m.slice (off + k) (n - k) := by
  induction k with
  | zero => intro off n; rfl
  | succ k ih =>
      intro off n
      cases n with
      | zero => simp [slice]
      | succ n =>
          have h := ih (off + 1) n
          rw [Nat.add_right_comm, Nat.add_assoc] at h
          rw [Nat.add_sub_add_right]
          exact h

/-- These octets stand at this place. -/
def Holds (m : Mem) (off : Nat) (b : Bytes) : Prop := m.slice off b.length = b

theorem holds_cons (m : Mem) (off : Nat) (x : UInt8) (b : Bytes) :
    m.Holds off (x :: b) ↔ m off = x ∧ m.Holds (off + 1) b := by
  simp [Holds, slice]

theorem holds_append (m : Mem) (off : Nat) (a b : Bytes) :
    m.Holds off (a ++ b) ↔ m.Holds off a ∧ m.Holds (off + a.length) b := by
  induction a generalizing off with
  | nil => simp [Holds, slice]
  | cons x a ih =>
      rw [List.cons_append, holds_cons, holds_cons, ih, List.length_cons, and_assoc,
        show off + 1 + a.length = off + (a.length + 1) by omega]

end Mem

/-! ## Modes, ciphers and key descriptors -/

/-- `WPA_AUTH_UNSPECIFIED`: WPA with a RADIUS server. -/
def wpa : Nat := 0x2
def wpaPsk : Nat := 0x4
def radius : Nat := 0x20
/-- `WPA2_AUTH_UNSPECIFIED`: WPA2 with a RADIUS server. -/
def wpa2 : Nat := 0x40
def wpa2Psk : Nat := 0x80

def checkNas (mode : Nat) : Bool := has mode (wpa ||| wpaPsk ||| wpa2 ||| wpa2Psk)
def checkPsk (mode : Nat) : Bool := has mode (wpaPsk ||| wpa2Psk)
def checkWpa (mode : Nat) : Bool := has mode (wpa ||| wpa2)
def checkWpa2 (mode : Nat) : Bool := has mode (wpa2 ||| wpa2Psk)
def checkRadius (mode : Nat) : Bool := has mode (wpa ||| radius ||| wpa2)
def checkAuth (mode : Nat) : Bool := has mode (radius ||| wpa ||| wpaPsk ||| wpa2 ||| wpa2Psk)

def wepEnabled : Nat := 0x1
def tkipEnabled : Nat := 0x2
def aesEnabled : Nat := 0x4

def wsecWepEnabled (wsec : Nat) : Bool := has wsec wepEnabled
def wsecTkipEnabled (wsec : Nat) : Bool := has wsec tkipEnabled
def wsecAesEnabled (wsec : Nat) : Bool := has wsec aesEnabled

def cryptoAlgoOff : Nat := 0
def cryptoAlgoWep1 : Nat := 1
def cryptoAlgoTkip : Nat := 2
def cryptoAlgoWep128 : Nat := 3
def cryptoAlgoAesCcm : Nat := 4

def wep1KeySize : Nat := 5
def wep128KeySize : Nat := 13

/-- Mapping from WEP key length to the crypto algorithm. -/
def wepKey2algo (len : Nat) : Nat :=
  if len = wep1KeySize then cryptoAlgoWep1
  else if len = wep128KeySize then cryptoAlgoWep128 else cryptoAlgoOff

def wpaCipherNone : Nat := 0
def wpaCipherWep40 : Nat := 1
def wpaCipherTkip : Nat := 2
def wpaCipherAesCcm : Nat := 4
def wpaCipherWep104 : Nat := 5

def wpaCipher2wsec (cipher : Nat) : Nat :=
  if cipher = wpaCipherWep40 then wepEnabled
  else if cipher = wpaCipherWep104 then wepEnabled
  else if cipher = wpaCipherTkip then tkipEnabled
  else if cipher = wpaCipherAesCcm then aesEnabled else 0

def wpaCipher2algo (cipher : Nat) : Nat :=
  if cipher = wpaCipherWep40 then cryptoAlgoWep1
  else if cipher = wpaCipherWep104 then cryptoAlgoWep128
  else if cipher = wpaCipherTkip then cryptoAlgoTkip
  else if cipher = wpaCipherAesCcm then cryptoAlgoAesCcm else cryptoAlgoOff

def cryptoAlgo2cipher (algo : Nat) : Nat :=
  if algo = cryptoAlgoWep1 then wpaCipherWep40
  else if algo = cryptoAlgoWep128 then wpaCipherWep104
  else if algo = cryptoAlgoTkip then wpaCipherTkip
  else if algo = cryptoAlgoAesCcm then wpaCipherAesCcm else wpaCipherNone

def wpaMcastCipher (wsec algo : Nat) : Nat :=
  if wsecWepEnabled wsec then
    if algo = cryptoAlgoWep128 then wpaCipherWep104 else wpaCipherWep40
  else if wsecTkipEnabled wsec then wpaCipherTkip
  else if wsecAesEnabled wsec then wpaCipherAesCcm else wpaCipherNone

def wpaKeyDescV1 : Nat := 0x1
def wpaKeyDescV2 : Nat := 0x2
def wpaKeyPairwise : Nat := 0x8
def wpaKeyInstall : Nat := 0x40
def wpaKeyAck : Nat := 0x80
def wpaKeyMic : Nat := 0x100
def wpaKeySecure : Nat := 0x200
def wpaKeyError : Nat := 0x400
def wpaKeyReq : Nat := 0x800
def wpaKeyEncryptedData : Nat := 0x1000
def wpaKeyIndexMask : Nat := 0x30

def aesPtkLen : Nat := 48
def aesTkLen : Nat := 16
def tkipPtkLen : Nat := 64
def tkipTkLen : Nat := 32
def pmkLen : Nat := 32

/-- The size of `assoc_wpaie`. -/
def maxWpaIe : Nat := 256

def wpaOui : Bytes := [0x00, 0x50, 0xf2]
def wpa2Oui : Bytes := [0x00, 0x0f, 0xac]
def brcmOui : Bytes := [0x00, 0x10, 0x18]

def dot11MngRsnId : UInt8 := 48
/-- `DOT11_MNG_WPA_ID`, also `DOT11_MNG_VS_ID` and `DOT11_MNG_PROPR_ID`. -/
def dot11MngWpaId : UInt8 := 221

def wpaEapolVersion : UInt8 := 1
def wpa2EapolVersion : UInt8 := 2

/-- Reason codes of a deauthentication. -/
def dot11RcUnspecified : Nat := 1
def dot11RcAuthInval : Nat := 2
def dot11RcBusy : Nat := 5
def dot11RcMicFailure : Nat := 14
def dot11Rc4whTimeout : Nat := 15
def dot11RcGtkUpdateTimeout : Nat := 16
def dot11Rc8021xAuthFail : Nat := 23

/-! ## The received EAPOL frame -/

/-- A received frame: the memory from the Ethernet header on, and the byte count that
`nas_wksp_dispatch_packet` passes along (`recv` less the interface name, so it may even be
negative). -/
structure Frame where
  mem : Mem
  bytes : Int

namespace Frame

def shost (f : Frame) : Bytes := f.mem.slice 6 6
def type (f : Frame) : UInt8 := f.mem 15
def length (f : Frame) : Nat := f.mem.u16 16
/-- `eapol->body[0]`, the descriptor type of a key frame. -/
def bodyType (f : Frame) : UInt8 := f.mem 18
def keyInfo (f : Frame) : Nat := f.mem.u16 19
def keyLen (f : Frame) : Nat := f.mem.u16 21
def replay (f : Frame) : Bytes := f.mem.slice 23 8
def nonce (f : Frame) : Bytes := f.mem.slice 31 32
def iv (f : Frame) : Bytes := f.mem.slice 63 16
def rsc (f : Frame) : Bytes := f.mem.slice 79 8
def mic (f : Frame) : Bytes := f.mem.slice 95 16
def dataLen (f : Frame) : Nat := f.mem.u16 111
/-- The memory from `body->data` on. -/
def data (f : Frame) : Mem := fun i => f.mem (113 + i)

/-- The octets the MIC is computed over: the frame from its version field on, with the MIC
field zeroed. -/
def micInput (f : Frame) : Bytes :=
  f.mem.slice 14 81 ++ List.replicate 16 0 ++ f.mem.slice 111 (2 + f.dataLen)

def eapCode (f : Frame) : UInt8 := f.mem 18
def eapId (f : Frame) : UInt8 := f.mem 19
def eapLength (f : Frame) : Nat := f.mem.u16 20
def eapType (f : Frame) : UInt8 := f.mem 22

end Frame

/-- EAPOL packet types. -/
def eapPacket : UInt8 := 0
def eapolStart : UInt8 := 1
def eapolLogoff : UInt8 := 2
def eapolKey : UInt8 := 3

def eapolWpa2Key : UInt8 := 2
def eapolWpaKey : UInt8 := 254

def checkEapolKey (key : UInt8) : Bool := key == eapolWpaKey || key == eapolWpa2Key

def eapolHeaderLen : Nat := 18
def eapHeaderLen : Nat := 4
def eapolWpaKeyLen : Nat := 95

def eapRequest : UInt8 := 1
def eapResponse : UInt8 := 2
def eapSuccess : UInt8 := 3
def eapFailure : UInt8 := 4
def eapIdentity : UInt8 := 1

/-! ## The key frame that is sent -/

/-- The contents of an EAPOL-Key frame that `wpa_send_eapol` builds. -/
structure KeyFrame where
  version : UInt8
  bodyType : UInt8
  keyInfo : Nat
  keyLen : Nat
  replay : Bytes
  nonce : Bytes
  iv : Bytes
  rsc : Bytes
  mic : Bytes
  data : Bytes
  deriving DecidableEq, Repr

/-- The octets from the version field on, as they go over the air. -/
def KeyFrame.encode (k : KeyFrame) : Bytes :=
  [k.version, eapolKey] ++ be16 (eapolWpaKeyLen + k.data.length) ++ [k.bodyType]
    ++ be16 k.keyInfo ++ be16 k.keyLen ++ k.replay ++ k.nonce ++ k.iv ++ k.rsc
    ++ List.replicate 8 0 ++ k.mic ++ be16 k.data.length ++ k.data

/-! ## TLV walks -/

/-- `bcm_parse_tlvs`: the offset of the first element with this id that fits into the
remaining `totlen` bytes. The fuel bounds the walk; every element takes at least two bytes,
so `totlen` is always enough. -/
def bcmParseTlvs (m : Mem) (key : UInt8) : Nat → Nat → Nat → Option Nat
  | 0, _, _ => none
  | fuel + 1, off, totlen =>
    if totlen < 2 then none
    else
      let len := (m (off + 1)).toNat
      if m off = key ∧ len + 2 ≤ totlen then some off
      -- `totlen` would go negative, which ends the loop
      else if totlen < len + 2 then none
      else bcmParseTlvs m key fuel (off + (len + 2)) (totlen - (len + 2))

/-- `bcm_has_ie`, the test part: the element at `off` carries this OUI and type. -/
def bcmHasIe (m : Mem) (oui : Bytes) (type : UInt8) (off : Nat) : Bool :=
  oui.length + 1 ≤ (m (off + 1)).toNat && m.slice (off + 2) oui.length == oui
    && m (off + 2 + oui.length) == type

/-- The search loop that `bcm_find_wpaie` and `wpa_find_kde` share: the first vendor element
with this OUI and type. -/
def bcmFindVendorIe (m : Mem) (oui : Bytes) (type : UInt8) : Nat → Nat → Nat → Option Nat
  | 0, _, _ => none
  | fuel + 1, parse, len =>
    match bcmParseTlvs m dot11MngWpaId len parse len with
    | none => none
    | some ie =>
      if bcmHasIe m oui type ie then some ie
      else
        let next := ie + (m (ie + 1)).toNat + 2
        bcmFindVendorIe m oui type fuel next (len - (next - parse))

def bcmFindWpaie (m : Mem) (len : Nat) : Option Nat := bcmFindVendorIe m wpaOui 1 len 0 len

def wpaFindKde (m : Mem) (len : Nat) (type : UInt8) : Option Nat :=
  bcmFindVendorIe m wpa2Oui type len 0 len

def bcmValidTlv (m : Mem) (len : Nat) : Bool := 2 ≤ len && 2 + (m 1).toNat ≤ len

/-- An element found by `bcm_parse_tlvs` lies inside the bytes that were walked. -/
theorem bcmParseTlvs_fits {m : Mem} {key : UInt8} {fuel off totlen ie : Nat}
    (h : bcmParseTlvs m key fuel off totlen = some ie) :
    off ≤ ie ∧ ie + (m (ie + 1)).toNat + 2 ≤ off + totlen := by
  induction fuel generalizing off totlen with
  | zero => simp [bcmParseTlvs] at h
  | succ fuel ih =>
      unfold bcmParseTlvs at h
      split at h
      · cases h
      · dsimp only at h
        split at h
        · rename_i hkey
          cases h
          omega
        · split at h
          · cases h
          · have := ih h
            omega

theorem bcmFindVendorIe_fits {m : Mem} {oui : Bytes} {type : UInt8} {fuel parse len ie : Nat}
    (h : bcmFindVendorIe m oui type fuel parse len = some ie) :
    ie + (m (ie + 1)).toNat + 2 ≤ parse + len := by
  induction fuel generalizing parse len with
  | zero => simp [bcmFindVendorIe] at h
  | succ fuel ih =>
      unfold bcmFindVendorIe at h
      split at h
      · cases h
      · rename_i ie' hie
        have hfit := bcmParseTlvs_fits hie
        dsimp only at h
        split at h
        · cases h
          omega
        · have := ih h
          omega

/-! ## Information elements -/

def wpaAuth2mode (auth : Nat) : Nat :=
  if auth = 0x4 then wpaPsk
  else if auth = 0x2 then wpa
  else if auth = 0x80 then wpa2Psk
  else if auth = 0x40 then wpa2 else radius

/-- `RSN_AKM_PSK` is 2 and `RSN_AKM_UNSPECIFIED` is 1; anything else is `WPA_AUTH_NONE`. -/
def wpaAkm2auth (akm : Nat) : Nat := if akm = 2 then 0x4 else if akm = 1 then 0x2 else 0x1
def wpa2Akm2auth (akm : Nat) : Nat := if akm = 2 then 0x80 else if akm = 1 then 0x40 else 0x1

/-- What the header of a WPA or RSN element decides: the offset of the multicast suite, the
OUI of its suites and the meaning of its AKM numbers. -/
structure IeHeader where
  suites : Nat
  oui : Bytes
  akm2auth : Nat → Nat

/-- The header checks that `wpa_parse_ie`, `wpa_check_ie` and `wpa_find_mckey_algo` share. -/
def wpaIeHeader (ie : Mem) (ieLen : Nat) : Option IeHeader :=
  if !bcmValidTlv ie ieLen then none
  else if ie 0 = dot11MngRsnId then
    if (ie 1).toNat < 2 then none
    else if ie.le16 2 ≠ 1 then none
    else some ⟨4, wpa2Oui, wpa2Akm2auth⟩
  else if ie 0 = dot11MngWpaId then
    if (ie 1).toNat < 6 then none
    else if ie.slice 2 4 ≠ wpaOui ++ [1] then none
    else if ie.le16 6 ≠ 1 then none
    else some ⟨8, wpaOui, wpaAkm2auth⟩
  else none

theorem wpaIeHeader_suites_le {ie : Mem} {ieLen : Nat} {h : IeHeader}
    (hh : wpaIeHeader ie ieLen = some h) :
    h.suites ≤ ieLen ∧ 2 ≤ ieLen := by
  unfold wpaIeHeader bcmValidTlv at hh
  split_ifs at hh
  all_goals
    cases hh
    simp at *
    omega

/-- What `wpa_parse_ie` reports: the ciphers, the mode, whether the AKM suite was recognised
(then `key_auth_type` is set), the capabilities, and the PMKID verdict (`0`: none in the
element, `-1`: none matches, `1`: the cached one is listed). -/
structure ParsedIe where
  wsec : Nat
  mode : Nat
  akm : Bool
  cap : UInt8 × UInt8
  pmkc : Int
  deriving DecidableEq, Repr

/-- One of the `count` PMKIDs from `off` on equals the cached one. -/
def pmkidListed (ie : Mem) (pmkid : Bytes) (off : Nat) : Nat → Int → Bool
  | 0, _ => false
  | count + 1, len =>
    if len < 16 then false
    else if ie.slice off 16 = pmkid then true
    else pmkidListed ie pmkid (off + 16) count (len - 16)

/-- `wpa_parse_ie`. `sta` is the station's cached PMKID, or `none` where the caller passes a
null station. The remaining length is a signed number that may fall below zero, as in the
source; the offsets do not depend on it. -/
def wpaParseIe (ie : Mem) (ieLen : Nat) (sta : Option Bytes) : Option ParsedIe := do
  let h ← wpaIeHeader ie ieLen
  let mcast := h.suites
  let len : Int := (ieLen : Int) - h.suites
  let suite := fun off => ie.slice off 3 = h.oui
  let type := fun off => (ie (off + 3)).toNat
  let wsec := if 4 ≤ len ∧ suite mcast then wpaCipher2wsec (type mcast) else 0
  let len := if 4 ≤ len then len - 4 else len
  let ucast := mcast + 4
  if 2 ≤ len ∧ ie.le16 ucast ≠ 1 then none
  let wsec := if 2 ≤ len ∧ suite (ucast + 2) then wsec ||| wpaCipher2wsec (type (ucast + 2))
    else wsec
  let len := if 2 ≤ len then len - 6 else len
  let mgmt := ucast + 6
  if 2 ≤ len ∧ ie.le16 mgmt ≠ 1 then none
  let akm := decide (2 ≤ len ∧ suite (mgmt + 2))
  let mode := if akm then wpaAuth2mode (h.akm2auth (type (mgmt + 2))) else 0
  let len := if 2 ≤ len then len - 6 else len
  let cap := mgmt + 6
  let caps := if 2 ≤ len then (ie cap, ie (cap + 1)) else (0, 0)
  let len := if 2 ≤ len then len - 2 else len
  match sta with
  | none => pure ⟨wsec, mode, akm, caps, 0⟩
  | some pmkid =>
    if ie 0 = dot11MngRsnId ∧ 2 ≤ len ∧ mode = wpa2 then
      let found := pmkidListed ie pmkid (cap + 4) (ie.le16 (cap + 2)) (len - 2)
      pure ⟨wsec, mode, akm, caps, if found then 1 else -1⟩
    else pure ⟨wsec, mode, akm, caps, 0⟩

/-- `wpa_find_mckey_algo`. -/
def wpaFindMckeyAlgo (ie : Mem) (ieLen : Nat) : Option Nat := do
  let h ← wpaIeHeader ie ieLen
  if 4 ≤ (ieLen : Int) - h.suites ∧ ie.slice h.suites 3 = h.oui then
    pure (wpaCipher2algo (ie (h.suites + 3)).toNat)
  else pure cryptoAlgoOff

end BroadcomWl.Nas
