import Mathlib
import BroadcomWl.Lib.Wp
import BroadcomWl.Nas.Proto

/-!
# The state of one `nas` instance

The records of `wpa.h` and `nas.h`, flattened where the source nests them only for reasons of
memory: a station (`nas_sta_t` with its `wpa_suppl_t`), and the instance with its
authenticator struct (`nas_t` with its `wpa_t`).

**Effects.** What the program does to the outside (driver ioctls, frames sent, packets to the
RADIUS server) is appended to a log, newest first. What the outside answers (return codes of
the driver, random numbers, timer creation) comes from a `Driver`, one answer per call; the
field `calls` counts them, so that a `Driver` is an arbitrary sequence of answers.

**Stopping.** `nas_handle_error` resets the board, and a copy past the end of an array leaves
the behaviour undefined. Both end a computation with a `Stop`; nothing is claimed about what
comes after.

**Cryptography.** The model is parametric in the primitives of `bcmcrypto`. The theorems hold
for every choice; `BroadcomWl.Crypto` defines the real ones.
-/

namespace BroadcomWl.Nas

open BroadcomWl.Lib

/-! ## Enumerations -/

/-- `wpa_suppl_state_t`. -/
inductive WpaState
  | disconnect | disconnected | initialise | authentication2 | initpmk | initpsk
  | ptkstart | ptkinitnegotiating | ptkinitdone | updatekeys | integrityfailure | keyupdate
  | rekeynegotiating | keyerrror | rekeyestablished | setkeys | setkeysdone
  | supDisconnected | supInitialise | supAuthentication | supStakeystartp | supStakeystartg
  | supKeyupdate
  deriving DecidableEq, Repr

/-- `eapol_sup_pk_state_t`, the supplicant's progress in the 4-way handshake. -/
inductive PkState
  | error | unknown | micok | micfailed | msg1 | msg3 | done
  deriving DecidableEq, Repr

/-- `pae_state_t`. -/
inductive PaeState
  | initialise | disconnected | connecting | authenticating | aborting | held | authenticated
  deriving DecidableEq, Repr

inductive ItimerStatus
  | ok | createError | connectError | setError
  deriving DecidableEq, Repr

/-- `NAS_FLAG_AUTHENTICATOR` and `NAS_FLAG_SUPPLICANT` are exclusive. -/
inductive Role
  | authenticator | supplicant
  deriving DecidableEq, Repr

theorem Role.authenticator_of_ne {r : Role} (h : r ≠ .supplicant) : r = .authenticator := by
  cases r with
  | authenticator => rfl
  | supplicant => exact absurd rfl h

inductive WnmKind
  | deauthImminent | subscriptionRemediation | bssTransition
  deriving DecidableEq, Repr

/-- Why a computation did not return. -/
inductive Stop
  /-- `nas_handle_error`: the board is reset. -/
  | reset
  /-- A write outside of an object. -/
  | fault
  deriving DecidableEq, Repr

/-! ## Stations -/

/-- The number of station slots. -/
def maxSupplicants : Nat := 128

abbrev Slot := Fin maxSupplicants

theorem maxSupplicants_pos : 0 < maxSupplicants := by decide

/-- The 802.1x port entity of a station. `request` holds the identifier of the last RADIUS
request, if it is still kept. -/
structure Pae where
  state : PaeState
  id : Nat
  username : Bytes
  radiusState : Bytes
  request : Option Nat
  /-- `PAE_FLAG_EAP_SUCCESS`. -/
  eapSuccess : Bool
  ssnto : Nat
  deriving DecidableEq, Repr

/-- A station: `nas_sta_t` together with its `wpa_suppl_t`. The 64 octets from
`eapol_mic_key` to `temp_rx_key` are one array in the source and one list `ptk` here; a key or
an element that the source keeps as a buffer and a length is a list. -/
structure Sta where
  used : Bool
  retries : Nat
  ea : Bytes
  lastUse : Nat
  /-- The retransmission timer; every armed timer has a number of its own. -/
  td : Option Nat
  /-- `retx_exceed_hndlr` is set, to `wpa_goto_rekeyneg`: no other handler exists. -/
  retxExceedHndlr : Bool
  wdsTd : Option Nat
  pae : Pae
  mode : Nat
  wsec : Nat
  algo : Nat
  /-- `STA_FLAG_PRE_AUTH`. -/
  preAuth : Bool
  wpaMsgTimeoutS : Nat
  wpaMsgTimeoutMs : Nat
  listenIntervalMs : Nat
  rxauths : Nat
  txWhen : Nat
  authWhile : Nat
  quietWhile : Nat
  eapolVersion : UInt8
  /-- `key_auth_type` is `KEYAUTH_SHA1`; no other value is compiled in. -/
  keyAuthSha1 : Bool
  cap : UInt8 × UInt8
  micFailures : Nat
  prevMicError : Nat
  assocWpaie : Bytes
  state : WpaState
  retryState : WpaState
  pmk : Bytes
  pmkid : Bytes
  ptkLen : Nat
  tkLen : Nat
  desc : Nat
  anonce : Bytes
  snonce : Bytes
  replay : Bytes
  ptk : Bytes
  pkState : PkState
  eapolTempPtk : Bytes
  deriving DecidableEq, Repr

namespace Sta

/-- A station struct of zero octets. -/
def zero : Sta where
  used := false
  retries := 0
  ea := List.replicate 6 0
  lastUse := 0
  td := none
  retxExceedHndlr := false
  wdsTd := none
  pae := ⟨.initialise, 0, [], [], none, false, 0⟩
  mode := 0
  wsec := 0
  algo := 0
  preAuth := false
  wpaMsgTimeoutS := 0
  wpaMsgTimeoutMs := 0
  listenIntervalMs := 0
  rxauths := 0
  txWhen := 0
  authWhile := 0
  quietWhile := 0
  eapolVersion := 0
  keyAuthSha1 := false
  cap := (0, 0)
  micFailures := 0
  prevMicError := 0
  assocWpaie := []
  state := .disconnect
  retryState := .disconnect
  pmk := []
  pmkid := List.replicate 16 0
  ptkLen := 0
  tkLen := 0
  desc := 0
  anonce := List.replicate 32 0
  snonce := List.replicate 32 0
  replay := List.replicate 8 0
  ptk := List.replicate 64 0
  pkState := .error
  eapolTempPtk := List.replicate 32 0

def micKey (s : Sta) : Bytes := s.ptk.take 16
def encrKey (s : Sta) : Bytes := (s.ptk.drop 16).take 16
/-- The temporal key: `tk_len` octets from `temp_encr_key` on. -/
def tempKey (s : Sta) : Bytes := (s.ptk.drop 32).take s.tkLen

end Sta

/-! ## The outside world -/

/-- The arguments of `nas_set_key`. -/
structure KeyArgs where
  ea : Option Bytes
  key : Bytes
  index : Nat
  tx : Bool
  rsc : Bytes
  force : Bool
  deriving DecidableEq, Repr

/-- What the program does to the outside. -/
inductive Out
  | authorize (ea : Bytes)
  | deauthorize (ea : Bytes)
  | deauthenticate (ea : Bytes) (reason : Nat)
  | setKey (a : KeyArgs) (ret : Int)
  /-- An EAPOL-Key frame for the station in a slot, with the group key that its key data
  carries in the clear before encryption, if it carries one. -/
  | send (i : Slot) (ea : Bytes) (k : KeyFrame) (gtk : Option (Bytes × Nat))
  /-- A canned EAP packet. -/
  | eap (ea : Bytes) (preauth : Bool) (code type : UInt8) (id : Nat)
  /-- An EAP packet of the RADIUS server, relayed to the station: the length field of the EAPOL
  header, and the body. -/
  | relay (ea : Bytes) (preauth : Bool) (length : Nat) (eap : Bytes)
  /-- An RC4 EAPOL-Key frame of the 802.1x mode. -/
  | rc4Key (ea : Bytes) (key : Bytes) (index : Nat) (unicast : Bool)
  /-- An Access-Request with the user name, the server state and an EAP packet. -/
  | radiusForward (i : Slot) (username state eap : Bytes)
  | brcmEvent (ea : Bytes) (reason : Nat)
  /-- A Passpoint notification: deauthentication imminent, subscription remediation or BSS
  transition. -/
  | wnm (ea : Bytes) (kind : WnmKind)
  | tkipCountermeasures (enable : Bool)
  | micFailureReport (ea : Bytes) (k : KeyFrame)
  | disassoc
  /-- A slot was initialised for a new station (`lookup_sta`). -/
  | init (i : Slot) (ea : Bytes)
  /-- A slot was given up (`toss_sta`). -/
  | toss (i : Slot) (ea : Bytes)
  /-- `n` octets were copied into `assoc_wpaie`. -/
  | saveIe (i : Slot) (n : Nat)
  /-- A RADIUS Accept delivered this PMK for the station. -/
  | pmk (ea : Bytes) (key : Bytes)
  /-- A nonce was taken from the global key counter, for the station in a slot or for the group
  key. -/
  | draw (user : Option Slot) (nonce : Bytes)
  /-- The global key counter has gone through all its values and was initialised again. -/
  | reseed (gkc : Bytes)
  /-- The key data of a message was encrypted, in this descriptor version, under this key and IV. -/
  | encrypt (ea : Bytes) (desc : Nat) (key iv data : Bytes)
  deriving DecidableEq, Repr

/-- The primitives of `bcmcrypto` that `nas` calls. `rc4` is the RC4 stream with its first 256
octets dropped; `aesWrap` and `aesUnwrap` are `none` where the C functions return an error.
`fPRF` fills at least the octets it is asked for. -/
structure Crypto where
  hmacMd5 : Bytes → Bytes → Bytes
  hmacSha1 : Bytes → Bytes → Bytes
  fPRF : Bytes → Bytes → Bytes → Nat → Bytes
  rc4 : Bytes → Bytes → Bytes
  aesWrap : Bytes → Bytes → Option Bytes
  aesUnwrap : Bytes → Bytes → Option Bytes
  le_fPRF_length : ∀ key label data len, len ≤ (fPRF key label data len).length

/-- The answers of the driver, the timer module and the random source, one per call. -/
structure Driver where
  setKey : Nat → KeyArgs → Int
  groupRsc : Nat → Option Bytes
  wpaIe : Nat → Option Mem
  listenInterval : Nat → Nat
  wpaCap : Nat → Option (UInt8 × UInt8)
  itimer : Nat → ItimerStatus
  rand128 : Nat → Bytes
  radiusSend : Nat → Bool
  assocReqIes : Nat → Option Mem
  rand128_length : ∀ n, (rand128 n).length = 16

/-- The configuration of an instance, as `nas_init_nas` leaves it. Of an instance that it flags as
erroneous, the mode may be an unsupported one, or a PSK mode without a PMK; a static WEP key has 5
or 13 octets, or is ignored. -/
structure Config where
  role : Role
  wds : Bool
  mode : Nat
  wsec : Nat
  ea : Bytes
  /-- `wds remote address`. -/
  remote : Bytes
  /-- `wpa->pmk`, derived from the pre-shared key; empty where there is none. -/
  pmk : Bytes
  /-- The configured key index plus one; zero if none is configured. -/
  index : Nat
  /-- A static WEP key, which `wlconf` has already given to the driver. -/
  wepKey : Option Bytes
  gtkRekeySecs : Nat
  ssnTo : Nat
  disablePreauth : Bool
  wep_ok : ∀ key, wepKey = some key → key.length = wep1KeySize ∨ key.length = wep128KeySize

/-- Everything an instance is parametric in. -/
structure Ctx where
  crypto : Crypto
  cfg : Config
  drv : Driver

/-- Passpoint notifications requested by the RADIUS server and not yet sent
(`m_deauth_params`, `m_subrem_params`, `m_bsstran_params`). -/
structure WnmParams where
  deauthReq : Bool
  subremReq : Bool
  bsstranReq : Bool
  deriving DecidableEq, Repr

/-- The mutable state of an instance: `nas_t` with its `wpa_t`, the clock, and the log. -/
structure World where
  now : Nat
  calls : Nat
  halted : Bool
  log : List Out
  sta : Slot → Sta
  /-- The hash chains, as lists of slots. -/
  staHashed : Slot → List Slot
  /-- `NAS_FLAG_GTK_PLUMBED`. -/
  gtkPlumbed : Bool
  micFailures : Nat
  micCountermeasures : Bool
  prevMicError : Nat
  wnm : WnmParams
  globalKeyCounter : Bytes
  initialGkc : Bytes
  gmk : Bytes
  gtk : Bytes
  gtkLen : Nat
  gtkIndex : Nat
  gtkRsc : Bytes
  gnonce : Bytes
  gtkRekeyTimer : Option Nat
  ptkRekeySecs : Nat
  ptkRekeyTimer : Option Nat
  countermeasuresTimer : Option Nat
  cap : UInt8 × UInt8

/-- A function of `nas`. -/
abbrev NasM := EStateM Stop World

/-! ## Primitive operations -/

namespace World

def updSta (w : World) (i : Slot) (f : Sta → Sta) : World :=
  { w with sta := Function.update w.sta i (f (w.sta i)) }

def setChain (w : World) (h : Slot) (l : List Slot) : World :=
  { w with staHashed := Function.update w.staHashed h l }

def out (w : World) (o : Out) : World := { w with log := o :: w.log }

def call (w : World) : World := { w with calls := w.calls + 1 }

/-- The group key as it would be sent: its value and its index. -/
def groupKey (w : World) : Bytes × Nat := (w.gtk.take w.gtkLen, w.gtkIndex)

@[simp] theorem updSta_same (w : World) (i : Slot) (f : Sta → Sta) :
    (w.updSta i f).sta i = f (w.sta i) := by simp [updSta]

@[simp] theorem out_sta (w : World) (o : Out) : (w.out o).sta = w.sta := rfl

@[simp] theorem call_sta (w : World) : w.call.sta = w.sta := rfl

@[simp] theorem setChain_sta (w : World) (h : Slot) (l : List Slot) :
    (w.setChain h l).sta = w.sta := rfl

@[simp] theorem updSta_ne (w : World) {i j : Slot} (h : j ≠ i) (f : Sta → Sta) :
    (w.updSta i f).sta j = w.sta j := by simp [updSta, h]

end World

def getSta (i : Slot) : NasM Sta := do return (← get).sta i

def modSta (i : Slot) (f : Sta → Sta) : NasM Unit := modify fun w => w.updSta i f

def emit (o : Out) : NasM Unit := modify fun w => w.out o

/-- One call to the outside: its answer is the next of the sequence. -/
def oracle {α : Type} (answers : Nat → α) : NasM α := do
  let w ← get
  set w.call
  return answers w.calls

/-- `nas_handle_error`. -/
def nasHandleError {α : Type} : NasM α := throw .reset

section Wp

variable {E : Stop → World → Prop} {w : World}

@[simp] theorem wp_getSta {Q : Sta → World → Prop} (i : Slot) :
    wp (getSta i) Q E w ↔ Q (w.sta i) w := Iff.rfl

@[simp] theorem wp_modSta {Q : Unit → World → Prop} (i : Slot) (f : Sta → Sta) :
    wp (modSta i f) Q E w ↔ Q () (w.updSta i f) := Iff.rfl

@[simp] theorem wp_emit {Q : Unit → World → Prop} (o : Out) :
    wp (emit o) Q E w ↔ Q () (w.out o) := Iff.rfl

@[simp] theorem wp_oracle {α : Type} {Q : α → World → Prop} (answers : Nat → α) :
    wp (oracle answers) Q E w ↔ Q (answers w.calls) w.call := Iff.rfl

@[simp] theorem wp_nasHandleError {α : Type} {Q : α → World → Prop} :
    wp nasHandleError Q E w ↔ E .reset w := Iff.rfl

end Wp

end BroadcomWl.Nas
