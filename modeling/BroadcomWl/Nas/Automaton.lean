import BroadcomWl.Nas.Guards

/-!
# The authenticator as an automaton

An abstract view of an instance: of each station, what the key exchange depends on (`Core`);
the group key; and the part of the log that properties speak about. `AStep` lists everything
that can happen to this view, in steps that are atomic for the key exchange: sending a message
goes together with the change of state and the arming of the timer.

The relation is indexed by the event that is being processed and by the world before it, so
that a step can say under which circumstances it is taken (`BroadcomWl.Nas.Guards`). The order
of the steps in one event is not described, and values that no property depends on (nonces,
timer numbers, key data) are arbitrary.

`BroadcomWl.Nas.Refine` shows that every event of the model is a sequence of such steps. The
invariants of the automaton are then invariants of the program.
-/

namespace BroadcomWl.Nas

open BroadcomWl.Lib

/-! ## The abstract state -/

/-- What the key exchange depends on of a station. -/
structure Core where
  used : Bool
  ea : Bytes
  td : Option Nat
  hndlr : Bool
  wdsTd : Option Nat
  mode : Nat
  wsec : Nat
  state : WpaState
  retryState : WpaState
  pmk : Bytes
  ptkLen : Nat
  tkLen : Nat
  desc : Nat
  anonce : Bytes
  replay : Bytes
  ptk : Bytes
  ieLen : Nat

def Sta.core (s : Sta) : Core where
  used := s.used
  ea := s.ea
  td := s.td
  hndlr := s.retxExceedHndlr
  wdsTd := s.wdsTd
  mode := s.mode
  wsec := s.wsec
  state := s.state
  retryState := s.retryState
  pmk := s.pmk
  ptkLen := s.ptkLen
  tkLen := s.tkLen
  desc := s.desc
  anonce := s.anonce
  replay := s.replay
  ptk := s.ptk
  ieLen := s.assocWpaie.length

/-- A station that has just been entered: the mode is empty, or RADIUS where the configuration
says so. -/
theorem newSta_core (c : Ctx) (ea : Bytes) (now : Nat) : ∃ mode wsec state,
    (mode = 0 ∨ (mode = radius ∧ has c.cfg.mode radius = true))
    ∧ (state = .authentication2 ∨ state = .supAuthentication)
    ∧ (newSta c ea now).core = { Sta.zero.core with
      used := true, ea := ea, mode := mode, wsec := wsec
      state := state, retryState := state } := by
  unfold newSta
  cases c.cfg.role with
  | authenticator =>
      by_cases h : (has c.cfg.mode radius && has c.cfg.wsec wepEnabled) = true
      · refine ⟨radius, wepEnabled, .authentication2, .inr ⟨rfl, ?_⟩, .inl rfl, ?_⟩
        · simp only [Bool.and_eq_true] at h
          exact h.1
        · simp only [h, if_true]
          rfl
      · exact ⟨0, 0, .authentication2, .inl rfl, .inl rfl, by simp only [h]; rfl⟩
  | supplicant =>
      by_cases h : (has c.cfg.mode radius && has c.cfg.wsec wepEnabled) = true
      · refine ⟨radius, wepEnabled, .supAuthentication, .inr ⟨rfl, ?_⟩, .inr rfl, ?_⟩
        · simp only [Bool.and_eq_true] at h
          exact h.1
        · simp only [h, if_true]
          rfl
      · exact ⟨0, 0, .supAuthentication, .inl rfl, .inr rfl, by simp only [h]; rfl⟩

/-- The effects that properties of the automaton speak about. -/
def Out.visible : Out → Bool
  | .authorize _ | .send .. | .init .. | .saveIe .. | .pmk .. => true
  | .setKey a _ => a.ea.isNone
  | .deauthorize _ | .deauthenticate .. | .eap .. | .relay .. | .rc4Key .. | .radiusForward ..
  | .brcmEvent .. | .wnm .. | .tkipCountermeasures _ | .micFailureReport .. | .disassoc
  | .toss .. | .draw .. | .reseed _ | .encrypt .. => false

/-- The abstract state. `fits` says that the group key has the length it is said to have;
`rekeying` is set while a new group key is being sent to the stations that hold keys. -/
structure Abs where
  sta : Slot → Core
  gtk : Bytes × Nat
  fits : Bool
  plumbed : Bool
  rekeying : Bool
  log : List Out
  halted : Bool

namespace Abs

/-- The station in a slot changes, with visible effects. -/
def put (a : Abs) (i : Slot) (k : Core) (outs : List Out) : Abs :=
  { a with sta := Function.update a.sta i k, log := outs ++ a.log }

/-- A visible effect that belongs to no change of a station. -/
def emit (a : Abs) (o : Out) : Abs := { a with log := o :: a.log }

/-- Apart from the saved elements and the log, nothing is known of a halted instance. -/
def HaltsAs (a a' : Abs) : Prop :=
  a'.halted = true ∧ a'.log = a.log ∧ ∀ j, (a'.sta j).ieLen = (a.sta j).ieLen

end Abs

/-- The abstract state of a world; `r` tells whether a group rekey is under way. -/
def abs (r : Bool) (w : World) : Abs where
  sta := fun i => (w.sta i).core
  gtk := w.groupKey
  fits := decide (w.gtkLen ≤ w.gtk.length)
  plumbed := w.gtkPlumbed
  rekeying := r
  log := w.log.filter Out.visible
  halted := w.halted

/-! ## Classes of states -/

/-- A reply of the station is awaited. -/
def WpaState.waiting : WpaState → Bool
  | .ptkinitnegotiating | .ptkinitdone | .rekeynegotiating => true
  | _ => false

/-- A handshake is in progress or complete. -/
def WpaState.busy : WpaState → Bool
  | .setkeysdone => true
  | s => s.waiting

/-- The states in which `wpa_send_eapol` of an authenticator sends a message. -/
def WpaState.sends : WpaState → Bool
  | .ptkstart | .ptkinitnegotiating | .rekeynegotiating => true
  | _ => false

theorem WpaState.busy_of_waiting {s : WpaState} (h : s.waiting = true) : s.busy = true := by
  cases s <;> first | rfl | cases h

/-- The frames sent to the station in a slot since the slot was initialised, newest first. -/
def framesSince (i : Slot) : List Out → List KeyFrame
  | [] => []
  | .send j _ k _ :: l => if j = i then k :: framesSince i l else framesSince i l
  | .init j _ :: l => if j = i then [] else framesSince i l
  | _ :: l => framesSince i l

theorem framesSince_visible (i : Slot) (l : List Out) :
    framesSince i (l.filter Out.visible) = framesSince i l := by
  induction l with
  | nil => rfl
  | cons o l ih =>
      cases h : o.visible with
      | true =>
          rw [List.filter_cons_of_pos h]
          cases o with
          | send j ea k gtk => simp only [framesSince, ih]
          | init j ea => simp only [framesSince, ih]
          | _ => exact ih
      | false =>
          rw [List.filter_cons_of_neg (by simp [h])]
          cases o with
          | send j ea k gtk => cases h
          | init j ea => cases h
          | _ => exact ih

/-- Message 1 may be sent: the event asks for it, and nothing has been sent to the station while
the event is processed; or nothing has been sent since the slot was initialised. -/
def MayStart (c : Ctx) (ev : Event) (w0 : World) (i : Slot) (l : List Out) : Prop :=
  (startsM1 c ev w0 i ∧ framesSince i l = framesSince i w0.log) ∨ framesSince i l = []

theorem MayStart.congr {c : Ctx} {ev : Event} {w0 : World} {i : Slot} {l l' : List Out}
    (h : MayStart c ev w0 i l) (hl : framesSince i l' = framesSince i l) :
    MayStart c ev w0 i l' := by
  unfold MayStart
  rwa [hl]

/-- A timer that is set as far as the timer module works. -/
def Armed (c : Ctx) (td : Option Nat) : Prop := (∀ n, c.drv.itimer n = .ok) → td.isSome = true

/-- The driver accepts every group key. -/
def KeysTaken (c : Ctx) : Prop := ∀ n a, a.ea = none → 0 ≤ c.drv.setKey n a

/-- A group key that is plumbed as far as the driver accepts it. -/
def Plumbed (c : Ctx) (a : Abs) : Prop := KeysTaken c → a.plumbed = true

/-- The group key that a message of this kind carries. -/
def carried (a : Abs) (mode : Nat) : WpaState → Option (Bytes × Nat)
  | .ptkinitnegotiating => if checkWpa2 mode then some a.gtk else none
  | .rekeynegotiating => some a.gtk
  | _ => none

/-! ## Steps of a station -/

section Steps

variable (c : Ctx) (ev : Event) (w0 : World)

/-- The steps of the station in slot `i`: its new core and the effects. -/
inductive Move (a : Abs) (i : Slot) : Core → List Out → Prop
  /-- The slot is taken for a new station. -/
  | init (ea : Bytes) (now : Nat) : Move a i (newSta c ea now).core [.init i ea]
  /-- The station is cleaned up: tossed, kept for its cached PMK, or kept as the peer of a WDS
  link. -/
  | drop (used : Bool) (state : WpaState)
      (hused : used = false ∨ used = (a.sta i).used)
      (hstate : state = (a.sta i).state ∨ state.busy = false)
      (hkept : used = false ∨ state.busy = false ∨ c.cfg.wds = true) :
      Move a i { a.sta i with used := used, state := state, td := none, hndlr := false } []
  /-- A new nonce; message 1 is next. -/
  | restart (nonce : Bytes) (retry : WpaState) :
      Move a i { a.sta i with
        td := none, hndlr := false, anonce := nonce, retryState := retry, state := .ptkstart } []
  /-- An EAPOL-Start. -/
  | start : Move a i { a.sta i with state := .ptkstart, retryState := .ptkstart } []
  /-- A pre-authentication frame, of a new station or of a known one that is not held. -/
  | preauth (f : Frame) (hev : ev = .preauth f) (hon : c.cfg.disablePreauth = false)
      (hold : (w0.find f.shost = none ∧ (a.sta i).state.busy = false ∧ (a.sta i).hndlr = false)
        ∨ (w0.find f.shost = some i ∧ a.sta i = (w0.sta i).core
          ∧ (w0.sta i).pae.state ≠ .held)) :
      Move a i { a.sta i with mode := wpa2 } []
  /-- A station without an element, in a network with WEP. -/
  | wepMode (hwep : wsecWepEnabled c.cfg.wsec = true) (hradius : has c.cfg.mode radius = true) :
      Move a i { a.sta i with mode := radius, wsec := wepEnabled } []
  /-- A station is authorized by WEP, or by RADIUS in the 802.1x mode. -/
  | authorize (hwep : wsecWepEnabled c.cfg.wsec = true ∨ radiusKeys ev w0 i) :
      Move a i (a.sta i) [.authorize (a.sta i).ea]
  /-- The element in the frame or the event is about to be saved. -/
  | save (n : Nat) (hn : n ≤ maxWpaIe ∨ saves c ev w0 i n) : Move a i (a.sta i) [.saveIe i n]
  | setIe (n : Nat) (hn : n ≤ maxWpaIe) : Move a i { a.sta i with ieLen := n } []
  /-- The station is set up with a mode and a cipher of the configuration. -/
  | setup (mode wsec : Nat) (pmk : Bytes) (hok : supplOk c mode wsec = true)
      (hpmk : pmk = (a.sta i).pmk ∨ (checkPsk mode = true ∧ pmk = c.cfg.pmk))
      (hidle : (a.sta i).hndlr = false ∧ ((a.sta i).used = false ∨ (a.sta i).state.busy = false)) :
      Move a i { a.sta i with
        mode := mode, wsec := wsec, pmk := pmk,
        ptkLen := if wsecAesEnabled wsec then aesPtkLen else tkipPtkLen,
        tkLen := if wsecAesEnabled wsec then aesTkLen else tkipTkLen,
        desc := if wsecAesEnabled wsec then wpaKeyDescV2 else wpaKeyDescV1 } []
  /-- A WDS link gets its pre-shared key before the mode is set. -/
  | wdsPmk (hwds : c.cfg.wds = true) (hpsk : checkPsk c.cfg.mode = true) :
      Move a i { a.sta i with pmk := c.cfg.pmk } []
  /-- Message 1. -/
  | sendM1 (k : KeyFrame) (td : Option Nat) (hstate : (a.sta i).state = .ptkstart)
      (hk : k.replay = (a.sta i).replay) (htd : Armed c td)
      (hstart : MayStart c ev w0 i a.log) :
      Move a i { a.sta i with
        td := td, hndlr := false, retryState := .ptkstart, state := .ptkinitnegotiating }
        [.send i (a.sta i).ea k none]
  /-- Message 2 with a wrong MIC: the PTK has been computed all the same. -/
  | badM2 (ptk : Bytes) (td : Option Nat) (hstate : (a.sta i).state = .ptkinitnegotiating)
      (htd : Armed c td) :
      Move a i { a.sta i with ptk := ptk, td := td, hndlr := false } []
  /-- Message 2 with a valid MIC: message 3 is sent. -/
  | goodM2 (f : Frame) (k : KeyFrame) (td : Option Nat) (hev : ev = .eapol f)
      (hold : delivered w0 f i = true ∧ a.sta i = (w0.sta i).core)
      (hstate : (a.sta i).state = .ptkinitnegotiating)
      (hflags : m2Flags f = true) (hreplay : f.replay = (a.sta i).replay)
      (hdesc : checkWpa2 (a.sta i).mode = true → (a.sta i).desc ≠ 0)
      (hlen : (a.sta i).ptkLen ≤ tkipPtkLen)
      (hplumbed : checkWpa2 (a.sta i).mode = true → Plumbed c a)
      (hk : k.replay = incr (a.sta i).replay) (htd : Armed c td) :
      Move a i { a.sta i with
        ptk := calcPtk c.crypto (a.sta i).pmk c.cfg.ea (a.sta i).ea (a.sta i).anonce f.nonce
          (a.sta i).ptkLen ++ (a.sta i).ptk.drop (a.sta i).ptkLen,
        replay := incr (a.sta i).replay, td := td,
        hndlr := has (a.sta i).mode (wpa ||| wpaPsk),
        retryState := .ptkinitnegotiating, state := .ptkinitdone }
        [.send i (a.sta i).ea k (carried a (a.sta i).mode .ptkinitnegotiating)]
  /-- The pairwise key is plumbed, and the station is authorized. -/
  | pairwiseDone (hold : a.sta i = (w0.sta i).core)
      (hwhy : ((a.sta i).state = .ptkinitdone ∧ Verified c ev w0 i)
        ∨ (ev = .retxTimer i ∧ exhausted c w0 i = true))
      (hmode : c.cfg.wds = true ∨ checkWpa2 (a.sta i).mode = true) :
      Move a i { a.sta i with
        td := none, hndlr := false, wdsTd := none,
        retryState := .setkeysdone, state := .setkeysdone }
        [.authorize (a.sta i).ea]
  /-- The pairwise key is plumbed, and the group key is sent. -/
  | groupStart (k : KeyFrame) (td : Option Nat) (hold : a.sta i = (w0.sta i).core)
      (hwhy : ((a.sta i).state = .ptkinitdone ∧ Verified c ev w0 i ∧ Armed c td)
        ∨ (ev = .retxTimer i ∧ exhausted c w0 i = true))
      (hmode : c.cfg.wds = false ∧ checkWpa2 (a.sta i).mode = false) (hplumbed : Plumbed c a)
      (hk : k.replay = incr (a.sta i).replay) :
      Move a i { a.sta i with
        td := td, hndlr := false, replay := incr (a.sta i).replay,
        retryState := .rekeynegotiating, state := .rekeynegotiating }
        [.send i (a.sta i).ea k (carried a (a.sta i).mode .rekeynegotiating)]
  /-- The reply to a group key message. -/
  | groupDone (hold : a.sta i = (w0.sta i).core) (hstate : (a.sta i).state = .rekeynegotiating)
      (hver : Verified c ev w0 i) :
      Move a i { a.sta i with
        td := none, hndlr := false, retryState := .setkeysdone, state := .setkeysdone }
        [.authorize (a.sta i).ea]
  /-- The new group key is sent to a station that holds keys. -/
  | rekeySend (k : KeyFrame) (td : Option Nat) (hstate : (a.sta i).state = .setkeysdone)
      (hrk : a.rekeying = true) (hk : k.replay = incr (a.sta i).replay) (htd : Armed c td) :
      Move a i { a.sta i with
        td := td, hndlr := false, replay := incr (a.sta i).replay,
        retryState := .rekeynegotiating, state := .rekeynegotiating }
        [.send i (a.sta i).ea k (carried a (a.sta i).mode .rekeynegotiating)]
  /-- A retransmission. -/
  | retx (k : KeyFrame) (htd : (a.sta i).td.isSome = true)
      (hk : k.replay = incr (a.sta i).replay) :
      Move a i { a.sta i with replay := incr (a.sta i).replay }
        [.send i (a.sta i).ea k (carried a (a.sta i).mode (a.sta i).retryState)]
  /-- A retransmission in a state in which there is nothing to send. -/
  | retxNothing (htd : (a.sta i).td.isSome = true)
      (hsends : (a.sta i).retryState.sends = false) :
      Move a i { a.sta i with replay := incr (a.sta i).replay, td := none, hndlr := false } []
  /-- The timer is stopped because nothing is awaited, or on a WDS link. -/
  | stop (h : (a.sta i).state.waiting = false ∨ c.cfg.wds = true
      ∨ (a.sta i).wdsTd.isSome = true) :
      Move a i { a.sta i with td := none, hndlr := false } []
  /-- A RADIUS Accept brings a PMK. -/
  | pmk (pmk : Bytes) : Move a i { a.sta i with pmk := pmk } [.pmk (a.sta i).ea pmk]
  | wdsTimer (td : Option Nat) (h : c.cfg.wds = true) : Move a i { a.sta i with wdsTd := td } []

/-! ## Steps of the instance -/

/-- The arguments with which a group key is plumbed. -/
def groupArgs (gtk : Bytes × Nat) (tx : Bool) (rsc : Bytes) : KeyArgs :=
  ⟨none, gtk.1, gtk.2, tx, rsc, false⟩

/-- The group key is given to the driver, whose answer is the `n`-th of the sequence. -/
def Abs.plumb (a : Abs) (n : Nat) (tx : Bool) (rsc : Bytes) : Abs :=
  let ret := c.drv.setKey n (groupArgs a.gtk tx rsc)
  { a with
    plumbed := a.plumbed || decide (0 ≤ ret)
    log := .setKey (groupArgs a.gtk tx rsc) ret :: a.log }

/-- The saving of an element. -/
def Out.isSave : Out → Bool
  | .saveIe .. => true
  | _ => false

/-- The steps of an instance. -/
inductive AStep : Abs → Abs → Prop
  | move {a : Abs} (i : Slot) {k : Core} {outs : List Out} (h : Move c ev w0 a i k outs) :
      AStep a (a.put i k outs)
  /-- There is no group key yet: one is made and plumbed. -/
  | gtkInit {a : Abs} (gtk : Bytes × Nat) (fits : Bool) (n : Nat) (rsc : Bytes)
      (hplumbed : a.plumbed = false) (hfits : a.fits = true → fits = true) :
      AStep a ({ a with gtk := gtk, fits := fits }.plumb c n true rsc)
  /-- A station holds keys, and a new group key is made and plumbed, not yet for sending. -/
  | gtkNew {a : Abs} (gtk : Bytes × Nat) (fits : Bool) (n : Nat) (rsc : Bytes)
      (hev : rekeys c ev w0) (hold : ∀ j, a.sta j = (w0.sta j).core)
      (hone : ∃ j, (a.sta j).used = true ∧ (a.sta j).state = .setkeysdone)
      (hfits : a.fits = true → fits = true) :
      AStep a ({ a with gtk := gtk, fits := fits, rekeying := true }.plumb c n false rsc)
  /-- All stations that held keys have been sent the new one: it is used for sending. -/
  | gtkDone {a : Abs} (n : Nat) (rsc : Bytes)
      (hall : ∀ j, (a.sta j).used = true → (a.sta j).state ≠ .setkeysdone) :
      AStep a ({ a with rekeying := false }.plumb c n true rsc)
  /-- The key wrap pads a group key that is shorter than its length says. -/
  | gtkPad {a : Abs} (gtk : Bytes × Nat) (fits : Bool) (h : a.fits = false) :
      AStep a { a with gtk := gtk, fits := fits }
  /-- The link goes down: the group key counts as not plumbed. -/
  | linkDown {a : Abs} (m : DrvMsg) (hev : ev = .link m) (hwds : c.cfg.wds = false)
      (hwep : wsecWepEnabled c.cfg.wsec = false) (hflag : has m.flags eventMsgLink = false)
      (hold : ∀ j, a.sta j = (w0.sta j).core) :
      AStep a { a with plumbed := false }
  /-- Countermeasures: all stations have been cleaned up, and the group keys are removed. -/
  | clobber {a : Abs} (r r' : Int)
      (hall : ∀ j, (a.sta j).used = true →
        (a.sta j).state.busy = false ∧ (a.sta j).hndlr = false) :
      AStep a { a with
        plumbed := false
        log := .setKey (KeyArgs.clear none (gtkNextIndex a.gtk.2)) r'
          :: .setKey (KeyArgs.clear none a.gtk.2) r :: a.log }
  /-- Whatever a supplicant does, it does not save elements except on association. -/
  | supplicant {a : Abs} (a' : Abs) (hrole : c.cfg.role = .supplicant)
      (hlog : a'.log.filter Out.isSave = a.log.filter Out.isSave)
      (hie : ∀ j, (a'.sta j).ieLen ≤ (a.sta j).ieLen ∨ (a'.sta j).ieLen ≤ maxWpaIe) :
      AStep a a'

/-- Sequences of steps. -/
abbrev Reach : Abs → Abs → Prop := Relation.ReflTransGen (AStep c ev w0)

/-! ## Inversion -/

/-- A step that concerns the group key only. -/
structure KeyStep (a b : Abs) : Prop where
  sta : b.sta = a.sta
  halted : b.halted = a.halted
  log : ∃ outs, b.log = outs ++ a.log ∧ ∀ o ∈ outs, ∃ args ret, o = .setKey args ret

/-- What a supplicant may do. -/
structure SupplicantStep (a b : Abs) : Prop where
  role : c.cfg.role = .supplicant
  log : b.log.filter Out.isSave = a.log.filter Out.isSave
  ie : ∀ j, (b.sta j).ieLen ≤ (a.sta j).ieLen ∨ (b.sta j).ieLen ≤ maxWpaIe

variable {c ev w0}

theorem Abs.keyStep_plumb {a : Abs} (gtk : Bytes × Nat) (fits rekeying : Bool) (n : Nat) (tx : Bool)
    (rsc : Bytes) :
    KeyStep a ({ a with gtk := gtk, fits := fits, rekeying := rekeying }.plumb c n tx rsc) :=
  ⟨rfl, rfl, [_], rfl, by simp⟩

/-- For a property of the stations, only the steps of stations need to be looked at. -/
theorem AStep.inversion {a b : Abs} (h : AStep c ev w0 a b) :
    (∃ i k outs, Move c ev w0 a i k outs ∧ b = a.put i k outs)
      ∨ KeyStep a b ∨ SupplicantStep c a b := by
  cases h with
  | move i h => exact .inl ⟨i, _, _, h, rfl⟩
  | gtkInit gtk fits n rsc _ _ =>
    exact .inr (.inl (Abs.keyStep_plumb gtk fits a.rekeying n true rsc))
  | gtkNew gtk fits n rsc _ _ _ _ => exact .inr (.inl (Abs.keyStep_plumb gtk fits true n false rsc))
  | gtkDone n rsc _ => exact .inr (.inl (Abs.keyStep_plumb a.gtk a.fits false n true rsc))
  | gtkPad gtk fits _ => exact .inr (.inl ⟨rfl, rfl, [], rfl, by simp⟩)
  | linkDown m _ _ _ _ _ => exact .inr (.inl ⟨rfl, rfl, [], rfl, by simp⟩)
  | clobber r r' _ => exact .inr (.inl ⟨rfl, rfl, [_, _], rfl, by simp⟩)
  | supplicant a' hrole hlog hie => exact .inr (.inr ⟨hrole, hlog, hie⟩)

/-- What the steps of a station keep, the steps of an authenticator keep for every station. -/
theorem AStep.forall_sta {P : Core → Prop} (hrole : c.cfg.role = .authenticator)
    (hmove : ∀ a i k outs, Move c ev w0 a i k outs → P (a.sta i) → P k) {a b : Abs}
    (ha : ∀ i, P (a.sta i)) (h : AStep c ev w0 a b) : ∀ i, P (b.sta i) := by
  rcases h.inversion with ⟨i, k, outs, hm, rfl⟩ | hkey | hsup
  · intro j
    by_cases hj : j = i
    · subst hj
      simpa [Abs.put] using hmove a j k outs hm (ha j)
    · simpa [Abs.put, hj] using ha j
  · rw [hkey.sta]
    exact ha
  · cases hrole.symm.trans hsup.role

end Steps

end BroadcomWl.Nas
