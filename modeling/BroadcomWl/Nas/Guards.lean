import BroadcomWl.Nas.Dispatch

/-!
# What an event asks for

The tests by which the code decides what an event leads to, as predicates of the state before
the event: whether an association or a frame starts a 4-way handshake, has an element saved,
asks for a new group key, or carries a verified MIC. They are conjunctions of the code's own
tests, gathered along the path from the dispatcher to the effect, and they name the
circumstances under which the small steps of `BroadcomWl.Nas.Automaton` are taken.
-/

namespace BroadcomWl.Nas

/-- The slot that `lookup_sta` finds for an address. -/
def World.find (w : World) (ea : Bytes) : Option Slot :=
  (w.staHashed (paeHash ea)).find? fun i => (w.sta i).ea = ea

variable (c : Ctx)

/-! ## Associations -/

/-- `wpa_set_suppl` accepts the mode and the ciphers. -/
def supplOk (mode wsec : Nat) : Bool :=
  mode == mode &&& c.cfg.mode && wsec == wsec &&& c.cfg.wsec
    && (wsecAesEnabled wsec || wsecTkipEnabled wsec)

/-- The element of an association is accepted, and then saved. -/
def elementOk (pmkid : Bytes) (m : DrvMsg) : Bool :=
  match c.cfg.role with
  | .authenticator =>
    (wpaParseIe m.wpaie.1 m.wpaie.2 (some pmkid)).any fun p => supplOk c p.mode p.wsec
  | .supplicant =>
    (wpaCheckIe m.wpaie.1 m.wpaie.2 c.cfg.wsec c.cfg.mode).any fun r =>
      r.1 == 0 && supplOk c c.cfg.mode c.cfg.wsec

/-- The association of the station in a slot goes straight to the 4-way handshake: no RADIUS
server has to be asked first. -/
def assocStarts (w : World) (i : Slot) (m : DrvMsg) : Bool :=
  let s := w.sta i
  (wpaParseIe m.wpaie.1 m.wpaie.2 (some s.pmkid)).any fun p =>
    supplOk c p.mode p.wsec && !(w.micCountermeasures && wsecTkipEnabled p.wsec)
      && !has p.mode wpa && (!has p.mode wpa2 || (p.pmkc == 1 && s.pae.ssnto != 0))

/-! ## Key frames -/

/-- `eapol_dispatch_ex` hands the frame to `process_wpa`, for the station in the slot. -/
def delivered (w : World) (f : Frame) (i : Slot) : Bool :=
  let s := w.sta i
  w.find f.shost == some i && f.type == eapolKey && checkEapolKey f.bodyType && checkNas s.mode
    && (s.pae.state == .authenticated || s.pae.state == .initialise)

/-- The element in a key request is accepted, and then saved. -/
def requestOk (f : Frame) : Bool :=
  (wpaParseIe f.data f.dataLen none).any fun p => p.mode &&& c.cfg.mode == p.mode

theorem fakeKeyRequest_keyInfo (s : Sta) : (fakeKeyRequest s).keyInfo = 0x0808 := by
  simp [Frame.keyInfo, Mem.u16, fakeKeyRequest]

theorem fakeKeyRequest_dataLen (s : Sta) : (fakeKeyRequest s).dataLen = 0 := by
  simp [Frame.dataLen, Mem.u16, fakeKeyRequest]

theorem requestOk_fakeKeyRequest (s : Sta) : requestOk c (fakeKeyRequest s) = false := by
  rw [requestOk, fakeKeyRequest_dataLen]
  rfl

/-- The flags that message 2 must carry. -/
def m2Flags (f : Frame) : Bool :=
  flagsOk f.keyInfo (wpaKeyPairwise ||| wpaKeyMic) (wpaKeyAck ||| wpaKeyIndexMask)

/-- The frame is taken for message 2, which the station is to send. -/
def takenForM2 (s : Sta) (f : Frame) : Bool :=
  s.state == .ptkinitnegotiating && m2Flags f && f.replay == s.replay

/-- A request or a MIC failure report with a valid MIC, from a station that holds keys. -/
def keysRequest (s : Sta) (f : Frame) : Bool :=
  s.state == .setkeysdone && flagsOk f.keyInfo wpaKeyReq wpaKeyAck && has f.keyInfo wpaKeyMic
    && wpaCheckMic c s f

/-- `process_wpa` hands the frame to the state machine: it is not a request that a WDS link answers
with `wpa_start`, and no countermeasures have the station cleaned up instead. -/
def admitted (w : World) (s : Sta) (f : Frame) : Bool :=
  !(c.cfg.wds && has f.keyInfo wpaKeyReq && has f.keyInfo wpaKeyPairwise)
    && !(w.micCountermeasures && wsecTkipEnabled s.wsec)

/-- `cleanup_sta` respects the cached PMK of the station, and leaves it in `WPA_PTKSTART`. -/
def Sta.kept (s : Sta) : Bool :=
  has s.mode wpa2 && s.pae.state == .authenticated && s.pae.ssnto != 0

/-- A MIC failure report on which countermeasures may be taken that keep the station. -/
def reportKeeps (w : World) (s : Sta) (f : Frame) : Bool :=
  has f.keyInfo wpaKeyError && !micErrorProhibit c s (has f.keyInfo wpaKeyPairwise)
    && !w.micCountermeasures && s.kept

/-- `wpa_verifystart` is run on a frame with the request flag, and accepts it. After a failure
report this takes countermeasures that keep the station. -/
def opensHandshake (w : World) (s : Sta) (f : Frame) : Bool :=
  admitted c w s f && has f.keyInfo wpaKeyReq && requestOk c f
    && (s.state == .authentication2
      || (keysRequest c s f
        && (reportKeeps c w s f || (!has f.keyInfo wpaKeyError && has f.keyInfo wpaKeyPairwise))))

/-- A frame on which the authenticator sends message 1. -/
def frameStarts (w : World) (s : Sta) (f : Frame) : Bool :=
  admitted c w s f && has f.keyInfo wpaKeyReq && !has f.keyInfo wpaKeyError
    && (s.state == .ptkstart
      || (opensHandshake c w s f && !(s.state == .authentication2 && has s.mode wpa)))

/-- The station in the slot sent a frame with a valid MIC. -/
def Verified (ev : Event) (w : World) (i : Slot) : Prop :=
  ∃ f, ev = .eapol f ∧ delivered w f i = true ∧ has f.keyInfo wpaKeyMic = true
    ∧ wpaCheckMic c (w.sta i) f = true

/-- A verified MIC failure report of the station, which is acted upon. -/
def failureReport (s : Sta) (f : Frame) : Bool :=
  flagsOk f.keyInfo wpaKeyReq wpaKeyAck && has f.keyInfo wpaKeyMic && wpaCheckMic c s f
    && has f.keyInfo wpaKeyError && !micErrorProhibit c s (has f.keyInfo wpaKeyPairwise)

/-! ## Frames at the supplicant -/

/-- The frame carries a MIC, and it verifies. -/
def verified (s : Sta) (f : Frame) : Bool := has f.keyInfo wpaKeyMic && wpaCheckMic c s f

/-- `process_sup_wpa` hands the frame to `eapol_sup_process_key`, for the station in the slot. -/
def processed (w : World) (f : Frame) (i : Slot) : Bool :=
  let s := w.sta i
  delivered w f i && (s.state == .supAuthentication || s.state == .supStakeystartp
    || s.state == .supStakeystartg)

/-! ## RADIUS -/

/-- What the attribute loop of `radius_dispatch` gathers, and whether it has seen an EAP
success. -/
def gather (code : RadiusCode) : List RadiusAttr → Gathered → Bool → Option (Gathered × Bool)
  | [], g, ok => some (g, ok)
  | a :: l, g, ok =>
    match a with
    | .messageAuthenticator valid =>
      if valid then gather code l { g with authenticated := true } ok else none
    | .eapMessage first id v =>
      gather code l (g.addFragment first id v) (ok || (g.eap.isNone && first == eapSuccess))
    | .mppeSend plain =>
      gather code l (if code = .accept then { g with mppeSend := some plain } else g) ok
    | .mppeRecv plain =>
      gather code l (if code = .accept then { g with mppeRecv := some plain } else g) ok
    | .bad => none
    | _ => gather code l g ok

/-- An Access-Accept answers the request of the station in the slot, with an EAP success and a
key. -/
def acceptsWithKey (w : World) (r : RadiusResponse) (i : Slot) : Bool :=
  let s := w.sta i
  r.slot == i && s.used && s.pae.request == some r.id.toNat && r.code == .accept
    && (gather r.code r.attrs .empty s.pae.eapSuccess).any fun g =>
      g.1.authenticated && g.1.mppeRecv.isSome && g.2

/-- The Access-Accept is applied to a station that is neither in a WPA nor in a WPA2 mode. -/
def radiusKeys (ev : Event) (w : World) (i : Slot) : Prop :=
  ∃ r, ev = .radius r ∧ acceptsWithKey w r i = true ∧ checkWpa (w.sta i).mode = false

/-- `fix_wpa` sends message 1: the station waits in `WPA_PTKSTART` for the PMK of the
Access-Accept. A pre-authenticated one only gets its PMKID. -/
def acceptStarts (w : World) (s : Sta) : Bool :=
  checkWpa s.mode && !(has s.mode wpa2 && s.preAuth) && !c.cfg.wds
    && !(w.micCountermeasures && wsecTkipEnabled s.wsec) && s.state == .ptkstart

/-! ## Timers -/

/-- The arguments with which `wpa_ptkinitdone2` plumbs the pairwise key. -/
def Sta.pairwiseArgs (s : Sta) : KeyArgs := ⟨some s.ea, s.tempKey, 0, true, [], true⟩

/-- The expiry of the retransmission timer runs the handler for exceeded retries, and the
driver accepts the pairwise key. -/
def exhausted (w : World) (i : Slot) : Bool :=
  let s := w.sta i
  s.td.isSome && !w.micCountermeasures && s.state != .setkeysdone
    && !(c.cfg.wds && s.state == .ptkinitdone) && decide (wpaRetry ≤ s.retries)
    && s.wdsTd.isNone && s.retxExceedHndlr && decide (0 ≤ c.drv.setKey w.calls s.pairwiseArgs)

/-! ## Summary by event -/

/-- The event starts the 4-way handshake of the station in the slot, which was there before. -/
def startsM1 (ev : Event) (w : World) (i : Slot) : Prop :=
  match ev with
  | .assoc m => w.find m.addr = some i ∧ assocStarts c w i m = true
  | .eapol f => delivered w f i = true ∧
      (frameStarts c w (w.sta i) f = true
        ∨ (c.cfg.wds = true ∧ has f.keyInfo wpaKeyReq = true ∧ has f.keyInfo wpaKeyPairwise = true))
  | .radius r =>
      (acceptsWithKey w r i = true ∧ acceptStarts c w (w.sta i) = true)
        ∨ (c.cfg.wds = true ∧ w.find (w.sta r.slot).ea = some i)
  | .ptkTimer => w.ptkRekeyTimer.isSome = true ∧ i = ⟨0, maxSupplicants_pos⟩
  | .wdsTimer j => c.cfg.wds = true ∧ w.find (w.sta j).ea = some i
  | .disassoc m => c.cfg.wds = true ∧ (w.find m.addr = some i ∨ w.find m.shost = some i)
  | _ => False

/-- The event has `n` octets saved as the element of the station in the slot. -/
def saves (ev : Event) (w : World) (i : Slot) (n : Nat) : Prop :=
  match ev with
  | .assoc m =>
      n = m.wpaie.2 ∧ checkNas c.cfg.mode = true ∧ ∃ pmkid, elementOk c pmkid m = true
  | .link m =>
      n = m.wpaie.2 ∧ c.cfg.role = .supplicant ∧ has m.flags eventMsgLink = true
        ∧ checkNas c.cfg.mode = true ∧ ∃ pmkid, elementOk c pmkid m = true
  | .eapol f =>
      n = f.dataLen ∧ c.cfg.role = .authenticator ∧ delivered w f i = true
        ∧ opensHandshake c w (w.sta i) f = true
  | _ => False

/-- The event makes the authenticator take a new group key. -/
def rekeys (ev : Event) (w : World) : Prop :=
  match ev with
  | .gtkTimer | .forceRekey => True
  | .eapol f => ∃ i, delivered w f i = true ∧ keysRequest c (w.sta i) f = true
      ∧ has f.keyInfo wpaKeyError = false ∧ has f.keyInfo wpaKeyPairwise = false
  | _ => False

end BroadcomWl.Nas
