import BroadcomWl.Nas.Effects

/-!
# Elementary effects: the authenticator

Every function of `BroadcomWl.Nas.Wpa` is a sequence of effects, except for the report of a MIC
failure, which `wpa_setkeysdone` makes on a verified failure report and which nothing else makes.
-/

namespace BroadcomWl.Nas

open BroadcomWl.Lib Relation

variable {c : Ctx} {g : Grant} {w0 : World}

/-! ## Group key update -/

theorem confined_wpaSendRekeyFrame (i : Slot) : Confined c g w0 (wpaSendRekeyFrame c i) := by
  unfold wpaSendRekeyFrame
  refine .bind (confined_modSta_pae i fun _ => rfl) fun _ =>
    .bind (confined_wpaStopRetx i) fun _ => ?_
  refine .bind (confined_modSta_pae i fun _ => rfl) fun _ =>
    .bind (confined_wpaSendEapol i) fun b => ?_
  exact .ite (confined_cleanupSta i _ _)
    (.bind (confined_getSta i) fun s => .ite (confined_armRetx i) (.pure _))

theorem confined_makeGtk : Confined c g w0 (makeGtk c) := by
  unfold makeGtk
  refine .bind confined_wpaGenGtk fun _ => .bind (confined_aside fun _ => ?_) fun _ =>
    .bind (confined_wpaPlumbGtk _) fun _ => .pure _
  exact ⟨rfl, rfl, rfl, rfl, rfl, rfl, rfl, rfl, rfl, rfl⟩

theorem confined_newGtkLoop (l : List Slot) (didOne : Bool) :
    Confined c g w0 (newGtkLoop c l didOne) := by
  induction l generalizing didOne with
  | nil => exact .pure _
  | cons i l ih =>
      refine .bind (confined_getSta i) fun s => .ite (ih didOne) ?_
      exact .ifThen confined_makeGtk fun _ => .bind (confined_wpaSendRekeyFrame i) fun _ => ih true

theorem confined_wpaNewGtkCallback : Confined c g w0 (wpaNewGtkCallback c) := by
  unfold wpaNewGtkCallback
  refine .bind (confined_newGtkLoop _ _) fun b => .ite ?_ (.pure _)
  exact .bind (confined_wpaPlumbGtk _) fun _ => .pure _

theorem confined_wpaNewGtk : Confined c g w0 (wpaNewGtk c) := by
  unfold wpaNewGtk
  refine .bind (confined_aside fun _ => ?_) fun _ => .bind confined_wpaNewGtkCallback fun _ =>
    confined_wpaSetGtkTimer
  exact ⟨rfl, rfl, rfl, rfl, rfl, rfl, rfl, rfl, rfl, rfl⟩

/-! ## MIC failures -/

theorem confined_wpaSendMicFailure (i : Slot) : Confined c g w0 (wpaSendMicFailure c i) :=
  .bind (confined_modSta_pae i fun _ => rfl) fun _ => .bind (confined_getSta i) fun _ =>
    confined_emit rfl

theorem takeCountermeasures_effects (w : World) : wp (takeCountermeasures c)
    (fun _ => Effects c g { w with micCountermeasures := true })
    (fun _ => Effects c g { w with micCountermeasures := true }) w := by
  unfold takeCountermeasures
  rw [wp_bind, wp_modify]
  refine Keeps.bind (I := Effects c g { w with micCountermeasures := true }) (confined_emit rfl)
    (fun _ => ?_) _ .refl
  refine .bind .get fun _ => .bind (confined_wpaSetItimer _) fun td =>
    .bind (confined_aside fun _ => ?_)
    fun _ => .bind (confined_forM _ fun i => ?_) fun _ => .bind .get fun w1 => ?_
  · exact ⟨rfl, rfl, rfl, rfl, rfl, rfl, rfl, rfl, rfl, rfl⟩
  · exact .bind (confined_getSta i) fun s => .ite (confined_cleanupSta i _ _) (.pure _)
  · refine .ifThen (confined_throw _) fun _ => .bind (confined_aside fun _ => ?_) fun _ =>
      .bind .get fun w2 => ?_
    · exact ⟨rfl, rfl, rfl, rfl, rfl, rfl, rfl, rfl, rfl, rfl⟩
    · refine .bind (confined_nasSetKey _) fun _ => .bind (confined_nasSetKey _) fun _ =>
        confined_aside fun _ => ?_
      exact ⟨rfl, rfl, rfl, rfl, rfl, rfl, rfl, rfl, rfl, rfl⟩

/-- A report that is not prohibited is noted, and may trigger countermeasures. -/
theorem wpaMicError_changes (w : World) (i : Slot) (fromDriver pairwise : Bool) :
    wp (wpaMicError c i fromDriver pairwise)
      (fun _ => Changes c g (micErrorProhibit c (w.sta i) pairwise = false) w)
      (fun _ => Changes c g (micErrorProhibit c (w.sta i) pairwise = false) w) w := by
  simp only [wpaMicError, wp_bind, wp_getSta, wp_ite, wp_pure, wp_get, wp_modify, wp_modSta]
  refine ⟨fun _ => .calm .refl, fun hp => ?_⟩
  have hm : micErrorProhibit c (w.sta i) pairwise = false := eq_false_of_ne_true hp
  have hreport : ∀ w', Effects c g w.reported w' →
      Changes c g (micErrorProhibit c (w.sta i) pairwise = false) w w' :=
    fun w' h => .mic hm .refl (.report w) h
  refine ⟨fun _ => ⟨fun _ => hreport _ .refl, fun _ => ?_⟩, fun hrole => ⟨fun hcm => ?_, fun _ =>
    hreport _ .refl⟩⟩
  · have hsta : Effects c g w.reported (w.reported.updSta i fun s =>
        { s with micFailures := s.micFailures + 1, prevMicError := w.now }) :=
      confined_modSta_pae i (f := fun s => { s with
        micFailures := s.micFailures + 1, prevMicError := w.now }) (fun _ => rfl) w.reported .refl
    refine wp_mono (confined_wpaSendMicFailure i _ hsta) (fun _ w2 h2 => ⟨fun _ => ?_, fun _ =>
      hreport _ h2⟩) (fun _ w2 h2 => hreport _ h2)
    exact wp_mono (confined_cleanupSta i _ _ w2 h2) (fun _ w3 h3 => hreport _ h3)
      (fun _ w3 h3 => hreport _ h3)
  · simp only [Bool.and_eq_true, Bool.not_eq_true', decide_eq_true_eq] at hcm
    have hauth : c.cfg.role = .authenticator := Role.authenticator_of_ne hrole
    exact wp_mono (takeCountermeasures_effects w.reported)
      (fun _ w' h => .mic hm .refl (.trigger w hauth hcm.1.2 hcm.2) h)
      (fun _ w' h => .mic hm .refl (.trigger w hauth hcm.1.2 hcm.2) h)

/-! ## Association -/

theorem confined_wpaSetSuppl (i : Slot) (mode wsec algo : Nat) :
    Confined c g w0 (wpaSetSuppl c i mode wsec algo) := by
  have hend : Confined c g w0 (do
      modSta i fun s => { s with
        mode := mode, wsec := wsec, algo := algo,
        eapolVersion := if checkWpa2 mode then wpa2EapolVersion else wpaEapolVersion }
      return false) :=
    .bind (confined_modSta_pae i fun _ => rfl) fun _ => .pure _
  unfold wpaSetSuppl
  refine .ite (.pure _) (.ite (.pure _) (.ite ?_ (.ite ?_ (.pure _))))
  · exact .bind (confined_modSta i ⟨fun _ hs => hs, .inr fun _ => rfl, fun _ _ => le_refl 2⟩)
      fun _ => hend
  · exact .bind (confined_modSta i ⟨fun _ hs => hs, .inr fun _ => rfl, fun _ _ => one_le_two⟩)
      fun _ => hend

theorem confined_assocCheckIe (i : Slot) (ie : Mem) (ieLen : Nat) :
    Confined c g w0 (assocCheckIe c i ie ieLen) := by
  unfold assocCheckIe
  cases c.cfg.role with
  | authenticator =>
      refine .bind (confined_getSta i) fun s => ?_
      cases wpaParseIe ie ieLen (some s.pmkid) with
      | none => exact .pure _
      | some p => exact .bind (confined_modSta_pae i fun _ => rfl) fun _ => .pure _
  | supplicant =>
      cases wpaCheckIe ie ieLen c.cfg.wsec c.cfg.mode with
      | none => exact .pure _
      | some x =>
          obtain ⟨rest, cap⟩ := x
          cases cap with
          | none => exact .ite (.pure _) (.pure _)
          | some cap =>
              exact .bind (confined_modSta_pae i fun _ => rfl) fun _ => .ite (.pure _) (.pure _)

theorem confined_saveWpaie (i : Slot) (ie : Bytes) : Confined c g w0 (saveWpaie i ie) := by
  unfold saveWpaie
  exact .bind (confined_emit rfl) fun _ => .ifThen (confined_throw _) fun _ =>
    confined_modSta_pae i fun _ => rfl

theorem confined_startPtk (i : Slot) : Confined c g w0 (startPtk c i) := by
  unfold startPtk
  refine .bind (confined_modSta_pae i fun _ => rfl) fun _ =>
    .bind (confined_wpaSendEapol i) fun b => ?_
  exact .ite (.pure _) (.bind (confined_modSta_pae i fun _ => rfl) fun _ =>
    .bind (confined_armRetx i) fun _ => .pure _)

theorem confined_assocStart (i : Slot) (pmkc : Int) : Confined c g w0 (assocStart c i pmkc) := by
  have hend : Confined c g w0 (do
      if ← startPtk c i then return true
      modify fun w => { w with ptkRekeySecs := 0, ptkRekeyTimer := none }
      return false) := by
    refine .bind (confined_startPtk i) fun _ =>
      .ite (.pure _) (.bind (confined_aside fun _ => ?_) fun _ => .pure _)
    exact ⟨rfl, rfl, rfl, rfl, rfl, rfl, rfl, rfl, rfl, rfl⟩
  have hask : Confined c g w0 (do
      sendIdentityReq c i
      return false) := .bind (confined_sendIdentityReq i) fun _ => .pure _
  unfold assocStart
  refine .bind (confined_getSta i) fun s => .ite hask (.ite (.ite hask hend) (.ite ?_ hend))
  exact .bind (confined_nasWpaCalcPmkid i) fun _ => hend

theorem confined_assocAccepted (i : Slot) (wsec : Nat) (pmkc : Int) :
    Confined c g w0 (assocAccepted c i wsec pmkc) := by
  unfold assocAccepted
  refine .iteCases (fun hrole => ?_) fun hrole => .bind .get fun w => .ite ?_ ?_
  · exact confined_draw i (fun _ _ => rfl) (.inr fun n s => by rw [Ctx.ownNonce, hrole]) fun _ =>
      .pure _
  · exact .bind (confined_cleanupSta i _ _) fun _ => .pure _
  · refine confined_draw i (fun _ _ => rfl) (.inr fun n s => ?_) fun _ => ?_
    · rw [Ctx.ownNonce, Role.authenticator_of_ne hrole]
    refine .bind (confined_getSta i) fun _ => .bind (confined_nasSetKey _) fun _ => ?_
    exact .bind (confined_modSta_pae i fun _ => rfl) fun _ => confined_assocStart i pmkc

theorem confined_assocElement (i : Slot) (ie : Mem) (ieLen : Nat) :
    Confined c g w0 (assocElement c i ie ieLen) := by
  unfold assocElement
  refine .bind (confined_wpaStopRetx i) fun _ => .bind (confined_modSta_pae i fun _ => rfl) fun _ =>
    .bind (confined_assocCheckIe i ie ieLen) fun x => ?_
  cases x with
  | none => exact .pure _
  | some x =>
      have hsave : Confined c g w0 (do
          saveWpaie i (ie.slice 0 ieLen)
          if checkPsk x.2.1 then modSta i fun s => { s with pmk := c.cfg.pmk }
          assocAccepted c i x.1 x.2.2) :=
        .bind (confined_saveWpaie i _) fun _ =>
            .ifThen (confined_modSta_pae i fun _ => rfl) fun _ =>
          confined_assocAccepted i _ _
      refine .bind (confined_wpaSetSuppl i _ _ _) fun b => .ite (.pure _) ?_
      refine .bind (confined_modSta_pae i fun _ => rfl) fun _ => .ite ?_ hsave
      exact .bind (confined_oracle _) fun _ => .bind (confined_modSta_pae i fun _ => rfl) fun _ =>
        hsave

theorem confined_wpaDriverAssocMsg (m : DrvMsg) (sta : Option Slot) :
    Confined c g w0 (wpaDriverAssocMsg c m sta) := by
  cases sta with
  | none => exact .pure _
  | some i =>
      refine .bind (confined_modSta_pae i fun _ => rfl) fun _ => .ite (.ite ?_ ?_) (.ite ?_ ?_)
      · exact .bind .get fun _ => .bind (confined_nasSetKey _) fun _ =>
          .bind (confined_emit rfl) fun _ => .pure _
      · exact .bind (confined_modSta_pae i fun _ => rfl) fun _ => .pure _
      · refine .bind (confined_oracle _) fun x => ?_
        cases x with
        | none => exact .pure _
        | some cap =>
            refine .bind (confined_aside fun _ => ?_) fun _ => confined_assocElement i _ _
            exact ⟨rfl, rfl, rfl, rfl, rfl, rfl, rfl, rfl, rfl, rfl⟩
      · exact confined_assocElement i _ _

theorem confined_driverAssoc (m : DrvMsg) : Confined c g w0 (driverAssoc c m) := by
  unfold driverAssoc
  refine .bind (confined_lookupSta _ _) fun sta => .ite (.pure _) ?_
  refine .bind (confined_wpaDriverAssocMsg m sta) fun b => .ite ?_ (.pure _)
  cases sta with
  | none => exact .pure _
  | some i => exact confined_cleanupSta i _ _

/-! ## WDS -/

theorem confined_startPkinit (i : Slot) : Confined c g w0 (startPkinit c i) := by
  unfold startPkinit
  refine .bind (confined_getSta i) fun s => .bind (confined_wpaBuildIe _ _ _ _) fun x => ?_
  cases x with
  | none => exact .pure _
  | some ie => exact .ite (.pure _) (confined_driverAssoc _)

theorem confined_wpaStart (i : Slot) : Confined c g w0 (wpaStart c i) := by
  unfold wpaStart
  refine .bind (confined_modSta_pae i fun _ => rfl) fun _ =>
    .bind (confined_startPkinit i) fun _ => ?_
  exact .bind (confined_getSta i) fun _ => .bind (confined_wpaSetItimer _) fun _ =>
    confined_modSta_pae i fun _ => rfl

theorem confined_requestPkinit (i : Slot) : Confined c g w0 (requestPkinit c i) := by
  unfold requestPkinit
  refine .bind (confined_wpaStopRetx i) fun _ => .bind (confined_wpaBuildIe _ _ _ _) fun ie => ?_
  refine .bind (confined_modSta_pae i fun _ => rfl) fun _ => .ite (.pure _) ?_
  refine .bind (confined_modSta_pae i fun _ => rfl) fun _ =>
    .bind (confined_wpaSendEapol i) fun _ => ?_
  exact .ite (.pure _) (.bind (confined_modSta_pae i fun _ => rfl) fun _ => confined_armRetx i)

theorem confined_wpaRequest (i : Slot) : Confined c g w0 (wpaRequest c i) := by
  unfold wpaRequest
  refine .bind (confined_modSta_pae i fun _ => rfl) fun _ => .bind (confined_getSta i) fun s => ?_
  refine .ifElse (confined_requestPkinit i) (confined_wpaStopRetx i) fun _ => ?_
  exact .bind (confined_getSta i) fun _ => .bind (confined_wpaSetItimer _) fun _ =>
    confined_modSta_pae i fun _ => rfl

/-! ## Key frames -/

/-- The frame is one that an authenticator has received, or one that `fix_wpa` fakes. -/
def ToAuthenticator (c : Ctx) (g : Grant) (f : Frame) : Prop :=
  (c.cfg.role = .authenticator ∨ g.foreignNonce) ∨ ∃ s, f = fakeKeyRequest s

theorem confined_wpaVerifystart (i : Slot) {f : Frame} (hf : ToAuthenticator c g f) :
    Confined c g w0 (wpaVerifystart c i f) := by
  unfold wpaVerifystart
  refine .ite (.pure _) (.bind (confined_wpaStopRetx i) fun _ => ?_)
  cases hp : wpaParseIe f.data f.dataLen none with
  | none => exact .pure _
  | some p =>
      refine .iteCases (fun _ => .pure _) fun hmode => .bind (confined_saveWpaie i _) fun _ => ?_
      have hrole : c.cfg.role = .authenticator ∨ g.foreignNonce := by
        refine hf.resolve_right fun ⟨s, hs⟩ => ?_
        have hok : requestOk c f = false := hs ▸ requestOk_fakeKeyRequest c s
        rw [requestOk, hp] at hok
        exact hmode (by simpa using hok)
      refine confined_draw i (fun _ _ => rfl) (hrole.symm.imp_right fun h n s => ?_) fun _ =>
        .pure _
      rw [Ctx.ownNonce, h]

theorem confined_wpaPtkstart (i : Slot) (f : Frame) : Confined c g w0 (wpaPtkstart c i f) := by
  unfold wpaPtkstart
  exact .ite (.pure _)
    (.ite (.pure _) (.bind (confined_wpaStopRetx i) fun _ => confined_startPtk i))

theorem confined_wpaPtkinitnegotiating (i : Slot) {f : Frame} (hf : ToAuthenticator c g f) :
    Confined c g w0 (wpaPtkinitnegotiating c i f) := by
  unfold wpaPtkinitnegotiating
  refine .iteCases (fun _ => .pure _) fun hflags => .bind (confined_getSta i) fun s =>
    .ite (.pure _) ?_
  have hrole : c.cfg.role = .authenticator ∨ g.foreignNonce := by
    refine hf.resolve_right fun ⟨s, hs⟩ => hflags ?_
    rw [hs, fakeKeyRequest_keyInfo]
    rfl
  -- The nonce of the frame is that of the station, not of this end.
  have hsnonce : StaKept c g fun s => { s with snonce := f.nonce } := by
    refine ⟨fun _ hs => hs, hrole.symm.imp_right fun h s => ?_, fun _ hs => hs⟩
    rw [Ctx.ownNonce, Ctx.ownNonce, h]
  refine .bind (confined_wpaStopRetx i) fun _ => .bind (confined_getSta i) fun s =>
    .ite (.pure _) ?_
  refine .bind (confined_modSta i hsnonce) fun _ => .bind (confined_wpaCalcPtk i) fun _ => ?_
  refine .bind (confined_getSta i) fun s => .ite ?_ ?_
  · exact .bind (confined_emit rfl) fun _ => .bind (confined_armRetx i) fun _ => .pure _
  · refine .bind (confined_modSta_pae i fun _ => rfl) fun _ =>
      .bind (confined_wpaSendEapol i) fun _ => ?_
    refine .ite (.pure _) (.bind (confined_modSta_pae i fun _ => rfl) fun _ => ?_)
    exact .bind (confined_armRetx i) fun _ => .bind (confined_modSta_pae i fun _ => rfl) fun _ =>
      .pure _

theorem confined_startGroup (i : Slot) : Confined c g w0 (startGroup c i) := by
  unfold startGroup
  refine .bind (confined_modSta_pae i fun _ => rfl) fun _ => .bind confined_ensureGtk fun _ => ?_
  refine .bind (confined_modSta_pae i fun _ => rfl) fun _ =>
    .bind (confined_wpaSendEapol i) fun _ => ?_
  exact .ite (.pure _) (.bind (confined_modSta_pae i fun _ => rfl) fun _ =>
    .bind (confined_armRetx i) fun _ => .pure _)

theorem confined_wpaPtkinitdone2 (i : Slot) : Confined c g w0 (wpaPtkinitdone2 c i) := by
  unfold wpaPtkinitdone2
  refine .bind (confined_wpaStopRetx i) fun _ => .bind (confined_getSta i) fun s =>
    .bind (confined_nasSetKey _) fun ret => .ite ?_ (.ite ?_ (confined_startGroup i))
  · exact .bind (confined_cleanupSta i _ _) fun _ => .pure _
  · exact .bind (confined_modSta_pae i fun _ => rfl) fun _ => .bind (confined_emit rfl) fun _ =>
      .bind (confined_modSta_pae i fun _ => rfl) fun _ => .pure _

theorem confined_wpaPtkinitdone (i : Slot) (f : Frame) :
    Confined c g w0 (wpaPtkinitdone c i f) := by
  unfold wpaPtkinitdone
  refine .bind (confined_getSta i) fun s => .ite (.pure _) (.ite (.pure _) (.ite (.pure _) ?_))
  exact .ite (.pure _) (confined_wpaPtkinitdone2 i)

theorem confined_nasSendWnmNotifications (ea : Bytes) :
    Confined c g w0 (nasSendWnmNotifications ea) := by
  unfold nasSendWnmNotifications
  refine .bind .get fun w => .ifThen (confined_emit rfl) fun _ =>
      .ifThen (confined_emit rfl) fun _ =>
    .ifThen (confined_emit rfl) fun _ => confined_aside fun _ => ?_
  exact ⟨rfl, rfl, rfl, rfl, rfl, rfl, rfl, rfl, rfl, rfl⟩

theorem confined_processStart (i : Slot) {f : Frame} (hf : ToAuthenticator c g f) :
    Confined c g w0 (processStart c i f) := by
  unfold processStart
  refine .bind (confined_wpaVerifystart i hf) fun _ =>
    .ite (.pure _) (.bind (confined_getSta i) fun s => ?_)
  exact .ite (.pure _) (confined_wpaPtkstart i f)

/-- However the function ends, it has had effects, and possibly made the report `m`. -/
abbrev wpChanges (c : Ctx) (g : Grant) (m : Prop) {α : Type} (f : NasM α) (w : World) : Prop :=
  wp f (fun _ => Changes c g m w) (fun _ => Changes c g m w) w

theorem Keeps.changes {α : Type} {f : NasM α} {m : Prop} {w : World} (h : Confined c g w f) :
    wpChanges c g m f w :=
  wp_mono (h w .refl) (fun _ _ h => .calm h) (fun _ _ h => .calm h)

theorem wpaSetkeysdone_changes (w : World) (i : Slot) (f : Frame) :
    wpChanges c g (failureReport c (w.sta i) f = true) (wpaSetkeysdone c i f) w := by
  simp only [wpChanges, wpaSetkeysdone, wp_bind, wp_getSta, wp_ite, wp_pure, wp_modSta]
  have hstart : Effects c g w (w.updSta i fun s => { s with state := .ptkstart }) :=
    .single (.sta w i ⟨fun _ hs => hs, .inr fun _ => rfl, fun _ hs => hs⟩)
  refine ⟨fun _ => .calm .refl, fun hflags => ⟨fun _ => .calm .refl, fun hmic =>
    ⟨fun herr => ?_, fun _ => ⟨fun _ => .calm hstart, fun _ => Keeps.changes confined_wpaNewGtk⟩⟩⟩⟩
  simp only [Bool.or_eq_true, Bool.not_eq_true', not_or, Bool.not_eq_false] at hflags hmic
  refine wp_mono (wpaMicError_changes w i false _) (fun _ w' h => h.mono fun hp => ?_)
    (fun _ w' h => h.mono fun hp => ?_)
  · simp [failureReport, hflags, hmic, herr, hp]
  · simp [failureReport, hflags, hmic, herr, hp]

theorem wpaRekeyneg_changes (w : World) (i : Slot) (f : Frame) :
    wpChanges c g (failureReport c (w.sta i) f = true) (wpaRekeyneg c i f) w := by
  have hreply : Confined c g w (do
      let s ← getSta i
      if f.replay ≠ s.replay then return
      if !wpaCheckMic c s f then return
      wpaStopRetx i
      nasAuthorize s.ea
      modSta i fun s => { s with state := .setkeysdone, retryState := .setkeysdone }
      if (← get).ptkRekeySecs ≠ 0 then
        let td ← wpaSetItimer c (← get).ptkRekeyTimer
        modify fun w => { w with ptkRekeyTimer := td }) := by
    refine .bind (confined_getSta i) fun s => .ite (.pure _) (.ite (.pure _) ?_)
    refine .bind (confined_wpaStopRetx i) fun _ => .bind (confined_emit rfl) fun _ =>
      .bind (confined_modSta_pae i fun _ => rfl) fun _ => .bind .get fun _ => .ite ?_ (.pure _)
    refine .bind .get fun _ => .bind (confined_wpaSetItimer _) fun _ => confined_aside fun _ => ?_
    exact ⟨rfl, rfl, rfl, rfl, rfl, rfl, rfl, rfl, rfl, rfl⟩
  unfold wpaRekeyneg wpChanges
  rw [wp_ite]
  refine ⟨fun _ => ?_, fun _ => Keeps.changes hreply⟩
  rw [wp_ite]
  refine ⟨fun _ => ?_, fun _ => .calm .refl⟩
  rw [wp_bind]
  exact wpaSetkeysdone_changes w i f

/-- The station in the slot is in a state in which it may report MIC failures, and the frame is not
dropped before its state is looked at. -/
def reportable (c : Ctx) (w : World) (f : Frame) (i : Slot) : Bool :=
  let s := w.sta i
  !(c.cfg.wds && has f.keyInfo wpaKeyReq && has f.keyInfo wpaKeyPairwise)
    && !(w.micCountermeasures && wsecTkipEnabled s.wsec)
    && (s.state == .setkeysdone || s.state == .rekeynegotiating)

theorem processWpa_changes (w : World) (i : Slot) {f : Frame} (hf : ToAuthenticator c g f) :
    wpChanges c g (reportable c w f i = true ∧ failureReport c (w.sta i) f = true)
      (processWpa c f i) w := by
  unfold processWpa wpChanges
  rw [wp_bind, wp_getSta, wp_ite]
  refine ⟨fun _ => Keeps.changes ?_, fun hwds => ?_⟩
  · exact .ite (.ite (.bind (confined_wpaStart i) fun _ => .pure _) (.pure _)) (.pure _)
  rw [wp_bind, wp_get, wp_ite]
  refine ⟨fun _ => Keeps.changes (.bind (confined_cleanupSta i _ _) fun _ => .pure _),
    fun hcm => ?_⟩
  have hstart : ∀ w', Changes c g
      (reportable c w f i = true ∧ failureReport c (w.sta i) f = true) w w' →
      wp (processStart c i f)
        (fun _ => Changes c g (reportable c w f i = true ∧ failureReport c (w.sta i) f = true) w)
        (fun _ => Changes c g (reportable c w f i = true ∧ failureReport c (w.sta i) f = true) w)
            w' :=
    fun w' h =>
      wp_mono (confined_processStart i hf w' .refl) (fun _ _ h' => h.after h')
      (fun _ _ h' => h.after h')
  have hrep : ((w.sta i).state == .setkeysdone || (w.sta i).state == .rekeynegotiating) = true →
      reportable c w f i = true := by
    intro h
    simp only [Bool.not_eq_true] at hwds hcm
    simp [reportable, hwds, hcm, h]
  cases hst : (w.sta i).state with
  | setkeysdone =>
      have hr := hrep (by simp [hst])
      simp only [wp_bind, wp_getSta, wp_ite, wp_pure]
      refine wp_mono (wpaSetkeysdone_changes w i f) (fun _ w1 h => ?_) (fun _ w1 h =>
        h.mono fun hm => ⟨hr, hm⟩)
      have h1 := h.mono fun hm => And.intro hr hm
      exact ⟨fun _ => h1, fun _ => hstart w1 h1⟩
  | rekeynegotiating =>
      have hr := hrep (by simp [hst])
      simp only [wp_bind, wp_pure]
      exact wp_mono (wpaRekeyneg_changes w i f) (fun _ w1 h => h.mono fun hm => ⟨hr, hm⟩)
        (fun _ w1 h => h.mono fun hm => ⟨hr, hm⟩)
  | authentication2 => exact hstart w (.calm .refl)
  | ptkstart => exact Keeps.changes (confined_wpaPtkstart i f)
  | ptkinitnegotiating => exact Keeps.changes (confined_wpaPtkinitnegotiating i hf)
  | ptkinitdone =>
      refine Keeps.changes (.bind (confined_wpaPtkinitdone i f) fun _ =>
        .bind (confined_getSta i) fun _ => ?_)
      exact .bind (confined_nasSendWnmNotifications _) fun _ => .pure _
  | _ => exact .calm .refl

/-! ## Timers -/

theorem confined_retransmit (i : Slot) : Confined c g w0 (retransmit c i) := by
  unfold retransmit
  refine .bind (confined_modSta_pae i fun _ => rfl) fun _ => .bind (confined_getSta i) fun s => ?_
  refine .bind (confined_modSta_pae i fun _ => rfl) fun _ =>
    .bind (confined_wpaSendEapol i) fun _ => ?_
  exact .ifThen (confined_wpaStopRetx i) fun _ => confined_modSta_pae i fun _ => rfl

theorem confined_wpaRetransmission (i : Slot) : Confined c g w0 (wpaRetransmission c i) := by
  unfold wpaRetransmission
  refine .bind .get fun w => .ite (.pure _) (.bind (confined_getSta i) fun s => .ite ?_ ?_)
  · exact .bind (confined_wpaStopRetx i) fun _ => .pure _
  refine .bind (confined_modSta_pae i fun _ => rfl) fun _ => .bind (confined_getSta i) fun s =>
    .ite ?_ (.ite ?_ (.ite ?_ ?_))
  · exact .bind (confined_retransmit i) fun _ => .pure _
  · refine .ite (.bind (confined_nasDeauthenticate _ _) fun _ => ?_) (.ite ?_ ?_)
    · exact .bind (confined_retransmit i) fun _ => .pure _
    · exact .bind (confined_wpaStopRetx i) fun _ => .pure _
    · exact .bind (confined_retransmit i) fun _ => .pure _
  · exact .bind (confined_wpaPtkinitdone2 i) fun _ =>
      .bind (confined_wpaStopRetx i) fun _ => .pure _
  · exact .bind (confined_modSta_state i fun _ => rfl) fun _ => confined_cleanupSta i _ _

theorem confined_wpaNewPtkCallback : Confined c g w0 (wpaNewPtkCallback c) := by
  refine .bind (confined_wpaStopRetx _) fun _ => .bind (confined_modSta_pae _ fun _ => rfl) fun _ =>
    ?_
  refine .iteCases (fun _ => .pure _) fun hrole => ?_
  refine confined_draw _ (fun _ _ => rfl) (.inr fun n s => ?_) fun _ => ?_
  · rw [Ctx.ownNonce, Role.authenticator_of_ne hrole]
  · exact .bind (confined_startPtk _) fun _ => .pure _

end BroadcomWl.Nas
