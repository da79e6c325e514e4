import BroadcomWl.Nas.EffectsWpa
import BroadcomWl.Nas.Refine

/-!
# Elementary effects: events

The functions of `BroadcomWl.Nas.Supplicant` and `BroadcomWl.Nas.Dispatch`, and with them a whole
event, are sequences of effects too.

**What an event is granted** (`Grants`). A group key message of WPA that the supplicant verifies
sets the length of the group key; an Access-Accept with a valid signature, and an EAP success in it
or remembered from an earlier response, authenticates its station; and a signed response, or a
reject, relays the EAP message that has been gathered from it.

**`step_changes`.** An event that is granted these does nothing else; and the MIC failures change
only in a report (`micReports`), or when the countermeasures timer fires. -/

namespace BroadcomWl.Nas

open BroadcomWl.Lib Relation

variable {c : Ctx} {g : Grant} {w0 : World}

/-! ## The supplicant -/

theorem confined_aesUnwrap (key input : Bytes) : Confined c g w0 (aesUnwrap c key input) := by
  unfold aesUnwrap
  exact .ifThen (confined_throw _) fun _ => .pure _

theorem confined_wpaExtractGtk (f : Frame) : Confined c g w0 (wpaExtractGtk f) := by
  unfold wpaExtractGtk
  cases wpaFindKde f.data f.dataLen 1 with
  | none => exact .pure _
  | some ie =>
      dsimp only
      by_cases h : (f.data (ie + 1)).toNat < gtkEncapMinLen
          ∨ tkipTkLen < (f.data (ie + 1)).toNat - gtkEncapMinLen
      · rw [if_pos h]
        exact .pure _
      · rw [if_neg h]
        have hlen : (f.data (ie + 1)).toNat - gtkEncapMinLen ≤ tkipTkLen := by omega
        refine .bind (.modifyState fun w hw => ?_) fun _ => .ite (.pure _) ?_
        · exact (hw.tail (.keyLen w (g.keyLen_le _ hlen))).tail
            (.aside ⟨rfl, rfl, rfl, rfl, rfl, rfl, rfl, rfl, rfl, rfl⟩)
        · exact .bind
            (confined_aside fun _ => ⟨rfl, rfl, rfl, rfl, rfl, rfl, rfl, rfl, rfl, rfl⟩)
            fun _ => .pure _

theorem confined_wpaDecrGtk (s : Sta) (f : Frame) (h : g.keyLen f.keyLen) :
    Confined c g w0 (wpaDecrGtk c s f) := by
  unfold wpaDecrGtk
  refine .bind (.modifyState fun w hw => ?_) fun _ => .ite ?_ (.ite ?_ (.pure _))
  · exact (hw.tail (.keyLen w h)).tail (.aside ⟨rfl, rfl, rfl, rfl, rfl, rfl, rfl, rfl, rfl, rfl⟩)
  · refine .ifThen (confined_throw _) fun _ => .bind (confined_aside fun _ => ?_) fun _ => .pure _
    exact ⟨rfl, rfl, rfl, rfl, rfl, rfl, rfl, rfl, rfl, rfl⟩
  · refine .bind (confined_aesUnwrap _ _) fun x => ?_
    cases x with
    | none => exact .pure _
    | some key =>
        refine .ifThen (confined_throw _) fun _ => .bind (confined_aside fun _ => ?_) fun _ =>
          .pure _
        exact ⟨rfl, rfl, rfl, rfl, rfl, rfl, rfl, rfl, rfl, rfl⟩

theorem confined_tempGtk : Confined c g w0 tempGtk := by
  unfold tempGtk
  exact .bind .get fun _ => .ifThen (confined_throw _) fun _ => .pure _

theorem confined_gtkChanged (old : Bytes) : Confined c g w0 (gtkChanged old) := by
  unfold gtkChanged
  exact .bind .get fun _ => .ifThen (confined_throw _) fun _ => .pure _

theorem confined_supExtractGtk (f : Frame) : Confined c g w0 (supExtractGtk f) := by
  unfold supExtractGtk
  exact .bind confined_tempGtk fun _ => .bind (confined_wpaExtractGtk f) fun _ =>
    .ite (.pure _) (.bind (confined_gtkChanged _) fun _ => .pure _)

theorem confined_supInstallChecks (i : Slot) (f : Frame) :
    Confined c g w0 (supInstallChecks i f) := by
  unfold supInstallChecks
  refine .bind (confined_getSta i) fun s => .ite (.pure _) (.ite ?_ (.ite (.pure _) (.pure _)))
  refine .bind (confined_supExtractGtk f) fun x => ?_
  cases x with
  | none => exact .pure _
  | some update => exact .pure _

theorem confined_supMsg1 (hrole : c.cfg.role = .supplicant) (i : Slot) (f : Frame) :
    Confined c g w0 (supMsg1 c i f) := by
  have hanonce : StaKept c g fun s => { s with anonce := f.nonce } := by
    refine ⟨fun _ hs => hs, .inr fun s => ?_, fun _ hs => hs⟩
    rw [Ctx.ownNonce, Ctx.ownNonce, hrole]
  unfold supMsg1
  refine .bind (confined_getSta i) fun _ => .ite ?_ (.pure _)
  exact .bind (confined_modSta i hanonce) fun _ => confined_wpaCalcPtk i

theorem confined_supPtkUpdate (i : Slot) (f : Frame) : Confined c g w0 (supPtkUpdate i f) := by
  unfold supPtkUpdate
  refine .ite (.pure _) (.bind (confined_getSta i) fun s => ?_)
  cases s.pkState with
  | done => exact .bind (confined_modSta_pae i fun _ => rfl) fun _ => .pure _
  | _ => exact .pure _

theorem confined_supPairwiseChecks (hrole : c.cfg.role = .supplicant) (i : Slot) (f : Frame) :
    Confined c g w0 (supPairwiseChecks c i f) := by
  unfold supPairwiseChecks
  refine .ifElse (confined_supInstallChecks i f) (.pure _) fun x => ?_
  cases x with
  | error r => exact .pure _
  | ok update => exact .ifThen (confined_supMsg1 hrole i f) fun _ => .pure _

theorem confined_supPairwise (hrole : c.cfg.role = .supplicant) (i : Slot) (f : Frame)
    (state : PkState) : Confined c g w0 (supPairwise c i f state) := by
  unfold supPairwise
  refine .ifElse (confined_supPairwiseChecks hrole i f) (.pure _) fun x => ?_
  cases x with
  | error r => exact .pure _
  | ok gtk =>
      refine .ifElse (confined_supPtkUpdate i f) (.pure _) fun y => ?_
      cases y with
      | error r => exact .pure _
      | ok ptk => exact .pure _

/-- A group key message; with WPA it sets the length of the key to the one in its header. -/
theorem supGroup_effects {w : World} {i : Slot} {f : Frame} (hw : Effects c g w0 w)
    (hlen : checkWpa2 (w.sta i).mode = false → g.keyLen f.keyLen) :
    wp (supGroup c i f) (fun _ => Effects c g w0) (fun _ => Effects c g w0) w := by
  unfold supGroup
  rw [wp_bind, wp_getSta, wp_ite]
  refine ⟨fun _ => ?_, fun hmode => ?_⟩
  · refine Keeps.bind (confined_supExtractGtk f) (fun x => ?_) w hw
    cases x with
    | none => exact .pure _
    | some update => exact .pure _
  · refine Keeps.bind confined_tempGtk (fun _ => .bind (confined_wpaDecrGtk _ f ?_) fun _ =>
      .ite (.pure _) (.bind (confined_gtkChanged _) fun _ => ?_)) w hw
    · exact hlen (eq_false_of_ne_true hmode)
    · exact .ite (.bind (confined_wpaPlumbGtk _) fun _ => .pure _) (.pure _)

theorem confined_supExpected (i : Slot) (f : Frame) : Confined c g w0 (supExpected i f) := by
  unfold supExpected
  refine .bind (confined_modSta_pae i fun _ => rfl) fun _ => .ite ?_ ?_
  · exact .bind (confined_modSta_pae i fun _ => rfl) fun _ => .pure _
  · exact .bind (confined_getSta i) fun _ => .pure _

theorem supVerify_effects {w : World} {i : Slot} {f : Frame} {state : PkState}
    (hrole : c.cfg.role = .supplicant) (hw : Effects c g w0 w)
    (hlen : has f.keyInfo wpaKeyPairwise = false → state = .micok →
      checkWpa2 (w.sta i).mode = false → g.keyLen f.keyLen) :
    wp (supVerify c i f state) (fun _ => Effects c g w0) (fun _ => Effects c g w0) w := by
  unfold supVerify
  rw [wp_ite]
  refine ⟨fun _ => ?_, fun hgroup => ?_⟩
  · exact Keeps.bind (confined_supExpected i f)
      (fun _ => .ite (confined_supPairwise hrole i f state) (.pure _)) w hw
  · rw [wp_bind, wp_modSta, wp_ite]
    have hw1 := confined_modSta_pae (g := g) i (f := fun s => { s with state := .supStakeystartg })
      (fun _ => rfl) w hw
    refine ⟨fun hmic => supGroup_effects hw1 fun hmode => ?_, fun _ => hw1⟩
    rw [World.updSta_same] at hmode
    exact hlen (eq_false_of_ne_true hgroup) hmic hmode

theorem confined_supInstallPtk (i : Slot) : Confined c g w0 (supInstallPtk c i) := by
  unfold supInstallPtk
  refine .bind (confined_getSta i) fun _ => .bind (confined_nasSetKey _) fun _ => ?_
  exact .ite (confined_nasDeauthenticate _ _) (confined_modSta_pae i fun _ => rfl)

theorem confined_supFinish (i : Slot) (f : Frame) (v : SupVerdict) :
    Confined c g w0 (supFinish c i f v) := by
  unfold supFinish
  refine .ifReturn (confined_wpaSendEapol i) (.pure _) ?_
  refine .ifThen (confined_supInstallPtk i) fun _ => ?_
  refine .ifReturn (confined_wpaPlumbGtk _) (.pure _) ?_
  refine .ifThen (confined_modSta_pae i fun _ => rfl) fun _ => .ite ?_ (.pure _)
  exact .bind (confined_getSta i) fun _ => .bind (confined_emit rfl) fun _ =>
    .bind (confined_wpaStopRetx i) fun _ => .bind (confined_modSta_pae i fun _ => rfl) fun _ =>
      .pure _

theorem withData_keyInfo (f : Frame) (d : Bytes) : (f.withData d).keyInfo = f.keyInfo := by
  simp [Frame.withData, Frame.keyInfo, Mem.u16]

theorem withData_keyLen (f : Frame) (d : Bytes) : (f.withData d).keyLen = f.keyLen := by
  simp [Frame.withData, Frame.keyLen, Mem.u16]

/-- The header of the opened frame is the one that was received. -/
def SameHeader (f : Frame) (x : Option Frame) : Prop :=
  ∀ f', x = some f' → f'.keyInfo = f.keyInfo ∧ f'.keyLen = f.keyLen

theorem sameHeader_withData (f : Frame) (x : Option Bytes) : SameHeader f (x.map f.withData) := by
  intro f' h
  obtain ⟨d, -, rfl⟩ := Option.map_eq_some_iff.mp h
  exact ⟨withData_keyInfo f d, withData_keyLen f d⟩

theorem wpaDecrKeyData_header (s : Sta) (f : Frame) (w : World) :
    wp (wpaDecrKeyData c s f) (fun x w' => SameHeader f x ∧ w' = w) (fun _ w' => w' = w) w := by
  simp only [wpaDecrKeyData, wp_ite, wp_bind, wp_pure, aesUnwrap, wp_throw]
  refine ⟨fun _ => ⟨?_, trivial⟩, fun _ => ⟨fun _ => ⟨fun _ => trivial, fun _ => ⟨?_, trivial⟩⟩,
    fun _ => ⟨?_, trivial⟩⟩⟩
  · exact sameHeader_withData f (some _)
  · exact sameHeader_withData f _
  · intro f' h
    cases h

/-- The supplicant verifies the frame as a group key message of WPA. -/
def groupFrame (c : Ctx) (w : World) (f : Frame) (i : Slot) : Bool :=
  processed w f i && !has f.keyInfo wpaKeyPairwise && verified c (w.sta i) f
    && !checkWpa2 (w.sta i).mode

theorem supMic_micok {s : Sta} {f : Frame} (h : supMic c s f = .micok) : verified c s f = true := by
  unfold supMic at h
  unfold verified
  split at h
  · rename_i hmic
    split at h
    · rename_i hcheck
      rw [hmic, hcheck]
      rfl
    · cases h
  · cases h

theorem eapolSupProcessKey_effects {w : World} {i : Slot} {f : Frame}
    (hrole : c.cfg.role = .supplicant) (hw : Effects c g w0 w)
    (hlen : has f.keyInfo wpaKeyPairwise = false → verified c (w.sta i) f = true →
      checkWpa2 (w.sta i).mode = false → g.keyLen f.keyLen) :
    wp (eapolSupProcessKey c i f) (fun _ => Effects c g w0) (fun _ => Effects c g w0) w := by
  have hw1 := confined_modSta_pae (g := g) i (f := fun s => { s with replay := f.replay })
    (fun _ => rfl) w hw
  have hverify : ∀ f', f'.keyInfo = f.keyInfo → f'.keyLen = f.keyLen →
      wp (supVerify c i f' (supMic c ((w.updSta i fun s => { s with replay := f.replay }).sta i) f))
        (fun _ => Effects c g w0) (fun _ => Effects c g w0)
        (w.updSta i fun s => { s with replay := f.replay }) := by
    intro f' hinfo hkey
    refine supVerify_effects hrole hw1 fun hgroup hmic hmode => ?_
    rw [World.updSta_same] at hmic hmode
    rw [hinfo] at hgroup
    rw [hkey]
    exact hlen hgroup (supMic_micok hmic) hmode
  simp only [eapolSupProcessKey, wp_bind, wp_modSta, wp_getSta, wp_ite, wp_pure]
  refine ⟨fun _ => ?_, fun _ => ?_⟩
  · refine wp_mono (wpaDecrKeyData_header _ f _) (fun x w1 h => ?_) (fun _ w1 h => by rwa [h])
    obtain ⟨hx, rfl⟩ := h
    cases x with
    | none => exact hw1
    | some f' =>
        obtain ⟨hinfo, hkey⟩ := hx f' rfl
        dsimp only
        rw [wp_bind]
        refine wp_mono (hverify f' hinfo hkey) (fun y w2 h2 => ?_) (fun _ _ h => h)
        cases y with
        | error r => exact h2
        | ok v => exact confined_supFinish i f' v w2 h2
  · refine wp_mono (hverify f rfl rfl) (fun y w2 h2 => ?_) (fun _ _ h => h)
    cases y with
    | error r => exact h2
    | ok v => exact confined_supFinish i f v w2 h2

theorem processSupWpa_effects {w : World} {i : Slot} {f : Frame}
    (hrole : c.cfg.role = .supplicant) (hw : Effects c g w0 w)
    (hlen : ((w.sta i).state == .supAuthentication || (w.sta i).state == .supStakeystartp
        || (w.sta i).state == .supStakeystartg) = true →
      has f.keyInfo wpaKeyPairwise = false → verified c (w.sta i) f = true →
      checkWpa2 (w.sta i).mode = false → g.keyLen f.keyLen) :
    wp (processSupWpa c f i) (fun _ => Effects c g w0) (fun _ => Effects c g w0) w := by
  have hw1 := confined_modSta_pae (g := g) i (f := fun s => { s with
    state := if s.state = .supAuthentication then .supStakeystartp else s.state,
    retryState := if s.retryState = .supAuthentication then .supStakeystartp else s.retryState })
    (fun _ => rfl) w hw
  have hw2 := confined_wpaStopRetx i _ hw1
  have hgo : ((w.sta i).state == .supAuthentication || (w.sta i).state == .supStakeystartp
      || (w.sta i).state == .supStakeystartg) = true →
      wp (do wpaStopRetx i; return decide ((← eapolSupProcessKey c i f) = .error))
        (fun _ => Effects c g w0) (fun _ => Effects c g w0) (w.updSta i fun s => { s with
          state := if s.state = .supAuthentication then .supStakeystartp else s.state,
          retryState :=
            if s.retryState = .supAuthentication then .supStakeystartp else s.retryState }) := by
    intro hst
    simp only [wpaStopRetx, wp_bind, wp_modSta, wp_pure]
    refine wp_mono (eapolSupProcessKey_effects hrole hw2 fun hgroup hver hmode => ?_)
      (fun _ _ h => h)
      (fun _ _ h => h)
    rw [World.updSta_same, World.updSta_same] at hver hmode
    exact hlen hst hgroup hver hmode
  simp only [processSupWpa, wp_bind, wp_modSta, wp_getSta]
  rw [World.updSta_same]
  cases hst : (w.sta i).state with
  | supAuthentication => exact hgo (by simp [hst])
  | supStakeystartp => exact hgo (by simp [hst])
  | supStakeystartg => exact hgo (by simp [hst])
  | _ => exact hw1

theorem eapolSupDispatch_effects {w : World} {f : Frame} (hrole : c.cfg.role = .supplicant)
    (hw : Effects c g w0 w)
    (hlen : ∀ i, groupFrame c w f i = true → g.keyLen f.keyLen) :
    wp (eapolSupDispatch c f) (fun _ => Effects c g w0) (fun _ => Effects c g w0) w := by
  simp only [eapolSupDispatch, wp_bind]
  refine wp_mono (wp_and (confined_lookupSta f.shost true w hw)
    (lookupSta_spec c .gtkTimer w0 false w f.shost true))
    (fun x w1 hx => ?_) (fun _ _ h => h.1)
  obtain ⟨hw1, hl, -⟩ := hx
  cases x with
  | none => exact hw1
  | some i =>
      simp only [wp_bind, wp_getSta, wp_ite, wp_pure]
      refine ⟨fun hkey => ?_, fun _ => hw1⟩
      refine wp_mono (processSupWpa_effects hrole hw1 fun hst hgroup hver hmode => ?_)
          (fun _ w2 h2 =>
        ⟨fun _ => confined_cleanupSta i _ _ w2 h2, fun _ => h2⟩) (fun _ _ h => h)
      simp only [Bool.and_eq_true, decide_eq_true_eq] at hkey
      cases hl with
      | old j hfind =>
          rw [World.updSta_same] at hst hver hmode hkey
          refine hlen i ?_
          simp only [groupFrame, processed, delivered, hfind, hgroup, Bool.and_eq_true, beq_iff_eq]
          refine ⟨⟨⟨⟨⟨⟨⟨⟨trivial, hkey.1.1.1⟩, hkey.1.1.2⟩, hkey.1.2⟩, by simpa using hkey.2⟩, hst⟩,
            rfl⟩, hver⟩, ?_⟩
          simpa using hmode
      | new j w2 hfind hfound hsta hframes hcm hreach =>
          rw [hsta, newSta_mode] at hkey
          simp at hkey

/-! ## RADIUS -/

theorem confined_radiusForward (i : Slot) {eap : Bytes} (h : g.forward eap) :
    Confined c g w0 (radiusForward c i eap) := by
  unfold radiusForward
  refine .bind (confined_getSta i) fun s => .bind (confined_oracle _) fun _ =>
    .bind (confined_modSta_state i fun _ => rfl) fun _ =>
      .bind (fun _ hw => hw.tail (.forward _ _ _ _ h)) fun _ => ?_
  exact .bind (confined_oracle _) fun _ => confined_modSta_state i fun _ => rfl

theorem confined_radiusAttrs (i : Slot) (code : RadiusCode) (l : List RadiusAttr) (x : Gathered) :
    Confined c g w0 (radiusAttrs i code l x) := by
  induction l generalizing x with
  | nil => exact .pure _
  | cons a l ih =>
      cases a with
      | messageAuthenticator valid => exact .ite (ih _) (.pure _)
      | state v => exact .bind (confined_modSta_state i fun _ => rfl) fun _ => ih _
      | eapMessage first id v =>
          unfold radiusAttrs
          exact .ifThen (confined_modSta_state i fun _ => rfl) fun _ => ih _
      | mppeSend plain => exact ih _
      | mppeRecv plain => exact ih _
      | sessionTimeout n =>
          unfold radiusAttrs
          exact .ifThen (confined_modSta_state i fun _ => rfl) fun _ => ih _
      | wnm kind =>
          unfold radiusAttrs
          refine .ifThen (confined_aside fun _ => ?_) fun _ => ih _
          exact ⟨rfl, rfl, rfl, rfl, rfl, rfl, rfl, rfl, rfl, rfl⟩
      | other => exact ih _
      | bad => exact .pure _

theorem fakeKeyRequest_noReport (s s' : Sta) : failureReport c s (fakeKeyRequest s') = false := by
  have h : has (fakeKeyRequest s').keyInfo wpaKeyError = false := by
    rw [fakeKeyRequest_keyInfo]
    decide
  simp [failureReport, h]

theorem confined_processWpa_fake (i : Slot) (s : Sta) :
    Confined c g w0 (processWpa c (fakeKeyRequest s) i) := by
  intro w hw
  refine wp_mono (processWpa_changes w i (.inr ⟨s, rfl⟩)) (fun _ w' h => hw.trans (h.effects ?_))
    (fun _ w' h => hw.trans (h.effects ?_))
  · simp [fakeKeyRequest_noReport]
  · simp [fakeKeyRequest_noReport]

theorem confined_fixWpa (i : Slot) (plain : Bytes) : Confined c g w0 (fixWpa c i plain) := by
  have hgo : ∀ s, Confined c g w0 (do
      if ← processWpa c (fakeKeyRequest s) i then cleanupSta c i dot11Rc8021xAuthFail false) :=
    fun s => .bind (confined_processWpa_fake i s) fun _ =>
      .ite (confined_cleanupSta i _ _) (.pure _)
  unfold fixWpa
  refine .bind (confined_getSta i) fun s => .bind (confined_emit rfl) fun _ =>
    .bind (confined_modSta_pae i fun _ => rfl) fun _ => .ite ?_ (hgo s)
  refine .bind (confined_nasWpaCalcPmkid i) fun _ => .ite ?_ (hgo s)
  exact .bind (confined_modSta_pae i fun _ => rfl) fun _ => .pure _

theorem confined_eapolRc4Key (i : Slot) (key : Bytes) (index : Nat) (unicast : Bool) :
    Confined c g w0 (eapolRc4Key c i key index unicast) :=
  .bind (confined_oracle _) fun _ => .bind (confined_getSta i) fun _ => confined_emit rfl

theorem confined_cobbleGtk : Confined c g w0 (cobbleGtk c) := by
  unfold cobbleGtk
  refine .bind .get fun w => .ite (.pure _) (.bind (.modifyState fun w hw => ?_) fun _ => ?_)
  · by_cases h : w.gtkLen = 0
    · rw [if_pos h]
      exact (hw.tail (.keyLen w (g.keyLen_le wep128KeySize (by decide)))).tail
        (.aside ⟨rfl, rfl, rfl, rfl, rfl, rfl, rfl, rfl, rfl, rfl⟩)
    · rw [if_neg h]
      exact hw.tail (.aside ⟨rfl, rfl, rfl, rfl, rfl, rfl, rfl, rfl, rfl, rfl⟩)
  · refine .bind (confined_oracle _) fun r => .bind (confined_aside fun _ => ?_) fun _ =>
      .bind .get fun w => ?_
    · exact ⟨rfl, rfl, rfl, rfl, rfl, rfl, rfl, rfl, rfl, rfl⟩
    · refine .bind (confined_nasSetKey _) fun _ => .ifThen (confined_throw _) fun _ =>
        confined_aside fun _ => ?_
      exact ⟨rfl, rfl, rfl, rfl, rfl, rfl, rfl, rfl, rfl, rfl⟩

theorem confined_radiusPlumb (i : Slot) (plain : Bytes) :
    Confined c g w0 (radiusPlumb c i plain) := by
  unfold radiusPlumb
  refine .bind confined_cobbleGtk fun _ => .bind .get fun w =>
      .bind (confined_eapolRc4Key i _ _ _) fun _ =>
    .bind (confined_getSta i) fun s => .bind (confined_nasSetKey _) fun _ => ?_
  exact .ifThen (confined_cleanupSta i _ _) fun _ => .bind (confined_eapolRc4Key i _ _ _) fun _ =>
    confined_emit rfl

theorem confined_authenticated {i : Slot} (h : g.authenticate i) :
    Confined c g w0 (paeState i .authenticated) :=
  .bind (fun _ hw => hw.tail (.authenticate _ h (fun _ hs => hs) fun _ => rfl)) fun _ =>
    .bind (fun _ hw => hw.tail (.success _ h rfl)) fun _ => confined_modSta_state i fun _ => rfl

/-- An Access-Accept authenticates the station if an EAP success has been seen. -/
theorem radiusAccept_effects {w : World} {i : Slot} {x : Gathered} (hw : Effects c g w0 w)
    (hauth : (w.sta i).pae.eapSuccess = true → g.authenticate i) :
    wp (radiusAccept c i x) (fun _ => Effects c g w0) (fun _ => Effects c g w0) w := by
  unfold radiusAccept
  rw [wp_bind, wp_getSta, wp_ite]
  refine ⟨fun _ => ?_, fun hs => ?_⟩
  · refine Keeps.bind (confined_paeState i PaeState.noConfusion) (fun _ => ?_) w hw
    exact .bind (confined_getSta i) fun _ => .bind (confined_emit rfl) fun _ => .pure _
  · have h : g.authenticate i := hauth (by simpa using hs)
    rw [wp_bind]
    refine wp_mono (confined_authenticated h w hw) (fun _ w1 h1 => ?_) (fun _ _ h => h)
    rw [wp_bind, wp_modSta]
    have h2 := confined_modSta_state (g := g) i (f := fun s => { s with pae := { s.pae with
      ssnto := if s.pae.ssnto = 0 ∨ c.cfg.ssnTo < s.pae.ssnto then c.cfg.ssnTo else s.pae.ssnto } })
      (fun _ => rfl) w1 h1
    cases x.mppeRecv with
    | none => exact h2
    | some plain =>
        refine Keeps.bind (confined_getSta i) (fun _ => ?_) _ h2
        exact .ite (confined_fixWpa i plain) (confined_radiusPlumb i plain)

theorem confined_radiusReject (i : Slot) : Confined c g w0 (radiusReject i) :=
  .bind (confined_paeState i PaeState.noConfusion) fun _ => .bind (confined_getSta i) fun _ =>
    .bind (confined_emit rfl) fun _ => confined_modSta_state i fun _ => rfl

theorem confined_radiusRelay (i : Slot) (code : RadiusCode) {x : Gathered}
    (h : g.relay x.length x.frags.flatten) : Confined c g w0 (radiusRelay i code x) := by
  unfold radiusRelay
  cases x.eap with
  | none => exact .pure _
  | some y =>
      refine .bind (confined_modSta_state i fun _ => rfl) fun _ => .ite ?_ (.pure _)
      exact .bind (confined_getSta i) fun _ => fun _ hw => hw.tail (.relay _ _ _ h)

theorem radiusEvent_effects {w : World} {i : Slot} {code : RadiusCode} {x : Gathered}
    (hw : Effects c g w0 w)
    (hauth : code = .accept → x.authenticated = true → (w.sta i).pae.eapSuccess = true →
      g.authenticate i)
    (hrelay : x.authenticated = true ∨ code = .reject → g.relay x.length x.frags.flatten) :
    wp (radiusEvent c i code x) (fun _ => Effects c g w0) (fun _ => Effects c g w0) w := by
  simp only [radiusEvent, wp_ite, wp_bind, wp_pure]
  refine ⟨fun _ => hw, fun hgo => ?_⟩
  have hsigned : x.authenticated = true ∨ code = .reject := by
    by_contra hno
    rw [not_or, Bool.not_eq_true] at hno
    exact hgo (by simp [hno.1, hno.2])
  refine wp_mono (wp_and (confined_radiusRelay i code (hrelay hsigned) w hw)
    (radiusRelay_spec w i false code x)) (fun _ w1 h1 => ?_) (fun _ _ h => h.1)
  cases code with
  | accept =>
      refine radiusAccept_effects h1.1 fun hs => hauth rfl ?_ (by rwa [← h1.2.2])
      rcases hsigned with h | h
      · exact h
      · cases h
  | reject => exact confined_radiusReject i w1 h1.1
  | challenge => exact h1.1
  | other => exact h1.1

/-- The response answers the request of the station in its slot. -/
def pending (w : World) (r : RadiusResponse) : Bool :=
  (w.sta r.slot).used && (w.sta r.slot).pae.request == some r.id.toNat

/-- What the attribute loop makes of the response. -/
def gathered (w : World) (r : RadiusResponse) : Option (Gathered × Bool) :=
  gather r.code r.attrs .empty (w.sta r.slot).pae.eapSuccess

/-- An Access-Accept with a valid signature, and an EAP success in it or seen before. -/
def admits (w : World) (r : RadiusResponse) : Bool :=
  pending w r && r.code == .accept && (gathered w r).any fun x => x.1.authenticated && x.2

/-- The EAP message that a response with a valid signature, or a reject, relays. -/
def relays (w : World) (r : RadiusResponse) (length : Nat) (eap : Bytes) : Prop :=
  pending w r = true ∧ ∃ x ok, gathered w r = some (x, ok)
    ∧ (x.authenticated = true ∨ r.code = .reject) ∧ length = x.length ∧ eap = x.frags.flatten

theorem radiusDispatch_effects {w : World} {r : RadiusResponse} (hw : Effects c g w0 w)
    (hauth : admits w r = true → g.authenticate r.slot)
    (hrelay : ∀ length eap, relays w r length eap → g.relay length eap) :
    wp (radiusDispatch c r) (fun _ => Effects c g w0) (fun _ => Effects c g w0) w := by
  have hw1 : Effects c g w0 { w with wnm := ⟨false, false, false⟩ } :=
    hw.tail (.aside ⟨rfl, rfl, rfl, rfl, rfl, rfl, rfl, rfl, rfl, rfl⟩)
  -- The request is forgotten in the end.
  have hend :
      Confined c g w0 (modSta r.slot fun s => { s with pae := { s.pae with request := none } }) :=
    confined_modSta_state r.slot fun _ => rfl
  simp only [radiusDispatch, wp_bind, wp_modify, wp_getSta, wp_ite, wp_pure]
  refine ⟨fun _ => hw1, fun hused => ⟨fun _ => hw1, fun hreq => ?_⟩⟩
  have hpending : pending w r = true := by
    simp only [Bool.not_eq_true', Bool.not_eq_false, not_not] at hused hreq
    simp [pending, hused, hreq]
  refine wp_mono (wp_and (confined_radiusAttrs r.slot r.code r.attrs .empty _ hw1)
    (radiusAttrs_spec r.slot false r.code r.attrs _ _)) (fun x w1 h1 => ?_) (fun _ _ h => h.1)
  cases x with
  | none => exact hend w1 h1.1
  | some x =>
      have hx : gathered w r = some (x, (w1.sta r.slot).pae.eapSuccess) := h1.2.2 x rfl
      simp only [wp_bind, wp_modSta]
      refine wp_mono (radiusEvent_effects h1.1 (fun hcode hsig hs => hauth ?_) (fun hsig =>
        hrelay _ _ ⟨hpending, x, _, hx, hsig, rfl, rfl⟩)) (fun _ w2 h2 => ?_) (fun _ _ h => h)
      · simp [admits, hpending, hcode, hx, hsig, hs]
      · exact hend w2 h2

/-! ## EAPOL frames -/

/-- The EAP packet of a frame, as long as it says it is. -/
def Frame.eap (f : Frame) : Bytes := f.mem.slice 18 f.eapLength

theorem confined_eapPacketCase {f : Frame} (i : Slot) (h : g.forward f.eap) :
    Confined c g w0 (eapPacketCase c f i) := by
  unfold eapPacketCase
  refine .ite (.pure _) (.ite ?_ (confined_radiusForward i h))
  refine .bind (confined_getSta i) fun s => .ite (.pure _) (.ite (.pure _) (.ite (.pure _) ?_))
  refine .ifThen (confined_modSta_state i fun _ => rfl) fun _ => ?_
  exact .bind (confined_paeState i PaeState.noConfusion) fun _ => confined_radiusForward i h

theorem confined_eapolLogoffCase (i : Slot) : Confined c g w0 (eapolLogoffCase i) := by
  unfold eapolLogoffCase
  refine .bind (confined_getSta i) fun s =>
    .ifThen (confined_paeState i PaeState.noConfusion) fun _ => ?_
  exact .bind (confined_paeState i PaeState.noConfusion) fun _ => .bind (confined_getSta i) fun _ =>
    confined_emit rfl

theorem confined_eapolCases {f : Frame} (i : Slot) (h : f.type = eapPacket → g.forward f.eap) :
    Confined c g w0 (if f.type = eapPacket then eapPacketCase c f i else if f.type =
      eapolStart then eapolStartCase i
      else if f.type = eapolLogoff then eapolLogoffCase i else pure ()) := by
  by_cases htype : f.type = eapPacket
  · rw [if_pos htype]
    exact confined_eapPacketCase i (h htype)
  · rw [if_neg htype]
    exact .ite (confined_eapolStartCase i) (.ite (confined_eapolLogoffCase i) (.pure _))

/-- The frame is a verified MIC failure report of a station that holds keys. -/
def frameReports (c : Ctx) (w : World) (f : Frame) : Prop :=
  ∃ i, delivered w f i = true ∧ reportable c w f i = true ∧ failureReport c (w.sta i) f = true

theorem eapolDispatchEx_changes (w : World) {f : Frame}
    (hrole : c.cfg.role = .authenticator ∨ g.foreignNonce)
    (hforward : f.type = eapPacket → g.forward f.eap) :
    wpChanges c g (frameReports c w f) (eapolDispatchEx c f false) w := by
  simp only [wpChanges, eapolDispatchEx, wp_bind]
  refine wp_mono (wp_and (confined_lookupSta f.shost true w .refl)
    (lookupSta_spec c .gtkTimer w false w f.shost true))
    (fun x w1 hx => ?_) (fun _ _ h => .calm h.1)
  obtain ⟨hw1, hl, -⟩ := hx
  cases x with
  | none => exact .calm hw1
  | some i =>
      simp only [wp_bind, wp_getSta, wp_ite, wp_pure, wp_modSta, Bool.not_false, true_implies,
        not_true_eq_false, false_implies, and_true]
      refine ⟨fun _ => .calm hw1,
        fun _ => ⟨fun hkey => ?_, fun _ => ⟨fun _ => .calm hw1, fun _ => ?_⟩⟩⟩
      · have hmono : reportable c w1 f i = true ∧ failureReport c (w1.sta i) f = true →
            frameReports c w f := by
          intro hm
          simp only [Bool.and_eq_true, decide_eq_true_eq] at hkey
          cases hl with
          | old j hfind =>
              refine ⟨i, ?_, ?_, ?_⟩
              · rw [World.updSta_same] at hkey
                simp only [delivered, hfind, Bool.and_eq_true, beq_iff_eq]
                exact ⟨⟨⟨⟨trivial, hkey.1.1.1⟩, hkey.1.1.2⟩, hkey.1.2⟩, by simpa using hkey.2⟩
              · have h := hm.1
                unfold reportable at h
                rw [World.updSta_same] at h
                exact h
              · have h := hm.2
                rw [World.updSta_same] at h
                exact h
          | new j w2 hfind hfound hsta hframes hcm hreach =>
              rw [hsta, newSta_mode] at hkey
              simp at hkey
        refine wp_mono (processWpa_changes w1 i (.inl hrole)) (fun b w2 h2 => ?_) (fun _ w2 h2 =>
          (h2.mono hmono).before hw1)
        have h2' := (h2.mono hmono).before hw1
        refine ⟨fun _ => ?_, fun _ => h2'⟩
        exact wp_mono (confined_cleanupSta i _ _ w2 .refl) (fun _ w3 h3 => h2'.after h3)
          (fun _ w3 h3 => h2'.after h3)
      · have hw2 := confined_modSta_pae (g := g) i (f := fun s => { s with preAuth := false })
          (fun _ => rfl) w1 hw1
        have hcalm : ∀ w2, Effects c g w w2 → Changes c g (frameReports c w f) w w2 :=
          fun _ h => .calm h
        have h := wp_mono (confined_eapolCases i hforward _ hw2) (fun _ => hcalm) (fun _ => hcalm)
        simpa only [wp_ite, wp_pure] using h

theorem confined_preauth {f : Frame} (h : f.type = eapPacket → g.forward f.eap) :
    Confined c g w0 (eapolDispatchEx c f true) := by
  unfold eapolDispatchEx
  refine .bind (confined_lookupSta _ _) fun x => ?_
  cases x with
  | none => exact .pure _
  | some i =>
      refine .bind (confined_getSta i) fun s => .ite (.pure _) ?_
      exact .bind (confined_modSta_pae i fun _ => rfl) fun _ => confined_eapolCases i h

/-! ## Driver messages and the watchdog -/

theorem confined_driverLink (m : DrvMsg) : Confined c g w0 (driverLink c m) := by
  unfold driverLink
  refine .ite (.pure _) ?_
  cases c.cfg.role with
  | authenticator =>
      refine .bind confined_nasGetWpacap fun _ => .ite (confined_aside fun _ => ?_) (.pure _)
      exact ⟨rfl, rfl, rfl, rfl, rfl, rfl, rfl, rfl, rfl, rfl⟩
  | supplicant => exact .ite (confined_driverAssoc m) (.pure _)

theorem confined_linkStart (i : Slot) : Confined c g w0 (linkStart c i) := by
  unfold linkStart
  cases c.cfg.role with
  | authenticator => exact confined_wpaStart i
  | supplicant => exact confined_wpaRequest i

theorem confined_wpaDriverDisassocMsg (m : DrvMsg) (sta : Option Slot) :
    Confined c g w0 (wpaDriverDisassocMsg c m sta) := by
  have hstart : ∀ i, Confined c g w0 (do
      if (← getSta i).td.isSome then return false
      linkStart c i
      return false) :=
    fun i => .bind (confined_getSta i) fun _ =>
      .ite (.pure _) (.bind (confined_linkStart i) fun _ => .pure _)
  unfold wpaDriverDisassocMsg
  refine .ite (.pure _) (.ite (.pure _) (.ite (.pure _) ?_))
  cases sta with
  | some i => exact hstart i
  | none =>
      refine .bind (confined_lookupSta _ _) fun x => ?_
      cases x with
      | none => exact .pure _
      | some i => exact hstart i

theorem confined_driverDisassoc (m : DrvMsg) : Confined c g w0 (driverDisassoc c m) := by
  unfold driverDisassoc
  refine .bind (confined_lookupSta _ _) fun sta =>
      .bind (confined_wpaDriverDisassocMsg m sta) fun _ =>
    .ite ?_ (.pure _)
  cases sta with
  | none => exact .pure _
  | some i => exact confined_cleanupSta i _ _

/-- The driver reports a MIC failure of a station in the table. -/
def driverReports (c : Ctx) (w : World) (m : DrvMsg) : Prop :=
  (has m.flags eventMsgGroup && c.cfg.role = .authenticator) = false
    ∧ ∃ i, w.find m.addr = some i ∧ micErrorProhibit c (w.sta i) false = false

theorem driverMicError_changes (w : World) (m : DrvMsg) :
    wpChanges c g (driverReports c w m) (driverMicError c m) w := by
  simp only [wpChanges, driverMicError, wp_bind]
  refine wp_mono (wp_and (confined_lookupSta m.addr false w .refl)
    (lookupSta_spec c .gtkTimer w false w m.addr false)) (fun x w1 hx => ?_)
      (fun _ _ h => .calm h.1)
  obtain ⟨hw1, hl, hfound⟩ := hx
  rw [wp_ite]
  refine ⟨fun _ => .calm hw1, fun hgroup => ?_⟩
  cases x with
  | none => exact .calm hw1
  | some i =>
      have hmono : micErrorProhibit c (w1.sta i) false = false → driverReports c w m := by
        intro hp
        refine ⟨eq_false_of_ne_true hgroup, i, hfound rfl i rfl, ?_⟩
        cases hl with
        | old j hfind =>
            rw [World.updSta_same] at hp
            exact hp
        | new j w2 hfind hnew hsta hframes hcm hreach =>
            rw [hfound rfl i rfl] at hfind
            cases hfind
      exact wp_mono (wpaMicError_changes w1 i true false)
        (fun _ w2 h => (h.mono hmono).before hw1) (fun _ w2 h => (h.mono hmono).before hw1)

theorem confined_watchdogSta (i : Slot) : Confined c g w0 (watchdogSta c i) := by
  unfold watchdogSta
  refine .bind (confined_getSta i) fun s => ?_
  cases s.pae.state with
  | authenticated =>
      refine .ite (.pure _) (.bind (confined_modSta_state i fun _ => rfl) fun _ => ?_)
      exact .ite (.pure _) (confined_sendIdentityReq i)
  | held =>
      refine .bind (confined_modSta_pae i fun _ => rfl) fun _ => ?_
      exact .ite (confined_paeState i PaeState.noConfusion) (.pure _)
  | connecting =>
      refine .bind (confined_modSta_pae i fun _ => rfl) fun _ => .ite (.ite ?_ ?_) (.pure _)
      · exact confined_paeState i PaeState.noConfusion
      · exact confined_paeState i PaeState.noConfusion
  | authenticating =>
      refine .bind (confined_modSta_pae i fun _ => rfl) fun _ => .ite ?_ (.pure _)
      exact .bind (confined_paeState i PaeState.noConfusion) fun _ =>
        confined_paeState i PaeState.noConfusion
  | _ => exact .pure _

theorem confined_nasWatchdog : Confined c g w0 (nasWatchdog c) :=
  confined_forM _ fun _ => .bind .get fun _ => confined_forM _ fun i => confined_watchdogSta i

/-! ## Events -/

/-- The event is a MIC failure report that is not prohibited. -/
def micReports (c : Ctx) (w : World) : Event → Prop
  | .eapol f => c.cfg.role = .authenticator ∧ frameReports c w f
  | .micError m => driverReports c w m
  | _ => False

/-- What the event asks for is granted. -/
structure Grants (c : Ctx) (g : Grant) (w : World) (ev : Event) : Prop where
  keyLen : ∀ f i, ev = .eapol f → c.cfg.role = .supplicant → groupFrame c w f i = true →
    g.keyLen f.keyLen
  authenticate : ∀ r, ev = .radius r → admits w r = true → g.authenticate r.slot
  relay : ∀ r length eap, ev = .radius r → relays w r length eap → g.relay length eap
  forward : ∀ f, ev = .eapol f ∨ ev = .preauth f → f.type = eapPacket → g.forward f.eap

theorem Grants.all (c : Ctx) (w : World) (ev : Event) : Grants c .all w ev :=
  ⟨fun _ _ _ _ _ => trivial, fun _ _ _ => trivial, fun _ _ _ _ _ => trivial, fun _ _ _ => trivial⟩

theorem dispatch_changes (w : World) {ev : Event} (hg : Grants c g w ev)
    (hev : ev ≠ .countermeasuresTimer) : wpChanges c g (micReports c w ev) (dispatch c ev) w := by
  cases ev with
  | eapol f =>
      unfold dispatch nasEapolMessageDispatch
      cases hrole : c.cfg.role with
      | authenticator =>
          exact wp_mono (eapolDispatchEx_changes w (.inl hrole) (hg.forward f (.inl rfl)))
            (fun _ _ h => h.mono fun hm => ⟨hrole, hm⟩)
            (fun _ _ h => h.mono fun hm => ⟨hrole, hm⟩)
      | supplicant =>
          exact wp_mono (eapolSupDispatch_effects hrole .refl fun i hi =>
            hg.keyLen f i rfl hrole hi)
            (fun _ _ h => .calm h) (fun _ _ h => .calm h)
  | preauth f => exact Keeps.changes (.ite (confined_preauth (hg.forward f (.inr rfl))) (.pure _))
  | link m => exact Keeps.changes (confined_driverLink m)
  | assoc m => exact Keeps.changes (confined_driverAssoc m)
  | disassoc m => exact Keeps.changes (confined_driverDisassoc m)
  | micError m => exact driverMicError_changes w m
  | radius r =>
      exact wp_mono (radiusDispatch_effects .refl (hg.authenticate r rfl)
        fun length eap h => hg.relay r length eap rfl h) (fun _ _ h => .calm h)
          (fun _ _ h => .calm h)
  | retxTimer i =>
      exact Keeps.changes (.bind (confined_getSta i) fun _ =>
        .ite (confined_wpaRetransmission i) (.pure _))
  | wdsTimer i =>
      refine Keeps.changes (.ite ?_ (.pure _))
      cases c.cfg.role with
      | authenticator => exact confined_startPkinit i
      | supplicant => exact confined_requestPkinit i
  | gtkTimer => exact Keeps.changes confined_wpaNewGtkCallback
  | ptkTimer => exact Keeps.changes (.bind .get fun _ => .ite confined_wpaNewPtkCallback (.pure _))
  | countermeasuresTimer => exact absurd rfl hev
  | watchdogTimer => exact Keeps.changes (.ite confined_nasWatchdog (.pure _))
  | forceRekey => exact Keeps.changes (.ite confined_wpaNewGtk (.pure _))

/-- The end of the lock-out. -/
def Released (c : Ctx) (g : Grant) (ev : Event) (w w' : World) : Prop :=
  ev = .countermeasuresTimer ∧ Effects c g { w with micCountermeasures := false } w'

/-- **What an event does.** -/
theorem step_changes {w : World} {t : Nat} {ev : Event} (hlive : w.halted = false)
    (hg : Grants c g w ev) :
    Changes c g (micReports c w ev) { w with now := t } (step c w (t, ev))
      ∨ Released c g ev { w with now := t } (step c w (t, ev)) := by
  have hhalt : ∀ w' : World, Effects c g w' { w' with halted := true } :=
    fun w' => .single (.aside ⟨rfl, rfl, rfl, rfl, rfl, rfl, rfl, rfl, rfl, rfl⟩)
  by_cases hev : ev = .countermeasuresTimer
  · subst hev
    refine step_of_wp c (P := fun w' => Changes c g (micReports c w .countermeasuresTimer)
      { w with now := t } w' ∨ Released c g .countermeasuresTimer { w with now := t } w') hlive ?_
    simp only [dispatch, wpaCountermeasuresCb, wp_bind, wp_get, wp_ite, wp_modify, wp_emit, wp_pure]
    refine ⟨fun _ => .inr ⟨rfl, ?_⟩, fun _ => .inl (.calm .refl)⟩
    have h : Effects c g { w with now := t, micCountermeasures := false }
        { w with now := t, micCountermeasures := false, countermeasuresTimer := none } :=
      .single (.aside ⟨rfl, rfl, rfl, rfl, rfl, rfl, rfl, rfl, rfl, rfl⟩)
    exact h.tail (.note _ rfl)
  · refine .inl (step_of_wp c hlive ?_)
    have hg' : Grants c g { w with now := t } ev :=
      ⟨hg.keyLen, hg.authenticate, hg.relay, hg.forward⟩
    exact wp_mono (dispatch_changes { w with now := t } hg' hev) (fun _ w' h => h)
      (fun _ w' h => h.after (hhalt w'))

/-! ## The start of an instance -/

/-- What is known of an instance before its stations are entered. -/
structure Booted (w : World) : Prop where
  log : w.log = []
  sta : w.sta = fun _ => Sta.zero
  counter : w.globalKeyCounter = w.initialGkc
  length : w.initialGkc.length = 32
  gtkLen : w.gtkLen ≤ tkipTkLen
  micFailures : w.micFailures = 0
  prevMicError : w.prevMicError = 0
  micCountermeasures : w.micCountermeasures = false
  gnonce : w.gnonce = List.replicate 32 0

theorem confined_nasStart : Confined c g w0 (nasStart c) := by
  unfold nasStart
  refine .ite (.pure _) (.bind (confined_lookupSta _ _) fun x => ?_)
  cases x with
  | none => exact .pure _
  | some i =>
      exact .ifThen (confined_modSta_pae i fun _ => rfl) fun _ =>
          .bind (confined_wpaSetSuppl i _ _ _) fun _ =>
        confined_linkStart i

theorem initSeeds_booted : Keeps Booted (fun _ _ => False) (initSeeds c) := by
  intro w h
  simp only [initSeeds, initGlobalKeyCounter, nasRand128, wp_bind, wp_ite, wp_pure, wp_oracle,
    wp_modify]
  refine ⟨fun _ => ⟨h.log, h.sta, rfl, ?_, h.gtkLen, h.micFailures, h.prevMicError,
    h.micCountermeasures, h.gnonce⟩, fun _ => h⟩
  exact List.length_take_of_le (c.crypto.le_fPRF_length _ _ _ _)

theorem initIndex_booted : Keeps Booted (fun _ _ => False) (initIndex c) := by
  intro w h
  simp only [initIndex, wp_bind, wp_ite, wp_pure, wp_modify]
  have hplain : Booted { w with gtkIndex := c.cfg.index - 1 } :=
    ⟨h.log, h.sta, h.counter, h.length, h.gtkLen, h.micFailures, h.prevMicError,
      h.micCountermeasures,
      h.gnonce⟩
  refine ⟨fun _ => ?_, fun _ => h⟩
  cases hkey : c.cfg.wepKey with
  | none => exact hplain
  | some key =>
      simp only [wp_ite, wp_modify, wp_pure]
      refine ⟨fun _ => ⟨h.log, h.sta, h.counter, h.length, ?_, h.micFailures, h.prevMicError,
        h.micCountermeasures, h.gnonce⟩, fun _ => hplain⟩
      rcases c.cfg.wep_ok key hkey with hlen | hlen
      · exact hlen.trans_le (by decide)
      · exact hlen.trans_le (by decide)

theorem nasGetWpacap_booted : Keeps Booted (fun _ _ => False) (nasGetWpacap c) := by
  have h : ∀ (f : World → World), (∀ w, Booted w → Booted (f w)) →
      Keeps Booted (fun _ _ => False) (modify f : NasM Unit) := fun f hf => .modifyState hf
  refine .bind (fun w h => ?_) fun x => ?_
  · exact ⟨h.log, h.sta, h.counter, h.length, h.gtkLen, h.micFailures, h.prevMicError,
      h.micCountermeasures, h.gnonce⟩
  · cases x with
    | none => exact .pure _
    | some cap =>
        exact h _ fun w h => ⟨h.log, h.sta, h.counter, h.length, h.gtkLen, h.micFailures,
          h.prevMicError, h.micCountermeasures, h.gnonce⟩

theorem nasInitKeys_booted : Keeps Booted (fun _ _ => False) (nasInitKeys c) := by
  unfold nasInitKeys
  refine .ifThen (.modifyState fun w h => ?_) fun _ => .bind initSeeds_booted fun _ =>
    .bind initIndex_booted fun _ => .ite nasGetWpacap_booted (.pure _)
  exact ⟨h.log, h.sta, h.counter, h.length, show wep128KeySize ≤ tkipTkLen by decide, h.micFailures,
    h.prevMicError, h.micCountermeasures, h.gnonce⟩

/-- The instance when its keys have been set up. -/
def bootWorld (c : Ctx) : World := finalState (nasInitKeys c) World.zero

/-- **The start of an instance** is a sequence of effects, after its keys have been set up. -/
theorem initWorld_effects (c : Ctx) (g : Grant) :
    Booted (bootWorld c) ∧ Effects c g (bootWorld c) (initWorld c) := by
  have hkeys :=
    nasInitKeys_booted (c := c) World.zero ⟨rfl, rfl, rfl, rfl, by decide, rfl, rfl, rfl, rfl⟩
  unfold wp at hkeys
  cases hm : nasInitKeys c World.zero with
  | error e w =>
      rw [hm] at hkeys
      exact hkeys.elim
  | ok u w =>
      rw [hm] at hkeys
      have hboot : bootWorld c = w := by
        rw [bootWorld, finalState, hm]
      rw [hboot]
      refine ⟨hkeys, ?_⟩
      have hinit : initWorld c = exec (nasStart c) w := by
        show exec (EStateM.bind _ _) _ = _
        rw [exec, EStateM.bind, hm]
        rfl
      rw [hinit]
      have h := confined_nasStart (c := c) (g := g) w .refl
      unfold wp at h
      unfold exec
      cases hs : nasStart c w with
      | ok _ w' => rwa [hs] at h
      | error _ w' =>
          rw [hs] at h
          exact h.tail (.aside ⟨rfl, rfl, rfl, rfl, rfl, rfl, rfl, rfl, rfl, rfl⟩)

end BroadcomWl.Nas
