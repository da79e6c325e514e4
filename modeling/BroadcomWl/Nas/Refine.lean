import BroadcomWl.Lib.Run
import BroadcomWl.Nas.RefineSup

/-!
# Refinement: events

Every event of the model is a sequence of steps of the automaton, and so is the start of an
instance. This is what the invariants of the automaton are transferred by.
-/

namespace BroadcomWl.Nas

open BroadcomWl.Lib Relation

variable {c : Ctx} {ev : Event} {w0 : World}

/-! ## Timers -/

section Timers

variable (c ev w0) (r : Bool) (w : World) (i : Slot) {A : Abs}

theorem retransmit_sim (hA : Reach c ev w0 A (abs r w)) (htd : (w.sta i).td.isSome = true) :
    wp (retransmit c i) (fun _ w' => Reach c ev w0 A (abs r w')) (Stops c ev w0 A) w := by
  simp only [retransmit, wpaStopRetx, wp_bind, wp_modSta, wp_getSta, wp_ite, World.updSta_same]
  cases hsends : (w.sta i).retryState.sends with
  | true =>
      refine wp_mono (wpaSendEapol_sends c ev w0 r _ i (w.sta i).retryState ?_ hsends)
        (fun b w1 h1 => ?_) (fun _ w1 h1 => ?_)
      · simp
      · obtain ⟨rfl, _, hs⟩ := h1
        refine ⟨by simp, fun _ => ?_⟩
        have hsta := hs.sta
        simp only [World.updSta_same] at hs
        refine Sends.move { (w.sta i).core with replay := incr (w.sta i).replay } hs hA rfl rfl
          ?_ ?_ ?_
        · simp [hsta, Sta.core]
        · intro j hj
          simp [hsta, hj]
        · intro a1 k ha1 _ _ _ hk
          have hm : Move c ev w0 a1 i _ _ :=
            .retx k (by rw [ha1]; exact htd) (by rw [ha1]; exact hk)
          rw [ha1] at hm
          exact hm
      · refine GtkOnly.stops h1 hA rfl (fun j => ?_)
        by_cases hj : j = i
        · subst hj; simp [Sta.core]
        · simp [hj, Sta.core]
  | false =>
      refine wp_mono (wpaSendEapol_other c r _ i ?_) (fun b w1 h1 => ?_) (fun _ _ h => h.elim)
      · simpa using hsends
      · rcases h1 with ⟨rfl, hseen⟩ | ⟨rfl, k, hk, hseen⟩
        · refine ⟨fun _ => ?_, fun h => absurd rfl h⟩
          have hcore : (w1.sta i).core = _ := congrArg (fun a => a.sta i) hseen
          refine reach_move i hA (.retxNothing htd hsends) ?_
          rw [abs_updSta, abs_updSta, hseen, World.updSta_same]
          show ((abs r _).put i _ []).put i { (w1.sta i).core with
            td := none, hndlr := false, state := (w.sta i).state } [] = _
          rw [hcore]
          simp [abs_updSta, Sta.core]
        · refine ⟨(by rintro ⟨⟩), fun _ => ?_⟩
          have hcore : (w1.sta i).core = _ := congrArg (fun a => a.sta i) hseen
          simp only [World.updSta_same] at hk hseen
          refine reach_move i hA (.retx k htd hk) ?_
          rw [abs_updSta, hseen]
          show ((abs r _).emit _).put i { (w1.sta i).core with state := (w.sta i).state } [] = _
          rw [hcore]
          have hcarried : carried (abs r w) (w.sta i).mode (w.sta i).retryState = none := by
            cases hst : (w.sta i).retryState with
            | ptkinitnegotiating => rw [hst] at hsends; cases hsends
            | rekeynegotiating => rw [hst] at hsends; cases hsends
            | _ => rfl
          simp [abs_updSta, Sta.core, hcarried]

theorem wpaRetransmission_sim (hA : Reach c ev w0 A (abs r w)) (hev : ev = .retxTimer i)
    (hsta : w.sta = w0.sta) (hcalls : w.calls = w0.calls)
    (hcm : w.micCountermeasures = w0.micCountermeasures) (htd : (w.sta i).td.isSome = true) :
    wp (wpaRetransmission c i) (fun _ w' => Reach c ev w0 A (abs r w')) (Stops c ev w0 A) w := by
  have hcount : ∀ f : Sta → Sta, (∀ s, (f s).core = s.core) →
      Reach c ev w0 A (abs r (w.updSta i f)) := by
    intro f hf
    rwa [abs_updSta_of_core (hf _)]
  simp only [wpaRetransmission, wpaStopRetx, wp_bind, wp_get, wp_ite, wp_pure, wp_getSta, wp_modSta,
    World.updSta_same]
  refine ⟨fun _ => hA, fun hno => ⟨fun hst => ?_, fun hst => ⟨fun _ => ?_, fun hex =>
    ⟨fun hwds => ⟨fun _ => ?_, fun _ => ⟨fun _ => ?_, fun _ => ?_⟩⟩, fun hwds =>
      ⟨fun hh => ?_, fun _ => ?_⟩⟩⟩⟩⟩
  · refine reach_move i hA (.stop ?_) ?_
    · simp only [Bool.or_eq_true, Bool.and_eq_true, decide_eq_true_eq] at hst
      rcases hst with hst | hst
      · exact .inl (by rw [abs_sta]; show (w.sta i).state.waiting = false; rw [hst]; rfl)
      · exact .inr (.inl hst.1)
    · rw [abs_updSta]
      rfl
  · exact retransmit_sim c ev w0 r _ i (hcount _ fun _ => rfl) (by simpa using htd)
  · refine wp_of_quiet (nasDeauthenticate_quiet c r _ _ _) (fun _ w1 h1 => ?_)
    refine retransmit_sim c ev w0 r w1 i ?_ ?_
    · rw [h1.seen]
      exact hcount _ fun _ => rfl
    · rw [h1.sta]
      simpa using htd
  · refine reach_move i hA (.stop (.inr (.inr ?_))) ?_
    · exact hwds
    · simp [abs_updSta, Sta.core]
  · exact retransmit_sim c ev w0 r _ i (hcount _ fun _ => rfl) (by simpa using htd)
  · -- The handler for exceeded retries.
    refine wp_mono (wpaPtkinitdone2_sim c ev w0 r _ i true (hcount _ fun _ => rfl) ?_
      (.inr ⟨rfl, hev, fun hkey => ?_⟩)) (fun _ w1 h1 => ?_) (fun _ _ h => h)
    · rw [World.updSta_same, hsta]
      rfl
    · simp only [hsta, hcm] at htd hno hst hex hwds hh
      have hkey' : 0 ≤ c.drv.setKey w0.calls (w0.sta i).pairwiseArgs := by
        rw [World.updSta_same, hsta] at hkey
        rw [← hcalls]
        exact hkey
      have hst' : (w0.sta i).state ≠ .setkeysdone
          ∧ (c.cfg.wds = false ∨ (w0.sta i).state ≠ .ptkinitdone) := by
        cases hw : c.cfg.wds with
        | true => simpa [hw] using hst
        | false => simpa [hw] using hst
      have hex' : wpaRetry ≤ (w0.sta i).retries := by omega
      have hwds' : (w0.sta i).wdsTd.isNone = true := by simpa using hwds
      simp [exhausted, htd, hno, hst', hex', hwds', hh, hkey']
    · exact h1.2
  · refine wp_mono (cleanupSta_sim c ev w0 r _ i _ false (.of_reach ?_ i)) (fun _ _ h => h.1)
      (fun _ _ h => h)
    rw [abs_updSta_of_core rfl]
    exact hcount _ fun _ => rfl

theorem wpaNewPtkCallback_sim (hA : Reach c ev w0 A (abs r w)) (hev : ev = .ptkTimer)
    (htd : w0.ptkRekeyTimer.isSome = true) (hlog : w.log = w0.log) :
    wp (wpaNewPtkCallback c) (fun _ w' => Reach c ev w0 A (abs r w')) (Stops c ev w0 A) w := by
  obtain ⟨i, hi⟩ : ∃ i : Slot, i = ⟨0, maxSupplicants_pos⟩ := ⟨_, rfl⟩
  simp only [wpaNewPtkCallback, wpaStopRetx, ← hi, wp_bind, wp_modSta, wp_ite, wp_pure]
  refine ⟨fun hrole => ?_, fun _ => ?_⟩
  · refine reach_supplicant c ev w0 r w hA hrole ?_ (fun j => .inl (le_of_eq ?_))
    · simp [abs_updSta]
    · by_cases hj : j = i
      · subst hj; simp
      · simp [hj]
  · refine wp_of_quiet (nextNonce_quiet c r _ _) (fun nonce w1 h1 => ?_)
    refine wp_mono (startPtk_sim c ev w0 r _ i (.of_reach ?_ i) ?_ ?_ (.inl ?_))
      (fun _ _ h => h.2) (fun _ _ h => h)
    · refine reach_move i hA (.restart nonce (w.sta i).state) ?_
      rw [abs_updSta, h1.seen, h1.sta]
      simp [abs_updSta, Sta.core]
    · simp
    · simp [h1.sta]
    · refine ⟨?_, ?_⟩
      · rw [hev]
        exact ⟨htd, hi⟩
      · rw [abs_updSta, h1.seen, ← hlog]
        exact framesSince_visible i w.log

end Timers

/-! ## RADIUS -/

theorem PaeOnly.core {r : Bool} {i : Slot} {w w' : World} (h : PaeOnly r i w w') (j : Slot) :
    (w'.sta j).core = (w.sta j).core :=
  congrArg (fun a => a.sta j) h.seen

theorem PaeOnly.call {r : Bool} {i : Slot} {w w' : World} (h : PaeOnly r i w w') :
    PaeOnly r i w w'.call :=
  ⟨h.sta, h.hashed, h.countermeasures, h.seen⟩

theorem PaeOnly.acceptStarts {r : Bool} {i : Slot} {w w' : World} (h : PaeOnly r i w w') :
    acceptStarts c w' (w'.sta i) = acceptStarts c w (w.sta i) := by
  obtain ⟨pae, rxauths, txWhen, authWhile, quietWhile, hsta⟩ := h.sta
  rw [hsta, Function.update_self]
  simp only [Nas.acceptStarts, h.countermeasures]

theorem modSta_pae (r : Bool) (w : World) (i : Slot) {f : Sta → Sta}
    (hf : ∀ s, ∃ pae rxauths txWhen authWhile quietWhile, f s = { s with
      pae := pae, rxauths := rxauths, txWhen := txWhen, authWhile := authWhile,
      quietWhile := quietWhile }) :
    wp (modSta i f) (fun _ w' => PaeOnly r i w w') (fun _ _ => False) w :=
  PaeOnly.upd (hf _)

section Radius

variable (c ev w0) (w : World) (i : Slot) {A : Abs}

/-- The attribute loop gathers what `gather` says, and changes the port entity only. -/
theorem radiusAttrs_spec (r : Bool) (code : RadiusCode) (l : List RadiusAttr) :
    ∀ (g : Gathered) (w : World), wp (radiusAttrs i code l g)
      (fun x w' => PaeOnly r i w w' ∧ ∀ g', x = some g' →
        gather code l g (w.sta i).pae.eapSuccess = some (g', (w'.sta i).pae.eapSuccess))
      (fun _ _ => False) w := by
  induction l with
  | nil =>
      intro g w
      refine ⟨.refl r i w, fun g' h => ?_⟩
      cases h
      rfl
  | cons a l ih =>
      intro g w
      -- The rest of the list, after a change of the port entity or of the notifications.
      have hrest : ∀ (g1 : Gathered) (w1 : World), PaeOnly r i w w1 →
          (∀ x, gather code l g1 (w1.sta i).pae.eapSuccess = some x →
            gather code (a :: l) g (w.sta i).pae.eapSuccess = some x) →
          wp (radiusAttrs i code l g1) (fun x w' => PaeOnly r i w w' ∧ ∀ g', x = some g' →
            gather code (a :: l) g (w.sta i).pae.eapSuccess = some (g', (w'.sta i).pae.eapSuccess))
          (fun _ _ => False) w1 := by
        intro g1 w1 h1 hg
        refine wp_mono (ih g1 w1) (fun x w2 h2 => ⟨h1.trans h2.1, fun g' hx => ?_⟩) (fun _ _ h => h)
        exact hg _ (h2.2 g' hx)
      cases a with
      | messageAuthenticator valid =>
          cases valid with
          | true => exact hrest _ w (.refl r i w) (fun _ h => h)
          | false => exact ⟨.refl r i w, (by intros; contradiction)⟩
      | state v =>
          simp only [radiusAttrs, wp_bind, wp_modSta]
          refine hrest _ _ (.upd ⟨_, _, _, _, _, rfl⟩) (fun x h => ?_)
          simpa [gather] using h
      | eapMessage first id v =>
          simp only [radiusAttrs, wp_bind, wp_modSta, wp_ite]
          refine ⟨fun hs => hrest _ _ (.upd ⟨_, _, _, _, _, rfl⟩) (fun x h => ?_),
            fun hs => hrest _ _ (.refl r i w) (fun x h => ?_)⟩
          · simp only [gather]
            rw [show (g.eap.isNone && first == eapSuccess) = true by simpa using hs,
              Bool.or_true]
            simpa using h
          · simp only [gather]
            rw [show (g.eap.isNone && first == eapSuccess) = false by simpa using hs,
              Bool.or_false]
            exact h
      | mppeSend plain => exact hrest _ w (.refl r i w) (fun _ h => h)
      | mppeRecv plain => exact hrest _ w (.refl r i w) (fun _ h => h)
      | sessionTimeout n =>
          simp only [radiusAttrs, wp_bind, wp_modSta, wp_ite]
          refine ⟨fun _ => hrest _ _ (.upd ⟨_, _, _, _, _, rfl⟩) (fun x h => ?_),
            fun _ => hrest _ _ (.refl r i w) (fun x h => ?_)⟩
          · simpa [gather] using h
          · simpa [gather] using h
      | wnm kind =>
          simp only [radiusAttrs, wp_bind, wp_modify, wp_ite]
          refine ⟨fun _ => hrest _ _ ⟨⟨_, _, _, _, _, (Function.update_eq_self i w.sta).symm⟩,
            rfl, rfl, rfl⟩ (fun x h => ?_), fun _ => hrest _ _ (.refl r i w) (fun x h => ?_)⟩
          · simpa [gather] using h
          · simpa [gather] using h
      | other => exact hrest _ w (.refl r i w) (fun _ h => h)
      | bad => exact ⟨.refl r i w, (by intros; contradiction)⟩

theorem processWpa_fake (s : Sta) (hA : Reach c ev w0 A (abs false w))
    (hwds : c.cfg.wds = true → ∀ j, w.find (w.sta i).ea = some j →
      MayStart c ev w0 j (abs false w).log)
    (hstart : c.cfg.wds = false → (w.micCountermeasures && wsecTkipEnabled (w.sta i).wsec) = false →
      (w.sta i).state = .ptkstart → MayStart c ev w0 i (abs false w).log) :
    wp (processWpa c (fakeKeyRequest s) i) (Ends c ev w0 A false i) (Stops c ev w0 A) w := by
  have hno : ∀ {P : Prop}, requestOk c (fakeKeyRequest s) = true → P := by
    intro P h
    rw [requestOk_fakeKeyRequest] at h
    cases h
  simp only [processWpa, wp_bind, wp_getSta, wp_ite, wp_pure, wp_get]
  have hreq : has 0x0808 wpaKeyReq = true := rfl
  have hpairwise : has 0x0808 wpaKeyPairwise = true := rfl
  refine ⟨fun hw => ⟨fun _ => ⟨fun _ => ?_, fun _ => hA⟩, fun _ => hA⟩,
    fun hwdsOff => ⟨fun _ => ?_, fun hcm => ?_⟩⟩
  · simp only [Bool.and_eq_true] at hw
    exact wpaStart_sim c ev w0 false w i hA hw.1.1 (fun j hj => hwds hw.1.1 j hj)
  · exact wp_mono (cleanupSta_sim c ev w0 false w i _ false (.of_reach hA i)) (fun _ _ h => h.1)
      (fun _ _ h => h)
  · split
    · rename_i hst
      simp only [wpaSetkeysdone, fakeKeyRequest_keyInfo, wp_bind, wp_getSta, wp_ite, wp_pure]
      have hmic : has 0x0808 wpaKeyMic = false := rfl
      have hflags : flagsOk 0x0808 wpaKeyReq wpaKeyAck = true := rfl
      simp only [hmic, hflags, hst, Bool.not_true, Bool.not_false, Bool.true_or, Bool.false_eq_true,
        false_implies, not_false_eq_true, true_implies, true_and, and_true, not_true_eq_false,
        ne_eq, reduceCtorEq]
      exact hA
    · exact processStart_sim c ev w0 w i false (.of_reach hA i) (fun _ => hno) (fun _ _ => hno)
    · rename_i hst
      simp only [fakeKeyRequest_keyInfo, hreq, hpairwise, Bool.and_true] at hwdsOff
      refine wpaPtkstart_sim c ev w0 false w i hA hst (fun _ _ => ?_)
      exact hstart (eq_false_of_ne_true hwdsOff) (eq_false_of_ne_true hcm) hst
    · have hflags : flagsOk 0x0808 (wpaKeyPairwise ||| wpaKeyMic) (wpaKeyAck ||| wpaKeyIndexMask)
          = false := rfl
      rw [wpaPtkinitnegotiating, fakeKeyRequest_keyInfo, hflags]
      exact hA
    · have hflags : flagsOk 0x0808 (m4Required c (w.sta i)) (wpaKeyAck ||| wpaKeyIndexMask)
          = false := by
        unfold m4Required
        split
        · rfl
        · rfl
      simp only [wpaPtkinitdone, fakeKeyRequest_keyInfo, wp_bind, wp_getSta, hflags,
        wp_ite, wp_pure, Bool.not_false, true_implies, not_true_eq_false, false_implies, and_true]
      refine wp_mono (nasSendWnmNotifications_quiet w false _) (fun _ w1 h1 => ?_)
        (fun _ _ h => h.elim)
      show Reach c ev w0 A (abs false w1)
      rwa [h1]
    · have hflags : flagsOk 0x0808 (wpaKeySecure ||| wpaKeyMic)
          (wpaKeyAck ||| wpaKeyPairwise ||| wpaKeyError) = false := rfl
      have herr : has 0x0808 wpaKeyError = false := rfl
      simp only [wpaRekeyneg, fakeKeyRequest_keyInfo, hflags, herr, wp_bind, wp_ite, wp_pure]
      simp only [Bool.not_false, true_implies, not_true_eq_false, false_implies, and_true,
        Bool.false_eq_true, not_false_eq_true, true_and]
      exact hA
    · exact hA

theorem fixWpa_sim (plain : Bytes) (hA : Reach c ev w0 A (abs false w))
    (hwpa : checkWpa (w.sta i).mode = true)
    (hwds : c.cfg.wds = true → ∀ j, w.find (w.sta i).ea = some j →
      MayStart c ev w0 j (abs false w).log)
    (hstart : acceptStarts c w (w.sta i) = true → MayStart c ev w0 i (abs false w).log) :
    wp (fixWpa c i plain) (fun _ w' => Reach c ev w0 A (abs false w')) (Stops c ev w0 A) w := by
  -- The PMK, and whatever else the core does not show.
  have hpmk : ∀ f : Sta → Sta, (∀ s, (f s).core = s.core) → Reach c ev w0 A (abs false
      (((w.out (.pmk (w.sta i).ea (pmkOf plain))).updSta i fun s =>
        { s with pmk := pmkOf plain }).updSta i f)) := by
    intro f hf
    refine reach_move i hA (.pmk (pmkOf plain)) ?_
    rw [abs_updSta_of_core (hf _), abs_updSta, abs_out_of_visible rfl]
    rfl
  have hdone : ∀ w1, Reach c ev w0 A (abs false w1) → w1.staHashed = w.staHashed →
      w1.micCountermeasures = w.micCountermeasures → (∀ j, (w1.sta j).ea = (w.sta j).ea) →
      ((w1.sta i).state = (w.sta i).state ∧ (w1.sta i).wsec = (w.sta i).wsec) →
      (∀ j, framesSince j (abs false w1).log = framesSince j (abs false w).log) →
      (has (w.sta i).mode wpa2 && (w.sta i).preAuth) = false →
      wp (do
        if ← processWpa c (fakeKeyRequest (w.sta i)) i then
          cleanupSta c i dot11Rc8021xAuthFail false)
      (fun _ w' => Reach c ev w0 A (abs false w')) (Stops c ev w0 A) w1 := by
    intro w1 hA1 hh hcm hea hst hframes hpre
    simp only [wp_bind, wp_ite, wp_pure]
    refine wp_mono (processWpa_fake c ev w0 w1 i (w.sta i) hA1 ?_ ?_) (fun b w2 h2 => ⟨fun _ => ?_,
      fun hb => ?_⟩) (fun _ _ h => h)
    · intro hw j hj
      rw [World.find_congr hh hea, hea] at hj
      exact (hwds hw j hj).congr (hframes j)
    · rw [hst.1, hst.2, hcm]
      intro hwds' hcm' hst'
      refine (hstart ?_).congr (hframes i)
      simp [acceptStarts, hwpa, hpre, hwds', hcm', hst']
    · exact wp_mono (cleanupSta_sim c ev w0 false w2 i _ false (h2.loose c ev w0 false w2 i))
        (fun _ _ h => h.1) (fun _ _ h => h)
    · have hb' : b = false := by simpa using hb
      subst hb'
      exact h2
  simp only [wp_bind, wp_ite, wp_pure] at hdone
  simp only [fixWpa, nasWpaCalcPmkid, wp_bind, wp_getSta, wp_emit, wp_modSta, wp_ite, wp_pure]
  refine ⟨fun _ => ⟨fun _ => ?_, fun hpre => ?_⟩, fun hwpa2 => ?_⟩
  · rw [abs_updSta_of_core rfl]
    exact hpmk _ (fun _ => rfl)
  · refine hdone _ (hpmk _ fun _ => rfl) rfl rfl (fun j => ?_) (by simp) (fun j => ?_) ?_
    · exact (World.updSta_ea rfl j).trans (World.updSta_ea rfl j)
    · rw [abs_updSta_of_core rfl, abs_updSta, abs_out_of_visible rfl]
      rfl
    · have hpre' : (w.sta i).preAuth = false := by simpa using hpre
      rw [hpre', Bool.and_false]
  · refine hdone _ ?_ rfl rfl (fun j => World.updSta_ea rfl j) (by simp) (fun j => ?_) ?_
    · have h := hpmk id (fun _ => rfl)
      rwa [abs_updSta_of_core rfl] at h
    · rw [abs_updSta, abs_out_of_visible rfl]
      rfl
    · rw [eq_false_of_ne_true hwpa2, Bool.false_and]

theorem cobbleGtk_gtkOnly (r : Bool) : wpGtk c ev w0 r (cobbleGtk c) w := by
  simp only [wpGtk, cobbleGtk, nasRand128, nasSetKey, wp_bind, wp_get, wp_ite, wp_pure, wp_modify,
    wp_oracle, wp_emit, wp_nasHandleError]
  refine ⟨fun _ => .refl w, fun hplumbed => ?_⟩
  have hno : w.gtkPlumbed = false := by simpa using hplumbed
  have hgen : GtkGen r w { w.call with
      gtkIndex := 1, gtkLen := if w.gtkLen = 0 then wep128KeySize else w.gtkLen,
      gtk := c.drv.rand128 w.calls ++ w.gtk.drop (c.drv.rand128 w.calls).length } := by
    refine ⟨rfl, rfl, rfl, rfl, fun h => decide_eq_true ?_⟩
    have h' : w.gtkLen ≤ w.gtk.length := of_decide_eq_true h
    have : wep128KeySize = 13 := rfl
    simp only [List.length_append, List.length_drop, c.drv.rand128_length]
    split
    · omega
    · omega
  refine ⟨fun hlt => ?_, fun hge => ?_⟩
  · exact GtkGen.plumb c ev w0 r hgen (Plumbs.refused c r _ true [] hlt) hno
  · exact GtkGen.plumb c ev w0 r hgen (Plumbs.taken c r _ true [] hge) hno

theorem radiusPlumb_sim (r : Bool) (plain : Bytes) (hA : Reach c ev w0 A (abs r w))
    (hkeys : radiusKeys ev w0 i) :
    wp (radiusPlumb c i plain) (fun _ w' => Reach c ev w0 A (abs r w')) (Stops c ev w0 A) w := by
  have hend : ∀ w1 ea, Reach c ev w0 A (abs r w1) → (w1.sta i).ea = ea →
      wp (do
        eapolRc4Key c i [] 3 true
        nasAuthorize ea) (fun _ w' => Reach c ev w0 A (abs r w')) (Stops c ev w0 A) w1 := by
    intro w1 ea hA1 hea
    simp only [eapolRc4Key, nasRand128, nasAuthorize, wp_bind, wp_oracle, wp_getSta, wp_emit]
    refine reach_move i hA1 (.authorize (.inr hkeys)) ?_
    rw [abs_out_of_visible rfl, abs_out_of_not_visible rfl, abs_call, ← hea]
    show (abs r w1).emit _ = ((abs r w1).put i ((abs r w1).sta i) []).emit _
    rw [Abs.put_self]
    rfl
  simp only [radiusPlumb, wp_bind, wp_get]
  refine wp_mono (cobbleGtk_gtkOnly c ev w0 w r) (fun _ w1 h1 => ?_) (fun _ w1 h1 => ?_)
  · have hA1 := h1.reach_abs hA
    simp only [eapolRc4Key, nasRand128, nasSetKey, wp_bind, wp_oracle, wp_getSta, wp_emit, wp_ite,
      wp_pure]
    simp only [eapolRc4Key, nasRand128, wp_bind, wp_oracle, wp_getSta, wp_emit] at hend
    refine ⟨fun _ => ?_, fun _ => ?_⟩
    · refine wp_mono (wp_and (cleanupSta_sim c ev w0 r _ i _ false (.of_reach ?_ i))
        (cleanupSta_spec c r _ i _ false)) (fun _ w2 h2 => ?_) (fun _ _ h => h.1)
      · rw [abs_out_of_not_visible rfl, abs_call, abs_out_of_not_visible rfl, abs_call]
        exact hA1
      · refine hend w2 _ h2.1.1 ?_
        obtain ⟨used, state, _, _, _, hseen⟩ := h2.2.1.seen
        have hcore := congrArg (fun a => (a.sta i).ea) hseen
        simpa [Sta.core] using hcore
    · refine hend _ _ ?_ rfl
      rw [abs_out_of_not_visible rfl, abs_call, abs_out_of_not_visible rfl, abs_call]
      exact hA1
  · exact .of_abs (h1.reach_abs hA)

/-- An Access-Accept, in a world that differs from the one before the event in the port entity
of the station. -/
theorem radiusAccept_sim (g : Gathered) (resp : RadiusResponse) (hev : ev = .radius resp)
    (hslot : resp.slot = i) (hA : Reach c ev w0 A (abs false w0)) (hp : PaeOnly false i w0 w)
    (hacc : (w.sta i).pae.eapSuccess = true → g.mppeRecv.isSome = true →
      acceptsWithKey w0 resp i = true) :
    wp (radiusAccept c i g) (fun _ w' => Reach c ev w0 A (abs false w')) (Stops c ev w0 A) w := by
  have hpae : ∀ w1, PaeOnly false i w0 w1 → Reach c ev w0 A (abs false w1) := by
    intro w1 h1
    rwa [h1.seen]
  simp only [radiusAccept, nasDeauthorize, wp_bind, wp_getSta, wp_ite, wp_emit, wp_pure]
  refine ⟨fun _ => ?_, fun hsucc => ?_⟩
  · refine wp_mono (paeState_spec false w i .held) (fun _ w1 h1 => ?_) (fun _ _ h => h.elim)
    exact hpae _ ((hp.trans h1).out rfl)
  · refine wp_mono (paeState_spec false w i .authenticated) (fun _ w1 h1 => ?_)
      (fun _ _ h => h.elim)
    refine wp_mono (modSta_pae false w1 i (fun _ => ⟨_, _, _, _, _, rfl⟩)) (fun _ w2 h12 => ?_)
      (fun _ _ h => h.elim)
    have h2 := (hp.trans h1).trans h12
    split
    · exact hpae _ h2
    · rename_i plain hplain
      have hacc' := hacc (by simpa using hsucc) (by rw [hplain]; rfl)
      simp only [wp_bind, wp_getSta, wp_ite]
      have hea : ∀ j, (w2.sta j).ea = (w0.sta j).ea := fun j => congrArg Core.ea (h2.core j)
      have hframes : ∀ j, framesSince j (abs false w2).log = framesSince j w0.log := by
        intro j
        rw [h2.seen]
        exact framesSince_visible j w0.log
      refine ⟨fun hwpa => ?_, fun hwpa => ?_⟩
      · refine fixWpa_sim c ev w0 _ i plain (hpae _ h2) hwpa (fun hw j hj => ?_) (fun hst => ?_)
        · rw [World.find_congr h2.hashed hea, hea] at hj
          refine .inl ⟨?_, hframes j⟩
          rw [hev]
          exact .inr ⟨hw, by rw [hslot]; exact hj⟩
        · refine .inl ⟨?_, hframes i⟩
          rw [hev]
          exact .inl ⟨hacc', by rwa [h2.acceptStarts] at hst⟩
      · refine radiusPlumb_sim c ev w0 _ i false plain (hpae _ h2) ⟨resp, hev, hacc', ?_⟩
        rw [show (w2.sta i).mode = (w0.sta i).mode from congrArg Core.mode (h2.core i)] at hwpa
        simpa using hwpa

theorem radiusReject_spec (r : Bool) :
    wp (radiusReject i) (fun _ w' => PaeOnly r i w w') (fun _ _ => False) w := by
  simp only [radiusReject, nasDeauthorize, wp_bind, wp_getSta, wp_emit]
  refine wp_mono (paeState_spec r w i .held) (fun _ w2 h2 => ?_) (fun _ _ h => h.elim)
  refine wp_mono (modSta_pae r _ i (fun _ => ⟨_, _, _, _, _, rfl⟩)) (fun _ w3 h3 => ?_)
    (fun _ _ h => h.elim)
  exact (h2.out rfl).trans h3

theorem radiusRelay_spec (r : Bool) (code : RadiusCode) (g : Gathered) :
    wp (radiusRelay i code g)
      (fun _ w' => PaeOnly r i w w' ∧ (w'.sta i).pae.eapSuccess = (w.sta i).pae.eapSuccess)
      (fun _ _ => False) w := by
  unfold radiusRelay
  split
  · exact ⟨.refl r i w, rfl⟩
  · rename_i first id heap
    simp only [wp_bind, wp_modSta, wp_ite, wp_getSta, wp_emit, wp_pure]
    have h1 : PaeOnly r i w (w.updSta i fun s => { s with pae := { s.pae with id := id.toNat } }) :=
      .upd ⟨_, _, _, _, _, rfl⟩
    exact ⟨fun _ => ⟨h1.out rfl, by simp⟩, fun _ => ⟨h1, by simp⟩⟩

theorem radiusDecision_sim (code : RadiusCode) (g : Gathered) (resp : RadiusResponse)
    (hev : ev = .radius resp) (hslot : resp.slot = i) (hA : Reach c ev w0 A (abs false w0))
    (hp : PaeOnly false i w0 w)
    (hacc : code = .accept → (w.sta i).pae.eapSuccess = true → g.mppeRecv.isSome = true →
      acceptsWithKey w0 resp i = true) :
    wp (radiusDecision c i code g) (fun _ w' => Reach c ev w0 A (abs false w'))
      (Stops c ev w0 A) w := by
  have hpae : ∀ w1, PaeOnly false i w0 w1 → Reach c ev w0 A (abs false w1) := by
    intro w1 h1
    rwa [h1.seen]
  cases code with
  | accept => exact radiusAccept_sim c ev w0 w i g resp hev hslot hA hp (hacc rfl)
  | reject =>
      exact wp_mono (radiusReject_spec w i false) (fun _ w' h => hpae _ (hp.trans h))
        (fun _ _ h => h.elim)
  | challenge => exact hpae _ hp
  | other => exact hpae _ hp

theorem radiusEvent_sim (code : RadiusCode) (g : Gathered) (resp : RadiusResponse)
    (hev : ev = .radius resp) (hslot : resp.slot = i) (hA : Reach c ev w0 A (abs false w0))
    (hp : PaeOnly false i w0 w)
    (hacc : code = .accept → g.authenticated = true → (w.sta i).pae.eapSuccess = true →
      g.mppeRecv.isSome = true → acceptsWithKey w0 resp i = true) :
    wp (radiusEvent c i code g) (fun _ w' => Reach c ev w0 A (abs false w'))
      (Stops c ev w0 A) w := by
  simp only [radiusEvent, wp_ite, wp_bind, wp_pure]
  refine ⟨fun _ => by rwa [hp.seen], fun hgo => ?_⟩
  refine wp_mono (radiusRelay_spec w i false code g) (fun _ w1 h1 => ?_) (fun _ _ h => h.elim)
  refine radiusDecision_sim c ev w0 w1 i code g resp hev hslot hA (hp.trans h1.1)
    (fun hcode hsucc hm => ?_)
  refine hacc hcode ?_ (by rwa [← h1.2]) hm
  cases hg : g.authenticated with
  | true => rfl
  | false => simp [hg, hcode] at hgo

theorem radiusDispatch_sim (resp : RadiusResponse) (hev : ev = .radius resp)
    (hA : Reach c ev w0 A (abs false w0)) (hsta : w.sta = w0.sta)
    (hh : w.staHashed = w0.staHashed) (hcm : w.micCountermeasures = w0.micCountermeasures)
    (hseen : abs false w = abs false w0) :
    wp (radiusDispatch c resp) (fun _ w' => Reach c ev w0 A (abs false w'))
      (Stops c ev w0 A) w := by
  have hp : PaeOnly false resp.slot w0 { w with wnm := ⟨false, false, false⟩ } :=
    ⟨⟨_, _, _, _, _, hsta.trans (Function.update_eq_self resp.slot w0.sta).symm⟩, hh, hcm, hseen⟩
  simp only [radiusDispatch, wp_bind, wp_modify, wp_getSta, wp_ite, wp_pure]
  have hA' : Reach c ev w0 A (abs false { w with wnm := ⟨false, false, false⟩ }) := by
    rwa [hp.seen]
  refine ⟨fun _ => hA', fun hused => ⟨fun _ => hA', fun hreq => ?_⟩⟩
  refine wp_mono (radiusAttrs_spec resp.slot false resp.code resp.attrs _ _) (fun x w1 h1 => ?_)
    (fun _ _ h => h.elim)
  have hp1 := hp.trans h1.1
  split
  · rw [wp_modSta, abs_updSta_of_core rfl, hp1.seen]
    exact hA
  · rename_i g
    simp only [wp_bind, wp_modSta]
    refine wp_mono (radiusEvent_sim c ev w0 w1 resp.slot resp.code g resp hev rfl hA hp1 ?_)
      (fun _ w2 h2 => ?_) (fun _ _ h => h)
    · intro hcode hauth hsucc hm
      have hg := h1.2 g rfl
      simp only [hsta] at hused hreq hg
      have hused' : (w0.sta resp.slot).used = true := by simpa using hused
      have hreq' : (w0.sta resp.slot).pae.request = some resp.id.toNat := by simpa using hreq
      simp [acceptsWithKey, hused', hreq', hcode, hcode ▸ hg, hauth, hm, hsucc]
    · rwa [abs_updSta_of_core rfl]

end Radius

/-! ## Frames -/

section Dispatch

variable (c ev w0) (w : World) (i : Slot) {A : Abs} (f : Frame)

theorem eapPacketCase_spec (r : Bool) :
    wp (eapPacketCase c f i) (fun _ w' => PaeOnly r i w w') (fun _ _ => False) w := by
  have hforward : ∀ (eap : Bytes) (w1 : World), PaeOnly r i w w1 →
      wp (radiusForward c i eap) (fun _ w' => PaeOnly r i w w') (fun _ _ => False) w1 := by
    intro eap w1 h1
    simp only [radiusForward, nasRand128, wp_bind, wp_getSta, wp_oracle, wp_emit]
    refine wp_mono (modSta_pae r _ i (fun _ => ⟨_, _, _, _, _, rfl⟩)) (fun _ w2 h2 => ?_)
      (fun _ _ h => h)
    refine wp_mono (modSta_pae r _ i (fun _ => ⟨_, _, _, _, _, rfl⟩)) (fun _ w3 h3 => ?_)
      (fun _ _ h => h)
    exact ((h1.call.trans h2).out rfl).call.trans h3
  simp only [eapPacketCase, wp_bind, wp_ite, wp_pure, wp_getSta, wp_modSta]
  refine ⟨fun _ => .refl r i w, fun _ => ⟨fun _ => ⟨fun _ => .refl r i w, fun _ =>
    ⟨fun _ => .refl r i w, fun _ => ⟨fun _ => .refl r i w, fun _ => ⟨fun _ => ?_, fun _ => ?_⟩⟩⟩⟩,
    fun _ => hforward _ w (.refl r i w)⟩⟩
  · refine wp_mono (paeState_spec r _ i .authenticating) (fun _ w1 h1 => ?_) (fun _ _ h => h)
    exact hforward _ w1 (PaeOnly.trans (.upd ⟨_, _, _, _, _, rfl⟩) h1)
  · exact wp_mono (paeState_spec r w i .authenticating) (fun _ w1 h1 => hforward _ w1 h1)
      (fun _ _ h => h)

theorem eapolLogoffCase_spec (r : Bool) :
    wp (eapolLogoffCase i) (fun _ w' => PaeOnly r i w w') (fun _ _ => False) w := by
  have hend : ∀ w1, PaeOnly r i w w1 → wp (do
      paeState i .disconnected
      nasDeauthorize (← getSta i).ea) (fun _ w' => PaeOnly r i w w') (fun _ _ => False) w1 := by
    intro w1 h1
    simp only [nasDeauthorize, wp_bind, wp_getSta, wp_emit]
    exact wp_mono (paeState_spec r w1 i .disconnected) (fun _ w2 h2 => (h1.trans h2).out rfl)
      (fun _ _ h => h)
  simp only [eapolLogoffCase, wp_bind, wp_getSta, wp_ite]
  simp only [wp_bind] at hend
  refine ⟨fun _ => ?_, fun _ => hend w (.refl r i w)⟩
  exact wp_mono (paeState_spec r w i .aborting) (fun _ w1 h1 => hend w1 h1) (fun _ _ h => h)

theorem eapolCases_sim (hA : Reach c ev w0 A (abs false w)) :
    wp (if f.type = eapPacket then eapPacketCase c f i
      else if f.type = eapolStart then eapolStartCase i
      else if f.type = eapolLogoff then eapolLogoffCase i
      else pure ()) (fun _ w' => Reach c ev w0 A (abs false w')) (Stops c ev w0 A) w := by
  simp only [wp_ite, wp_pure]
  refine ⟨fun _ => ?_, fun _ => ⟨fun _ => eapolStartCase_sim c ev w0 false w i hA, fun _ =>
    ⟨fun _ => ?_, fun _ => hA⟩⟩⟩
  · refine wp_mono (eapPacketCase_spec c w i f false) (fun _ w1 h1 => ?_) (fun _ _ h => h.elim)
    rwa [h1.seen]
  · refine wp_mono (eapolLogoffCase_spec w i false) (fun _ w1 h1 => ?_) (fun _ _ h => h.elim)
    rwa [h1.seen]

theorem newSta_mode (ea : Bytes) (now : Nat) : checkNas (newSta c ea now).mode = false := by
  obtain ⟨mode, wsec, state, hmode, _, hcore⟩ := newSta_core c ea now
  rw [show (newSta c ea now).mode = mode from congrArg Core.mode hcore]
  rcases hmode with rfl | ⟨rfl, _⟩
  · rfl
  · rfl

theorem newSta_idle (ea : Bytes) (now : Nat) :
    (newSta c ea now).state.busy = false ∧ (newSta c ea now).retxExceedHndlr = false := by
  obtain ⟨mode, wsec, state, _, hstate, hcore⟩ := newSta_core c ea now
  refine ⟨?_, congrArg Core.hndlr hcore⟩
  rw [show (newSta c ea now).state = state from congrArg Core.state hcore]
  rcases hstate with rfl | rfl
  · rfl
  · rfl

theorem eapolDispatch_sim (hrole : c.cfg.role = .authenticator) (hev : ev = .eapol f)
    (hA : Reach c ev w0 A (abs false w))
    (hsta : w.sta = w0.sta) (hh : w.staHashed = w0.staHashed)
    (hcm : w.micCountermeasures = w0.micCountermeasures) (hlog : w.log = w0.log) :
    wp (eapolDispatchEx c f false) (fun _ w' => Reach c ev w0 A (abs false w'))
      (Stops c ev w0 A) w := by
  simp only [eapolDispatchEx, wp_bind]
  refine wp_mono (lookupSta_spec c ev w0 false w f.shost true) (fun x w1 hl => ?_)
    (fun _ _ h => h.elim)
  have hA1 : Reach c ev w0 A (abs false w1) := by
    cases hl.1 with
    | none => exact hA
    | old j hfind => rwa [abs_updSta_of_core rfl]
    | new j w' hfind hfound hsta hframes hcm hreach => exact hA.trans hreach
  cases x with
  | none => exact hA1
  | some i =>
      simp only [wp_bind, wp_getSta, wp_ite, wp_pure, wp_modSta, Bool.not_false, true_implies,
        not_true_eq_false, false_implies, and_true]
      refine ⟨fun _ => hA1, fun _ => ⟨fun hkey => ?_, fun _ => ⟨fun _ => hA1, fun _ => ?_⟩⟩⟩
      · simp only [Bool.and_eq_true, decide_eq_true_eq] at hkey
        have hw : Handles ev w0 f i w1 := by
          cases hl.1 with
          | new _ _ hfind hfound hnew hframes hcm hreach =>
              have hmode := hkey.1.2
              rw [hnew, newSta_mode] at hmode
              cases hmode
          | old _ hfind =>
              refine ⟨hev, ?_, ⟨w.now, ?_⟩, fun j => ?_, hh, hcm, hlog⟩
              · have hf0 : w0.find f.shost = some i := by
                  rwa [World.find_congr hh (fun j => by rw [hsta])] at hfind
                simp only [World.updSta_same, hsta] at hkey
                simpa [delivered, hf0, hkey.1.1.1, hkey.1.1.2, hkey.1.2] using hkey.2
              · rw [World.updSta_same, hsta]
              · by_cases hj : j = i
                · subst hj
                  rw [World.updSta_same, hsta]
                  rfl
                · rw [World.updSta_ne w hj, hsta]
        refine wp_mono (processWpa_sim c ev w0 w1 i hrole hA1 hw) (fun b w2 h2 => ⟨fun _ => ?_,
          fun hb => ?_⟩) (fun _ _ h => h)
        · exact wp_mono (cleanupSta_sim c ev w0 false w2 i _ false (h2.loose c ev w0 false w2 i))
            (fun _ _ h => h.1) (fun _ _ h => h)
        · have hb' : b = false := by simpa using hb
          subst hb'
          exact h2
      · have hA2 :
            Reach c ev w0 A (abs false (w1.updSta i fun s => { s with preAuth := false })) := by
          rwa [abs_updSta_of_core rfl]
        simpa only [wp_ite, wp_pure] using eapolCases_sim c ev w0 _ i f hA2

theorem preauthDispatch_sim (hev : ev = .preauth f) (hon : c.cfg.disablePreauth = false)
    (hA : Reach c ev w0 A (abs false w)) (hsta : w.sta = w0.sta) (hh : w.staHashed = w0.staHashed) :
    wp (eapolDispatchEx c f true) (fun _ w' => Reach c ev w0 A (abs false w'))
      (Stops c ev w0 A) w := by
  simp only [eapolDispatchEx, wp_bind]
  refine wp_mono (lookupSta_spec c ev w0 false w f.shost true) (fun x w1 hl => ?_)
    (fun _ _ h => h.elim)
  have hA1 : Reach c ev w0 A (abs false w1) := by
    cases hl.1 with
    | none => exact hA
    | old j hfind => rwa [abs_updSta_of_core rfl]
    | new j w' hfind hfound hsta hframes hcm hreach => exact hA.trans hreach
  cases x with
  | none => exact hA1
  | some i =>
      have hA2 : (w1.sta i).pae.state ≠ .held → Reach c ev w0 A (abs false (w1.updSta i fun s =>
          { s with preAuth := true, mode := wpa2, eapolVersion := wpa2EapolVersion })) := by
        intro hheld
        refine reach_move i hA1 (.preauth f hev hon ?_) ?_
        · cases hl.1 with
          | old _ hfind =>
              refine .inr ⟨?_, ?_, ?_⟩
              · rwa [World.find_congr hh (fun j => by rw [hsta])] at hfind
              · rw [abs_sta, World.updSta_same, hsta]
                rfl
              · rwa [World.updSta_same, hsta] at hheld
          | new _ _ hfind hfound hnew hframes hcm hreach =>
              rw [abs_sta, hnew]
              refine .inl ⟨?_, newSta_idle c f.shost w.now⟩
              rwa [World.find_congr hh (fun j => by rw [hsta])] at hfind
        · rw [abs_updSta]
          rfl
      simp only [wp_bind, wp_getSta, wp_ite, wp_pure, wp_modSta, Bool.not_true, true_implies,
        Bool.false_eq_true, false_implies, true_and, not_false_eq_true]
      refine ⟨fun _ => hA1, fun hheld => ?_⟩
      simpa only [wp_ite, wp_pure] using eapolCases_sim c ev w0 _ i f (hA2 hheld)

end Dispatch

/-! ## Driver messages -/

section Driver

variable (c ev w0) (w : World) {A : Abs} (m : DrvMsg)

theorem driverLink_sim (hev : ev = .link m) (hA : Reach c ev w0 A (abs false w))
    (hsta : w.sta = w0.sta) :
    wp (driverLink c m) (fun _ w' => Reach c ev w0 A (abs false w')) (Stops c ev w0 A) w := by
  have hdown : ∀ w1, c.cfg.wds = false → abs false w1 = abs false w →
      wp (if (!wsecWepEnabled c.cfg.wsec
      && !has m.flags eventMsgLink) = true then modify fun w => { w with gtkPlumbed := false }
      else pure ()) (fun _ w' => Reach c ev w0 A (abs false w')) (Stops c ev w0 A) w1 := by
    intro w1 hwds h1
    simp only [wp_ite, wp_modify, wp_pure]
    refine ⟨fun h => ?_, fun _ => by rwa [h1]⟩
    simp only [Bool.and_eq_true, Bool.not_eq_true'] at h
    have hA1 : Reach c ev w0 A (abs false w1) := by rwa [h1]
    refine hA1.tail (.linkDown m hev hwds h.1 h.2 (fun j => ?_))
    rw [h1, abs_sta, hsta]
  simp only [driverLink, wp_ite, wp_pure]
  refine ⟨fun _ => hA, fun hno => ?_⟩
  have hwds : c.cfg.wds = false := by simpa using hno
  split
  · rw [wp_bind]
    exact wp_of_quiet (nasGetWpacap_quiet c false w) (fun _ w1 h1 => hdown w1 hwds h1.seen)
  · rename_i hrole
    simp only [wp_ite, wp_pure]
    refine ⟨fun hlink => driverAssoc_sim c ev w0 false w m hA (fun i hnas hok => .inr ?_)
      (fun h => ?_), fun _ => hA⟩
    · rw [hev]
      exact ⟨rfl, hrole, hlink, hnas, hok⟩
    · rw [hrole] at h
      cases h

theorem wpaDriverDisassocMsg_sim (sta : Option Slot) (hev : ev = .disassoc m)
    (hA : Reach c ev w0 A (abs false w)) (hh : w.staHashed = w0.staHashed)
    (hea : ∀ j, (w.sta j).ea = (w0.sta j).ea) (hfind : ∀ i, sta = some i → w0.find m.addr = some i)
    (hlog : w.log = w0.log) :
    wp (wpaDriverDisassocMsg c m sta) (fun _ w' => Reach c ev w0 A (abs false w'))
      (Stops c ev w0 A) w := by
  have hgo : ∀ i w1, c.cfg.wds = true → Reach c ev w0 A (abs false w1) →
      (∀ j, w1.find (w1.sta i).ea = some j →
        MayStart c ev w0 j (abs false w1).log) →
      wp (do
        if (← getSta i).td.isSome then return false
        linkStart c i
        return false) (fun _ w' => Reach c ev w0 A (abs false w')) (Stops c ev w0 A) w1 := by
    intro i w1 hwds hA1 hM1
    simp only [wp_bind, wp_getSta, wp_ite, wp_pure]
    refine ⟨fun _ => hA1, fun _ => ?_⟩
    unfold linkStart
    split
    · rename_i hrole
      exact supKeeps_wpaRequest hrole i w1 hA1
    · exact wpaStart_sim c ev w0 false w1 i hA1 hwds hM1
  have hframes : ∀ j, framesSince j (w.log.filter Out.visible) = framesSince j w0.log := by
    intro j
    rw [framesSince_visible, hlog]
  simp only [wpaDriverDisassocMsg, wp_ite, wp_pure]
  refine ⟨fun _ => hA, fun hwds => ⟨fun _ => hA, fun _ => ⟨fun _ => hA, fun _ => ?_⟩⟩⟩
  have hwds' : c.cfg.wds = true := by simpa using hwds
  cases sta with
  | some i =>
      have hi := hfind i rfl
      refine hgo i w hwds' hA (fun j hj => .inl ⟨?_, hframes j⟩)
      rw [World.find_congr hh hea, hea, World.find_ea hi] at hj
      rw [hev]
      exact ⟨hwds', .inl hj⟩
  | none =>
      simp only [wp_bind]
      refine wp_mono (lookupSta_spec c ev w0 false w m.shost true) (fun x w1 hl => ?_)
        (fun _ _ h => h.elim)
      cases hl.1 with
      | none => exact hA
      | old i hold =>
          refine hgo i _ hwds' (by rwa [abs_updSta_of_core rfl])
            (fun j hj => .inl ⟨?_, hframes j⟩)
          have hi : w0.find m.shost = some i := by rwa [World.find_congr hh hea] at hold
          have hfind' : ∀ ea, (w.updSta i fun s => { s with lastUse := w.now }).find ea =
              w.find ea :=
            World.find_congr rfl (World.updSta_ea rfl)
          rw [hfind', World.updSta_same, World.find_congr hh hea] at hj
          have hea' : (w.sta i).ea = m.shost := World.find_ea hold
          rw [hev]
          exact ⟨hwds', .inr (by rw [← hea']; exact hj)⟩
      | new i _ hnone hfound hnew hframes hcm hreach =>
          refine hgo i w1 hwds' (hA.trans hreach) (fun j hj => .inr ?_)
          have hij : j = i := by
            rw [World.find_ea hfound, hfound] at hj
            exact (Option.some.inj hj).symm
          rw [hij]
          exact hframes

theorem driverDisassoc_sim (hev : ev = .disassoc m) (hA : Reach c ev w0 A (abs false w))
    (hsta : w.sta = w0.sta) (hh : w.staHashed = w0.staHashed) (hlog : w.log = w0.log) :
    wp (driverDisassoc c m) (fun _ w' => Reach c ev w0 A (abs false w')) (Stops c ev w0 A) w := by
  simp only [driverDisassoc, wp_bind, wp_ite, wp_pure]
  refine wp_mono (lookupSta_spec c ev w0 false w m.addr false) (fun sta w1 hl => ?_)
    (fun _ _ h => h.elim)
  have hfind0 : ∀ i, sta = some i → w0.find m.addr = some i := by
    intro i hi
    have h := hl.2 rfl i hi
    rwa [World.find_congr hh (fun j => by rw [hsta])] at h
  have hmain : wp (wpaDriverDisassocMsg c m sta) (fun _ w' => Reach c ev w0 A (abs false w'))
      (Stops c ev w0 A) w1 := by
    cases hl.1 with
    | none =>
        exact wpaDriverDisassocMsg_sim c ev w0 w m _ hev hA hh (fun j => by rw [hsta]) hfind0 hlog
    | old i hold =>
        refine wpaDriverDisassocMsg_sim c ev w0 _ m _ hev ?_ hh (fun j => ?_) hfind0 hlog
        · rwa [abs_updSta_of_core rfl]
        · rw [World.updSta_ea rfl, hsta]
    | new i _ hnone hfound hnew hframes hcm hreach =>
        have h := hl.2 rfl i rfl
        rw [hnone] at h
        cases h
  refine wp_mono hmain (fun b w2 h2 => ⟨fun _ => ?_, fun _ => h2⟩) (fun _ _ h => h)
  cases sta with
  | none => exact h2
  | some i =>
      exact wp_mono (cleanupSta_sim c ev w0 false w2 i 0 true (.of_reach h2 i)) (fun _ _ h => h.1)
        (fun _ _ h => h)

theorem driverMicError_sim (hA : Reach c ev w0 A (abs false w)) :
    wp (driverMicError c m) (fun _ w' => Reach c ev w0 A (abs false w')) (Stops c ev w0 A) w := by
  simp only [driverMicError, wp_bind, wp_ite, wp_pure]
  refine wp_mono (supKeeps_lookupSta m.addr false w hA)
    (fun sta w1 h1 => ⟨fun _ => h1, fun _ => ?_⟩)
    (fun _ _ h => h)
  cases sta with
  | none => exact h1
  | some i => exact wpaMicError_sim c ev w0 false w1 i true false h1

theorem watchdogSta_sim (i : Slot) (hA : Reach c ev w0 A (abs false w)) :
    wp (watchdogSta c i) (fun _ w' => Reach c ev w0 A (abs false w')) (Stops c ev w0 A) w := by
  have hpae : ∀ (w1 : World) (st : PaeState), Reach c ev w0 A (abs false w1) →
      wp (paeState i st) (fun _ w' => Reach c ev w0 A (abs false w')) (Stops c ev w0 A) w1 := by
    intro w1 st h1
    refine wp_mono (paeState_spec false w1 i st) (fun _ w2 h2 => ?_) (fun _ _ h => h.elim)
    rwa [h2.seen]
  have hupd : ∀ g : Sta → Sta, (∀ s, (g s).core = s.core) →
      Reach c ev w0 A (abs false (w.updSta i g)) := by
    intro g hg
    rwa [abs_updSta_of_core (hg _)]
  simp only [watchdogSta, wp_bind, wp_getSta]
  split
  · simp only [wp_ite, wp_pure, wp_bind, wp_modSta]
    exact ⟨fun _ => hA, fun _ => ⟨fun _ => hupd _ fun _ => rfl, fun _ =>
      sendIdentityReq_sim c ev w0 false _ i (hupd _ fun _ => rfl)⟩⟩
  · simp only [wp_ite, wp_pure, wp_bind, wp_modSta]
    exact ⟨fun _ => hpae _ _ (hupd _ fun _ => rfl), fun _ => hupd _ fun _ => rfl⟩
  · simp only [wp_ite, wp_pure, wp_bind, wp_modSta]
    exact ⟨fun _ => ⟨fun _ => hpae _ _ (hupd _ fun _ => rfl), fun _ =>
      hpae _ _ (hupd _ fun _ => rfl)⟩, fun _ => hupd _ fun _ => rfl⟩
  · simp only [wp_ite, wp_pure, wp_bind, wp_modSta]
    refine ⟨fun _ => ?_, fun _ => hupd _ fun _ => rfl⟩
    exact wp_mono (hpae _ _ (hupd _ fun _ => rfl)) (fun _ w1 h1 => hpae w1 _ h1) (fun _ _ h => h)
  · exact hA

theorem nasWatchdog_sim (hA : Reach c ev w0 A (abs false w)) :
    wp (nasWatchdog c) (fun _ w' => Reach c ev w0 A (abs false w')) (Stops c ev w0 A) w := by
  refine wp_forM (fun h _ w1 h1 => ?_) w hA
  rw [wp_bind]
  exact wp_forM (fun i _ w2 h2 => watchdogSta_sim c ev w0 w2 i h2) w1 h1

end Driver

/-! ## The main theorem -/

/-- An abstract state shows a world; of a halted one, only the log and the saved elements. -/
def Shows (w : World) (a : Abs) : Prop :=
  a = abs false w ∨ (w.halted = true ∧ a.HaltsAs (abs false w))

theorem Shows.log {w : World} {a : Abs} (h : Shows w a) : a.log = w.log.filter Out.visible := by
  rcases h with rfl | ⟨-, -, hlog, -⟩
  · rfl
  · exact hlog.symm

theorem Shows.ieLen {w : World} {a : Abs} (h : Shows w a) (j : Slot) :
    (a.sta j).ieLen = (w.sta j).assocWpaie.length := by
  rcases h with rfl | ⟨-, -, -, hie⟩
  · rfl
  · exact (hie j).symm

theorem Shows.eq_abs {w : World} {a : Abs} (h : Shows w a) (hlive : w.halted = false) :
    a = abs false w := by
  rcases h with rfl | ⟨hhalted, -⟩
  · rfl
  · rw [hlive] at hhalted
    cases hhalted

theorem exec_sim {A : Abs} {m : NasM Unit} {w : World}
    (h : wp m (fun _ w' => Reach c ev w0 A (abs false w')) (Stops c ev w0 A) w) :
    ∃ b, Reach c ev w0 A b ∧ Shows (exec m w) b := by
  unfold wp at h
  unfold exec
  cases hm : m w with
  | ok a w' =>
      rw [hm] at h
      exact ⟨_, h, .inl rfl⟩
  | error e w' =>
      rw [hm] at h
      obtain ⟨a, hreach, hhalts⟩ := h
      exact ⟨a, hreach, .inr ⟨rfl, hhalts⟩⟩

/-- **Refinement.** Every event is a sequence of steps of the automaton. -/
theorem step_sim (c : Ctx) (w : World) (e : Nat × Event) (a : Abs) (ha : Shows w a) :
    ∃ b, Reach c e.2 w a b ∧ Shows (step c w e) b := by
  obtain ⟨now, ev⟩ := e
  unfold step
  split
  · exact ⟨a, .refl, ha⟩
  rename_i hlive
  obtain rfl := ha.eq_abs (by simpa using hlive)
  refine exec_sim ?_
  have hA : Reach c ev w (abs false w) (abs false { w with now := now }) := .refl
  cases ev with
  | eapol f =>
      simp only [dispatch, nasEapolMessageDispatch]
      split
      · rename_i hrole
        exact eapolDispatch_sim c _ w _ f hrole rfl hA rfl rfl rfl rfl
      · rename_i hrole
        exact supKeeps_eapolSupDispatch hrole f _ hA
  | preauth f =>
      simp only [dispatch, wp_ite, wp_pure]
      exact ⟨fun hon => preauthDispatch_sim c _ w _ f rfl (by simpa using hon) hA rfl rfl,
        fun _ => hA⟩
  | link m => exact driverLink_sim c _ w _ m rfl hA rfl
  | assoc m =>
      exact driverAssoc_sim c _ w false _ m hA (fun i hnas hok => .inr ⟨rfl, hnas, hok⟩)
        (fun _ i hfind hstarts => .inl ⟨⟨hfind, hstarts⟩, framesSince_visible i w.log⟩)
  | disassoc m => exact driverDisassoc_sim c _ w _ m rfl hA rfl rfl rfl
  | micError m => exact driverMicError_sim c _ w _ m hA
  | radius r => exact radiusDispatch_sim c _ w _ r rfl .refl rfl rfl rfl rfl
  | retxTimer i =>
      simp only [dispatch, wp_bind, wp_getSta, wp_ite, wp_pure]
      exact ⟨fun htd => wpaRetransmission_sim c _ w false _ i hA rfl rfl rfl rfl htd, fun _ => hA⟩
  | wdsTimer i =>
      simp only [dispatch, wdsTimeout, wp_ite, wp_pure]
      refine ⟨fun hwds => ?_, fun _ => hA⟩
      split
      · exact startPkinit_sim c _ w false _ i hA 
          (fun j hj => .inl ⟨⟨hwds, hj⟩, framesSince_visible j w.log⟩)
      · rename_i hrole
        exact supKeeps_requestPkinit hrole i _ hA
  | gtkTimer =>
      exact wp_mono (wpaNewGtkCallback_sim c _ w _ hA trivial (fun _ => rfl)) (fun _ _ h => h.1)
        (fun _ _ h => h)
  | ptkTimer =>
      simp only [dispatch, wp_bind, wp_get, wp_ite, wp_pure]
      exact ⟨fun htd => wpaNewPtkCallback_sim c _ w false _ hA rfl htd rfl, fun _ => hA⟩
  | countermeasuresTimer =>
      simp only [dispatch, wpaCountermeasuresCb, wp_bind, wp_get, wp_ite, wp_pure,
        wp_modify, wp_emit]
      refine ⟨fun _ => ?_, fun _ => hA⟩
      rw [abs_out_of_not_visible rfl]
      exact hA
  | watchdogTimer =>
      simp only [dispatch, wp_ite, wp_pure]
      exact ⟨fun _ => nasWatchdog_sim c _ w _ hA, fun _ => hA⟩
  | forceRekey =>
      simp only [dispatch, wp_ite, wp_pure]
      refine ⟨fun _ => ?_, fun _ => hA⟩
      exact wp_mono (wpaNewGtk_sim c _ w _ hA trivial (fun _ => rfl)) (fun _ _ h => h.1)
        (fun _ _ h => h)

/-! ## The start of an instance -/

/-- The static WEP key and its index, which the driver has before the instance starts. -/
def Config.staticKey (cfg : Config) : Option (Bytes × Nat) :=
  if cfg.gtkRekeySecs = 0 ∧ cfg.index ≠ 0 ∧ wsecWepEnabled cfg.wsec = true then
    cfg.wepKey.map fun key => (key, cfg.index - 1)
  else none

/-- The abstract state in which an instance starts: no stations, and a group key only if a
static WEP key is configured. -/
structure Starts (c : Ctx) (a : Abs) : Prop where
  sta : a.sta = fun _ => Sta.zero.core
  fits : a.fits = true
  plumbed : a.plumbed = true → c.cfg.staticKey = some a.gtk
  rekeying : a.rekeying = false
  log : a.log = []
  halted : a.halted = false

section Start

variable (c ev w0) (w : World) {A : Abs}

theorem nasStart_sim (hA : Reach c ev w0 A (abs false w)) (hempty : ∀ ea, w.find ea = none) :
    wp (nasStart c) (fun _ w' => Reach c ev w0 A (abs false w')) (Stops c ev w0 A) w := by
  simp only [nasStart, wp_ite, wp_pure, wp_bind]
  refine ⟨fun _ => hA, fun hwds => ?_⟩
  have hwds' : c.cfg.wds = true := by simpa using hwds
  refine wp_mono (lookupSta_spec c ev w0 false w c.cfg.remote true) (fun x w1 hl => ?_)
    (fun _ _ h => h.elim)
  cases hl.1 with
  | none => exact hA
  | old i hfind =>
      rw [hempty] at hfind
      cases hfind
  | new i _ hnone hfound hnew hframes hcm hreach =>
      have hA1 := hA.trans hreach
      have hea1 : (w1.sta i).ea = c.cfg.remote := World.find_ea hfound
      have hidle := newSta_idle c c.cfg.remote w.now
      -- The mode is set, and the link is started.
      have hgo : ∀ w2, Reach c ev w0 A (abs false w2) → w2.staHashed = w1.staHashed →
          (∀ j, (w2.sta j).ea = (w1.sta j).ea) → (abs false w2).log = (abs false w1).log →
          (w2.sta i).state.busy = false → (w2.sta i).retxExceedHndlr = false →
          wp (do
            let _ ← wpaSetSuppl c i c.cfg.mode c.cfg.wsec cryptoAlgoOff
            linkStart c i)
          (fun _ w' => Reach c ev w0 A (abs false w')) (Stops c ev w0 A) w2 := by
        intro w2 hA2 hh hea hlog hbusy hhndlr
        rw [wp_bind]
        refine wp_mono (wpaSetSuppl_spec c w2 i _ _ _) (fun b w3 h3 => ?_) (fun _ _ h => h.elim)
        have hA3 : Reach c ev w0 A (abs false w3) ∧ w3.staHashed = w1.staHashed
            ∧ (∀ j, (w3.sta j).ea = (w1.sta j).ea) ∧ (abs false w3).log = (abs false w1).log := by
          rcases h3 with ⟨_, rfl⟩ | ⟨_, hok, version, rfl⟩
          · exact ⟨hA2, hh, hea, hlog⟩
          · refine ⟨?_, hh, fun j => ?_, ?_⟩
            · refine reach_move i hA2 (.setup c.cfg.mode c.cfg.wsec (w2.sta i).pmk hok
                (.inl rfl) ⟨hhndlr, .inr hbusy⟩) ?_
              rw [abs_updSta]
              rfl
            · rw [World.updSta_ea rfl, hea]
            · rw [abs_updSta]
              exact hlog
        obtain ⟨hA3, hh3, hea3, hlog3⟩ := hA3
        unfold linkStart
        split
        · rename_i hrole
          exact supKeeps_wpaRequest hrole i w3 hA3
        · refine wpaStart_sim c ev w0 false w3 i hA3 hwds' (fun j hj => .inr ?_)
          rw [World.find_congr hh3 hea3, hea3, hea1, hfound] at hj
          rw [hlog3, ← Option.some.inj hj]
          exact hframes
      simp only [wp_bind, wp_ite, wp_modSta]
      simp only [wp_bind] at hgo
      refine ⟨fun hpsk => hgo _ ?_ rfl (fun j => World.updSta_ea rfl j) ?_ ?_ ?_, fun _ =>
        hgo w1 hA1 rfl (fun _ => rfl) rfl ?_ ?_⟩
      · refine reach_move i hA1 (.wdsPmk hwds' hpsk) ?_
        rw [abs_updSta]
        rfl
      · rw [abs_updSta]
        rfl
      · rw [World.updSta_same, hnew]
        exact hidle.1
      · rw [World.updSta_same, hnew]
        exact hidle.2
      · rw [hnew]
        exact hidle.1
      · rw [hnew]
        exact hidle.2

/-- What is known of the instance before its stations are entered. -/
structure Fresh (c : Ctx) (w : World) : Prop where
  sta : w.sta = World.zero.sta
  hashed : w.staHashed = World.zero.staHashed
  fits : w.gtkLen ≤ w.gtk.length
  room : 32 ≤ w.gtk.length
  plumbed : w.gtkPlumbed = true → c.cfg.staticKey = some w.groupKey
  log : w.log = []
  halted : w.halted = false

theorem Fresh.of_eq {w w' : World} (h : Fresh c w) (hsta : w'.sta = w.sta)
    (hh : w'.staHashed = w.staHashed) (hlen : w'.gtkLen = w.gtkLen) (hgtk : w'.gtk = w.gtk)
    (hplumbed : w'.gtkPlumbed = true → w.gtkPlumbed = true ∧ w'.gtkIndex = w.gtkIndex)
    (hlog : w'.log = w.log) (hhalted : w'.halted = w.halted) : Fresh c w' := by
  refine ⟨hsta.trans h.sta, hh.trans h.hashed, by rw [hlen, hgtk]; exact h.fits,
    by rw [hgtk]; exact h.room, fun hp => ?_, hlog.trans h.log, hhalted.trans h.halted⟩
  obtain ⟨hp, hindex⟩ := hplumbed hp
  rw [World.groupKey, hlen, hgtk, hindex]
  exact h.plumbed hp

theorem initSeeds_fresh : Keeps (fun w => Fresh c w ∧ w.gtkPlumbed = false) (fun _ _ => False)
    (initSeeds c) := by
  intro w h
  simp only [initSeeds, initGlobalKeyCounter, nasRand128, wp_bind, wp_ite, wp_pure, wp_oracle,
    wp_modify]
  exact ⟨fun _ => ⟨h.1.of_eq c rfl rfl rfl rfl (fun hp => ⟨hp, rfl⟩) rfl rfl, h.2⟩, fun _ => h⟩

theorem initIndex_fresh {w : World} (h : Fresh c w) (hno : w.gtkPlumbed = false) :
    wp (initIndex c) (fun _ => Fresh c) (fun _ _ => False) w := by
  simp only [initIndex, wp_bind, wp_ite, wp_pure, wp_modify]
  refine ⟨fun hindex => ?_, fun _ => h⟩
  have hplain : Fresh c { w with gtkIndex := c.cfg.index - 1 } :=
    h.of_eq c rfl rfl rfl rfl (fun hp => by cases hp.symm.trans hno) rfl rfl
  split
  · rename_i key hkey
    simp only [wp_ite, wp_modify, wp_pure]
    refine ⟨fun hwep => ⟨h.sta, h.hashed, ?_, ?_, fun _ => ?_, h.log, h.halted⟩, fun _ => hplain⟩
    · simp
    · have := h.room
      simp only [List.length_append, List.length_drop]
      omega
    · rw [Config.staticKey, if_pos ⟨hindex.1, hindex.2, hwep⟩, hkey]
      simp [World.groupKey]
  · exact hplain

theorem nasInitKeys_spec :
    wp (nasInitKeys c) (fun _ => Fresh c) (fun _ _ => False) World.zero := by
  have hzero : Fresh c World.zero := ⟨rfl, rfl, by decide, by decide, (by rintro ⟨⟩), rfl, rfl⟩
  have hcap : Keeps (Fresh c) (fun _ _ => False) (nasGetWpacap c) := by
    refine .bind ?_ fun x => ?_
    · exact fun w h => h.of_eq c rfl rfl rfl rfl (fun hp => ⟨hp, rfl⟩) rfl rfl
    · cases x with
      | some cap =>
          exact .modifyState fun w h => h.of_eq c rfl rfl rfl rfl (fun hp => ⟨hp, rfl⟩) rfl rfl
      | none => exact .pure _
  have hrest : ∀ w, Fresh c w ∧ w.gtkPlumbed = false → wp (do
      initSeeds c
      initIndex c
      if c.cfg.role = .authenticator then nasGetWpacap c) (fun _ => Fresh c)
          (fun _ _ => False) w := by
    intro w h
    rw [wp_bind]
    refine wp_mono (initSeeds_fresh c w h) (fun _ w1 h1 => ?_) (fun _ _ h => h)
    rw [wp_bind]
    exact wp_mono (initIndex_fresh c h1.1 h1.2) (fun _ w2 h2 => Keeps.ite hcap (.pure _) w2 h2)
      (fun _ _ h => h)
  simp only [nasInitKeys, wp_bind, wp_ite, wp_modify] at hrest ⊢
  refine ⟨fun _ => hrest _ ⟨⟨rfl, rfl, ?_, by decide, (by rintro ⟨⟩), rfl, rfl⟩, rfl⟩, fun _ =>
    hrest _ ⟨hzero, rfl⟩⟩
  decide

/-- The start of an instance is a sequence of steps, whatever the event and the world are that
the steps are labelled with. -/
theorem initWorld_sim : ∃ a, Starts c a ∧
    ∀ ev w0, ∃ b, Reach c ev w0 a b ∧ Shows (initWorld c) b := by
  have hkeys := nasInitKeys_spec c
  unfold wp at hkeys
  cases hm : nasInitKeys c World.zero with
  | error e w =>
      rw [hm] at hkeys
      exact hkeys.elim
  | ok u w =>
      rw [hm] at hkeys
      have hinit : initWorld c = exec (nasStart c) w := by
        show exec (EStateM.bind _ _) _ = _
        rw [exec, EStateM.bind, hm]
        rfl
      refine ⟨abs false w, ⟨?_, decide_eq_true hkeys.fits, hkeys.plumbed, rfl, ?_, hkeys.halted⟩,
        fun ev w0 => ?_⟩
      · funext j
        rw [abs_sta, hkeys.sta]
        rfl
      · simp [abs, hkeys.log]
      · rw [hinit]
        refine exec_sim (nasStart_sim c ev w0 w .refl (fun ea => ?_))
        rw [World.find, hkeys.hashed]
        rfl

end Start

/-! ## Runs -/

section Runs

variable {I : Abs → Prop} {C : World → Event → Prop}

/-- An invariant of the automaton holds when the instance starts to serve. Its start counts as a
timer expiry on an empty world. -/
theorem init_sim (c : Ctx) (h0 : C World.zero .watchdogTimer) (hinit : ∀ a, Starts c a → I a)
    (hstep : ∀ w ev, C w ev → ∀ a b, I a → AStep c ev w a b → I b) :
    ∃ a, Shows (initWorld c) a ∧ I a := by
  obtain ⟨a, ha, hreach⟩ := initWorld_sim c
  obtain ⟨b, hab, hb⟩ := hreach .watchdogTimer World.zero
  exact ⟨b, hb, reach_invariant (hstep World.zero .watchdogTimer h0) hab (hinit a ha)⟩

/-- **Invariants of the automaton are invariants of the program.** Every step of the run meets
`C`. -/
theorem run_sim {c : Ctx} (h0 : C World.zero .watchdogTimer) (hinit : ∀ a, Starts c a → I a)
    (hstep : ∀ w ev, C w ev → ∀ a b, I a → AStep c ev w a b → I b) {es : List (Nat × Event)}
    (hC : Along (step c) (fun w e => C w e.2) (initWorld c) es) :
    ∃ a, Shows (run (step c) (initWorld c) es) a ∧ I a :=
  simulation_invariant (R := fun w e => AStep c e.2 w) (step_sim c)
    (fun w e hwe => hstep w e.2 hwe) (init_sim c h0 hinit hstep) hC

/-- A property of the effects of every step, from an invariant `G` of the small steps of one
event. -/
theorem along_sim {c : Ctx} {G : World → Event → Abs → Prop} {P : World → Nat × Event → Prop}
    (h0 : C World.zero .watchdogTimer) (hinit : ∀ a, Starts c a → I a)
    (hstep : ∀ w ev, C w ev → ∀ a b, I a → AStep c ev w a b → I b)
    (hG0 : ∀ w ev a, Shows w a → I a → G w ev a)
    (hG : ∀ w ev, C w ev → ∀ a b, I a → G w ev a → AStep c ev w a b → G w ev b)
    (hP : ∀ w e b, Shows (step c w e) b → G w e.2 b → P w e) {es : List (Nat × Event)}
    (hC : Along (step c) (fun w e => C w e.2) (initWorld c) es) :
    Along (step c) P (initWorld c) es :=
  simulation_along (R := fun w e => AStep c e.2 w) (G := fun w e => G w e.2) (step_sim c)
    (fun w e hwe => hstep w e.2 hwe) (fun w e a => hG0 w e.2 a) (fun w e hwe => hG w e.2 hwe)
    (fun w e b => hP w e b) (init_sim c h0 hinit hstep) hC

end Runs

end BroadcomWl.Nas
