import BroadcomWl.Nas.Replay

/-!
# Authorization

Without WEP a station is to be authorized only on message 4, or on the reply to the group key
message, under a MIC key that belongs to a PMK of its own. The two handlers check the MIC with the
key in the station struct; an invariant (`Core.Authentic`) says where that key comes from, over
associations, RADIUS results and the port entity, which all change the station on their own.

**`authorize_justified`** holds for the runs in which three things do not happen: an Access-Accept
for a station whose mode is not a WPA mode (`mode_none_authorized` is such a run: the station has
not associated at all), message 2 for a station without a PMK, and the handler for exceeded retries
for a station that it authorizes at once. -/

namespace BroadcomWl.Nas

open BroadcomWl.Lib BroadcomWl.Crypto

variable {c : Ctx} {ev : Event} {w0 : World}

/-- A PMK that the station may have: the configured one, or one that a RADIUS Accept delivered
for it. -/
def Allowed (c : Ctx) (log : List Out) (ea pmk : Bytes) : Prop :=
  pmk ≠ [] ∧ (pmk = c.cfg.pmk ∨ .pmk ea pmk ∈ log)

/-- A MIC key that `wpa_calc_ptk` computes from an allowed PMK. -/
def MicKey (c : Ctx) (log : List Out) (ea anonce key : Bytes) : Prop :=
  ∃ pmk snonce len, Allowed c log ea pmk ∧ 16 ≤ len
    ∧ key = (calcPtk c.crypto pmk c.cfg.ea ea anonce snonce len).take 16

/-- The event is an EAPOL-Key frame of the station with this address, and its MIC verifies under
such a key, computed from the station's current nonce. -/
def Justified (c : Ctx) (w : World) (ev : Event) (ea : Bytes) : Prop :=
  ∃ f i key, ev = .eapol f ∧ delivered w f i = true ∧ (w.sta i).ea = ea
    ∧ MicKey c w.log ea (w.sta i).anonce key
    ∧ has f.keyInfo wpaKeyMic = true ∧ checkMicWith c.crypto key f = true

/-- `nas_authorize` is called for the address while the event is processed. -/
def authorizes (c : Ctx) (w : World) (e : Nat × Event) (ea : Bytes) : Prop :=
  w.log.count (.authorize ea) < (step c w e).log.count (.authorize ea)

/-- Every authorization of the step is justified. -/
def AuthorizeSafe (c : Ctx) (w : World) (e : Nat × Event) : Prop :=
  ∀ ea, authorizes c w e ea → Justified c w e.2 ea

/-- The event is no Access-Accept for a station without a WPA mode, no message 2 for a station
without a PMK, and no expiry whose handler authorizes the station. -/
def AuthorizeCalm (c : Ctx) (w : World) : Event → Prop
  | .eapol f => ∀ i, delivered w f i = true → takenForM2 (w.sta i) f = true → (w.sta i).pmk ≠ []
  | .radius r => ∀ i, acceptsWithKey w r i = true → checkWpa (w.sta i).mode = true
  | .retxTimer i => exhausted c w i = true →
      c.cfg.wds = false ∧ checkWpa2 (w.sta i).mode = false
  | _ => True

instance (c : Ctx) (w : World) (ev : Event) : Decidable (AuthorizeCalm c w ev) := by
  apply @Event.casesOn (fun ev => Decidable (AuthorizeCalm c w ev)) ev
  all_goals
    intros
    dsimp only [AuthorizeCalm]
    infer_instance

/-! ## The invariant -/

theorem Allowed.mono {l l' : List Out} {ea pmk : Bytes} (h : Allowed c l ea pmk)
    (hl : ∀ o ∈ l, o ∈ l') : Allowed c l' ea pmk :=
  ⟨h.1, h.2.imp id (hl _)⟩

theorem MicKey.mono {l l' : List Out} {ea anonce key : Bytes} (h : MicKey c l ea anonce key)
    (hl : ∀ o ∈ l, o ∈ l') : MicKey c l' ea anonce key := by
  obtain ⟨pmk, snonce, len, hpmk, hlen, hkey⟩ := h
  exact ⟨pmk, snonce, len, hpmk.mono hl, hlen, hkey⟩

/-- The station is in a state from which it can be authorized. -/
def Core.Verifying (k : Core) : Prop :=
  k.state = .ptkinitdone ∨ k.state = .rekeynegotiating ∨ k.state = .setkeysdone ∨ k.hndlr = true

/-- Where the keys of a station come from. The descriptor version and the PTK length go together,
and a station that was set up for WPA has them. -/
structure Core.Authentic (c : Ctx) (log : List Out) (k : Core) : Prop where
  lens : k.desc = 0 ∨ 48 ≤ k.ptkLen
  desc : has k.mode (wpa ||| wpaPsk) = true → k.desc ≠ 0
  pmk : k.pmk = [] ∨ Allowed c log k.ea k.pmk
  ptk : k.Verifying → MicKey c log k.ea k.anonce (k.ptk.take 16)

theorem Core.Authentic.mono {l l' : List Out} {k : Core} (h : k.Authentic c l)
    (hl : ∀ o ∈ l, o ∈ l') : k.Authentic c l' :=
  ⟨h.lens, h.desc, h.pmk.imp id fun hp => hp.mono hl, fun hv => (h.ptk hv).mono hl⟩

/-- A state of no handshake is no state from which a station can be authorized. -/
theorem verifying_of_dropped {k : Core} {state : WpaState}
    (hstate : state = k.state ∨ state.busy = false)
    (hv : state = .ptkinitdone ∨ state = .rekeynegotiating ∨ state = .setkeysdone ∨ false = true) :
    k.Verifying := by
  rcases hstate with rfl | hbusy
  · rcases hv with hs | hs | hs | hs
    · exact .inl hs
    · exact .inr (.inl hs)
    · exact .inr (.inr (.inl hs))
    · cases hs
  · rcases hv with hs | hs | hs | hs
    · rw [hs] at hbusy
      cases hbusy
    · rw [hs] at hbusy
      cases hbusy
    · rw [hs] at hbusy
      cases hbusy
    · cases hs

theorem allowed_psk (l : List Out) (ea : Bytes) : c.cfg.pmk = [] ∨ Allowed c l ea c.cfg.pmk := by
  by_cases hempty : c.cfg.pmk = []
  · exact .inl hempty
  · exact .inr ⟨hempty, .inl rfl⟩

theorem calcPtk_length (cr : Crypto) (pmk aa spa anonce snonce : Bytes) (len : Nat) :
    (calcPtk cr pmk aa spa anonce snonce len).length = len := by
  unfold calcPtk
  rw [List.length_take]
  exact min_eq_left (cr.le_fPRF_length _ _ _ _)

theorem wpa_of_not_wpa2 {mode : Nat} (hnas : checkNas mode = true) (h2 : checkWpa2 mode = false) :
    has mode (wpa ||| wpaPsk) = true := by
  simp only [checkNas, checkWpa2, has, bne_iff_ne, ne_eq, bne_eq_false_iff_eq] at hnas h2 ⊢
  intro hzero
  apply hnas
  rw [show wpa ||| wpaPsk ||| wpa2 ||| wpa2Psk = (wpa ||| wpaPsk) ||| (wpa2 ||| wpa2Psk) from rfl,
    Nat.and_or_distrib_left, hzero, h2]
  rfl

theorem not_wpa_mode : has 0 (wpa ||| wpaPsk) = false ∧ has radius (wpa ||| wpaPsk) = false
    ∧ has wpa2 (wpa ||| wpaPsk) = false := by
  decide

/-- **A step of a station keeps its keys authentic.** -/
theorem Move.authentic (hC : AuthorizeCalm c w0 ev) {a : Abs} {i : Slot} {k : Core}
    {outs : List Out} (h : Move c ev w0 a i k outs) (ha : (a.sta i).Authentic c a.log) :
    k.Authentic c (outs ++ a.log) := by
  have ha' : (a.sta i).Authentic c (outs ++ a.log) :=
    ha.mono fun o ho => List.mem_append_right _ ho
  cases h with
  | init ea now =>
      obtain ⟨mode, wsec, state, hmode, hstate, hcore⟩ := newSta_core c ea now
      rw [hcore]
      refine ⟨.inl rfl, fun hhas => ?_, .inl rfl, fun hv => ?_⟩
      · rcases hmode with rfl | ⟨rfl, -⟩
        · exact absurd hhas (ne_true_of_eq_false not_wpa_mode.1)
        · exact absurd hhas (ne_true_of_eq_false not_wpa_mode.2.1)
      · rcases hstate with rfl | rfl
        · rcases hv with hs | hs | hs | hs <;> cases hs
        · rcases hv with hs | hs | hs | hs <;> cases hs
  | drop used state hused hstate hkept =>
      exact ⟨ha'.lens, ha'.desc, ha'.pmk, fun hv => ha'.ptk (verifying_of_dropped hstate hv)⟩
  | restart nonce retry =>
      refine ⟨ha'.lens, ha'.desc, ha'.pmk, fun hv => ?_⟩
      rcases hv with hs | hs | hs | hs <;> cases hs
  | start =>
      refine ⟨ha'.lens, ha'.desc, ha'.pmk, fun hv => ha'.ptk ?_⟩
      rcases hv with hs | hs | hs | hs
      · cases hs
      · cases hs
      · cases hs
      · exact .inr (.inr (.inr hs))
  | preauth f hev hon hold =>
      refine ⟨ha'.lens, fun hhas => ?_, ha'.pmk, ha'.ptk⟩
      exact absurd hhas (ne_true_of_eq_false not_wpa_mode.2.2)
  | wepMode hwep hradius =>
      refine ⟨ha'.lens, fun hhas => ?_, ha'.pmk, ha'.ptk⟩
      exact absurd hhas (ne_true_of_eq_false not_wpa_mode.2.1)
  | setup mode wsec pmk hok hpmk hidle =>
      simp only [supplOk, Bool.and_eq_true, beq_iff_eq] at hok
      refine ⟨.inr ?_, fun _ => ?_, ?_, ha'.ptk⟩
      · show 48 ≤ if wsecAesEnabled wsec = true then aesPtkLen else tkipPtkLen
        split <;> decide
      · show (if wsecAesEnabled wsec = true then wpaKeyDescV2 else wpaKeyDescV1) ≠ 0
        split <;> decide
      · rcases hpmk with rfl | ⟨hpsk, rfl⟩
        · exact ha'.pmk
        · exact allowed_psk _ _
  | wdsPmk hwds hpsk => exact ⟨ha'.lens, ha'.desc, allowed_psk _ _, ha'.ptk⟩
  | pmk pmk =>
      refine ⟨ha'.lens, ha'.desc, ?_, ha'.ptk⟩
      by_cases hempty : pmk = []
      · exact .inl hempty
      · exact .inr ⟨hempty, .inr List.mem_cons_self⟩
  | sendM1 kf td hstate hk htd hstart =>
      refine ⟨ha'.lens, ha'.desc, ha'.pmk, fun hv => ?_⟩
      rcases hv with hs | hs | hs | hs <;> cases hs
  | badM2 ptk td hstate htd =>
      refine ⟨ha'.lens, ha'.desc, ha'.pmk, fun hv => ?_⟩
      rcases hv with hs | hs | hs | hs
      · cases hstate.symm.trans hs
      · cases hstate.symm.trans hs
      · cases hstate.symm.trans hs
      · cases hs
  | goodM2 f kf td hev hold hstate hflags hreplay hdesc hlen hplumbed hk htd =>
      obtain ⟨hdel, hcore⟩ := hold
      refine ⟨ha'.lens, ha'.desc, ha'.pmk, fun _ => ?_⟩
      -- The descriptor version is known, so the PTK is long enough to hold a MIC key.
      have hdesc0 : (a.sta i).desc ≠ 0 := by
        cases h2 : checkWpa2 (a.sta i).mode with
        | true => exact hdesc h2
        | false =>
            apply ha.desc
            apply wpa_of_not_wpa2 _ h2
            rw [hcore]
            simp only [delivered, Bool.and_eq_true] at hdel
            exact hdel.1.2
      have hptk : 48 ≤ (a.sta i).ptkLen := ha.lens.resolve_left hdesc0
      have hpmk : (a.sta i).pmk ≠ [] := by
        subst hev
        rw [hcore] at hstate hreplay ⊢
        refine hC i hdel ?_
        simp only [takenForM2, Bool.and_eq_true, beq_iff_eq]
        exact ⟨⟨hstate, hflags⟩, hreplay⟩
      refine ⟨(a.sta i).pmk, f.nonce, (a.sta i).ptkLen, ha'.pmk.resolve_left hpmk, by omega, ?_⟩
      exact List.take_append_of_le_length (by rw [calcPtk_length]; omega)
  | pairwiseDone hold hwhy hmode =>
      refine ⟨ha'.lens, ha'.desc, ha'.pmk, fun _ => ha'.ptk ?_⟩
      rcases hwhy with ⟨hs, -⟩ | ⟨-, hexh⟩
      · exact .inl hs
      · rw [hold]
        simp only [exhausted, Bool.and_eq_true] at hexh
        exact .inr (.inr (.inr hexh.1.2))
  | groupStart kf td hold hwhy hmode hplumbed hk =>
      refine ⟨ha'.lens, ha'.desc, ha'.pmk, fun _ => ha'.ptk ?_⟩
      rcases hwhy with ⟨hs, -⟩ | ⟨-, hexh⟩
      · exact .inl hs
      · rw [hold]
        simp only [exhausted, Bool.and_eq_true] at hexh
        exact .inr (.inr (.inr hexh.1.2))
  | groupDone hold hstate hver =>
      exact ⟨ha'.lens, ha'.desc, ha'.pmk, fun _ => ha'.ptk (.inr (.inl hstate))⟩
  | rekeySend kf td hstate hrk hk htd =>
      exact ⟨ha'.lens, ha'.desc, ha'.pmk, fun _ => ha'.ptk (.inr (.inr (.inl hstate)))⟩
  | retxNothing htd hsends =>
      exact ⟨ha'.lens, ha'.desc, ha'.pmk, fun hv => ha'.ptk (verifying_of_dropped (.inl rfl) hv)⟩
  | stop h =>
      exact ⟨ha'.lens, ha'.desc, ha'.pmk, fun hv => ha'.ptk (verifying_of_dropped (.inl rfl) hv)⟩
  | _ => exact ⟨ha'.lens, ha'.desc, ha'.pmk, ha'.ptk⟩

/-- The keys of every station are authentic. -/
def KeysAuthentic (c : Ctx) (a : Abs) : Prop := ∀ i, (a.sta i).Authentic c a.log

theorem AStep.keysAuthentic (hrole : c.cfg.role = .authenticator) (hC : AuthorizeCalm c w0 ev)
    {a b : Abs} (ha : KeysAuthentic c a) (h : AStep c ev w0 a b) : KeysAuthentic c b := by
  intro j
  rcases h.inversion with ⟨i, k, outs, hm, rfl⟩ | hkey | hsup
  · by_cases hj : j = i
    · subst hj
      rw [Abs.put_sta_same]
      exact hm.authentic hC (ha j)
    · rw [Abs.put_sta_ne _ hj]
      exact (ha j).mono fun o ho => List.mem_append_right _ ho
  · obtain ⟨outs, hlog, -⟩ := hkey.log
    rw [hkey.sta, hlog]
    exact (ha j).mono fun o ho => List.mem_append_right _ ho
  · cases hrole.symm.trans hsup.role

/-! ## Authorizations -/

theorem Verified.justified {i : Slot} (h : Verified c ev w0 i)
    (hkeys : (w0.sta i).core.Authentic c w0.log) (hv : (w0.sta i).core.Verifying) :
    Justified c w0 ev (w0.sta i).ea := by
  obtain ⟨f, hev, hdel, hflag, hmic⟩ := h
  exact ⟨f, i, _, hev, hdel, rfl, hkeys.ptk hv, hflag, hmic⟩

/-- **A step that authorizes a station is justified.** -/
theorem Move.justified (hwep : wsecWepEnabled c.cfg.wsec = false) (hC : AuthorizeCalm c w0 ev)
    (hkeys : ∀ i, (w0.sta i).core.Authentic c w0.log) {a : Abs} {i : Slot} {k : Core}
    {outs : List Out} (h : Move c ev w0 a i k outs) {ea : Bytes} (hea : .authorize ea ∈ outs) :
    Justified c w0 ev ea := by
  cases h with
  | authorize hwhy =>
      rcases hwhy with hyes | ⟨r, rfl, hacc, hmode⟩
      · cases hyes.symm.trans hwep
      · cases (hC i hacc).symm.trans hmode
  | pairwiseDone hold hwhy hmode =>
      simp only [List.mem_singleton, Out.authorize.injEq] at hea
      rw [hea, hold]
      rcases hwhy with ⟨hs, hver⟩ | ⟨rfl, hexh⟩
      · rw [hold] at hs
        exact hver.justified (hkeys i) (.inl hs)
      · obtain ⟨hwds, h2⟩ := hC hexh
        rw [hold] at hmode
        rcases hmode with hyes | hyes
        · cases hyes.symm.trans hwds
        · cases hyes.symm.trans h2
  | groupDone hold hstate hver =>
      simp only [List.mem_singleton, Out.authorize.injEq] at hea
      rw [hea, hold]
      rw [hold] at hstate
      exact hver.justified (hkeys i) (.inr (.inl hstate))
  | _ => simp at hea

/-- Between two events: as long as the instance runs, its keys were authentic before the event, and
what has been authorized since is justified. -/
def JustifiedSince (c : Ctx) (w : World) (ev : Event) (a : Abs) : Prop :=
  w.halted = true ∨ ((∀ i, (w.sta i).core.Authentic c w.log)
    ∧ ∀ ea, w.log.count (.authorize ea) < a.log.count (.authorize ea) → Justified c w ev ea)

theorem AStep.justifiedSince (hrole : c.cfg.role = .authenticator)
    (hwep : wsecWepEnabled c.cfg.wsec = false) (hC : AuthorizeCalm c w0 ev) {a b : Abs}
    (ha : JustifiedSince c w0 ev a) (h : AStep c ev w0 a b) : JustifiedSince c w0 ev b := by
  rcases ha with hhalted | ⟨hkeys, hsince⟩
  · exact .inl hhalted
  refine .inr ⟨hkeys, fun ea hlt => ?_⟩
  rcases h.inversion with ⟨i, k, outs, hm, rfl⟩ | hkey | hsup
  · by_cases hea : Out.authorize ea ∈ outs
    · exact hm.justified hwep hC hkeys hea
    · apply hsince
      rwa [show (a.put i k outs).log = outs ++ a.log from rfl, List.count_append,
        List.count_eq_zero_of_not_mem hea, Nat.zero_add] at hlt
  · apply hsince
    obtain ⟨outs, hlog, hout⟩ := hkey.log
    have hea : Out.authorize ea ∉ outs := by
      intro hmem
      obtain ⟨args, ret, ho⟩ := hout _ hmem
      cases ho
    rwa [hlog, List.count_append, List.count_eq_zero_of_not_mem hea, Nat.zero_add] at hlt
  · cases hrole.symm.trans hsup.role

/-- **Authorization is justified**, in every step of a run of an authenticator without WEP whose
steps meet the condition. -/
theorem authorize_justified (c : Ctx) (hrole : c.cfg.role = .authenticator)
    (hwep : wsecWepEnabled c.cfg.wsec = false) (es : List (Nat × Event))
    (hC : Along (step c) (fun w e => AuthorizeCalm c w e.2) (initWorld c) es) :
    Along (step c) (AuthorizeSafe c) (initWorld c) es := by
  have hcount : ∀ (l : List Out) ea,
      (l.filter Out.visible).count (.authorize ea) = l.count (.authorize ea) :=
    fun l ea => List.count_filter rfl
  have hstart : ∀ a, Starts c a → KeysAuthentic c a := by
    intro a ha i
    rw [ha.sta]
    refine ⟨.inl rfl, fun hhas => ?_, .inl rfl, fun hv => ?_⟩
    · exact absurd hhas (ne_true_of_eq_false not_wpa_mode.1)
    · rcases hv with hs | hs | hs | hs <;> cases hs
  refine along_sim (C := AuthorizeCalm c) (G := JustifiedSince c) trivial hstart
    (fun w ev hwe a b ha hab => hab.keysAuthentic hrole hwe ha) (fun w ev a hw ha => ?_)
    (fun w ev hwe a b _ hg hab => hab.justifiedSince hrole hwep hwe hg) (fun w e b hw hg => ?_) hC
  · cases hhalted : w.halted with
    | true => exact .inl hhalted
    | false =>
        obtain rfl := hw.eq_abs hhalted
        refine .inr ⟨fun i => (ha i).mono fun o ho => (List.mem_filter.mp ho).1, fun ea hlt => ?_⟩
        rw [hw.log, hcount] at hlt
        exact absurd hlt (lt_irrefl _)
  · intro ea hlt
    rw [authorizes] at hlt
    rcases hg with hhalted | ⟨-, hsince⟩
    · rw [step, if_pos hhalted] at hlt
      exact absurd hlt (lt_irrefl _)
    · apply hsince
      rwa [hw.log, hcount]

set_option maxRecDepth 100000 in
/-- A station associates and answers messages 1 and 3. -/
theorem authorize_justified_joined :
    Along (step pskContext) (AuthorizeSafe pskContext) (initWorld pskContext)
      (joining pskContext) := by
  refine authorize_justified pskContext rfl rfl _ ?_
  rw [pskContext_packed]
  decide +kernel

/-- An authenticator for WPA2 with a RADIUS server and AES. -/
def radiusContext : Ctx :=
  ⟨bcmcrypto, plainConfig .authenticator wpa2 aesEnabled, calmDriver⟩

/-- The identity response of the station `02:00:00:00:00:09`. -/
def identityResponse : Frame :=
  ⟨Mem.ofBytes ([2, 0, 0, 0, 0, 1] ++ [2, 0, 0, 0, 0, 9] ++ [0x88, 0x8e]
    ++ [1, 0, 0, 5, 2, 0, 0, 5, 1]), 23⟩

/-- An Access-Accept with an EAP success and a key of 32 octets. -/
def accessAccept : RadiusResponse :=
  ⟨0, .accept, [.messageAuthenticator true, .eapMessage 3 0 [3, 0, 0, 4],
    .mppeRecv (32 :: List.replicate 47 7)]⟩

set_option maxRecDepth 100000 in
/-- **A station that never associates** but authenticates to the RADIUS server: its mode is none of
the WPA modes, and it is authorized on the Access-Accept. -/
theorem mode_none_authorized :
    ¬ ∀ (c : Ctx), c.cfg.role = .authenticator → wsecWepEnabled c.cfg.wsec = false →
      ∀ es : List (Nat × Event), Along (step c) (AuthorizeSafe c) (initWorld c) es := by
  intro h
  have hsafe := h radiusContext rfl rfl [(1, .eapol identityResponse), (2, .radius accessAccept)]
  have hauth : authorizes radiusContext
      (step radiusContext (initWorld radiusContext) (1, .eapol identityResponse))
      (2, .radius accessAccept) [2, 0, 0, 0, 0, 9] := by
    unfold authorizes
    decide +kernel
  obtain ⟨f, i, key, hev, -⟩ := hsafe.2.1 _ hauth
  cases hev

end BroadcomWl.Nas
