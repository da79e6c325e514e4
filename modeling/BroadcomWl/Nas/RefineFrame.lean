import BroadcomWl.Nas.RefineWpa

/-!
# Refinement: frames, associations and timers

The functions that choose a handler: `process_wpa` on a received frame, the retransmission and
rekey timers, and the association messages of the driver.
-/

namespace BroadcomWl.Nas

open BroadcomWl.Lib Relation

variable {c : Ctx} {ev : Event} {w0 : World}

/-! ## Key requests -/

section Request

variable (c ev w0) (r : Bool) (w : World) (i : Slot) {A : Abs} {f : Frame}

theorem wpaPtkstart_sim (hA : Reach c ev w0 A (abs r w)) (hst : (w.sta i).state = .ptkstart)
    (hstart : has f.keyInfo wpaKeyReq = true → has f.keyInfo wpaKeyError = false →
      MayStart c ev w0 i (abs r w).log) :
    wp (wpaPtkstart c i f) (Ends c ev w0 A r i) (Stops c ev w0 A) w := by
  simp only [wpaPtkstart, wpaStopRetx, wp_bind, wp_ite, wp_pure, wp_modSta]
  refine ⟨fun _ => hA, fun hreq => ⟨fun _ => .of_reach hA i, fun herr => ?_⟩⟩
  refine wp_mono (startPtk_sim c ev w0 r _ i (Loose.stop c ev w0 r w i (.of_reach hA i)) ?_ ?_ ?_)
    (fun b w' h => ?_) (fun _ _ h => h)
  · simpa using hst
  · simp
  · simpa [abs_updSta] using hstart (by simpa using hreq) (by simpa using herr)
  · obtain ⟨rfl, h⟩ := h
    exact h

/-- An element is saved, after the nonce was renewed in the abstract state. -/
theorem wpaVerifystart_sim (hA : Loose c ev w0 A r i w)
    (hsave : has f.keyInfo wpaKeyReq = true → requestOk c f = true → saves c ev w0 i f.dataLen) :
    wp (wpaVerifystart c i f)
      (fun b w' => Ends c ev w0 A r i b w' ∧ (b = false → requestOk c f = true
        ∧ (w'.sta i).state = .ptkstart ∧ (w'.sta i).retryState = (w.sta i).state
        ∧ (w'.sta i).mode = (w.sta i).mode
        ∧ framesSince i (abs r w').log = framesSince i (abs r w).log)) (Stops c ev w0 A) w := by
  simp only [wpaVerifystart, wpaStopRetx, wp_bind, wp_ite, wp_pure, wp_modSta]
  refine ⟨fun _ => ⟨hA, (by rintro ⟨⟩)⟩, fun hreq => ?_⟩
  have hreq' : has f.keyInfo wpaKeyReq = true := by simpa using hreq
  split
  · exact ⟨Loose.stop c ev w0 r w i hA, (by rintro ⟨⟩)⟩
  · rename_i p hp
    simp only [saveWpaie, wp_bind, wp_ite, wp_pure, wp_emit, wp_throw, wp_modSta]
    refine ⟨fun _ => ⟨Loose.stop c ev w0 r w i hA, (by rintro ⟨⟩)⟩, fun hmode => ?_⟩
    have hok : requestOk c f = true := by
      simp only [requestOk, hp, Option.any_some, beq_iff_eq]
      simpa using hmode
    have hs := hsave hreq' hok
    have hlen : (f.data.slice 0 f.dataLen).length = f.dataLen :=
      Mem.slice_length _ _ _
    obtain ⟨td, hndlr, ha⟩ := hA
    refine ⟨fun _ => ?_, fun hle => ?_⟩
    · -- The element does not fit.
      refine .of_reach (ha.tail (.move i (.save f.dataLen (.inr hs)))) ?_ (fun j => ?_)
      · simp only [hlen]
        rfl
      · by_cases hj : j = i
        · subst hj; simp [Sta.core]
        · simp [Sta.core, hj]
    refine wp_of_quiet (nextNonce_quiet c r _ _) (fun nonce w1 h1 => ?_)
    refine ⟨?_, fun _ => ⟨hok, ?_, ?_, ?_, ?_⟩⟩
    · have h2 := ha.tail (.move i (.restart nonce (w.sta i).state))
      have h3 := h2.tail (.move i (.save f.dataLen (.inr hs)))
      have h4 := h3.tail (.move i (.setIe f.dataLen (by rw [hlen] at hle; omega)))
      have hseen := h1.seen
      have hsta := h1.sta
      simp only [Ends, Bool.false_eq_true, if_false]
      rw [abs_updSta, hseen, hsta]
      simp only [Abs.put_put, Abs.put_sta_same] at h4
      simpa [abs_updSta, abs_out, Out.visible, Sta.core, hlen] using h4
    · simp
    · simp [h1.sta]
    · simp [h1.sta]
    · rw [abs_updSta, h1.seen]
      simp [abs_updSta, abs_out, Out.visible, framesSince]

end Request

/-! ## Associations -/

section Assoc

variable (c ev w0) (r : Bool) (w : World) (i : Slot) {A : Abs}

/-- What the checks of an association's element leave behind: they touch fields that the core
does not have, and their verdict is that of the parsers. -/
structure Checked (c : Ctx) (i : Slot) (ie : Mem) (n : Nat) (w : World)
    (x : Option (Nat × Nat × Int)) (w' : World) : Prop where
  world : ∃ sha1 cap, w' = w.updSta i fun s => { s with keyAuthSha1 := sha1, cap := cap }
  authenticator : ∀ wsec mode pmkc, x = some (wsec, mode, pmkc) → c.cfg.role = .authenticator →
    ∃ p, wpaParseIe ie n (some (w.sta i).pmkid) = some p
      ∧ p.wsec = wsec ∧ p.mode = mode ∧ p.pmkc = pmkc
  supplicant : ∀ wsec mode pmkc, x = some (wsec, mode, pmkc) → c.cfg.role = .supplicant →
    wsec = c.cfg.wsec ∧ mode = c.cfg.mode
      ∧ (wpaCheckIe ie n c.cfg.wsec c.cfg.mode).any fun y => y.1 == 0

theorem assocCheckIe_spec (ie : Mem) (n : Nat) :
    wp (assocCheckIe c i ie n) (Checked c i ie n w) (fun _ _ => False) w := by
  have hsame : ∃ sha1 cap, w = w.updSta i fun s => { s with keyAuthSha1 := sha1, cap := cap } :=
    ⟨(w.sta i).keyAuthSha1, (w.sta i).cap, by simp [World.updSta]⟩
  unfold assocCheckIe
  split
  · rename_i hrole
    simp only [wp_bind, wp_getSta]
    split
    · exact ⟨hsame, (by intros; contradiction), (by intros; contradiction)⟩
    · rename_i p hp
      simp only [wp_bind, wp_modSta, wp_pure]
      refine ⟨⟨_, _, rfl⟩, fun wsec mode pmkc h _ => ⟨p, hp, ?_⟩, fun _ _ _ _ h => ?_⟩
      · simpa using h
      · rw [hrole] at h
        cases h
  · rename_i hrole
    have hno : ¬c.cfg.role = .authenticator := by
      rw [hrole]
      decide
    split
    · exact ⟨hsame, (by intros; contradiction), (by intros; contradiction)⟩
    · rename_i rest cap hck
      have hend : ∀ w', (∃ sha1 cap, w' = w.updSta i fun s =>
          { s with keyAuthSha1 := sha1, cap := cap }) →
          (rest ≠ 0 → Checked c i ie n w none w') ∧
          (¬rest ≠ 0 → Checked c i ie n w (some (c.cfg.wsec, c.cfg.mode, 0)) w') := by
        intro w' hw'
        refine ⟨fun _ => ⟨hw', (by intros; contradiction), (by intros; contradiction)⟩,
          fun h0 => ⟨hw', fun _ _ _ _ h => absurd h hno, fun wsec mode pmkc h _ => ?_⟩⟩
        simp only [Option.some.injEq, Prod.mk.injEq] at h
        refine ⟨h.1.symm, h.2.1.symm, ?_⟩
        rw [hck]
        simpa using h0
      cases cap with
      | some cap =>
          simp only [wp_bind, wp_modSta, wp_ite, wp_pure]
          exact hend _ ⟨(w.sta i).keyAuthSha1, _, rfl⟩
      | none =>
          simp only [wp_ite, wp_pure]
          exact hend _ hsame

theorem wpaSetSuppl_spec (mode wsec algo : Nat) : wp (wpaSetSuppl c i mode wsec algo)
    (fun b w' => (b = true ∧ w' = w) ∨ (b = false ∧ supplOk c mode wsec = true
      ∧ ∃ version, w' = w.updSta i fun s => { s with
        ptkLen := if wsecAesEnabled wsec then aesPtkLen else tkipPtkLen,
        tkLen := if wsecAesEnabled wsec then aesTkLen else tkipTkLen,
        desc := if wsecAesEnabled wsec then wpaKeyDescV2 else wpaKeyDescV1,
        mode := mode, wsec := wsec, algo := algo, eapolVersion := version }))
    (fun _ _ => False) w := by
  simp only [wpaSetSuppl, wp_bind, wp_ite, wp_pure, wp_modSta]
  refine ⟨fun _ => .inl ⟨trivial, trivial⟩, fun hmode => ⟨fun _ => .inl ⟨trivial, trivial⟩,
    fun hwsec => ⟨fun haes => .inr ⟨trivial, ?_, ?_⟩, fun haes =>
      ⟨fun htkip => .inr ⟨trivial, ?_, ?_⟩, fun _ => .inl ⟨trivial, trivial⟩⟩⟩⟩⟩
  · simp only [supplOk, haes, Bool.true_or, Bool.and_true, Bool.and_eq_true, beq_iff_eq]
    exact ⟨not_not.mp hmode, not_not.mp hwsec⟩
  · exact ⟨_, by simp [World.updSta, haes]; rfl⟩
  · simp only [supplOk, htkip, Bool.or_true, Bool.and_true, Bool.and_eq_true, beq_iff_eq]
    exact ⟨not_not.mp hmode, not_not.mp hwsec⟩
  · exact ⟨_, by simp [World.updSta, haes]; rfl⟩

theorem assocStart_sim (pmkc : Int) (hA : Reach c ev w0 A (abs r w))
    (hst : (w.sta i).state = .ptkstart) (hh : (w.sta i).retxExceedHndlr = false)
    (hM1 : has (w.sta i).mode wpa = false →
      (has (w.sta i).mode wpa2 = true → pmkc = 1 ∧ (w.sta i).pae.ssnto ≠ 0) →
      MayStart c ev w0 i (abs r w).log) :
    wp (assocStart c i pmkc) (fun b w' => b = false ∧ Reach c ev w0 A (abs r w'))
      (Stops c ev w0 A) w := by
  have hid : wp (sendIdentityReq c i) (fun _ w' => True ∧ Reach c ev w0 A (abs r w'))
      (Stops c ev w0 A) w :=
    wp_mono (sendIdentityReq_sim c ev w0 r w i hA) (fun _ _ h => ⟨trivial, h⟩) (fun _ _ h => h)
  -- The handshake, in a world that differs in the PMKID only.
  have hgo : ∀ w1, abs r w1 = abs r w → (w1.sta i).state = .ptkstart →
      (w1.sta i).retxExceedHndlr = false → has (w.sta i).mode wpa = false →
      (has (w.sta i).mode wpa2 = true → pmkc = 1 ∧ (w.sta i).pae.ssnto ≠ 0) →
      wp (do
        if ← startPtk c i then return true
        modify fun w => { w with ptkRekeySecs := 0, ptkRekeyTimer := none }
        return false) (fun b w' => b = false ∧ Reach c ev w0 A (abs r w'))
            (Stops c ev w0 A) w1 := by
    intro w1 hseen hst1 hh1 hno hwpa2
    have hA1 : Reach c ev w0 A (abs r w1) := by rwa [hseen]
    rw [wp_bind]
    refine wp_mono (startPtk_sim c ev w0 r w1 i (.of_reach hA1 i) hst1 hh1 ?_) (fun b w2 h2 => ?_)
      (fun _ _ h => h)
    · rw [hseen]
      exact hM1 hno hwpa2
    · obtain ⟨rfl, h2⟩ := h2
      exact ⟨rfl, h2⟩
  simp only [assocStart, nasWpaCalcPmkid, wp_bind, wp_getSta, wp_ite, wp_pure, wp_modSta]
  simp only [wp_bind, wp_ite, wp_pure] at hgo
  refine ⟨fun _ => hid, fun hno => ?_⟩
  have hno' : has (w.sta i).mode wpa = false := by simpa using hno
  refine ⟨fun hwpa2 => ⟨fun _ => hid, fun hc => ?_⟩, fun hwpa2 => ⟨fun _ => ?_, fun _ => ?_⟩⟩
  · exact hgo w rfl hst hh hno' (fun _ => by simpa using hc)
  · refine hgo _ (abs_updSta_of_core rfl) ?_ ?_ hno' (fun h => absurd h hwpa2)
    · simpa using hst
    · simpa using hh
  · exact hgo w rfl hst hh hno' (fun h => absurd h hwpa2)

/-- From `w` to `w'`, the element of an association has been accepted and saved, and the station
has got its mode and its ciphers. -/
structure Accepted (c : Ctx) (r : Bool) (i : Slot) (mode wsec n : Nat) (w w' : World) : Prop where
  countermeasures : w'.micCountermeasures = w.micCountermeasures
  auth : (w'.sta i).mode = mode
  pae : (w'.sta i).pae = (w.sta i).pae
  state : (w'.sta i).state = (w.sta i).state
  ok : supplOk c mode wsec = true
  seen : ∃ pmk, (pmk = (w.sta i).pmk ∨ (checkPsk mode = true ∧ pmk = c.cfg.pmk))
    ∧ abs r w' = (abs r w).put i { (w.sta i).core with
      td := none, hndlr := false, mode := mode, wsec := wsec, pmk := pmk,
      ptkLen := if wsecAesEnabled wsec then aesPtkLen else tkipPtkLen,
      tkLen := if wsecAesEnabled wsec then aesTkLen else tkipTkLen,
      desc := if wsecAesEnabled wsec then wpaKeyDescV2 else wpaKeyDescV1,
      ieLen := n } [.saveIe i n]

variable {r w i} {w' : World} {mode wsec n : Nat}

theorem Accepted.core (h : Accepted c r i mode wsec n w w') :
    ∃ pmk, (pmk = (w.sta i).pmk ∨ (checkPsk mode = true ∧ pmk = c.cfg.pmk))
      ∧ (w'.sta i).core = { (w.sta i).core with
        td := none, hndlr := false, mode := mode, wsec := wsec, pmk := pmk,
        ptkLen := if wsecAesEnabled wsec then aesPtkLen else tkipPtkLen,
        tkLen := if wsecAesEnabled wsec then aesTkLen else tkipTkLen,
        desc := if wsecAesEnabled wsec then wpaKeyDescV2 else wpaKeyDescV1,
        ieLen := n }
      ∧ abs r w' = (abs r w).put i (w'.sta i).core [.saveIe i n] := by
  obtain ⟨pmk, hpmk, hseen⟩ := h.seen
  have hcore : (w'.sta i).core = _ := congrArg (fun a => a.sta i) hseen
  rw [Abs.put_sta_same] at hcore
  refine ⟨pmk, hpmk, hcore, ?_⟩
  rw [hcore]
  exact hseen

/-- A station that is not in a handshake any more is set up: `k` is the step that ended it. -/
theorem Accepted.reach (h : Accepted c r i mode wsec n w w') (hn : n ≤ maxWpaIe)
    (hA : Loose c ev w0 A r i w) (used : Bool) (state retry : WpaState) (nonce : Bytes) {wf : World}
    (hbusy : used = true → state.busy = false)
    (hmove : ∀ a td hndlr, a.sta i = { (w.sta i).core with td := td, hndlr := hndlr } →
      Move c ev w0 a i { (w.sta i).core with
        td := none, hndlr := false, used := used, state := state, retryState := retry,
        anonce := nonce } [])
    (hwf : abs r wf = (abs r w').put i { (w'.sta i).core with
      td := none, hndlr := false, used := used, state := state, retryState := retry,
      anonce := nonce } []) :
    Reach c ev w0 A (abs r wf) := by
  obtain ⟨pmk, hpmk, hcore, hseen⟩ := h.core
  obtain ⟨td, hndlr, ha⟩ := hA
  have h1 := ha.tail (.move i (hmove _ td hndlr (Abs.put_sta_same _ _ _ _)))
  have h2 := h1.tail (.move i (.save n (.inl hn)))
  have h3 := h2.tail (.move i (.setIe n hn))
  have h4 := h3.tail (.move i (.setup mode wsec pmk h.ok ?_ ?_))
  · rw [hwf, hseen, hcore]
    simpa only [Abs.put_put, Abs.put_sta_same, List.append_nil, List.nil_append] using h4
  · simpa [Sta.core] using hpmk
  · simp only [Abs.put_sta_same, true_and]
    cases used with
    | false => exact .inl rfl
    | true => exact .inr (hbusy rfl)

variable (r) in
/-- The station is known to the authenticator, and it goes on with its key exchange. -/
theorem assocAccepted_sim (pmkc : Int) (hA : Loose c ev w0 A r i w) (hn : n ≤ maxWpaIe)
    (h : Accepted c r i mode wsec n w w')
    (hM1 : c.cfg.role = .authenticator → (w.micCountermeasures && wsecTkipEnabled wsec) = false →
      has mode wpa = false → (has mode wpa2 = true → pmkc = 1 ∧ (w.sta i).pae.ssnto ≠ 0) →
      MayStart c ev w0 i (abs r w).log) :
    wp (assocAccepted c i wsec pmkc) (fun b w'' => b = false ∧ Reach c ev w0 A (abs r w''))
      (Stops c ev w0 A) w' := by
  obtain ⟨pmk, hpmk, hcore, hseen⟩ := h.core
  simp only [assocAccepted, nasSetKey, wp_bind, wp_ite, wp_pure, wp_modSta,
    wp_get, wp_getSta, wp_oracle, wp_emit]
  refine ⟨fun hrole => ?_, fun hrole => ⟨fun hcm => ?_, fun hcm => ?_⟩⟩
  · -- A supplicant takes its nonce and waits.
    refine wp_of_quiet (nextNonce_quiet c r w' _) (fun nonce w1 h1 => ⟨trivial, ?_⟩)
    obtain ⟨td, hndlr, ha⟩ := hA
    refine (ha.tail (.move i (.save n (.inl hn)))).tail (.supplicant _ hrole ?_ (fun j => ?_))
    · rw [abs_updSta_of_core rfl, h1.seen, hseen]
      simp
    · rw [abs_updSta_of_core rfl, h1.seen, hseen]
      by_cases hj : j = i
      · subst hj
        rw [Abs.put_sta_same, hcore]
        exact .inr hn
      · simp [hj]
  · -- Countermeasures are in force.
    refine wp_mono (cleanupSta_spec c r w' i dot11RcMicFailure false) (fun _ w1 h1 => ⟨trivial, ?_⟩)
      (fun _ _ h => h.elim)
    obtain ⟨⟨_, _, used, state, hused, hstate, hkept, hdrop⟩, hbusy⟩ := h1
    have hi : (w1.sta i).core = _ := congrArg (fun a => a.sta i) hdrop
    rw [Abs.put_sta_same] at hi
    refine h.reach c ev w0 hn hA used state (w'.sta i).core.retryState (w'.sta i).core.anonce
      (fun hu => ?_) (fun a td hndlr ha => ?_) hdrop
    · have hu' : (w1.sta i).used = true := (congrArg Core.used hi).trans hu
      rw [← show (w1.sta i).state = state from congrArg Core.state hi]
      exact hbusy rfl hu'
    · have hm : Move c ev w0 a i _ _ := .drop used state ?_ ?_ hkept
      · rw [ha] at hm
        rw [hcore]
        exact hm
      · rw [ha]
        rw [show (w'.sta i).used = (w.sta i).used from congrArg Core.used hcore] at hused
        exact hused
      · rw [ha]
        rw [h.state] at hstate
        exact hstate
  · refine wp_of_quiet (nextNonce_quiet c r w' _) (fun nonce w1 h1 => ?_)
    -- Everything up to the decision how to go on.
    have hstart : ∀ wf, abs r wf = (abs r w').put i { (w'.sta i).core with
        anonce := nonce, retryState := (w'.sta i).state, state := .ptkstart } [] →
        Reach c ev w0 A (abs r wf) := by
      intro wf hwf
      refine h.reach c ev w0 hn hA (w.sta i).used .ptkstart (w.sta i).state nonce (fun _ => rfl)
        (fun a td hndlr ha => ?_) ?_
      · have hm : Move c ev w0 a i _ _ := .restart nonce (w.sta i).state
        rw [ha] at hm
        exact hm
      · rw [hwf, hcore, h.state]
        rfl
    refine assocStart_sim c ev w0 r _ i pmkc (hstart _ ?_) ?_ ?_ ?_
    · simp [abs_updSta, abs_out, Out.visible, KeyArgs.clear, Sta.core, h1.sta, h1.seen]
    · simp
    · simpa [Sta.core, h1.sta] using congrArg Core.hndlr hcore
    · have hM1' :=
        hM1 (Role.authenticator_of_ne hrole) (by rw [← h.countermeasures]; simpa using hcm)
      have hframes : framesSince i (abs r w').log = framesSince i (abs r w).log := by
        rw [hseen]
        simp [framesSince]
      have hgo : has mode wpa = false →
          (has mode wpa2 = true → pmkc = 1 ∧ (w.sta i).pae.ssnto ≠ 0) →
          MayStart c ev w0 i (abs r w').log := fun hno hwpa2 => (hM1' hno hwpa2).congr hframes
      simpa [abs_updSta, abs_out, Out.visible, KeyArgs.clear, h1.sta, h1.seen, h.auth, h.pae]
        using hgo

/-- From `w` to `w'`, the element has been accepted, but not yet saved. -/
structure SetUp (c : Ctx) (r : Bool) (i : Slot) (mode wsec : Nat) (w w' : World) : Prop where
  countermeasures : w'.micCountermeasures = w.micCountermeasures
  auth : (w'.sta i).mode = mode
  pae : (w'.sta i).pae = (w.sta i).pae
  others : ∀ j, j ≠ i → w'.sta j = w.sta j
  ok : supplOk c mode wsec = true
  seen : abs r w' = (abs r w).put i { (w.sta i).core with
    td := none, hndlr := false, mode := mode, wsec := wsec,
    ptkLen := if wsecAesEnabled wsec then aesPtkLen else tkipPtkLen,
    tkLen := if wsecAesEnabled wsec then aesTkLen else tkipTkLen,
    desc := if wsecAesEnabled wsec then wpaKeyDescV2 else wpaKeyDescV1 } []

theorem SetUp.core (h : SetUp c r i mode wsec w w') :
    (w'.sta i).core = { (w.sta i).core with
      td := none, hndlr := false, mode := mode, wsec := wsec,
      ptkLen := if wsecAesEnabled wsec then aesPtkLen else tkipPtkLen,
      tkLen := if wsecAesEnabled wsec then aesTkLen else tkipTkLen,
      desc := if wsecAesEnabled wsec then wpaKeyDescV2 else wpaKeyDescV1 } := by
  have hcore : (w'.sta i).core = _ := congrArg (fun a => a.sta i) h.seen
  rwa [Abs.put_sta_same] at hcore

theorem assocSave_sim (pmkc : Int) (ie : Bytes) (hA : Loose c ev w0 A r i w)
    (h : SetUp c r i mode wsec w w')
    (hsave : ie.length ≤ maxWpaIe ∨ saves c ev w0 i ie.length)
    (hM1 : c.cfg.role = .authenticator → (w.micCountermeasures && wsecTkipEnabled wsec) = false →
      has mode wpa = false → (has mode wpa2 = true → pmkc = 1 ∧ (w.sta i).pae.ssnto ≠ 0) →
      MayStart c ev w0 i (abs r w).log) :
    wp (do
      saveWpaie i ie
      if checkPsk mode then modSta i fun s => { s with pmk := c.cfg.pmk }
      assocAccepted c i wsec pmkc) (Ends c ev w0 A r i) (Stops c ev w0 A) w' := by
  have hcore := h.core
  simp only [saveWpaie, wp_bind, wp_emit, wp_ite, wp_throw, wp_modSta]
  refine ⟨fun _ => ?_, fun hle => ?_⟩
  · -- The element does not fit.
    obtain ⟨td, hndlr, ha⟩ := hA
    refine .of_reach (ha.tail (.move i (.save _ hsave))) ?_ (fun j => ?_)
    · have hlog := congrArg Abs.log h.seen
      simp only [Abs.put_log, List.nil_append] at hlog
      rw [show (w'.out (.saveIe i ie.length)).log.filter Out.visible
        = .saveIe i ie.length :: (abs r w').log from rfl, hlog]
      rfl
    · by_cases hj : j = i
      · subst hj
        rw [World.out_sta, show (w'.sta j).assocWpaie.length = (w'.sta j).core.ieLen
          from rfl, hcore]
        simp
      · rw [World.out_sta, h.others j hj]
        simp [hj, Sta.core]
  · have hdone : ∀ wx, Accepted c r i mode wsec ie.length w wx →
        wp (assocAccepted c i wsec pmkc) (Ends c ev w0 A r i) (Stops c ev w0 A) wx := by
      intro wx hx
      refine wp_mono (assocAccepted_sim c ev w0 r pmkc hA (not_lt.mp hle) hx hM1)
        (fun b w'' hb => ?_)
        (fun _ _ h => h)
      obtain ⟨rfl, hb⟩ := hb
      exact hb
    have hstate : (w'.sta i).state = (w.sta i).state := congrArg Core.state hcore
    refine ⟨fun hpsk =>
      hdone _ ⟨h.countermeasures, ?_, ?_, ?_, h.ok, c.cfg.pmk, .inr ⟨hpsk, rfl⟩, ?_⟩,
      fun _ => hdone _ ⟨h.countermeasures, ?_, ?_, ?_, h.ok, (w.sta i).pmk, .inl rfl, ?_⟩⟩
    · simpa using h.auth
    · simpa using h.pae
    · simpa using hstate
    · rw [abs_updSta, abs_updSta, abs_out_of_visible rfl, h.seen, World.updSta_same, World.out_sta]
      simp only [Abs.put_emit, Abs.put_put]
      refine congrArg (fun k => (abs r w).put i k [.saveIe i ie.length]) ?_
      show ({ (w'.sta i).core with ieLen := ie.length, pmk := c.cfg.pmk } : Core) = _
      rw [hcore]
    · simpa using h.auth
    · simpa using h.pae
    · simpa using hstate
    · rw [abs_updSta, abs_out_of_visible rfl, h.seen, World.out_sta]
      simp only [Abs.put_emit, Abs.put_put]
      refine congrArg (fun k => (abs r w).put i k [.saveIe i ie.length]) ?_
      show ({ (w'.sta i).core with ieLen := ie.length } : Core) = _
      rw [hcore]
      rfl

variable (r w i) in
/-- A station with an element: it is refused and left with its timer stopped, or accepted. -/
theorem assocElement_sim (m : DrvMsg) (hA : Reach c ev w0 A (abs r w))
    (hsave : elementOk c (w.sta i).pmkid m = true →
      m.wpaie.2 ≤ maxWpaIe ∨ saves c ev w0 i m.wpaie.2)
    (hM1 : c.cfg.role = .authenticator → assocStarts c w i m = true →
      MayStart c ev w0 i (abs r w).log) :
    wp (assocElement c i m.wpaie.1 m.wpaie.2) (Ends c ev w0 A r i) (Stops c ev w0 A) w := by
  have hloose := Loose.stop c ev w0 r w i (.of_reach hA i)
  have hlen : (m.wpaie.1.slice 0 m.wpaie.2).length = m.wpaie.2 := Mem.slice_length _ _ _
  simp only [assocElement, wpaStopRetx, wp_bind, wp_modSta]
  refine wp_mono (assocCheckIe_spec c _ i _ _) (fun x w1 hx => ?_) (fun _ _ h => h.elim)
  obtain ⟨⟨sha1, cap, rfl⟩, hauth, hsup⟩ := hx
  simp only [World.updSta_same] at hauth
  split
  · -- The element is malformed or not wanted.
    obtain ⟨td, hndlr, ha⟩ := hloose
    refine ⟨td, hndlr, ?_⟩
    simpa [abs_updSta, Sta.core] using ha
  · rename_i wsec mode pmkc
    rw [wp_bind]
    refine wp_mono (wpaSetSuppl_spec c _ i mode wsec _) (fun b w2 h2 => ?_) (fun _ _ h => h.elim)
    rcases h2 with ⟨rfl, rfl⟩ | ⟨rfl, hok, version, rfl⟩
    · obtain ⟨td, hndlr, ha⟩ := hloose
      refine ⟨td, hndlr, ?_⟩
      simpa [abs_updSta, Sta.core] using ha
    have hsave' : elementOk c (w.sta i).pmkid m = true := by
      unfold elementOk
      split
      · rename_i hrole
        obtain ⟨p, hp, rfl, rfl, rfl⟩ := hauth _ _ _ rfl hrole
        rw [hp]
        exact hok
      · rename_i hrole
        obtain ⟨rfl, rfl, hck⟩ := hsup _ _ _ rfl hrole
        simpa [Option.any_eq_true, hok] using hck
    have hgo : ∀ wx, SetUp c r i mode wsec w wx → wp (do
        saveWpaie i (m.wpaie.1.slice 0 m.wpaie.2)
        if checkPsk mode then modSta i fun s => { s with pmk := c.cfg.pmk }
        assocAccepted c i wsec pmkc) (Ends c ev w0 A r i) (Stops c ev w0 A) wx := by
      intro wx hx
      refine assocSave_sim c ev w0 pmkc _ (.of_reach hA i) hx ?_ ?_
      · rw [hlen]
        exact hsave hsave'
      · intro hrole hcm hno hwpa2
        refine hM1 hrole ?_
        obtain ⟨p, hp, rfl, rfl, rfl⟩ := hauth _ _ _ rfl hrole
        simp only [assocStarts, hp, Option.any_some, hok, hno, hcm, Bool.not_false, Bool.true_and]
        cases h2 : has p.mode wpa2 with
        | false => rfl
        | true =>
            obtain ⟨h1, h0⟩ := hwpa2 h2
            simp [h1, h0]
    simp only [Bool.false_eq_true, if_false, wp_bind, wp_modSta, wp_ite, wp_oracle]
    simp only [wp_bind, wp_modSta, wp_ite] at hgo
    refine ⟨fun _ => hgo _ ⟨rfl, ?_, ?_, ?_, hok, ?_⟩,
      fun _ => hgo _ ⟨rfl, ?_, ?_, ?_, hok, ?_⟩⟩
    · simp
    · simp
    · intro j hj
      simp [hj]
    · simp [abs_updSta, Sta.core]
    · simp
    · simp
    · intro j hj
      simp [hj]
    · simp [abs_updSta, Sta.core]

variable (r w i) in
theorem wpaDriverAssocMsg_sim (m : DrvMsg) (hA : Reach c ev w0 A (abs r w))
    (hsave : elementOk c (w.sta i).pmkid m = true →
      m.wpaie.2 ≤ maxWpaIe ∨ saves c ev w0 i m.wpaie.2)
    (hM1 : c.cfg.role = .authenticator → assocStarts c w i m = true →
      MayStart c ev w0 i (abs r w).log) :
    wp (wpaDriverAssocMsg c m (some i)) (Ends c ev w0 A r i) (Stops c ev w0 A) w := by
  have h0 : Reach c ev w0 A (abs r (w.updSta i fun s => { s with assocWpaie := [] })) := by
    refine reach_move i hA (.setIe 0 (by decide)) ?_
    rw [abs_updSta]
    rfl
  have hend : ∀ w1 : World, abs r w1 = abs r (w.updSta i fun s => { s with assocWpaie := [] }) →
      w1.sta = (w.updSta i fun s => { s with assocWpaie := [] }).sta →
      w1.micCountermeasures = w.micCountermeasures →
      wp (assocElement c i m.wpaie.1 m.wpaie.2) (Ends c ev w0 A r i) (Stops c ev w0 A) w1 := by
    intro w1 hseen hsta hcm
    refine assocElement_sim c ev w0 r w1 i m (by rwa [hseen]) ?_ ?_
    · simpa [hsta] using hsave
    · have hstarts : assocStarts c w1 i m = assocStarts c w i m := by
        simp [assocStarts, hsta, hcm]
      rw [hstarts, hseen, abs_updSta]
      exact hM1
  simp only [wpaDriverAssocMsg, nasSetKey, nasAuthorize, wp_bind, wp_modSta, wp_ite, wp_get,
    wp_oracle, wp_emit, wp_pure]
  refine ⟨fun hwep => ⟨fun _ => ?_, fun _ => ?_⟩, fun _ => ⟨fun hrole => ?_, fun _ => ?_⟩⟩
  · refine reach_move i h0 (.authorize (.inl ?_)) ?_
    · simp only [Bool.and_eq_true] at hwep
      exact hwep.2
    · simp [abs_updSta, abs_out, Out.visible, Sta.core]
  · rename_i hradius
    refine reach_move i h0 (.wepMode ?_ ?_) ?_
    · simp only [Bool.and_eq_true] at hwep
      exact hwep.2
    · simpa using hradius
    · simp [abs_updSta, Sta.core]
  · split
    · exact .of_reach h0 i
    · exact hend _ rfl rfl rfl
  · exact hend _ rfl rfl rfl

variable (r w) in
/-- An association: the station is looked up or entered, and cleaned up if it is refused. -/
theorem driverAssoc_sim (m : DrvMsg) (hA : Reach c ev w0 A (abs r w))
    (hsave : ∀ i, checkNas c.cfg.mode = true → (∃ pmkid, elementOk c pmkid m = true) →
      m.wpaie.2 ≤ maxWpaIe ∨ saves c ev w0 i m.wpaie.2)
    (hM1 : c.cfg.role = .authenticator → ∀ i, w.find m.addr = some i → assocStarts c w i m = true →
      MayStart c ev w0 i (abs r w).log) :
    wp (driverAssoc c m) (fun _ w' => Reach c ev w0 A (abs r w')) (Stops c ev w0 A) w := by
  simp only [driverAssoc, wp_bind, wp_ite, wp_pure]
  refine wp_mono (lookupSta_spec c ev w0 r w _ true) (fun sta w1 hl => ?_) (fun _ _ h => h.elim)
  have hA1 : Reach c ev w0 A (abs r w1) := by
    cases hl.1 with
    | none => exact hA
    | old j hfind => rwa [abs_updSta_of_core rfl]
    | new j w' hfind hfound hsta hframes hcm hreach => exact hA.trans hreach
  refine ⟨fun _ => hA1, fun hnas => ?_⟩
  have hnas' : checkNas c.cfg.mode = true := by simpa using hnas
  cases sta with
  | none => exact ⟨fun _ => hA1, fun _ => hA1⟩
  | some j =>
      refine wp_mono (wpaDriverAssocMsg_sim c ev w0 r w1 j m hA1 (fun hok => hsave j hnas' ⟨_, hok⟩)
        (fun hrole hstarts => ?_)) (fun b w2 h2 => ?_) (fun _ _ h => h)
      · cases hl.1 with
        | old _ hfind =>
            rw [abs_updSta_of_core rfl]
            refine hM1 hrole j hfind ?_
            simpa [assocStarts, World.updSta] using hstarts
        | new _ _ hfind hfound hsta hframes hcm hreach => exact .inr hframes
      · refine ⟨fun hb => ?_, fun hb => ?_⟩
        · exact wp_mono (cleanupSta_sim c ev w0 r w2 j 0 true (h2.loose c ev w0 r w2 j))
            (fun _ _ h => h.1) (fun _ _ h => h)
        · have hb' : b = false := by simpa using hb
          subst hb'
          exact h2

end Assoc

/-! ## WDS links -/

theorem DrvMsg.wpaie_le (m : DrvMsg) : m.wpaie.2 ≤ m.len := by
  unfold wpaie
  dsimp only
  cases hfind : bcmFindWpaie m.data m.len with
  | some off =>
      have := bcmFindVendorIe_fits hfind
      dsimp only
      omega
  | none =>
      cases hparse : bcmParseTlvs m.data dot11MngRsnId m.len 0 m.len with
      | some off =>
          have := bcmParseTlvs_fits hparse
          dsimp only
          omega
      | none => exact Nat.zero_le _

theorem World.find_congr {w w' : World} (hh : w'.staHashed = w.staHashed)
    (hea : ∀ j, (w'.sta j).ea = (w.sta j).ea) (ea : Bytes) : w'.find ea = w.find ea := by
  simp only [find, hh, hea]

theorem World.updSta_ea {w : World} {i : Slot} {f : Sta → Sta}
    (h : (f (w.sta i)).ea = (w.sta i).ea) (j : Slot) :
    ((w.updSta i f).sta j).ea = (w.sta j).ea := by
  by_cases hj : j = i
  · subst hj
    rw [updSta_same, h]
  · rw [updSta_ne w hj]

theorem World.find_ea {w : World} {ea : Bytes} {i : Slot} (h : w.find ea = some i) :
    (w.sta i).ea = ea := by
  have := List.find?_some h
  simpa using this

section Wds

variable (c ev w0) (r : Bool) (w : World) (i : Slot) {A : Abs}

theorem startPkinit_sim (hA : Reach c ev w0 A (abs r w))
    (hM1 : ∀ j, w.find (w.sta i).ea = some j →
      MayStart c ev w0 j (abs r w).log) :
    wp (startPkinit c i) (fun _ w' => Reach c ev w0 A (abs r w')) (Stops c ev w0 A) w := by
  simp only [startPkinit, wp_bind, wp_getSta]
  refine wp_mono (wpaBuildIe_spec c r w _ _ _ _) (fun x w1 hb => ?_) (fun _ _ h => h.elim)
  have hq := hb.1
  have hA1 : Reach c ev w0 A (abs r w1) := by rwa [hq.seen]
  cases x with
  | none => exact hA1
  | some ie =>
      simp only [wp_ite, wp_pure]
      refine ⟨fun _ => hA1, fun hlen => ?_⟩
      refine driverAssoc_sim c ev w0 r w1 _ hA1 (fun _ _ _ => .inl ?_) (fun _ j hj _ => ?_)
      · refine (DrvMsg.wpaie_le _).trans ?_
        have : maxWpaIe = 256 := rfl
        simp only at hlen ⊢
        omega
      · rw [hq.seen]
        refine hM1 j ?_
        rwa [← World.find_congr hq.hashed (fun _ => by rw [hq.sta])]

theorem wpaStart_sim (hA : Reach c ev w0 A (abs r w)) (hwds : c.cfg.wds = true)
    (hM1 : ∀ j, w.find (w.sta i).ea = some j →
      MayStart c ev w0 j (abs r w).log) :
    wp (wpaStart c i) (fun _ w' => Reach c ev w0 A (abs r w')) (Stops c ev w0 A) w := by
  have h1 : Reach c ev w0 A (abs r (w.updSta i fun s => { s with wdsTd := none })) := by
    refine reach_move i hA (.wdsTimer none hwds) ?_
    rw [abs_updSta]
    rfl
  simp only [wpaStart, wp_bind, wp_modSta, wp_getSta]
  refine wp_mono (startPkinit_sim c ev w0 r _ i h1 (fun j hj => ?_)) (fun _ w2 h2 => ?_)
    (fun _ _ h => h)
  · have hfind : ∀ ea, (w.updSta i fun s => { s with wdsTd := none }).find ea = w.find ea :=
      World.find_congr rfl (World.updSta_ea rfl)
    rw [World.updSta_same, hfind] at hj
    simpa [abs_updSta] using hM1 j hj
  · refine wp_of_quiet (wpaSetItimer_quiet c r w2 _) (fun td w3 h3 => ?_)
    refine reach_move i h2 (.wdsTimer td hwds) ?_
    rw [abs_updSta, h3.seen, h3.sta]
    rfl

end Wds

/-! ## Received frames -/

section Frames

variable (c ev w0) (w : World) (i : Slot) {A : Abs} {f : Frame}

theorem wpaSetkeysdone_error (r : Bool) (hA : Reach c ev w0 A (abs r w))
    (herr : has f.keyInfo wpaKeyError = true) :
    wp (wpaSetkeysdone c i f) (fun _ w' => Reach c ev w0 A (abs r w')) (Stops c ev w0 A) w := by
  simp only [wpaSetkeysdone, wp_bind, wp_ite, wp_pure, wp_getSta]
  refine ⟨fun _ => hA, fun _ => ⟨fun _ => hA, fun _ => ⟨fun _ => ?_, fun h => absurd herr h⟩⟩⟩
  exact wpaMicError_sim c ev w0 r w i false _ hA

/-- A request of a station that holds keys. After a request for a new pairwise key, and perhaps
after countermeasures, the station is in `WPA_PTKSTART`. -/
theorem wpaSetkeysdone_sim (hA : Reach c ev w0 A (abs false w)) (hw : Handles ev w0 f i w)
    (hst : (w.sta i).state = .setkeysdone) :
    wp (wpaSetkeysdone c i f)
      (fun _ w' => Loose c ev w0 A false i w'
        ∧ ((w'.sta i).state ≠ .ptkstart → Reach c ev w0 A (abs false w'))
        ∧ ((w'.sta i).state = .ptkstart → keysRequest c (w0.sta i) f = true
          ∧ (reportKeeps c w0 (w0.sta i) f = true
            ∨ (has f.keyInfo wpaKeyError = false ∧ has f.keyInfo wpaKeyPairwise = true
              ∧ framesSince i (abs false w').log = framesSince i w0.log))))
      (Stops c ev w0 A) w := by
  have hidle : ∀ {P : Prop}, (w.sta i).state = .ptkstart → P := by
    intro P h
    rw [hst] at h
    cases h
  simp only [wpaSetkeysdone, wp_bind, wp_ite, wp_pure, wp_getSta, wp_modSta]
  refine ⟨fun _ => ⟨.of_reach hA i, fun _ => hA, hidle⟩, fun hflags =>
    ⟨fun _ => ⟨.of_reach hA i, fun _ => hA, hidle⟩, fun hmic => ?_⟩⟩
  have hkeys : keysRequest c (w0.sta i) f = true := by
    obtain ⟨n, hn⟩ := hw.sta
    have hst0 : (w0.sta i).state = .setkeysdone := by
      rw [hn] at hst
      exact hst
    rw [hw.checkMic] at hmic
    have hmic' : has f.keyInfo wpaKeyMic = true ∧ wpaCheckMic c (w0.sta i) f = true := by
      simpa using hmic
    simp only [keysRequest, hst0, hmic'.1, hmic'.2, beq_self_eq_true, Bool.true_and, Bool.and_true]
    simpa using hflags
  refine ⟨fun herr => ?_, fun herr => ⟨fun hpw => ?_, fun hpw => ?_⟩⟩
  · refine wp_mono (wp_and (wpaMicError_sim c ev w0 false w i false _ hA)
      (wpaMicError_kept c w i _ (by rw [hst]; simp)))
      (fun _ w1 h1 => ⟨.of_reach h1.1 i, fun _ => h1.1, fun hend => ⟨hkeys, .inl ?_⟩⟩)
      (fun _ _ h => h.1)
    obtain ⟨hno, hcm, hkept⟩ := h1.2 hend
    obtain ⟨n, hn⟩ := hw.sta
    rw [hn] at hno hkept
    have hno' : micErrorProhibit c (w0.sta i) (has f.keyInfo wpaKeyPairwise) = false := hno
    have hkept' : (w0.sta i).kept = true := hkept
    simp [reportKeeps, herr, hno', hkept', ← hw.countermeasures, hcm]
  · refine ⟨⟨none, false, ?_⟩, fun h => absurd (by simp) h,
      fun _ => ⟨hkeys, .inr ⟨by simpa using herr, hpw, ?_⟩⟩⟩
    · have h1 := hA.tail (.move i (.restart (w.sta i).anonce (w.sta i).retryState))
      simpa [abs_updSta, Sta.core] using h1
    · rw [abs_updSta]
      exact hw.frames (r := false)
  · have hrekeys : rekeys c ev w0 := by
      rw [hw.event]
      exact ⟨i, hw.delivered, hkeys, by simpa using herr, by simpa using hpw⟩
    refine wp_mono (wpaNewGtk_sim c ev w0 w hA hrekeys hw.cores)
      (fun _ w1 h1 => ⟨.of_reach h1.1 i, fun _ => h1.1, fun h => ?_⟩) (fun _ _ h => h)
    rcases h1.2.1 i with hs | hs
    · rw [h, hst] at hs
      cases hs
    · rw [h] at hs
      cases hs

/-- The reply to a group key message, or a failure report that arrives instead. -/
theorem wpaRekeyneg_sim (r : Bool) (hA : Reach c ev w0 A (abs r w)) (hw : Handles ev w0 f i w)
    (hst : (w.sta i).state = .rekeynegotiating) :
    wp (wpaRekeyneg c i f) (fun _ w' => Reach c ev w0 A (abs r w')) (Stops c ev w0 A) w := by
  rw [wpaRekeyneg, wp_ite]
  refine ⟨fun _ => ?_, fun hflags => ?_⟩
  · simp only [wp_bind, wp_ite, wp_pure]
    exact ⟨fun herr => wpaSetkeysdone_error c ev w0 w i r hA herr, fun _ => hA⟩
  · rw [wp_bind, wp_getSta, wp_ite]
    refine ⟨fun _ => hA, fun _ => ?_⟩
    rw [wp_ite]
    refine ⟨fun _ => hA, fun hmic => ?_⟩
    refine groupReply_sim c ev w0 r w i hA hw hst (hw.verified ?_ (by simpa using hmic))
    exact flagsOk_has (by simpa using hflags) (by decide) (by decide)

theorem processStart_sim (r : Bool) (hA : Loose c ev w0 A r i w)
    (hsave : has f.keyInfo wpaKeyReq = true → requestOk c f = true → saves c ev w0 i f.dataLen)
    (hstart : has f.keyInfo wpaKeyReq = true → has f.keyInfo wpaKeyError = false →
      requestOk c f = true → (has (w.sta i).mode wpa = true → (w.sta i).state = .ptkstart) →
      MayStart c ev w0 i (abs r w).log) :
    wp (processStart c i f) (Ends c ev w0 A r i) (Stops c ev w0 A) w := by
  simp only [processStart, wp_bind, wp_getSta, wp_ite, wp_pure]
  refine wp_mono (wpaVerifystart_sim c ev w0 r w i hA hsave) (fun b w1 h1 => ?_) (fun _ _ h => h)
  obtain ⟨hend, hok⟩ := h1
  cases b with
  | true => exact ⟨fun _ => hend, fun h => absurd rfl h⟩
  | false =>
      obtain ⟨hreq, hst, hretry, hmode, hframes⟩ := hok rfl
      refine ⟨(by rintro ⟨⟩), fun _ => ⟨fun _ => hend, fun hgo => ?_⟩⟩
      refine wpaPtkstart_sim c ev w0 r w1 i hend hst 
        (fun h1 h2 => (hstart h1 h2 hreq ?_).congr hframes)
      intro hwpa
      rw [hmode, hretry] at hgo
      simpa [hwpa] using hgo

theorem nasSendWnmNotifications_quiet (r : Bool) (ea : Bytes) :
    wp (nasSendWnmNotifications ea) (fun _ w' => abs r w' = abs r w) (fun _ _ => False) w := by
  have hout : ∀ (w1 : World) (k : WnmKind), abs r w1 = abs r w →
      abs r (w1.out (.wnm ea k)) = abs r w :=
    fun w1 k h => (abs_out_of_not_visible rfl).trans h
  have hclear : ∀ w1 : World, abs r w1 = abs r w →
      abs r { w1 with wnm := ⟨false, false, false⟩ } = abs r w := fun _ h => h
  simp only [nasSendWnmNotifications, wp_bind, wp_get, wp_ite, wp_emit, wp_modify]
  refine ⟨fun _ => ⟨fun _ => ⟨fun _ => ?_, fun _ => ?_⟩, fun _ => ⟨fun _ => ?_, fun _ => ?_⟩⟩,
    fun _ => ⟨fun _ => ⟨fun _ => ?_, fun _ => ?_⟩, fun _ => ⟨fun _ => ?_, fun _ => ?_⟩⟩⟩
  · exact hclear _ (hout _ _ (hout _ _ (hout _ _ rfl)))
  · exact hclear _ (hout _ _ (hout _ _ rfl))
  · exact hclear _ (hout _ _ (hout _ _ rfl))
  · exact hclear _ (hout _ _ rfl)
  · exact hclear _ (hout _ _ (hout _ _ rfl))
  · exact hclear _ (hout _ _ rfl)
  · exact hclear _ (hout _ _ rfl)
  · exact hclear _ rfl

/-- `process_wpa`, on a frame of a station that was there before the event. -/
theorem processWpa_sim (hrole : c.cfg.role = .authenticator) (hA : Reach c ev w0 A (abs false w))
    (hw : Handles ev w0 f i w) :
    wp (processWpa c f i) (Ends c ev w0 A false i) (Stops c ev w0 A) w := by
  obtain ⟨n, hn⟩ := hw.sta
  have hcore : ∀ st, (w.sta i).state = st → (w0.sta i).state = st := by
    intro st h
    rw [hn] at h
    exact h
  have hmode : (w.sta i).mode = (w0.sta i).mode := by rw [hn]
  -- What `wpa_verifystart` asks for.
  have hopens : admitted c w0 (w0.sta i) f = true →
      (w0.sta i).state = .authentication2 ∨ (keysRequest c (w0.sta i) f = true ∧
        (reportKeeps c w0 (w0.sta i) f = true
          ∨ (has f.keyInfo wpaKeyError = false ∧ has f.keyInfo wpaKeyPairwise = true))) →
      has f.keyInfo wpaKeyReq = true → requestOk c f = true →
      opensHandshake c w0 (w0.sta i) f = true := by
    intro hadm h hreq hok
    simp only [opensHandshake, hadm, hreq, hok, Bool.true_and, Bool.or_eq_true, Bool.and_eq_true,
      beq_iff_eq, Bool.not_eq_true']
    exact h
  have hsaves : opensHandshake c w0 (w0.sta i) f = true → saves c ev w0 i f.dataLen := by
    intro h
    rw [hw.event]
    exact ⟨rfl, hrole, hw.delivered, h⟩
  have hstarts : ∀ l, frameStarts c w0 (w0.sta i) f = true →
      framesSince i l = framesSince i w0.log → MayStart c ev w0 i l := by
    intro l h hl
    refine .inl ⟨?_, hl⟩
    rw [hw.event]
    exact ⟨hw.delivered, .inl h⟩
  simp only [processWpa, wp_bind, wp_getSta, wp_ite, wp_pure, wp_get]
  refine ⟨fun hwds => ⟨fun _ => ⟨fun _ => ?_, fun _ => hA⟩, fun _ => hA⟩,
    fun hwds => ⟨fun _ => ?_, fun hcm => ?_⟩⟩
  · -- A key request on a WDS link starts the handshake as an association does.
    simp only [Bool.and_eq_true] at hwds
    refine wp_mono (wpaStart_sim c ev w0 false w i hA hwds.1.1 (fun j hj => .inl ?_))
      (fun _ _ h => h) (fun _ _ h => h)
    have hfind : w0.find f.shost = some i := by
      have h := hw.delivered
      simp only [delivered, Bool.and_eq_true, beq_iff_eq] at h
      exact h.1.1.1.1
    have hij : j = i := by
      have hea : ∀ j, (w.sta j).ea = (w0.sta j).ea := fun j => congrArg Core.ea (hw.cores j)
      rw [World.find_congr hw.hashed hea, hea, World.find_ea hfind, hfind] at hj
      exact (Option.some.inj hj).symm
    rw [hij]
    refine ⟨?_, hw.frames⟩
    rw [hw.event]
    exact ⟨hw.delivered, .inr ⟨hwds.1.1, hwds.1.2, hwds.2⟩⟩
  · exact wp_mono (cleanupSta_sim c ev w0 false w i _ false (.of_reach hA i)) (fun _ _ h => h.1)
      (fun _ _ h => h)
  · have hadm : admitted c w0 (w0.sta i) f = true := by
      have hwsec : (w.sta i).wsec = (w0.sta i).wsec := by rw [hn]
      rw [hwsec, hw.countermeasures] at hcm
      simp only [admitted, eq_false_of_ne_true hwds, eq_false_of_ne_true hcm, Bool.not_false,
        Bool.and_self]
    split
    · rename_i hst
      have hst0 := hcore _ hst
      simp only [wp_bind, wp_getSta, wp_ite, wp_pure]
      refine wp_mono (wpaSetkeysdone_sim c ev w0 w i hA hw hst) (fun _ w1 h1 => ?_)
        (fun _ _ h => h)
      obtain ⟨hloose, hreach, hkeys⟩ := h1
      refine ⟨fun hne => hreach hne, fun he => ?_⟩
      obtain ⟨hkeys, hwhy⟩ := hkeys (not_not.mp he)
      have hk : keysRequest c (w0.sta i) f = true ∧ (reportKeeps c w0 (w0.sta i) f = true
          ∨ (has f.keyInfo wpaKeyError = false ∧ has f.keyInfo wpaKeyPairwise = true)) :=
        ⟨hkeys, hwhy.imp id fun h => ⟨h.1, h.2.1⟩⟩
      refine processStart_sim c ev w0 w1 i false hloose
        (fun hreq hok => hsaves (hopens hadm (.inr hk) hreq hok))
        (fun hreq herr hok _ => hstarts _ ?_ ?_)
      · simp [frameStarts, hadm, hreq, herr, hopens hadm (.inr hk) hreq hok, hst0]
      · rcases hwhy with h | h
        · simp [reportKeeps, herr] at h
        · exact h.2.2
    · rename_i hst
      have hst0 := hcore _ hst
      refine processStart_sim c ev w0 w i false (.of_reach hA i)
        (fun hreq hok => hsaves (hopens hadm (.inl hst0) hreq hok))
        (fun hreq herr hok hwpa => hstarts _ ?_ hw.frames)
      have hno : has (w0.sta i).mode wpa = false := by
        rw [hst, hmode] at hwpa
        simpa using hwpa
      simp [frameStarts, hadm, hreq, herr, hopens hadm (.inl hst0) hreq hok, hno]
    · rename_i hst
      refine wpaPtkstart_sim c ev w0 false w i hA hst (fun hreq herr => hstarts _ ?_ hw.frames)
      simp [frameStarts, hadm, hreq, herr, hcore _ hst]
    · rename_i hst
      exact wpaPtkinitnegotiating_sim c ev w0 false w i hA hw hst
    · rename_i hst
      simp only [wp_bind, wp_getSta, wp_pure]
      refine wp_mono (wpaPtkinitdone_sim c ev w0 false w i hA hw hst) (fun b w1 h1 => ?_)
        (fun _ _ h => h)
      refine wp_mono (nasSendWnmNotifications_quiet w1 false _) (fun _ w2 h2 => ?_)
        (fun _ _ h => h.elim)
      obtain ⟨rfl, h1⟩ := h1
      show Reach c ev w0 A (abs false w2)
      rwa [h2]
    · rename_i hst
      simp only [wp_bind, wp_pure]
      exact wpaRekeyneg_sim c ev w0 w i false hA hw hst
    · exact hA

end Frames

end BroadcomWl.Nas
