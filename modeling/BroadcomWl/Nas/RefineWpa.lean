import BroadcomWl.Nas.RefineSta

/-!
# Refinement: the key exchange

The handlers of `BroadcomWl.Nas.Wpa` as sequences of steps of the automaton. A handler that
sends a message first changes the station, then sends (which may first make a group key), then
arms the timer and moves on. `Sends.move` turns this into group key steps followed by one step
of the station.
-/

namespace BroadcomWl.Nas

open BroadcomWl.Lib Relation

variable {c : Ctx} {ev : Event} {w0 : World}

/-! ## Messages and timers -/

theorem Sends.sta {r : Bool} {w w' : World} {i : Slot} {s : Sta} {st : WpaState}
    (h : Sends c ev w0 r i s st w w') : w'.sta = w.sta := by
  obtain ⟨w1, k, hg, _, _, hg'⟩ := h
  exact hg'.sta.trans hg.sta

/-- A frame is sent, and the station changes: `a` is a reachable state from which the world
before the frame differs in the stations only, and `wf` is the world in the end. -/
theorem Sends.move {A a : Abs} {r : Bool} {w w2 wf : World} {i : Slot} {s : Sta} {st : WpaState}
    (k' : Core) (hs : Sends c ev w0 r i s st w w2) (ha : Reach c ev w0 A a)
    (hw : { abs r w with sta := a.sta } = a)
    (hf : abs r wf = { abs r w2 with sta := (abs r wf).sta })
    (hi : (wf.sta i).core = k') (hne : ∀ j, j ≠ i → (wf.sta j).core = a.sta j)
    (hmove : ∀ a1 k, a1.sta = a.sta → a1.rekeying = r → (Plumbed c (abs r w) → Plumbed c a1) →
      (st = .ptkinitnegotiating → checkWpa2 s.mode = true → Plumbed c a1) → k.replay = s.replay →
      Move c ev w0 a1 i k' [.send i s.ea k (carried a1 s.mode st)]) :
    Reach c ev w0 A (abs r wf) := by
  obtain ⟨w1, k, hg, hk, hplumbed, hg'⟩ := hs
  have h1 := hg.reach a.sta
  rw [hw] at h1
  have h2 := ha.trans h1
  have h3 := h2.tail (.move i (hmove { abs r w1 with sta := a.sta } k rfl rfl
    (fun h => h.of_gtkOnly c ev w0 r hg) hplumbed hk))
  have h4 := hg'.reach (Function.update a.sta i k')
  rw [abs_out_send] at h4
  have h5 : (abs r wf).sta = Function.update a.sta i k' := by
    funext j
    by_cases hj : j = i
    · subst hj
      rw [abs_sta, hi, Function.update_self]
    · rw [abs_sta, hne j hj, Function.update_of_ne hj]
  rw [hf, h5]
  exact h3.trans h4

theorem GtkOnly.stops {A a : Abs} {r : Bool} {w w' : World} {e : Stop}
    (hg : GtkOnly c ev w0 r w w') (ha : Reach c ev w0 A a) (hw : { abs r w with sta := a.sta } = a)
    (hie : ∀ j, (a.sta j).ieLen = (w.sta j).assocWpaie.length) : Stops c ev w0 A e w' := by
  have h1 := hg.reach a.sta
  rw [hw] at h1
  refine .of_reach (ha.trans h1) rfl (fun j => ?_)
  rw [hg.sta]
  exact hie j

/-- A frame is being processed for a station that was there before the event, and nothing has
changed yet but the time of its last use. -/
structure Handles (ev : Event) (w0 : World) (f : Frame) (i : Slot) (w : World) : Prop where
  event : ev = .eapol f
  delivered : delivered w0 f i = true
  sta : ∃ n, w.sta i = { w0.sta i with lastUse := n }
  cores : ∀ j, (w.sta j).core = (w0.sta j).core
  hashed : w.staHashed = w0.staHashed
  countermeasures : w.micCountermeasures = w0.micCountermeasures
  log : w.log = w0.log

theorem Handles.frames {f : Frame} {i : Slot} {w : World} (hw : Handles ev w0 f i w) {r : Bool} :
    framesSince i (abs r w).log = framesSince i w0.log := by
  rw [← hw.log]
  exact framesSince_visible i w.log

theorem flagsOk_has {keyInfo required prohibited m : Nat}
    (h : flagsOk keyInfo required prohibited = true) (hm : required &&& m = m) (h0 : m ≠ 0) :
    has keyInfo m = true := by
  have h1 : keyInfo &&& required = required := by
    simp only [flagsOk, Bool.and_eq_true, beq_iff_eq] at h
    exact h.1
  have h2 : keyInfo &&& m = m := by
    rw [← hm, ← Nat.and_assoc, h1]
  simp [has, h2, h0]

theorem Handles.checkMic {f : Frame} {i : Slot} {w : World} (hw : Handles ev w0 f i w) :
    wpaCheckMic c (w.sta i) f = wpaCheckMic c (w0.sta i) f := by
  obtain ⟨n, hn⟩ := hw.sta
  rw [hn]
  rfl

theorem Handles.verified {f : Frame} {i : Slot} {w : World} (hw : Handles ev w0 f i w)
    (hflag : has f.keyInfo wpaKeyMic = true) (hmic : wpaCheckMic c (w.sta i) f = true) :
    Verified c ev w0 i :=
  ⟨f, hw.event, hw.delivered, hflag, by rwa [hw.checkMic] at hmic⟩

section Handlers

variable (c ev w0) (r : Bool) (w : World) (i : Slot)

theorem armRetx_spec : wp (armRetx c i)
    (fun _ w' => ∃ td, Armed c td ∧ w' = w.call.updSta i fun s => { s with td := td })
    (fun _ _ => False) w := by
  simp only [armRetx, wpaSetItimer, wp_bind, wp_getSta, wp_get, wp_oracle, wp_modSta]
  split
  · rename_i h
    simp only [wp_pure]
    refine ⟨(w.sta i).td, fun hok => ?_, rfl⟩
    rw [hok] at h
    cases h
  · simp only [wp_pure]
    exact ⟨some w.calls, fun _ => rfl, rfl⟩

/-- How a handler ends: with `true` it has given up on the station. -/
def Ends (c : Ctx) (ev : Event) (w0 : World) (A : Abs) (r : Bool) (i : Slot) (b : Bool)
    (w : World) : Prop :=
  if b then Loose c ev w0 A r i w else Reach c ev w0 A (abs r w)

theorem Ends.loose {A : Abs} {b : Bool} (h : Ends c ev w0 A r i b w) :
    Loose c ev w0 A r i w := by
  cases b with
  | true => exact h
  | false => exact .of_reach h i

variable {A : Abs}

theorem Loose.stop (hA : Loose c ev w0 A r i w) :
    Loose c ev w0 A r i (w.updSta i fun s => { s with td := none, retxExceedHndlr := false }) := by
  obtain ⟨td, hndlr, ha⟩ := hA
  refine ⟨td, hndlr, ?_⟩
  rw [abs_updSta, Abs.put_put, World.updSta_same]
  exact ha

theorem startPtk_sim (hA : Loose c ev w0 A r i w) (hst : (w.sta i).state = .ptkstart)
    (hh : (w.sta i).retxExceedHndlr = false)
    (hstart : MayStart c ev w0 i (abs r w).log) :
    wp (startPtk c i) (fun b w' => b = false ∧ Reach c ev w0 A (abs r w')) (Stops c ev w0 A) w := by
  simp only [startPtk, wp_bind, wp_modSta]
  refine wp_mono (wpaSendEapol_ptkstart c _ i ?_) (fun b w1 h1 => ?_) (fun _ _ h => h.elim)
  · simpa using hst
  obtain ⟨rfl, k, hk, rfl⟩ := h1
  simp only [Bool.not_true, Bool.false_eq_true, if_false, wp_bind, wp_modSta, wp_pure]
  refine wp_mono (armRetx_spec c _ i) (fun _ w1 h1 => ⟨trivial, ?_⟩) (fun _ _ h => h.elim)
  obtain ⟨t, ht, rfl⟩ := h1
  refine hA.move { (w.sta i).core with
      td := t, hndlr := false, retryState := .ptkstart, state := .ptkinitnegotiating }
    [.send i (w.sta i).ea k none] ?_ (fun a td hndlr ha hlog => ?_)
  · simp [abs_updSta, Sta.core, hst, hh]
  · have hm : Move c ev w0 a i _ _ := .sendM1 k t (by rw [ha]; exact hst)
      (by rw [ha]; simpa [Sta.core] using hk) ht (by rwa [hlog])
    rwa [ha] at hm

variable {f : Frame}

theorem wpaPtkinitnegotiating_sim (hA : Reach c ev w0 A (abs r w)) (hw : Handles ev w0 f i w)
    (hst : (w.sta i).state = .ptkinitnegotiating) :
    wp (wpaPtkinitnegotiating c i f) (Ends c ev w0 A r i) (Stops c ev w0 A) w := by
  simp only [wpaPtkinitnegotiating, wpaStopRetx, wpaCalcPtk, wp_bind, wp_ite, wp_pure, wp_getSta,
    wp_modSta, wp_nasHandleError, World.updSta_same]
  refine ⟨fun _ => hA, fun hflags => ⟨fun _ => hA, fun hreplay => ⟨fun _ => ?_, fun _ =>
    ⟨fun _ => ?_, fun hlen => ⟨fun _ => ?_, fun hmic => ?_⟩⟩⟩⟩⟩
  · -- The element differs from the one of the association.
    exact Loose.stop c ev w0 r w i (.of_reach hA i)
  · refine .of_reach hA ?_ (fun j => ?_)
    · rfl
    · by_cases hj : j = i
      · subst hj; simp [Sta.core]
      · simp [Sta.core, hj]
  · -- A wrong MIC.
    simp only [wp_emit]
    refine wp_mono (armRetx_spec c _ i) (fun _ w1 h1 => ?_) (fun _ _ h => h.elim)
    obtain ⟨t, ht, rfl⟩ := h1
    refine reach_move i hA (.badM2 (calcPtk c.crypto (w.sta i).pmk c.cfg.ea (w.sta i).ea
      (w.sta i).anonce f.nonce (w.sta i).ptkLen ++ (w.sta i).ptk.drop (w.sta i).ptkLen) t hst ht) ?_
    simp [abs_updSta, abs_out, Out.visible, Sta.core]
  · refine wp_mono (wpaSendEapol_sends c ev w0 r _ i .ptkinitnegotiating ?_ rfl)
      (fun b w1 h1 => ?_) (fun _ w1 h1 => ?_)
    · simpa using hst
    · obtain ⟨rfl, hdesc, hs⟩ := h1
      refine ⟨by simp, fun _ => ?_⟩
      refine wp_mono (armRetx_spec c _ i) (fun _ w2 h2 => ?_) (fun _ _ h => h.elim)
      obtain ⟨t, ht, rfl⟩ := h2
      have hsta := hs.sta
      simp only [World.updSta_same] at hs hdesc
      refine Sends.move { (w.sta i).core with
        ptk := calcPtk c.crypto (w.sta i).pmk c.cfg.ea (w.sta i).ea (w.sta i).anonce f.nonce
          (w.sta i).ptkLen ++ (w.sta i).ptk.drop (w.sta i).ptkLen,
        replay := incr (w.sta i).replay, td := t,
        hndlr := has (w.sta i).mode (wpa ||| wpaPsk),
        retryState := .ptkinitnegotiating, state := .ptkinitdone } hs hA rfl rfl ?_ ?_ ?_
      · simp [hsta, Sta.core, hst]
      · intro j hj
        simp [hsta, hj]
      · intro a1 k ha1 _ _ hplumbed hk
        have hm : Move c ev w0 a1 i _ _ :=
          .goodM2 f k t hw.event ⟨hw.delivered, ?_⟩ ?_ (by simpa [m2Flags] using hflags) ?_ ?_
            ?_ ?_ ?_ ht
        · rw [ha1] at hm
          exact hm
        · rw [ha1]; exact hw.cores i
        · rw [ha1]; exact hst
        · rw [ha1]; exact not_not.mp hreplay
        · rw [ha1]; exact hdesc trivial
        · rw [ha1]; exact not_lt.mp hlen
        · rw [ha1]; exact hplumbed rfl
        · rw [ha1]; exact hk
    · refine GtkOnly.stops h1 hA rfl (fun j => ?_)
      by_cases hj : j = i
      · subst hj; simp [Sta.core]
      · simp [Sta.core, hj]

/-- Stop the timer of the station in slot `i`, or leave it alone. -/
def stopIf (stop : Bool) (i : Slot) (w : World) : World :=
  if stop then w.updSta i fun s => { s with td := none, retxExceedHndlr := false } else w

theorem abs_stopIf {stop : Bool} (h : (w.sta i).td = none ∧ (w.sta i).retxExceedHndlr = false) :
    abs r (stopIf stop i w) = abs r w := by
  cases stop with
  | false => rfl
  | true =>
      rw [stopIf, if_pos rfl]
      refine abs_updSta_of_core ?_
      simp [Sta.core, h.1, h.2]

/-- The group key exchange is started in a world `w` whose only difference from a reachable
state is the stopped timer of the station. -/
theorem startGroup_sim {w1 : World} (stop : Bool) (hA : Reach c ev w0 A (abs r w))
    (hne : ∀ j, j ≠ i → w1.sta j = w.sta j)
    (hi : w1.sta i = { w.sta i with td := none, retxExceedHndlr := false })
    (hseen : { abs r w1 with sta := (abs r w).sta } = abs r w)
    (hmove : ∀ a1 k td, a1.sta = (abs r w).sta → Plumbed c a1 → k.replay = incr (w.sta i).replay →
      (stop = false → Armed c td) →
      Move c ev w0 a1 i { (w.sta i).core with
          td := td, hndlr := false, replay := incr (w.sta i).replay,
          retryState := .rekeynegotiating, state := .rekeynegotiating }
        [.send i (w.sta i).ea k (carried a1 (w.sta i).mode .rekeynegotiating)]) :
    wp (startGroup c i)
      (fun b w' => b = false ∧ Reach c ev w0 A (abs r (stopIf stop i w')))
        (Stops c ev w0 A) w1 := by
  have hie : ∀ j, ((abs r w).sta j).ieLen = (w1.sta j).assocWpaie.length := by
    intro j
    by_cases hj : j = i
    · subst hj; rw [hi]; rfl
    · rw [hne j hj]; rfl
  simp only [startGroup, wp_bind, wp_modSta, wp_pure, wp_ite]
  have hie' : ∀ j, ((abs r w).sta j).ieLen = ((w1.updSta i fun s =>
      { s with replay := incr s.replay, state := .rekeynegotiating }).sta j).assocWpaie.length := by
    intro j
    rw [hie j]
    by_cases hj : j = i
    · subst hj; simp
    · simp [hj]
  refine wp_mono (ensureGtk_spec c ev w0 r _) (fun _ w3 hkey => ?_)
    (fun _ w3 h3 => GtkOnly.stops h3 hA hseen hie')
  obtain ⟨h3, hplumbed⟩ := hkey
  have ha : Reach c ev w0 A { abs r w3 with sta := (abs r w).sta } := by
    have h := h3.reach (abs r w).sta
    rw [show ({ abs r (w1.updSta i fun s => { s with
      replay := incr s.replay, state := .rekeynegotiating }) with sta := (abs r w).sta } : Abs)
      = abs r w from hseen] at h
    exact hA.trans h
  have h3i : w3.sta i = { w.sta i with
      td := none, retxExceedHndlr := false, replay := incr (w.sta i).replay,
      state := .rekeynegotiating } := by
    rw [h3.sta, World.updSta_same, hi]
  have h3ne : ∀ j, j ≠ i → w3.sta j = w.sta j := by
    intro j hj
    rw [h3.sta, World.updSta_ne w1 hj, hne j hj]
  refine wp_mono (wpaSendEapol_sends c ev w0 r _ i .rekeynegotiating ?_ rfl)
    (fun b w4 h4 => ?_) (fun _ w4 h4 => ?_)
  · simp [h3i]
  · obtain ⟨rfl, _, hs⟩ := h4
    refine ⟨by simp, fun _ => ?_⟩
    refine wp_mono (armRetx_spec c _ i) (fun _ w5 h5 => ⟨trivial, ?_⟩) (fun _ _ h => h.elim)
    obtain ⟨t, ht, rfl⟩ := h5
    have hsta := hs.sta
    simp only [World.updSta_same, h3i] at hs
    refine Sends.move { (w.sta i).core with
      td := if stop then none else t, hndlr := false, replay := incr (w.sta i).replay,
      retryState := .rekeynegotiating, state := .rekeynegotiating } hs ha rfl ?_ ?_ ?_ ?_
    · cases stop with
      | true => rfl
      | false => rfl
    · cases stop with
      | true => simp [stopIf, hsta, h3i, Sta.core]
      | false => simp [stopIf, hsta, h3i, Sta.core]
    · intro j hj
      cases stop with
      | true => simp [stopIf, hsta, h3ne j hj, hj]
      | false => simp [stopIf, hsta, h3ne j hj, hj]
    · intro a1 k ha1 _ hkeeps _ hk
      refine hmove a1 k _ ha1 (hkeeps hplumbed) hk (fun hstop => ?_)
      simpa [hstop] using ht
  · refine GtkOnly.stops h4 ha rfl (fun j => ?_)
    by_cases hj : j = i
    · subst hj; simp [h3i, Sta.core]
    · simp [h3ne j hj, hj, Sta.core]

/-- `wpa_ptkinitdone2`, as it is called on message 4 and, with `stop`, when the retries are
exceeded: then the caller stops the timer afterwards. -/
theorem wpaPtkinitdone2_sim (stop : Bool) (hA : Reach c ev w0 A (abs r w))
    (hold : (w.sta i).core = (w0.sta i).core)
    (hwhy : (stop = false ∧ (w.sta i).state = .ptkinitdone ∧ Verified c ev w0 i)
      ∨ (stop = true ∧ ev = .retxTimer i
        ∧ (0 ≤ c.drv.setKey w.calls (w.sta i).pairwiseArgs → exhausted c w0 i = true))) :
    wp (wpaPtkinitdone2 c i)
      (fun b w' => b = false ∧ Reach c ev w0 A (abs r (stopIf stop i w'))) (Stops c ev w0 A) w := by
  have hgood : 0 ≤ c.drv.setKey w.calls (w.sta i).pairwiseArgs →
      ((w.sta i).state = .ptkinitdone ∧ Verified c ev w0 i ∧ stop = false)
        ∨ (ev = .retxTimer i ∧ exhausted c w0 i = true) := by
    intro h
    rcases hwhy with ⟨h1, h2, h3⟩ | ⟨_, h2, h3⟩
    · exact .inl ⟨h2, h3, h1⟩
    · exact .inr ⟨h2, h3 h⟩
  simp only [wpaPtkinitdone2, wpaStopRetx, nasSetKey, nasAuthorize, wp_bind, wp_modSta, wp_getSta,
    wp_oracle, wp_emit, wp_pure, wp_ite, World.updSta_same]
  refine ⟨fun _ => ?_, fun hge => ?_⟩
  · -- The driver refuses the key.
    refine wp_mono (cleanupSta_sim c ev w0 r _ i dot11RcBusy false ?_)
      (fun _ w' h => ⟨trivial, ?_⟩) (fun _ _ h => h)
    · obtain ⟨td, hndlr, ha⟩ := Loose.of_reach hA i
      refine ⟨td, hndlr, ?_⟩
      simpa [abs_updSta, abs_out, Out.visible, Sta.core] using ha
    · rw [abs_stopIf r w' i h.2]
      exact h.1
  · have hok := hgood (not_lt.mp hge)
    refine ⟨fun hmode => ?_, fun hmode => ?_⟩
    · refine ⟨trivial, ?_⟩
      rw [abs_stopIf]
      · refine reach_move i hA (.pairwiseDone hold (hok.imp (fun h => ⟨h.1, h.2.1⟩) id) ?_) ?_
        · simpa [Sta.core] using hmode
        · simp [abs_updSta, abs_out, Out.visible, Sta.core]
      · simp
    · refine startGroup_sim c ev w0 r w i stop hA (fun j hj => by simp [hj]) (by simp) ?_ ?_
      · simp [abs_updSta, abs_out, Out.visible, Abs.put]
      · intro a1 k td ha1 hplumbed hk htd
        have hm : Move c ev w0 a1 i _ _ := .groupStart k td ?_ ?_ ?_ hplumbed ?_
        · rw [ha1] at hm
          exact hm
        · rw [ha1]; exact hold
        · rw [ha1]
          exact hok.imp (fun h => ⟨h.1, h.2.1, htd h.2.2⟩) id
        · rw [ha1]
          simpa [Sta.core] using hmode
        · rw [ha1]; exact hk

theorem wpaPtkinitdone_sim (hA : Reach c ev w0 A (abs r w)) (hw : Handles ev w0 f i w)
    (hst : (w.sta i).state = .ptkinitdone) :
    wp (wpaPtkinitdone c i f) (fun b w' => b = false ∧ Reach c ev w0 A (abs r w'))
      (Stops c ev w0 A) w := by
  simp only [wpaPtkinitdone, wp_bind, wp_getSta, wp_ite, wp_pure]
  refine ⟨fun _ => ⟨trivial, hA⟩, fun hflags => ⟨fun _ => ⟨trivial, hA⟩, fun _ =>
    ⟨fun _ => ⟨trivial, hA⟩, fun _ => ⟨fun _ => ⟨trivial, hA⟩, fun hmic => ?_⟩⟩⟩⟩
  have hflag : has f.keyInfo wpaKeyMic = true := by
    refine flagsOk_has (by simpa using hflags) ?_ (by decide)
    unfold m4Required
    split
    · decide
    · decide
  refine wpaPtkinitdone2_sim c ev w0 r w i false hA (hw.cores i) (.inl ⟨rfl, hst, ?_⟩)
  exact hw.verified hflag (by simpa using hmic)

theorem groupReply_sim (hA : Reach c ev w0 A (abs r w)) (hw : Handles ev w0 f i w)
    (hst : (w.sta i).state = .rekeynegotiating) (hver : Verified c ev w0 i) :
    wp (do
      wpaStopRetx i
      nasAuthorize (w.sta i).ea
      modSta i fun s => { s with state := .setkeysdone, retryState := .setkeysdone }
      if (← get).ptkRekeySecs ≠ 0 then
        let td ← wpaSetItimer c (← get).ptkRekeyTimer
        modify fun w => { w with ptkRekeyTimer := td })
    (fun _ w' => Reach c ev w0 A (abs r w')) (Stops c ev w0 A) w := by
  simp only [wpaStopRetx, nasAuthorize, wp_bind, wp_modSta, wp_emit, wp_get, wp_ite, wp_modify,
    wp_pure]
  have hdone : Reach c ev w0 A (abs r (((w.updSta i fun s =>
      { s with td := none, retxExceedHndlr := false }).out (.authorize (w.sta i).ea)).updSta i
        fun s => { s with state := .setkeysdone, retryState := .setkeysdone })) := by
    refine reach_move i hA (.groupDone (hw.cores i) hst hver) ?_
    simp [abs_updSta, abs_out, Out.visible, Sta.core]
  refine ⟨fun _ => ?_, fun _ => hdone⟩
  refine wp_of_quiet (wpaSetItimer_quiet c r _ _) (fun td w' h => ?_)
  have h' := h.seen
  rw [show abs r { w' with ptkRekeyTimer := td } = abs r w' from rfl, h']
  exact hdone

end Handlers

/-! ## The group rekey -/

section Rekey

variable (c ev w0) (w : World) (i : Slot) {A : Abs}

theorem wpaSendRekeyFrame_sim (hA : Reach c ev w0 A (abs true w))
    (hst : (w.sta i).state = .setkeysdone) :
    wp (wpaSendRekeyFrame c i)
      (fun _ w' => Reach c ev w0 A (abs true w') ∧ (∀ j, j ≠ i → w'.sta j = w.sta j)
        ∧ (w'.sta i).state = .rekeynegotiating) (Stops c ev w0 A) w := by
  simp only [wpaSendRekeyFrame, wpaStopRetx, wp_bind, wp_modSta, wp_ite, wp_getSta]
  refine wp_mono (wpaSendEapol_sends c ev w0 true _ i .rekeynegotiating ?_ rfl)
    (fun b w1 h1 => ?_) (fun _ w1 h1 => ?_)
  · simp
  · obtain ⟨rfl, _, hs⟩ := h1
    have hsta := hs.sta
    simp only [World.updSta_same] at hs
    refine ⟨by simp, fun _ => ⟨fun _ => ?_, fun h => ?_⟩⟩
    · refine wp_mono (armRetx_spec c _ i) (fun _ w2 h2 => ?_) (fun _ _ h => h.elim)
      obtain ⟨t, ht, rfl⟩ := h2
      refine ⟨Sends.move { (w.sta i).core with
        td := t, hndlr := false, replay := incr (w.sta i).replay,
        retryState := .rekeynegotiating, state := .rekeynegotiating } hs hA rfl rfl ?_ ?_ ?_,
        ?_, ?_⟩
      · simp [hsta, Sta.core]
      · intro j hj
        simp [hsta, hj]
      · intro a1 k ha1 hr _ _ hk
        have hm : Move c ev w0 a1 i _ _ := .rekeySend k t (by rw [ha1]; exact hst) hr
          (by rw [ha1]; exact hk) ht
        rw [ha1] at hm
        exact hm
      · intro j hj
        simp [hsta, hj]
      · simp [hsta]
    · simp [hsta] at h
  · refine GtkOnly.stops h1 hA rfl (fun j => ?_)
    by_cases hj : j = i
    · subst hj; simp [Sta.core]
    · simp [hj, Sta.core]

theorem makeGtk_sim (hA : Reach c ev w0 A (abs false w)) (hev : rekeys c ev w0)
    (hold : ∀ j, (w.sta j).core = (w0.sta j).core)
    (hone : (w.sta i).used = true ∧ (w.sta i).state = .setkeysdone) :
    wp (makeGtk c) (fun _ w' => Reach c ev w0 A (abs true w') ∧ w'.sta = w.sta)
      (Stops c ev w0 A) w := by
  have hstep : ∀ w1 w2, GtkGen false w w1 →
      Plumbs c false false { w1 with gtkIndex := gtkNextIndex w1.gtkIndex } w2 →
      Reach c ev w0 A (abs true w2) ∧ w2.sta = w.sta := by
    intro w1 w2 hg hp
    refine ⟨?_, hp.sta.trans hg.sta⟩
    obtain ⟨n, rsc, habs⟩ := hp.seen
    obtain ⟨gtk, fits, hgen, hfits⟩ : ∃ gtk fits,
        abs false { w1 with gtkIndex := gtkNextIndex w1.gtkIndex } =
          { abs false w with gtk := gtk, fits := fits } ∧
        ((abs false w).fits = true → fits = true) := by
      refine ⟨(w1.gtk.take w1.gtkLen, gtkNextIndex w1.gtkIndex), (abs false w1).fits, ?_, hg.fits⟩
      have h := hg.seen
      simp only [abs, Abs.mk.injEq] at h ⊢
      simp [h, World.groupKey]
    rw [hgen] at habs
    have hset : abs true w2 = { abs false w2 with rekeying := true } := rfl
    rw [hset, habs]
    exact hA.tail (.gtkNew gtk fits n rsc hev hold ⟨i, hone⟩ hfits)
  simp only [makeGtk, wp_bind, wp_modify, wp_pure]
  refine wp_mono (wpaGenGtk_spec c false w) (fun _ w1 hg => ?_) (fun _ _ h => h.elim)
  refine wp_mono (wpaPlumbGtk_spec c false _ false) (fun _ w2 hp => hstep w1 w2 hg hp)
    (fun _ w2 hp => ?_)
  exact .of_abs (hstep w1 w2 hg hp).1

/-- What the loop leaves behind: no used station holds keys, and those that held keys are in a
group key exchange. -/
structure Rekeyed (c : Ctx) (ev : Event) (w0 : World) (A : Abs) (w : World) (b : Bool)
    (w' : World) : Prop where
  reach : Reach c ev w0 A (abs b w')
  all : ∀ j, (w'.sta j).used = true → (w'.sta j).state ≠ .setkeysdone
  state : ∀ j, (w'.sta j).state = (w.sta j).state ∨ (w'.sta j).state = .rekeynegotiating

/-- The loop over the stations. Those that have been visited do not hold keys any more; as long
as nothing has been done, the stations are as they were before the event. -/
theorem newGtkLoop_sim (hev : rekeys c ev w0) (l : List Slot) :
    ∀ (didOne : Bool) (w : World), Reach c ev w0 A (abs didOne w) →
      (didOne = false → ∀ j, (w.sta j).core = (w0.sta j).core) →
      (∀ j, j ∉ l → (w.sta j).used = true → (w.sta j).state ≠ .setkeysdone) →
      wp (newGtkLoop c l didOne) (Rekeyed c ev w0 A w) (Stops c ev w0 A) w := by
  induction l with
  | nil =>
      intro didOne w hA _ hdone
      exact ⟨hA, fun j => hdone j (by simp), fun _ => .inl rfl⟩
  | cons i l ih =>
      intro didOne w hA hold hdone
      -- One station has been sent the key; go on with the rest of the list.
      have hnext : ∀ w1, Reach c ev w0 A (abs true w1) → w1.sta = w.sta →
          (w.sta i).state = .setkeysdone →
          wp (do
            wpaSendRekeyFrame c i
            newGtkLoop c l true) (Rekeyed c ev w0 A w) (Stops c ev w0 A) w1 := by
        intro w1 hA1 hsta hst
        rw [wp_bind]
        refine wp_mono (wpaSendRekeyFrame_sim c ev w0 w1 i hA1 (by rw [hsta]; exact hst))
          (fun _ w2 h2 => ?_) (fun _ _ h => h)
        obtain ⟨hA2, hne, hi⟩ := h2
        refine wp_mono (ih true w2 hA2 (by rintro ⟨⟩) (fun j hj => ?_))
          (fun b w3 h3 => ⟨h3.reach, h3.all, ?_⟩)
          (fun _ _ h => h)
        · by_cases hji : j = i
          · subst hji
            rw [hi]
            intro _ h
            cases h
          · rw [hne j hji, hsta]
            exact hdone j (by simp [hji, hj])
        · intro j
          rcases h3.state j with hj | hj
          · by_cases hji : j = i
            · subst hji
              exact .inr (hj.trans hi)
            · rw [hne j hji, hsta] at hj
              exact .inl hj
          · exact .inr hj
      simp only [newGtkLoop, wp_bind, wp_getSta, wp_ite]
      refine ⟨fun hskip => ?_, fun hhit => ?_⟩
      · refine ih didOne w hA hold (fun j hj => ?_)
        by_cases hji : j = i
        · subst hji
          intro hu hst
          simp [hu, hst] at hskip
        · exact hdone j (by simp [hji, hj])
      · have hone : (w.sta i).used = true ∧ (w.sta i).state = .setkeysdone := by
          simpa using hhit
        cases didOne with
        | true => exact ⟨by simp, fun _ => by simpa only [wp_bind] using hnext w hA rfl hone.2⟩
        | false =>
            refine ⟨fun _ => ?_, by simp⟩
            refine wp_mono (makeGtk_sim c ev w0 w i hA hev (hold rfl) hone) (fun _ w1 h1 => ?_)
              (fun _ _ h => h)
            simpa only [wp_bind] using hnext w1 h1.1 h1.2 hone.2

theorem mem_slots (i : Slot) : i ∈ slots := List.mem_finRange i

/-- `wpa_new_gtk_callback`: in the end all stations that held keys have been sent the new one,
and it is used for sending. -/
theorem wpaNewGtkCallback_sim (hA : Reach c ev w0 A (abs false w)) (hev : rekeys c ev w0)
    (hold : ∀ j, (w.sta j).core = (w0.sta j).core) :
    wp (wpaNewGtkCallback c) (fun _ w' => Reach c ev w0 A (abs false w')
      ∧ (∀ j, (w'.sta j).state = (w.sta j).state ∨ (w'.sta j).state = .rekeynegotiating)
      ∧ ∀ j, (w'.sta j).used = true → (w'.sta j).state ≠ .setkeysdone)
      (Stops c ev w0 A) w := by
  simp only [wpaNewGtkCallback, wp_bind, wp_ite, wp_pure]
  refine wp_mono (newGtkLoop_sim c ev w0 hev slots false w hA (fun _ => hold)
    (fun j hj => absurd (mem_slots j) hj)) (fun b w1 h1 => ?_) (fun _ _ h => h)
  obtain ⟨hA1, hall, hstate⟩ := h1
  refine ⟨fun hb => ?_, fun hb => ?_⟩
  · subst hb
    have hstep : ∀ w2, Plumbs c false true w1 w2 → Reach c ev w0 A (abs false w2) := by
      intro w2 hp
      obtain ⟨n, rsc, habs⟩ := hp.seen
      rw [habs]
      exact hA1.tail (.gtkDone n rsc hall)
    refine wp_mono (wpaPlumbGtk_spec c false w1 true) (fun _ w2 hp => ⟨hstep w2 hp, ?_⟩)
      (fun _ w2 hp => .of_abs (hstep w2 hp))
    rw [hp.sta]
    exact ⟨hstate, hall⟩
  · have hb' : b = false := by simpa using hb
    rw [hb'] at hA1
    exact ⟨hA1, hstate, hall⟩

theorem wpaNewGtk_sim (hA : Reach c ev w0 A (abs false w)) (hev : rekeys c ev w0)
    (hold : ∀ j, (w.sta j).core = (w0.sta j).core) :
    wp (wpaNewGtk c) (fun _ w' => Reach c ev w0 A (abs false w')
      ∧ (∀ j, (w'.sta j).state = (w.sta j).state ∨ (w'.sta j).state = .rekeynegotiating)
      ∧ ∀ j, (w'.sta j).used = true → (w'.sta j).state ≠ .setkeysdone)
      (Stops c ev w0 A) w := by
  simp only [wpaNewGtk, wp_bind, wp_modify]
  refine wp_mono (wpaNewGtkCallback_sim c ev w0 { w with gtkRekeyTimer := none } hA hev hold)
    (fun _ w1 hA1 => ?_) (fun _ _ h => h)
  refine wp_of_quiet (wpaSetGtkTimer_quiet c false w1) (fun _ w2 h => ?_)
  rw [h.seen, h.sta]
  exact hA1

end Rekey

/-! ## MIC failures -/

section MicFailure

variable (c ev w0) (r : Bool) (w : World) (i : Slot) {A : Abs}

theorem reach_supplicant {w' : World} (hA : Reach c ev w0 A (abs r w))
    (hrole : c.cfg.role = .supplicant)
    (hlog : (abs r w').log.filter Out.isSave = (abs r w).log.filter Out.isSave)
    (hie : ∀ j, (w'.sta j).assocWpaie.length ≤ (w.sta j).assocWpaie.length
      ∨ (w'.sta j).assocWpaie.length ≤ maxWpaIe) : Reach c ev w0 A (abs r w') :=
  hA.tail (.supplicant _ hrole hlog hie)

theorem cleanupAll_sim (reason : Nat) (l : List Slot) :
    ∀ w : World, Reach c ev w0 A (abs r w) →
      (∀ j, j ∉ l → (w.sta j).used = true →
        (w.sta j).state.busy = false ∧ (w.sta j).retxExceedHndlr = false) →
      wp (l.forM fun i => do if (← getSta i).used then cleanupSta c i reason false)
        (fun _ w' => Reach c ev w0 A (abs r w')
          ∧ ∀ j, (w'.sta j).used = true →
            (w'.sta j).state.busy = false ∧ (w'.sta j).retxExceedHndlr = false)
        (Stops c ev w0 A) w := by
  induction l with
  | nil =>
      intro w hA hdone
      exact ⟨hA, fun j => hdone j (by simp)⟩
  | cons i l ih =>
      intro w hA hdone
      rw [wp_forM_cons]
      simp only [wp_bind, wp_getSta, wp_ite, wp_pure]
      refine ⟨fun _ => ?_, fun hu => ?_⟩
      · refine wp_mono (wp_and (cleanupSta_sim c ev w0 r w i reason false (.of_reach hA i))
          (cleanupSta_spec c r w i reason false)) (fun _ w1 h => ?_) (fun _ _ h => h.1)
        obtain ⟨⟨hA1, _, hhndlr⟩, hdrop, hbusy⟩ := h
        refine ih w1 hA1 (fun j hj => ?_)
        by_cases hji : j = i
        · subst hji
          exact fun hu => ⟨hbusy rfl hu, hhndlr⟩
        · rw [hdrop.others j hji]
          exact hdone j (by simp [hji, hj])
      · refine ih w hA (fun j hj => ?_)
        by_cases hji : j = i
        · subst hji
          exact fun h => absurd h hu
        · exact hdone j (by simp [hji, hj])

theorem takeCountermeasures_sim (hA : Reach c ev w0 A (abs r w)) :
    wp (takeCountermeasures c) (fun _ w' => Reach c ev w0 A (abs r w')) (Stops c ev w0 A) w := by
  simp only [takeCountermeasures, nasSetKey, wp_bind, wp_modify, wp_emit, wp_get]
  refine wp_of_quiet (wpaSetItimer_quiet c r _ _) (fun td w1 h1 => ?_)
  have hA1 : Reach c ev w0 A (abs r w1) := by
    rw [h1.seen, abs_out_of_not_visible rfl]
    exact hA
  refine wp_mono (cleanupAll_sim c ev w0 r dot11RcMicFailure slots
    { w1 with countermeasuresTimer := td } hA1 (fun j hj => absurd (mem_slots j) hj))
      (fun _ w2 h2 => ?_) (fun _ _ h => h)
  obtain ⟨hA2, hall⟩ := h2
  simp only [wp_ite, wp_throw, wp_pure, wp_oracle, wp_emit, wp_modify, wp_bind, wp_get]
  refine ⟨fun _ => .of_abs hA2, fun _ => ?_⟩
  have hstep := hA2.tail (.clobber (c.drv.setKey w2.calls (KeyArgs.clear none w2.gtkIndex))
    (c.drv.setKey (w2.calls + 1) (KeyArgs.clear none (gtkNextIndex w2.gtkIndex))) hall)
  exact hstep

theorem wpaMicError_sim (fromDriver pairwise : Bool) (hA : Reach c ev w0 A (abs r w)) :
    wp (wpaMicError c i fromDriver pairwise) (fun _ w' => Reach c ev w0 A (abs r w'))
      (Stops c ev w0 A) w := by
  simp only [wpaMicError, wpaSendMicFailure, wp_bind, wp_getSta, wp_ite, wp_pure, wp_get,
    wp_modify, wp_modSta, wp_emit]
  refine ⟨fun _ => hA, fun _ => ⟨fun hrole => ⟨fun _ => hA, fun _ => ?_⟩,
    fun _ => ⟨fun _ => ?_, fun _ => hA⟩⟩⟩
  · -- The supplicant's report.
    have hsup : ∀ (f g : Sta → Sta) (o : Out), (∀ s, (f s).assocWpaie = s.assocWpaie) →
        (∀ s, (g s).assocWpaie = s.assocWpaie) → o.visible = false →
        ∀ w1 : World, abs r w1 = abs r w → w1.sta = w.sta →
        Reach c ev w0 A (abs r (((w1.updSta i f).updSta i g).out o)) := by
      intro f g o hf hg ho w1 h1 hs
      refine reach_supplicant c ev w0 r w hA hrole ?_ (fun j => .inl (le_of_eq ?_))
      · rw [abs_out_of_not_visible ho, abs_updSta, abs_updSta, h1]
        simp
      · by_cases hj : j = i
        · subst hj; simp [hf, hg, hs]
        · simp [hj, hs]
    have h := fun o ho => hsup (fun s => { s with
        micFailures := s.micFailures + 1, prevMicError := w.now })
      (fun s => { s with replay := incr s.replay }) o (fun _ => rfl) (fun _ => rfl) ho
      { w with micFailures := w.micFailures + 1, prevMicError := w.now } rfl rfl
    refine ⟨fun _ => ?_, fun _ => h _ rfl⟩
    refine wp_mono (cleanupSta_sim c ev w0 r _ i dot11RcMicFailure false (.of_reach (h _ rfl) i))
      (fun _ w' h' => h'.1) (fun _ _ h' => h')
  · exact takeCountermeasures_sim c ev w0 r _ hA

/-! ### Who is kept -/

/-- The station in slot `i` is still `s` for `cleanup_sta`, which has it wait in `WPA_PTKSTART` only
if it keeps it. -/
structure Survives (i : Slot) (s : Sta) (w' : World) : Prop where
  mode : (w'.sta i).mode = s.mode
  pae : (w'.sta i).pae = s.pae
  state : (w'.sta i).state = .ptkstart → s.kept = true

theorem Survives.congr {i : Slot} {s : Sta} {w w' : World} (h : Survives i s w)
    (hsta : w'.sta = w.sta) : Survives i s w' := by
  obtain ⟨hmode, hpae, hstate⟩ := h
  constructor
  · rw [hsta, hmode]
  · rw [hsta, hpae]
  · rw [hsta]
    exact hstate

theorem Survives.updSta {i : Slot} {s : Sta} {w : World} (h : Survives i s w) (j : Slot)
    {f : Sta → Sta} (hmode : (f (w.sta j)).mode = (w.sta j).mode)
    (hpae : (f (w.sta j)).pae = (w.sta j).pae)
    (hstate : (f (w.sta j)).state = .ptkstart → (w.sta j).state = .ptkstart
      ∨ (w.sta j).kept = true) : Survives i s (w.updSta j f) := by
  by_cases hij : i = j
  · subst hij
    refine ⟨?_, ?_, ?_⟩
    · rw [World.updSta_same, hmode, h.mode]
    · rw [World.updSta_same, hpae, h.pae]
    · rw [World.updSta_same]
      intro hst
      rcases hstate hst with hold | hkept
      · exact h.state hold
      · unfold Sta.kept at hkept ⊢
        rwa [h.mode, h.pae] at hkept
  · have hne : (w.updSta j f).sta i = w.sta i := World.updSta_ne w hij f
    constructor
    · rw [hne, h.mode]
    · rw [hne, h.pae]
    · rw [hne]
      exact h.state

theorem cleanupTail_survives (j : Slot) (auth : Bool) {s : Sta} {w : World} (h : Survives i s w) :
    wp (cleanupTail c j auth) (fun _ => Survives i s) (fun _ _ => True) w := by
  have hstop :=
    h.updSta j (f := fun s => { s with td := none, retxExceedHndlr := false }) rfl rfl .inl
  simp only [cleanupTail, tossSta, wpaStopRetx, wp_bind, wp_modSta, wp_getSta, wp_ite, wp_pure,
    wp_modify, wp_emit, Bool.not_true, Bool.false_eq_true, false_implies, not_false_eq_true,
    true_implies, true_and]
  refine ⟨fun hkept => ?_, fun _ => ⟨fun _ => ?_, fun _ => hstop⟩⟩
  · refine hstop.updSta j rfl rfl fun _ => .inr ?_
    unfold Sta.kept
    simpa using hkept
  · refine Survives.congr (w := World.updSta _ j fun s => { s with used := false }) ?_ rfl
    refine Survives.updSta ?_ j rfl rfl .inl
    have hagain := hstop.updSta j (f := fun s => { s with td := none, retxExceedHndlr := false })
      rfl rfl .inl
    exact hagain.congr rfl

theorem cleanupSta_survives (j : Slot) (reason : Nat) {s : Sta} {w : World} (h : Survives i s w) :
    wp (cleanupSta c j reason false) (fun _ => Survives i s) (fun _ _ => True) w := by
  simp only [cleanupSta, nasDeauthenticate, nasSetKey, wp_bind, wp_ite, wp_modSta, wp_getSta,
    wp_oracle, wp_emit, wp_pure]
  have hdis := h.updSta j (f := fun s => { s with state := .disconnected }) rfl rfl (by rintro ⟨⟩)
  refine ⟨fun _ => ⟨fun _ => ?_, fun _ => ?_⟩, fun _ => ⟨fun _ => ?_, fun _ => ?_⟩⟩
  · exact cleanupTail_survives c i j _ (hdis.congr rfl)
  · exact cleanupTail_survives c i j _ hdis
  · exact cleanupTail_survives c i j _ (h.congr rfl)
  · exact cleanupTail_survives c i j _ h

theorem cleanupAll_survives (reason : Nat) (l : List Slot) {s : Sta} {w : World}
    (h : Survives i s w) :
    wp (l.forM fun j => do if (← getSta j).used then cleanupSta c j reason false)
      (fun _ => Survives i s) (fun _ _ => True) w := by
  refine wp_forM (fun j _ w1 h1 => ?_) w h
  simp only [wp_bind, wp_getSta, wp_ite, wp_pure]
  exact ⟨fun _ => cleanupSta_survives c i j _ h1, fun _ => h1⟩

/-- After a failure report of a station that holds keys, the station waits in `WPA_PTKSTART` only if
countermeasures were taken and kept it. -/
theorem wpaMicError_kept (pairwise : Bool) (hst : (w.sta i).state ≠ .ptkstart) :
    wp (wpaMicError c i false pairwise)
      (fun _ w' => (w'.sta i).state = .ptkstart → micErrorProhibit c (w.sta i) pairwise = false
        ∧ w.micCountermeasures = false ∧ (w.sta i).kept = true) (fun _ _ => True) w := by
  have h0 : ∀ w1 : World, w1.sta = w.sta → Survives i (w.sta i) w1 := by
    intro w1 hsta
    exact Survives.congr ⟨rfl, rfl, fun h => absurd h hst⟩ hsta
  simp only [wpaMicError, takeCountermeasures, nasSetKey, wp_bind, wp_getSta, wp_ite, wp_pure,
    wp_get, wp_modify, wp_emit, wp_oracle, wp_throw]
  refine ⟨fun _ h => absurd h hst, fun hno => ⟨fun _ => ⟨fun _ h => absurd h hst,
    fun h => absurd rfl h⟩, fun _ => ⟨fun hgo => ?_, fun _ h => absurd h hst⟩⟩⟩
  have hcm : w.micCountermeasures = false := by
    simp only [Bool.and_eq_true, Bool.not_eq_true'] at hgo
    exact hgo.1.2
  refine wp_of_quiet (wpaSetItimer_quiet c false _ _) (fun td w1 h1 => ?_)
  refine wp_mono (cleanupAll_survives c i _ _ (h0 { w1 with countermeasuresTimer := td } h1.sta))
    (fun _ w2 h2 => ⟨fun _ => trivial, fun _ hend => ?_⟩) (fun _ _ _ => trivial)
  exact ⟨by simpa using hno, hcm, h2.state hend⟩

end MicFailure

end BroadcomWl.Nas
