import BroadcomWl.Nas.RefineKeys

/-!
# Refinement: the station table and the port entity

Entering, finding and losing a station as steps of the automaton. A function that gives up on
a station leaves it half changed, with its timer stopped, and its caller cleans up; `Loose`
describes the world in between.
-/

namespace BroadcomWl.Nas

open BroadcomWl.Lib Relation

variable {c : Ctx} {ev : Event} {w0 : World}

/-! ## Ways to end -/

/-- A computation that stops leaves a halted instance. -/
def Stops (c : Ctx) (ev : Event) (w0 : World) (A : Abs) : Stop → World → Prop :=
  fun _ w => ∃ a, Reach c ev w0 A a ∧ a.HaltsAs (abs false { w with halted := true })

theorem Stops.of_reach {A a : Abs} {e : Stop} {w : World} (hA : Reach c ev w0 A a)
    (hlog : a.log = w.log.filter Out.visible)
    (hie : ∀ j, (a.sta j).ieLen = (w.sta j).assocWpaie.length) : Stops c ev w0 A e w :=
  ⟨a, hA, rfl, hlog.symm, fun j => (hie j).symm⟩

theorem Stops.of_abs {A : Abs} {e : Stop} {r : Bool} {w : World}
    (hA : Reach c ev w0 A (abs r w)) : Stops c ev w0 A e w :=
  .of_reach hA rfl (fun _ => rfl)

/-- The world shows a reachable state, but for the timer of the station in slot `i`. -/
def Loose (c : Ctx) (ev : Event) (w0 : World) (A : Abs) (r : Bool) (i : Slot) (w : World) : Prop :=
  ∃ td hndlr, Reach c ev w0 A
    ((abs r w).put i { (w.sta i).core with td := td, hndlr := hndlr } [])

namespace Abs

@[simp] theorem put_sta_same (a : Abs) (i : Slot) (k : Core) (outs : List Out) :
    (a.put i k outs).sta i = k := by simp [put]

@[simp] theorem put_sta_ne (a : Abs) {i j : Slot} (h : j ≠ i) (k : Core) (outs : List Out) :
    (a.put i k outs).sta j = a.sta j := by simp [put, h]

@[simp] theorem put_put (a : Abs) (i : Slot) (k k' : Core) (outs outs' : List Out) :
    (a.put i k outs).put i k' outs' = a.put i k' (outs' ++ outs) := by
  simp [put, Function.update_idem]

@[simp] theorem put_emit (a : Abs) (i : Slot) (k : Core) (outs : List Out) (o : Out) :
    (a.put i k outs).emit o = a.put i k (o :: outs) := rfl

@[simp] theorem emit_sta (a : Abs) (o : Out) : (a.emit o).sta = a.sta := rfl

@[simp] theorem emit_log (a : Abs) (o : Out) : (a.emit o).log = o :: a.log := rfl

@[simp] theorem put_log (a : Abs) (i : Slot) (k : Core) (outs : List Out) :
    (a.put i k outs).log = outs ++ a.log := rfl

@[simp] theorem put_self (a : Abs) (i : Slot) : a.put i (a.sta i) [] = a := by
  simp [put]

end Abs

@[simp] theorem abs_sta (r : Bool) (w : World) (i : Slot) : (abs r w).sta i = (w.sta i).core := rfl

theorem Loose.of_reach {A : Abs} {r : Bool} {w : World} (h : Reach c ev w0 A (abs r w))
    (i : Slot) : Loose c ev w0 A r i w :=
  ⟨(w.sta i).td, (w.sta i).retxExceedHndlr, by
    rw [show ({ (w.sta i).core with td := (w.sta i).td, hndlr := (w.sta i).retxExceedHndlr } : Core)
      = (abs r w).sta i from rfl, Abs.put_self]
    exact h⟩

theorem reach_move {A a : Abs} {r : Bool} {w : World} (i : Slot) {k : Core} {outs : List Out}
    (hA : Reach c ev w0 A a) (h : Move c ev w0 a i k outs) (hw : abs r w = a.put i k outs) :
    Reach c ev w0 A (abs r w) := by
  rw [hw]
  exact hA.tail (.move i h)

theorem Loose.move {A : Abs} {r : Bool} {w wf : World} {i : Slot} (hA : Loose c ev w0 A r i w)
    (k : Core) (outs : List Out) (hw : abs r wf = (abs r w).put i k outs)
    (h : ∀ a td hndlr, a.sta i = { (w.sta i).core with td := td, hndlr := hndlr } →
      a.log = (abs r w).log → Move c ev w0 a i k outs) : Reach c ev w0 A (abs r wf) := by
  obtain ⟨td, hndlr, ha⟩ := hA
  rw [hw]
  have h' := ha.tail (.move i (h _ td hndlr (Abs.put_sta_same _ _ _ _) rfl))
  rwa [Abs.put_put, List.append_nil] at h'

/-! ## Losing a station -/

/-- The station in slot `i` has been cleaned up; `s` is what is left of it. -/
structure Dropped (c : Ctx) (r : Bool) (i : Slot) (w w' : World) : Prop where
  others : ∀ j, j ≠ i → w'.sta j = w.sta j
  countermeasures : w'.micCountermeasures = w.micCountermeasures
  seen : ∃ used state, (used = false ∨ used = (w.sta i).used)
    ∧ (state = (w.sta i).state ∨ state.busy = false)
    ∧ (used = false ∨ state.busy = false ∨ c.cfg.wds = true)
    ∧ abs r w' = (abs r w).put i
      { (w.sta i).core with used := used, state := state, td := none, hndlr := false } []

theorem Dropped.timer {r : Bool} {i : Slot} {w w' : World} (h : Dropped c r i w w') :
    (w'.sta i).td = none ∧ (w'.sta i).retxExceedHndlr = false := by
  obtain ⟨used, state, _, _, _, hseen⟩ := h.seen
  have hcore := congrArg (fun a => a.sta i) hseen
  simp only [abs_sta, Abs.put_sta_same] at hcore
  exact ⟨congrArg Core.td hcore, congrArg Core.hndlr hcore⟩

section Station

variable (c ev w0) (r : Bool) (w : World) (i : Slot)

theorem nasDeauthenticate_quiet (ea : Bytes) (reason : Nat) :
    wpQuiet r (nasDeauthenticate c ea reason) w := by
  simp only [wpQuiet, nasDeauthenticate, nasSetKey, wp_bind, wp_oracle, wp_emit, wp_pure]
  refine ⟨rfl, rfl, rfl, rfl, ?_⟩
  rw [abs_out_of_not_visible rfl, abs_out_of_not_visible rfl, abs_call]

theorem tossSta_spec (reason : Nat) (driverSignal : Bool) : wp (tossSta c i reason driverSignal)
    (fun _ w' => w'.sta = Function.update w.sta i
        { w.sta i with td := none, retxExceedHndlr := false, used := false }
      ∧ w'.micCountermeasures = w.micCountermeasures
      ∧ abs r w' = (abs r w).put i
        { (w.sta i).core with used := false, td := none, hndlr := false } [])
    (fun _ _ => False) w := by
  have hend : ∀ w1, Quiet r w w1 →
      wp (do
        wpaStopRetx i
        modify fun w' => w'.setChain (paeHash (w.sta i).ea)
          ((w'.staHashed (paeHash (w.sta i).ea)).erase i)
        modSta i fun s => { s with used := false }
        emit (.toss i (w.sta i).ea))
      (fun _ w' => w'.sta = Function.update w.sta i
          { w.sta i with td := none, retxExceedHndlr := false, used := false }
        ∧ w'.micCountermeasures = w.micCountermeasures
        ∧ abs r w' = (abs r w).put i
          { (w.sta i).core with used := false, td := none, hndlr := false } [])
      (fun _ _ => False) w1 := by
    intro w1 h
    simp only [wpaStopRetx, wp_bind, wp_modSta, wp_modify, wp_emit]
    refine ⟨?_, h.countermeasures, ?_⟩
    · simp [World.updSta, World.out, World.setChain, h.sta]
    · rw [abs_out_of_not_visible rfl, abs_updSta, abs_setChain, abs_updSta, h.seen]
      simp [World.setChain, h.sta, Sta.core, World.updSta]
  simp only [tossSta, wp_bind, wp_getSta, wp_ite]
  refine ⟨fun _ => ?_, fun _ => ?_⟩
  · refine wp_of_quiet (nasDeauthenticate_quiet c r w _ _) (fun _ w1 h => ?_)
    simpa only [wp_bind] using hend w1 h
  · simpa only [wp_bind] using hend w (.refl r w)

/-- The end of `cleanup_sta`, for a station that was marked with the state `st`. -/
theorem cleanupTail_spec {w1 : World} (st : WpaState) {auth : Bool}
    (hauth : auth = true → c.cfg.wds = true) (hst : st = (w.sta i).state ∨ st.busy = false)
    (hsta : w1.sta = Function.update w.sta i { w.sta i with state := st })
    (hcm : w1.micCountermeasures = w.micCountermeasures)
    (hseen : abs r w1 = (abs r w).put i { (w.sta i).core with state := st } []) :
    wp (cleanupTail c i auth)
      (fun _ w' => Dropped c r i w w'
        ∧ ((w'.sta i).used = true → (w'.sta i).state.busy = true → auth = true ∧ st.busy = true))
      (fun _ _ => False) w1 := by
  have hi : w1.sta i = { w.sta i with state := st } := by rw [hsta]; simp
  have hne : ∀ j, j ≠ i → w1.sta j = w.sta j := by
    intro j hj
    rw [hsta]
    simp [hj]
  simp only [cleanupTail, wpaStopRetx, wp_bind, wp_modSta, wp_getSta, wp_ite, wp_pure]
  refine ⟨fun _ => ?_, fun _ => ⟨fun hna => ?_, fun ha => ?_⟩⟩
  · -- Kept for its cached PMK.
    refine ⟨⟨fun j hj => ?_, hcm, (w.sta i).used, .ptkstart, .inr rfl, .inr rfl,
      .inr (.inl rfl), ?_⟩, ?_⟩
    · simp [hj, hne]
    · rw [abs_updSta, abs_updSta, hseen]
      simp [hi, Sta.core]
    · intro _ hb
      simp [WpaState.busy, WpaState.waiting] at hb
  · -- Tossed.
    refine wp_mono (tossSta_spec c r _ i 0 true) (fun _ w2 h => ?_) (fun _ _ h => h.elim)
    refine ⟨⟨fun j hj => ?_, h.2.1.trans hcm, false, st, .inl rfl, hst, .inl rfl, ?_⟩, fun hu => ?_⟩
    · rw [h.1]
      simp [hj, hne]
    · rw [h.2.2, abs_updSta, hseen]
      simp [hi, Sta.core]
    · rw [h.1] at hu
      simp at hu
  · -- The peer of a WDS link.
    have ha' : auth = true := by simpa using ha
    refine ⟨⟨fun j hj => ?_, hcm, (w.sta i).used, st, .inr rfl, hst, .inr (.inr (hauth ha')), ?_⟩,
      ?_⟩
    · simp [hj, hne]
    · rw [abs_updSta, hseen]
      simp [hi, Sta.core]
    · intro _ hb
      refine ⟨ha', ?_⟩
      simpa [hi] using hb

/-- `cleanup_sta`: what is left of the station is no longer in a handshake, unless it is a WDS
peer that the driver has dropped. -/
theorem cleanupSta_spec (reason : Nat) (driverSignal : Bool) :
    wp (cleanupSta c i reason driverSignal)
      (fun _ w' => Dropped c r i w w' ∧
        (driverSignal = false → (w'.sta i).used = true → (w'.sta i).state.busy = false))
      (fun _ _ => False) w := by
  have hself : w.sta = Function.update w.sta i { w.sta i with state := (w.sta i).state } :=
    (Function.update_eq_self i w.sta).symm
  have hput : abs r w = (abs r w).put i { (w.sta i).core with state := (w.sta i).state } [] :=
    (Abs.put_self (abs r w) i).symm
  have hbusy : ∀ {auth : Bool} {st : WpaState} {w' : World}, (auth = false ∨ st.busy = false) →
      ((w'.sta i).used = true → (w'.sta i).state.busy = true → auth = true ∧ st.busy = true) →
      (w'.sta i).used = true → (w'.sta i).state.busy = false := by
    intro auth st w' hno h hu
    by_contra hb
    obtain ⟨h1, h2⟩ := h hu (by simpa using hb)
    rcases hno with hno | hno
    · rw [hno] at h1; cases h1
    · rw [hno] at h2; cases h2
  simp only [cleanupSta, wp_bind, wp_ite, wp_modSta, wp_getSta]
  cases hauth : (c.cfg.wds && decide (c.cfg.role = .authenticator)) with
  | true =>
      have hwds : c.cfg.wds = true := by
        simp only [Bool.and_eq_true] at hauth
        exact hauth.1
      cases driverSignal with
      | true =>
          simp only [Bool.not_true, Bool.and_false, Bool.false_eq_true, false_implies, true_and,
            not_false_eq_true, true_implies]
          refine wp_mono (cleanupTail_spec c r w i _ (fun _ => hwds) (.inl rfl) hself rfl hput)
            (fun _ w' h => ⟨h.1, (by rintro ⟨⟩)⟩) (fun _ _ h => h)
      | false =>
          simp only [Bool.not_false, Bool.and_true, Bool.not_true, Bool.and_false,
            not_true_eq_false, Bool.false_eq_true, false_implies, true_and, and_true,
            not_false_eq_true, true_implies]
          refine wp_mono (cleanupTail_spec c r w i .disconnected (fun _ => hwds) (.inr rfl)
            rfl rfl ?_) (fun _ w' h => ⟨h.1, hbusy (.inr rfl) h.2⟩) (fun _ _ h => h)
          rw [abs_updSta]
          rfl
  | false =>
      cases driverSignal with
      | true =>
          simp only [Bool.not_true, Bool.and_false, Bool.false_eq_true, false_implies, true_and,
            not_false_eq_true, true_implies, Bool.false_and]
          refine wp_mono (cleanupTail_spec c r w i _ (by rintro ⟨⟩) (.inl rfl) hself rfl hput)
            (fun _ w' h => ⟨h.1, (by rintro ⟨⟩)⟩) (fun _ _ h => h)
      | false =>
          simp only [Bool.not_false, Bool.and_true, not_true_eq_false, Bool.false_eq_true,
            false_implies, true_and, and_true, not_false_eq_true, true_implies]
          refine wp_of_quiet (nasDeauthenticate_quiet c r w _ _) (fun _ w1 hq => ?_)
          refine wp_mono (cleanupTail_spec c r w i _ (by rintro ⟨⟩) (.inl rfl) (hq.sta.trans hself)
            hq.countermeasures (hq.seen.trans hput))
            (fun _ w' h => ⟨h.1, hbusy (.inl rfl) h.2⟩) (fun _ _ h => h)

theorem cleanupSta_sim {A : Abs} (reason : Nat) (driverSignal : Bool)
    (hA : Loose c ev w0 A r i w) :
    wp (cleanupSta c i reason driverSignal)
      (fun _ w' => Reach c ev w0 A (abs r w')
        ∧ (w'.sta i).td = none ∧ (w'.sta i).retxExceedHndlr = false) (Stops c ev w0 A) w := by
  refine wp_mono (cleanupSta_spec c r w i reason driverSignal) (fun _ w' h => ⟨?_, h.1.timer⟩)
    (fun _ _ h => h.elim)
  obtain ⟨used, state, hused, hstate, hkept, hseen⟩ := h.1.seen
  refine hA.move _ _ hseen (fun a td hndlr ha _ => ?_)
  have hdrop : Move c ev w0 a i _ _ :=
    .drop used state (by rw [ha]; exact hused) (by rw [ha]; exact hstate) hkept
  rwa [ha] at hdrop

end Station

/-! ## Finding a station -/

/-- What `lookup_sta` returns: nothing, the slot in which the station was, or a slot that has
been initialised for it. -/
inductive Looked (c : Ctx) (ev : Event) (w0 : World) (r : Bool) (ea : Bytes) (w : World) :
    Option Slot → World → Prop
  | none : Looked c ev w0 r ea w none w
  | old (i : Slot) (hfind : w.find ea = some i) :
      Looked c ev w0 r ea w (some i) (w.updSta i fun s => { s with lastUse := w.now })
  | new (i : Slot) (w' : World) (hfind : w.find ea = Option.none)
      (hfound : w'.find ea = some i)
      (hsta : w'.sta i = newSta c ea w.now)
      (hframes : framesSince i (abs r w').log = [])
      (hcm : w'.micCountermeasures = w.micCountermeasures)
      (hreach : Reach c ev w0 (abs r w) (abs r w')) :
      Looked c ev w0 r ea w (some i) w'

section Lookup

variable (c ev w0) (r : Bool) (w : World)

theorem enterSta_spec (ea : Bytes) (now : Nat) (i : Slot) : wp (enterSta c ea now i)
    (fun _ w' => w'.find ea = some i ∧ w'.sta i = newSta c ea now
      ∧ framesSince i (abs r w').log = []
      ∧ w'.micCountermeasures = w.micCountermeasures ∧ Reach c ev w0 (abs r w) (abs r w'))
    (fun _ _ => False) w := by
  simp only [enterSta, wp_bind, wp_modSta, wp_ite, wp_modify, wp_emit]
  have hinit : ∀ w1 : World, abs r w1 = (abs r w).put i (newSta c ea now).core [] →
      Reach c ev w0 (abs r w) (abs r (w1.out (.init i ea))) := by
    intro w1 h
    refine reach_move i .refl (.init ea now) ?_
    rw [abs_out_of_visible rfl, h]
    rfl
  have hframes : ∀ w1 : World, framesSince i (abs r (w1.out (.init i ea))).log = [] := by
    intro w1
    rw [abs_out_of_visible rfl]
    simp [framesSince]
  have hfound : ∀ w1 : World, (w1.sta i).ea = ea →
      w1.staHashed (paeHash ea) = i :: w.staHashed (paeHash ea) →
      w1.find ea = some i := by
    intro w1 hea hchain
    rw [World.find, hchain]
    simp [hea]
  have hnew : (newSta c ea now).ea = ea := by
    obtain ⟨mode, wsec, state, _, _, hcore⟩ := newSta_core c ea now
    exact congrArg Core.ea hcore
  refine ⟨fun hrole => ⟨?_, ?_, hframes _, rfl, ?_⟩, fun _ => ⟨?_, ?_, hframes _, rfl, ?_⟩⟩
  · refine hfound _ ?_ ?_
    · simp [World.out, World.setChain, hnew]
    · simp [World.out, World.setChain, World.updSta]
  · simp [World.out, World.setChain]
  · refine (hinit (w.updSta i fun _ => newSta c ea now) (abs_updSta r w i _)).tail ?_
    refine .supplicant _ hrole ?_ (fun j => .inl ?_)
    · rw [abs_out_of_visible rfl, abs_out_of_visible rfl]
      rfl
    · exact le_refl _
  · refine hfound _ ?_ ?_
    · simp [World.out, World.setChain, hnew]
    · simp [World.out, World.setChain, World.updSta]
  · simp [World.out, World.setChain]
  · refine hinit _ ?_
    rw [abs_setChain, abs_updSta]

theorem lookupSta_spec (ea : Bytes) (enter : Bool) : wp (lookupSta c ea enter)
    (fun x w' => Looked c ev w0 r ea w x w' ∧
      (enter = false → ∀ i, x = some i → w.find ea = some i))
    (fun _ _ => False) w := by
  simp only [lookupSta, wp_bind, wp_get]
  split
  · rename_i i hfind
    exact ⟨.old i hfind, fun _ j hj => by rw [← hj]; exact hfind⟩
  · rename_i hfind
    simp only [wp_ite, wp_pure]
    refine ⟨fun _ => ⟨.none, (by intros; contradiction)⟩, fun henter => ?_⟩
    have henter' : enter = true := by simpa using henter
    split
    · exact ⟨.none, (by intros; contradiction)⟩
    · rename_i i evict _
      have hno : enter = false → ∀ j, some i = some j → w.find ea = some j := by
        intro h
        rw [henter'] at h
        cases h
      simp only [wp_ite, wp_bind, wp_pure]
      refine ⟨fun _ => ?_, fun _ => ?_⟩
      · refine wp_mono (tossSta_spec c r w i dot11RcBusy false) (fun _ w1 h1 => ?_)
          (fun _ _ h => h.elim)
        refine wp_mono (enterSta_spec c ev w0 r w1 ea w.now i) (fun _ w2 h2 => ?_)
          (fun _ _ h => h)
        obtain ⟨hfound, hsta, hframes, hcm, hreach⟩ := h2
        refine ⟨.new i w2 hfind hfound hsta hframes (hcm.trans h1.2.1) ?_, hno⟩
        refine Relation.ReflTransGen.trans ?_ hreach
        exact reach_move i .refl (.drop false _ (.inl rfl) (.inl rfl) (.inl rfl)) h1.2.2
      · refine wp_mono (enterSta_spec c ev w0 r w ea w.now i) (fun _ w2 h2 => ?_)
          (fun _ _ h => h)
        obtain ⟨hfound, hsta, hframes, hcm, hreach⟩ := h2
        exact ⟨.new i w2 hfind hfound hsta hframes hcm hreach, hno⟩

end Lookup

/-! ## The port entity -/

/-- Only the port entity of the station in slot `i` changes, which the automaton does not see. -/
structure PaeOnly (r : Bool) (i : Slot) (w w' : World) : Prop where
  sta : ∃ pae rxauths txWhen authWhile quietWhile, w'.sta = Function.update w.sta i
    { w.sta i with
      pae := pae, rxauths := rxauths, txWhen := txWhen, authWhile := authWhile,
      quietWhile := quietWhile }
  hashed : w'.staHashed = w.staHashed
  countermeasures : w'.micCountermeasures = w.micCountermeasures
  seen : abs r w' = abs r w

theorem PaeOnly.refl (r : Bool) (i : Slot) (w : World) : PaeOnly r i w w :=
  ⟨⟨_, _, _, _, _, (Function.update_eq_self i w.sta).symm⟩, rfl, rfl, rfl⟩

theorem PaeOnly.trans {r : Bool} {i : Slot} {w w' w'' : World} (h : PaeOnly r i w w')
    (h' : PaeOnly r i w' w'') : PaeOnly r i w w'' := by
  obtain ⟨p, x, t, a, q, hs⟩ := h.sta
  obtain ⟨p', x', t', a', q', hs'⟩ := h'.sta
  refine ⟨⟨p', x', t', a', q', ?_⟩, h'.hashed.trans h.hashed,
    h'.countermeasures.trans h.countermeasures, h'.seen.trans h.seen⟩
  rw [hs', hs]
  simp

theorem PaeOnly.upd {r : Bool} {i : Slot} {w : World} {f : Sta → Sta}
    (h : ∃ pae rxauths txWhen authWhile quietWhile, f (w.sta i) = { w.sta i with
      pae := pae, rxauths := rxauths, txWhen := txWhen, authWhile := authWhile,
      quietWhile := quietWhile }) : PaeOnly r i w (w.updSta i f) := by
  obtain ⟨p, x, t, a, q, hf⟩ := h
  refine ⟨⟨p, x, t, a, q, ?_⟩, rfl, rfl, abs_updSta_of_core (by rw [hf]; rfl)⟩
  rw [World.updSta, hf]

theorem PaeOnly.out {r : Bool} {i : Slot} {w w' : World} {o : Out} (h : PaeOnly r i w w')
    (ho : o.visible = false) : PaeOnly r i w (w'.out o) :=
  ⟨h.sta, h.hashed, h.countermeasures, (abs_out_of_not_visible ho).trans h.seen⟩

section Pae

variable (c ev w0) (r : Bool) (w : World) (i : Slot)

theorem eapolCanned_spec (code type : UInt8) :
    wp (eapolCanned i code type) (fun _ w' => PaeOnly r i w w') (fun _ _ => False) w := by
  simp only [eapolCanned, wp_bind, wp_getSta, wp_emit]
  exact PaeOnly.out (.refl r i w) rfl

theorem pae_around {f g : Sta → Sta} {code type : UInt8}
    (hf : ∀ s, ∃ pae rxauths txWhen authWhile quietWhile, f s = { s with
      pae := pae, rxauths := rxauths, txWhen := txWhen, authWhile := authWhile,
      quietWhile := quietWhile })
    (hg : ∀ s, ∃ pae rxauths txWhen authWhile quietWhile, g s = { s with
      pae := pae, rxauths := rxauths, txWhen := txWhen, authWhile := authWhile,
      quietWhile := quietWhile }) :
    wp (do
      modSta i f
      eapolCanned i code type
      modSta i g) (fun _ w' => PaeOnly r i w w') (fun _ _ => False) w := by
  simp only [wp_bind, wp_modSta]
  refine wp_mono (eapolCanned_spec r _ i code type) (fun _ w1 h => ?_) (fun _ _ h => h)
  exact (PaeOnly.upd (hf _)).trans (h.trans (PaeOnly.upd (hg _)))

theorem paeConnecting_spec :
    wp (paeConnecting i) (fun _ w' => PaeOnly r i w w') (fun _ _ => False) w :=
  pae_around r w i (fun _ => ⟨_, _, _, _, _, rfl⟩) (fun _ => ⟨_, _, _, _, _, rfl⟩)

theorem paeState_spec (st : PaeState) :
    wp (paeState i st) (fun _ w' => PaeOnly r i w w') (fun _ _ => False) w := by
  cases st with
  | authenticated =>
      exact pae_around r w i (fun _ => ⟨_, _, _, _, _, rfl⟩) (fun _ => ⟨_, _, _, _, _, rfl⟩)
  | held => exact pae_around r w i (fun _ => ⟨_, _, _, _, _, rfl⟩) (fun _ => ⟨_, _, _, _, _, rfl⟩)
  | aborting => exact PaeOnly.upd ⟨_, _, _, _, _, rfl⟩
  | connecting => exact paeConnecting_spec r w i
  | authenticating => exact PaeOnly.upd ⟨_, _, _, _, _, rfl⟩
  | initialise => exact PaeOnly.upd ⟨_, _, _, _, _, rfl⟩
  | disconnected =>
      simp only [paeState, wp_bind, wp_modSta]
      refine wp_mono (eapolCanned_spec r _ i _ _) (fun _ w1 h => ?_) (fun _ _ h => h)
      have h1 := (PaeOnly.upd ⟨_, _, _, _, _, rfl⟩).trans h
      refine wp_mono (paeConnecting_spec r _ i) (fun _ w2 h2 => ?_) (fun _ _ h => h)
      exact h1.trans (PaeOnly.trans (PaeOnly.upd ⟨_, _, _, _, _, rfl⟩) h2)

variable {A : Abs} (hA : Reach c ev w0 A (abs r w))

include hA

theorem eapolStartCase_sim : wp (eapolStartCase i)
    (fun _ w' => Reach c ev w0 A (abs r w')) (Stops c ev w0 A) w := by
  have hend : ∀ w1, abs r w1 = abs r w → wp (do
      paeState i .connecting
      modSta i fun s => { s with state := .ptkstart, retryState := .ptkstart })
      (fun _ w' => Reach c ev w0 A (abs r w')) (Stops c ev w0 A) w1 := by
    intro w1 h1
    rw [wp_bind]
    refine wp_mono (paeState_spec r w1 i .connecting) (fun _ w2 h2 => ?_) (fun _ _ h => h.elim)
    refine reach_move i hA .start ?_
    rw [abs_updSta, h2.seen, h1, abs_sta, ← abs_sta r w i, ← h1, ← h2.seen]
    rfl
  simp only [eapolStartCase, wp_bind, wp_modSta, wp_getSta, wp_ite]
  simp only [wp_bind, wp_modSta] at hend
  refine ⟨fun _ => ?_, fun _ => ?_⟩
  · refine wp_mono (paeState_spec r _ i .aborting) (fun _ w1 h1 => ?_) (fun _ _ h => h.elim)
    exact hend w1 (h1.seen.trans (abs_updSta_of_core rfl))
  · exact hend _ (abs_updSta_of_core rfl)

/-- `send_identity_req` is an EAPOL-Start of the station, which is looked up again. -/
theorem sendIdentityReq_sim : wp (sendIdentityReq c i)
    (fun _ w' => Reach c ev w0 A (abs r w')) (Stops c ev w0 A) w := by
  simp only [sendIdentityReq, wp_bind, wp_getSta]
  refine wp_mono (lookupSta_spec c ev w0 r w _ true) (fun x w1 h => ?_) (fun _ _ h => h.elim)
  have h1 : Reach c ev w0 A (abs r w1) := by
    cases h.1 with
    | none => exact hA
    | old j hfind => rwa [abs_updSta_of_core rfl]
    | new j w' hfind hfound hsta hframes hcm hreach => exact hA.trans hreach
  cases x with
  | none => exact h1
  | some j =>
      simp only [wp_bind, wp_getSta, wp_ite, wp_pure, wp_modSta]
      refine ⟨fun _ => h1, fun _ => ⟨fun _ => h1, fun _ => ?_⟩⟩
      refine eapolStartCase_sim c ev w0 r _ j ?_
      rwa [abs_updSta_of_core rfl]

end Pae

end BroadcomWl.Nas
