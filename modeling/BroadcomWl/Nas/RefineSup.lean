import BroadcomWl.Nas.RefineFrame

/-!
# Refinement: the supplicant

The automaton says of a supplicant only that it saves no elements by itself. So every function
of `BroadcomWl.Nas.Supplicant` keeps the reachable states, by the rules of `Keeps`.
-/

namespace BroadcomWl.Nas

open BroadcomWl.Lib Relation

section Sup

variable {c : Ctx} {ev : Event} {w0 : World} {A : Abs}

/-- A function of an instance that is a supplicant keeps to steps of the automaton. -/
abbrev SupKeeps (c : Ctx) (ev : Event) (w0 : World) (A : Abs) {α : Type} (m : NasM α) : Prop :=
  Keeps (fun w => Reach c ev w0 A (abs false w)) (Stops c ev w0 A) m

variable (hrole : c.cfg.role = .supplicant)

include hrole

theorem supKeeps_modify {f : World → World} (hlog : ∀ w, (f w).log = w.log)
    (hie : ∀ w j, ((f w).sta j).assocWpaie = (w.sta j).assocWpaie) :
    SupKeeps c ev w0 A (modify f) := by
  refine .modifyState (fun w hA => reach_supplicant c ev w0 false w hA hrole ?_ (fun j => .inl ?_))
  · simp only [abs, hlog]
  · rw [hie]

theorem supKeeps_modSta {f : Sta → Sta} (i : Slot) (h : ∀ s, (f s).assocWpaie = s.assocWpaie) :
    SupKeeps c ev w0 A (modSta i f) := by
  refine supKeeps_modify hrole (fun _ => rfl) (fun w j => ?_)
  by_cases hj : j = i
  · subst hj
    rw [World.updSta_same, h]
  · rw [World.updSta_ne w hj]

theorem supKeeps_emit {o : Out} (h : o.isSave = false) : SupKeeps c ev w0 A (emit o) := by
  intro w hA
  refine reach_supplicant c ev w0 false w hA hrole ?_ (fun j => .inl (le_refl _))
  rw [abs_out]
  split
  · simp [h]
  · rfl

omit hrole in
theorem supKeeps_oracle {α : Type} (answers : Nat → α) : SupKeeps c ev w0 A (oracle answers) := by
  intro w hA
  exact hA

omit hrole in
theorem supKeeps_throw {α : Type} (e : Stop) : SupKeeps c ev w0 A (throw e : NasM α) :=
  .throw (fun _ hA => .of_abs hA)

omit hrole in
theorem supKeeps_getSta (i : Slot) : SupKeeps c ev w0 A (getSta i) := fun _ h => h

theorem supKeeps_wpaSendEapol (i : Slot) : SupKeeps c ev w0 A (wpaSendEapol c i) := by
  intro w hA
  cases hs : (w.sta i).state.sends with
  | true =>
      refine wp_mono (wpaSendEapol_sends c ev w0 false w i _ rfl hs) (fun b w' h => ?_)
        (fun _ w' h => .of_abs (h.reach_abs hA))
      obtain ⟨_, _, w1, k, hg, _, _, hg'⟩ := h
      refine hg'.reach_abs ?_
      refine reach_supplicant c ev w0 false w1 (hg.reach_abs hA) hrole ?_
        (fun j => .inl (le_refl _))
      rw [abs_out_send]
      rfl
  | false =>
      refine wp_mono (wpaSendEapol_other c false w i hs) (fun b w' h => ?_) (fun _ _ h => h.elim)
      rcases h with ⟨_, hseen⟩ | ⟨_, k, _, hseen⟩
      · rwa [hseen]
      · rw [hseen]
        exact hA.tail (.supplicant _ hrole rfl (fun j => .inl (le_refl _)))

theorem supKeeps_wpaPlumbGtk (tx : Bool) : SupKeeps c ev w0 A (wpaPlumbGtk c tx) := by
  intro w hA
  have hstep : ∀ w', Plumbs c false tx w w' → Reach c ev w0 A (abs false w') := by
    intro w' h
    obtain ⟨n, rsc, hseen⟩ := h.seen
    rw [hseen]
    exact hA.tail (.supplicant _ hrole rfl (fun j => .inl (le_refl _)))
  exact wp_mono (wpaPlumbGtk_spec c false w tx) (fun _ w' h => hstep w' h)
    (fun _ w' h => .of_abs (hstep w' h))

theorem supKeeps_nasSetKey (a : KeyArgs) : SupKeeps c ev w0 A (nasSetKey c a) :=
  .bind (supKeeps_oracle _) fun _ => .bind (supKeeps_emit hrole rfl) fun _ => .pure _

theorem supKeeps_nasDeauthenticate (ea : Bytes) (reason : Nat) :
    SupKeeps c ev w0 A (nasDeauthenticate c ea reason) :=
  .bind (supKeeps_nasSetKey hrole _) fun _ => supKeeps_emit hrole rfl

omit hrole in
theorem supKeeps_cleanupSta (i : Slot) (reason : Nat) (driverSignal : Bool) :
    SupKeeps c ev w0 A (cleanupSta c i reason driverSignal) :=
  fun w hA => wp_mono (cleanupSta_sim c ev w0 false w i reason driverSignal (.of_reach hA i))
    (fun _ _ h => h.1) (fun _ _ h => h)

omit hrole in
theorem supKeeps_aesUnwrap (key input : Bytes) : SupKeeps c ev w0 A (aesUnwrap c key input) := by
  unfold aesUnwrap
  exact .ifThen (supKeeps_throw _) fun _ => .pure _

omit hrole in
theorem supKeeps_wpaDecrKeyData (s : Sta) (f : Frame) :
    SupKeeps c ev w0 A (wpaDecrKeyData c s f) := by
  unfold wpaDecrKeyData
  exact .ite (.pure _) (.ite (.bind (supKeeps_aesUnwrap _ _) fun _ => .pure _) (.pure _))

theorem supKeeps_wpaExtractGtk (f : Frame) : SupKeeps c ev w0 A (wpaExtractGtk f) := by
  unfold wpaExtractGtk
  split
  · exact .pure _
  · refine .ite (.pure _) (.bind (supKeeps_modify hrole (fun _ => rfl) (fun _ _ => rfl)) fun _ =>
      ?_)
    exact .ite (.pure _) (.bind (supKeeps_modify hrole (fun _ => rfl) (fun _ _ => rfl))
      fun _ => .pure _)

theorem supKeeps_wpaDecrGtk (s : Sta) (f : Frame) : SupKeeps c ev w0 A (wpaDecrGtk c s f) := by
  have hmod : ∀ g : World → World, (∀ w, (g w).log = w.log) → (∀ w, (g w).sta = w.sta) →
      SupKeeps c ev w0 A (do modify g; return true) :=
    fun g hl hs => .bind (supKeeps_modify hrole hl fun w j => by rw [hs]) fun _ => .pure _
  unfold wpaDecrGtk
  refine .bind (supKeeps_modify hrole (fun _ => rfl) (fun _ _ => rfl)) fun _ => .ite ?_ (.ite ?_ ?_)
  · exact .ifThen (supKeeps_throw _) fun _ => hmod _ (fun _ => rfl) (fun _ => rfl)
  · refine .bind (supKeeps_aesUnwrap _ _) fun x => ?_
    cases x with
    | none => exact .pure _
    | some key => exact .ifThen (supKeeps_throw _) fun _ => hmod _ (fun _ => rfl) (fun _ => rfl)
  · exact .pure _

omit hrole in
theorem supKeeps_tempGtk : SupKeeps c ev w0 A tempGtk := by
  unfold tempGtk
  exact .bind .get fun _ => .ifThen (supKeeps_throw _) fun _ => .pure _

omit hrole in
theorem supKeeps_gtkChanged (old : Bytes) : SupKeeps c ev w0 A (gtkChanged old) := by
  unfold gtkChanged
  exact .bind .get fun _ => .ifThen (supKeeps_throw _) fun _ => .pure _

theorem supKeeps_supExtractGtk (f : Frame) : SupKeeps c ev w0 A (supExtractGtk f) := by
  unfold supExtractGtk
  exact .bind supKeeps_tempGtk fun _ => .bind (supKeeps_wpaExtractGtk hrole f) fun _ =>
    .ite (.pure _) (.bind (supKeeps_gtkChanged _) fun _ => .pure _)

theorem supKeeps_supInstallChecks (i : Slot) (f : Frame) :
    SupKeeps c ev w0 A (supInstallChecks i f) := by
  unfold supInstallChecks
  refine .bind (supKeeps_getSta i) fun s => .ite (.pure _) (.ite ?_ (.ite (.pure _) (.pure _)))
  refine .bind (supKeeps_supExtractGtk hrole f) fun x => ?_
  cases x with
  | none => exact .pure _
  | some update => exact .pure _

theorem supKeeps_wpaCalcPtk (i : Slot) : SupKeeps c ev w0 A (wpaCalcPtk c i) := by
  unfold wpaCalcPtk
  refine .bind (supKeeps_getSta i) fun _ => ?_
  exact .ifThen (supKeeps_throw _) fun _ => supKeeps_modSta hrole i fun _ => rfl

theorem supKeeps_supMsg1 (i : Slot) (f : Frame) : SupKeeps c ev w0 A (supMsg1 c i f) := by
  unfold supMsg1
  refine .bind (supKeeps_getSta i) fun _ => .ite ?_ (.pure _)
  exact .bind (supKeeps_modSta hrole i fun _ => rfl) fun _ => supKeeps_wpaCalcPtk hrole i

theorem supKeeps_supPtkUpdate (i : Slot) (f : Frame) : SupKeeps c ev w0 A (supPtkUpdate i f) := by
  unfold supPtkUpdate
  refine .ite (.pure _) (.bind (supKeeps_getSta i) fun s => ?_)
  split
  · exact .bind (supKeeps_modSta hrole i fun _ => rfl) fun _ => .pure _
  · exact .pure _
  · exact .pure _

theorem supKeeps_supPairwiseChecks (i : Slot) (f : Frame) :
    SupKeeps c ev w0 A (supPairwiseChecks c i f) := by
  unfold supPairwiseChecks
  refine .ifElse (supKeeps_supInstallChecks hrole i f) (.pure _) fun x => ?_
  cases x with
  | error r => exact .pure _
  | ok update => exact .ifThen (supKeeps_supMsg1 hrole i f) fun _ => .pure _

theorem supKeeps_supPairwise (i : Slot) (f : Frame) (state : PkState) :
    SupKeeps c ev w0 A (supPairwise c i f state) := by
  unfold supPairwise
  refine .ifElse (supKeeps_supPairwiseChecks hrole i f) (.pure _) fun x => ?_
  cases x with
  | error r => exact .pure _
  | ok gtk =>
      refine .ifElse (supKeeps_supPtkUpdate hrole i f) (.pure _) fun y => ?_
      cases y with
      | error r => exact .pure _
      | ok ptk => exact .pure _

theorem supKeeps_supGroup (i : Slot) (f : Frame) : SupKeeps c ev w0 A (supGroup c i f) := by
  unfold supGroup
  refine .bind (supKeeps_getSta i) fun s => .ite ?_ ?_
  · refine .bind (supKeeps_supExtractGtk hrole f) fun x => ?_
    cases x with
    | none => exact .pure _
    | some update => exact .pure _
  · refine .bind supKeeps_tempGtk fun _ => .bind (supKeeps_wpaDecrGtk hrole s f) fun _ =>
      .ite (.pure _) (.bind (supKeeps_gtkChanged _) fun _ => ?_)
    exact .ite (.bind (supKeeps_wpaPlumbGtk hrole _) fun _ => .pure _) (.pure _)

theorem supKeeps_supExpected (i : Slot) (f : Frame) : SupKeeps c ev w0 A (supExpected i f) := by
  unfold supExpected
  refine .bind (supKeeps_modSta hrole i fun _ => rfl) fun _ => .ite ?_ ?_
  · exact .bind (supKeeps_modSta hrole i fun _ => rfl) fun _ => .pure _
  · exact .bind (supKeeps_getSta i) fun _ => .pure _

theorem supKeeps_supVerify (i : Slot) (f : Frame) (state : PkState) :
    SupKeeps c ev w0 A (supVerify c i f state) := by
  unfold supVerify
  refine .ite (.bind (supKeeps_supExpected hrole i f) fun _ => ?_) ?_
  · exact .ite (supKeeps_supPairwise hrole i f state) (.pure _)
  · refine .bind (supKeeps_modSta hrole i fun _ => rfl) fun _ => ?_
    exact .ite (supKeeps_supGroup hrole i f) (.pure _)

theorem supKeeps_supInstallPtk (i : Slot) : SupKeeps c ev w0 A (supInstallPtk c i) := by
  unfold supInstallPtk
  refine .bind (supKeeps_getSta i) fun _ => .bind (supKeeps_nasSetKey hrole _) fun _ => ?_
  exact .ite (supKeeps_nasDeauthenticate hrole _ _) (supKeeps_modSta hrole i fun _ => rfl)

theorem supKeeps_wpaStopRetx (i : Slot) : SupKeeps c ev w0 A (wpaStopRetx i) :=
  supKeeps_modSta hrole i fun _ => rfl

theorem supKeeps_supFinish (i : Slot) (f : Frame) (v : SupVerdict) :
    SupKeeps c ev w0 A (supFinish c i f v) := by
  unfold supFinish
  refine .ifReturn (supKeeps_wpaSendEapol hrole i) (.pure _) ?_
  refine .ifThen (supKeeps_supInstallPtk hrole i) fun _ => ?_
  refine .ifReturn (supKeeps_wpaPlumbGtk hrole _) (.pure _) ?_
  refine .ifThen (supKeeps_modSta hrole i fun _ => rfl) fun _ => .ite ?_ (.pure _)
  exact .bind (supKeeps_getSta i) fun _ => .bind (supKeeps_emit hrole rfl) fun _ =>
    .bind (supKeeps_wpaStopRetx hrole i) fun _ =>
      .bind (supKeeps_modSta hrole i fun _ => rfl) fun _ => .pure _

theorem supKeeps_eapolSupProcessKey (i : Slot) (f : Frame) :
    SupKeeps c ev w0 A (eapolSupProcessKey c i f) := by
  unfold eapolSupProcessKey
  refine .bind (supKeeps_modSta hrole i fun _ => rfl) fun _ => .bind (supKeeps_getSta i) fun s => ?_
  refine .ifElse (supKeeps_wpaDecrKeyData s f) (.pure _) fun x => ?_
  cases x with
  | none => exact .pure _
  | some f' =>
      refine .bind (supKeeps_supVerify hrole i f' _) fun y => ?_
      cases y with
      | error r => exact .pure _
      | ok v => exact supKeeps_supFinish hrole i f' v

theorem supKeeps_processSupWpa (f : Frame) (i : Slot) :
    SupKeeps c ev w0 A (processSupWpa c f i) := by
  unfold processSupWpa
  refine .bind (supKeeps_modSta hrole i fun _ => rfl) fun _ => .bind (supKeeps_getSta i) fun s => ?_
  have hkey : SupKeeps c ev w0 A (do
      wpaStopRetx i
      return decide ((← eapolSupProcessKey c i f) = .error)) :=
    .bind (supKeeps_wpaStopRetx hrole i) fun _ =>
      .bind (supKeeps_eapolSupProcessKey hrole i f) fun _ => .pure _
  cases s.state with
  | supStakeystartp => exact hkey
  | supStakeystartg => exact hkey
  | _ => exact .pure _

omit hrole in
theorem supKeeps_lookupSta (ea : Bytes) (enter : Bool) :
    SupKeeps c ev w0 A (lookupSta c ea enter) := by
  intro w hA
  refine wp_mono (lookupSta_spec c ev w0 false w ea enter) (fun x w' h => ?_) (fun _ _ h => h.elim)
  cases h.1 with
  | none => exact hA
  | old j hfind => rwa [abs_updSta_of_core rfl]
  | new j w' hfind hfound hsta hframes hcm hreach => exact hA.trans hreach

theorem supKeeps_eapolSupDispatch (f : Frame) : SupKeeps c ev w0 A (eapolSupDispatch c f) := by
  unfold eapolSupDispatch
  refine .bind (supKeeps_lookupSta _ _) fun x => ?_
  cases x with
  | none => exact .pure _
  | some i =>
      refine .bind (supKeeps_getSta i) fun s => .ite ?_ (.pure _)
      exact .bind (supKeeps_processSupWpa hrole f i) fun _ =>
        .ite (supKeeps_cleanupSta i _ _) (.pure _)

/-! ## Requests on a WDS link -/

omit hrole in
theorem supKeeps_wpaSetItimer (td : Option Nat) : SupKeeps c ev w0 A (wpaSetItimer c td) :=
  fun w hA => wp_of_quiet (wpaSetItimer_quiet c false w td) fun _ _ h => by rwa [h.seen]

theorem supKeeps_armRetx (i : Slot) : SupKeeps c ev w0 A (armRetx c i) :=
  .bind (supKeeps_getSta i) fun _ => .bind (supKeeps_wpaSetItimer _) fun _ =>
    supKeeps_modSta hrole i fun _ => rfl

theorem supKeeps_requestPkinit (i : Slot) : SupKeeps c ev w0 A (requestPkinit c i) := by
  have hie : ∀ ie : Option Bytes, (∀ x, ie = some x → x.length ≤ maxWpaIe) →
      SupKeeps c ev w0 A (modSta i fun s => { s with
        assocWpaie := ie.getD [], retryState := s.state, state := .supInitialise }) := by
    intro ie hlen w hA
    refine reach_supplicant c ev w0 false w hA hrole rfl (fun j => ?_)
    by_cases hj : j = i
    · subst hj
      refine .inr ?_
      rw [World.updSta_same]
      cases ie with
      | none => exact Nat.zero_le _
      | some x => exact hlen x rfl
    · exact .inl (le_of_eq (by simp [hj]))
  have hend : SupKeeps c ev w0 A (do
      modSta i fun s => { s with retries := 0 }
      if !(← wpaSendEapol c i) then return
      modSta i fun s => { s with retryState := s.state, state := .supAuthentication }
      armRetx c i) := by
    refine .bind (supKeeps_modSta hrole i fun _ => rfl) fun _ =>
      .bind (supKeeps_wpaSendEapol hrole i) fun _ => .ite (.pure _) ?_
    exact .bind (supKeeps_modSta hrole i fun _ => rfl) fun _ => supKeeps_armRetx hrole i
  unfold requestPkinit
  refine .bind (supKeeps_wpaStopRetx hrole i) fun _ w hA => ?_
  rw [wp_bind]
  refine wp_mono (wpaBuildIe_spec c false w _ _ _ _) (fun ie w1 hb => ?_) (fun _ _ h => h.elim)
  have hA1 : Reach c ev w0 A (abs false w1) := by rwa [hb.1.seen]
  refine Keeps.bind (hie ie (fun x hx => ?_)) (fun _ => .ite (.pure _) hend) w1 hA1
  have := hb.2.2 x hx
  have : max 52 maxWpaIe = maxWpaIe := rfl
  omega

theorem supKeeps_wpaRequest (i : Slot) : SupKeeps c ev w0 A (wpaRequest c i) := by
  unfold wpaRequest
  refine .bind (supKeeps_modSta hrole i fun _ => rfl) fun _ => .bind (supKeeps_getSta i) fun s => ?_
  refine .ifElse (supKeeps_requestPkinit hrole i) (supKeeps_wpaStopRetx hrole i) fun _ => ?_
  refine .bind (supKeeps_getSta i) fun _ => .bind (supKeeps_wpaSetItimer _) fun _ => ?_
  exact supKeeps_modSta hrole i fun _ => rfl

end Sup

end BroadcomWl.Nas
