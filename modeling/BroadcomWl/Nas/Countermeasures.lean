import BroadcomWl.Nas.EffectsStep
import BroadcomWl.Nas.RetxTimer

/-!
# TKIP countermeasures

Two MIC failures within a minute make the authenticator take countermeasures. `wpa_mic_error`
remembers when the last report came in `prev_MIC_error`, which is zero before the first one, and
`MIC_failures` is incremented before it is tested; so a first report in the first minute of the
clock is taken for a second one.

**`countermeasures_justified`.** In every run in which the first report comes later than that,
countermeasures begin only at a report that follows another one in less than a minute.
-/

namespace BroadcomWl.Nas

open BroadcomWl.Lib Relation

/-! ## Reports -/

/-- The first report that is not prohibited does not come in the first minute of the clock. -/
def FirstReportLate (c : Ctx) (w : World) (e : Nat × Event) : Prop :=
  w.micFailures = 0 → micReports c w e.2 → 60 ≤ e.1

instance (c : Ctx) (w : World) (ev : Event) : Decidable (micReports c w ev) := by
  apply @Event.casesOn (fun ev => Decidable (micReports c w ev)) ev
  all_goals
    intros
    dsimp only [micReports, frameReports, driverReports]
    infer_instance

instance (c : Ctx) (w : World) (e : Nat × Event) : Decidable (FirstReportLate c w e) := by
  unfold FirstReportLate
  infer_instance

/-- Countermeasures begin in this step. -/
def Triggers (c : Ctx) (w : World) (e : Nat × Event) : Prop :=
  w.micCountermeasures = false ∧ (step c w e).micCountermeasures = true

/-- Wherever countermeasures begin in the run, there is a report that is not prohibited, and it
follows another one in less than 60 seconds. -/
def CountermeasuresJustified (c : Ctx) (es : List (Nat × Event)) : Prop :=
  ∀ pre e post, es = pre ++ e :: post → Triggers c (run (step c) (initWorld c) pre) e →
    micReports c (run (step c) (initWorld c) pre) e.2
      ∧ ∃ pre' e' post', pre = pre' ++ e' :: post'
        ∧ micReports c (run (step c) (initWorld c) pre') e'.2 ∧ e'.1 ≤ e.1 ∧ e.1 < e'.1 + 60

/-! ## One step -/

/-- What a step does to what is known about MIC failures. -/
inductive MicStep (c : Ctx) (w : World) (e : Nat × Event) (w' : World) : Prop
  | calm (hn : w'.micFailures = w.micFailures) (hp : w'.prevMicError = w.prevMicError)
      (hcm : w'.micCountermeasures = true → w.micCountermeasures = true)
  | report (hm : micReports c w e.2) (hn : w'.micFailures = w.micFailures + 1)
      (hp : w'.prevMicError = e.1)
      (hcm : w.micCountermeasures = false → w'.micCountermeasures = true →
        (e.1 : Int) - w.prevMicError < 60)

variable {c : Ctx} {g : Grant} {w w' : World}

/-- What no effect changes. -/
structure MicSame (w w' : World) : Prop where
  failures : w'.micFailures = w.micFailures
  prev : w'.prevMicError = w.prevMicError
  countermeasures : w'.micCountermeasures = w.micCountermeasures
  now : w'.now = w.now

theorem MicSame.trans {w'' : World} (h : MicSame w w') (h' : MicSame w' w'') : MicSame w w'' :=
  ⟨h'.failures.trans h.failures, h'.prev.trans h.prev, h'.countermeasures.trans h.countermeasures,
    h'.now.trans h.now⟩

theorem Effect.micSame (h : Effect c g w w') : MicSame w w' := by
  cases h with
  | aside ha => exact ⟨ha.micFailures, ha.prevMicError, ha.micCountermeasures, ha.now⟩
  | draw i hport hdesc hnonce =>
      have h := drawn_undrawn (c := c) (some i) w
      exact ⟨h.micFailures, h.prevMicError, h.micCountermeasures, h.now⟩
  | drawGroup =>
      have h := drawn_undrawn (c := c) none { w with gnonce := w.globalKeyCounter }
      exact ⟨h.micFailures, h.prevMicError, h.micCountermeasures, h.now⟩
  | enter i ea now ha => exact ⟨ha.micFailures, ha.prevMicError, ha.micCountermeasures, ha.now⟩
  | _ => exact ⟨rfl, rfl, rfl, rfl⟩

theorem Effects.micSame (h : Effects c g w w') : MicSame w w' :=
  reach_invariant (I := MicSame w) (fun _ _ ha hab => ha.trans hab.micSame) h ⟨rfl, rfl, rfl, rfl⟩

theorem step_mic (w : World) (e : Nat × Event) : MicStep c w e (step c w e) := by
  cases hlive : w.halted with
  | true =>
      rw [step, if_pos hlive]
      exact .calm rfl rfl id
  | false =>
      rcases step_changes (t := e.1) hlive (Grants.all c w e.2) with hch | ⟨-, he⟩
      · cases hch with
        | calm he =>
            have h := Effects.micSame he
            exact .calm h.failures h.prev (fun hcm => by rwa [← h.countermeasures])
        | mic hm he hmic he' =>
            have h := Effects.micSame he
            have h' := Effects.micSame he'
            cases hmic with
            | report =>
                refine .report hm (h'.failures.trans (congrArg (· + 1) h.failures))
                  (h'.prev.trans h.now) (fun hoff hon => ?_)
                rw [h'.countermeasures] at hon
                exact absurd (hoff.symm.trans (h.countermeasures.symm.trans hon)) Bool.false_ne_true
            | trigger hrole hcm hrecent =>
                refine .report hm (h'.failures.trans (congrArg (· + 1) h.failures))
                  (h'.prev.trans h.now) (fun _ _ => ?_)
                rw [h.now, h.prev] at hrecent
                exact hrecent
      · have h := Effects.micSame he
        refine .calm h.failures h.prev (fun hcm => ?_)
        rw [h.countermeasures] at hcm
        cases hcm

/-! ## Runs -/

/-- The last report of a run, if there was one, was at the time that is remembered. -/
def LastReport (c : Ctx) (pre : List (Nat × Event)) : Prop :=
  let w := run (step c) (initWorld c) pre
  (w.micFailures = 0 ∧ w.prevMicError = 0)
    ∨ (0 < w.micFailures ∧ ∃ pre' e' post', pre = pre' ++ e' :: post'
      ∧ micReports c (run (step c) (initWorld c) pre') e'.2 ∧ w.prevMicError = e'.1)

theorem lastReport (c : Ctx) (pre : List (Nat × Event)) : LastReport c pre := by
  induction pre using List.reverseRecOn with
  | nil =>
      obtain ⟨hboot, he⟩ := initWorld_effects c .all
      have h := Effects.micSame he
      exact .inl ⟨h.failures.trans hboot.micFailures, h.prev.trans hboot.prevMicError⟩
  | append_singleton pre e ih =>
      have hrun : run (step c) (initWorld c) (pre ++ [e]) =
          step c (run (step c) (initWorld c) pre) e :=
        run_append _ _ _ _
      unfold LastReport
      rw [hrun]
      cases step_mic (c := c) (run (step c) (initWorld c) pre) e with
      | calm hn hp hcm =>
          rcases ih with ⟨hn0, hp0⟩ | ⟨hpos, pre', e', post', hpre, hm, hp'⟩
          · exact .inl ⟨hn.trans hn0, hp.trans hp0⟩
          · refine .inr ⟨hpos.trans_eq hn.symm, pre', e', post' ++ [e], ?_, hm, hp.trans hp'⟩
            rw [hpre]
            simp
      | report hm hn hp hcm =>
          exact .inr ⟨(Nat.succ_pos _).trans_eq hn.symm, pre, e, [], rfl, hm, hp⟩

/-- **Countermeasures are justified**, if the first report does not come in the first minute. -/
theorem countermeasures_justified (c : Ctx) (es : List (Nat × Event))
    (hclock : es.Pairwise fun a b => a.1 ≤ b.1)
    (h : Along (step c) (FirstReportLate c) (initWorld c) es) : CountermeasuresJustified c es := by
  intro pre e post hes htrigger
  subst hes
  have hlate := h.middle
  cases step_mic (c := c) (run (step c) (initWorld c) pre) e with
  | calm hn hp hcm => exact absurd (htrigger.1.symm.trans (hcm htrigger.2)) Bool.false_ne_true
  | report hm hn hp hcm =>
      have hrecent := hcm htrigger.1 htrigger.2
      refine ⟨hm, ?_⟩
      rcases lastReport c pre with ⟨hn0, hp0⟩ | ⟨hpos, pre', e', post', hpre, hm', hp'⟩
      · have := hlate hn0 hm
        rw [hp0] at hrecent
        omega
      · refine ⟨pre', e', post', hpre, hm', ?_, ?_⟩
        · subst hpre
          rw [List.append_assoc, List.pairwise_append] at hclock
          refine (List.rel_of_pairwise_cons hclock.2.1 ?_)
          simp
        · rw [hp'] at hrecent
          omega

/-! ## Examples -/

/-- The driver reports a MIC failure of the station `02:00:00:00:00:09`. -/
def micErrorMsg : Event := .micError ⟨[2, 0, 0, 0, 0, 9], [2, 0, 0, 0, 0, 9], 0, fun _ => 0, 0⟩

/-- A station associates, and the driver reports MIC failures of it at these times. -/
def failuresAt (ts : List Nat) : List (Nat × Event) :=
  (1, .assoc (assocMsg wpaElement)) :: ts.map fun t => (t, micErrorMsg)

set_option maxRecDepth 100000 in
theorem countermeasures_justified_twice :
    CountermeasuresJustified wpaContext (failuresAt [100, 130]) := by
  have h : Along (step wpaContext) (FirstReportLate wpaContext) (initWorld wpaContext)
      (failuresAt [100, 130]) := by
    decide +kernel
  exact countermeasures_justified wpaContext _ (by decide) h

set_option maxRecDepth 100000 in
/-- **A single report**, half a minute after the start of the clock, begins countermeasures. -/
theorem first_failure_triggers :
    ¬∀ (c : Ctx) (es : List (Nat × Event)), c.cfg.role = .authenticator →
    (es.Pairwise fun a b => a.1 ≤ b.1) → CountermeasuresJustified c es := by
  intro h
  have htrigger : Triggers wpaContext (run (step wpaContext) (initWorld wpaContext) (failuresAt []))
      (30, micErrorMsg) := by
    unfold Triggers
    decide +kernel
  obtain ⟨-, pre', e', post', hpre, hm, -, -⟩ := h wpaContext (failuresAt [30]) rfl (by decide)
    (failuresAt []) (30, micErrorMsg) [] rfl htrigger
  obtain ⟨rfl, hcons⟩ | ⟨x, hpre', hnil⟩ := List.cons_eq_append_iff.mp hpre
  · obtain ⟨rfl, -⟩ := List.cons.inj hcons
    exact hm
  · simp at hnil

end BroadcomWl.Nas
