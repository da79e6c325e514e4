import BroadcomWl.Nas.EffectsStep
import BroadcomWl.Nas.Authorize

/-!
# Authentication of RADIUS responses

`radius_dispatch` applies the attributes of a response while it walks over them, and looks at the
verdict about the Message-Authenticator afterwards. The request is given up at the end, whatever the
verdict; and the EAP success that an Accept needs is remembered in a flag of the station, so that it
may come from an earlier response.

**`responses_checked`.** In every run, no unsigned response acts and every port opens for a signed
success, exactly if no pending response is unsigned, and no pending Accept without an EAP success of
its own finds the flag set. -/

namespace BroadcomWl.Nas

open BroadcomWl.Lib Relation

/-! ## Responses -/

/-- The code of the EAP message that begins in the attribute. -/
def RadiusAttr.eapCode : RadiusAttr → Option UInt8
  | .eapMessage code _ _ => some code
  | _ => none

namespace RadiusResponse

/-- The response has a valid Message-Authenticator. -/
def signed (r : RadiusResponse) : Bool := r.attrs.contains (.messageAuthenticator true)

/-- The EAP message of the response is a success. -/
def carriesSuccess (r : RadiusResponse) : Bool :=
  r.attrs.findSome? RadiusAttr.eapCode == some eapSuccess

/-- No attribute is malformed, and no Message-Authenticator is invalid. -/
def intact (r : RadiusResponse) : Bool :=
  !r.attrs.contains .bad && !r.attrs.contains (.messageAuthenticator false)

end RadiusResponse

/-! ## The property and the condition -/

/-- Nothing that a response acts upon is changed. -/
structure Unacted (s s' : Sta) : Prop where
  state : s'.pae.state = s.pae.state
  radiusState : s'.pae.radiusState = s.pae.radiusState
  ssnto : s'.pae.ssnto = s.pae.ssnto
  eapSuccess : s'.pae.eapSuccess = s.pae.eapSuccess
  preAuth : s'.preAuth = s.preAuth
  request : s'.pae.request = s.pae.request
  pmk : s'.pmk = s.pmk
  pmkid : s'.pmkid = s.pmkid
  ptk : s'.ptk = s.ptk

theorem Unacted.refl (s : Sta) : Unacted s s := ⟨rfl, rfl, rfl, rfl, rfl, rfl, rfl, rfl, rfl⟩

/-- How often a port has been opened: `pae_state` announces it with an EAP success. -/
def World.successes (w : World) : Nat := w.log.countP Out.isSuccess

/-- A station enters `AUTHENTICATED`. -/
def Enters (c : Ctx) (w : World) (e : Nat × Event) : Prop :=
  w.successes < (step c w e).successes
    ∨ ∃ i, (w.sta i).pae.state ≠ .authenticated ∧ ((step c w e).sta i).pae.state = .authenticated

/-- An unsigned response, unless it is a Reject, does not act. -/
def UnsignedInert (c : Ctx) (w : World) (e : Nat × Event) : Prop :=
  ∀ r, e.2 = .radius r → r.code ≠ .reject → r.signed = false →
    ∀ i, Unacted (w.sta i) ((step c w e).sta i)

/-- A station enters `AUTHENTICATED` on a signed response with an EAP success. -/
def EntrySigned (c : Ctx) (w : World) (e : Nat × Event) : Prop :=
  Enters c w e → ∃ r, e.2 = .radius r ∧ r.signed = true ∧ r.carriesSuccess = true

/-- Responses are authenticated before they act. -/
structure ResponseChecked (c : Ctx) (w : World) (e : Nat × Event) : Prop where
  unsigned : UnsignedInert c w e
  entered : EntrySigned c w e

/-- A pending response is signed, unless it is a Reject; and a pending Accept has an EAP success of
its own, or no earlier response has left one. -/
def ResponseCalm (w : World) : Event → Prop
  | .radius r => w.halted = false → pending w r = true →
      (r.code ≠ .reject → r.signed = true)
        ∧ (r.code = .accept → r.intact = true → r.carriesSuccess = false →
          (w.sta r.slot).pae.eapSuccess = false)
  | _ => True

/-! ## The attribute loop -/

theorem addFragment_eap (g : Gathered) (code id : UInt8) (v : Bytes) :
    (g.addFragment code id v).eap = some (g.eap.getD (code, id)) := by
  unfold Gathered.addFragment
  dsimp only
  split <;> rfl

theorem addFragment_authenticated (g : Gathered) (code id : UInt8) (v : Bytes) :
    (g.addFragment code id v).authenticated = g.authenticated := by
  unfold Gathered.addFragment
  dsimp only
  split <;> rfl

theorem gather_isSome (code : RadiusCode) (l : List RadiusAttr) (g : Gathered) (ok : Bool) :
    (gather code l g ok).isSome =
      (!l.contains .bad && !l.contains (.messageAuthenticator false)) := by
  induction l generalizing g ok with
  | nil => rfl
  | cons a l ih =>
      cases a with
      | messageAuthenticator valid =>
          cases valid with
          | true => simpa [gather] using ih _ _
          | false => simp [gather]
      | bad => simp [gather]
      | _ => simpa [gather] using ih _ _

theorem gather_verdict (code : RadiusCode) (l : List RadiusAttr) (g : Gathered) (ok : Bool)
    {g' : Gathered} {ok' : Bool} (h : gather code l g ok = some (g', ok')) :
    g'.authenticated = (g.authenticated || l.contains (.messageAuthenticator true))
      ∧ ok' = (ok || (g.eap.isNone && l.findSome? RadiusAttr.eapCode == some eapSuccess)) := by
  induction l generalizing g ok with
  | nil =>
      cases h
      simp
  | cons a l ih =>
      cases a with
      | messageAuthenticator valid =>
          cases valid with
          | true =>
              obtain ⟨h1, h2⟩ := ih _ _ h
              simp [h1, h2, List.findSome?_cons, RadiusAttr.eapCode]
          | false => cases h
      | eapMessage first id v =>
          obtain ⟨h1, h2⟩ := ih _ _ h
          rw [addFragment_authenticated] at h1
          rw [addFragment_eap] at h2
          simp [h1, h2, List.findSome?_cons, RadiusAttr.eapCode]
      | bad => cases h
      | mppeSend plain =>
          obtain ⟨h1, h2⟩ := ih _ _ h
          by_cases hcode : code = .accept
          · simp [h1, h2, List.findSome?_cons, RadiusAttr.eapCode, hcode]
          · simp [h1, h2, List.findSome?_cons, RadiusAttr.eapCode, hcode]
      | mppeRecv plain =>
          obtain ⟨h1, h2⟩ := ih _ _ h
          by_cases hcode : code = .accept
          · simp [h1, h2, List.findSome?_cons, RadiusAttr.eapCode, hcode]
          · simp [h1, h2, List.findSome?_cons, RadiusAttr.eapCode, hcode]
      | _ =>
          obtain ⟨h1, h2⟩ := ih _ _ h
          simp [h1, h2, List.findSome?_cons, RadiusAttr.eapCode]

theorem admits_iff (w : World) (r : RadiusResponse) : admits w r = true ↔
    pending w r = true ∧ r.code = .accept ∧ r.intact = true ∧ r.signed = true
      ∧ ((w.sta r.slot).pae.eapSuccess = true ∨ r.carriesSuccess = true) := by
  have hsome := gather_isSome r.code r.attrs .empty (w.sta r.slot).pae.eapSuccess
  unfold admits gathered RadiusResponse.intact
  rw [← hsome]
  cases hg : gather r.code r.attrs .empty (w.sta r.slot).pae.eapSuccess with
  | none => simp
  | some x =>
      obtain ⟨h1, h2⟩ := gather_verdict r.code r.attrs .empty _ hg
      have h3 : x.1.authenticated = r.signed := by
        rw [h1]
        simp [Gathered.empty, RadiusResponse.signed]
      have h4 : x.2 = ((w.sta r.slot).pae.eapSuccess || r.carriesSuccess) := by
        rw [h2]
        simp [Gathered.empty, RadiusResponse.carriesSuccess]
      simp only [Option.any_some, h3, h4, Option.isSome_some, Bool.and_eq_true, Bool.or_eq_true,
        beq_iff_eq, true_and, and_assoc]

variable {c : Ctx} {g : Grant} {w w' : World}

/-! ## Nothing is admitted -/

/-- No port is opened. -/
structure PortsKept (w w' : World) : Prop where
  successes : w'.successes = w.successes
  state : ∀ i, (w'.sta i).pae.state = .authenticated → (w.sta i).pae.state = .authenticated

theorem PortsKept.trans {w'' : World} (h : PortsKept w w') (h' : PortsKept w' w'') :
    PortsKept w w'' :=
  ⟨h'.successes.trans h.successes, fun i hi => h.state i (h'.state i hi)⟩

theorem successes_out (w : World) {o : Out} (h : o.isSuccess = false) :
    (w.out o).successes = w.successes :=
  List.countP_cons_of_neg (by simp [h])

theorem successes_drawn (user : Option Slot) (w : World) :
    (w.drawn c user).successes = w.successes := by
  unfold World.drawn
  refine wp_finalState (P := fun w1 : World => w1.successes = w.successes) ?_
  simp only [wpaIncrGkc, initGlobalKeyCounter, nasRand128, wp_bind, wp_modify, wp_get,
    wp_ite, wp_pure, wp_oracle, wp_emit]
  refine ⟨fun _ => ?_, fun _ => ?_⟩
  · exact (successes_out _ rfl).trans (successes_out w rfl)
  · exact successes_out w rfl

theorem PortsKept.updSta (w : World) (i : Slot) {f : Sta → Sta} (hf : PortKept f) :
    PortsKept w (w.updSta i f) := by
  refine ⟨rfl, fun j hj => ?_⟩
  by_cases hji : j = i
  · subst hji
    rw [World.updSta_same] at hj
    exact hf _ hj
  · rwa [World.updSta_ne w hji] at hj

theorem PortsKept.drawn (user : Option Slot) (w : World) : PortsKept w (w.drawn c user) := by
  refine ⟨successes_drawn user w, fun i hi => ?_⟩
  rwa [(drawn_undrawn user w).sta] at hi

theorem Effect.portsKept (hno : ∀ i, ¬g.authenticate i) (h : Effect c g w w') : PortsKept w w' := by
  cases h with
  | aside ha =>
      refine ⟨congrArg (List.countP _) ha.log, fun i hi => ?_⟩
      rwa [ha.sta] at hi
  | note ho => exact ⟨successes_out w (Out.plain_success ho), fun i hi => hi⟩
  | sta i hf => exact .updSta w i hf.port
  | keyLen hn => exact ⟨rfl, fun i hi => hi⟩
  | draw i hport hdesc hnonce => exact (PortsKept.drawn (some i) w).trans (.updSta _ i hport)
  | drawGroup =>
      have h := PortsKept.drawn (c := c) none { w with gnonce := w.globalKeyCounter }
      exact ⟨h.successes, h.state⟩
  | enter i ea now ha =>
      have hnew : PortKept fun _ => newSta c ea now := by
        intro s hs
        rw [(newSta_zero ea now).1] at hs
        cases hs
      have hkept := PortsKept.updSta w i hnew
      refine ⟨?_, fun j hj => hkept.state j ?_⟩
      · exact (congrArg (List.countP _) ha.log).trans ((successes_out _ rfl).trans hkept.successes)
      · rwa [ha.sta] at hj
  | send i ea k gtk hk => exact ⟨successes_out w rfl, fun i hi => hi⟩
  | authenticate hi hdesc hnonce => exact absurd hi (hno _)
  | success hi ho => exact absurd hi (hno _)
  | relay ea preauth hr => exact ⟨successes_out w rfl, fun i hi => hi⟩
  | forward i username state hf => exact ⟨successes_out w rfl, fun i hi => hi⟩

theorem Effects.portsKept (hno : ∀ i, ¬g.authenticate i) (h : Effects c g w w') : PortsKept w w' :=
  reach_invariant (I := PortsKept w) (fun _ _ ha hab => ha.trans (hab.portsKept hno)) h
    ⟨rfl, fun _ hi => hi⟩

/-- Only what the event admits is granted. -/
def Grant.admitted (w : World) (ev : Event) : Grant :=
  ⟨fun _ => True, fun i => ∃ r, ev = .radius r ∧ admits w r = true ∧ r.slot = i, fun _ _ => True,
    fun _ => True, True, fun _ _ => trivial⟩

theorem enters_admits {e : Nat × Event} (h : Enters c w e) :
    w.halted = false ∧ ∃ r, e.2 = .radius r ∧ admits w r = true := by
  cases hlive : w.halted with
  | true =>
      rw [Enters, step, if_pos hlive] at h
      rcases h with hlt | ⟨i, hne, heq⟩
      · exact absurd hlt (lt_irrefl _)
      · exact absurd heq hne
  | false =>
      refine ⟨rfl, ?_⟩
      by_contra hno
      have hnone : ∀ i, ¬(Grant.admitted w e.2).authenticate i := by
        rintro i ⟨r, hev, hadm, -⟩
        exact hno ⟨r, hev, hadm⟩
      have hgrants : Grants c (.admitted w e.2) w e.2 :=
        ⟨fun _ _ _ _ _ => trivial, fun r hev hadm => ⟨r, hev, hadm, rfl⟩, fun _ _ _ _ _ => trivial,
          fun _ _ _ => trivial⟩
      -- The clock and the records of MIC failures do not matter.
      have hsame : ∀ {w1 w2 : World}, w2.log = w1.log → w2.sta = w1.sta → PortsKept w1 w2 := by
        intro w1 w2 hlog hsta
        refine ⟨congrArg (List.countP _) hlog, fun i hi => ?_⟩
        rwa [hsta] at hi
      have hkept : PortsKept w (step c w e) := by
        rcases step_changes (t := e.1) hlive hgrants with hch | ⟨-, heff⟩
        · cases hch with
          | calm heff =>
              refine PortsKept.trans ?_ (Effects.portsKept hnone heff)
              exact hsame rfl rfl
          | mic hm heff hmic heff' =>
              refine PortsKept.trans (PortsKept.trans ?_ (Effects.portsKept hnone heff))
                (PortsKept.trans ?_ (Effects.portsKept hnone heff'))
              · exact hsame rfl rfl
              cases hmic with
              | report => exact hsame rfl rfl
              | trigger hrole hcm hrecent => exact hsame rfl rfl
        · refine PortsKept.trans ?_ (Effects.portsKept hnone heff)
          exact hsame rfl rfl
      rcases h with hlt | ⟨i, hne, heq⟩
      · rw [hkept.successes] at hlt
        exact absurd hlt (lt_irrefl _)
      · exact hne (hkept.state i heq)

/-! ## An Accept is admitted -/

theorem Effect.successes_le (h : Effect c g w w') : w.successes ≤ w'.successes := by
  cases h with
  | aside ha => exact (congrArg (List.countP _) ha.log).ge
  | note ho => exact (successes_out w (Out.plain_success ho)).ge
  | draw i hport hdesc hnonce => exact (successes_drawn (some i) w).ge
  | drawGroup => exact (successes_drawn none { w with gnonce := w.globalKeyCounter }).ge
  | enter i ea now ha =>
      refine ((congrArg (List.countP _) ha.log).trans ?_).ge
      exact successes_out (w.updSta i fun _ => newSta c ea now) rfl
  | send i ea k gtk hk => exact (successes_out w rfl).ge
  | success hi ho => exact (Nat.le_succ _).trans_eq (List.countP_cons_of_pos ho).symm
  | relay ea preauth hr => exact (successes_out w rfl).ge
  | forward i username state hf => exact (successes_out w rfl).ge
  | _ => exact le_refl _

theorem Effects.successes_le (h : Effects c g w w') : w.successes ≤ w'.successes :=
  reach_invariant (I := fun w1 => w.successes ≤ w1.successes)
    (fun _ _ ha hab => ha.trans hab.successes_le) h
    (le_refl _)

theorem radiusAccept_enters {i : Slot} {x : Gathered} (h : (w.sta i).pae.eapSuccess = true) :
    wp (radiusAccept c i x) (fun _ w' => w.successes < w'.successes)
      (fun _ w' => w.successes < w'.successes) w := by
  -- After the EAP success the count does not go back.
  have hrest : ∀ {α : Type} {m : NasM α} {w1 : World}, w.successes < w1.successes →
      Confined c .all w1 m →
      wp m (fun _ w' => w.successes < w'.successes)
          (fun _ w' => w.successes < w'.successes) w1 := by
    intro α m w1 hlt hm
    exact wp_mono (hm w1 .refl) (fun _ _ he => hlt.trans_le (Effects.successes_le he))
      (fun _ _ he => hlt.trans_le (Effects.successes_le he))
  have hopen :
      wp (paeState i .authenticated) (fun _ w1 => w.successes < w1.successes)
      (fun _ _ => False) w :=
    (Nat.lt_succ_self _).trans_eq (List.countP_cons_of_pos rfl).symm
  unfold radiusAccept
  rw [wp_bind, wp_getSta, wp_ite]
  refine ⟨fun hs => absurd h (by simpa using hs), fun _ => ?_⟩
  rw [wp_bind]
  refine wp_mono hopen (fun _ w1 hlt => hrest hlt ?_) (fun _ _ h => h.elim)
  refine .bind (confined_modSta_state i fun _ => rfl) fun _ => ?_
  cases x.mppeRecv with
  | none => exact .pure _
  | some plain =>
      refine .bind (confined_getSta i) fun _ => ?_
      exact .ite (confined_fixWpa i plain) (confined_radiusPlumb i plain)

theorem radiusAttrs_isSome (i : Slot) (code : RadiusCode) (l : List RadiusAttr) :
    ∀ (x : Gathered) (w : World), wp (radiusAttrs i code l x)
      (fun y _ => y.isSome = (!l.contains .bad && !l.contains (.messageAuthenticator false)))
      (fun _ _ => False) w := by
  induction l with
  | nil => intro x w; rfl
  | cons a l ih =>
      intro x w
      have hrest : ∀ (x1 : Gathered) (w1 : World), a ≠ .bad → a ≠ .messageAuthenticator false →
          wp (radiusAttrs i code l x1) (fun y _ => y.isSome =
            (!(a :: l).contains .bad && !(a :: l).contains (.messageAuthenticator false)))
            (fun _ _ => False) w1 := by
        intro x1 w1 hbad hmac
        rw [List.contains_cons, List.contains_cons, beq_false_of_ne hbad.symm,
          beq_false_of_ne hmac.symm, Bool.false_or, Bool.false_or]
        exact ih x1 w1
      cases a with
      | messageAuthenticator valid =>
          cases valid with
          | true => exact hrest _ w RadiusAttr.noConfusion (by decide)
          | false =>
              show none.isSome = _
              simp
      | state v => exact hrest _ _ RadiusAttr.noConfusion RadiusAttr.noConfusion
      | eapMessage first id v =>
          simp only [radiusAttrs, wp_bind, wp_modSta, wp_ite]
          exact ⟨fun _ => hrest _ _ RadiusAttr.noConfusion RadiusAttr.noConfusion,
            fun _ => hrest _ _ RadiusAttr.noConfusion RadiusAttr.noConfusion⟩
      | sessionTimeout n =>
          simp only [radiusAttrs, wp_bind, wp_modSta, wp_ite]
          exact ⟨fun _ => hrest _ _ RadiusAttr.noConfusion RadiusAttr.noConfusion,
            fun _ => hrest _ _ RadiusAttr.noConfusion RadiusAttr.noConfusion⟩
      | wnm kind =>
          simp only [radiusAttrs, wp_bind, wp_modify, wp_ite]
          exact ⟨fun _ => hrest _ _ RadiusAttr.noConfusion RadiusAttr.noConfusion,
            fun _ => hrest _ _ RadiusAttr.noConfusion RadiusAttr.noConfusion⟩
      | bad =>
          show none.isSome = _
          simp
      | _ => exact hrest _ w RadiusAttr.noConfusion RadiusAttr.noConfusion

theorem admitted_enters {r : RadiusResponse} {now : Nat} (hlive : w.halted = false)
    (hadm : admits w r = true) : Enters c w (now, .radius r) := by
  refine .inl (step_of_wp c (P := fun w' => w.successes < w'.successes) hlive ?_)
  obtain ⟨hpending, hcode, hintact, hsigned, hsucc⟩ := (admits_iff w r).mp hadm
  simp only [pending, Bool.and_eq_true, beq_iff_eq] at hpending
  simp only [dispatch, radiusDispatch, wp_bind, wp_modify, wp_getSta, wp_ite, wp_pure]
  refine ⟨fun hused => absurd hpending.1 (by simpa using hused), fun _ =>
    ⟨fun hreq => absurd hpending.2 hreq, fun _ => ?_⟩⟩
  have hloop := wp_and (confined_radiusAttrs (c := c) (g := .all) r.slot r.code r.attrs .empty
    { w with now := now, wnm := ⟨false, false, false⟩ } .refl)
    (wp_and (radiusAttrs_spec r.slot false r.code r.attrs _ _) (radiusAttrs_isSome _ _ _ _ _))
  refine wp_mono hloop (fun y w1 h1 => ?_) (fun _ _ h => h.2.1.elim)
  obtain ⟨heff, ⟨hpae, hgather⟩, hend⟩ := h1
  cases y with
  | none => exact absurd (hend.trans hintact) Bool.false_ne_true
  | some x =>
      obtain ⟨h1, h2⟩ := gather_verdict _ _ _ _ (hgather x rfl)
      have hauth : x.authenticated = true := by
        rw [h1]
        exact hsigned
      have hflag : (w1.sta r.slot).pae.eapSuccess = true := by
        rw [h2]
        simpa [Gathered.empty, RadiusResponse.carriesSuccess] using hsucc
      have hle := Effects.successes_le heff
      simp only [radiusEvent, hauth, hcode, radiusDecision, wp_bind, wp_ite, wp_pure]
      refine ⟨fun hno => by simp at hno, fun _ => ?_⟩
      refine wp_mono
        (wp_and (confined_radiusRelay (c := c) (g := .all) r.slot .accept trivial w1 .refl)
        (radiusRelay_spec w1 r.slot false .accept x)) (fun _ w2 h2 => ?_) (fun _ _ h => h.2.elim)
      have hle2 := hle.trans (Effects.successes_le h2.1)
      refine wp_mono (radiusAccept_enters (by rwa [h2.2.2])) (fun _ w3 h3 => ?_) (fun _ w3 h3 => ?_)
      · exact hle2.trans_lt h3
      · exact hle2.trans_lt h3

/-! ## Unsigned responses -/

theorem ignored_response {r : RadiusResponse} {now : Nat} (h : pending w r = false) :
    (step c w (now, .radius r)).sta = w.sta := by
  cases hlive : w.halted with
  | true => rw [step, if_pos hlive]
  | false =>
      refine step_of_wp c (P := fun w' => w'.sta = w.sta) hlive ?_
      simp only [dispatch, radiusDispatch, wp_bind, wp_modify, wp_getSta, wp_ite, wp_pure]
      refine ⟨fun _ => trivial, fun hused => ⟨fun _ => trivial, fun hreq => ?_⟩⟩
      simp only [Bool.not_eq_true', Bool.not_eq_false, not_not] at hused hreq
      simp [pending, hused, hreq] at h

theorem unsigned_request {r : RadiusResponse} {now : Nat} (hlive : w.halted = false)
    (hpending : pending w r = true) (hcode : r.code ≠ .reject) (hsigned : r.signed = false) :
    ((step c w (now, .radius r)).sta r.slot).pae.request = none := by
  refine step_of_wp c (P := fun w' => (w'.sta r.slot).pae.request = none) hlive ?_
  simp only [pending, Bool.and_eq_true, beq_iff_eq] at hpending
  simp only [dispatch, radiusDispatch, wp_bind, wp_modify, wp_getSta, wp_ite, wp_pure]
  refine ⟨fun hused => absurd hpending.1 (by simpa using hused), fun _ =>
    ⟨fun hreq => absurd hpending.2 hreq, fun _ => ?_⟩⟩
  refine wp_mono (radiusAttrs_spec r.slot false r.code r.attrs _ _) (fun y w1 h1 => ?_)
    (fun _ _ h => h.elim)
  cases y with
  | none => simp
  | some x =>
      obtain ⟨hauth, -⟩ := gather_verdict _ _ _ _ (h1.2 x rfl)
      have hno : x.authenticated = false := by
        rw [hauth]
        exact hsigned
      simp only [radiusEvent, hno, wp_bind, wp_ite, wp_pure, wp_modSta, World.updSta_same]
      exact ⟨fun _ => trivial, fun hyes => absurd hcode (by simpa using hyes)⟩

/-! ## Runs -/

theorem responseChecked_iff (c : Ctx) (w : World) (e : Nat × Event) :
    ResponseChecked c w e ↔ ResponseCalm w e.2 := by
  obtain ⟨now, ev⟩ := e
  constructor
  · intro h
    cases ev with
    | radius r =>
        intro hlive hpending
        have hsigned : r.code ≠ .reject → r.signed = true := by
          intro hcode
          by_contra hno
          have hno' : r.signed = false := eq_false_of_ne_true hno
          have hsame := (h.unsigned r rfl hcode hno' r.slot).request
          rw [unsigned_request hlive hpending hcode hno'] at hsame
          simp only [pending, Bool.and_eq_true, beq_iff_eq] at hpending
          cases hsame.trans hpending.2
        refine ⟨hsigned, fun hcode hintact hcarries => ?_⟩
        by_contra hflag
        have hacc : r.signed = true := hsigned (by simp [hcode])
        have hadm : admits w r = true :=
          (admits_iff w r).mpr ⟨hpending, hcode, hintact, hacc, .inl (eq_true_of_ne_false hflag)⟩
        obtain ⟨r', hr', -, hyes⟩ := h.entered (admitted_enters hlive hadm)
        cases hr'
        exact absurd (hcarries.symm.trans hyes) Bool.false_ne_true
    | _ => trivial
  · intro h
    refine ⟨fun r hr hcode hsigned i => ?_, fun henters => ?_⟩
    · subst hr
      cases hlive : w.halted with
      | true =>
          rw [step, if_pos hlive]
          exact .refl _
      | false =>
          have hno : pending w r = false := by
            by_contra hyes
            have := (h hlive (eq_true_of_ne_false hyes)).1 hcode
            exact absurd (hsigned.symm.trans this) Bool.false_ne_true
          rw [ignored_response hno]
          exact .refl _
    · obtain ⟨hlive, r, hr, hadm⟩ := enters_admits henters
      subst hr
      obtain ⟨hpending, hcode, hintact, hsigned, hsucc⟩ := (admits_iff w r).mp hadm
      refine ⟨r, rfl, hsigned, ?_⟩
      rcases hsucc with hflag | hyes
      · by_contra hno
        have := (h hlive hpending).2 hcode hintact (eq_false_of_ne_true hno)
        exact absurd (this.symm.trans hflag) Bool.false_ne_true
      · exact hyes

/-- **Responses are authenticated before they act**, in every step of a run, exactly if every step
meets the condition. -/
theorem responses_checked (c : Ctx) (es : List (Nat × Event)) :
    Along (step c) (ResponseChecked c) (initWorld c) es
      ↔ Along (step c) (fun w e => ResponseCalm w e.2) (initWorld c) es := by
  have hiff : ResponseChecked c = fun w e => ResponseCalm w e.2 :=
    funext fun w => funext fun e => propext (responseChecked_iff c w e)
  rw [hiff]

/-! ## An example -/

/-- An EAP response of the station `02:00:00:00:00:09`, of another type than an identity. -/
def challengeResponse : Frame :=
  ⟨Mem.ofBytes ([2, 0, 0, 0, 0, 1] ++ [2, 0, 0, 0, 0, 9] ++ [0x88, 0x8e]
    ++ [1, 0, 0, 5, 2, 0, 0, 5, 13]), 23⟩

/-- A forged Access-Challenge: a server state and an EAP success, and no Message-Authenticator. -/
def forgedChallenge : RadiusResponse := ⟨0, .challenge, [.state [1], .eapMessage 3 0 [3, 0, 0, 4]]⟩

/-- An Access-Accept without an EAP message. -/
def bareAccept : RadiusResponse := ⟨0, .accept, [.messageAuthenticator true]⟩

/-- A station sends an EAP response, a forged challenge comes in, the station sends another
response, and the server accepts. -/
def forgedRun : List (Nat × Event) :=
  [(1, .eapol challengeResponse), (2, .radius forgedChallenge), (3, .eapol challengeResponse),
    (4, .radius bareAccept)]

set_option maxRecDepth 100000 in
/-- **A forged challenge** has its server state saved and its EAP success remembered; the success
then completes an Accept that has none. -/
theorem forged_challenge_acts :
    (¬∀ (c : Ctx) (es : List (Nat × Event)), c.cfg.role = .authenticator →
      Along (step c) (UnsignedInert c) (initWorld c) es)
    ∧ ¬∀ (c : Ctx) (es : List (Nat × Event)), c.cfg.role = .authenticator →
      Along (step c) (EntrySigned c) (initWorld c) es := by
  have hacts :
      let w1 := run (step radiusContext) (initWorld radiusContext) (forgedRun.take 1)
      let w3 := run (step radiusContext) (initWorld radiusContext) (forgedRun.take 3)
      (w1.sta firstSlot).pae.radiusState
          ≠ ((step radiusContext w1 (2, .radius forgedChallenge)).sta firstSlot).pae.radiusState
        ∧ w3.successes < (step radiusContext w3 (4, .radius bareAccept)).successes := by
    decide +kernel
  refine ⟨fun h => ?_, fun h => ?_⟩
  · obtain ⟨-, hsame, -⟩ := h radiusContext forgedRun rfl
    exact hacts.1 (hsame forgedChallenge rfl RadiusCode.noConfusion rfl firstSlot).radiusState.symm
  · obtain ⟨-, -, -, hsigned, -⟩ := h radiusContext forgedRun rfl
    obtain ⟨r, hr, -, hsucc⟩ := hsigned (.inl hacts.2)
    cases hr
    cases hsucc

end BroadcomWl.Nas
