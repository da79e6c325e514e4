import BroadcomWl.Nas.RetxTimer
import BroadcomWl.Nas.SavedIe

/-!
# Discarding frames that are not authentic

An EAPOL-Key frame with a wrong MIC or a wrong replay counter is to leave no trace. Each state
checks flags, counter, element and MIC in an order of its own, and some of the handlers act before
the MIC is known: in `WPA_PTKINITNEGOTIATING` the timer is stopped and the element compared first,
and the PTK is computed with the nonce of the frame. In `WPA_SETKEYSDONE` the counter is not looked
at, so that a valid request can be replayed.

**`discarded_iff`** is the exact condition under which such a frame is discarded; `wrong_element` is
a frame that makes the authenticator deauthenticate the station. -/

namespace BroadcomWl.Nas

open BroadcomWl.Lib BroadcomWl.Crypto

variable (c : Ctx)

/-! ## What is to be discarded -/

/-- The PTK that the station struct holds after message 2 with this frame's nonce. -/
def ptkFor (s : Sta) (f : Frame) : Bytes :=
  calcPtk c.crypto s.pmk c.cfg.ea s.ea s.anonce f.nonce s.ptkLen ++ s.ptk.drop s.ptkLen

/-- The frame carries a MIC that verifies: message 2 under the key that its own nonce leads to, any
other message under the key of the station. -/
def micVerifies (s : Sta) (f : Frame) : Bool :=
  has f.keyInfo wpaKeyMic &&
    match s.state with
    | .ptkinitnegotiating => wpaCheckMic c { s with ptk := ptkFor c s f } f
    | _ => wpaCheckMic c s f

/-- The MIC does not verify, or the replay counter is not the one of the station. -/
def Unauthentic (s : Sta) (f : Frame) : Prop := micVerifies c s f = false ∨ f.replay ≠ s.replay

/-- The station in the slot is lost: it is deauthenticated or tossed. -/
def Out.loses (i : Slot) (ea : Bytes) : Out → Bool
  | .deauthenticate ea' _ => ea' == ea
  | .toss j _ => j == i
  | _ => false

/-- From `w` to `w'` the instance goes on, the station is not lost, and nothing that the key
exchange depends on changes. -/
structure Kept (i : Slot) (w w' : World) : Prop where
  live : w'.halted = false
  lost : w'.log.countP (Out.loses i (w.sta i).ea) = w.log.countP (Out.loses i (w.sta i).ea)
  used : (w'.sta i).used = (w.sta i).used
  state : (w'.sta i).state = (w.sta i).state
  retryState : (w'.sta i).retryState = (w.sta i).retryState
  replay : (w'.sta i).replay = (w.sta i).replay
  ptk : (w'.sta i).ptk = (w.sta i).ptk
  anonce : (w'.sta i).anonce = (w.sta i).anonce
  snonce : (w'.sta i).snonce = (w.sta i).snonce
  ie : (w'.sta i).assocWpaie = (w.sta i).assocWpaie
  td : (w'.sta i).td = (w.sta i).td

/-! ## When it is -/

/-- A request, or a failure report, with a valid MIC. -/
def validRequest (s : Sta) (f : Frame) : Bool :=
  flagsOk f.keyInfo wpaKeyReq wpaKeyAck && has f.keyInfo wpaKeyMic && wpaCheckMic c s f

/-- A MIC failure report makes the authenticator take countermeasures. -/
def takesCountermeasures (w : World) (now : Nat) (s : Sta) (f : Frame) : Bool :=
  !micErrorProhibit c s (has f.keyInfo wpaKeyPairwise) && !w.micCountermeasures
    && decide ((now : Int) - w.prevMicError < 60)

/-- Message 2 with a wrong MIC that repeats an earlier one, for a station that has no timer and gets
none. -/
def Repeats (w : World) (s : Sta) (f : Frame) : Prop :=
  ieMatches s f = true ∧ s.ptkLen ≤ tkipPtkLen ∧ f.nonce = s.snonce ∧ ptkFor c s f = s.ptk
    ∧ s.td = if c.drv.itimer w.calls = .createError then none else some w.calls

/-- The frame is discarded. No countermeasures are in force, and:
- message 2 is expected, and the frame has not its flags, not the replay counter, or repeats an
  earlier one;
- message 4 is expected;
- the station holds keys, and the frame is no valid request but a failure report of no consequence;
- the reply to a group key message is expected, and the frame is no failure report of
  consequence. -/
def Silent (w : World) (now : Nat) (f : Frame) (i : Slot) : Prop :=
  let s := w.sta i
  (w.micCountermeasures && wsecTkipEnabled s.wsec) = false ∧
    match s.state with
    | .ptkinitnegotiating => m2Flags f = false ∨ f.replay ≠ s.replay ∨ Repeats c w s f
    | .setkeysdone => validRequest c s f = true →
        has f.keyInfo wpaKeyError = true ∧ takesCountermeasures c w now s f = false
    | .rekeynegotiating => validRequest c s f = true → has f.keyInfo wpaKeyError = true →
        takesCountermeasures c w now s f = false
    | _ => True

/-! ## Running the event -/

variable {c} {w : World} {now : Nat} {f : Frame} {i : Slot}

/-- The world in which the handlers find the station. -/
def received (w : World) (now : Nat) (i : Slot) : World :=
  { w with now := now }.updSta i fun s => { s with lastUse := now }

@[simp] theorem received_sta (w : World) (now : Nat) (i : Slot) :
    (received w now i).sta i = { w.sta i with lastUse := now } := by
  simp [received]

theorem step_received {P : World → Prop} (hrole : c.cfg.role = .authenticator)
    (hlive : w.halted = false) (hdel : delivered w f i = true)
    (h : wp (processWpa c f i) (fun b w' => if b then
        wp (cleanupSta c i dot11Rc8021xAuthFail false) (fun _ => P)
          (fun _ w' => P { w' with halted := true }) w' else P w')
      (fun _ w' => P { w' with halted := true }) (received w now i)) :
    P (step c w (now, .eapol f)) := by
  simp only [delivered, Bool.and_eq_true, beq_iff_eq] at hdel
  obtain ⟨⟨⟨⟨hfind, htype⟩, hbody⟩, hnas⟩, hpae⟩ := hdel
  have hheld : (w.sta i).pae.state ≠ .held := by
    intro hh
    rw [hh] at hpae
    cases hpae
  have hrun : wp (dispatch c (.eapol f)) (fun _ => P) (fun _ w' => P { w' with halted := true })
      { w with now := now } := by
    simp only [dispatch, nasEapolMessageDispatch, hrole, eapolDispatchEx, lookupSta,
      wp_bind, wp_get]
    rw [show ({ w with now := now } : World).staHashed = w.staHashed from rfl,
      show ({ w with now := now } : World).sta = w.sta from rfl,
      show (w.staHashed (paeHash f.shost)).find? (fun i => decide ((w.sta i).ea = f.shost)) = some i
        from hfind]
    simp only [wp_bind, wp_modSta, wp_pure, wp_getSta, wp_ite, Bool.not_false, true_implies,
      not_true_eq_false, false_implies, and_true]
    refine ⟨fun hh => absurd (by simpa using hh) hheld, fun _ => ⟨fun _ => ?_, fun hno => ?_⟩⟩
    · refine wp_mono h (fun b w' hb => ⟨fun hbt => ?_, fun hbf => ?_⟩) (fun _ _ h => h)
      · rwa [if_pos hbt] at hb
      · rwa [if_neg hbf] at hb
    · refine absurd ?_ hno
      simpa [htype, hbody, hnas] using hpae
  exact step_of_wp c hlive hrun

theorem Kept.of_sta {w' : World} (hlive : w'.halted = false)
    (hlost : w'.log.countP (Out.loses i (w.sta i).ea) = w.log.countP (Out.loses i (w.sta i).ea))
    (hsta : ∃ n, w'.sta i = { w.sta i with lastUse := n }) : Kept i w w' := by
  obtain ⟨n, hn⟩ := hsta
  exact ⟨hlive, hlost, by rw [hn], by rw [hn], by rw [hn], by rw [hn], by rw [hn], by rw [hn],
    by rw [hn], by rw [hn], by rw [hn]⟩

theorem kept_received (hlive : w.halted = false) : Kept i w (received w now i) :=
  .of_sta hlive rfl ⟨now, received_sta w now i⟩

theorem not_kept_of_idle (hused : (w.sta i).used = true) (hbusy : (w.sta i).state.busy = true)
    {w' : World} (h : (w'.sta i).used = true → (w'.sta i).state.busy = false) : ¬Kept i w w' := by
  intro hk
  have hidle := h (hk.used.trans hused)
  rw [hk.state, hbusy] at hidle
  cases hidle

section Handlers

variable (c w now f i)

theorem armRetx_exact (c : Ctx) (w : World) (i : Slot) :
    wp (armRetx c i) (fun _ w' => w' = w.call.updSta i fun s =>
        { s with td := if c.drv.itimer w.calls = .createError then s.td else some w.calls })
      (fun _ _ => False) w := by
  simp only [armRetx, wpaSetItimer, wp_bind, wp_getSta, wp_get, wp_oracle]
  cases hret : c.drv.itimer w.calls <;>
    simp only [wp_pure, wp_modSta, if_pos, reduceCtorEq, if_false]
  rfl

/-- What message 2 with a wrong MIC makes of the station. -/
def afterM2 : Sta :=
  { w.sta i with
    lastUse := now, retxExceedHndlr := false, snonce := f.nonce, ptk := ptkFor c (w.sta i) f
    td := if c.drv.itimer w.calls = .createError then none else some w.calls }

/-- Message 2 that is not authentic. Past the first checks, the element decides whether the station
is lost or only changed. -/
theorem ptkinitnegotiating_unauthentic (hst : (w.sta i).state = .ptkinitnegotiating)
    (hun : Unauthentic c (w.sta i) f) :
    wp (wpaPtkinitnegotiating c i f)
      (fun b w' => ((m2Flags f = false ∨ f.replay ≠ (w.sta i).replay) ∧ b = false
          ∧ w' = received w now i)
        ∨ (m2Flags f = true ∧ f.replay = (w.sta i).replay
          ∧ (b = true ∧ ieMatches (w.sta i) f = false
            ∨ b = false ∧ ieMatches (w.sta i) f = true ∧ (w.sta i).ptkLen ≤ tkipPtkLen
              ∧ w'.halted = w.halted ∧ w'.log = .brcmEvent (w.sta i).ea dot11RcMicFailure :: w.log
              ∧ w'.sta i = afterM2 c w now f i)))
      (fun _ _ => m2Flags f = true ∧ f.replay = (w.sta i).replay ∧ tkipPtkLen < (w.sta i).ptkLen)
      (received w now i) := by
  simp only [wpaPtkinitnegotiating, wpaStopRetx, wpaCalcPtk, wp_bind, wp_ite, wp_pure, wp_getSta,
    wp_modSta, wp_nasHandleError, wp_emit, World.updSta_same, received_sta]
  refine ⟨fun hflags => .inl ⟨.inl ?_, trivial, trivial⟩, fun hno => ?_⟩
  · simpa [m2Flags] using hflags
  have hflags : m2Flags f = true := by simpa [m2Flags] using hno
  refine ⟨fun hreplay => .inl ⟨.inr hreplay, trivial, trivial⟩, fun hno => ?_⟩
  have hreplay : f.replay = (w.sta i).replay := by simpa using hno
  refine ⟨fun hie => .inr ⟨hflags, hreplay, .inl ⟨trivial, ?_⟩⟩, fun hno => ?_⟩
  · have hno : (!ieMatches (w.sta i) f) = true := hie
    simpa using hno
  have hie : ieMatches (w.sta i) f = true := by
    have hyes : ¬(!ieMatches (w.sta i) f) = true := hno
    simpa using hyes
  refine ⟨fun hlen => ⟨hflags, hreplay, hlen⟩, fun hno => ⟨fun hmic => ?_, fun hmic => ?_⟩⟩
  · -- The MIC is wrong, and the timer is set again.
    refine wp_mono (armRetx_exact c _ i) (fun _ w' hw => ?_) (fun _ _ h => h.elim)
    subst hw
    refine .inr ⟨hflags, hreplay, .inr ⟨trivial, hie, not_lt.mp hno, rfl, rfl, ?_⟩⟩
    simp only [World.updSta_same, World.out_sta, World.call_sta, received_sta]
    rfl
  · -- The MIC verifies, and the counter is right.
    have hhas : has f.keyInfo wpaKeyMic = true := flagsOk_has hflags (by decide) (by decide)
    have hok : ¬(!checkMicWith c.crypto ((ptkFor c (w.sta i) f).take 16) f) = true := hmic
    rcases hun with hbad | hbad
    · rw [micVerifies, hhas, hst] at hbad
      refine absurd ?_ hok
      rw [show checkMicWith c.crypto ((ptkFor c (w.sta i) f).take 16) f = false from hbad]
      rfl
    · exact absurd hreplay hbad

theorem flagsOk_not_has {keyInfo required prohibited m : Nat}
    (h : flagsOk keyInfo required prohibited = true) (hm : prohibited &&& m = m) :
    has keyInfo m = false := by
  have h1 : keyInfo &&& prohibited = 0 := by
    simp only [flagsOk, Bool.and_eq_true, beq_iff_eq] at h
    exact h.2
  have h2 : keyInfo &&& m = 0 := by
    rw [← hm, ← Nat.and_assoc, h1, Nat.zero_and]
  simp [has, h2]

theorem ptkinitdone_unauthentic (hst : (w.sta i).state = .ptkinitdone)
    (hun : Unauthentic c (w.sta i) f) :
    wp (wpaPtkinitdone c i f) (fun b w' => b = false ∧ w' = received w now i) (fun _ _ => False)
      (received w now i) := by
  simp only [wpaPtkinitdone, wp_bind, wp_getSta, wp_ite, wp_pure, received_sta]
  refine ⟨fun _ => ⟨trivial, trivial⟩, fun hflags => ⟨fun _ => ⟨trivial, trivial⟩, fun _ =>
    ⟨fun _ => ⟨trivial, trivial⟩, fun hreplay => ⟨fun _ => ⟨trivial, trivial⟩, fun hmic => ?_⟩⟩⟩⟩
  have hhas : has f.keyInfo wpaKeyMic = true := by
    refine flagsOk_has (by simpa using hflags) ?_ (by decide)
    unfold m4Required
    split <;> rfl
  have hok : ¬(!wpaCheckMic c (w.sta i) f) = true := hmic
  rcases hun with hbad | hbad
  · rw [micVerifies, hhas, hst] at hbad
    refine absurd ?_ hok
    rw [show wpaCheckMic c (w.sta i) f = false from hbad]
    rfl
  · exact absurd hbad hreplay

theorem nasSendWnmNotifications_sta (ea ea' : Bytes) (i : Slot) (w : World) :
    wp (nasSendWnmNotifications ea) (fun _ w' => w'.halted = w.halted ∧ w'.sta = w.sta
      ∧ w'.log.countP (Out.loses i ea') = w.log.countP (Out.loses i ea')) (fun _ _ => False) w := by
  simp only [nasSendWnmNotifications, wp_bind, wp_get, wp_ite, wp_emit, wp_modify]
  refine ⟨fun _ => ⟨fun _ => ⟨fun _ => ?_, fun _ => ?_⟩, fun _ => ⟨fun _ => ?_, fun _ => ?_⟩⟩,
    fun _ => ⟨fun _ => ⟨fun _ => ?_, fun _ => ?_⟩, fun _ => ⟨fun _ => ?_, fun _ => ?_⟩⟩⟩ <;>
  simp [World.out, Out.loses]

theorem takeCountermeasures_lost (c : Ctx) (w : World) : wp (takeCountermeasures c)
    (fun _ w' => ∀ j, (w'.sta j).used = true → (w'.sta j).state.busy = false) (fun _ _ => True)
    w := by
  simp only [takeCountermeasures, nasSetKey, wp_bind, wp_modify, wp_emit, wp_get]
  refine wp_of_quiet (wpaSetItimer_quiet c false _ _) (fun td w1 _ => ?_)
  refine wp_mono (cleanupAll_sim c .gtkTimer w false dot11RcMicFailure slots
    { w1 with countermeasuresTimer := td } .refl (fun j hj => absurd (mem_slots j) hj))
    (fun _ w2 h2 => ?_) (fun _ _ _ => trivial)
  simp only [wp_ite, wp_throw, wp_pure, wp_oracle, wp_emit, wp_modify, wp_bind, wp_get]
  exact ⟨fun _ => trivial, fun _ j hu => (h2.2 j hu).1⟩

/-- A failure report of a station either has no consequence or loses every station. -/
theorem micError_report (hrole : c.cfg.role = .authenticator) :
    wp (wpaMicError c i false (has f.keyInfo wpaKeyPairwise))
      (fun _ w' => (takesCountermeasures c w now (w.sta i) f = false →
          w'.halted = w.halted ∧ w'.log = w.log ∧ w'.sta = (received w now i).sta)
        ∧ (takesCountermeasures c w now (w.sta i) f = true →
          (w'.sta i).used = true → (w'.sta i).state.busy = false))
      (fun _ _ => takesCountermeasures c w now (w.sta i) f = true) (received w now i) := by
  simp only [wpaMicError, hrole, wp_bind, wp_getSta, wp_get, wp_modify, wp_ite, wp_pure,
    reduceCtorEq, false_implies, true_and, not_false_eq_true, true_implies, received_sta,
    Nat.succ_ne_zero, ne_eq, decide_not, decide_false, Bool.not_false, Bool.true_and]
  have htakes : takesCountermeasures c w now (w.sta i) f
      = (!micErrorProhibit c (w.sta i) (has f.keyInfo wpaKeyPairwise)
        && (!w.micCountermeasures && decide ((now : Int) - w.prevMicError < 60))) :=
          Bool.and_assoc ..
  rw [htakes]
  refine ⟨fun hno => ?_, fun hprohibit => ⟨fun hcm => ?_, fun hcm => ?_⟩⟩
  · rw [show micErrorProhibit c (w.sta i) (has f.keyInfo wpaKeyPairwise) = true from hno]
    exact ⟨fun _ => ⟨rfl, rfl, trivial⟩, (by rintro ⟨⟩)⟩
  · rw [show micErrorProhibit c (w.sta i) (has f.keyInfo wpaKeyPairwise) = false from
        eq_false_of_ne_true hprohibit,
      show (!w.micCountermeasures && decide ((now : Int) - w.prevMicError < 60)) = true from hcm]
    exact wp_mono (takeCountermeasures_lost c _) (fun _ w' h => ⟨(by rintro ⟨⟩), fun _ => h i⟩)
      (fun _ _ _ => rfl)
  · rw [show (!w.micCountermeasures && decide ((now : Int) - w.prevMicError < 60)) = false from
        eq_false_of_ne_true hcm, Bool.and_false]
    exact ⟨fun _ => ⟨rfl, rfl, trivial⟩, (by intros; contradiction)⟩

theorem setkeysdone_discards (hrole : c.cfg.role = .authenticator)
    (hquiet : validRequest c (w.sta i) f = true →
      has f.keyInfo wpaKeyError = true ∧ takesCountermeasures c w now (w.sta i) f = false) :
    wp (wpaSetkeysdone c i f)
      (fun _ w' => w'.halted = w.halted ∧ w'.log = w.log ∧ w'.sta = (received w now i).sta)
      (fun _ _ => False) (received w now i) := by
  simp only [wpaSetkeysdone, wp_bind, wp_getSta, wp_ite, wp_pure, wp_modSta, received_sta]
  refine ⟨fun _ => ⟨rfl, rfl, trivial⟩,
    fun hflags => ⟨fun _ => ⟨rfl, rfl, trivial⟩, fun hmic => ?_⟩⟩
  have hvalid : validRequest c (w.sta i) f = true := by
    have hok : ¬(!has f.keyInfo wpaKeyMic || !wpaCheckMic c (w.sta i) f) = true := hmic
    simp only [Bool.not_eq_true', Bool.or_eq_true, not_or, Bool.not_eq_false] at hflags hok
    simp [validRequest, hflags, hok]
  obtain ⟨herr, htakes⟩ := hquiet hvalid
  refine ⟨fun _ => ?_, fun h => absurd herr h⟩
  exact wp_mono (micError_report c w now f i hrole) (fun _ w' h => h.1 htakes)
    (fun _ _ h => absurd (h.symm.trans htakes) (by rintro ⟨⟩))

/-- A valid request whose failure report has consequences, or which asks for keys. -/
theorem setkeysdone_acts (hrole : c.cfg.role = .authenticator)
    (hvalid : validRequest c (w.sta i) f = true) :
    wp (wpaSetkeysdone c i f)
      (fun _ w' => (has f.keyInfo wpaKeyError = true →
          takesCountermeasures c w now (w.sta i) f = true →
          (w'.sta i).used = true → (w'.sta i).state.busy = false)
        ∧ (has f.keyInfo wpaKeyError = false → (w'.sta i).used = true →
          (w'.sta i).state ≠ .setkeysdone))
      (fun _ _ => True) (received w now i) := by
  simp only [validRequest, Bool.and_eq_true] at hvalid
  obtain ⟨⟨hflags, hmic⟩, hcheck⟩ := hvalid
  simp only [wpaSetkeysdone, wp_bind, wp_getSta, wp_ite, wp_pure, wp_modSta, received_sta]
  refine ⟨fun h => by simp [hflags] at h, fun _ => ⟨fun h => ?_, fun _ => ⟨fun herr => ?_,
    fun herr => ⟨fun _ => ⟨fun h => absurd h herr, fun _ _ => by simp⟩, fun _ => ?_⟩⟩⟩⟩
  · have hno : (!has f.keyInfo wpaKeyMic || !wpaCheckMic c (w.sta i) f) = true := h
    simp [hmic, hcheck] at hno
  · refine wp_mono (micError_report c w now f i hrole) (fun _ w' h => ⟨fun _ => h.2, fun h => ?_⟩)
      (fun _ _ _ => trivial)
    rw [herr] at h
    cases h
  · exact wp_mono (wpaNewGtk_sim c .gtkTimer (received w now i) (received w now i) .refl trivial
      (fun _ => rfl)) (fun _ w' h => ⟨fun h => absurd h herr, fun _ hu => h.2.2 i hu⟩)
      (fun _ _ _ => trivial)

theorem wpaVerifystart_state (c : Ctx) (w : World) (f : Frame) (i : Slot) :
    wp (wpaVerifystart c i f) (fun b w' => b = false → (w'.sta i).state = .ptkstart)
      (fun _ _ => True) w := by
  simp only [wpaVerifystart, wpaStopRetx, wp_bind, wp_ite, wp_pure, wp_modSta]
  refine ⟨fun _ => (by rintro ⟨⟩), fun _ => ?_⟩
  split
  · exact (by rintro ⟨⟩)
  · simp only [saveWpaie, wp_ite, wp_pure, wp_bind, wp_emit, wp_throw, wp_modSta]
    refine ⟨fun _ => (by rintro ⟨⟩), fun _ => ⟨fun _ => trivial, fun _ => ?_⟩⟩
    refine wp_of_quiet (nextNonce_quiet c false _ _) (fun nonce w1 _ _ => ?_)
    simp

theorem processStart_state (c : Ctx) (w : World) (f : Frame) (i : Slot) :
    wp (processStart c i f) (fun b w' => b = false → (w'.sta i).state ≠ .setkeysdone)
      (fun _ _ => True) w := by
  simp only [processStart, wp_bind, wp_ite, wp_pure, wp_getSta]
  refine wp_mono (wpaVerifystart_state c w f i) (fun b w1 h1 => ?_) (fun _ _ h => h)
  refine ⟨fun _ => (by rintro ⟨⟩), fun hb => ?_⟩
  have hst := h1 (eq_false_of_ne_true hb)
  refine ⟨fun _ _ => by simp [hst], fun _ => ?_⟩
  simp only [wpaPtkstart, startPtk, wpaStopRetx, wp_bind, wp_ite, wp_pure, wp_modSta]
  refine ⟨fun _ _ => by simp [hst], fun _ => ⟨fun _ => (by rintro ⟨⟩), fun _ => ?_⟩⟩
  refine wp_mono (wpaSendEapol_ptkstart c _ i (by simpa using hst)) (fun b w2 h => ?_)
    (fun _ _ h => h.elim)
  obtain ⟨rfl, k, -, rfl⟩ := h
  refine ⟨fun _ => (by rintro ⟨⟩), fun _ => wp_mono (armRetx_exact c _ i) (fun _ w3 h _ => ?_)
    (fun _ _ h => h.elim)⟩
  subst h
  simp

/-- The handlers have done to the station what the condition says. -/
structure Settled (b : Bool) (w' : World) : Prop where
  silent : Silent c w now f i → b = false ∧ Kept i w w'
  loud : ¬Silent c w now f i → b = false → ¬Kept i w w'

end Handlers

section Settled

variable {b : Bool} {w' : World}

theorem Settled.kept (hs : Silent c w now f i) (hk : Kept i w w') : Settled c w now f i false w' :=
  ⟨fun _ => ⟨rfl, hk⟩, fun h => absurd hs h⟩

theorem Settled.lost (hs : ¬Silent c w now f i) (hk : b = false → ¬Kept i w w') :
    Settled c w now f i b w' :=
  ⟨fun h => absurd h hs, fun _ => hk⟩

theorem Kept.received (hlive : w'.halted = w.halted) (hlog : w'.log = w.log)
    (hsta : w'.sta = (received w now i).sta) (h : w.halted = false) : Kept i w w' :=
  .of_sta (hlive.trans h) (by rw [hlog]) ⟨now, by rw [hsta, received_sta]⟩

variable (hlive : w.halted = false) (hun : Unauthentic c (w.sta i) f)
  (hcm : (w.micCountermeasures && wsecTkipEnabled (w.sta i).wsec) = false)
include hlive hun hcm

theorem ptkinitnegotiating_settled (hst : (w.sta i).state = .ptkinitnegotiating) :
    wp (wpaPtkinitnegotiating c i f) (Settled c w now f i) (fun _ _ => ¬Silent c w now f i)
      (received w now i) := by
  have hiff : Silent c w now f i ↔
      m2Flags f = false ∨ f.replay ≠ (w.sta i).replay ∨ Repeats c w (w.sta i) f := by
    simp [Silent, hcm, hst]
  refine wp_mono (ptkinitnegotiating_unauthentic c w now f i hst hun) (fun b w' h => ?_)
    (fun _ _ h hs => ?_)
  · rcases h with ⟨hbad, rfl, rfl⟩ |
      ⟨hflags, hreplay, ⟨rfl, hie⟩ | ⟨rfl, hie, hlen, hhalted, hlog, hsta⟩⟩
    · refine .kept (hiff.mpr ?_) (kept_received hlive)
      rcases hbad with h | h
      · exact .inl h
      · exact .inr (.inl h)
    · refine .lost (fun hs => ?_) (by rintro ⟨⟩)
      rcases hiff.mp hs with h | h | h
      · exact absurd (hflags.symm.trans h) (by rintro ⟨⟩)
      · exact h hreplay
      · exact absurd (hie.symm.trans h.1) (by rintro ⟨⟩)
    · by_cases hrep : Repeats c w (w.sta i) f
      · refine .kept (hiff.mpr (.inr (.inr hrep))) ?_
        obtain ⟨-, -, hnonce, hptk, htd⟩ := hrep
        have hnew : ∀ {α : Type} (p : Sta → α), p (afterM2 c w now f i) = p (w.sta i) →
            p (w'.sta i) = p (w.sta i) := fun p hp => by rw [hsta, hp]
        exact ⟨hhalted.trans hlive, by rw [hlog]; rfl, hnew Sta.used rfl, hnew Sta.state rfl,
          hnew Sta.retryState rfl, hnew Sta.replay rfl, hnew Sta.ptk hptk, hnew Sta.anonce rfl,
          hnew Sta.snonce hnonce, hnew Sta.assocWpaie rfl, hnew Sta.td htd.symm⟩
      · refine .lost (fun hs => ?_) (fun _ hk => hrep ?_)
        · rcases hiff.mp hs with h | h | h
          · exact absurd (hflags.symm.trans h) (by rintro ⟨⟩)
          · exact h hreplay
          · exact hrep h
        · have hold : ∀ {α : Type} (p : Sta → α), p (w'.sta i) = p (w.sta i) →
              p (afterM2 c w now f i) = p (w.sta i) := fun p hp => by rw [← hsta, hp]
          exact ⟨hie, hlen, hold Sta.snonce hk.snonce, hold Sta.ptk hk.ptk,
            (hold Sta.td hk.td).symm⟩
  · obtain ⟨hflags, hreplay, hlen⟩ := h
    rcases hiff.mp hs with h | h | h
    · exact absurd (hflags.symm.trans h) (by rintro ⟨⟩)
    · exact h hreplay
    · exact absurd h.2.1 (not_le.mpr hlen)

theorem ptkinitdone_settled (hst : (w.sta i).state = .ptkinitdone) :
    wp (do
        let ret ← wpaPtkinitdone c i f
        nasSendWnmNotifications (← getSta i).ea
        return ret) (Settled c w now f i) (fun _ _ => ¬Silent c w now f i)
      (received w now i) := by
  have hs : Silent c w now f i := by simp [Silent, hcm, hst]
  rw [wp_bind]
  refine wp_mono (ptkinitdone_unauthentic c w now f i hst hun) (fun b w1 h1 => ?_)
    (fun _ _ h => h.elim)
  obtain ⟨rfl, rfl⟩ := h1
  simp only [wp_bind, wp_getSta, wp_pure]
  refine wp_mono (nasSendWnmNotifications_sta _ (w.sta i).ea i _) (fun _ w2 h2 => ?_)
    (fun _ _ h => h.elim)
  obtain ⟨hhalted, hsta, hlost⟩ := h2
  exact .kept hs (.of_sta (hhalted.trans hlive) hlost ⟨now, by rw [hsta, received_sta]⟩)

omit hun in
theorem setkeysdone_settled (hrole : c.cfg.role = .authenticator)
    (hst : (w.sta i).state = .setkeysdone) (hused : (w.sta i).used = true) :
    wp (do
        wpaSetkeysdone c i f
        if (← getSta i).state ≠ .ptkstart then return false
        processStart c i f) (Settled c w now f i) (fun _ _ => ¬Silent c w now f i)
      (received w now i) := by
  have hiff : Silent c w now f i ↔ (validRequest c (w.sta i) f = true →
      has f.keyInfo wpaKeyError = true ∧ takesCountermeasures c w now (w.sta i) f = false) := by
    simp [Silent, hcm, hst]
  have hstate : ∀ {w' : World}, (w'.sta i).state ≠ .setkeysdone → ¬Kept i w w' :=
    fun h hk => h (hk.state.trans hst)
  by_cases hs : Silent c w now f i
  · rw [wp_bind]
    refine wp_mono (setkeysdone_discards c w now f i hrole (hiff.mp hs)) (fun _ w1 h1 => ?_)
      (fun _ _ h => h.elim)
    obtain ⟨hhalted, hlog, hsta⟩ := h1
    simp only [wp_bind, wp_getSta, wp_ite, wp_pure]
    refine ⟨fun _ => .kept hs (.received hhalted hlog hsta hlive), fun h => absurd ?_ h⟩
    rw [hsta, received_sta]
    simp [hst]
  · rw [wp_bind]
    have hvalid : validRequest c (w.sta i) f = true := by
      by_contra hno
      exact hs (hiff.mpr fun h => absurd h hno)
    refine wp_mono (setkeysdone_acts c w now f i hrole hvalid) (fun _ w1 h1 => ?_)
      (fun _ _ _ => hs)
    have hgone : (w1.sta i).used = true → (w1.sta i).state ≠ .setkeysdone := by
      intro hu
      cases herr : has f.keyInfo wpaKeyError with
      | false => exact h1.2 herr hu
      | true =>
          cases htakes : takesCountermeasures c w now (w.sta i) f with
          | false => exact absurd (hiff.mpr fun _ => ⟨herr, htakes⟩) hs
          | true =>
              intro hst1
              have hidle := h1.1 herr htakes hu
              rw [hst1] at hidle
              cases hidle
    simp only [wp_bind, wp_getSta, wp_ite, wp_pure]
    refine ⟨fun _ => .lost hs fun _ hk => hstate (hgone (hk.used.trans hused)) hk, fun _ => ?_⟩
    exact wp_mono (processStart_state c w1 f i) (fun _ w2 h2 => .lost hs fun hb => hstate (h2 hb))
      (fun _ _ _ => hs)

theorem rekeyneg_settled (hrole : c.cfg.role = .authenticator)
    (hst : (w.sta i).state = .rekeynegotiating) (hused : (w.sta i).used = true) :
    wp (do
        wpaRekeyneg c i f
        return false) (Settled c w now f i) (fun _ _ => ¬Silent c w now f i)
      (received w now i) := by
  have hiff : Silent c w now f i ↔ (validRequest c (w.sta i) f = true →
      has f.keyInfo wpaKeyError = true → takesCountermeasures c w now (w.sta i) f = false) := by
    simp [Silent, hcm, hst]
  simp only [wpaRekeyneg, wp_bind, wp_getSta, wp_ite, wp_pure, received_sta]
  refine ⟨fun _ => ⟨fun herr => ?_, fun herr => ?_⟩, fun hflags => ?_⟩
  · -- A failure report goes to the handler of the state in which the keys are set.
    by_cases hs : Silent c w now f i
    · refine wp_mono (setkeysdone_discards c w now f i hrole fun hvalid =>
        ⟨herr, hiff.mp hs hvalid herr⟩) (fun _ w1 h1 => ?_) (fun _ _ h => h.elim)
      exact .kept hs (.received h1.1 h1.2.1 h1.2.2 hlive)
    · have hboth : validRequest c (w.sta i) f = true
          ∧ takesCountermeasures c w now (w.sta i) f = true := by
        by_contra hno
        refine hs (hiff.mpr fun hvalid _ => ?_)
        exact eq_false_of_ne_true fun htakes => hno ⟨hvalid, htakes⟩
      refine wp_mono (setkeysdone_acts c w now f i hrole hboth.1)
        (fun _ w1 h1 => .lost hs fun _ => ?_)
        (fun _ _ _ => hs)
      exact not_kept_of_idle hused (by rw [hst]; rfl) (h1.1 herr hboth.2)
  · exact .kept (hiff.mpr fun _ h => absurd h herr) (kept_received hlive)
  · have hok : flagsOk f.keyInfo (wpaKeySecure ||| wpaKeyMic)
        (wpaKeyAck ||| wpaKeyPairwise ||| wpaKeyError) = true := by simpa using hflags
    have hs : Silent c w now f i :=
      hiff.mpr fun _ herr =>
        absurd (herr.symm.trans (flagsOk_not_has hok (by decide))) (by rintro ⟨⟩)
    refine ⟨fun _ => .kept hs (kept_received hlive), fun hreplay =>
      ⟨fun _ => .kept hs (kept_received hlive), fun hmic => ?_⟩⟩
    have hhas : has f.keyInfo wpaKeyMic = true := flagsOk_has hok (by decide) (by decide)
    have hno : ¬(!wpaCheckMic c (w.sta i) f) = true := hmic
    rcases hun with hbad | hbad
    · rw [micVerifies, hhas, hst] at hbad
      refine absurd ?_ hno
      rw [show wpaCheckMic c (w.sta i) f = false from hbad]
      rfl
    · exact absurd hbad hreplay

end Settled

/-- What `process_wpa` does to the station of a frame that is not authentic. -/
theorem processWpa_settled (hrole : c.cfg.role = .authenticator) (hwds : c.cfg.wds = false)
    (hlive : w.halted = false) (hused : (w.sta i).used = true)
    (hbusy : (w.sta i).state.busy = true) (hun : Unauthentic c (w.sta i) f) :
    wp (processWpa c f i) (Settled c w now f i) (fun _ _ => ¬Silent c w now f i)
      (received w now i) := by
  simp only [processWpa, hwds, Bool.false_and, Bool.false_eq_true, if_false]
  rw [wp_bind, wp_getSta, wp_bind, wp_get, wp_ite]
  refine ⟨fun h => ?_, fun h => ?_⟩
  · have hcm : (w.micCountermeasures && wsecTkipEnabled (w.sta i).wsec) = true := by
      rwa [received_sta] at h
    have hs : ¬Silent c w now f i := fun hs => absurd (hcm.symm.trans hs.1) (by rintro ⟨⟩)
    rw [wp_bind]
    refine wp_mono (cleanupSta_spec c false _ i dot11RcMicFailure false) (fun _ w1 h1 => ?_)
      (fun _ _ h => h.elim)
    exact .lost hs fun _ => not_kept_of_idle hused hbusy (h1.2 rfl)
  · have hcm : (w.micCountermeasures && wsecTkipEnabled (w.sta i).wsec) = false := by
      rw [received_sta] at h
      exact eq_false_of_ne_true h
    rw [show ((received w now i).sta i).state = (w.sta i).state by rw [received_sta]]
    cases hst : (w.sta i).state with
    | setkeysdone => exact setkeysdone_settled hlive hcm hrole hst hused
    | ptkinitnegotiating => exact ptkinitnegotiating_settled hlive hun hcm hst
    | ptkinitdone => exact ptkinitdone_settled hlive hun hcm hst
    | rekeynegotiating => exact rekeyneg_settled hlive hun hcm hrole hst hused
    | _ =>
        rw [hst] at hbusy
        cases hbusy

/-! ## The result -/

/-- **Which frames that are not authentic are discarded.** A frame is received for a station in the
middle of a handshake or with keys; its MIC does not verify, or its replay counter is not the one of
the station. The station is left as it was exactly if the frame is one of those of `Silent`. -/
theorem discarded_iff (hrole : c.cfg.role = .authenticator) (hwds : c.cfg.wds = false)
    (hlive : w.halted = false) (hdel : delivered w f i = true) (hused : (w.sta i).used = true)
    (hbusy : (w.sta i).state.busy = true) (hun : Unauthentic c (w.sta i) f) :
    Kept i w (step c w (now, .eapol f)) ↔ Silent c w now f i := by
  refine step_received (P := fun w' => Kept i w w' ↔ Silent c w now f i) hrole hlive hdel ?_
  refine wp_mono (processWpa_settled hrole hwds hlive hused hbusy hun) (fun b w1 h1 => ?_)
    (fun _ w1 hs => ⟨fun hk => absurd hk.live (by rintro ⟨⟩), fun h => absurd h hs⟩)
  cases b with
  | false =>
      rw [if_neg (by rintro ⟨⟩)]
      refine ⟨fun hk => ?_, fun hs => (h1.silent hs).2⟩
      by_contra hs
      exact h1.loud hs rfl hk
  | true =>
      have hs : ¬Silent c w now f i := fun hs => absurd (h1.silent hs).1 (by rintro ⟨⟩)
      rw [if_pos rfl]
      refine wp_mono (cleanupSta_spec c false w1 i dot11Rc8021xAuthFail false) (fun _ w2 h2 => ?_)
        (fun _ _ h => h.elim)
      exact ⟨fun hk => absurd hk (not_kept_of_idle hused hbusy (h2.2 rfl)), fun h => absurd h hs⟩

/-- A station has associated, and message 1 is sent to it. -/
def associated : World :=
  run (step pskContext) (initWorld pskContext) [(1, .assoc (assocMsg (rsnElement 0)))]

/-- A frame that anybody can send in the station's name: it has no element and no MIC. -/
def forged (w : World) (i : Slot) (replay : Bytes) : Frame :=
  { keyFrame (w.sta i) (wpaKeyPairwise ||| wpaKeyMic) with replay := replay }.received
    pskContext.cfg.ea (w.sta i).ea

set_option maxRecDepth 100000 in
/-- Such a frame with another replay counter is discarded. -/
theorem discarded_replay : Kept firstSlot associated
    (step pskContext associated
      (2, .eapol (forged associated firstSlot (List.replicate 8 1)))) := by
  have hw : associated.halted = false
      ∧ delivered associated (forged associated firstSlot (List.replicate 8 1)) firstSlot = true
      ∧ (associated.sta firstSlot).used = true
      ∧ (associated.sta firstSlot).state = .ptkinitnegotiating
      ∧ (associated.micCountermeasures && wsecTkipEnabled (associated.sta firstSlot).wsec) = false
      ∧ (forged associated firstSlot (List.replicate 8 1)).replay
        ≠ (associated.sta firstSlot).replay := by
    decide +kernel
  obtain ⟨hlive, hdel, hused, hst, hcm, hreplay⟩ := hw
  refine (discarded_iff rfl rfl hlive hdel hused (by rw [hst]; rfl) (.inr hreplay)).mpr ⟨hcm, ?_⟩
  rw [hst]
  exact .inr (.inl hreplay)

set_option maxRecDepth 100000 in
/-- **With the right counter**, which is zero, it makes the authenticator deauthenticate the
station: the element is compared before the MIC. -/
theorem wrong_element :
    ¬ ∀ (c : Ctx), c.cfg.role = .authenticator → c.cfg.wds = false →
      ∀ (es : List (Nat × Event)) (now : Nat) (f : Frame) (i : Slot),
      let w := run (step c) (initWorld c) es
      w.halted = false → delivered w f i = true → (w.sta i).used = true →
      (w.sta i).state.busy = true → Unauthentic c (w.sta i) f →
      Kept i w (step c w (now, .eapol f)) := by
  intro h
  have hw : associated.halted = false
      ∧ delivered associated (forged associated firstSlot (List.replicate 8 0)) firstSlot = true
      ∧ (associated.sta firstSlot).used = true
      ∧ (associated.sta firstSlot).state.busy = true
      ∧ micVerifies pskContext (associated.sta firstSlot)
        (forged associated firstSlot (List.replicate 8 0)) = false
      ∧ ((step pskContext associated (2, .eapol (forged associated firstSlot
          (List.replicate 8 0)))).sta firstSlot).used = false := by
    decide +kernel
  obtain ⟨hlive, hdel, hused, hbusy, hmic, hlost⟩ := hw
  have hkept := h pskContext rfl rfl [(1, .assoc (assocMsg (rsnElement 0)))] 2 _ firstSlot hlive
    hdel hused hbusy (.inl hmic)
  exact absurd ((hkept.used.trans hused).symm.trans hlost) (by rintro ⟨⟩)

end BroadcomWl.Nas
