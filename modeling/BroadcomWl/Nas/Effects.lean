import BroadcomWl.Lib.Run
import BroadcomWl.Nas.RefineKeys

/-!
# Elementary effects

Every function of `nas` is a sequence of a few kinds of change to the state. An invariant that
each kind keeps holds of every run, whatever the functions do with it.

**The kinds** (`Effect`). A nonce is drawn from the global key counter, for a station or for the
group key, and the counter advanced; the length of the group key is set; a station is changed, but
its port does not become authenticated and its nonce stays (`StaKept`); a slot is initialised; a key
frame is sent; something else is logged; or what is not tracked here changes (`Aside`).

**Grants.** Four changes are up to the event: which length a group key message of WPA gives, which
station becomes authenticated, what is relayed to it, and which EAP packet is forwarded. A fifth, a
nonce that has not been drawn, needs a frame that is dispatched in the wrong role. An effect carries
them as a parameter, and a function that makes such a change has to be granted it.

**Reports.** The MIC failure count, its time stamp and the countermeasures flag change only in
`wpa_mic_error` and when the lock-out ends (`MicEffect`), at most once in an event (`Changes`).
-/

namespace BroadcomWl.Nas

open BroadcomWl.Lib Relation

/-! ## The counter -/

/-- The nonce is drawn. -/
def Out.isDraw : Out → Bool
  | .draw .. => true
  | _ => false

/-- The counter is initialised again. -/
def Out.isReseed : Out → Bool
  | .reseed _ => true
  | _ => false

def Out.isRelay : Out → Bool
  | .relay _ _ _ _ => true
  | _ => false

/-- A request to the RADIUS server. -/
def Out.isForward : Out → Bool
  | .radiusForward _ _ _ _ => true
  | _ => false

/-- The EAP success with which a port is opened. -/
def Out.isSuccess : Out → Bool
  | .eap _ _ code _ _ => code == eapSuccess
  | _ => false

def Out.isSend : Out → Bool
  | .send .. => true
  | _ => false

def Out.isInit : Out → Bool
  | .init .. => true
  | _ => false

/-- The log entries that need no grant and have nothing to do with nonces. -/
def Out.plain (o : Out) : Bool :=
  !o.isSend && !o.isInit && !o.isDraw && !o.isReseed && !o.isRelay && !o.isForward && !o.isSuccess

theorem Out.plain_success {o : Out} (h : o.plain = true) : o.isSuccess = false := by
  simp only [Out.plain, Bool.and_eq_true, Bool.not_eq_true'] at h
  exact h.2

theorem Out.success_counter {o : Out} (h : o.isSuccess = true) :
    o.isDraw = false ∧ o.isReseed = false := by
  cases o with
  | eap ea preauth code type id => exact ⟨rfl, rfl⟩
  | _ => cases h

theorem Out.success_nonce {o : Out} (h : o.isSuccess = true) :
    o.isSend = false ∧ o.isInit = false := by
  cases o with
  | eap ea preauth code type id => exact ⟨rfl, rfl⟩
  | _ => cases h

theorem Out.success_relay {o : Out} (h : o.isSuccess = true) : o.isRelay = false := by
  cases o with
  | eap ea preauth code type id => rfl
  | _ => cases h

/-- A nonce is drawn, and the counter advanced. -/
def World.drawn (c : Ctx) (user : Option Slot) (w : World) : World :=
  finalState (wpaIncrGkc c) (w.out (.draw user w.globalKeyCounter))

/-- The nonce that this end gives to the handshake with a station. -/
def Ctx.ownNonce (c : Ctx) (s : Sta) : Bytes :=
  match c.cfg.role with
  | .authenticator => s.anonce
  | .supplicant => s.snonce

/-- The nonce in a key frame for the station in a slot. The pairwise messages of an authenticator
carry `anonce`, its group key messages `gnonce` or none; those of a supplicant carry `snonce`. -/
def CarriesNonce (w : World) (i : Slot) (k : KeyFrame) : Prop :=
  if has k.keyInfo wpaKeyAck then
    if has k.keyInfo wpaKeyPairwise then k.nonce = (w.sta i).anonce
    else k.nonce = w.gnonce ∨ k.nonce = List.replicate 32 0
  else k.nonce = (w.sta i).snonce

/-! ## Effects -/

/-- Everything that the effects track is unchanged. -/
structure Aside (w w' : World) : Prop where
  log : w'.log = w.log
  sta : w'.sta = w.sta
  globalKeyCounter : w'.globalKeyCounter = w.globalKeyCounter
  initialGkc : w'.initialGkc = w.initialGkc
  gtkLen : w'.gtkLen = w.gtkLen
  micFailures : w'.micFailures = w.micFailures
  prevMicError : w'.prevMicError = w.prevMicError
  micCountermeasures : w'.micCountermeasures = w.micCountermeasures
  now : w'.now = w.now
  gnonce : w'.gnonce = w.gnonce

/-- What an event is permitted to do. -/
structure Grant where
  /-- The lengths that `gtk_len` may take. -/
  keyLen : Nat → Prop
  /-- The stations whose ports may become authenticated. -/
  authenticate : Slot → Prop
  /-- What may be relayed: the length field and the body. -/
  relay : Nat → Bytes → Prop
  /-- What may be forwarded. -/
  forward : Bytes → Prop
  /-- Whether a station may be given a nonce that has not been drawn for it. -/
  foreignNonce : Prop
  keyLen_le : ∀ n, n ≤ tkipTkLen → keyLen n

/-- Everything is granted. -/
def Grant.all : Grant :=
  ⟨fun _ => True, fun _ => True, fun _ _ => True, fun _ => True, True, fun _ _ => trivial⟩

/-- The station's port does not become authenticated. -/
def PortKept (f : Sta → Sta) : Prop :=
  ∀ s, (f s).pae.state = .authenticated → s.pae.state = .authenticated

/-- The descriptor version of the station has no flag in it. -/
def DescKept (f : Sta → Sta) : Prop := ∀ s, s.desc ≤ 2 → (f s).desc ≤ 2

/-- A change of a station of which the effects track nothing. -/
structure StaKept (c : Ctx) (g : Grant) (f : Sta → Sta) : Prop where
  port : PortKept f
  nonce : g.foreignNonce ∨ ∀ s, c.ownNonce (f s) = c.ownNonce s
  desc : DescKept f

inductive Effect (c : Ctx) (g : Grant) : World → World → Prop
  | aside {w w' : World} (h : Aside w w') : Effect c g w w'
  | note (w : World) {o : Out} (h : o.plain = true) : Effect c g w (w.out o)
  | sta (w : World) (i : Slot) {f : Sta → Sta} (h : StaKept c g f) : Effect c g w (w.updSta i f)
  | keyLen (w : World) {n : Nat} (h : g.keyLen n) : Effect c g w { w with gtkLen := n }
  /-- A nonce is drawn for the station in a slot, and given to it. -/
  | draw (w : World) (i : Slot) {f : Sta → Sta} (hport : PortKept f) (hdesc : DescKept f)
      (hnonce : g.foreignNonce ∨ ∀ s, c.ownNonce (f s) = w.globalKeyCounter) :
      Effect c g w ((w.drawn c (some i)).updSta i f)
  /-- A nonce is drawn for the group key. -/
  | drawGroup (w : World) :
      Effect c g w (World.drawn c none { w with gnonce := w.globalKeyCounter })
  /-- A slot is initialised for a new station. -/
  | enter {w w' : World} (i : Slot) (ea : Bytes) (now : Nat)
      (h : Aside ((w.updSta i fun _ => newSta c ea now).out (.init i ea)) w') : Effect c g w w'
  | send (w : World) (i : Slot) (ea : Bytes) (k : KeyFrame) (gtk : Option (Bytes × Nat))
      (h : (w.sta i).desc ≤ 2 → CarriesNonce w i k) : Effect c g w (w.out (.send i ea k gtk))
  | authenticate (w : World) {i : Slot} (h : g.authenticate i) {f : Sta → Sta} (hdesc : DescKept f)
      (hnonce : ∀ s, c.ownNonce (f s) = c.ownNonce s) : Effect c g w (w.updSta i f)
  | success (w : World) {i : Slot} (h : g.authenticate i) {o : Out} (ho : o.isSuccess = true) :
      Effect c g w (w.out o)
  | relay (w : World) (ea : Bytes) (preauth : Bool) {length : Nat} {eap : Bytes}
      (h : g.relay length eap) : Effect c g w (w.out (.relay ea preauth length eap))
  | forward (w : World) (i : Slot) (username state : Bytes) {eap : Bytes} (h : g.forward eap) :
      Effect c g w (w.out (.radiusForward i username state eap))

/-- A sequence of effects. -/
abbrev Effects (c : Ctx) (g : Grant) : World → World → Prop := ReflTransGen (Effect c g)

/-- What `wpa_mic_error` notes of a report. -/
def World.reported (w : World) : World :=
  { w with micFailures := w.micFailures + 1, prevMicError := w.now }

/-- The changes to what is known about MIC failures. -/
inductive MicEffect (c : Ctx) : World → World → Prop
  | report (w : World) : MicEffect c w w.reported
  /-- Countermeasures begin. -/
  | trigger (w : World) (hrole : c.cfg.role = .authenticator) (hcm : w.micCountermeasures = false)
      (hrecent : (w.now : Int) - w.prevMicError < 60) :
      MicEffect c w { w.reported with micCountermeasures := true }

/-- What a function does: effects, with at most one report among them, and only if `m` holds. -/
inductive Changes (c : Ctx) (g : Grant) (m : Prop) (w w' : World) : Prop
  | calm (h : Effects c g w w')
  | mic {a b : World} (hm : m) (h : Effects c g w a) (hmic : MicEffect c a b)
      (h' : Effects c g b w')

variable {c : Ctx} {g : Grant} {w0 : World}

theorem Changes.before {m : Prop} {w w1 w' : World} (h : Effects c g w w1)
    (h' : Changes c g m w1 w') : Changes c g m w w' := by
  cases h' with
  | calm h1 => exact .calm (h.trans h1)
  | mic hm h1 hmic h2 => exact .mic hm (h.trans h1) hmic h2

theorem Changes.after {m : Prop} {w w1 w' : World} (h : Changes c g m w w1)
    (h' : Effects c g w1 w') : Changes c g m w w' := by
  cases h with
  | calm h1 => exact .calm (h1.trans h')
  | mic hm h1 hmic h2 => exact .mic hm h1 hmic (h2.trans h')

theorem Changes.mono {m m' : Prop} {w w' : World} (h : Changes c g m w w') (hm : m → m') :
    Changes c g m' w w' := by
  cases h with
  | calm h1 => exact .calm h1
  | mic hm1 h1 hmic h2 => exact .mic (hm hm1) h1 hmic h2

theorem Changes.effects {m : Prop} {w w' : World} (h : Changes c g m w w') (hm : ¬m) :
    Effects c g w w' := by
  cases h with
  | calm h1 => exact h1
  | mic hm1 h1 hmic h2 => exact absurd hm1 hm

/-! ## The rules -/

/-- However the function ends, it has had effects only. -/
abbrev Confined (c : Ctx) (g : Grant) (w0 : World) {α : Type} (m : NasM α) : Prop :=
  Keeps (Effects c g w0) (fun _ => Effects c g w0) m

theorem confined_aside {f : World → World} (h : ∀ w, Aside w (f w)) : Confined c g w0 (modify f) :=
  .modifyState fun w hw => hw.tail (.aside (h w))

/-- The fields beside the port that the effects track. -/
def Sta.tracked (s : Sta) : Bytes × Bytes × Nat := (s.anonce, s.snonce, s.desc)

theorem StaKept.of_tracked {f : Sta → Sta} (hport : PortKept f)
    (h : ∀ s, (f s).tracked = s.tracked) :
    StaKept c g f := by
  refine ⟨hport, .inr fun s => ?_, fun s hs => ?_⟩
  · have hanonce : (f s).anonce = s.anonce := congrArg Prod.fst (h s)
    have hsnonce : (f s).snonce = s.snonce := congrArg (fun x => x.2.1) (h s)
    rw [Ctx.ownNonce, hanonce, hsnonce]
    rfl
  · have hdesc : (f s).desc = s.desc := congrArg (fun x => x.2.2) (h s)
    rwa [hdesc]

theorem confined_modSta (i : Slot) {f : Sta → Sta} (h : StaKept c g f) :
    Confined c g w0 (modSta i f) :=
  fun w hw => hw.tail (.sta w i h)

theorem confined_modSta_pae (i : Slot) {f : Sta → Sta}
    (h : ∀ s, ((f s).pae, (f s).tracked) = (s.pae, s.tracked)) : Confined c g w0 (modSta i f) := by
  refine confined_modSta i (.of_tracked (fun s hs => ?_) fun s => congrArg Prod.snd (h s))
  have hpae : (f s).pae = s.pae := congrArg Prod.fst (h s)
  rwa [hpae] at hs

theorem confined_modSta_state (i : Slot) {f : Sta → Sta}
    (h : ∀ s, ((f s).pae.state, (f s).tracked) = (s.pae.state, s.tracked)) :
    Confined c g w0 (modSta i f) := by
  refine confined_modSta i (.of_tracked (fun s hs => ?_) fun s => congrArg Prod.snd (h s))
  have hstate : (f s).pae.state = s.pae.state := congrArg Prod.fst (h s)
  rwa [hstate] at hs

theorem confined_modSta_ne (i : Slot) {f : Sta → Sta} (h : ∀ s, (f s).tracked = s.tracked)
    (hne : ∀ s, (f s).pae.state ≠ .authenticated) : Confined c g w0 (modSta i f) :=
  confined_modSta i (.of_tracked (fun s hs => absurd hs (hne s)) h)

theorem confined_emit {o : Out} (h : o.plain = true) : Confined c g w0 (emit o) :=
  fun w hw => hw.tail (.note w h)

theorem confined_getSta (i : Slot) : Confined c g w0 (getSta i) := fun _ h => h

theorem confined_throw {α : Type} (e : Stop) : Confined c g w0 (throw e : NasM α) :=
  .throw fun _ h => h

theorem confined_oracle {α : Type} (answers : Nat → α) : Confined c g w0 (oracle answers) :=
  fun _ hw => hw.tail (.aside ⟨rfl, rfl, rfl, rfl, rfl, rfl, rfl, rfl, rfl, rfl⟩)

theorem confined_forM {γ : Type} {body : γ → NasM PUnit} (l : List γ)
    (h : ∀ x, Confined c g w0 (body x)) : Confined c g w0 (l.forM body) :=
  fun w hw => wp_forM (fun x _ s hs => h x s hs) w hw

/-! ## The driver, timers and the table -/

theorem confined_nasSetKey (a : KeyArgs) : Confined c g w0 (nasSetKey c a) :=
  .bind (confined_oracle _) fun _ => .bind (confined_emit rfl) fun _ => .pure _

theorem confined_nasDeauthenticate (ea : Bytes) (reason : Nat) :
    Confined c g w0 (nasDeauthenticate c ea reason) :=
  .bind (confined_nasSetKey _) fun _ => confined_emit rfl

theorem confined_nasGetGroupRsc : Confined c g w0 (nasGetGroupRsc c) := by
  refine .bind (confined_oracle _) fun x => ?_
  cases x with
  | some rsc => exact confined_aside fun _ => ⟨rfl, rfl, rfl, rfl, rfl, rfl, rfl, rfl, rfl, rfl⟩
  | none => exact confined_aside fun _ => ⟨rfl, rfl, rfl, rfl, rfl, rfl, rfl, rfl, rfl, rfl⟩

theorem confined_nasGetWpacap : Confined c g w0 (nasGetWpacap c) := by
  refine .bind (confined_oracle _) fun x => ?_
  cases x with
  | some cap => exact confined_aside fun _ => ⟨rfl, rfl, rfl, rfl, rfl, rfl, rfl, rfl, rfl, rfl⟩
  | none => exact .pure _

theorem confined_wpaSetItimer (td : Option Nat) : Confined c g w0 (wpaSetItimer c td) := by
  refine .bind .get fun _ => .bind (confined_oracle _) fun x => ?_
  cases x with
  | createError => exact .pure _
  | ok => exact .pure _
  | connectError => exact .pure _
  | setError => exact .pure _

theorem confined_wpaStopRetx (i : Slot) : Confined c g w0 (wpaStopRetx i) :=
  confined_modSta_pae i fun _ => rfl

theorem confined_armRetx (i : Slot) : Confined c g w0 (armRetx c i) :=
  .bind (confined_getSta i) fun _ => .bind (confined_wpaSetItimer _) fun _ =>
    confined_modSta_pae i fun _ => rfl

theorem confined_setChain {f : World → Slot} {l : World → List Slot} :
    Confined c g w0 (modify fun w => w.setChain (f w) (l w)) :=
  confined_aside fun _ => ⟨rfl, rfl, rfl, rfl, rfl, rfl, rfl, rfl, rfl, rfl⟩

theorem confined_tossSta (i : Slot) (reason : Nat) (driverSignal : Bool) :
    Confined c g w0 (tossSta c i reason driverSignal) := by
  unfold tossSta
  refine .bind (confined_getSta i) fun s => .ifThen (confined_nasDeauthenticate _ _) fun _ => ?_
  exact .bind (confined_wpaStopRetx i) fun _ => .bind confined_setChain fun _ =>
    .bind (confined_modSta_pae i fun _ => rfl) fun _ => confined_emit rfl

theorem confined_cleanupTail (i : Slot) (auth : Bool) : Confined c g w0 (cleanupTail c i auth) := by
  unfold cleanupTail
  refine .bind (confined_wpaStopRetx i) fun _ => .bind (confined_getSta i) fun s => ?_
  exact .ite (confined_modSta_pae i fun _ => rfl) (.ite (confined_tossSta i _ _) (.pure _))

theorem confined_cleanupSta (i : Slot) (reason : Nat) (driverSignal : Bool) :
    Confined c g w0 (cleanupSta c i reason driverSignal) := by
  unfold cleanupSta
  refine .ifThen (confined_modSta_pae i fun _ => rfl) fun _ => .ite ?_ (confined_cleanupTail i _)
  exact .bind (confined_getSta i) fun s => .bind (confined_nasDeauthenticate _ _) fun _ =>
    confined_cleanupTail i _

/-- A new station's port is in its initial state, and no nonce has been drawn for it. -/
theorem newSta_zero (ea : Bytes) (now : Nat) :
    (newSta c ea now).pae = Sta.zero.pae ∧ (newSta c ea now).tracked = Sta.zero.tracked := by
  unfold newSta
  cases c.cfg.role with
  | authenticator =>
      dsimp only
      split
      · exact ⟨rfl, rfl⟩
      · exact ⟨rfl, rfl⟩
  | supplicant =>
      dsimp only
      split
      · exact ⟨rfl, rfl⟩
      · exact ⟨rfl, rfl⟩

theorem confined_enterSta (ea : Bytes) (now : Nat) (i : Slot) :
    Confined c g w0 (enterSta c ea now i) := by
  intro w hw
  simp only [enterSta, wp_bind, wp_modSta, wp_ite, wp_modify, wp_emit]
  refine ⟨fun _ => hw.tail (.enter i ea now ?_), fun _ => hw.tail (.enter i ea now ?_)⟩
  · exact ⟨rfl, rfl, rfl, rfl, rfl, rfl, rfl, rfl, rfl, rfl⟩
  · exact ⟨rfl, rfl, rfl, rfl, rfl, rfl, rfl, rfl, rfl, rfl⟩

theorem confined_lookupSta (ea : Bytes) (enter : Bool) :
    Confined c g w0 (lookupSta c ea enter) := by
  unfold lookupSta
  refine .bind .get fun w => ?_
  cases (w.staHashed (paeHash ea)).find? fun i => (w.sta i).ea = ea with
  | some i => exact .bind (confined_modSta_pae i fun _ => rfl) fun _ => .pure _
  | none =>
      refine .ite (.pure _) ?_
      cases scanSlots w slots w.now none with
      | none => exact .pure _
      | some x =>
          exact .ifThen (confined_tossSta _ _ _) fun _ =>
            .bind (confined_enterSta _ _ _) fun _ => .pure _

/-! ## The port -/

theorem confined_eapolCanned (i : Slot) {code : UInt8} (type : UInt8) (h : code ≠ eapSuccess) :
    Confined c g w0 (eapolCanned i code type) :=
  .bind (confined_getSta i) fun _ => confined_emit <| by
    simp [Out.plain, Out.isSend, Out.isInit, Out.isDraw, Out.isReseed, Out.isRelay, Out.isForward,
      Out.isSuccess, h]

theorem confined_paeConnecting (i : Slot) : Confined c g w0 (paeConnecting i) :=
  .bind (confined_modSta_ne i (fun _ => rfl) fun _ => PaeState.noConfusion) fun _ =>
    .bind (confined_eapolCanned i _ (by decide)) fun _ => confined_modSta_pae i fun _ => rfl

theorem confined_paeState (i : Slot) {st : PaeState} (h : st ≠ .authenticated) :
    Confined c g w0 (paeState i st) := by
  cases st with
  | authenticated => exact absurd rfl h
  | held =>
      exact .bind (confined_modSta_ne i (fun _ => rfl) fun _ => PaeState.noConfusion) fun _ =>
        .bind (confined_eapolCanned i _ (by decide)) fun _ => confined_modSta_state i fun _ => rfl
  | aborting => exact confined_modSta_ne i (fun _ => rfl) fun _ => PaeState.noConfusion
  | disconnected =>
      exact .bind (confined_modSta_ne i (fun _ => rfl) fun _ => PaeState.noConfusion) fun _ =>
        .bind (confined_eapolCanned i _ (by decide)) fun _ =>
          .bind (confined_modSta_ne i (fun _ => rfl) fun _ => PaeState.noConfusion) fun _ =>
            confined_paeConnecting i
  | connecting => exact confined_paeConnecting i
  | authenticating => exact confined_modSta_ne i (fun _ => rfl) fun _ => PaeState.noConfusion
  | initialise => exact confined_modSta_ne i (fun _ => rfl) fun _ => PaeState.noConfusion

theorem confined_eapolStartCase (i : Slot) : Confined c g w0 (eapolStartCase i) := by
  unfold eapolStartCase
  refine .bind (confined_modSta_state i fun _ => rfl) fun _ => .bind (confined_getSta i) fun s => ?_
  refine .ifThen (confined_paeState i PaeState.noConfusion) fun _ => ?_
  exact .bind (confined_paeState i PaeState.noConfusion) fun _ => confined_modSta_pae i fun _ => rfl

theorem confined_sendIdentityReq (i : Slot) : Confined c g w0 (sendIdentityReq c i) := by
  unfold sendIdentityReq
  refine .bind (confined_getSta i) fun s => .bind (confined_lookupSta _ _) fun x => ?_
  cases x with
  | none => exact .pure _
  | some j =>
      refine .bind (confined_getSta j) fun s => .ite (.pure _) (.ite (.pure _) ?_)
      exact .bind (confined_modSta_pae j fun _ => rfl) fun _ => confined_eapolStartCase j

/-! ## Keys and key frames -/

theorem wpaIncrGkc_total (w : World) :
    wp (wpaIncrGkc c) (fun _ _ => True) (fun _ _ => False) w := by
  simp only [wpaIncrGkc, initGlobalKeyCounter, nasRand128, wp_bind, wp_modify, wp_get,
    wp_ite, wp_pure, wp_oracle, wp_emit]
  exact ⟨fun _ => trivial, fun _ => trivial⟩

theorem wpaIncrGkc_drawn (user : Option Slot) (w : World) {E : Stop → World → Prop} :
    wp (wpaIncrGkc c) (fun _ w' => w' = w.drawn c user) E (w.out (.draw user w.globalKeyCounter)) :=
  wp_total (wpaIncrGkc_total _)

/-- What a draw leaves alone. -/
structure Undrawn (w w' : World) : Prop where
  sta : w'.sta = w.sta
  gtkLen : w'.gtkLen = w.gtkLen
  micFailures : w'.micFailures = w.micFailures
  prevMicError : w'.prevMicError = w.prevMicError
  micCountermeasures : w'.micCountermeasures = w.micCountermeasures
  now : w'.now = w.now
  gnonce : w'.gnonce = w.gnonce

theorem drawn_undrawn (user : Option Slot) (w : World) : Undrawn w (w.drawn c user) := by
  unfold World.drawn
  refine wp_finalState (P := Undrawn w) ?_
  simp only [wpaIncrGkc, initGlobalKeyCounter, nasRand128, wp_bind, wp_modify, wp_get,
    wp_ite, wp_pure, wp_oracle, wp_emit]
  exact ⟨fun _ => ⟨rfl, rfl, rfl, rfl, rfl, rfl, rfl⟩, fun _ => ⟨rfl, rfl, rfl, rfl, rfl, rfl, rfl⟩⟩

/-- A station is given the nonce that has been drawn for it, before anything else happens. -/
theorem confined_draw {α : Type} (i : Slot) {f : Bytes → Sta → Sta} {m : Bytes → NasM α}
    (hkept : ∀ n s, ((f n s).pae, (f n s).desc) = (s.pae, s.desc))
    (hnonce : g.foreignNonce ∨ ∀ n s, c.ownNonce (f n s) = n) (hm : ∀ n, Confined c g w0 (m n)) :
    Confined c g w0 (nextNonce c i >>= fun n => modSta i (f n) >>= fun _ => m n) := by
  intro w hw
  simp only [nextNonce, wp_bind, wp_get, wp_emit, wp_pure, wp_modSta]
  refine wp_mono (wpaIncrGkc_drawn (some i) w) (fun _ w' h => ?_) (fun _ _ h => h)
  subst h
  refine hm _ _
    (hw.tail (.draw w i (fun s hs => ?_) (fun s hs => ?_) (hnonce.imp_right fun h => h _)))
  · have hpae : (f w.globalKeyCounter s).pae = s.pae := congrArg Prod.fst (hkept _ s)
    rwa [hpae] at hs
  · have hdesc : (f w.globalKeyCounter s).desc = s.desc := congrArg Prod.snd (hkept _ s)
    rwa [hdesc]

theorem confined_nasWpaCalcPmkid (i : Slot) : Confined c g w0 (nasWpaCalcPmkid c i) :=
  confined_modSta_pae i fun _ => rfl

theorem confined_wpaCalcPtk (i : Slot) : Confined c g w0 (wpaCalcPtk c i) := by
  unfold wpaCalcPtk
  exact .bind (confined_getSta i) fun _ => .ifThen (confined_throw _) fun _ =>
    confined_modSta_pae i fun _ => rfl

theorem gtkLenOf_le {cipher n : Nat} (h : gtkLenOf cipher = some n) : n ≤ tkipTkLen := by
  unfold gtkLenOf at h
  split at h
  · cases h
    exact le_refl _
  · split at h
    · cases h
      decide
    · cases h

theorem confined_wpaGenGtk : Confined c g w0 (wpaGenGtk c) := by
  intro w hw
  simp only [wpaGenGtk, wp_bind, wp_get]
  cases hlen : gtkLenOf (wpaMcastCipher c.cfg.wsec (wepKey2algo w.gtkLen)) with
  | none => exact hw
  | some len =>
      simp only [wp_bind, wp_modify, wp_emit]
      have hw1 : Effects c g w0 { w with gtkLen := len } :=
        hw.tail (.keyLen w (g.keyLen_le len (gtkLenOf_le hlen)))
      refine wp_mono (wpaIncrGkc_drawn none { w with gtkLen := len, gnonce := w.globalKeyCounter })
        (fun _ w' h => ?_) (fun _ _ h => h)
      have hw2 : Effects c g w0 w' := by
        rw [h]
        exact hw1.tail (.drawGroup { w with gtkLen := len })
      exact hw2.tail (.aside ⟨rfl, rfl, rfl, rfl, rfl, rfl, rfl, rfl, rfl, rfl⟩)

theorem confined_wpaPlumbGtk (primary : Bool) : Confined c g w0 (wpaPlumbGtk c primary) := by
  unfold wpaPlumbGtk
  refine .bind .get fun _ => .bind (confined_nasSetKey _) fun ret => .ite ?_ ?_
  · exact .ite (.pure _) (confined_throw _)
  · exact .bind (confined_aside fun _ => ⟨rfl, rfl, rfl, rfl, rfl, rfl, rfl, rfl, rfl, rfl⟩)
      fun _ => .pure _

theorem confined_wpaSetGtkTimer : Confined c g w0 (wpaSetGtkTimer c) := by
  unfold wpaSetGtkTimer
  refine .ite (.bind .get fun w => .bind (confined_wpaSetItimer _) fun td => ?_) (.pure _)
  exact confined_aside fun _ => ⟨rfl, rfl, rfl, rfl, rfl, rfl, rfl, rfl, rfl, rfl⟩

theorem confined_wpaInitGtk : Confined c g w0 (wpaInitGtk c) :=
  .bind confined_wpaGenGtk fun _ => .bind (confined_wpaPlumbGtk _) fun _ => confined_wpaSetGtkTimer

theorem confined_ensureGtk : Confined c g w0 (ensureGtk c) :=
  .bind .get fun _ => .ite confined_wpaInitGtk confined_nasGetGroupRsc

theorem confined_wpaInsertGtk : Confined c g w0 (wpaInsertGtk c) :=
  .bind confined_ensureGtk fun _ => .bind .get fun _ => .pure _

theorem confined_wpaEncrGtk (s : Sta) : Confined c g w0 (wpaEncrGtk c s) := by
  unfold wpaEncrGtk
  refine .bind .get fun w => .ite (.pure _) (.ite ?_ (.pure _))
  exact .bind (confined_aside fun _ => ⟨rfl, rfl, rfl, rfl, rfl, rfl, rfl, rfl, rfl, rfl⟩) fun _ =>
    .pure _

theorem confined_wpaGetRsnCap : Confined c g w0 (wpaGetRsnCap c) := by
  refine .bind (confined_oracle _) fun x => ?_
  cases x with
  | none => exact .pure _
  | some buf => exact .pure _

theorem confined_buildCap : Confined c g w0 (buildCap c) := by
  unfold buildCap
  refine .ite (.pure _) (.bind confined_wpaGetRsnCap fun x => ?_)
  cases x with
  | none => exact .bind .get fun _ => .pure _
  | some cap => exact .pure _

theorem confined_wpaBuildIe (wsec algo staMode bufLen : Nat) :
    Confined c g w0 (wpaBuildIe c wsec algo staMode bufLen) := by
  unfold wpaBuildIe
  refine .ite (.ite (.bind (confined_oracle _) fun x => ?_) (.pure _)) ?_
  · cases x with
    | none => exact .pure _
    | some buf => exact .pure _
  · dsimp only
    refine .ite (.bind confined_buildCap fun _ => .bind (.pure _) fun ie2 => ?_)
      (.bind (.pure _) fun ie2 => ?_)
    all_goals
      cases ie2 with
      | none => exact .pure _
      | some ie2 =>
          refine .ite (.pure _) (.ite ?_ (.pure _))
          exact .bind confined_buildCap fun _ => .pure _

/-! ### What is sent -/

theorem has_or (a b m : Nat) : has (a ||| b) m = (has a m || has b m) := by
  simp only [has, Nat.and_or_distrib_right, bne, Nat.or_eq_zero_iff]
  cases ha : a &&& m == 0 <;> cases hb : b &&& m == 0 <;> simp_all

theorem has_desc {desc m : Nat} (h : desc ≤ 2) (hm : m &&& 3 = 0) : has desc m = false := by
  have hdesc : desc &&& 3 = desc := by
    interval_cases desc <;> rfl
  rw [has, ← hdesc, Nat.and_assoc, Nat.and_comm 3 m, hm, Nat.and_zero]
  rfl

theorem has_wpaKeyAck : has wpaKeyAck wpaKeyAck = true := rfl

theorem has_wpaKeyPairwise : has wpaKeyPairwise wpaKeyPairwise = true := rfl

theorem confined_send {i : Slot} {ea : Bytes} {k : KeyFrame} {gtk : Option (Bytes × Nat)}
    {w : World} (hw : Effects c g w0 w) (h : (w.sta i).desc ≤ 2 → CarriesNonce w i k) :
    Effects c g w0 (w.out (.send i ea k gtk)) :=
  hw.tail (.send w i ea k gtk h)

theorem carriesNonce_pairwise {w : World} {i : Slot} {k : KeyFrame}
    (hack : has k.keyInfo wpaKeyAck = true) (hpairwise : has k.keyInfo wpaKeyPairwise = true)
    (hk : k.nonce = (w.sta i).anonce) : CarriesNonce w i k := by
  rw [CarriesNonce, if_pos hack, if_pos hpairwise]
  exact hk

theorem carriesNonce_group {w : World} {i : Slot} {k : KeyFrame}
    (hack : has k.keyInfo wpaKeyAck = true) (hpairwise : has k.keyInfo wpaKeyPairwise = false)
    (hk : k.nonce = w.gnonce ∨ k.nonce = List.replicate 32 0) : CarriesNonce w i k := by
  rw [CarriesNonce, if_pos hack, if_neg (by simp [hpairwise])]
  exact hk

theorem carriesNonce_supplicant {w : World} {i : Slot} {k : KeyFrame}
    (hack : has k.keyInfo wpaKeyAck = false) (hk : k.nonce = (w.sta i).snonce) :
    CarriesNonce w i k := by
  rw [CarriesNonce, if_neg (by simp [hack])]
  exact hk

theorem confined_sendPtkstart (i : Slot) : Confined c g w0 (sendPtkstart i) := by
  intro w hw
  simp only [sendPtkstart, wp_bind, wp_getSta, wp_emit, wp_pure]
  refine confined_send hw fun _ => carriesNonce_pairwise ?_ ?_ rfl
  · simp [keyFrame, has_or, has_wpaKeyAck]
  · simp [keyFrame, has_or, has_wpaKeyPairwise]

theorem confined_sendPtkinitnegotiating (i : Slot) :
    Confined c g w0 (sendPtkinitnegotiating c i) := by
  intro w hw
  -- The flags that every variant of the message has.
  have hflags : ∀ {w1 : World} {k : KeyFrame}, w1.sta = w.sta → has k.keyInfo wpaKeyAck = true →
      has k.keyInfo wpaKeyPairwise = true → k.nonce = (w.sta i).anonce → CarriesNonce w1 i k := by
    intro w1 k hsta hack hpairwise hnonce
    exact carriesNonce_pairwise hack hpairwise (by rw [hnonce, hsta])
  simp only [sendPtkinitnegotiating, wp_bind, wp_getSta, wp_get]
  refine wp_mono (wp_and (confined_wpaBuildIe _ _ _ _ w hw) (wpaBuildIe_spec c true w _ _ _ _))
    (fun x w1 h1 => ?_) (fun _ _ h => h.1)
  cases x with
  | none => exact h1.1
  | some ie =>
      simp only [wp_ite]
      refine ⟨fun _ => ?_, fun _ => ?_⟩
      · rw [wp_bind]
        refine wp_mono (wp_and (confined_wpaInsertGtk w1 h1.1) (wpaInsertGtk_sta c w1))
          (fun kde w2 h2 => ?_) (fun _ _ h => h.1)
        simp only [wp_bind, wp_get]
        split
        · exact h2.1
        · simp only [wp_bind, wp_emit, wp_pure]
          refine confined_send (h2.1.tail (.note w2 rfl)) fun _ =>
            hflags (h2.2.trans h1.2.1.sta) ?_ ?_ rfl
          · simp only [KeyFrame.sign, keyFrame]
            split <;> simp [has_or, has_wpaKeyAck]
          · simp only [KeyFrame.sign, keyFrame]
            split <;> simp [has_or, has_wpaKeyPairwise]
      · simp only [wp_bind, wp_emit, wp_pure]
        refine confined_send h1.1 fun _ => hflags h1.2.1.sta ?_ ?_ rfl
        · simp only [KeyFrame.sign, keyFrame]
          split <;> simp [has_or, has_wpaKeyAck]
        · simp only [KeyFrame.sign, keyFrame]
          split <;> simp [has_or, has_wpaKeyPairwise]

theorem wpaEncrGtk_kept (s : Sta) (w : World) :
    wp (wpaEncrGtk c s) (fun _ w' => w'.sta = w.sta ∧ w'.gnonce = w.gnonce)
      (fun _ _ => True) w := by
  simp only [wpaEncrGtk, wp_bind, wp_get, wp_ite, wp_pure, wp_modify]
  refine ⟨fun _ => ?_, fun _ => ⟨fun _ => ?_, fun _ => ?_⟩⟩
  · trivial
  · trivial
  · trivial

theorem confined_sendRekeynegotiating (i : Slot) : Confined c g w0 (sendRekeynegotiating c i) := by
  intro w hw
  simp only [sendRekeynegotiating, wp_bind, wp_getSta, wp_get, wp_ite]
  refine ⟨fun _ => ?_, fun _ => ?_⟩
  · refine wp_mono (wp_and (confined_wpaInsertGtk w hw) (wpaInsertGtk_sta c w))
      (fun kde w1 h1 => ?_) (fun _ _ h => h.1)
    split
    · exact h1.1
    · simp only [wp_bind, wp_emit, wp_pure]
      refine confined_send (h1.1.tail (.note w1 rfl)) fun hdesc => ?_
      have hdesc' : (w.sta i).desc ≤ 2 := by
        rw [← h1.2]
        exact hdesc
      refine carriesNonce_group ?_ ?_ (Or.inr rfl)
      · simp [KeyFrame.sign, keyFrame, has_or, has_wpaKeyAck]
      · simp [KeyFrame.sign, keyFrame, has_or, has_desc hdesc' (m := wpaKeyPairwise) rfl]
        decide
  · refine wp_mono (wp_and (confined_wpaEncrGtk (w.sta i) w hw) (wpaEncrGtk_kept (w.sta i) w))
      (fun x w1 h1 => ?_) (fun _ _ h => h.1)
    cases x with
    | none => exact h1.1
    | some data =>
        simp only [wp_bind, wp_emit, wp_pure]
        refine confined_send (h1.1.tail (.note w1 rfl)) fun hdesc => ?_
        have hdesc' : (w.sta i).desc ≤ 2 := by
          rw [← h1.2.1]
          exact hdesc
        have hindex : has ((w.gtkIndex <<< 4) &&& wpaKeyIndexMask) wpaKeyPairwise = false := by
          rw [has, Nat.and_assoc, show wpaKeyIndexMask &&& wpaKeyPairwise = 0 from rfl,
            Nat.and_zero]
          rfl
        refine carriesNonce_group ?_ ?_ (Or.inl h1.2.2.symm)
        · simp [KeyFrame.sign, keyFrame, has_or, has_wpaKeyAck]
        · simp only [KeyFrame.sign, keyFrame, has_or, hindex,
            has_desc hdesc' (m := wpaKeyPairwise) rfl]
          rfl

theorem confined_sendStakeystart (i : Slot) (pairwise : Bool) :
    Confined c g w0 (sendStakeystart c i pairwise) := by
  intro w hw
  -- The end of the function, in a world whose station has the nonce and the descriptor of the
  -- first.
  have hend : ∀ (w1 : World) (k : KeyFrame), Effects c g w0 w1 →
      (w1.sta i).snonce = (w.sta i).snonce → (w1.sta i).desc = (w.sta i).desc →
      k.nonce = (w.sta i).snonce → ((w.sta i).desc ≤ 2 → has k.keyInfo wpaKeyAck = false) →
      ((w.sta i).desc = wpaKeyDescV1 ∨ (w.sta i).desc = wpaKeyDescV2 →
        Effects c g w0 (w1.out (.send i (w.sta i).ea k none))) ∧
      (¬((w.sta i).desc = wpaKeyDescV1 ∨ (w.sta i).desc = wpaKeyDescV2) →
        ((!c.cfg.wds) = true → Effects c g w0 (w1.out .disassoc)) ∧
        (¬(!c.cfg.wds) = true → Effects c g w0 w1)) := by
    intro w1 k hw1 hsnonce hdesc hk hack
    refine ⟨fun _ => confined_send hw1 fun hle => ?_,
      fun _ => ⟨fun _ => hw1.tail (.note w1 rfl), fun _ => hw1⟩⟩
    rw [hdesc] at hle
    exact carriesNonce_supplicant (hack hle) (hk.trans hsnonce.symm)
  have hinfo : ∀ p q : Bool, (w.sta i).desc ≤ 2 →
      has (if q = true then
          (w.sta i).desc ||| wpaKeyMic ||| (if p then wpaKeyPairwise else wpaKeySecure) |||
            wpaKeySecure
        else (w.sta i).desc ||| wpaKeyMic ||| (if p then wpaKeyPairwise else wpaKeySecure))
          wpaKeyAck =
        false := by
    intro p q hle
    have hno : has (w.sta i).desc wpaKeyAck = false := has_desc hle rfl
    cases p <;> cases q <;> simp only [has_or, hno, if_true, if_false, Bool.false_eq_true] <;> rfl
  have hpk : ∀ w1 : World, Effects c g w0 w1 →
      Effects c g w0 (w1.updSta i fun s => { s with pkState := .msg3 }) :=
    fun w1 hw1 =>
      confined_modSta_pae i (f := fun s => { s with pkState := .msg3 }) (fun _ => rfl) w1 hw1
  simp only [sendStakeystart, wp_bind, wp_getSta, wp_ite]
  refine ⟨fun _ => ?_, fun _ => ?_⟩
  · refine wp_mono (wp_and (confined_wpaBuildIe _ _ _ _ w hw) (wpaBuildIe_spec c true w _ _ _ _))
      (fun x w1 h1 => ?_) (fun _ _ h => h.1)
    have hsta : w1.sta = w.sta := h1.2.1.sta
    cases x with
    | none => exact h1.1
    | some data =>
        simp only [wp_bind, wp_modSta, wp_emit, wp_pure, wp_ite]
        refine ⟨fun _ => hend _ _ (hpk w1 h1.1) ?_ ?_ rfl ?_, fun _ => hend _ _ h1.1 ?_ ?_ rfl ?_⟩
        · rw [World.updSta_same, hsta]
        · rw [World.updSta_same, hsta]
        · exact hinfo pairwise _
        · rw [hsta]
        · rw [hsta]
        · exact hinfo pairwise _
  · simp only [wp_bind, wp_modSta, wp_emit, wp_pure, wp_ite]
    refine ⟨fun _ => hend _ _ (hpk w hw) ?_ ?_ rfl ?_, fun _ => hend _ _ hw rfl rfl rfl ?_⟩
    · rw [World.updSta_same]
    · rw [World.updSta_same]
    · exact hinfo pairwise _
    · exact hinfo pairwise _

theorem confined_wpaSendEapol (i : Slot) : Confined c g w0 (wpaSendEapol c i) := by
  refine .bind (confined_getSta i) fun s => ?_
  cases s.state with
  | ptkstart => exact confined_sendPtkstart i
  | ptkinitnegotiating => exact confined_sendPtkinitnegotiating i
  | rekeynegotiating => exact confined_sendRekeynegotiating i
  | supInitialise =>
      intro w hw
      simp only [wp_bind, wp_getSta, wp_emit, wp_pure]
      refine confined_send hw fun hdesc => carriesNonce_supplicant ?_ rfl
      have hno : has (w.sta i).desc wpaKeyAck = false := has_desc hdesc rfl
      simp only [keyFrame, has_or, hno]
      rfl
  | supStakeystartp => exact confined_sendStakeystart i true
  | supStakeystartg => exact confined_sendStakeystart i false
  | _ => exact .pure _

/-! ## What is logged -/

/-- What is relayed or forwarded has been granted. -/
def Grant.allows (g : Grant) : Out → Prop
  | .relay _ _ length eap => g.relay length eap
  | .radiusForward _ _ _ eap => g.forward eap
  | _ => True

theorem allows_of {o : Out} (hr : o.isRelay = false) (hf : o.isForward = false) : g.allows o := by
  cases o with
  | relay ea preauth length eap => cases hr
  | radiusForward i username state eap => cases hf
  | _ => trivial

theorem Out.success_forward {o : Out} (h : o.isSuccess = true) : o.isForward = false := by
  cases o with
  | eap ea preauth code type id => rfl
  | _ => cases h

/-- The entries that have been added to the log are allowed. -/
def LogsGranted (g : Grant) (w w' : World) : Prop :=
  ∃ new, w'.log = new ++ w.log ∧ ∀ o ∈ new, g.allows o

theorem LogsGranted.trans {w w' w'' : World} (h : LogsGranted g w w') (h' : LogsGranted g w' w'') :
    LogsGranted g w w'' := by
  obtain ⟨new, hlog, hnew⟩ := h
  obtain ⟨new', hlog', hnew'⟩ := h'
  refine ⟨new' ++ new, by rw [hlog', hlog, List.append_assoc], fun o hmem => ?_⟩
  rcases List.mem_append.mp hmem with hm | hm
  · exact hnew' o hm
  · exact hnew o hm

theorem logsGranted_same {w w' : World} (h : w'.log = w.log) : LogsGranted g w w' :=
  ⟨[], h, fun _ hm => absurd hm List.not_mem_nil⟩

theorem logsGranted_out (w : World) {o : Out} (h : g.allows o) : LogsGranted g w (w.out o) := by
  refine ⟨[o], rfl, fun o' hmem => ?_⟩
  rwa [List.mem_singleton.mp hmem]

theorem logsGranted_drawn (user : Option Slot) (w : World) : LogsGranted g w (w.drawn c user) := by
  unfold World.drawn
  refine wp_finalState (P := fun w1 : World => LogsGranted g w w1) ?_
  simp only [wpaIncrGkc, initGlobalKeyCounter, nasRand128, wp_bind, wp_modify, wp_get,
    wp_ite, wp_pure, wp_oracle, wp_emit]
  refine ⟨fun _ => ?_, fun _ => ?_⟩
  · exact (logsGranted_out w (allows_of rfl rfl)).trans (logsGranted_out _ (allows_of rfl rfl))
  · exact logsGranted_out w (allows_of rfl rfl)

theorem Effect.logsGranted {w w' : World} (h : Effect c g w w') : LogsGranted g w w' := by
  cases h with
  | aside ha => exact logsGranted_same ha.log
  | note ho =>
      simp only [Out.plain, Bool.and_eq_true, Bool.not_eq_true'] at ho
      exact logsGranted_out w (allows_of ho.1.1.2 ho.1.2)
  | draw i hport hdesc hnonce => exact logsGranted_drawn (some i) w
  | drawGroup => exact logsGranted_drawn none { w with gnonce := w.globalKeyCounter }
  | enter i ea now h =>
      refine LogsGranted.trans ?_ (logsGranted_same h.log)
      exact logsGranted_out (w.updSta i fun _ => newSta c ea now) (allows_of rfl rfl)
  | send i ea k gtk h => exact logsGranted_out w (allows_of rfl rfl)
  | success hi ho =>
    exact logsGranted_out w (allows_of (Out.success_relay ho) (Out.success_forward ho))
  | relay ea preauth hr => exact logsGranted_out w hr
  | forward i username state hf => exact logsGranted_out w hf
  | _ => exact logsGranted_same rfl

theorem Effects.logsGranted {w w' : World} (h : Effects c g w w') : LogsGranted g w w' :=
  reach_invariant (I := LogsGranted g w) (fun _ _ ha hab => ha.trans hab.logsGranted) h
    (logsGranted_same rfl)

theorem Changes.logsGranted {m : Prop} {w w' : World} (h : Changes c g m w w') :
    LogsGranted g w w' := by
  cases h with
  | calm h1 => exact Effects.logsGranted h1
  | mic hm h1 hmic h2 =>
      refine (Effects.logsGranted h1).trans (LogsGranted.trans ?_ (Effects.logsGranted h2))
      cases hmic with
      | report => exact logsGranted_same rfl
      | trigger hrole hcm hrecent => exact logsGranted_same rfl

end BroadcomWl.Nas
