import BroadcomWl.Nas.EffectsStep

/-!
# Nonces

Every `anonce`, `snonce` and `gnonce` is the value that the global key counter has when it is drawn,
and each draw advances the counter. So the nonces drawn since the counter was last initialised are
the first values of a cycle. What a station or the group key holds, and what a key frame carries, is
the nonce that was last drawn for it (`drawnFor`).

**`nonces_consecutive`.** The nonces drawn are consecutive numbers modulo `2 ^ 256` and distinct,
the counter is initialised again exactly when it has gone through all its values, and the nonces in
use are the ones drawn. -/

namespace BroadcomWl.Nas

open BroadcomWl.Lib Relation

/-- The value that the counter was last initialised with, and the nonces drawn since, the oldest
first. -/
def epoch (seed : Bytes) : List Out → Bytes × List Bytes
  | [] => (seed, [])
  | .draw _ nonce :: l => ((epoch seed l).1, (epoch seed l).2 ++ [nonce])
  | .reseed gkc :: _ => (gkc, [])
  | _ :: l => epoch seed l

/-- The value that the counter is initialised with at the start. -/
def firstSeed (c : Ctx) : Bytes := (bootWorld c).initialGkc

/-- A log in which the nonces are the values of a counter of 32 octets, which is initialised again
at the end of a cycle. -/
def Cyclic (seed : Bytes) : List Out → Prop
  | [] => seed.length = 32
  | o :: l => Cyclic seed l
      ∧ (o.isReseed = true ↔ (epoch seed l).2.length = 256 ^ 32)
      ∧ (∀ user nonce, o = .draw user nonce →
        nonce = incr^[(epoch seed l).2.length] (epoch seed l).1)
      ∧ (∀ gkc, o = .reseed gkc → gkc.length = 32)

section Log

variable {seed : Bytes} {l l' : List Out} {o : Out}

theorem epoch_other (hd : o.isDraw = false) (hr : o.isReseed = false) :
    epoch seed (o :: l) = epoch seed l := by
  cases o with
  | draw user nonce => cases hd
  | reseed gkc => cases hr
  | _ => rfl

theorem Cyclic.suffix (h : Cyclic seed l) (hl : l' <:+ l) : Cyclic seed l' := by
  induction l with
  | nil =>
      rw [List.suffix_nil.mp hl]
      exact h
  | cons o l ih =>
      rcases List.suffix_cons_iff.mp hl with rfl | hl
      · exact h
      · exact ih h.1 hl

theorem Cyclic.values (h : Cyclic seed l) : (epoch seed l).1.length = 32
    ∧ (epoch seed l).2 = List.iterate incr (epoch seed l).1 (epoch seed l).2.length
    ∧ (epoch seed l).2.length ≤ 256 ^ 32 := by
  induction l with
  | nil => exact ⟨h, rfl, Nat.zero_le _⟩
  | cons o l ih =>
      obtain ⟨hlen, hvalues, hle⟩ := ih h.1
      cases o with
      | draw user nonce =>
          have hlt : (epoch seed l).2.length ≠ 256 ^ 32 :=
            fun heq => Bool.noConfusion (h.2.1.mpr heq)
          refine ⟨hlen, ?_, ?_⟩
          · show (epoch seed l).2 ++ [nonce]
              = List.iterate incr (epoch seed l).1 ((epoch seed l).2 ++ [nonce]).length
            rw [List.length_append, List.length_singleton, List.iterate_add, ← hvalues,
              h.2.2.1 user nonce rfl]
            rfl
          · show ((epoch seed l).2 ++ [nonce]).length ≤ _
            rw [List.length_append, List.length_singleton]
            omega
      | reseed gkc => exact ⟨h.2.2.2 gkc rfl, rfl, Nat.zero_le _⟩
      | _ => exact ⟨hlen, hvalues, hle⟩

end Log

/-! ## The counter and the log -/

/-- The counter has counted the nonces in the log, and is not at the end of its cycle. -/
structure Counts (seed : Bytes) (w : World) : Prop where
  cyclic : Cyclic seed w.log
  initial : w.initialGkc = (epoch seed w.log).1
  counter : w.globalKeyCounter = incr^[(epoch seed w.log).2.length] (epoch seed w.log).1
  room : (epoch seed w.log).2.length < 256 ^ 32

variable {c : Ctx} {g : Grant} {seed : Bytes} {w w' : World}

theorem Counts.of_eq (h : Counts seed w) (hlog : w'.log = w.log)
    (hgkc : w'.globalKeyCounter = w.globalKeyCounter) (hinit : w'.initialGkc = w.initialGkc) :
    Counts seed w' := by
  refine ⟨?_, ?_, ?_, ?_⟩
  · rw [hlog]
    exact h.cyclic
  · rw [hlog, hinit]
    exact h.initial
  · rw [hlog, hgkc]
    exact h.counter
  · rw [hlog]
    exact h.room

theorem Counts.note (h : Counts seed w) {o : Out} (hd : o.isDraw = false)
    (hr : o.isReseed = false) :
    Counts seed (w.out o) := by
  have heq : epoch seed (w.out o).log = epoch seed w.log := epoch_other hd hr
  refine ⟨⟨h.cyclic, ?_, ?_, ?_⟩, ?_, ?_, ?_⟩
  · have := h.room
    simp only [hr, Bool.false_eq_true, false_iff]
    omega
  · rintro user nonce rfl
    cases hd
  · rintro gkc rfl
    cases hr
  · rw [heq]
    exact h.initial
  · rw [heq]
    exact h.counter
  · rw [heq]
    exact h.room

/-- Advancing the counter after a draw: it is initialised again if it is back at its first value. -/
inductive Drawn (user : Option Slot) (w w' : World) : Prop
  | next (hne : incr w.globalKeyCounter ≠ w.initialGkc)
      (hlog : w'.log = .draw user w.globalKeyCounter :: w.log)
      (hgkc : w'.globalKeyCounter = incr w.globalKeyCounter) (hinit : w'.initialGkc = w.initialGkc)
  | again (hback : incr w.globalKeyCounter = w.initialGkc) (gkc : Bytes) (hlen : gkc.length = 32)
      (hlog : w'.log = .reseed gkc :: .draw user w.globalKeyCounter :: w.log)
      (hgkc : w'.globalKeyCounter = gkc) (hinit : w'.initialGkc = gkc)

theorem drawn_spec (user : Option Slot) (w : World) : Drawn user w (w.drawn c user) := by
  unfold World.drawn
  refine wp_finalState (P := Drawn user w) ?_
  simp only [wpaIncrGkc, initGlobalKeyCounter, nasRand128, wp_bind, wp_modify, wp_get,
    wp_ite, wp_pure, wp_oracle, wp_emit]
  refine ⟨fun heq => .again heq _ ?_ rfl rfl rfl, fun hne => .next hne rfl rfl rfl⟩
  exact List.length_take_of_le (c.crypto.le_fPRF_length _ _ _ _)

/-- **A draw.** -/
theorem Counts.draw (h : Counts seed w) (user : Option Slot) : Counts seed (w.drawn c user) := by
  obtain ⟨hlen, -, -⟩ := h.cyclic.values
  have hroom := h.room
  -- The log with the nonce.
  have hcyclic : Cyclic seed (.draw user w.globalKeyCounter :: w.log) := by
    refine ⟨h.cyclic, ?_, ?_, ?_⟩
    · simp only [Out.isReseed, Bool.false_eq_true, false_iff]
      omega
    · rintro user nonce heq
      cases heq
      exact h.counter
    · rintro gkc ⟨⟩
  have hcount : (epoch seed (.draw user w.globalKeyCounter :: w.log)).2.length
      = (epoch seed w.log).2.length + 1 := by
    show ((epoch seed w.log).2 ++ [w.globalKeyCounter]).length = _
    rw [List.length_append, List.length_singleton]
  have hnext : incr w.globalKeyCounter
      = incr^[(epoch seed w.log).2.length + 1] (epoch seed w.log).1 := by
    rw [Function.iterate_succ_apply', ← h.counter]
  have hwrap : incr w.globalKeyCounter = w.initialGkc ↔
      (epoch seed w.log).2.length + 1 = 256 ^ 32 := by
    rw [hnext, h.initial, iterate_incr_eq_self (Nat.succ_pos _) (by rw [hlen]; omega), hlen]
  cases drawn_spec (c := c) user w with
  | next hne hlog hgkc hinit =>
      refine ⟨?_, ?_, ?_, ?_⟩
      · rw [hlog]
        exact hcyclic
      · rw [hlog, hinit]
        exact h.initial
      · rw [hlog, hgkc, hcount, hnext]
        rfl
      · rw [hlog, hcount]
        have := mt hwrap.mpr hne
        omega
  | again hback gkc hgkc hlog hcounter hinit =>
      refine ⟨?_, ?_, ?_, ?_⟩
      · rw [hlog]
        refine ⟨hcyclic, ?_, ?_, ?_⟩
        · rw [hcount]
          exact ⟨fun _ => hwrap.mp hback, fun _ => rfl⟩
        · rintro user nonce ⟨⟩
        · rintro gkc' heq'
          cases heq'
          exact hgkc
      · rw [hlog, hinit]
        rfl
      · rw [hlog, hcounter]
        rfl
      · rw [hlog]
        exact Nat.pow_pos (by decide)

theorem Counts.effect (h : Counts seed w) (he : Effect c g w w') : Counts seed w' := by
  cases he with
  | aside ha => exact h.of_eq ha.log ha.globalKeyCounter ha.initialGkc
  | note ho =>
      simp only [Out.plain, Bool.and_eq_true, Bool.not_eq_true'] at ho
      exact h.note ho.1.1.1.1.2 ho.1.1.1.2
  | sta i hf => exact h.of_eq rfl rfl rfl
  | keyLen hn => exact h.of_eq rfl rfl rfl
  | draw i hport hdesc hnonce => exact (h.draw (some i)).of_eq rfl rfl rfl
  | drawGroup =>
      have h' : Counts seed { w with gnonce := w.globalKeyCounter } := h.of_eq rfl rfl rfl
      exact h'.draw none
  | enter i ea now ha =>
      have h' : Counts seed (w.updSta i fun _ => newSta c ea now) := h.of_eq rfl rfl rfl
      exact (h'.note (o := .init i ea) rfl rfl).of_eq ha.log ha.globalKeyCounter ha.initialGkc
  | send i ea k gtk hk => exact h.note rfl rfl
  | authenticate hi hdesc hnonce => exact h.of_eq rfl rfl rfl
  | success hi ho => exact h.note (Out.success_counter ho).1 (Out.success_counter ho).2
  | relay ea preauth hr => exact h.note rfl rfl
  | forward i username state hf => exact h.note rfl rfl

theorem Counts.effects (h : Counts seed w) (he : Effects c g w w') : Counts seed w' :=
  reach_invariant (fun _ _ ha hab => ha.effect hab) he h

theorem Counts.changes {m : Prop} (h : Counts seed w) (hch : Changes c g m w w') :
    Counts seed w' := by
  cases hch with
  | calm he => exact h.effects he
  | mic hm he hmic he' =>
      refine Counts.effects ?_ he'
      have h1 := h.effects he
      cases hmic with
      | report => exact h1.of_eq rfl rfl rfl
      | trigger hrole hcm hrecent => exact h1.of_eq rfl rfl rfl

theorem Counts.step (h : Counts seed w) (e : Nat × Event) : Counts seed (step c w e) := by
  cases hlive : w.halted with
  | true =>
      unfold Nas.step
      rwa [if_pos hlive]
  | false =>
      have hnow : Counts seed { w with now := e.1 } := h.of_eq rfl rfl rfl
      rcases step_changes (t := e.1) hlive (Grants.all c w e.2) with hch | ⟨-, he⟩
      · exact hnow.changes hch
      · have hoff : Counts seed { w with now := e.1, micCountermeasures := false } :=
          hnow.of_eq rfl rfl rfl
        exact hoff.effects he

theorem initWorld_counts (c : Ctx) : Counts (firstSeed c) (initWorld c) := by
  obtain ⟨hboot, heff⟩ := initWorld_effects c .all
  refine Counts.effects ⟨?_, ?_, ?_, ?_⟩ heff
  · rw [hboot.log]
    exact hboot.length
  · rw [hboot.log]
    rfl
  · rw [hboot.log]
    exact hboot.counter
  · rw [hboot.log]
    exact Nat.pow_pos (by decide)

/-! ## The nonces in use -/

/-- The nonce that was last drawn for a user, the station in a slot or the group key: zeros if none
has been since the slot was initialised. -/
def drawnFor (user : Option Slot) : List Out → Bytes
  | [] => List.replicate 32 0
  | .draw u nonce :: l => if u = user then nonce else drawnFor user l
  | .init i _ :: l => if user = some i then List.replicate 32 0 else drawnFor user l
  | _ :: l => drawnFor user l

/-- The key frame carries the nonce that was last drawn for it. A group key message of WPA2 carries
none. -/
def CarriesDrawn (c : Ctx) (i : Slot) (k : KeyFrame) (l : List Out) : Prop :=
  match c.cfg.role with
  | .authenticator => has k.keyInfo wpaKeyAck = true →
      if has k.keyInfo wpaKeyPairwise then k.nonce = drawnFor (some i) l
      else k.nonce = drawnFor none l ∨ k.nonce = List.replicate 32 0
  | .supplicant => has k.keyInfo wpaKeyAck = false → k.nonce = drawnFor (some i) l

/-- Every key frame in the log carries a nonce drawn before. -/
def SentDrawn (c : Ctx) (log : List Out) : Prop :=
  ∀ i ea k gtk l, .send i ea k gtk :: l <:+ log → CarriesDrawn c i k l

/-- The stations and the group key hold the nonces that were last drawn for them, and the key frames
carried them. -/
structure Tied (c : Ctx) (w : World) : Prop where
  sta : ∀ i, c.ownNonce (w.sta i) = drawnFor (some i) w.log
  group : w.gnonce = drawnFor none w.log
  desc : ∀ i, (w.sta i).desc ≤ 2
  sent : SentDrawn c w.log

theorem drawnFor_other {user : Option Slot} {o : Out} {l : List Out} (hd : o.isDraw = false)
    (hi : o.isInit = false) : drawnFor user (o :: l) = drawnFor user l := by
  cases o with
  | draw u nonce => cases hd
  | init i ea => cases hi
  | _ => rfl

theorem SentDrawn.cons {o : Out} {log : List Out} (h : SentDrawn c log) (ho : o.isSend = false) :
    SentDrawn c (o :: log) := by
  intro i ea k gtk l hl
  rcases List.suffix_cons_iff.mp hl with heq | hl
  · obtain ⟨rfl, -⟩ := List.cons.inj heq
    cases ho
  · exact h i ea k gtk l hl

theorem Tied.of_eq (h : Tied c w) (hlog : w'.log = w.log) (hsta : w'.sta = w.sta)
    (hgnonce : w'.gnonce = w.gnonce) : Tied c w' := by
  refine ⟨fun i => ?_, ?_, fun i => ?_, ?_⟩
  · rw [hsta, hlog]
    exact h.sta i
  · rw [hgnonce, hlog]
    exact h.group
  · rw [hsta]
    exact h.desc i
  · rw [hlog]
    exact h.sent

theorem Tied.note (h : Tied c w) {o : Out} (hs : o.isSend = false) (hi : o.isInit = false)
    (hd : o.isDraw = false) : Tied c (w.out o) := by
  have heq : ∀ user, drawnFor user (w.out o).log = drawnFor user w.log :=
    fun _ => drawnFor_other hd hi
  refine ⟨fun i => ?_, ?_, h.desc, h.sent.cons hs⟩
  · rw [heq]
    exact h.sta i
  · rw [heq]
    exact h.group

theorem Tied.updSta (h : Tied c w) (i : Slot) {f : Sta → Sta}
    (hnonce : ∀ s, c.ownNonce (f s) = c.ownNonce s) (hdesc : DescKept f) :
    Tied c (w.updSta i f) := by
  refine ⟨fun j => ?_, h.group, fun j => ?_, h.sent⟩
  · by_cases hj : j = i
    · rw [hj, World.updSta_same, hnonce]
      exact h.sta i
    · rw [World.updSta_ne w hj]
      exact h.sta j
  · by_cases hj : j = i
    · rw [hj, World.updSta_same]
      exact hdesc _ (h.desc i)
    · rw [World.updSta_ne w hj]
      exact h.desc j

theorem Tied.enter (h : Tied c w) (i : Slot) (ea : Bytes) (now : Nat) :
    Tied c ((w.updSta i fun _ => newSta c ea now).out (.init i ea)) := by
  obtain ⟨-, hzero⟩ := newSta_zero (c := c) ea now
  have hown : c.ownNonce (newSta c ea now) = List.replicate 32 0 := by
    have hanonce : (newSta c ea now).anonce = List.replicate 32 0 := congrArg Prod.fst hzero
    have hsnonce : (newSta c ea now).snonce = List.replicate 32 0 := congrArg (fun x => x.2.1) hzero
    rw [Ctx.ownNonce, hanonce, hsnonce]
    cases c.cfg.role with
    | authenticator => rfl
    | supplicant => rfl
  refine ⟨fun j => ?_, h.group, fun j => ?_, h.sent.cons rfl⟩
  · show c.ownNonce ((w.updSta i fun _ => newSta c ea now).sta j) =
      if some j = some i then List.replicate 32 0 else drawnFor (some j) w.log
    by_cases hj : j = i
    · rw [hj, World.updSta_same, if_pos rfl, hown]
    · rw [World.updSta_ne w hj, if_neg fun hij => hj (Option.some.inj hij)]
      exact h.sta j
  · show ((w.updSta i fun _ => newSta c ea now).sta j).desc ≤ 2
    by_cases hj : j = i
    · rw [hj, World.updSta_same, show (newSta c ea now).desc = 0
        from congrArg (fun x => x.2.2) hzero]
      exact Nat.zero_le 2
    · rw [World.updSta_ne w hj]
      exact h.desc j

theorem drawnFor_drawn (user u : Option Slot) (w : World) : drawnFor u (w.drawn c user).log =
    if user = u then w.globalKeyCounter else drawnFor u w.log := by
  cases drawn_spec (c := c) user w with
  | next hne hlog hgkc hinit =>
      rw [hlog]
      rfl
  | again hback gkc hlen hlog hgkc hinit =>
      rw [hlog]
      rfl

theorem SentDrawn.drawn (h : SentDrawn c w.log) (user : Option Slot) :
    SentDrawn c (w.drawn c user).log := by
  cases drawn_spec (c := c) user w with
  | next hne hlog hgkc hinit =>
      rw [hlog]
      exact h.cons rfl
  | again hback gkc hlen hlog hgkc hinit =>
      rw [hlog]
      exact (h.cons rfl).cons rfl

/-- **A draw for a station**, which is given the nonce. -/
theorem Tied.draw (h : Tied c w) (i : Slot) {f : Sta → Sta} (hdesc : DescKept f)
    (hnonce : ∀ s, c.ownNonce (f s) = w.globalKeyCounter) :
    Tied c ((w.drawn c (some i)).updSta i f) := by
  have hun := drawn_undrawn (c := c) (some i) w
  refine ⟨fun j => ?_, ?_, fun j => ?_, h.sent.drawn (some i)⟩
  · show c.ownNonce (((w.drawn c (some i)).updSta i f).sta j) =
      drawnFor (some j) (w.drawn c (some i)).log
    rw [drawnFor_drawn]
    by_cases hj : j = i
    · rw [hj, World.updSta_same, if_pos rfl, hnonce]
    · rw [World.updSta_ne _ hj, if_neg fun hij => hj (Option.some.inj hij).symm, hun.sta]
      exact h.sta j
  · show (w.drawn c (some i)).gnonce = drawnFor none (w.drawn c (some i)).log
    rw [drawnFor_drawn, if_neg (Option.some_ne_none i), hun.gnonce]
    exact h.group
  · by_cases hj : j = i
    · rw [hj, World.updSta_same, hun.sta]
      exact hdesc _ (h.desc i)
    · rw [World.updSta_ne _ hj, hun.sta]
      exact h.desc j

/-- **A draw for the group key.** -/
theorem Tied.drawGroup (h : Tied c w) :
    Tied c (World.drawn c none { w with gnonce := w.globalKeyCounter }) := by
  have hun := drawn_undrawn (c := c) none { w with gnonce := w.globalKeyCounter }
  have hsent : SentDrawn c ({ w with gnonce := w.globalKeyCounter } : World).log := h.sent
  refine ⟨fun j => ?_, ?_, fun j => ?_, hsent.drawn none⟩
  · rw [drawnFor_drawn, if_neg (Option.some_ne_none j).symm, hun.sta]
    exact h.sta j
  · rw [drawnFor_drawn, if_pos rfl, hun.gnonce]
  · rw [hun.sta]
    exact h.desc j

theorem Tied.carries (h : Tied c w) {i : Slot} {k : KeyFrame} (hk : CarriesNonce w i k) :
    CarriesDrawn c i k w.log := by
  have hsta := h.sta i
  unfold CarriesDrawn
  unfold Ctx.ownNonce at hsta
  cases hrole : c.cfg.role with
  | authenticator =>
      rw [hrole] at hsta
      intro hack
      rw [CarriesNonce, if_pos hack] at hk
      rwa [← show (w.sta i).anonce = drawnFor (some i) w.log from hsta, ← h.group]
  | supplicant =>
      rw [hrole] at hsta
      intro hack
      rw [CarriesNonce, if_neg (by simp [hack])] at hk
      exact hk.trans hsta

theorem Tied.send (h : Tied c w) {i : Slot} (ea : Bytes) {k : KeyFrame} (gtk : Option (Bytes × Nat))
    (hk : (w.sta i).desc ≤ 2 → CarriesNonce w i k) : Tied c (w.out (.send i ea k gtk)) := by
  refine ⟨h.sta, h.group, h.desc, fun i' ea' k' gtk' l hl => ?_⟩
  rcases List.suffix_cons_iff.mp hl with heq | hl
  · obtain ⟨hout, rfl⟩ := List.cons.inj heq
    cases hout
    exact h.carries (hk (h.desc i))
  · exact h.sent i' ea' k' gtk' l hl

/-- Only nonces that have been drawn are granted. -/
def Grant.drawn : Grant :=
  ⟨fun _ => True, fun _ => True, fun _ _ => True, fun _ => True, False, fun _ _ => trivial⟩

theorem Grants.drawn (c : Ctx) (w : World) (ev : Event) : Grants c .drawn w ev :=
  ⟨fun _ _ _ _ _ => trivial, fun _ _ _ => trivial, fun _ _ _ _ _ => trivial, fun _ _ _ => trivial⟩

theorem Tied.effect (h : Tied c w) (he : Effect c .drawn w w') : Tied c w' := by
  cases he with
  | aside ha => exact h.of_eq ha.log ha.sta ha.gnonce
  | note ho =>
      simp only [Out.plain, Bool.and_eq_true, Bool.not_eq_true'] at ho
      exact h.note ho.1.1.1.1.1.1 ho.1.1.1.1.1.2 ho.1.1.1.1.2
  | sta i hf => exact h.updSta i (hf.nonce.resolve_left id) hf.desc
  | keyLen hn => exact h.of_eq rfl rfl rfl
  | draw i hport hdesc hnonce => exact h.draw i hdesc (hnonce.resolve_left id)
  | drawGroup => exact h.drawGroup
  | enter i ea now ha => exact (h.enter i ea now).of_eq ha.log ha.sta ha.gnonce
  | send i ea k gtk hk => exact h.send ea gtk hk
  | authenticate hi hdesc hnonce => exact h.updSta _ hnonce hdesc
  | success hi ho =>
      exact h.note (Out.success_nonce ho).1 (Out.success_nonce ho).2 (Out.success_counter ho).1
  | relay ea preauth hr => exact h.note rfl rfl rfl
  | forward i username state hf => exact h.note rfl rfl rfl

theorem Tied.effects (h : Tied c w) (he : Effects c .drawn w w') : Tied c w' :=
  reach_invariant (fun _ _ ha hab => ha.effect hab) he h

theorem Tied.changes {m : Prop} (h : Tied c w) (hch : Changes c .drawn m w w') : Tied c w' := by
  cases hch with
  | calm he => exact h.effects he
  | mic hm he hmic he' =>
      refine Tied.effects ?_ he'
      have h1 := h.effects he
      cases hmic with
      | report => exact h1.of_eq rfl rfl rfl
      | trigger hrole hcm hrecent => exact h1.of_eq rfl rfl rfl

theorem Tied.step (h : Tied c w) (e : Nat × Event) : Tied c (step c w e) := by
  cases hlive : w.halted with
  | true =>
      unfold Nas.step
      rwa [if_pos hlive]
  | false =>
      have hnow : Tied c { w with now := e.1 } := h.of_eq rfl rfl rfl
      rcases step_changes (t := e.1) hlive (Grants.drawn c w e.2) with hch | ⟨-, he⟩
      · exact hnow.changes hch
      · have hoff : Tied c { w with now := e.1, micCountermeasures := false } :=
          hnow.of_eq rfl rfl rfl
        exact hoff.effects he

theorem initWorld_tied (c : Ctx) : Tied c (initWorld c) := by
  obtain ⟨hboot, heff⟩ := initWorld_effects c .drawn
  refine Tied.effects ⟨fun i => ?_, ?_, fun i => ?_, ?_⟩ heff
  · rw [hboot.log, hboot.sta, Ctx.ownNonce]
    cases c.cfg.role with
    | authenticator => rfl
    | supplicant => rfl
  · rw [hboot.log]
    exact hboot.gnonce
  · rw [hboot.sta]
    exact Nat.zero_le 2
  · rw [hboot.log]
    intro i ea k gtk l hl
    cases List.suffix_nil.mp hl

/-- **Nonces are consecutive.** Incrementing adds one with full carry. At every point of every run,
the nonces drawn since the counter was last initialised are consecutive numbers, and distinct; the
counter is initialised again at once when it has gone through all its values, and at no other time.
The nonces that the stations and the group key hold, and those in the key frames, are the ones last
drawn for them. -/
theorem nonces_consecutive (c : Ctx) (es : List (Nat × Event)) :
    (∀ a : Bytes, beNat (incr a) = (beNat a + 1) % 256 ^ a.length)
    ∧ (epoch (firstSeed c) (run (step c) (initWorld c) es).log).2.length < 2 ^ 256
    ∧ (∀ l, l <:+ (run (step c) (initWorld c) es).log →
      (∀ k nonce, (epoch (firstSeed c) l).2[k]? = some nonce →
        nonce.length = 32 ∧ beNat nonce = (beNat (epoch (firstSeed c) l).1 + k) % 2 ^ 256)
      ∧ (epoch (firstSeed c) l).2.Nodup
      ∧ ∀ o, o :: l <:+ (run (step c) (initWorld c) es).log →
        (o.isReseed = true ↔ (epoch (firstSeed c) l).2.length = 2 ^ 256))
    ∧ (∀ i, c.ownNonce ((run (step c) (initWorld c) es).sta i) =
      drawnFor (some i) (run (step c) (initWorld c) es).log)
    ∧ (run (step c) (initWorld c) es).gnonce = drawnFor none (run (step c) (initWorld c) es).log
    ∧ ∀ i ea k gtk l, .send i ea k gtk :: l <:+ (run (step c) (initWorld c) es).log →
      CarriesDrawn c i k l := by
  have htied : Tied c (run (step c) (initWorld c) es) :=
    run_kept (fun w e h => h.step e) es (initWorld_tied c)
  have hrun : Counts (firstSeed c) (run (step c) (initWorld c) es) :=
    run_kept (fun w e h => h.step e) es (initWorld_counts c)
  have hsize : (2 : Nat) ^ 256 = 256 ^ 32 := by norm_num
  rw [hsize]
  refine ⟨beNat_incr, hrun.room, fun l hl => ?_, htied.sta, htied.group, htied.sent⟩
  obtain ⟨hlen, hvalues, hle⟩ := (hrun.cyclic.suffix hl).values
  refine ⟨fun k nonce hk => ?_, ?_, fun o ho => ?_⟩
  · obtain ⟨hlt, -⟩ := List.getElem?_eq_some_iff.mp hk
    rw [hvalues, List.getElem?_iterate _ _ _ _ hlt] at hk
    rw [← Option.some.inj hk, iterate_incr_length, beNat_iterate_incr, hlen]
    exact ⟨rfl, rfl⟩
  · rw [hvalues]
    exact iterate_incr_nodup (by rw [hlen]; exact hle)
  · exact (hrun.cyclic.suffix ho).2.1

end BroadcomWl.Nas
