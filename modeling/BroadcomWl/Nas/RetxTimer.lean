import BroadcomWl.Crypto.Evaluate
import BroadcomWl.Nas.Refine

/-!
# The retransmission timer

A station that owes the authenticator a reply has a timer that sends the message again. The timer
is stopped and set again in about ten functions. In most of them the two go together; an invariant
of a single station (`Core.Watched`) shows that nothing gets in between.

The exception is the handler for exceeded retries, `wpa_goto_rekeyneg`: it sends the group key
message and sets the timer, and `wpa_retransmission`, which has called it, stops the timer.
**`retx_timer_live`** says that in a run in which this does not happen every such station has its
timer, and `exhausted_unwatched` is the run in which it does happen.
-/

namespace BroadcomWl.Nas

open BroadcomWl.Lib BroadcomWl.Crypto

variable {c : Ctx} {ev : Event} {w0 : World}

/-- Every station in use that owes a reply has a timer. -/
def TimersLive (w : World) : Prop :=
  ∀ i, (w.sta i).used = true → (w.sta i).state.waiting = true → (w.sta i).td.isSome = true

/-- The event is not an expiry whose handler for exceeded retries sends the group key message. -/
def RetriesLeft (c : Ctx) (w : World) : Event → Prop
  | .retxTimer i => exhausted c w i = false ∨ checkWpa2 (w.sta i).mode = true
  | _ => True

instance (c : Ctx) (w : World) (ev : Event) : Decidable (RetriesLeft c w ev) := by
  apply @Event.casesOn (fun ev => Decidable (RetriesLeft c w ev)) ev
  all_goals
    intros
    dsimp only [RetriesLeft]
    infer_instance

/-! ## What is sent again -/

/-- There is a message to send again, as long as a reply is awaited and as long as the timer is
set. -/
structure Core.Resends (k : Core) : Prop where
  waiting : k.state.waiting = true → k.retryState.sends = true
  td : k.td.isSome = true → k.retryState.sends = true

theorem Core.Resends.of_idle {k : Core} (hstate : k.state.waiting = false) (htd : k.td = none) :
    k.Resends := by
  constructor
  · rw [hstate]
    intros
    contradiction
  · rw [htd]
    intros
    contradiction

theorem Core.Resends.of_sends {k : Core} (h : k.retryState.sends = true) : k.Resends :=
  ⟨fun _ => h, fun _ => h⟩

theorem waiting_of_dropped {s s' : WpaState} (h : s' = s ∨ s'.busy = false)
    (hw : s'.waiting = true) : s.waiting = true := by
  rcases h with rfl | hbusy
  · exact hw
  · rw [WpaState.busy_of_waiting hw] at hbusy
    cases hbusy

theorem Move.resends {a : Abs} {i : Slot} {k : Core} {outs : List Out}
    (h : Move c ev w0 a i k outs) (ha : (a.sta i).Resends) : k.Resends := by
  cases h with
  | init ea now =>
      obtain ⟨mode, wsec, state, -, hstate, hcore⟩ := newSta_core c ea now
      rw [hcore]
      rcases hstate with rfl | rfl
      · exact .of_idle rfl rfl
      · exact .of_idle rfl rfl
  | drop used state hused hstate hkept =>
    exact ⟨fun hw => ha.waiting (waiting_of_dropped hstate hw), (by rintro ⟨⟩)⟩
  | restart nonce retry => exact .of_idle rfl rfl
  | start => exact .of_sends rfl
  | sendM1 k td hstate hk htd hstart => exact .of_sends rfl
  | badM2 ptk td hstate htd =>
      have hsends := ha.waiting (by rw [hstate]; rfl)
      exact .of_sends hsends
  | goodM2 f k td hev hold hstate hflags hreplay hdesc hlen hplumbed hk htd => exact .of_sends rfl
  | pairwiseDone hold hwhy hmode => exact .of_idle rfl rfl
  | groupStart k td hold hwhy hmode hplumbed hk => exact .of_sends rfl
  | groupDone hold hstate hver => exact .of_idle rfl rfl
  | rekeySend k td hstate hrk hk htd => exact .of_sends rfl
  | retxNothing htd hsends => exact ⟨ha.waiting, (by rintro ⟨⟩)⟩
  | stop h => exact ⟨ha.waiting, (by rintro ⟨⟩)⟩
  | _ => exact ⟨ha.waiting, ha.td⟩

/-! ## The timer of a waiting station -/

/-- A station that owes a reply has a timer, and can be sent its last message again. Only a WDS
link has a second timer. -/
structure Core.Watched (k : Core) : Prop where
  resends : k.Resends
  wdsTd : k.wdsTd = none
  live : k.used = true → k.state.waiting = true → k.td.isSome = true

section Watched

variable (hwds : c.cfg.wds = false) (hok : ∀ n, c.drv.itimer n = .ok)
include hwds hok

/-- **A step of a station keeps the timer.** -/
theorem Move.watched (hC : RetriesLeft c w0 ev) {a : Abs} {i : Slot} {k : Core} {outs : List Out}
    (h : Move c ev w0 a i k outs) (ha : (a.sta i).Watched) : k.Watched := by
  have hresends : k.Resends := h.resends ha.resends
  cases h with
  | init ea now =>
      obtain ⟨mode, wsec, state, -, hstate, hcore⟩ := newSta_core c ea now
      rw [hcore] at hresends ⊢
      refine ⟨hresends, rfl, fun _ hw => ?_⟩
      rcases hstate with rfl | rfl
      · cases hw
      · cases hw
  | drop used state hused hstate hkept =>
      refine ⟨hresends, ha.wdsTd, fun hused hw => ?_⟩
      rcases hkept with hunused | hidle | hlink
      · cases hused.symm.trans hunused
      · cases (WpaState.busy_of_waiting hw).symm.trans hidle
      · cases hlink.symm.trans hwds
  | restart nonce retry => exact ⟨hresends, ha.wdsTd, (by intros; contradiction)⟩
  | start => exact ⟨hresends, ha.wdsTd, (by intros; contradiction)⟩
  | sendM1 k td hstate hk htd hstart => exact ⟨hresends, ha.wdsTd, fun _ _ => htd hok⟩
  | badM2 ptk td hstate htd => exact ⟨hresends, ha.wdsTd, fun _ _ => htd hok⟩
  | goodM2 f k td hev hold hstate hflags hreplay hdesc hlen hplumbed hk htd =>
      exact ⟨hresends, ha.wdsTd, fun _ _ => htd hok⟩
  | pairwiseDone hold hwhy hmode => exact ⟨hresends, rfl, (by intros; contradiction)⟩
  | groupStart k td hold hwhy hmode hplumbed hk =>
      refine ⟨hresends, ha.wdsTd, fun _ _ => ?_⟩
      rcases hwhy with ⟨-, -, htd⟩ | ⟨rfl, hexh⟩
      · exact htd hok
      · -- The handler for exceeded retries: `RetriesLeft` excludes it.
        rcases hC with hleft | hwpa2
        · cases hexh.symm.trans hleft
        · rw [hold] at hmode
          cases hwpa2.symm.trans hmode.2
  | groupDone hold hstate hver => exact ⟨hresends, ha.wdsTd, (by intros; contradiction)⟩
  | rekeySend k td hstate hrk hk htd => exact ⟨hresends, ha.wdsTd, fun _ _ => htd hok⟩
  | retxNothing htd hsends =>
      cases (ha.resends.td htd).symm.trans hsends
  | stop h =>
      refine ⟨hresends, ha.wdsTd, fun _ hw => ?_⟩
      rcases h with hidle | hlink | htd
      · cases hw.symm.trans hidle
      · cases hlink.symm.trans hwds
      · rw [ha.wdsTd] at htd
        cases htd
  | wdsTimer td hlink => cases hlink.symm.trans hwds
  | _ => exact ⟨hresends, ha.wdsTd, ha.live⟩

end Watched

/-- **No handshake hangs**: in every run of an authenticator without WDS in which no handler for
exceeded retries sends a group key message, a station that owes a reply has a timer. -/
theorem retx_timer_live (c : Ctx) (hrole : c.cfg.role = .authenticator) (hwds : c.cfg.wds = false)
    (hok : ∀ n, c.drv.itimer n = .ok) (es : List (Nat × Event))
    (hC : Along (step c) (fun w e => RetriesLeft c w e.2) (initWorld c) es)
    (hlive : (run (step c) (initWorld c) es).halted = false) :
    TimersLive (run (step c) (initWorld c) es) := by
  have hstart : ∀ a, Starts c a → ∀ i, (a.sta i).Watched := by
    intro a ha i
    rw [ha.sta]
    exact ⟨.of_idle rfl rfl, rfl, (by rintro ⟨⟩)⟩
  obtain ⟨a, ha, hall⟩ := run_sim (C := RetriesLeft c) trivial hstart
    (fun w ev hwe a b ha hab =>
      hab.forall_sta (P := Core.Watched) hrole
        (fun _ _ _ _ hm hk => hm.watched hwds hok hwe hk) ha) hC
  obtain rfl := ha.eq_abs hlive
  exact fun i => (hall i).live

/-- An authenticator for WPA with a pre-shared key and TKIP. -/
def wpaContext : Ctx :=
  ⟨bcmcrypto, plainConfig .authenticator wpaPsk tkipEnabled, calmDriver⟩

theorem wpaContext_packed :
    wpaContext = ⟨packedCrypto, plainConfig .authenticator wpaPsk tkipEnabled, calmDriver⟩ := by
  rw [wpaContext, bcmcrypto_eq_packed]

/-- A station associates, answers message 1 and then loses `n` messages. -/
def unanswered (n : Nat) : List (Nat × Event) :=
  script wpaContext (initWorld wpaContext)
    [fun _ => .assoc (assocMsg wpaElement), fun w => .eapol (w.message2 wpaContext firstSlot)]
    ++ List.replicate n (2, .retxTimer firstSlot)

set_option maxRecDepth 100000 in
/-- Message 3 is lost once. -/
theorem retx_timer_live_once :
    TimersLive (run (step wpaContext) (initWorld wpaContext) (unanswered 1)) := by
  have hrun :
      Along (step wpaContext) (fun w e => RetriesLeft wpaContext w e.2) (initWorld wpaContext)
        (unanswered 1)
      ∧ (run (step wpaContext) (initWorld wpaContext) (unanswered 1)).halted = false := by
    rw [unanswered, wpaContext_packed]
    decide +kernel
  exact retx_timer_live wpaContext rfl rfl (fun _ => rfl) _ hrun.1 hrun.2

set_option maxRecDepth 100000 in
/-- **A station that never answers message 3**: with the eighth expiry the group key message is
sent, and the timer is gone. -/
theorem exhausted_unwatched :
    ¬ ∀ (c : Ctx), c.cfg.role = .authenticator → c.cfg.wds = false →
      (∀ n, c.drv.itimer n = .ok) → ∀ es : List (Nat × Event),
      (run (step c) (initWorld c) es).halted = false →
      TimersLive (run (step c) (initWorld c) es) := by
  intro h
  have hrun : (run (step wpaContext) (initWorld wpaContext) (unanswered 8)).halted = false
      ∧ let s := (run (step wpaContext) (initWorld wpaContext) (unanswered 8)).sta firstSlot
        s.used = true ∧ s.state.waiting = true ∧ s.td.isSome = false := by
    rw [unanswered, wpaContext_packed]
    decide +kernel
  have htd := h wpaContext rfl rfl (fun _ => rfl) (unanswered 8) hrun.1 firstSlot hrun.2.1
    hrun.2.2.1
  rw [hrun.2.2.2] at htd
  cases htd

end BroadcomWl.Nas
