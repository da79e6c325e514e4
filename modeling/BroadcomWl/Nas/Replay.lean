import BroadcomWl.Nas.RetxTimer
import BroadcomWl.Nas.SavedIe

/-!
# Replay counters

`wpa_send_eapol` puts the replay counter of the station into the frame; incrementing it is left to
the callers. Messages 3 and the group key message increment it, and so does every retransmission.
Message 1 does not: it relies on being the first frame since `lookup_sta` initialised the slot with
a zero counter.

**`replay_increasing`** therefore holds in the runs in which no event starts a handshake with a
station that has been sent a frame before. `second_association` is a run with such an event: the
station associates again without having been disassociated.
-/

namespace BroadcomWl.Nas

open BroadcomWl.Lib BroadcomWl.Crypto

variable {c : Ctx} {ev : Event} {w0 : World}

/-- The replay counters of frames, newest first, strictly increase. -/
def Increasing (fs : List KeyFrame) : Prop :=
  fs.Pairwise fun new old => beNat old.replay < beNat new.replay

/-- The event does not start the handshake of a station that has been sent a frame since its slot
was initialised. -/
def StartsFirst (c : Ctx) (w : World) (ev : Event) : Prop :=
  ∀ i, startsM1 c ev w i → framesSince i w.log = []

/-! ## The frames in a log -/

/-- The slot whose frames an effect adds to or forgets. -/
def Out.slot : Out → Option Slot
  | .send j .. => some j
  | .init j _ => some j
  | _ => none

theorem framesSince_cons {i : Slot} {o : Out} (h : o.slot ≠ some i) (l : List Out) :
    framesSince i (o :: l) = framesSince i l := by
  cases o with
  | send j ea k gtk =>
      have hj : j ≠ i := fun hj => h (by rw [hj]; rfl)
      simp only [framesSince, if_neg hj]
  | init j ea =>
      have hj : j ≠ i := fun hj => h (by rw [hj]; rfl)
      simp only [framesSince, if_neg hj]
  | _ => rfl

theorem framesSince_append {i : Slot} {outs : List Out} (h : ∀ o ∈ outs, o.slot ≠ some i)
    (l : List Out) : framesSince i (outs ++ l) = framesSince i l := by
  induction outs with
  | nil => rfl
  | cons o outs ih =>
      rw [List.cons_append, framesSince_cons (h o List.mem_cons_self)]
      exact ih fun o' ho' => h o' (List.mem_cons_of_mem _ ho')

/-- In each beginning of a log the counters increase, as long as there are fewer than `2 ^ 64`
frames. -/
def LogIncreasing (i : Slot) (log : List Out) : Prop :=
  ∀ l, l <:+ log → (framesSince i l).length < 2 ^ 64 → Increasing (framesSince i l)

theorem LogIncreasing.cons {i : Slot} {log : List Out} (h : LogIncreasing i log) {o : Out}
    (hnew : (framesSince i (o :: log)).length < 2 ^ 64 → Increasing (framesSince i (o :: log))) :
    LogIncreasing i (o :: log) := by
  intro l hl
  rcases List.suffix_cons_iff.mp hl with rfl | hl
  · exact hnew
  · exact h l hl

theorem LogIncreasing.append {i : Slot} {log : List Out} (h : LogIncreasing i log)
    {outs : List Out} (houts : ∀ o ∈ outs, o.slot ≠ some i) : LogIncreasing i (outs ++ log) := by
  induction outs with
  | nil => exact h
  | cons o outs ih =>
      have ih' := ih fun o' ho' => houts o' (List.mem_cons_of_mem _ ho')
      refine ih'.cons ?_
      rw [← List.cons_append, framesSince_append houts,
        ← framesSince_append (fun o' ho' => houts o' (List.mem_cons_of_mem _ ho')) log]
      exact ih' _ (List.suffix_refl _)

/-! ## The invariant -/

/-- The counter of the station is that of its last frame; it counts the frames. -/
structure ReplayInv (i : Slot) (a : Abs) : Prop where
  resends : (a.sta i).Resends
  length : (a.sta i).replay.length = 8
  count : (framesSince i a.log).length < 2 ^ 64 →
    beNat (a.sta i).replay ≤ (framesSince i a.log).length
  last : (framesSince i a.log).length < 2 ^ 64 →
    ∀ k ∈ framesSince i a.log, beNat k.replay ≤ beNat (a.sta i).replay
  log : LogIncreasing i a.log

theorem ReplayInv.of_quiet {i : Slot} {a b : Abs} (h : ReplayInv i a) {outs : List Out}
    (hlog : b.log = outs ++ a.log) (houts : ∀ o ∈ outs, o.slot ≠ some i)
    (hreplay : (b.sta i).replay = (a.sta i).replay) (hresends : (b.sta i).Resends) :
    ReplayInv i b := by
  refine ⟨hresends, ?_, ?_, ?_, ?_⟩
  · rw [hreplay]
    exact h.length
  · rw [hlog, framesSince_append houts, hreplay]
    exact h.count
  · rw [hlog, framesSince_append houts, hreplay]
    exact h.last
  · rw [hlog]
    exact h.log.append houts

section Send

variable {i : Slot} {a : Abs} (h : ReplayInv i a) {k : Core} (hresends : k.Resends) {kf : KeyFrame}
  (ea : Bytes) (gtk : Option (Bytes × Nat)) (hkf : kf.replay = k.replay)
include h hresends hkf

theorem ReplayInv.of_first (hreplay : k.replay = (a.sta i).replay)
    (hnone : framesSince i a.log = []) : ReplayInv i (a.put i k [.send i ea kf gtk]) := by
  have hframes : framesSince i (.send i ea kf gtk :: a.log) = [kf] := by
    simp [framesSince, hnone]
  have hcount := h.count (by rw [hnone]; decide)
  rw [hnone] at hcount
  refine ⟨by simpa [Abs.put] using hresends, ?_, ?_, ?_, ?_⟩
  · simpa [Abs.put, hreplay] using h.length
  · intro _
    simp only [Abs.put, List.singleton_append, hframes, Function.update_self, hreplay]
    simp only [List.length_nil, Nat.le_zero] at hcount
    rw [hcount]
    exact Nat.zero_le _
  · intro _ k' hk'
    simp only [Abs.put, List.singleton_append, hframes, List.mem_singleton,
      Function.update_self] at hk' ⊢
    rw [hk', hkf]
  · refine h.log.cons fun _ => ?_
    rw [hframes]
    exact List.pairwise_singleton _ _

theorem ReplayInv.of_next (hreplay : k.replay = incr (a.sta i).replay) :
    ReplayInv i (a.put i k [.send i ea kf gtk]) := by
  have hframes : framesSince i (.send i ea kf gtk :: a.log) = kf :: framesSince i a.log := by
    simp [framesSince]
  -- Below `2 ^ 64` frames the counter does not wrap around.
  have hincr : (framesSince i a.log).length + 1 < 2 ^ 64 →
      beNat k.replay = beNat (a.sta i).replay + 1 := by
    intro hlt
    have hcount := h.count (by omega)
    rw [hreplay]
    apply beNat_incr_of_lt
    rw [h.length]
    omega
  refine ⟨by simpa [Abs.put] using hresends, ?_, ?_, ?_, ?_⟩
  · simpa [Abs.put, hreplay] using h.length
  · simp only [Abs.put, List.singleton_append, hframes, List.length_cons, Function.update_self]
    intro hlt
    have hcount := h.count (by omega)
    have hnext := hincr hlt
    omega
  · simp only [Abs.put, List.singleton_append, hframes, List.length_cons, Function.update_self,
      List.mem_cons]
    intro hlt k' hk'
    have hnext := hincr hlt
    rcases hk' with rfl | hk'
    · rw [hkf]
    · have hlast := h.last (by omega) k' hk'
      omega
  · refine h.log.cons ?_
    rw [hframes, List.length_cons]
    intro hlt
    refine List.pairwise_cons.mpr ⟨fun k' hk' => ?_, h.log _ (List.suffix_refl _) (by omega)⟩
    have hlast := h.last (by omega) k' hk'
    have hnext := hincr hlt
    rw [hkf]
    omega

end Send

theorem ReplayInv.of_init {i : Slot} {a : Abs} (h : ReplayInv i a) {k : Core} (ea : Bytes)
    (hresends : k.Resends) (hreplay : k.replay = List.replicate 8 0) :
    ReplayInv i (a.put i k [.init i ea]) := by
  have hframes : framesSince i (.init i ea :: a.log) = [] := by simp [framesSince]
  refine ⟨by simpa [Abs.put] using hresends, ?_, ?_, ?_, ?_⟩
  · simp [Abs.put, hreplay]
  · intro _
    simp only [Abs.put, List.singleton_append, hframes, Function.update_self, hreplay]
    decide
  · intro _
    simp [Abs.put, hframes]
  · refine h.log.cons fun _ => ?_
    rw [hframes]
    exact List.Pairwise.nil

/-- **A step of a station keeps its counter ahead of its frames.** -/
theorem Move.replayInv (hC : StartsFirst c w0 ev) {a : Abs} {i : Slot} {k : Core} {outs : List Out}
    (h : Move c ev w0 a i k outs) (ha : ReplayInv i a) : ReplayInv i (a.put i k outs) := by
  have hresends : k.Resends := h.resends ha.resends
  have hquiet : (∀ o ∈ outs, o.slot ≠ some i) → k.replay = (a.sta i).replay →
      ReplayInv i (a.put i k outs) := by
    intro houts hreplay
    refine ha.of_quiet rfl houts ?_ (by simpa [Abs.put] using hresends)
    simpa [Abs.put] using hreplay
  cases h with
  | init ea now =>
      refine ha.of_init ea hresends ?_
      obtain ⟨mode, wsec, state, -, -, hcore⟩ := newSta_core c ea now
      rw [hcore]
      rfl
  | sendM1 kf td hstate hk htd hstart =>
      refine ha.of_first hresends _ _ hk rfl ?_
      rcases hstart with ⟨hstarts, hsame⟩ | hnone
      · rw [hsame]
        exact hC i hstarts
      · exact hnone
  | goodM2 f kf td hev hold hstate hflags hreplay hdesc hlen hplumbed hk htd =>
    exact ha.of_next hresends _ _ hk rfl
  | groupStart kf td hold hwhy hmode hplumbed hk => exact ha.of_next hresends _ _ hk rfl
  | rekeySend kf td hstate hrk hk htd => exact ha.of_next hresends _ _ hk rfl
  | retx kf htd hk => exact ha.of_next hresends _ _ hk rfl
  | retxNothing htd hsends => cases (ha.resends.td htd).symm.trans hsends
  | authorize hwep => exact hquiet (by simp [Out.slot]) rfl
  | save n hn => exact hquiet (by simp [Out.slot]) rfl
  | pairwiseDone hold hwhy hmode => exact hquiet (by simp [Out.slot]) rfl
  | groupDone hold hstate hver => exact hquiet (by simp [Out.slot]) rfl
  | pmk pmk => exact hquiet (by simp [Out.slot]) rfl
  | _ => exact hquiet (by simp) rfl

theorem Move.slot {a : Abs} {i j : Slot} {k : Core} {outs : List Out}
    (h : Move c ev w0 a i k outs) (hj : j ≠ i) : ∀ o ∈ outs, o.slot ≠ some j := by
  have hi : i ≠ j := hj.symm
  cases h <;> simp [Out.slot, hi]

theorem AStep.replayInv (hrole : c.cfg.role = .authenticator) (hC : StartsFirst c w0 ev)
    {a b : Abs} (ha : ∀ i, ReplayInv i a) (h : AStep c ev w0 a b) : ∀ i, ReplayInv i b := by
  intro j
  rcases h.inversion with ⟨i, k, outs, hm, rfl⟩ | hkey | hsup
  · by_cases hj : j = i
    · subst hj
      exact hm.replayInv hC (ha j)
    · refine (ha j).of_quiet rfl (hm.slot hj) ?_ ?_
      · simp [Abs.put, hj]
      · simpa [Abs.put, hj] using (ha j).resends
  · obtain ⟨outs, hlog, hout⟩ := hkey.log
    refine (ha j).of_quiet hlog (fun o ho => ?_) (by rw [hkey.sta]) ?_
    · obtain ⟨args, ret, rfl⟩ := hout o ho
      simp [Out.slot]
    · rw [hkey.sta]
      exact (ha j).resends
  · cases hrole.symm.trans hsup.role

/-! ## Runs -/

/-- **The replay counters strictly increase**: of the frames sent to a station between two
initialisations of its slot, fewer than `2 ^ 64`, in every run of an authenticator in which no
event starts a handshake with a station that has been sent a frame. Each such stretch of frames is
`framesSince` of a beginning of the log. -/
theorem replay_increasing (c : Ctx) (hrole : c.cfg.role = .authenticator) (es : List (Nat × Event))
    (hC : Along (step c) (fun w e => StartsFirst c w e.2) (initWorld c) es) (i : Slot)
    (l : List Out)
    (hl : l <:+ (run (step c) (initWorld c) es).log) (hlen : (framesSince i l).length < 2 ^ 64) :
    Increasing (framesSince i l) := by
  have hstart : ∀ a, Starts c a → ∀ i, ReplayInv i a := by
    intro a ha i
    refine ⟨?_, ?_, ?_, ?_, ?_⟩
    · rw [ha.sta]
      exact .of_idle rfl rfl
    · rw [ha.sta]
      rfl
    · rw [ha.sta]
      exact fun _ => Nat.zero_le _
    · rw [ha.log]
      simp [framesSince]
    · rw [ha.log]
      intro l hl _
      rw [List.suffix_nil.mp hl]
      exact List.Pairwise.nil
  obtain ⟨a, ha, hinv⟩ := run_sim (C := StartsFirst c) (fun i h => h.elim) hstart
    (fun w ev hwe a b ha hab => hab.replayInv hrole hwe ha) hC
  have hsuffix : l.filter Out.visible <:+ a.log := by
    rw [ha.log]
    exact hl.filter _
  have h := (hinv i).log _ hsuffix
  rw [framesSince_visible] at h
  exact h hlen

instance (fs : List KeyFrame) : Decidable (Increasing fs) := by
  unfold Increasing
  infer_instance

/-- A station associates. -/
def association : Nat × Event := (1, .assoc (assocMsg (rsnElement 0)))

/-- The frames that the station in the first slot has been sent in a run. -/
def framesOf (es : List (Nat × Event)) : List KeyFrame :=
  framesSince firstSlot (run (step pskContext) (initWorld pskContext) es).log

set_option maxRecDepth 100000 in
/-- Message 1 is sent and retransmitted. -/
theorem replay_increasing_retransmitted :
    Increasing (framesOf [association, (2, .retxTimer firstSlot)]) := by
  have hlog : (initWorld pskContext).log = [] := by decide +kernel
  refine replay_increasing pskContext rfl [association, (2, .retxTimer firstSlot)]
    ⟨fun i _ => ?_, fun i h => h.elim, trivial⟩ firstSlot _ (List.suffix_refl _) (by decide +kernel)
  rw [hlog]
  rfl

set_option maxRecDepth 100000 in
/-- **A second association** of a station that has not been disassociated: message 1 is sent again
with the counter of the first. -/
theorem second_association :
    ¬ ∀ (c : Ctx), c.cfg.role = .authenticator → ∀ (es : List (Nat × Event)) (i : Slot)
      (l : List Out), l <:+ (run (step c) (initWorld c) es).log →
      (framesSince i l).length < 2 ^ 64 → Increasing (framesSince i l) := by
  intro h
  have hinc : Increasing (framesOf [association, association]) :=
    h pskContext rfl [association, association] firstSlot _ (List.suffix_refl _) (by decide +kernel)
  revert hinc
  decide +kernel

end BroadcomWl.Nas
