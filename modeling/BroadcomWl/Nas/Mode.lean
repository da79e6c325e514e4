import Mathlib
import BroadcomWl.Crypto.Cipher
import BroadcomWl.Nas.Refine

/-!
# Modes and ciphers of the stations

A station gets its mode in four places. `lookup_sta` and the WEP branch of an association set it to
RADIUS where the configuration has that; `wpa_set_suppl` takes a mode of the configuration and sets
the descriptor version and the key lengths along with it. The fourth is `eapol_dispatch_ex`, which
sets the mode of the sender of a pre-authentication frame to WPA2, whatever the configuration and
the station.

**`mode_contained`**: where pre-authentication frames come only from stations that have been set up,
in a network with WPA2, every mode is one of the configuration, and a WPA station has its descriptor
version and its key lengths. `preauth_uncontained` is a frame from a stranger in a network with a
pre-shared key. -/

namespace BroadcomWl.Nas

open BroadcomWl.Lib BroadcomWl.Crypto

variable {c : Ctx} {ev : Event} {w0 : World}

/-- The descriptor version, the key lengths and the cipher are those of one `wpa_set_suppl`. -/
def Core.SupplSet (c : Ctx) (k : Core) : Prop :=
  k.wsec = k.wsec &&& c.cfg.wsec ∧
    ((wsecAesEnabled k.wsec = true ∧ k.desc = wpaKeyDescV2 ∧ k.ptkLen = aesPtkLen
        ∧ k.tkLen = aesTkLen)
      ∨ (wsecAesEnabled k.wsec = false ∧ wsecTkipEnabled k.wsec = true ∧ k.desc = wpaKeyDescV1
        ∧ k.ptkLen = tkipPtkLen ∧ k.tkLen = tkipTkLen))

instance (c : Ctx) (k : Core) : Decidable (k.SupplSet c) := by
  unfold Core.SupplSet
  infer_instance

/-- The mode is one of the configuration, and the station of a WPA mode is set up. -/
structure Core.Contained (c : Ctx) (k : Core) : Prop where
  mode : k.mode = k.mode &&& c.cfg.mode
  suppl : checkNas k.mode = true → k.SupplSet c

/-- Every station in use has a mode of the configuration, and is set up if this is a WPA mode. -/
def ModesContained (c : Ctx) (w : World) : Prop :=
  ∀ i, (w.sta i).used = true → (w.sta i).core.Contained c

/-- A pre-authentication frame that is not ignored comes from a station that has been set up, in
a network with WPA2. -/
def PreauthKnown (c : Ctx) (w : World) : Event → Prop
  | .preauth f =>
      c.cfg.disablePreauth = true ∨
        match w.find f.shost with
        | none => False
        | some i => (w.sta i).pae.state = .held ∨
            (has c.cfg.mode wpa2 = true ∧ (w.sta i).core.SupplSet c)
  | _ => True

instance (c : Ctx) (w : World) (ev : Event) : Decidable (PreauthKnown c w ev) := by
  unfold PreauthKnown
  split
  · have : ∀ o : Option Slot, Decidable (match o with
        | none => False
        | some i => (w.sta i).pae.state = .held ∨
            (has c.cfg.mode wpa2 = true ∧ (w.sta i).core.SupplSet c)) := by
      intro o
      cases o <;> infer_instance
    infer_instance
  · infer_instance

/-! ## The invariant -/

theorem bit_contained {mode k : Nat} (h : has mode (2 ^ k) = true) : 2 ^ k = 2 ^ k &&& mode := by
  have hand : mode &&& 2 ^ k ≠ 0 := by simpa [has] using h
  rw [Nat.and_two_pow] at hand
  rw [Nat.and_comm, Nat.and_two_pow]
  cases hbit : mode.testBit k with
  | false =>
      rw [hbit] at hand
      simp at hand
  | true => simp

theorem supplOk_contained {mode wsec : Nat} (h : supplOk c mode wsec = true) {k : Core}
    (hmode : k.mode = mode) (hwsec : k.wsec = wsec)
    (hptk : k.ptkLen = if wsecAesEnabled wsec then aesPtkLen else tkipPtkLen)
    (htk : k.tkLen = if wsecAesEnabled wsec then aesTkLen else tkipTkLen)
    (hdesc : k.desc = if wsecAesEnabled wsec then wpaKeyDescV2 else wpaKeyDescV1) :
    k.Contained c := by
  simp only [supplOk, Bool.and_eq_true, beq_iff_eq, Bool.or_eq_true] at h
  obtain ⟨⟨hm, hw⟩, hcipher⟩ := h
  refine ⟨by rw [hmode]; exact hm, fun _ => ⟨by rw [hwsec]; exact hw, ?_⟩⟩
  rw [hwsec]
  cases haes : wsecAesEnabled wsec with
  | true =>
      rw [haes] at hptk htk hdesc
      exact .inl ⟨rfl, hdesc, hptk, htk⟩
  | false =>
      rw [haes] at hptk htk hdesc hcipher
      exact .inr ⟨rfl, by simpa using hcipher, hdesc, hptk, htk⟩

theorem contained_of_empty {k : Core} (hmode : k.mode = 0) : k.Contained c := by
  constructor
  · rw [hmode, Nat.zero_and]
  · rw [hmode]
    intro hnas
    cases hnas

theorem radius_contained (hradius : has c.cfg.mode radius = true) {k : Core}
    (hmode : k.mode = radius) : k.Contained c := by
  constructor
  · rw [hmode]
    exact bit_contained (k := 5) hradius
  · rw [hmode]
    intro hnas
    cases hnas

/-- **A step of a station keeps its mode contained.** -/
theorem Move.contained (hC : PreauthKnown c w0 ev) {a : Abs} {i : Slot} {k : Core}
    {outs : List Out} (ha : (a.sta i).Contained c) (h : Move c ev w0 a i k outs) :
    k.Contained c := by
  cases h with
  | init ea now =>
      obtain ⟨mode, wsec, state, hmode, -, hcore⟩ := newSta_core c ea now
      rw [hcore]
      rcases hmode with rfl | ⟨rfl, hradius⟩
      · exact contained_of_empty rfl
      · exact radius_contained hradius rfl
  | preauth f hev hon hold =>
      subst hev
      rcases hC with hoff | hknown
      · rw [hon] at hoff
        cases hoff
      · rcases hold with ⟨hnone, -⟩ | ⟨hfind, hsta, hheld⟩
        · rw [hnone] at hknown
          exact hknown.elim
        · rw [hfind] at hknown
          rcases hknown with hyes | ⟨hwpa2, hset⟩
          · exact absurd hyes hheld
          · rw [hsta]
            exact ⟨bit_contained (k := 6) hwpa2, fun _ => hset⟩
  | wepMode hwep hradius => exact radius_contained hradius rfl
  | setup mode wsec pmk hok hpmk hidle => exact supplOk_contained hok rfl rfl rfl rfl rfl
  | _ => exact ⟨ha.mode, ha.suppl⟩

/-! ## Runs -/

/-- **The modes of the stations are contained in the configuration**, in every run of an
authenticator in which pre-authentication frames come only from stations that have been set up. -/
theorem mode_contained (c : Ctx) (hrole : c.cfg.role = .authenticator) (es : List (Nat × Event))
    (hC : Along (step c) (fun w e => PreauthKnown c w e.2) (initWorld c) es)
    (hlive : (run (step c) (initWorld c) es).halted = false) :
    ModesContained c (run (step c) (initWorld c) es) := by
  have hstart : ∀ a, Starts c a → ∀ i, (a.sta i).Contained c := by
    intro a ha i
    rw [ha.sta]
    exact contained_of_empty rfl
  obtain ⟨a, ha, hall⟩ := run_sim (C := PreauthKnown c) trivial hstart
    (fun w ev hwe a b ha hab =>
      hab.forall_sta (P := Core.Contained c) hrole (fun _ _ _ _ hm hk => hm.contained hwe hk) ha) hC
  obtain rfl := ha.eq_abs hlive
  exact fun i _ => hall i

/-- An authenticator for WPA2 with AES, with both a RADIUS server and a pre-shared key. -/
def mixedContext : Ctx :=
  ⟨bcmcrypto, plainConfig .authenticator (wpa2 ||| wpa2Psk) aesEnabled, calmDriver⟩

/-- A pre-authentication frame of the station `02:00:00:00:00:09`: an EAPOL-Start. -/
def preauthStart : Frame :=
  ⟨Mem.ofBytes ([2, 0, 0, 0, 0, 1] ++ [2, 0, 0, 0, 0, 9] ++ [0x88, 0xc7] ++ [2, 1, 0, 0]), 18⟩

set_option maxRecDepth 100000 in
/-- A station associates, and pre-authenticates afterwards. -/
theorem mode_contained_associated : ModesContained mixedContext
    (run (step mixedContext) (initWorld mixedContext)
      [(1, .assoc (assocMsg (rsnElement 0))), (2, .preauth preauthStart)]) :=
  mode_contained mixedContext rfl _ (by decide +kernel) (by decide +kernel)

/-- An authenticator for WPA2 with a pre-shared key and AES. -/
def pskOnlyContext : Ctx :=
  ⟨bcmcrypto, plainConfig .authenticator wpa2Psk aesEnabled, calmDriver⟩

set_option maxRecDepth 100000 in
/-- **A pre-authentication frame of a stranger**: it gets a mode that the network does not have,
and nothing is set up for it. -/
theorem preauth_uncontained :
    ¬ ∀ (c : Ctx), c.cfg.role = .authenticator → ∀ es : List (Nat × Event),
      (run (step c) (initWorld c) es).halted = false →
      ModesContained c (run (step c) (initWorld c) es) := by
  intro h
  have hmode := (h pskOnlyContext rfl [(1, .preauth preauthStart)] (by decide +kernel)
    ⟨0, maxSupplicants_pos⟩ (by decide +kernel)).mode
  revert hmode
  decide +kernel

end BroadcomWl.Nas
