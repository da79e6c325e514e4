import BroadcomWl.Nas.EffectsStep
import BroadcomWl.Crypto.Evaluate

/-!
# The length of the supplicant's group key

`gtk_len` has two writers at the supplicant. `wpa_extract_gtk` takes it from the length octet of the
key data encapsulation and checks it; `wpa_decr_gtk` takes the 16-bit `key_len` of a WPA group key
message as it is.

**`gtk_length_bounded`.** The key fits into the 32 octets of `wpa->gtk` in every state of every run
in which no verified group key message of WPA announces a longer key. -/

namespace BroadcomWl.Nas

open BroadcomWl.Lib BroadcomWl.Crypto Relation

/-- A group key message of WPA that the supplicant verifies announces a key that fits. -/
def KeyLenOk (c : Ctx) (w : World) : Event → Prop
  | .eapol f => ∀ i, groupFrame c w f i = true → f.keyLen ≤ tkipTkLen
  | _ => True

instance (c : Ctx) (w : World) (ev : Event) : Decidable (KeyLenOk c w ev) := by
  apply @Event.casesOn (fun ev => Decidable (KeyLenOk c w ev)) ev
  all_goals
    intros
    dsimp only [KeyLenOk]
    infer_instance

/-- Only a key that fits is granted. -/
def Grant.fitting : Grant :=
  ⟨(· ≤ tkipTkLen), fun _ => True, fun _ _ => True, fun _ => True, True, fun _ h => h⟩

variable {c : Ctx} {w w' : World}

theorem Grants.fitting {ev : Event} (h : KeyLenOk c w ev) : Grants c .fitting w ev := by
  refine ⟨fun f i hev _ hi => ?_, fun _ _ _ => trivial, fun _ _ _ _ _ => trivial,
    fun _ _ _ => trivial⟩
  subst hev
  exact h i hi

theorem Effect.gtkLen_le (h : Effect c .fitting w w') (hw : w.gtkLen ≤ tkipTkLen) :
    w'.gtkLen ≤ tkipTkLen := by
  cases h with
  | aside ha => rwa [ha.gtkLen]
  | note ho => exact hw
  | sta i hf => exact hw
  | keyLen hn => exact hn
  | draw i hport hdesc hnonce =>
      show (w.drawn c (some i)).gtkLen ≤ tkipTkLen
      rwa [(drawn_undrawn (some i) w).gtkLen]
  | drawGroup => rwa [(drawn_undrawn none { w with gnonce := w.globalKeyCounter }).gtkLen]
  | enter i ea now ha =>
      rw [ha.gtkLen]
      exact hw
  | send i ea k gtk hk => exact hw
  | authenticate hi hdesc hnonce => exact hw
  | success hi ho => exact hw
  | relay ea preauth hr => exact hw
  | forward i username state hf => exact hw

theorem Effects.gtkLen_le (h : Effects c .fitting w w') (hw : w.gtkLen ≤ tkipTkLen) :
    w'.gtkLen ≤ tkipTkLen :=
  reach_invariant (I := fun w => w.gtkLen ≤ tkipTkLen) (fun _ _ ha hab => hab.gtkLen_le ha) h hw

theorem step_gtkLen_le (e : Nat × Event) (hw : w.gtkLen ≤ tkipTkLen) (he : KeyLenOk c w e.2) :
    (step c w e).gtkLen ≤ tkipTkLen := by
  cases hlive : w.halted with
  | true => rwa [step, if_pos hlive]
  | false =>
      rcases step_changes (t := e.1) hlive (Grants.fitting he) with hch | ⟨-, heff⟩
      · cases hch with
        | calm heff => exact Effects.gtkLen_le heff hw
        | mic hm heff hmic heff' =>
            have h := Effects.gtkLen_le heff hw
            cases hmic with
            | report => exact Effects.gtkLen_le heff' h
            | trigger hrole hcm hrecent => exact Effects.gtkLen_le heff' h
      · exact Effects.gtkLen_le heff hw

/-- **The group key fits**, as long as no verified group key message of WPA announces a
longer one. -/
theorem gtk_length_bounded (c : Ctx) (es : List (Nat × Event))
    (h : Along (step c) (fun w e => KeyLenOk c w e.2) (initWorld c) es) :
    (run (step c) (initWorld c) es).gtkLen ≤ tkipTkLen := by
  obtain ⟨hboot, heff⟩ := initWorld_effects c .fitting
  exact run_invariant (I := fun w => w.gtkLen ≤ tkipTkLen) (fun _ e hw he => step_gtkLen_le e hw he)
    (Effects.gtkLen_le heff hboot.gtkLen) h

/-- A driver that knows its capabilities. -/
def capableDriver : Driver := { calmDriver with wpaCap := fun _ => some (0, 0) }

/-- A supplicant for WPA with a pre-shared key and TKIP. -/
def supplicantContext : Ctx :=
  ⟨bcmcrypto, plainConfig .supplicant wpaPsk tkipEnabled, capableDriver⟩

theorem supplicantContext_packed :
    supplicantContext = ⟨packedCrypto, plainConfig .supplicant wpaPsk tkipEnabled,
      capableDriver⟩ := by
  rw [supplicantContext, bcmcrypto_eq_packed]

/-- Message 1 of the authenticator, which is the station in the slot. -/
def World.message1 (w : World) (c : Ctx) (i : Slot) : Frame :=
  let s := w.sta i
  let k := { keyFrame s (s.desc ||| wpaKeyAck ||| wpaKeyPairwise) with
    keyLen := s.tkLen, nonce := List.replicate 32 7 }
  k.received c.cfg.ea s.ea

/-- A group key message of WPA, correctly signed, that announces a key of `n` octets. -/
def World.groupMessage (w : World) (c : Ctx) (i : Slot) (n : Nat) : Frame :=
  let s := w.sta i
  let k := { keyFrame s (s.desc ||| wpaKeyAck ||| wpaKeySecure ||| wpaKeyMic) with
    keyLen := n, data := List.replicate 32 0 }
  (k.sign c.crypto s).received c.cfg.ea s.ea

/-- The supplicant associates, answers message 1 and receives a group key of `n` octets. -/
def groupKeyReceived (n : Nat) : List (Nat × Event) :=
  script supplicantContext (initWorld supplicantContext)
    [fun _ => .assoc (assocMsg wpaElement), fun w =>
      .eapol (w.message1 supplicantContext firstSlot), fun w =>
        .eapol (w.groupMessage supplicantContext firstSlot n)]

set_option maxRecDepth 100000 in
theorem gtk_length_bounded_tkip :
    (run (step supplicantContext) (initWorld supplicantContext) (groupKeyReceived 32)).gtkLen
      ≤ tkipTkLen := by
  have h : Along (step supplicantContext) (fun w e => KeyLenOk supplicantContext w e.2)
      (initWorld supplicantContext) (groupKeyReceived 32) := by
    rw [groupKeyReceived, supplicantContext_packed]
    decide +kernel
  exact gtk_length_bounded supplicantContext _ h

set_option maxRecDepth 100000 in
/-- **A longer key**: the length is stored before anything compares it with the size of
the array. -/
theorem gtk_length_announced : ¬∀ (c : Ctx) (es : List (Nat × Event)), c.cfg.role = .supplicant →
    (run (step c) (initWorld c) es).gtkLen ≤ tkipTkLen := by
  intro h
  have hlen :
      (run (step supplicantContext) (initWorld supplicantContext) (groupKeyReceived 33)).gtkLen
      = 33 := by
    rw [groupKeyReceived, supplicantContext_packed]
    decide +kernel
  have hle := h supplicantContext (groupKeyReceived 33) rfl
  rw [hlen] at hle
  revert hle
  decide

end BroadcomWl.Nas
