import BroadcomWl.Lib.Lex
import BroadcomWl.Nas.Dispatch
import BroadcomWl.Crypto.Cipher

/-!
# The pairwise key of both sides

The authenticator and the supplicant run `wpa_calc_ptk` with the two addresses in exchanged roles.
The key is to depend on neither the role nor the order of the comparisons.

**`ptk_agreement`.** Both compute the PTK from the lesser and the greater address and the lesser and
the greater nonce, in the lexicographic order of unsigned octets.
-/

namespace BroadcomWl.Nas

open BroadcomWl.Lib Octet

/-! ## Minimum and maximum -/

theorem wpaArrayCmp_min (x y : Bytes) (h : x.length = y.length) :
    wpaArrayCmp false x y = min x y := by
  induction x generalizing y with
  | nil =>
      rw [List.length_eq_zero_iff.mp h.symm]
      exact (min_self _).symm
  | cons a x ih =>
      cases y with
      | nil => cases h
      | cons b y =>
          rw [cons_min_cons, wpaArrayCmp, ih y (Nat.succ.inj h)]
          simp

theorem wpaArrayCmp_max (x y : Bytes) (h : x.length = y.length) :
    wpaArrayCmp true x y = max x y := by
  induction x generalizing y with
  | nil =>
      rw [List.length_eq_zero_iff.mp h.symm]
      exact (max_self _).symm
  | cons a x ih =>
      cases y with
      | nil => cases h
      | cons b y =>
          rw [cons_max_cons, wpaArrayCmp, ih y (Nat.succ.inj h)]
          simp

/-! ## The key -/

/-- The text "Pairwise key expansion". -/
def ptkLabel : Bytes :=
  [0x50, 0x61, 0x69, 0x72, 0x77, 0x69, 0x73, 0x65, 0x20, 0x6b, 0x65, 0x79, 0x20, 0x65, 0x78,
    0x70, 0x61, 0x6e, 0x73, 0x69, 0x6f, 0x6e]

/-- The pairwise key of two addresses and two nonces. -/
def pairwiseKey (cr : Crypto) (pmk a b x y : Bytes) (len : Nat) : Bytes :=
  (cr.fPRF pmk ptkLabel (min a b ++ max a b ++ min x y ++ max x y) len).take len

theorem pairwiseKey_comm (cr : Crypto) (pmk a b x y : Bytes) (len : Nat) :
    pairwiseKey cr pmk a b x y len = pairwiseKey cr pmk b a x y len := by
  rw [pairwiseKey, pairwiseKey, min_comm a b, max_comm a b]

theorem calcPtk_eq (cr : Crypto) (pmk aa spa anonce snonce : Bytes) (len : Nat)
    (hea : aa.length = spa.length) (hnonce : anonce.length = snonce.length) :
    calcPtk cr pmk aa spa anonce snonce len = pairwiseKey cr pmk aa spa anonce snonce len := by
  unfold calcPtk pairwiseKey
  rw [wpaArrayCmp_min _ _ hea, wpaArrayCmp_max _ _ hea, wpaArrayCmp_min _ _ hnonce.symm,
    wpaArrayCmp_max _ _ hnonce.symm, min_comm snonce, max_comm snonce]
  rfl

/-- What `wpa_calc_ptk` puts in front of the array of keys, unless it resets the board. -/
def computedPtk (c : Ctx) (w : World) (i : Slot) : Option Bytes :=
  match wpaCalcPtk c i w with
  | .ok _ w' => some ((w'.sta i).ptk.take (w'.sta i).ptkLen)
  | .error _ _ => none

theorem computedPtk_eq (c : Ctx) (w : World) (i : Slot)
    (hea : c.cfg.ea.length = (w.sta i).ea.length)
    (hnonce : (w.sta i).anonce.length = (w.sta i).snonce.length) :
    computedPtk c w i = if tkipPtkLen < (w.sta i).ptkLen then none else
      some (pairwiseKey c.crypto (w.sta i).pmk c.cfg.ea (w.sta i).ea (w.sta i).anonce
        (w.sta i).snonce
        (w.sta i).ptkLen) := by
  have hspec : wp (wpaCalcPtk c i)
      (fun _ w' => ¬tkipPtkLen < (w.sta i).ptkLen
        ∧ (w'.sta i).ptk.take (w'.sta i).ptkLen =
          pairwiseKey c.crypto (w.sta i).pmk c.cfg.ea (w.sta i).ea
          (w.sta i).anonce (w.sta i).snonce (w.sta i).ptkLen)
      (fun _ _ => tkipPtkLen < (w.sta i).ptkLen) w := by
    simp only [wpaCalcPtk, wp_bind, wp_getSta, wp_ite, wp_nasHandleError, wp_modSta,
      World.updSta_same]
    refine ⟨fun hlen => hlen, fun hlen => ⟨hlen, ?_⟩⟩
    rw [calcPtk_eq _ _ _ _ _ _ _ hea hnonce]
    apply List.take_left'
    simp [pairwiseKey, c.crypto.le_fPRF_length]
  unfold computedPtk
  unfold wp at hspec
  cases hrun : wpaCalcPtk c i w with
  | ok _ w' =>
      rw [hrun] at hspec
      show some _ = _
      rw [if_neg hspec.1, hspec.2]
  | error _ w' =>
      rw [hrun] at hspec
      rw [if_pos hspec]

/-- **Both sides compute the same PTK.** An authenticator `ca` and a supplicant `cs` hold the same
PMK, key length and nonces for each other. Either both reset the board, because the length is out of
range, or both have the key of the lesser and the greater address and nonce. -/
theorem ptk_agreement (ca cs : Ctx) (wa ws : World) (i j : Slot) (hcrypto : ca.crypto = cs.crypto)
    (haa : ca.cfg.ea = (ws.sta j).ea) (hspa : (wa.sta i).ea = cs.cfg.ea)
    (haa6 : ca.cfg.ea.length = 6) (hspa6 : cs.cfg.ea.length = 6)
    (hpmk : (wa.sta i).pmk = (ws.sta j).pmk) (hlen : (wa.sta i).ptkLen = (ws.sta j).ptkLen)
    (hanonce : (wa.sta i).anonce = (ws.sta j).anonce)
    (hsnonce : (wa.sta i).snonce = (ws.sta j).snonce)
    (hanonce32 : (wa.sta i).anonce.length = 32) (hsnonce32 : (wa.sta i).snonce.length = 32) :
    computedPtk ca wa i = computedPtk cs ws j ∧
      computedPtk ca wa i = if tkipPtkLen < (wa.sta i).ptkLen then none else
        some (pairwiseKey ca.crypto (wa.sta i).pmk ca.cfg.ea cs.cfg.ea (wa.sta i).anonce
          (wa.sta i).snonce
          (wa.sta i).ptkLen) := by
  have ha := computedPtk_eq ca wa i (by rw [hspa, haa6, hspa6]) (by rw [hanonce32, hsnonce32])
  have hs := computedPtk_eq cs ws j (by rw [← haa, haa6, hspa6])
    (by rw [← hanonce, ← hsnonce, hanonce32, hsnonce32])
  rw [hspa] at ha
  rw [← haa, ← hcrypto, ← hpmk, ← hlen, ← hanonce, ← hsnonce, pairwiseKey_comm] at hs
  exact ⟨ha.trans hs.symm, ha⟩

/-- A station with AES keys to come. -/
def keyless (ea : Bytes) : Sta :=
  { Sta.zero with
    ea := ea, used := true, mode := wpa2Psk, pmk := List.replicate pmkLen 1
    ptkLen := aesPtkLen, tkLen := aesTkLen
    anonce := List.replicate 32 7, snonce := List.replicate 32 2 }

/-- The two ends of one link. -/
theorem ptk_agreement_link :
    let ca : Ctx := ⟨Crypto.bcmcrypto, plainConfig .authenticator wpa2Psk aesEnabled, calmDriver⟩
    let cs : Ctx :=
      ⟨Crypto.bcmcrypto,
        { plainConfig .supplicant wpa2Psk aesEnabled with ea := [2, 0, 0, 0, 0, 9] }, calmDriver⟩
    computedPtk ca (World.zero.updSta firstSlot fun _ => keyless [2, 0, 0, 0, 0, 9]) firstSlot
      = computedPtk cs (World.zero.updSta firstSlot fun _ => keyless ca.cfg.ea) firstSlot := by
  intro ca cs
  exact (ptk_agreement ca cs (World.zero.updSta firstSlot fun _ => keyless [2, 0, 0, 0, 0, 9])
    (World.zero.updSta firstSlot fun _ => keyless ca.cfg.ea) firstSlot firstSlot
    rfl rfl rfl rfl rfl rfl rfl rfl rfl rfl rfl).1

end BroadcomWl.Nas
