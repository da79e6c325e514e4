import BroadcomWl.Crypto.Evaluate
import BroadcomWl.Nas.Refine

/-!
# The saved information element

The element of an association, or of a key request, is copied into `assoc_wpaie`, an array of
256 octets. Neither copy checks the length: `wpa_driver_assoc_msg` takes the length octet of the
element plus two, `wpa_verifystart` the 16-bit `data_len` of the frame, and `wpa_parse_ie` only
asks that the element is complete.

So the copies stay inside the array exactly as long as the accepted elements are short enough
(`savedIe_bound`); an association with a length octet of 255 writes past its end
(`savedIe_overflow`).
-/

namespace BroadcomWl.Nas

open BroadcomWl.Lib BroadcomWl.Crypto

variable {c : Ctx} {ev : Event} {w0 : World}

/-- No copy into `assoc_wpaie` was longer than the array, and so is what it holds. -/
def SavedIeBound (w : World) : Prop :=
  (∀ i n, .saveIe i n ∈ w.log → n ≤ maxWpaIe) ∧ ∀ i, (w.sta i).assocWpaie.length ≤ maxWpaIe

/-- The elements that the event has saved fit: an accepted association element has a length
octet of at most 254, an accepted key request at most 256 octets of key data. -/
def SavesFit (c : Ctx) (w : World) (ev : Event) : Prop :=
  ∀ i n, saves c ev w i n → n ≤ maxWpaIe

/-! ## The invariant -/

/-- `SavedIeBound`, of the abstract state. -/
structure IeInv (a : Abs) : Prop where
  log : ∀ i n, .saveIe i n ∈ a.log → n ≤ maxWpaIe
  sta : ∀ i, (a.sta i).ieLen ≤ maxWpaIe

theorem Move.savedIe {a : Abs} {i : Slot} {k : Core} {outs : List Out}
    (h : Move c ev w0 a i k outs) :
    (k.ieLen = (a.sta i).ieLen ∨ k.ieLen ≤ maxWpaIe)
      ∧ ∀ j n, .saveIe j n ∈ outs → n ≤ maxWpaIe ∨ saves c ev w0 j n := by
  cases h with
  | init ea now =>
      obtain ⟨mode, wsec, state, _, _, hcore⟩ := newSta_core c ea now
      refine ⟨.inr ?_, by simp⟩
      rw [hcore]
      exact Nat.zero_le _
  | save n hn =>
      refine ⟨.inl rfl, fun j m hm => ?_⟩
      simp only [List.mem_singleton, Out.saveIe.injEq] at hm
      rw [hm.1, hm.2]
      exact hn
  | setIe n hn => exact ⟨.inr hn, by simp⟩
  | _ => exact ⟨.inl rfl, by simp⟩

theorem AStep.ieInv (hC : SavesFit c w0 ev) {a b : Abs} (ha : IeInv a) (h : AStep c ev w0 a b) :
    IeInv b := by
  rcases h.inversion with ⟨i, k, outs, hmove, rfl⟩ | hkey | hsup
  · obtain ⟨hie, hout⟩ := hmove.savedIe
    refine ⟨fun j n hm => ?_, fun j => ?_⟩
    · rcases List.mem_append.mp hm with hm | hm
      · rcases hout j n hm with hn | hn
        · exact hn
        · exact hC j n hn
      · exact ha.log j n hm
    · by_cases hj : j = i
      · subst hj
        rw [Abs.put_sta_same]
        rcases hie with hie | hie
        · rw [hie]
          exact ha.sta j
        · exact hie
      · rw [Abs.put_sta_ne _ hj]
        exact ha.sta j
  · obtain ⟨outs, hlog, hout⟩ := hkey.log
    refine ⟨fun i n hm => ?_, fun i => by rw [hkey.sta]; exact ha.sta i⟩
    rw [hlog] at hm
    rcases List.mem_append.mp hm with hm | hm
    · obtain ⟨args, ret, ho⟩ := hout _ hm
      cases ho
    · exact ha.log i n hm
  · refine ⟨fun i n hm => ?_, fun i => ?_⟩
    · have hmem : Out.saveIe i n ∈ b.log.filter Out.isSave := List.mem_filter.mpr ⟨hm, rfl⟩
      rw [hsup.log] at hmem
      exact ha.log i n (List.mem_filter.mp hmem).1
    · rcases hsup.ie i with h | h
      · exact h.trans (ha.sta i)
      · exact h

/-! ## Runs -/

/-- **The saved element stays inside its array**, in every run in which every accepted element
is short enough. -/
theorem savedIe_bound (c : Ctx) (es : List (Nat × Event))
    (hC : Along (step c) (fun w e => SavesFit c w e.2) (initWorld c) es) :
    SavedIeBound (run (step c) (initWorld c) es) := by
  have hstart : ∀ a, Starts c a → IeInv a := by
    intro a ha
    constructor
    · rw [ha.log]
      simp
    · rw [ha.sta]
      decide
  obtain ⟨a, ha, hinv⟩ := run_sim (C := SavesFit c) (fun i n h => h.elim) hstart
    (fun w ev hwe a b ha hab => hab.ieInv hwe ha) hC
  refine ⟨fun i n hm => hinv.log i n ?_, fun i => ?_⟩
  · rw [ha.log]
    exact List.mem_filter.mpr ⟨hm, rfl⟩
  · rw [← ha.ieLen i]
    exact hinv.sta i

/-- An authenticator for WPA2 with a pre-shared key and AES. -/
def pskContext : Ctx :=
  ⟨bcmcrypto, plainConfig .authenticator wpa2Psk aesEnabled, calmDriver⟩

theorem pskContext_packed :
    pskContext = ⟨packedCrypto, plainConfig .authenticator wpa2Psk aesEnabled, calmDriver⟩ := by
  rw [pskContext, bcmcrypto_eq_packed]

theorem savedIe_bound_association : SavedIeBound
    (run (step pskContext) (initWorld pskContext) [(1, .assoc (assocMsg (rsnElement 0)))]) := by
  refine savedIe_bound pskContext _ ⟨fun i n h => ?_, trivial⟩
  obtain ⟨rfl, _⟩ := h
  decide

set_option maxRecDepth 100000 in
/-- An association whose element has the length octet 255: 257 octets are copied. -/
theorem savedIe_overflow :
    ¬∀ (c : Ctx) (es : List (Nat × Event)), SavedIeBound (run (step c) (initWorld c) es) := by
  intro h
  have hmem : Out.saveIe ⟨0, maxSupplicants_pos⟩ 257 ∈ (run (step pskContext) (initWorld pskContext)
      [(1, .assoc (assocMsg (rsnElement 235)))]).log := by decide +kernel
  have hle := (h pskContext _).1 _ _ hmem
  revert hle
  decide

end BroadcomWl.Nas
