import Mathlib
import BroadcomWl.Eapd.Recv

/-!
# The mode of a station that associates

`eapd` and `nas` decode the same WPA or RSN element, each with a parser of its own. `nas` is given
the element. `eapd` searches it among the others (`assocElement`), and counts the octets that are
left from the length of all of them.

Behind the header the two parsers do the same with the octets left: `suitesMode`. So they agree if
the two numbers lead to the same suites, or if the suites that `eapd` takes in addition make no
difference (`Alike`).

**`assoc_mode_iff`.** Exactly then, and if the suites that it takes lie within the data
(`suitesEnd`), the scan of `eapd` stays inside the data and reports the mode that `nas` reports for
the element. -/

namespace BroadcomWl.Eapd

open BroadcomWl.Lib
open BroadcomWl.Nas (Bytes Mem wpaOui dot11MngRsnId dot11MngWpaId IeHeader wpaIeHeader
  wpaIeHeader_suites_le wpaParseIe wpaAuth2mode
  bcmParseTlvs bcmValidTlv)

/-! ## What is read -/

/-- Octets that are read lie between these two places. -/
def Touch.Within (lo hi : Nat) : Touch → Prop
  | .read off len => lo ≤ off ∧ off + len ≤ hi
  | _ => True

def Inside (lo hi : Nat) (w : Work) : Prop := ∀ t ∈ w.log, t.Within lo hi

/-- Nothing but the log has changed, and what was read lies between the two places exactly
if `P`. -/
structure Scans (lo hi : Nat) (P : Prop) (w w' : Work) : Prop where
  packet : w'.packet = w.packet
  stas : w'.stas = w.stas
  inside : Inside lo hi w' ↔ Inside lo hi w ∧ P

section

variable {lo hi : Nat} {P Q : Prop} {w w' w'' : Work}

@[simp] theorem inside_touch {t : Touch} :
    Inside lo hi (w.touch t) ↔ t.Within lo hi ∧ Inside lo hi w :=
  List.forall_mem_cons

theorem Scans.refl : Scans lo hi True w w := ⟨rfl, rfl, (and_true _).symm.to_iff⟩

theorem Scans.read (off len : Nat) :
    Scans lo hi (lo ≤ off ∧ off + len ≤ hi) w (w.touch (.read off len)) :=
  ⟨rfl, rfl, by rw [inside_touch, and_comm]; rfl⟩

theorem Scans.trans (h : Scans lo hi P w w') (h' : Scans lo hi Q w' w'') :
    Scans lo hi (P ∧ Q) w w'' :=
  ⟨h'.packet.trans h.packet, h'.stas.trans h.stas, by rw [h'.inside, h.inside, and_assoc]⟩

theorem Scans.congr (h : Scans lo hi P w w') (hPQ : P ↔ Q) : Scans lo hi Q w w' :=
  ⟨h.packet, h.stas, by rw [h.inside, hPQ]⟩

end

/-! ## Searches -/

section

variable {lo hi : Nat} {w : Work}

theorem nasAppParseTlvs_short (key : UInt8) {fuel : Nat} (elt : Nat) {totlen : Int}
    (hfuel : 0 < fuel) (hshort : totlen < 2) {Q : Option Nat → Work → Prop}
    {E : Stuck → Work → Prop} :
    wp (nasAppParseTlvs key fuel elt totlen) Q E w ↔ Q none w := by
  cases fuel with
  | zero => omega
  | succ fuel =>
      rw [nasAppParseTlvs, if_pos hshort]
      exact wp_pure none

/-- `nas_app_parse_tlvs` is the search of `bcm_parse_tlvs`, and stays inside. -/
theorem nasAppParseTlvs_spec (key : UInt8) {fuel elt totlen : Nat} (hfuel : totlen < fuel)
    (hlo : lo ≤ elt) (hhi : elt + totlen ≤ hi) :
    wp (nasAppParseTlvs key fuel elt totlen)
      (fun r w' => r = bcmParseTlvs w.packet key fuel elt totlen ∧ Scans lo hi True w w')
      (fun _ _ => False) w := by
  induction fuel generalizing elt totlen w with
  | zero => omega
  | succ fuel ih =>
      by_cases hshort : totlen < 2
      · rw [nasAppParseTlvs_short key elt (Nat.succ_pos _) (by omega), bcmParseTlvs, if_pos hshort]
        exact ⟨rfl, .refl⟩
      · have hreads : Scans lo hi True w ((w.touch (.read (elt + 1) 1)).touch (.read elt 1)) :=
          ((Scans.read (elt + 1) 1).trans (.read elt 1)).congr (iff_true_intro ⟨by omega, by omega⟩)
        simp only [nasAppParseTlvs, wp_ite, wp_pure, wp_bind, wp_octet, touch_packet,
          Bool.and_eq_true,
          decide_eq_true_eq]
        rw [bcmParseTlvs, if_neg hshort]
        dsimp only
        refine ⟨fun hno => absurd hno (by omega), fun _ => ⟨fun hhit => ?_, fun hmiss => ?_⟩⟩
        · rw [if_pos ⟨hhit.1, by omega⟩]
          exact ⟨rfl, hreads⟩
        · rw [if_neg fun h => hmiss ⟨h.1, by omega⟩]
          by_cases hpast : totlen < (w.packet (elt + 1)).toNat + 2
          · rw [nasAppParseTlvs_short key _ (by omega) (by omega), if_pos hpast]
            exact ⟨rfl, hreads⟩
          · rw [if_neg hpast]
            have hcast : (totlen : Int) - ((w.packet (elt + 1)).toNat + 2) =
                ((totlen - ((w.packet (elt + 1)).toNat + 2) : Nat) : Int) := by omega
            rw [hcast]
            refine wp_mono (ih (by omega) (by omega) (by omega)) (fun r w' h => ?_) (fun _ _ h => h)
            exact ⟨h.1, (hreads.trans h.2).congr (and_true _).to_iff⟩

/-- A vendor element of this type, as `nas_app_is_wpa_ie` and `nas_app_is_wps_ie` see it. -/
def hasVendorType (m : Mem) (type : UInt8) (ie : Nat) : Bool :=
  4 < (m (ie + 1)).toNat && m.slice (ie + 2) 4 == wpaOui ++ [type]

/-- The first vendor element of this type. -/
def firstVendorIe (m : Mem) (type : UInt8) : Nat → Nat → Nat → Option Nat
  | 0, _, _ => none
  | fuel + 1, parse, len =>
    match bcmParseTlvs m dot11MngWpaId (len + 1) parse len with
    | none => none
    | some ie =>
      if hasVendorType m type ie then some ie
      else
        let next := ie + (m (ie + 1)).toNat + 2
        firstVendorIe m type fuel next (len - (next - parse))

theorem firstVendorIe_fits {m : Mem} {type : UInt8} {fuel parse len ie : Nat}
    (h : firstVendorIe m type fuel parse len = some ie) :
    parse ≤ ie ∧ ie + (m (ie + 1)).toNat + 2 ≤ parse + len := by
  induction fuel generalizing parse len with
  | zero => cases h
  | succ fuel ih =>
      unfold firstVendorIe at h
      split at h
      · cases h
      · rename_i ie' hie
        have hfit := Nas.bcmParseTlvs_fits hie
        dsimp only at h
        split at h
        · cases h
          exact hfit
        · have hrest := ih h
          omega

theorem isVendorIe_spec (type : UInt8) {ie : Nat} (hlo : lo ≤ ie)
    (hhi : ie + (w.packet (ie + 1)).toNat + 2 ≤ hi) :
    wp (isVendorIe type ie) (fun b w' => b = hasVendorType w.packet type ie ∧ Scans lo hi True w w')
      (fun _ _ => False) w := by
  simp only [isVendorIe, hasVendorType, wp_bind, wp_octet, wp_octets, wp_ite, wp_pure, touch_packet]
  refine ⟨fun hlen => ⟨by simp [hlen], ?_⟩, fun hlen => ⟨by simp [hlen], ?_⟩⟩
  · exact ((Scans.read (ie + 1) 1).trans (.read (ie + 2) 4)).congr
      (iff_true_intro ⟨by omega, by omega⟩)
  · exact (Scans.read (ie + 1) 1).congr (iff_true_intro (by omega))

/-- **A search for a vendor element** finds the first one, and stays inside. -/
theorem nasAppFind_spec (type : UInt8) {fuel parse len : Nat} (hfuel : len < fuel)
    (hlo : lo ≤ parse) (hhi : parse + len ≤ hi) :
    wp (nasAppFind (isVendorIe type) fuel parse len)
      (fun r w' => r = firstVendorIe w.packet type fuel parse len ∧ Scans lo hi True w w')
      (fun _ _ => False) w := by
  induction fuel generalizing parse len w with
  | zero => omega
  | succ fuel ih =>
      rw [nasAppFind, firstVendorIe, wp_bind]
      refine wp_mono (nasAppParseTlvs_spec dot11MngWpaId (Nat.lt_succ_self len) hlo hhi)
        (fun r w₁ h₁ => ?_)
        (fun _ _ h => h)
      obtain ⟨hr, h₁⟩ := h₁
      rw [← hr]
      cases r with
      | none => exact ⟨rfl, h₁⟩
      | some ie =>
          have hfit := Nas.bcmParseTlvs_fits hr.symm
          have hvendor : wp (isVendorIe type ie)
              (fun b w' => b = hasVendorType w₁.packet type ie ∧
                  Scans lo hi True w₁ w') (fun _ _ => False) w₁ := by
            apply isVendorIe_spec type
            · omega
            · rw [h₁.packet]
              omega
          dsimp only
          rw [wp_bind]
          refine wp_mono hvendor (fun b w₂ h₂ => ?_) (fun _ _ h => h)
          obtain ⟨rfl, h₂⟩ := h₂
          rw [h₁.packet, wp_ite]
          refine ⟨fun hhit => ?_, fun hmiss => ?_⟩
          · rw [if_pos hhit]
            exact ⟨rfl, (h₁.trans h₂).congr (and_true _).to_iff⟩
          · rw [if_neg hmiss, wp_bind, wp_octet, h₂.packet, h₁.packet]
            have hread : Scans lo hi (lo ≤ ie + 1 ∧ ie + 1 + 1 ≤ hi) w₂ _ := .read (ie + 1) 1
            have hw : Scans lo hi True w (w₂.touch (.read (ie + 1) 1)) :=
              ((h₁.trans h₂).trans hread).congr (iff_true_intro (by simp only [true_and]; omega))
            have hpacket := hw.packet
            refine wp_mono (ih (w := w₂.touch (.read (ie + 1) 1)) (by omega) (by omega) (by omega))
              (fun r w' h => ?_) (fun _ _ h => h)
            rw [hpacket] at h
            exact ⟨h.1, (hw.trans h.2).congr (and_true _).to_iff⟩

/-- The element that `nas_app_parse_ie` decodes: the first WPA element, else the first
RSN element. -/
def assocElement (m : Mem) (ie len : Nat) : Option Nat :=
  match firstVendorIe m 1 (len + 1) ie len with
  | some wpaie => some wpaie
  | none => bcmParseTlvs m dot11MngRsnId (len + 1) ie len

/-- The memory from an element on. -/
def element (m : Mem) (wpaie : Nat) : Mem := fun i => m (wpaie + i)

/-- The own length of an element. -/
def elementLen (m : Mem) (wpaie : Nat) : Nat := (m (wpaie + 1)).toNat + 2

theorem assocElement_fits {m : Mem} {ie len wpaie : Nat} (h : assocElement m ie len = some wpaie) :
    ie ≤ wpaie ∧ wpaie + elementLen m wpaie ≤ ie + len := by
  unfold assocElement at h
  unfold elementLen
  split at h
  · rename_i wpaie' hvendor
    cases h
    have hfit := firstVendorIe_fits hvendor
    omega
  · have hfit := Nas.bcmParseTlvs_fits h
    omega

theorem element_slice (m : Mem) (wpaie off n : Nat) :
    (element m wpaie).slice off n = m.slice (wpaie + off) n := by
  induction n generalizing off with
  | zero => rfl
  | succ n ih =>
      simp only [Nas.Mem.slice, ih]
      rfl

theorem element_le16 (m : Mem) (wpaie off : Nat) :
    (element m wpaie).le16 off = m.le16 (wpaie + off) := rfl

/-! ## The header -/

theorem nasAppIeHeader_spec {wpaie : Nat} (hlo : lo ≤ wpaie)
    (hhi : wpaie + elementLen w.packet wpaie ≤ hi) :
    wp (nasAppIeHeader wpaie)
      (fun r w' => r = wpaIeHeader (element w.packet wpaie) (elementLen w.packet wpaie) ∧
        Scans lo hi True w w')
      (fun _ _ => False) w := by
  have hvalid : bcmValidTlv (element w.packet wpaie) (elementLen w.packet wpaie) = true := by
    rw [bcmValidTlv, Bool.and_eq_true, decide_eq_true_iff, decide_eq_true_iff]
    simp only [element, elementLen]
    omega
  have h0 : element w.packet wpaie 0 = w.packet wpaie := rfl
  have h1 : element w.packet wpaie 1 = w.packet (wpaie + 1) := rfl
  simp only [elementLen] at hhi
  simp only [nasAppIeHeader, wpaIeHeader, hvalid, h0, h1, wp_bind, wp_octet, wp_octets,
    wp_le16, wp_ite, wp_pure, touch_packet, Bool.not_true, Bool.false_eq_true, if_false,
    element_slice]
  have htag : Scans lo hi (lo ≤ wpaie ∧ wpaie + 1 ≤ hi) w _ := .read wpaie 1
  have hlen := htag.trans (.read (wpaie + 1) 1)
  refine ⟨fun hrsn => ?_, fun hrsn => ⟨fun hwpa => ?_, fun hwpa => ?_⟩⟩
  · simp only [if_pos hrsn]
    refine ⟨fun hshort => ?_, fun hshort => ⟨fun hversion => ?_, fun hversion => ?_⟩⟩
    · rw [if_pos hshort]
      exact ⟨rfl, hlen.congr (iff_true_intro (by omega))⟩
    · rw [if_neg hshort, if_pos (by exact hversion)]
      exact ⟨rfl, (hlen.trans (.read (wpaie + 2) 2)).congr (iff_true_intro (by omega))⟩
    · rw [if_neg hshort, if_neg (by exact hversion)]
      exact ⟨rfl, (hlen.trans (.read (wpaie + 2) 2)).congr (iff_true_intro (by omega))⟩
  · simp only [if_neg hrsn, if_pos hwpa]
    refine ⟨fun hshort => ?_,
      fun hshort => ⟨fun houi => ?_, fun houi => ⟨fun hversion => ?_, fun hversion => ?_⟩⟩⟩
    · rw [if_pos hshort]
      exact ⟨rfl, hlen.congr (iff_true_intro (by omega))⟩
    · rw [if_neg hshort, if_pos houi]
      exact ⟨rfl, (hlen.trans (.read (wpaie + 2) 4)).congr (iff_true_intro (by omega))⟩
    · rw [if_neg hshort, if_neg houi, if_pos (by exact hversion)]
      exact ⟨rfl, ((hlen.trans (.read (wpaie + 2) 4)).trans (.read (wpaie + 6) 2)).congr
        (iff_true_intro (by omega))⟩
    · rw [if_neg hshort, if_neg houi, if_neg (by exact hversion)]
      exact ⟨rfl, ((hlen.trans (.read (wpaie + 2) 4)).trans (.read (wpaie + 6) 2)).congr
        (iff_true_intro (by omega))⟩
  · simp only [if_neg hrsn, if_neg hwpa]
    exact ⟨trivial, htag.congr (iff_true_intro (by omega))⟩

end

/-! ## The suites -/

/-- With this number of octets left behind the header, the cipher suite is taken. -/
def CipherTaken (left : Int) : Prop := 2 ≤ left ∧ left < 4 ∨ 6 ≤ left

instance (left : Int) : Decidable (CipherTaken left) := inferInstanceAs (Decidable (_ ∨ _))

/-- With this number of octets left behind the header, the AKM suite is taken. -/
def AkmTaken (left : Int) : Prop := 12 ≤ left

instance (left : Int) : Decidable (AkmTaken left) := inferInstanceAs (Decidable (_ ≤ _))

section

variable (e : Mem) (h : IeHeader)

def OneCipher : Prop := e.le16 (h.suites + 4) = 1
def OneAkm : Prop := e.le16 (h.suites + 10) = 1
def AkmKnown : Prop := e.slice (h.suites + 12) 3 = h.oui

instance : Decidable (OneCipher e h) := inferInstanceAs (Decidable (_ = _))
instance : Decidable (OneAkm e h) := inferInstanceAs (Decidable (_ = _))
instance : Decidable (AkmKnown e h) := inferInstanceAs (Decidable (_ = _))

/-- The mode of an element with `left` octets behind its header, or `none` where it is rejected. -/
def suitesMode (left : Int) : Option Nat :=
  if CipherTaken left ∧ ¬OneCipher e h then none
  else if AkmTaken left ∧ ¬OneAkm e h then none
  else
    some (if AkmTaken left ∧
      AkmKnown e h then wpaAuth2mode (h.akm2auth (e (h.suites + 15)).toNat) else 0)

/-- The octets of a suite that are looked at: its type only if the OUI is right. -/
def suiteOctets (suite : Nat) : Nat := if e.slice (h.suites + suite) 3 = h.oui then 4 else 3

/-- How far behind the header the suites are looked at. -/
def suitesEnd (left : Int) : Nat :=
  if AkmTaken left ∧ OneCipher e h then
    if OneAkm e h then 12 + suiteOctets e h 12 else 12
  else if CipherTaken left then
    if OneCipher e h then 6 + suiteOctets e h 6 else 6
  else if 4 ≤ left then suiteOctets e h 0
  else 0

end

/-- **`nas`** decodes the suites of the element with its own length. -/
theorem wpaParseIe_mode (e : Mem) (own : Nat) (sta : Option Bytes) :
    (wpaParseIe e own sta).map (·.mode) =
      (wpaIeHeader e own).bind fun h => suitesMode e h ((own : Int) - h.suites) := by
  unfold wpaParseIe
  cases wpaIeHeader e own with
  | none => rfl
  | some h =>
      simp only [Option.bind_eq_bind, Option.bind_some]
      generalize (own : Int) - h.suites = left
      have hcipher : (2 ≤ if 4 ≤ left then left - 4 else left) ↔ CipherTaken left := by
        unfold CipherTaken
        split <;> omega
      have hakm : (2 ≤ if CipherTaken left then (if 4 ≤ left then left - 4 else left) - 6
          else if 4 ≤ left then left - 4 else left) ↔ AkmTaken left := by
        unfold CipherTaken AkmTaken
        split_ifs <;> omega
      simp only [hcipher, hakm]
      unfold suitesMode OneCipher OneAkm AkmKnown
      by_cases hone : CipherTaken left ∧ ¬e.le16 (h.suites + 4) = 1
      · rw [if_pos hone, if_pos hone]
        rfl
      · rw [if_neg hone, if_neg hone]
        by_cases hone' : AkmTaken left ∧ ¬e.le16 (h.suites + 10) = 1
        · rw [if_pos hone', if_pos hone']
          rfl
        · rw [if_neg hone', if_neg hone']
          cases sta with
          | none => simp
          | some pmkid =>
              simp [apply_ite (Option.map Nas.ParsedIe.mode)]

/-! ## The suites, as `eapd` takes them -/

section

variable {lo hi : Nat} {w : Work}

/-- The octets of a suite that are looked at. -/
def suiteEnd (m : Mem) (oui : Bytes) (suite : Nat) : Nat :=
  if m.slice suite 3 = oui then suite + 4 else suite + 3

/-- The type of a suite of this OUI. -/
def typeOf (m : Mem) (oui : Bytes) (suite : Nat) : Option Nat :=
  if m.slice suite 3 = oui then some (m (suite + 3)).toNat else none

theorem suiteType_spec (oui : Bytes) {suite : Nat} (hlo : lo ≤ suite) :
    wp (suiteType oui suite)
      (fun r w' => r = typeOf w.packet oui suite ∧
        Scans lo hi (suiteEnd w.packet oui suite ≤ hi) w w')
      (fun _ _ => False) w := by
  simp only [suiteType, typeOf, suiteEnd, wp_bind, wp_octets, wp_octet, wp_ite, wp_pure,
    touch_packet]
  refine ⟨fun houi => ?_, fun houi => ?_⟩
  · rw [if_pos houi, if_pos houi]
    refine ⟨rfl, ((Scans.read suite 3).trans (.read (suite + 3) 1)).congr ?_⟩
    omega
  · rw [if_neg houi, if_neg houi]
    refine ⟨rfl, (Scans.read suite 3).congr ?_⟩
    omega

theorem mcastSuite_spec (oui : Bytes) {mcast : Nat} (hlo : lo ≤ mcast) (left : Int) :
    wp (mcastSuite oui mcast left)
      (fun r w' => r.2 = (if 4 ≤ left then left - 4 else left) ∧
        Scans lo hi (4 ≤ left → suiteEnd w.packet oui mcast ≤ hi) w w')
      (fun _ _ => False) w := by
  simp only [mcastSuite, wp_bind, wp_ite, wp_pure]
  refine ⟨fun hleft => ?_, fun hleft => ?_⟩
  · refine wp_mono (@suiteType_spec lo hi w oui mcast hlo) (fun r w' h => ?_) (fun _ _ h => h)
    rw [if_pos hleft]
    exact ⟨rfl, h.2.congr (by simp [hleft])⟩
  · rw [if_neg hleft]
    exact ⟨rfl, Scans.refl.congr (iff_of_true trivial fun hyes => absurd hyes hleft)⟩

theorem countedSuite_spec (oui : Bytes) {list : Nat} (hlo : lo ≤ list) (left : Int) :
    wp (countedSuite oui list left)
      (fun r w' =>
        r = (if 2 ≤ left then
            if w.packet.le16 list = 1 then some (typeOf w.packet oui (list + 2), left - 6) else none
          else some (none, left)) ∧
        Scans lo hi (2 ≤ left → list + 2 ≤ hi ∧
          (w.packet.le16 list = 1 → suiteEnd w.packet oui (list + 2) ≤ hi)) w w')
      (fun _ _ => False) w := by
  simp only [countedSuite, wp_bind, wp_le16, wp_ite, wp_pure]
  refine ⟨fun hleft => ⟨fun hcount => ?_, fun hcount => ?_⟩, fun hleft => ?_⟩
  · rw [if_pos hleft, if_neg hcount]
    refine ⟨rfl, (Scans.read list 2).congr ?_⟩
    simp [hleft, hcount, hlo]
  · rw [not_not] at hcount
    have hread : Scans lo hi (lo ≤ list ∧ list + 2 ≤ hi) w _ := .read list 2
    have hsuite := @suiteType_spec lo hi (w.touch (.read list 2)) oui (list + 2) (by omega)
    refine wp_mono hsuite (fun r w' h => ?_) (fun _ _ h => h)
    rw [if_pos hleft, if_pos hcount, h.1]
    refine ⟨by rw [sub_sub]; rfl, (hread.trans h.2).congr ?_⟩
    simp [hleft, hcount, hlo]
  · rw [if_neg hleft]
    exact ⟨rfl, Scans.refl.congr (iff_of_true trivial fun hyes => absurd hyes hleft)⟩

theorem suiteEnd_eq (m : Mem) (h : IeHeader) (wpaie suite : Nat) :
    suiteEnd m h.oui (wpaie + h.suites + suite) =
      wpaie + h.suites + (suite + suiteOctets (element m wpaie) h suite) := by
  unfold suiteEnd suiteOctets
  rw [element_slice, ← add_assoc wpaie]
  split <;> omega

theorem suiteOctets_le (e : Mem) (h : IeHeader) (suite : Nat) : suiteOctets e h suite ≤ 4 := by
  unfold suiteOctets
  split <;> omega

/-- **`eapd`** decodes the suites of the element with the octets that it has left. -/
theorem nasAppParseSuites_spec (h : IeHeader) {wpaie : Nat} (hlo : lo ≤ wpaie)
    (hhi : wpaie + h.suites ≤ hi) (left : Int) :
    wp (nasAppParseSuites h (wpaie + h.suites) left)
      (fun r w' => r.map Prod.snd = suitesMode (element w.packet wpaie) h left ∧
        Scans lo hi (wpaie + h.suites + suitesEnd (element w.packet wpaie) h left ≤ hi) w w')
      (fun _ _ => False) w := by
  have hmcast := @mcastSuite_spec lo hi w h.oui (wpaie + h.suites) (by omega) left
  have hmcastEnd := suiteEnd_eq w.packet h wpaie 0
  have hcipherEnd := suiteEnd_eq w.packet h wpaie 6
  have hakmEnd := suiteEnd_eq w.packet h wpaie 12
  have hfour := suiteOctets_le (element w.packet wpaie) h
  have hfour₀ := hfour 0
  have hfour₆ := hfour 6
  have hcipher : (2 ≤ if 4 ≤ left then left - 4 else left) ↔ CipherTaken left := by
    unfold CipherTaken
    split <;> omega
  have hcount : w.packet.le16 (wpaie + h.suites + 4) = 1 ↔
      OneCipher (element w.packet wpaie) h := by
    rw [OneCipher, element_le16, add_assoc]
  have hcount' : w.packet.le16 (wpaie + h.suites + 10) = 1 ↔ OneAkm (element w.packet wpaie) h := by
    rw [OneAkm, element_le16, add_assoc]
  have hknown : w.packet.slice (wpaie + h.suites + 12) 3 = h.oui ↔
      AkmKnown (element w.packet wpaie) h := by
    rw [AkmKnown, element_slice, add_assoc]
  rw [add_zero] at hmcastEnd
  unfold nasAppParseSuites
  rw [wp_bind]
  refine wp_mono hmcast (fun r w₁ h₁ => ?_) (fun _ _ h => h)
  obtain ⟨group, left₁⟩ := r
  obtain ⟨rfl, h₁⟩ := h₁
  dsimp only
  rw [wp_bind]
  refine wp_mono (@countedSuite_spec lo hi w₁ h.oui (wpaie + h.suites + 4) (by omega) _)
    (fun r w₂ h₂ => ?_)
    (fun _ _ h => h)
  obtain ⟨rfl, h₂⟩ := h₂
  rw [h₁.packet] at h₂ ⊢
  simp only [hcipher, hcount] at h₂ ⊢
  replace h₂ := h₁.trans h₂
  by_cases htaken : CipherTaken left
  · by_cases hone : OneCipher (element w.packet wpaie) h
    · simp only [if_pos htaken, if_pos hone]
      have hakm : (2 ≤ (if 4 ≤ left then left - 4 else left) - 6) ↔ AkmTaken left := by
        unfold CipherTaken at htaken
        unfold AkmTaken
        split <;> omega
      rw [wp_bind]
      refine wp_mono (@countedSuite_spec lo hi w₂ h.oui (wpaie + h.suites + 10) (by omega) _)
        (fun r w₃ h₃ => ?_)
        (fun _ _ h => h)
      obtain ⟨rfl, h₃⟩ := h₃
      rw [h₂.packet] at h₃ ⊢
      simp only [hakm, hcount'] at h₃ ⊢
      replace h₃ := h₂.trans h₃
      by_cases htaken' : AkmTaken left
      · by_cases hone' : OneAkm (element w.packet wpaie) h
        · simp only [if_pos htaken', if_pos hone', wp_pure]
          refine ⟨?_, h₃.congr ?_⟩
          · simp only [suitesMode, typeOf, hknown, htaken, hone, htaken', hone', not_true,
              and_false, if_false, true_and, Option.map_some]
            split <;> rfl
          · simp only [suitesEnd, htaken, hone, htaken', hone', true_and, if_true, true_implies,
              hmcastEnd, hcipherEnd, hakmEnd]
            omega
        · simp only [if_pos htaken', if_neg hone', wp_pure]
          refine ⟨?_, h₃.congr ?_⟩
          · simp only [suitesMode, htaken, hone, htaken', hone', not_true, not_false_eq_true,
              and_false, and_true, if_false, if_true, Option.map_none]
          · simp only [suitesEnd, htaken, hone, htaken', hone', if_true, if_false, true_implies,
              false_implies, and_true, hmcastEnd, hcipherEnd]
            omega
      · simp only [if_neg htaken', wp_pure]
        refine ⟨?_, h₃.congr ?_⟩
        · simp [suitesMode, htaken, hone, htaken']
        · simp only [suitesEnd, htaken, hone, htaken', if_true, if_false, true_implies,
            false_implies, and_true, hmcastEnd, hcipherEnd]
          omega
    · simp only [if_pos htaken, if_neg hone, wp_pure]
      refine ⟨?_, h₂.congr ?_⟩
      · simp [suitesMode, htaken, hone]
      · simp only [suitesEnd, htaken, hone, and_false, if_true, if_false, true_implies,
          false_implies, and_true, hmcastEnd]
        omega
  · have htaken' : ¬AkmTaken left := by
      unfold CipherTaken at htaken
      unfold AkmTaken
      omega
    have hleft : ¬2 ≤ if 4 ≤ left then left - 4 else left := fun h => htaken (hcipher.mp h)
    simp only [if_neg htaken]
    rw [wp_bind]
    refine wp_mono (@countedSuite_spec lo hi w₂ h.oui (wpaie + h.suites + 10) (by omega) _)
      (fun r w₃ h₃ => ?_)
      (fun _ _ h => h)
    obtain ⟨rfl, h₃⟩ := h₃
    simp only [if_neg hleft, wp_pure]
    refine ⟨?_, (h₂.trans h₃).congr ?_⟩
    · simp [suitesMode, htaken, htaken']
    · simp only [suitesEnd, htaken, htaken', hleft, false_and, if_false, false_implies, and_true,
        hmcastEnd]
      split_ifs with hfour
      · simp [hfour]
      · simp [hfour, hhi]

/-- The mode that `eapd` reports. -/
def assocMode (m : Mem) (ie len : Nat) : Option Nat :=
  (assocElement m ie len).bind fun wpaie =>
    (wpaIeHeader (element m wpaie) (elementLen m wpaie)).bind fun h =>
      suitesMode (element m wpaie) h ((len : Int) - h.suites)

/-- The suites that `eapd` takes lie within the data. -/
def SuitesInside (m : Mem) (ie len : Nat) : Prop :=
  ∀ wpaie h, assocElement m ie len = some wpaie →
    wpaIeHeader (element m wpaie) (elementLen m wpaie) = some h →
      wpaie + h.suites + suitesEnd (element m wpaie) h ((len : Int) - h.suites) ≤ ie + len

theorem nasAppSearchIe_spec {ie len : Nat} :
    wp (nasAppSearchIe ie len)
      (fun r w' => r = assocElement w.packet ie len ∧
        Scans ie (ie + len) True w w') (fun _ _ => False) w := by
  unfold nasAppSearchIe assocElement
  rw [wp_bind]
  refine wp_mono (nasAppFind_spec 1 (Nat.lt_succ_self len) le_rfl le_rfl) (fun r w₁ h₁ => ?_)
    (fun _ _ h => h)
  obtain ⟨hr, h₁⟩ := h₁
  rw [← hr]
  cases r with
  | some wpaie => exact ⟨rfl, h₁⟩
  | none =>
      refine wp_mono (nasAppParseTlvs_spec dot11MngRsnId (Nat.lt_succ_self len) le_rfl le_rfl)
        (fun r w₂ h₂ => ?_) (fun _ _ h => h)
      rw [h₁.packet] at h₂
      exact ⟨h₂.1, (h₁.trans h₂.2).congr (and_true _).to_iff⟩

/-- **`nas_app_parse_ie`** never runs along a chain without an end, and reports `assocMode`. -/
theorem nasAppParseIe_spec (ie len : Nat) :
    wp (nasAppParseIe ie len)
      (fun r w' => r.map Prod.snd = assocMode w.packet ie len ∧
        Scans ie (ie + len) (SuitesInside w.packet ie len) w w')
      (fun _ _ => False) w := by
  unfold nasAppParseIe
  rw [wp_bind]
  refine wp_mono nasAppSearchIe_spec (fun r w₁ h₁ => ?_) (fun _ _ h => h)
  obtain ⟨hr, h₁⟩ := h₁
  unfold assocMode SuitesInside
  rw [← hr]
  cases r with
  | none => exact ⟨rfl, h₁.congr (iff_of_true trivial fun _ _ hno => by cases hno)⟩
  | some wpaie =>
      have hfit := assocElement_fits hr.symm
      have hheader : wp (nasAppIeHeader wpaie)
          (fun r w' => r = wpaIeHeader (element w₁.packet wpaie) (elementLen w₁.packet wpaie) ∧
            Scans ie (ie + len) True w₁ w')
          (fun _ _ => False) w₁ := by
        apply nasAppIeHeader_spec hfit.1
        rw [h₁.packet]
        exact hfit.2
      dsimp only
      rw [wp_bind]
      refine wp_mono hheader (fun r w₂ h₂ => ?_) (fun _ _ h => h)
      obtain ⟨hh, h₂⟩ := h₂
      rw [h₁.packet] at hh
      replace h₂ := (h₁.trans h₂).congr (and_true _).to_iff
      rw [Option.bind_some, ← hh]
      cases r with
      | none =>
          refine ⟨rfl, h₂.congr (iff_of_true trivial ?_)⟩
          intro wpaie' h' helement hheader'
          cases helement
          rw [← hh] at hheader'
          cases hheader'
      | some h =>
          have hle := (wpaIeHeader_suites_le hh.symm).1
          rw [Option.bind_some]
          refine wp_mono (@nasAppParseSuites_spec ie (ie + len) w₂ h wpaie hfit.1 (by omega) _)
            (fun r w₃ h₃ => ?_) (fun _ _ h => h)
          rw [h₂.packet] at h₃
          refine ⟨h₃.1,
            (h₂.trans h₃.2).congr ⟨fun hin => ?_, fun hin => ⟨trivial, hin wpaie h rfl hh.symm⟩⟩⟩
          intro wpaie' h' helement hheader'
          cases helement
          rw [← hh] at hheader'
          cases hheader'
          exact hin.2

end

/-! ## Agreement -/

section

variable (m : Mem) (ie len : Nat)

/-- **`nas`**, given the element with its own length, accepts it and reports this mode. -/
def NasReports (sta : Option Bytes) (mode : Nat) : Prop :=
  ∃ wpaie p, assocElement m ie len = some wpaie ∧
    wpaParseIe (element m wpaie) (elementLen m wpaie) sta = some p ∧ p.mode = mode

/-- The mode that `nas` reports. -/
def nasMode : Option Nat :=
  (assocElement m ie len).bind fun wpaie =>
    (wpaIeHeader (element m wpaie) (elementLen m wpaie)).bind fun h =>
      suitesMode (element m wpaie) h ((elementLen m wpaie : Int) - h.suites)

variable {m ie len}

theorem nasReports_iff (sta : Option Bytes) (mode : Nat) :
    NasReports m ie len sta mode ↔ nasMode m ie len = some mode := by
  unfold NasReports nasMode
  simp only [← wpaParseIe_mode _ _ sta]
  cases assocElement m ie len with
  | none => simp
  | some wpaie => simp

theorem reports_iff {r : Option (Nat × Nat)} (hr : r.map Prod.snd = assocMode m ie len)
    (sta : Option Bytes) :
    (∀ mode, (∃ wsec, r = some (wsec, mode)) ↔ NasReports m ie len sta mode) ↔
      assocMode m ie len = nasMode m ie len := by
  have hreport (mode : Nat) : (∃ wsec, r = some (wsec, mode)) ↔ assocMode m ie len = some mode := by
    rw [← hr]
    cases r with
    | none => simp
    | some p => simp [Prod.ext_iff]
  simp only [hreport, nasReports_iff]
  constructor
  · intro hall
    apply Option.ext
    intro mode
    exact hall mode
  · intro heq mode
    rw [heq]

end

section

variable (e : Mem) (h : IeHeader)

/-- The two numbers of octets left lead to the same mode. -/
def Alike (own left : Int) : Prop :=
  (¬OneCipher e h → (CipherTaken own ↔ CipherTaken left)) ∧
    (OneCipher e h → (AkmTaken own ↔ AkmTaken left) ∨ OneAkm e h ∧ ¬AkmKnown e h)

instance (own left : Int) : Decidable (Alike e h own left) := inferInstanceAs (Decidable (_ ∧ _))

theorem wpaAuth2mode_ne_zero (auth : Nat) : wpaAuth2mode auth ≠ 0 := by
  unfold wpaAuth2mode
  split_ifs
  all_goals decide

theorem suitesMode_alike {own left : Int} (hle : own ≤ left) :
    suitesMode e h own = suitesMode e h left ↔ Alike e h own left := by
  have hown : AkmTaken own → CipherTaken own := fun ht => by
    unfold AkmTaken at ht
    unfold CipherTaken
    omega
  have hleft : AkmTaken left → CipherTaken left := fun ht => by
    unfold AkmTaken at ht
    unfold CipherTaken
    omega
  have hmore : AkmTaken own → AkmTaken left := fun ht => le_trans ht hle
  have hmode := wpaAuth2mode_ne_zero (h.akm2auth (e (h.suites + 15)).toNat)
  unfold suitesMode Alike
  by_cases hone : OneCipher e h
  · simp only [hone, not_true, and_false, if_false, false_implies, true_implies, true_and]
    by_cases htaken : AkmTaken left
    · by_cases htaken' : AkmTaken own
      · simp [htaken, htaken']
      · by_cases hone' : OneAkm e h
        · simp [htaken, htaken', hone', hmode.symm]
        · simp [htaken, htaken', hone']
    · simp [htaken, mt hmore htaken]
  · simp only [hone, not_false_eq_true, and_true, true_implies, false_implies]
    by_cases htaken : CipherTaken left
    · by_cases htaken' : CipherTaken own
      · simp [htaken, htaken']
      · simp [htaken, htaken', mt hown htaken']
    · by_cases htaken' : CipherTaken own
      · simp [htaken, htaken', mt hleft htaken]
      · simp [htaken, htaken', mt hleft htaken, mt hown htaken']

end

/-- The suites that `eapd` takes lie within the data, and make no difference. -/
def Agrees (m : Mem) (ie len : Nat) : Prop :=
  ∀ wpaie h, assocElement m ie len = some wpaie →
    wpaIeHeader (element m wpaie) (elementLen m wpaie) = some h →
      wpaie + h.suites + suitesEnd (element m wpaie) h ((len : Int) - h.suites) ≤ ie + len ∧
        Alike (element m wpaie) h ((elementLen m wpaie : Int) - h.suites) ((len : Int) - h.suites)

theorem forall_element {m : Mem} {ie len wpaie : Nat} {h : IeHeader}
    (helement : assocElement m ie len = some wpaie)
    (hheader : wpaIeHeader (element m wpaie) (elementLen m wpaie) = some h)
    {P : Nat → IeHeader → Prop} :
    (∀ wpaie' h', assocElement m ie len = some wpaie' →
      wpaIeHeader (element m wpaie') (elementLen m wpaie') = some h' → P wpaie' h') ↔
        P wpaie h := by
  constructor
  · intro hall
    exact hall wpaie h helement hheader
  · intro hP wpaie' h' helement' hheader'
    obtain rfl := Option.some.inj (helement.symm.trans helement')
    obtain rfl := Option.some.inj (hheader.symm.trans hheader')
    exact hP

theorem agrees_iff {m : Mem} {ie len : Nat} :
    SuitesInside m ie len ∧ assocMode m ie len = nasMode m ie len ↔ Agrees m ie len := by
  by_cases hsome : ∃ wpaie h, assocElement m ie len = some wpaie ∧
      wpaIeHeader (element m wpaie) (elementLen m wpaie) = some h
  · obtain ⟨wpaie, h, helement, hheader⟩ := hsome
    have hfit := assocElement_fits helement
    have halike := @suitesMode_alike (element m wpaie) h ((elementLen m wpaie : Int) - h.suites)
      ((len : Int) - h.suites) (by omega)
    rw [SuitesInside, Agrees, forall_element helement hheader,
      forall_element helement hheader, ← halike]
    simp only [assocMode, nasMode, helement, hheader, Option.bind_some, eq_comm]
  · have hnone (k : Nat → IeHeader → Option Nat) : ((assocElement m ie len).bind fun wpaie =>
        (wpaIeHeader (element m wpaie) (elementLen m wpaie)).bind (k wpaie)) = none := by
      apply Option.eq_none_iff_forall_ne_some.mpr
      intro mode hmode
      obtain ⟨wpaie, helement, hmode⟩ := Option.bind_eq_some_iff.mp hmode
      obtain ⟨h, hheader, -⟩ := Option.bind_eq_some_iff.mp hmode
      exact hsome ⟨wpaie, h, helement, hheader⟩
    refine iff_of_true ⟨fun wpaie h helement hheader => ?_, (hnone _).trans (hnone _).symm⟩
      fun wpaie h helement hheader => ?_
    · exact absurd ⟨wpaie, h, helement, hheader⟩ hsome
    · exact absurd ⟨wpaie, h, helement, hheader⟩ hsome

/-- **The scan of an association.** `nas_app_find_wpsie` stays inside the data. `nas_app_parse_ie`
stays inside and reports the modes that `nas` reports for the element exactly if `Agrees`. -/
theorem assoc_mode_iff (m : Mem) (stas : StaTable) (ie len : Nat) (sta : Option Bytes) :
    wp (nasAppFindWpsie ie len) (fun _ w' => Inside ie (ie + len) w') (fun _ _ => False)
      ⟨m, stas, []⟩ ∧
    wp (nasAppParseIe ie len)
      (fun r w' =>
        (Inside ie (ie + len) w' ∧ ∀ mode, (∃ wsec, r = some (wsec, mode)) ↔
          NasReports m ie len sta mode) ↔
          Agrees m ie len)
      (fun _ _ => False) ⟨m, stas, []⟩ := by
  have hempty : Inside ie (ie + len) ⟨m, stas, []⟩ := fun t ht => absurd ht List.not_mem_nil
  constructor
  · refine wp_mono (nasAppFind_spec 4 (Nat.lt_succ_self len) le_rfl le_rfl) (fun r w' h => ?_)
      (fun _ _ h => h)
    exact h.2.inside.mpr ⟨hempty, trivial⟩
  · refine wp_mono (nasAppParseIe_spec ie len) (fun r w' h => ?_) (fun _ _ h => h)
    rw [h.2.inside, and_iff_right hempty, reports_iff h.1]
    exact agrees_iff

/-- An RSN element without an AKM suite, an element that is empty, and one that begins with the rest
of a suite. -/
def rsnThenOthers : Mem :=
  Nas.Mem.ofBytes ([48, 12, 1, 0, 0, 0x0f, 0xac, 4, 1, 0, 0, 0x0f, 0xac, 4] ++ [1, 0] ++
    [0, 15, 0xac, 2, 0, 0, 0, 0, 0, 0, 0, 0, 0, 0, 0, 0, 0])

set_option maxRecDepth 100000 in
theorem rsnThenOthers_modes :
    assocMode rsnThenOthers 0 33 = some Nas.wpa2Psk ∧ nasMode rsnThenOthers 0 33 = some 0 := by
  decide +kernel

/-- **`eapd` takes the elements that follow for an AKM suite** and reports WPA2-PSK, where `nas`
reports no mode. -/
theorem mode_from_other_elements :
    ¬ wp (nasAppParseIe 0 33)
      (fun r _ => ∀ mode, (∃ wsec, r = some (wsec, mode)) ↔ NasReports rsnThenOthers 0 33 none mode)
      (fun _ _ => False) ⟨rsnThenOthers, StaTable.zero, []⟩ := by
  intro hclaim
  have hboth := wp_and hclaim (nasAppParseIe_spec 0 33)
  have hfalse :
      wp (nasAppParseIe 0 33) (fun _ _ => False) (fun _ _ => False)
      ⟨rsnThenOthers, StaTable.zero, []⟩ := by
    refine wp_mono hboth (fun r w' h => ?_) (fun _ _ h => h.1)
    have hsame := (reports_iff h.2.1 none).mp h.1
    rw [rsnThenOthers_modes.1, rsnThenOthers_modes.2] at hsame
    exact absurd hsame (by decide)
  exact wp_false hfalse

end BroadcomWl.Eapd
