import BroadcomWl.Nas.Element
import BroadcomWl.Nas.RadiusRelay

/-!
# Where the attribute loop reads

The attribute loop of `radius_dispatch` as a program that reads, with the places at which it takes
an attribute to begin. The length of a packet is what its header says; nobody has compared it with
the octets received.

**Right walks.** A walk is right if it ends, if it reads octets that were received, and if the
attributes begin where the lengths of the attributes before them say. `attribute_walk_iff` says for
which packets: no attribute without its type and length comes up that is ignored, what the
attributes make the loop look at was received, and in a vendor-specific attribute there is one
sub-attribute. -/

namespace BroadcomWl.Nas.AttributeWalk

open BroadcomWl.Lib (Reader)
open BroadcomWl.Lib.Reader
open Element (slice_eq)

/-! ## The code -/

section

variable (k : RadiusKeys) (total : Nat) (code : RadiusCode)

/-- A Microsoft attribute; none for `attribute_error`. -/
def mppeReads (type : UInt8) (p : Cursor) : Reader (Option Cursor) :=
  if type = rdMsMppeSend ∨ type = rdMsMppeRecv then
    if code ≠ .accept then pure (some p)
    else if (p.length - 2) % 16 ≠ 0 ∨ p.length - 2 ≤ 32 then pure none
    else do
      let _ ← octets p.cur p.length.toNat
      pure (some p)
  else pure (some p)

/-- A Passpoint attribute. -/
def wfaReads (type : UInt8) (p : Cursor) : Reader (Option Cursor) :=
  match wfaKind type with
  | none => pure (some p)
  | some (_, n) =>
    if code ≠ .accept then pure (some p)
    else do
      let _ ← octets p.cur n
      let q : Cursor := ⟨p.cur + n, p.left - n, p.length - n⟩
      if q.left < q.length then pure none
      else do
        let _ ← octets q.cur q.length.toNat
        pure (some q)

/-- A vendor-specific attribute. -/
def vendorReads (p : Cursor) : Reader (Option Cursor) :=
  if p.length < 6 then pure none
  else do
    let vendor ← Reader.be32 p.cur
    let type ← octet (p.cur + 4)
    let length ← octet (p.cur + 5)
    let q : Cursor := ⟨p.cur + 6, p.left - 6, length.toNat - 2⟩
    if q.left < q.length then pure none
    else if vendor = rdVendorMicrosoft then mppeReads code type q
    else if vendor = rdVendorWfa then wfaReads code type q
    else pure (some q)

/-- The switch over the types; `eap` if there has been an EAP message. A state of negative length is
not allocated. -/
def attrReads (type : UInt8) (eap : Bool) (p : Cursor) : Reader (Option Cursor) :=
  if type = rdTpMessageAuthenticator then
    if p.length < 16 then pure none
    else do
      let packet ← octets 0 total
      pure (if macValid k (Mem.ofBytes packet) total p.cur then some p else none)
  else if type = rdTpState then
    if p.length < 0 then pure none
    else do
      let _ ← octets p.cur p.length.toNat
      pure (some p)
  else if type = rdTpEapMessage then
    if eap then pure (some p)
    else do
      let _ ← octet p.cur
      pure (some p)
  else if type = rdTpVendorSpecific then vendorReads code p
  else if type = rdTpSessionTimeout then
    if code ≠ .accept then pure (some p)
    else if p.length < 4 then pure none
    else do
      let _ ← octets p.cur 4
      pure (some p)
  else pure (some p)

/-- Why the loop ends: less than two octets are left, an attribute is longer than what is left, or
`attribute_error`. -/
inductive AttrEnd where
  | exhausted
  | cut
  | error
deriving DecidableEq

/-- The loop: the places where attributes begin, and why it ends; there is no reason
without fuel. -/
def attrWalk : Nat → Nat → Int → Bool → Reader (List Nat × Option AttrEnd)
  | 0, _, _, _ => pure ([], none)
  | fuel + 1, cur, left, eap =>
    if left < 2 then pure ([], some .exhausted)
    else do
      let type ← octet cur
      let len ← octet (cur + 1)
      let length : Int := len.toNat - 2
      if left - 2 < length then pure ([cur], some .cut)
      else do
        let r ← attrReads k total code type eap ⟨cur + 2, left - 2, length⟩
        match r with
        | none => pure ([cur], some .error)
        | some q => do
          let rest ← attrWalk fuel (q.cur + q.length).toNat (q.left - q.length)
              (eap || type = rdTpEapMessage)
          pure (cur :: rest.1, rest.2)

end

/-- The loop with what goes before it: the length and the code of the packet. -/
def radiusWalk (k : RadiusKeys) (fuel : Nat) : Reader (List Nat × Option AttrEnd) := do
  let total ← Reader.be16 2
  let code ← octet 0
  attrWalk k total (radiusCode code) fuel radiusHeaderLen (total - radiusHeaderLen) false

/-! ## One attribute

`p` is where an attribute begins. -/

/-- The length that the attribute gives. -/
def attrLen (m : Mem) (p : Nat) : Nat := (m (p + 1)).toNat

/-- The length that the first sub-attribute of a vendor-specific attribute gives. -/
def subLen (m : Mem) (p : Nat) : Nat := (m (p + 7)).toNat

/-- A key whose length is refused. -/
def KeyBad (m : Mem) (p : Nat) : Prop := ((subLen m p : Int) - 4) % 16 ≠ 0 ∨ subLen m p ≤ 36

/-- The sub-attribute is a key. -/
def IsKey (m : Mem) (code : RadiusCode) (p : Nat) : Prop :=
  m.u32 (p + 2) = rdVendorMicrosoft ∧ (m (p + 6) = rdMsMppeSend ∨ m (p + 6) = rdMsMppeRecv) ∧
    code = .accept

/-- A vendor-specific attribute that ends the loop. -/
def VendorBad (m : Mem) (total : Nat) (code : RadiusCode) (p : Nat) : Prop :=
  attrLen m p < 8 ∨ total < p + 6 + subLen m p ∨ IsKey m code p ∧ KeyBad m p

/-- An attribute that ends the loop. -/
def AttrBad (k : RadiusKeys) (m : Mem) (total : Nat) (code : RadiusCode) (p : Nat) : Prop :=
  m p = rdTpMessageAuthenticator ∧ (attrLen m p < 18 ∨ macValid k m total (p + 2) = false) ∨
    m p = rdTpState ∧ attrLen m p < 2 ∨
    m p = rdTpVendorSpecific ∧ VendorBad m total code p ∨
    m p = rdTpSessionTimeout ∧ code = .accept ∧ attrLen m p < 6

/-- Where the loop goes on. -/
def attrNext (m : Mem) (p : Nat) : Nat :=
  if m p = rdTpVendorSpecific then p + 6 + subLen m p else p + attrLen m p

theorem attrNext_plain {m : Mem} {p : Nat} (h : m p ≠ rdTpVendorSpecific) :
    attrNext m p = p + attrLen m p := if_neg h

theorem attrNext_vendor {m : Mem} {p : Nat} (h : m p = rdTpVendorSpecific) :
    attrNext m p = p + 6 + subLen m p := if_pos h

/-- What a vendor-specific attribute makes the loop look at was received. -/
structure VendorFits (m : Mem) (n total : Nat) (code : RadiusCode) (p : Nat) : Prop where
  header : p + 8 ≤ n
  key : p + 6 + subLen m p ≤ total → IsKey m code p → ¬KeyBad m p → p + 6 + subLen m p ≤ n
  passpoint : p + 6 + subLen m p ≤ total → m.u32 (p + 2) = rdVendorWfa → code = .accept →
    ∀ x, wfaKind (m (p + 6)) = some x →
      p + 8 + x.2 ≤ n ∧ (x.2 + 2 < subLen m p → p + 6 + subLen m p ≤ n)

/-- What an attribute makes the loop look at was received. -/
structure AttrFits (m : Mem) (n total : Nat) (code : RadiusCode) (eap : Bool) (p : Nat) : Prop where
  mac : m p = rdTpMessageAuthenticator → 18 ≤ attrLen m p → total ≤ n
  state : m p = rdTpState → 2 < attrLen m p → p + attrLen m p ≤ n
  eap : m p = rdTpEapMessage → eap = false → p + 3 ≤ n
  vendor : m p = rdTpVendorSpecific → 8 ≤ attrLen m p → VendorFits m n total code p
  timeout : m p = rdTpSessionTimeout → code = .accept → 6 ≤ attrLen m p → p + 6 ≤ n

section

variable {k : RadiusKeys} {m : Mem} {n total p : Nat} {code : RadiusCode} {eap : Bool}

theorem run_be32_eq (off : Nat) : run m (Reader.be32 off) = m.u32 off := by
  rw [run_be32, run_be16, run_be16]
  rfl

theorem macValid_packet {cur : Nat} (h : cur + 16 ≤ total) :
    macValid k (Mem.ofBytes (m.slice 0 total)) total cur = macValid k m total cur := by
  have hoctet (i : Nat) (hi : i < total) : Mem.ofBytes (m.slice 0 total) i = m i := by
    rw [Mem.ofBytes, Mem.slice_getD m 0 hi, Nat.zero_add]
  have hpacket : (checkedMem k (Mem.ofBytes (m.slice 0 total)) cur).slice 0 total =
      (checkedMem k m cur).slice 0 total := by
    refine Mem.slice_congr fun i hi => ?_
    rw [Nat.zero_add, checkedMem, checkedMem, hoctet i hi]
  have hsum : (Mem.ofBytes (m.slice 0 total)).slice cur 16 = m.slice cur 16 :=
    Mem.slice_congr fun i hi => hoctet (cur + i) (by omega)
  rw [macValid, macValid, hpacket, hsum]

theorem run_mppeReads (type : UInt8) (q : Cursor) :
    run m (mppeReads code type q) =
      if (type = rdMsMppeSend ∨ type = rdMsMppeRecv) ∧ code = .accept ∧
      ((q.length - 2) % 16 ≠ 0 ∨ q.length - 2 ≤ 32)
      then none else some q := by
  unfold mppeReads
  by_cases htype : type = rdMsMppeSend ∨ type = rdMsMppeRecv
  · by_cases hcode : code = .accept
    · simp only [htype, hcode, if_true, ne_eq, not_true, if_false, true_and, run_ite,
        run_bind, run_pure]
    · simp only [htype, hcode, if_true, ne_eq, not_false_iff, false_and, and_false,
        if_false, run_pure]
  · simp only [htype, if_false, false_and, run_pure]

variable (code) in
theorem inside_mppeReads (type : UInt8) (q : Cursor) :
    Inside m n (mppeReads code type q) ↔
      ((type = rdMsMppeSend ∨ type = rdMsMppeRecv) → code = .accept →
        ¬((q.length - 2) % 16 ≠ 0 ∨ q.length - 2 ≤ 32) →
        q.cur + q.length.toNat ≤ n) := by
  simp only [mppeReads, inside_ite, inside_bind, inside_octets, inside_pure, implies_true, true_and,
    and_true, ne_eq, Decidable.not_not]
  refine forall_congr' fun _ => forall_congr' fun _ => forall_congr' fun hlong => ?_
  omega

variable (code) in
theorem run_wfaReads (type : UInt8) {q : Cursor} (hlen : q.length ≤ q.left) :
    ∃ q', run m (wfaReads code type q) = some q' ∧ q'.cur + q'.length = q.cur + q.length ∧
      q'.left - q'.length = q.left - q.length := by
  unfold wfaReads
  cases wfaKind type with
  | none => exact ⟨q, rfl, rfl, rfl⟩
  | some x =>
      dsimp only
      by_cases hcode : code = .accept
      · simp only [hcode, ne_eq, not_true, if_false, run_bind, run_ite, run_pure]
        rw [if_neg (by omega)]
        exact ⟨_, rfl, by push_cast; omega, by dsimp only; omega⟩
      · simp only [hcode, ne_eq, not_false_iff, if_true, run_pure]
        exact ⟨q, rfl, rfl, rfl⟩

variable (code) in
theorem inside_wfaReads (type : UInt8) {q : Cursor} (hlen : q.length ≤ q.left) :
    Inside m n (wfaReads code type q) ↔
      (code = .accept → ∀ x, wfaKind type = some x →
        q.cur + x.2 ≤ n ∧ (x.2 < q.length → q.cur + q.length ≤ n)) := by
  unfold wfaReads
  cases hkind : wfaKind type with
  | none => simp
  | some x =>
      have hpos : 0 < x.2 := by
        unfold wfaKind at hkind
        split_ifs at hkind
        all_goals
          cases hkind
          decide
      have hroom : ¬q.left - x.2 < q.length - x.2 := by omega
      simp only [inside_ite, inside_bind, inside_octets, inside_pure, ne_eq, implies_true,
        true_and, and_true, Decidable.not_not, Option.some.injEq, forall_eq', hroom, not_false_iff,
        true_implies]
      refine forall_congr' fun _ => ?_
      omega

/-- **A vendor-specific attribute** takes the loop to the end of its first sub-attribute. -/
theorem vendor_run :
    (VendorBad m total code p →
      run m (vendorReads code ⟨p + 2, total - p - 2, attrLen m p - 2⟩) = none) ∧
    (¬VendorBad m total code p → ∃ q,
      run m (vendorReads code ⟨p + 2, total - p - 2, attrLen m p - 2⟩) = some q ∧
        q.cur + q.length = (p : Int) + 6 + subLen m p ∧
        q.left - q.length = (total : Int) - (p + 6 + subLen m p)) := by
  have hsub : (m (p + 2 + 5)).toNat = subLen m p := rfl
  have htype : m (p + 2 + 4) = m (p + 6) := rfl
  simp only [vendorReads, run_ite, run_bind, run_be32_eq, run_octet, run_pure, run_mppeReads, hsub,
    htype, VendorBad]
  by_cases hshort : attrLen m p < 8
  · exact ⟨fun _ => if_pos (by omega), fun hgood => absurd (.inl hshort) hgood⟩
  by_cases hcut : total < p + 6 + subLen m p
  · rw [if_neg (show ¬(attrLen m p : Int) - 2 < 6 by omega)]
    exact ⟨fun _ => if_pos (by omega), fun hgood => absurd (.inr (.inl hcut)) hgood⟩
  rw [if_neg (show ¬(attrLen m p : Int) - 2 < 6 by omega), if_neg (by omega)]
  by_cases hms : m.u32 (p + 2) = rdVendorMicrosoft
  · rw [if_pos hms]
    have hbad : ((subLen m p : Int) - 2 - 2) % 16 ≠ 0 ∨ (subLen m p : Int) - 2 - 2 ≤ 32 ↔
        KeyBad m p := by
      unfold KeyBad
      omega
    have hkey : attrLen m p < 8 ∨ total < p + 6 + subLen m p ∨ IsKey m code p ∧ KeyBad m p ↔ _ :=
      ⟨fun h => ((h.resolve_left hshort).resolve_left hcut), fun h => .inr (.inr h)⟩
    rw [hkey]
    constructor
    · exact fun h => if_pos ⟨h.1.2.1, h.1.2.2, hbad.mpr h.2⟩
    · intro h
      rw [if_neg fun hc => h ⟨⟨hms, hc.1, hc.2.1⟩, hbad.mp hc.2.2⟩]
      exact ⟨_, rfl, by push_cast; omega, by dsimp only; omega⟩
  · rw [if_neg hms]
    have hgood : ¬(attrLen m p < 8 ∨ total < p + 6 + subLen m p ∨ IsKey m code p ∧ KeyBad m p) := by
      rintro (h | h | h)
      · exact hshort h
      · exact hcut h
      · exact hms h.1.1
    refine ⟨fun h => absurd h hgood, fun _ => ?_⟩
    by_cases hwfa : m.u32 (p + 2) = rdVendorWfa
    · rw [if_pos hwfa]
      obtain ⟨q, hq, hcur, hleft⟩ := run_wfaReads (m := m) code (m (p + 6))
        (q := ⟨p + 2 + 6, (total : Int) - p - 2 - 6, (subLen m p : Int) - 2⟩) (by dsimp only; omega)
      refine ⟨q, hq, ?_, ?_⟩
      · rw [hcur]
        push_cast
        omega
      · rw [hleft]
        dsimp only
        omega
    · rw [if_neg hwfa]
      exact ⟨_, rfl, by push_cast; omega, by dsimp only; omega⟩

theorem vendor_inside (hlen : 8 ≤ attrLen m p) :
    Inside m n (vendorReads code ⟨p + 2, total - p - 2, attrLen m p - 2⟩) ↔
    VendorFits m n total code p := by
  have hsub : (m (p + 2 + 5)).toNat = subLen m p := rfl
  have htype : m (p + 2 + 4) = m (p + 6) := rfl
  have hiff : VendorFits m n total code p ↔ _ ∧ _ ∧ _ :=
    ⟨fun h => ⟨h.header, h.key, h.passpoint⟩, fun h => ⟨h.1, h.2.1, h.2.2⟩⟩
  rw [hiff]
  have hlong : ¬(attrLen m p : Int) - 2 < 6 := by omega
  simp only [vendorReads, inside_ite, inside_bind, inside_be32, inside_octet, run_octet,
    run_be32_eq, inside_pure, hsub, htype, hlong, not_false_iff, true_implies, true_and,
    implies_true]
  by_cases hcut : total < p + 6 + subLen m p
  · have hcut' : (total : Int) - p - 2 - 6 < subLen m p - 2 := by omega
    have hcut'' : ¬p + 6 + subLen m p ≤ total := by omega
    simp only [hcut', hcut'', not_true, false_implies, and_true]
    omega
  · have hcut' : ¬(total : Int) - p - 2 - 6 < subLen m p - 2 := by omega
    have hcut'' : p + 6 + subLen m p ≤ total := by omega
    have hms := inside_mppeReads (m := m) (n := n) code (m (p + 6))
      ⟨p + 2 + 6, (total : Int) - p - 2 - 6, (subLen m p : Int) - 2⟩
    have hwfa := inside_wfaReads (m := m) (n := n) code (m (p + 6))
      (q := ⟨p + 2 + 6, (total : Int) - p - 2 - 6, (subLen m p : Int) - 2⟩) (by dsimp only; omega)
    simp only [hcut', hcut'', not_false_iff, true_implies]
    rw [hms, hwfa]
    have hbad : ((subLen m p : Int) - 2 - 2) % 16 ≠ 0 ∨ (subLen m p : Int) - 2 - 2 ≤ 32 ↔
        KeyBad m p := by
      unfold KeyBad
      omega
    constructor
    · intro h
      obtain ⟨-, -, hheader, hkey, hwfa'⟩ := h
      refine ⟨by omega, fun hiskey hgood => ?_, fun hvendor hcode x hx => ?_⟩
      · have hread := hkey hiskey.1 hiskey.2.1 hiskey.2.2 fun h => hgood (hbad.mp h)
        unfold KeyBad at hgood
        dsimp only at hread
        omega
      · have hother : ¬m.u32 (p + 2) = rdVendorMicrosoft := by
          rw [hvendor]
          decide
        have hread := (hwfa' hother).1 hvendor hcode x hx
        dsimp only at hread
        omega
    · intro h
      obtain ⟨hheader, hkey, hpass⟩ := h
      refine ⟨by omega, by omega, by omega, fun hvendor htype hcode hgood => ?_,
        fun _ => ⟨fun hvendor hcode x hx => ?_, trivial⟩⟩
      · have hgood' : ¬KeyBad m p := fun h => hgood (hbad.mpr h)
        have hread := hkey ⟨hvendor, htype, hcode⟩ hgood'
        unfold KeyBad at hgood'
        dsimp only
        omega
      · have hread := hpass hvendor hcode x hx
        dsimp only
        omega

variable (total) in
theorem next_of_value (h : m p ≠ rdTpVendorSpecific) :
    ((⟨p + 2, total - p - 2, attrLen m p - 2⟩ : Cursor).cur : Int) + (attrLen m p - 2) =
      (attrNext m p : Int) ∧
      (total : Int) - p - 2 - (attrLen m p - 2) = (total : Int) - attrNext m p := by
  rw [attrNext_plain h]
  constructor
  · push_cast
    omega
  · push_cast
    omega

variable (code eap) in
/-- **What an attribute does to the loop.** -/
theorem attr_run (hfits : p + attrLen m p ≤ total) :
    (AttrBad k m total code p →
      run m (attrReads k total code (m p) eap ⟨p + 2, total - p - 2, attrLen m p - 2⟩) = none) ∧
    (¬AttrBad k m total code p → ∃ q,
      run m (attrReads k total code (m p) eap ⟨p + 2, total - p - 2, attrLen m p - 2⟩) = some q ∧
        q.cur + q.length = (attrNext m p : Int) ∧
        q.left - q.length = (total : Int) - attrNext m p) := by
  by_cases hvs : m p = rdTpVendorSpecific
  · have hbad : AttrBad k m total code p ↔ VendorBad m total code p := by
      simp [AttrBad, hvs, rdTpMessageAuthenticator, rdTpState, rdTpVendorSpecific,
        rdTpSessionTimeout]
    have hreads : attrReads k total code (m p) eap ⟨p + 2, total - p - 2, attrLen m p - 2⟩ =
        vendorReads code ⟨p + 2, total - p - 2, attrLen m p - 2⟩ := by
      rw [hvs]
      rfl
    rw [hbad, hreads, attrNext, if_pos hvs]
    push_cast
    exact vendor_run
  have hnext := next_of_value total hvs
  by_cases hmac : m p = rdTpMessageAuthenticator
  · have hbad : AttrBad k m total code p ↔
        attrLen m p < 18 ∨ macValid k m total (p + 2) = false := by
      simp [AttrBad, hmac, rdTpMessageAuthenticator, rdTpState, rdTpVendorSpecific,
        rdTpSessionTimeout]
    rw [hbad, attrReads, if_pos hmac]
    by_cases hshort : attrLen m p < 18
    · rw [if_pos (by dsimp only; omega)]
      exact ⟨fun _ => rfl, fun hgood => absurd (.inl hshort) hgood⟩
    · rw [if_neg (by dsimp only; omega), run_bind, run_octets, slice_eq, run_pure,
        macValid_packet (by dsimp only; omega)]
      cases hvalid : macValid k m total (p + 2) with
      | false => exact ⟨fun _ => rfl, fun hgood => absurd (.inr rfl) hgood⟩
      | true =>
          refine ⟨fun h => ?_, fun _ => ⟨_, rfl, hnext⟩⟩
          cases h with
          | inl h => exact absurd h hshort
          | inr h => cases h
  by_cases hstate : m p = rdTpState
  · have hbad : AttrBad k m total code p ↔ attrLen m p < 2 := by
      simp [AttrBad, hstate, rdTpMessageAuthenticator, rdTpState, rdTpVendorSpecific,
        rdTpSessionTimeout]
    rw [hbad, attrReads, if_neg hmac, if_pos hstate]
    by_cases hshort : attrLen m p < 2
    · rw [if_pos (by dsimp only; omega)]
      exact ⟨fun _ => rfl, fun hgood => absurd hshort hgood⟩
    · rw [if_neg (by dsimp only; omega), run_bind, run_pure]
      exact ⟨fun h => absurd h hshort, fun _ => ⟨_, rfl, hnext⟩⟩
  by_cases heap : m p = rdTpEapMessage
  · have hbad : ¬AttrBad k m total code p := by
      simp [AttrBad, heap, rdTpMessageAuthenticator, rdTpState, rdTpEapMessage, rdTpVendorSpecific,
        rdTpSessionTimeout]
    rw [attrReads, if_neg hmac, if_neg hstate, if_pos heap]
    refine ⟨fun h => absurd h hbad, fun _ => ⟨_, ?_, hnext⟩⟩
    split
    · rfl
    · rw [run_bind, run_pure]
  by_cases htimeout : m p = rdTpSessionTimeout
  · have hbad : AttrBad k m total code p ↔ code = .accept ∧ attrLen m p < 6 := by
      simp [AttrBad, htimeout, rdTpMessageAuthenticator, rdTpState, rdTpVendorSpecific,
        rdTpSessionTimeout]
    rw [hbad, attrReads, if_neg hmac, if_neg hstate, if_neg heap, if_neg hvs, if_pos htimeout]
    by_cases hcode : code = .accept
    · rw [if_neg (not_not.mpr hcode)]
      by_cases hshort : attrLen m p < 6
      · rw [if_pos (by dsimp only; omega)]
        exact ⟨fun _ => rfl, fun hgood => absurd ⟨hcode, hshort⟩ hgood⟩
      · rw [if_neg (by dsimp only; omega), run_bind, run_pure]
        exact ⟨fun h => absurd h.2 hshort, fun _ => ⟨_, rfl, hnext⟩⟩
    · rw [if_pos hcode]
      exact ⟨fun h => absurd h.1 hcode, fun _ => ⟨_, rfl, hnext⟩⟩
  · have hbad : ¬AttrBad k m total code p := by
      simp [AttrBad, hmac, hstate, hvs, htimeout]
    rw [attrReads, if_neg hmac, if_neg hstate, if_neg heap, if_neg hvs, if_neg htimeout]
    exact ⟨fun h => absurd h hbad, fun _ => ⟨_, rfl, hnext⟩⟩

/-- **What an attribute makes the loop look at.** -/
theorem attr_inside (hhere : p + 2 ≤ n) :
    Inside m n (attrReads k total code (m p) eap ⟨p + 2, total - p - 2, attrLen m p - 2⟩) ↔
      AttrFits m n total code eap p := by
  have hiff : AttrFits m n total code eap p ↔ _ ∧ _ ∧ _ ∧ _ ∧ _ :=
    ⟨fun h => ⟨h.mac, h.state, h.eap, h.vendor, h.timeout⟩, fun h =>
      ⟨h.1, h.2.1, h.2.2.1, h.2.2.2.1, h.2.2.2.2⟩⟩
  by_cases hmac : m p = rdTpMessageAuthenticator
  · have hfit : AttrFits m n total code eap p ↔ (18 ≤ attrLen m p → total ≤ n) := by
      rw [hiff]
      simp [hmac, rdTpMessageAuthenticator, rdTpState, rdTpEapMessage, rdTpVendorSpecific,
        rdTpSessionTimeout]
    rw [hfit, attrReads, if_pos hmac, inside_ite, inside_bind, inside_octets]
    simp only [inside_pure, implies_true, true_and, and_true]
    omega
  by_cases hvs : m p = rdTpVendorSpecific
  · have hfit : AttrFits m n total code eap p ↔
        (8 ≤ attrLen m p → VendorFits m n total code p) := by
      rw [hiff]
      simp [hvs, rdTpMessageAuthenticator, rdTpState, rdTpEapMessage, rdTpVendorSpecific,
        rdTpSessionTimeout]
    have hreads : attrReads k total code (m p) eap ⟨p + 2, total - p - 2, attrLen m p - 2⟩ =
        vendorReads code ⟨p + 2, total - p - 2, attrLen m p - 2⟩ := by
      rw [hvs]
      rfl
    rw [hfit, hreads]
    by_cases hlen : 8 ≤ attrLen m p
    · rw [vendor_inside hlen]
      exact ⟨fun h _ => h, fun h => h hlen⟩
    · rw [vendorReads, if_pos (by dsimp only; omega)]
      exact ⟨fun _ h => absurd h hlen, fun _ => trivial⟩
  by_cases hstate : m p = rdTpState
  · have hfit : AttrFits m n total code eap p ↔ (2 < attrLen m p → p + attrLen m p ≤ n) := by
      rw [hiff]
      simp [hstate, rdTpMessageAuthenticator, rdTpState, rdTpEapMessage, rdTpVendorSpecific,
        rdTpSessionTimeout]
    rw [hfit, attrReads, if_neg hmac, if_pos hstate, inside_ite, inside_bind, inside_octets]
    simp only [inside_pure, implies_true, true_and, and_true]
    omega
  by_cases heap : m p = rdTpEapMessage
  · have hfit : AttrFits m n total code eap p ↔ (eap = false → p + 3 ≤ n) := by
      rw [hiff]
      simp [heap, rdTpMessageAuthenticator, rdTpState, rdTpEapMessage, rdTpVendorSpecific,
        rdTpSessionTimeout]
    rw [hfit, attrReads, if_neg hmac, if_neg hstate, if_pos heap, inside_ite, inside_bind,
      inside_octet]
    simp only [inside_pure, implies_true, true_and, and_true, Bool.not_eq_true]
    exact forall_congr' fun _ => by omega
  by_cases htimeout : m p = rdTpSessionTimeout
  · have hfit : AttrFits m n total code eap p ↔ (code = .accept → 6 ≤ attrLen m p → p + 6 ≤ n) := by
      rw [hiff]
      simp [htimeout, rdTpMessageAuthenticator, rdTpState, rdTpEapMessage, rdTpVendorSpecific,
        rdTpSessionTimeout]
    rw [hfit, attrReads, if_neg hmac, if_neg hstate, if_neg heap, if_neg hvs, if_pos htimeout,
      inside_ite, inside_ite, inside_bind, inside_octets]
    simp only [inside_pure, implies_true, true_and, and_true, ne_eq, not_not]
    exact forall_congr' fun _ => by omega
  · rw [hiff, attrReads, if_neg hmac, if_neg hstate, if_neg heap, if_neg hvs, if_neg htimeout]
    simp [hmac, hvs, hstate, heap, htimeout]

/-! ## The walk -/

/-- The loop with `p` for the place, and what is left of the packet. -/
def walkFrom (k : RadiusKeys) (total : Nat) (code : RadiusCode) (fuel p : Nat) (eap : Bool) :
    Reader (List Nat × Option AttrEnd) :=
  attrWalk k total code fuel p (total - p) eap

theorem walk_done (h : total < p + 2) (fuel : Nat) :
    walkFrom k total code (fuel + 1) p eap = pure ([], some .exhausted) := by
  rw [walkFrom, attrWalk, if_pos (by omega)]

/-- **An attribute that is longer than what is left.** -/
theorem walk_cut (hroom : p + 2 ≤ total) (hcut : total < p + attrLen m p) (fuel : Nat) :
    (Inside m n (walkFrom k total code (fuel + 1) p eap) ↔ p + 2 ≤ n) ∧
      run m (walkFrom k total code (fuel + 1) p eap) = ([p], some .cut) := by
  have hlong : (total : Int) - p - 2 < ((m (p + 1)).toNat : Int) - 2 := by
    unfold attrLen at hcut
    omega
  rw [walkFrom, attrWalk, if_neg (by omega)]
  constructor
  · simp only [inside_bind, inside_octet, run_octet, hlong, if_true, inside_pure, and_true]
    omega
  · simp only [run_bind, run_octet, hlong, if_true, run_pure]

/-- **An attribute that ends the loop.** -/
theorem walk_bad (hroom : p + 2 ≤ total) (hwhole : p + attrLen m p ≤ total)
    (hbad : AttrBad k m total code p) (fuel : Nat) :
    (Inside m n (walkFrom k total code (fuel + 1) p eap) ↔
      p + 2 ≤ n ∧ AttrFits m n total code eap p) ∧
      run m (walkFrom k total code (fuel + 1) p eap) = ([p], some .error) := by
  have hlong : ¬(total : Int) - p - 2 < (attrLen m p : Int) - 2 := by omega
  have hlen : (m (p + 1)).toNat = attrLen m p := rfl
  have hrun := (attr_run (k := k) code eap hwhole).1 hbad
  rw [walkFrom, attrWalk, if_neg (by omega)]
  constructor
  · simp only [inside_bind, inside_octet, run_octet, hlen, hlong, if_false, hrun,
      inside_pure, and_true]
    constructor
    · intro h
      have hhere : p + 2 ≤ n := by omega
      exact ⟨hhere, (attr_inside hhere).mp h.2.2⟩
    · intro h
      exact ⟨by omega, by omega, (attr_inside h.1).mpr h.2⟩
  · simp only [run_bind, run_octet, hlen, hlong, if_false, hrun, run_pure]

/-- **An attribute behind which the loop goes on.** -/
theorem walk_next (hroom : p + 2 ≤ total) (hwhole : p + attrLen m p ≤ total)
    (hgood : ¬AttrBad k m total code p) (fuel : Nat) :
    (Inside m n (walkFrom k total code (fuel + 1) p eap) ↔
      p + 2 ≤ n ∧ AttrFits m n total code eap p ∧
      Inside m n (walkFrom k total code fuel (attrNext m p) (eap || m p = rdTpEapMessage))) ∧
    run m (walkFrom k total code (fuel + 1) p eap) =
      (p :: (run m (walkFrom k total code fuel (attrNext m p) (eap || m p = rdTpEapMessage))).1,
        (run m (walkFrom k total code fuel (attrNext m p) (eap || m p = rdTpEapMessage))).2) := by
  have hlong : ¬(total : Int) - p - 2 < (attrLen m p : Int) - 2 := by omega
  have hlen : (m (p + 1)).toNat = attrLen m p := rfl
  obtain ⟨q, hrun, hcur, hleft⟩ := (attr_run (k := k) code eap hwhole).2 hgood
  have hnat : ((q.cur : Int) + q.length).toNat = attrNext m p := by omega
  rw [walkFrom, attrWalk, if_neg (by omega), walkFrom]
  constructor
  · simp only [inside_bind, inside_octet, run_octet, hlen, hlong, if_false, hrun, hnat, hleft,
      inside_pure, and_true]
    constructor
    · intro h
      have hhere : p + 2 ≤ n := by omega
      exact ⟨hhere, (attr_inside hhere).mp h.2.2.1, h.2.2.2⟩
    · intro h
      exact ⟨by omega, by omega, (attr_inside h.1).mpr h.2.1, h.2.2⟩
  · simp only [run_bind, run_octet, hlen, hlong, if_false, hrun, hnat, hleft, run_pure]

/-- **An attribute of no length** that is ignored, or an EAP message of no length, keeps the loop
from ending. -/
theorem walk_stuck (hroom : p + 2 ≤ total) (hlen : attrLen m p = 0)
    (htype : m p ≠ rdTpVendorSpecific) (hgood : ¬AttrBad k m total code p) (fuel : Nat)
    (eap : Bool) :
    (run m (walkFrom k total code fuel p eap)).2 = none := by
  have hnext : attrNext m p = p := by rw [attrNext_plain htype, hlen, Nat.add_zero]
  induction fuel generalizing eap with
  | zero => rfl
  | succ fuel ih => rw [(walk_next (n := 0) hroom (by omega) hgood fuel).2, hnext, ih]

end

/-! ## Right walks -/

/-- The attributes begin where the lengths of those before them say, and where nothing is left,
there are no more. -/
def Outer (m : Mem) (total : Nat) : Nat → List Nat → Option AttrEnd → Prop
  | cur, [], e => e = some .exhausted → total < cur + 2
  | cur, p :: rest, e => p = cur ∧ Outer m total (cur + attrLen m cur) rest e

/-- **A walk is right**: it ends, it reads what was received, and it takes the attributes one after
the other. -/
structure WalkRight (k : RadiusKeys) (m : Mem) (n total : Nat) (code : RadiusCode) (eap : Bool)
    (p : Nat) : Prop where
  ends : ∃ fuel, (run m (walkFrom k total code fuel p eap)).2.isSome = true
  inside : ∀ fuel, Inside m n (walkFrom k total code fuel p eap)
  outer :
    ∀ fuel, Outer m total p (run m (walkFrom k total code fuel p eap)).1
      (run m (walkFrom k total code fuel p eap)).2

/-- **Which packets are walked right**, from an attribute on, with `n` octets received. -/
inductive AttrsFit (k : RadiusKeys) (m : Mem) (n total : Nat) (code : RadiusCode) :
    Bool → Nat → Prop where
  | done {eap : Bool} {p : Nat} (hend : total < p + 2) : AttrsFit k m n total code eap p
  | cut {eap : Bool} {p : Nat} (hhere : p + 2 ≤ n) (hroom : p + 2 ≤ total)
      (hcut : total < p + attrLen m p) :
      AttrsFit k m n total code eap p
  | bad {eap : Bool} {p : Nat} (hhere : p + 2 ≤ n) (hroom : p + 2 ≤ total)
      (hwhole : p + attrLen m p ≤ total)
      (hfits : AttrFits m n total code eap p) (hbad : AttrBad k m total code p) :
      AttrsFit k m n total code eap p
  | plain {eap : Bool} {p : Nat} (hhere : p + 2 ≤ n) (hroom : p + 2 ≤ total)
      (hwhole : p + attrLen m p ≤ total)
      (hfits : AttrFits m n total code eap p) (hgood : ¬AttrBad k m total code p)
      (htype : m p ≠ rdTpVendorSpecific)
      (hlen : attrLen m p ≠ 0)
      (hnext : AttrsFit k m n total code (eap || m p = rdTpEapMessage) (p + attrLen m p)) :
      AttrsFit k m n total code eap p
  | vendor {eap : Bool} {p : Nat} (hhere : p + 2 ≤ n) (hroom : p + 2 ≤ total)
      (hwhole : p + attrLen m p ≤ total)
      (hfits : AttrFits m n total code eap p) (hgood : ¬AttrBad k m total code p)
      (htype : m p = rdTpVendorSpecific)
      (hsub : 6 + subLen m p = attrLen m p)
      (hnext : AttrsFit k m n total code (eap || m p = rdTpEapMessage) (p + attrLen m p)) :
      AttrsFit k m n total code eap p
  | last {eap : Bool} {p : Nat} (hhere : p + 2 ≤ n) (hroom : p + 2 ≤ total)
      (hwhole : p + attrLen m p ≤ total)
      (hfits : AttrFits m n total code eap p) (hgood : ¬AttrBad k m total code p)
      (htype : m p = rdTpVendorSpecific)
      (hover : total < p + (6 + subLen m p) + 2) (hend : total < p + attrLen m p + 2) :
      AttrsFit k m n total code eap p

section

variable {k : RadiusKeys} {m : Mem} {n total p : Nat} {code : RadiusCode} {eap : Bool}

theorem outer_none (cur : Nat) : Outer m total cur [] none := fun h => by cases h

theorem walk_starts (hroom : p + 2 ≤ total) (fuel : Nat) (eap : Bool) :
    ∃ rest, (run m (walkFrom k total code (fuel + 1) p eap)).1 = p :: rest := by
  by_cases hwhole : p + attrLen m p ≤ total
  · by_cases hbad : AttrBad k m total code p
    · exact ⟨[], by rw [(walk_bad (n := 0) hroom hwhole hbad fuel).2]⟩
    · exact ⟨_, by rw [(walk_next (n := 0) hroom hwhole hbad fuel).2]⟩
  · exact ⟨[], by rw [(walk_cut (n := 0) hroom (by omega) fuel).2]⟩

/-- **A walk that comes to the end** is right. -/
theorem walkRight_done (hend : total < p + 2) : WalkRight k m n total code eap p := by
  refine ⟨⟨1, by rw [walk_done hend]; rfl⟩, fun fuel => ?_, fun fuel => ?_⟩
  · cases fuel with
    | zero => exact inside_pure _
    | succ fuel =>
        rw [walk_done hend]
        exact inside_pure _
  · cases fuel with
    | zero => exact outer_none p
    | succ fuel =>
        rw [walk_done hend]
        exact fun _ => hend

/-- **A walk that ends at its first attribute** is right if the attribute is read inside. -/
theorem walkRight_stop {e : AttrEnd} (he : e ≠ .exhausted)
    (hwalk : ∀ fuel, Inside m n (walkFrom k total code (fuel + 1) p eap) ∧
      run m (walkFrom k total code (fuel + 1) p eap) = ([p], some e)) :
        WalkRight k m n total code eap p := by
  refine ⟨⟨1, by rw [(hwalk 0).2]; rfl⟩, fun fuel => ?_, fun fuel => ?_⟩
  · cases fuel with
    | zero => exact inside_pure _
    | succ fuel => exact (hwalk fuel).1
  · cases fuel with
    | zero => exact outer_none p
    | succ fuel =>
        rw [(hwalk fuel).2]
        exact ⟨rfl, fun h => absurd (Option.some.inj h) he⟩

/-- **A walk with an attribute in front of it** is right if and only if it is, and begins where the
length of the attribute says. -/
theorem walkRight_next (hhere : p + 2 ≤ n) (hroom : p + 2 ≤ total)
    (hwhole : p + attrLen m p ≤ total) (hfits : AttrFits m n total code eap p)
    (hgood : ¬AttrBad k m total code p) :
    WalkRight k m n total code eap p ↔
      WalkRight k m n total code (eap || m p = rdTpEapMessage) (attrNext m p) ∧
        (attrNext m p = p + attrLen m p ∨
          total < attrNext m p + 2 ∧ total < p + attrLen m p + 2) := by
  have hstep := @walk_next k m n total p code eap hroom hwhole hgood
  constructor
  · intro h
    -- The rest of the walk takes up where the length of the attribute says.
    have houter (fuel : Nat) : Outer m total (p + attrLen m p)
        (run m (walkFrom k total code fuel (attrNext m p) (eap || m p = rdTpEapMessage))).1
        (run m (walkFrom k total code fuel (attrNext m p) (eap || m p = rdTpEapMessage))).2 := by
      have hall := h.outer (fuel + 1)
      rw [(hstep fuel).2] at hall
      exact hall.2
    by_cases hend : total < attrNext m p + 2
    · refine ⟨walkRight_done hend, .inr ⟨hend, ?_⟩⟩
      have hone := houter 1
      rw [walk_done hend] at hone
      exact hone rfl
    · have hplace : attrNext m p = p + attrLen m p := by
        obtain ⟨rest, hrest⟩ :=
          @walk_starts k m total (attrNext m p) code (by omega) 0 (eap || m p = rdTpEapMessage)
        have hone := houter 1
        rw [hrest] at hone
        exact hone.1
      refine ⟨⟨?_, fun fuel => ?_, fun fuel => ?_⟩, .inl hplace⟩
      · obtain ⟨fuel, hfuel⟩ := h.ends
        cases fuel with
        | zero => cases hfuel
        | succ fuel =>
            rw [(hstep fuel).2] at hfuel
            exact ⟨fuel, hfuel⟩
      · exact ((hstep fuel).1.mp (h.inside (fuel + 1))).2.2
      · have hrest := houter fuel
        rwa [← hplace] at hrest
  · intro h
    obtain ⟨hright, hplace⟩ := h
    refine ⟨?_, fun fuel => ?_, fun fuel => ?_⟩
    · obtain ⟨fuel, hfuel⟩ := hright.ends
      exact ⟨fuel + 1, by rw [(hstep fuel).2]; exact hfuel⟩
    · cases fuel with
      | zero => exact inside_pure _
      | succ fuel => exact (hstep fuel).1.mpr ⟨hhere, hfits, hright.inside fuel⟩
    · cases fuel with
      | zero => exact outer_none p
      | succ fuel =>
          rw [(hstep fuel).2]
          refine ⟨rfl, ?_⟩
          cases hplace with
          | inl heq =>
              rw [← heq]
              exact hright.outer fuel
          | inr hend =>
              cases fuel with
              | zero => exact outer_none _
              | succ fuel =>
                  rw [walk_done hend.1]
                  exact fun _ => hend.2

/-- **Which packets are walked right.** -/
theorem walkRight_iff : WalkRight k m n total code eap p ↔ AttrsFit k m n total code eap p := by
  constructor
  · intro h
    obtain ⟨fuel, hfuel⟩ := h.ends
    induction fuel generalizing p eap with
    | zero => cases hfuel
    | succ fuel ih =>
        by_cases hroom : p + 2 ≤ total
        · have hin := h.inside 1
          by_cases hwhole : p + attrLen m p ≤ total
          · by_cases hbad : AttrBad k m total code p
            · obtain ⟨hhere, hfits⟩ := (walk_bad hroom hwhole hbad 0).1.mp hin
              exact .bad hhere hroom hwhole hfits hbad
            · obtain ⟨hhere, hfits, -⟩ := (walk_next hroom hwhole hbad 0).1.mp hin
              obtain ⟨hright, hplace⟩ := (walkRight_next hhere hroom hwhole hfits hbad).mp h
              by_cases htype : m p = rdTpVendorSpecific
              · have hnext := attrNext_vendor htype
                cases hplace with
                | inl heq =>
                    rw [(walk_next (n := 0) hroom hwhole hbad fuel).2, heq] at hfuel
                    rw [heq] at hright
                    exact .vendor hhere hroom hwhole hfits hbad htype (by omega) (ih hright hfuel)
                | inr hend => exact .last hhere hroom hwhole hfits hbad htype (by omega) hend.2
              · have hnext := attrNext_plain htype
                have hlen : attrLen m p ≠ 0 := by
                  intro hzero
                  rw [walk_stuck hroom hzero htype hbad] at hfuel
                  cases hfuel
                rw [(walk_next (n := 0) hroom hwhole hbad fuel).2, hnext] at hfuel
                rw [hnext] at hright
                exact .plain hhere hroom hwhole hfits hbad htype hlen (ih hright hfuel)
          · exact .cut ((walk_cut hroom (by omega) 0).1.mp hin) hroom (by omega)
        · exact .done (by omega)
  · intro h
    induction h with
    | done hend => exact walkRight_done hend
    | cut hhere hroom hcut =>
        exact walkRight_stop (by decide) fun fuel =>
          ⟨(walk_cut hroom hcut fuel).1.mpr hhere, (walk_cut (n := 0) hroom hcut fuel).2⟩
    | bad hhere hroom hwhole hfits hbad =>
        exact walkRight_stop (by decide) fun fuel =>
          ⟨(walk_bad hroom hwhole hbad fuel).1.mpr ⟨hhere, hfits⟩,
            (walk_bad (n := 0) hroom hwhole hbad fuel).2⟩
    | plain hhere hroom hwhole hfits hgood htype hlen hnext ih =>
        rw [walkRight_next hhere hroom hwhole hfits hgood, attrNext_plain htype]
        exact ⟨ih, .inl rfl⟩
    | @vendor eap p hhere hroom hwhole hfits hgood htype hsub hnext ih =>
        have hplace : attrNext m p = p + attrLen m p := by
          rw [attrNext_vendor htype]
          omega
        rw [walkRight_next hhere hroom hwhole hfits hgood, hplace]
        exact ⟨ih, .inl rfl⟩
    | @last eap p hhere hroom hwhole hfits hgood htype hover hend =>
        have hplace := attrNext_vendor htype
        rw [walkRight_next hhere hroom hwhole hfits hgood]
        exact ⟨walkRight_done (by omega), .inr ⟨by omega, hend⟩⟩

end

/-! ## In the program -/

section

variable {k : RadiusKeys} {m : Mem} {total : Nat} {code : RadiusCode}

/-- Where the program's loop goes on behind an attribute, if it does. -/
def goesOn (r : RadiusAttr × Cursor) : Option Cursor := if r.1.ends then none else some r.2

theorem run_mppeReads_eq (type : UInt8) (q : Cursor) :
    run m (mppeReads code type q) = goesOn (mppeAttr k m code type q, q) := by
  unfold mppeReads mppeAttr
  by_cases htype : type = rdMsMppeSend ∨ type = rdMsMppeRecv
  · rw [if_pos htype, if_pos htype]
    by_cases hcode : code = .accept
    · rw [if_neg (not_not.mpr hcode), if_neg (not_not.mpr hcode), run_ite, run_bind,
        run_pure, run_pure]
      split
      · rfl
      · dsimp only
        split <;> rfl
    · rw [if_pos hcode, if_pos hcode]
      rfl
  · rw [if_neg htype, if_neg htype]
    rfl

theorem run_wfaReads_eq (type : UInt8) (q : Cursor) :
    run m (wfaReads code type q) = goesOn (wfaAttr code type q) := by
  unfold wfaReads wfaAttr
  cases wfaKind type with
  | none => rfl
  | some x =>
      dsimp only
      by_cases hcode : code = .accept
      · rw [if_neg (not_not.mpr hcode), if_neg (not_not.mpr hcode), run_bind, run_ite, run_bind,
          run_pure, run_pure]
        split <;> rfl
      · rw [if_pos hcode, if_pos hcode]
        rfl

variable (total code) in
/-- **One pass** does to the cursor what the program's does. -/
theorem run_attrReads (type : UInt8) (eap : Bool) {c : Cursor} (hlen : 0 ≤ c.length)
    (hroom : c.cur + c.length.toNat ≤ total) :
    run m (attrReads k total code type eap c) = goesOn (radiusAttr k m total code type c) := by
  unfold attrReads radiusAttr
  by_cases hmac : type = rdTpMessageAuthenticator
  · rw [if_pos hmac, if_pos hmac, run_ite, run_bind, run_octets, slice_eq, run_pure, run_pure]
    by_cases hshort : c.length < 16
    · rw [if_pos hshort, if_pos hshort]
      rfl
    · rw [if_neg hshort, if_neg hshort, macValid_packet (by omega)]
      cases macValid k m total c.cur <;> rfl
  rw [if_neg hmac, if_neg hmac]
  by_cases hstate : type = rdTpState
  · rw [if_pos hstate, if_pos hstate, if_neg (by omega), run_bind, run_pure]
    rfl
  rw [if_neg hstate, if_neg hstate]
  by_cases heap : type = rdTpEapMessage
  · rw [if_pos heap, if_pos heap, run_ite, run_bind, run_pure, ite_self]
    rfl
  rw [if_neg heap, if_neg heap]
  by_cases hvs : type = rdTpVendorSpecific
  · rw [if_pos hvs, if_pos hvs]
    unfold vendorReads vendorAttr
    rw [run_ite, run_pure]
    by_cases hshort : c.length < 6
    · rw [if_pos hshort, if_pos hshort]
      rfl
    rw [if_neg hshort, if_neg hshort, run_bind, run_bind, run_bind, run_be32_eq, run_octet,
      run_octet]
    dsimp only
    rw [run_ite, run_ite, run_ite, run_pure, run_pure, run_mppeReads_eq (k := k), run_wfaReads_eq]
    by_cases hcut : c.left - 6 < ((m (c.cur + 5)).toNat : Int) - 2
    · rw [if_pos hcut, if_pos hcut]
      rfl
    rw [if_neg hcut, if_neg hcut]
    by_cases hms : m.u32 c.cur = rdVendorMicrosoft
    · rw [if_pos hms, if_pos hms]
    rw [if_neg hms, if_neg hms]
    by_cases hwfa : m.u32 c.cur = rdVendorWfa
    · rw [if_pos hwfa, if_pos hwfa]
    · rw [if_neg hwfa, if_neg hwfa]
      rfl
  rw [if_neg hvs, if_neg hvs]
  by_cases htimeout : type = rdTpSessionTimeout
  · rw [if_pos htimeout, if_pos htimeout, run_ite, run_ite, run_bind, run_pure, run_pure]
    by_cases hcode : code = .accept
    · rw [if_neg (not_not.mpr hcode), if_neg (not_not.mpr hcode)]
      split <;> rfl
    · rw [if_pos hcode, if_pos hcode]
      rfl
  · rw [if_neg htimeout, if_neg htimeout]
    rfl

theorem radiusAttr_next {p : Nat} (hlen : 2 ≤ attrLen m p) (hwhole : p + attrLen m p ≤ total)
    {r : RadiusAttr × Cursor}
    (hr : radiusAttr k m total code (m p) ⟨p + 2, total - p - 2, attrLen m p - 2⟩ = r) :
    (r.1.ends = true ↔ AttrBad k m total code p) ∧
      (r.1.ends = false → (r.2.cur + r.2.length).toNat = attrNext m p ∧
        r.2.left - r.2.length = total - attrNext m p) := by
  have hrun := run_attrReads (k := k) (m := m) total code (m p) false
    (c := ⟨p + 2, total - p - 2, attrLen m p - 2⟩) (by dsimp only; omega) (by dsimp only; omega)
  obtain ⟨hbad, hgood⟩ := attr_run (k := k) (m := m) code false hwhole
  rw [hr] at hrun
  cases hends : r.1.ends with
  | true =>
      rw [goesOn, if_pos hends] at hrun
      refine ⟨iff_of_true rfl ?_, fun h => by cases h⟩
      by_contra hno
      obtain ⟨q, hq, -⟩ := hgood hno
      rw [hrun] at hq
      cases hq
  | false =>
      rw [goesOn, if_neg (by rw [hends]; exact Bool.false_ne_true)] at hrun
      have hno : ¬AttrBad k m total code p := fun h => by
        rw [hbad h] at hrun
        cases hrun
      obtain ⟨q, hq, hcur, hleft⟩ := hgood hno
      rw [hrun, Option.some.injEq] at hq
      subst hq
      exact ⟨iff_of_false Bool.false_ne_true hno, fun _ => ⟨by omega, hleft⟩⟩

/-- **The program's loop** has an attribute for each place where one begins, but for one that is cut
off. -/
theorem parse_walk {fuel p : Nat} {eap : Bool} {l : List RadiusAttr}
    (h : radiusParse k m total code fuel p (total - p) = some l) :
    ∃ e, (run m (walkFrom k total code fuel p eap)).2 = some e ∧
      (run m (walkFrom k total code fuel p eap)).1.length = l.length + if e = .cut then 1
        else 0 := by
  induction fuel generalizing p eap l with
  | zero => cases h
  | succ fuel ih =>
      rw [radiusParse] at h
      by_cases hroom : p + 2 ≤ total
      · rw [if_neg (by omega)] at h
        dsimp only at h
        by_cases hlen : attrLen m p < 2
        · rw [if_pos (by unfold attrLen at hlen; omega)] at h
          cases h
        rw [if_neg (by unfold attrLen at hlen; omega)] at h
        by_cases hwhole : p + attrLen m p ≤ total
        · rw [if_neg (by unfold attrLen at hwhole; omega)] at h
          generalize hr : radiusAttr k m total code (m p)
            ⟨p + 2, (total : Int) - p - 2, ((m (p + 1)).toNat : Int) - 2⟩ = r at h
          obtain ⟨hbad, hnext⟩ := radiusAttr_next (by omega) hwhole hr
          cases hends : r.1.ends with
          | true =>
              rw [hends, if_pos rfl] at h
              cases h
              rw [(walk_bad (n := 0) hroom hwhole (hbad.mp hends) fuel).2]
              exact ⟨.error, rfl, rfl⟩
          | false =>
              obtain ⟨hcur, hleft⟩ := hnext hends
              rw [hends, if_neg Bool.false_ne_true, hcur, hleft, Option.map_eq_some_iff] at h
              obtain ⟨l', hl', rfl⟩ := h
              obtain ⟨e, he, hlength⟩ := @ih _ (eap || m p = rdTpEapMessage) _ hl'
              have hgood : ¬AttrBad k m total code p := fun h => by
                rw [hbad.mpr h] at hends
                cases hends
              rw [(walk_next (n := 0) hroom hwhole hgood fuel).2]
              refine ⟨e, he, ?_⟩
              rw [List.length_cons, List.length_cons, hlength]
              omega
        · rw [if_pos (by unfold attrLen at hwhole; omega)] at h
          cases h
          rw [(walk_cut (n := 0) hroom (by omega) fuel).2]
          exact ⟨.cut, rfl, rfl⟩
      · rw [if_pos (by omega)] at h
        cases h
        rw [walk_done (by omega)]
        exact ⟨.exhausted, rfl, rfl⟩

end

/-! ## Every packet -/

/-- **A packet is walked right**: the loop ends, it reads octets of the packet, and the attributes
begin where the lengths say. `n` octets were received. -/
structure PacketRight (k : RadiusKeys) (m : Mem) (n : Nat) : Prop where
  ends : ∃ fuel, (run m (radiusWalk k fuel)).2.isSome = true
  inside : ∀ fuel, Inside m n (radiusWalk k fuel)
  outer :
    ∀ fuel, Outer m (m.u16 2) radiusHeaderLen (run m (radiusWalk k fuel)).1
      (run m (radiusWalk k fuel)).2

/-- **Which packets are walked right.** -/
theorem attribute_walk_iff (k : RadiusKeys) (m : Mem) (n : Nat) :
    PacketRight k m n ↔
    4 ≤ n ∧ AttrsFit k m n (m.u16 2) (radiusCode (m 0)) false radiusHeaderLen := by
  have hrun (fuel : Nat) : run m (radiusWalk k fuel) =
      run m (walkFrom k (m.u16 2) (radiusCode (m 0)) fuel radiusHeaderLen false) := by
    rw [radiusWalk, run_bind, run_bind, run_octet, run_be16]
    rfl
  have hin (fuel : Nat) : Inside m n (radiusWalk k fuel) ↔
      4 ≤ n ∧ Inside m n (walkFrom k (m.u16 2) (radiusCode (m 0)) fuel radiusHeaderLen false) := by
    rw [radiusWalk, inside_bind, inside_bind, inside_octet, inside_be16, run_octet, run_be16]
    constructor
    · exact fun h => ⟨h.1, h.2.2⟩
    · exact fun h => ⟨h.1, by omega, h.2⟩
  rw [← walkRight_iff]
  constructor
  · intro h
    refine ⟨((hin 0).mp (h.inside 0)).1, ?_, fun fuel => ((hin fuel).mp (h.inside fuel)).2,
      fun fuel => ?_⟩
    · obtain ⟨fuel, hfuel⟩ := h.ends
      exact ⟨fuel, by rwa [← hrun]⟩
    · rw [← hrun]
      exact h.outer fuel
  · intro h
    refine ⟨?_, fun fuel => (hin fuel).mpr ⟨h.1, h.2.inside fuel⟩, fun fuel => ?_⟩
    · obtain ⟨fuel, hfuel⟩ := h.2.ends
      exact ⟨fuel, by rwa [hrun]⟩
    · rw [hrun]
      exact h.2.outer fuel

/-! ## Concrete packets -/

/-- An Access-Challenge with these attributes and an authenticator of zeros. -/
def challengePacket (attrs : Bytes) : Mem :=
  Mem.ofBytes ([radiusAccessChallenge, 0] ++ be16 (radiusHeaderLen + attrs.length) ++
    List.replicate 16 0 ++ attrs)

/-- A vendor-specific attribute with two sub-attributes of one octet each. -/
def twoSubattributes : Bytes := [rdTpVendorSpecific, 12, 0, 0, 0, 9, 1, 3, 7, 2, 3, 8]

/-- A user name without the octets of its type and length. -/
def emptyAttribute : Bytes := [1, 0]

set_option maxRecDepth 100000 in
theorem twoSubattributes_outer :
    ¬∀ fuel, Outer (challengePacket twoSubattributes) 32 radiusHeaderLen
    (run (challengePacket twoSubattributes) (radiusWalk plainKeys fuel)).1
    (run (challengePacket twoSubattributes) (radiusWalk plainKeys fuel)).2 := by
  intro h
  have hwalk : run (challengePacket twoSubattributes) (radiusWalk plainKeys 3) =
      ([20, 29], some .exhausted) := by
    decide +kernel
  have houter := h 3
  rw [hwalk] at houter
  have hplace :
      ¬29 = radiusHeaderLen + attrLen (challengePacket twoSubattributes) radiusHeaderLen := by
    decide +kernel
  exact hplace houter.2.1

set_option maxRecDepth 100000 in
theorem emptyAttribute_ends :
    ¬∃ fuel, (run (challengePacket emptyAttribute) (radiusWalk plainKeys fuel)).2.isSome =
    true := by
  intro h
  obtain ⟨fuel, hfuel⟩ := h
  have hgood : ¬AttrBad plainKeys (challengePacket emptyAttribute) 22 .challenge 20 := by
    unfold AttrBad VendorBad IsKey KeyBad
    decide +kernel
  have hstuck :=
    walk_stuck (p := 20) (by decide) (by decide +kernel) (by decide +kernel) hgood fuel false
  have hrun : run (challengePacket emptyAttribute) (radiusWalk plainKeys fuel) =
      run (challengePacket emptyAttribute) (walkFrom plainKeys 22 .challenge fuel 20 false) := by
    rw [radiusWalk, run_bind, run_bind, run_octet, run_be16]
    rfl
  rw [hrun, hstuck] at hfuel
  cases hfuel

/-- **The loop need not end**, and it need not take the attributes one after the other, with the
packet received in whole. -/
theorem subattribute_walked :
    (¬∀ (k : RadiusKeys) (m : Mem) (n : Nat), m.u16 2 = n →
      ∃ fuel, (run m (radiusWalk k fuel)).2.isSome = true) ∧
      ¬∀ (k : RadiusKeys) (m : Mem) (n : Nat), m.u16 2 = n → ∀ fuel,
        Outer m n radiusHeaderLen (run m (radiusWalk k fuel)).1 (run m (radiusWalk k fuel)).2 := by
  constructor
  · intro h
    exact emptyAttribute_ends (h plainKeys (challengePacket emptyAttribute) 22 (by decide +kernel))
  · intro h
    exact twoSubattributes_outer
      (h plainKeys (challengePacket twoSubattributes) 32 (by decide +kernel))

end BroadcomWl.Nas.AttributeWalk
