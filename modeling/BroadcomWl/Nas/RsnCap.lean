import BroadcomWl.Nas.ParseIe

/-!
# The capabilities of an association request

`wpa_get_rsn_cap` looks for the RSN element among the elements of an association request, in a
buffer of the driver's. It goes from one element to the next by the length of the one it leaves, and
takes from what remains the length of the one it comes to.

**Right walks.** A walk is right if at each element what remains is what is left, if it reads inside
the buffer, and if it reports the capabilities of the first RSN element that has some. `rsn_cap_iff`
says for which buffers: the elements that are skipped have one length, and it is the length of the
element at which the walk stops. -/

namespace BroadcomWl.Nas.Element

open BroadcomWl.Lib (Reader)
open BroadcomWl.Lib.Reader

/-! ## The code -/

/-- The walk of `wpa_get_rsn_cap`, with `ieLen` octets to go at `off`: the capabilities, or none for
-1. Without fuel there is no result. -/
def capWalk : Nat → Nat → Int → Reader (Option (Option (UInt8 × UInt8)))
  | 0, _, _ => pure none
  | fuel + 1, off, ieLen => do
    let len ← octet (off + 1)
    if len = 0 then pure (some none)
    else if ieLen < len.toNat + 2 then pure (some none)
    else
      let tag ← octet off
      if tag = dot11MngRsnId then
        let p ← (wpaParseIe ieLen (some (List.replicate 16 0))).shift off
        pure (some (p.map (·.cap)))
      else
        let next ← octet (off + len.toNat + 2 + 1)
        capWalk fuel (off + len.toNat + 2) (ieLen - (next.toNat + 2))

theorem run_capWalk (m : Mem) (fuel off : Nat) (ieLen : Int) :
    (run m (capWalk fuel off ieLen)).join = rsnCapWalk m fuel off ieLen := by
  induction fuel generalizing off ieLen with
  | zero => rfl
  | succ fuel ih =>
      simp only [capWalk, rsnCapWalk, run_bind, run_ite, run_octet, run_pure, run_shift,
        run_wpaParseIe]
      by_cases hlen : m (off + 1) = 0
      · have hzero : (m (off + 1)).toNat = 0 := by rw [hlen]; rfl
        simp [hlen]
      · have hpos : (m (off + 1)).toNat ≠ 0 := fun h => hlen (UInt8.toNat_inj.mp h)
        by_cases hshort : ieLen < (m (off + 1)).toNat + 2
        · simp [hlen, hpos, hshort]
        · by_cases htag : m off = dot11MngRsnId
          · simp [hlen, hpos, hshort, htag]
          · simp [hlen, hpos, hshort, htag, ih]

/-! ## What a walk should do -/

/-- The element at an offset. -/
def elementAt (m : Mem) (off : Nat) : Mem := fun i => m (off + i)

/-- The capabilities of an RSN element, if it is well-formed and has some. -/
def rsnCapOf (m : Mem) (off : Nat) : Option (UInt8 × UInt8) :=
  let len := (m (off + 1)).toNat + 2
  if m off = dot11MngRsnId then
    (Nas.wpaIeHeader (elementAt m off) len).bind fun h =>
      (ieFields (elementAt m off) len h.suites).cap.map fun o => (m (off + o), m (off + o + 1))
  else none

/-- The first capabilities among the elements from an offset on. -/
def capsFrom (m : Mem) (n : Nat) : Nat → Nat → Option (UInt8 × UInt8)
  | 0, _ => none
  | fuel + 1, off =>
    if off + (m (off + 1)).toNat + 2 ≤ n then
      (rsnCapOf m off).or (capsFrom m n fuel (off + (m (off + 1)).toNat + 2))
    else none

/-- The capabilities of the first RSN element of a buffer that is well-formed and has some. -/
def firstRsnCap (m : Mem) (n off : Nat) : Option (UInt8 × UInt8) := capsFrom m n (n + 1) off

theorem capsFrom_fuel {m : Mem} {n fuel fuel' off : Nat} (h : n < off + 2 * fuel + 2)
    (h' : n < off + 2 * fuel' + 2) :
    capsFrom m n fuel off = capsFrom m n fuel' off := by
  induction fuel generalizing fuel' off with
  | zero =>
      cases fuel' with
      | zero => rfl
      | succ fuel' => rw [capsFrom, capsFrom, if_neg (by omega)]
  | succ fuel ih =>
      cases fuel' with
      | zero => rw [capsFrom, capsFrom, if_neg (by omega)]
      | succ fuel' =>
          have hnext := @ih fuel' (off + (m (off + 1)).toNat + 2) (by omega) (by omega)
          rw [capsFrom, capsFrom, hnext]

theorem firstRsnCap_eq (m : Mem) (n off : Nat) : firstRsnCap m n off =
    if off + (m (off + 1)).toNat + 2 ≤ n then
      (rsnCapOf m off).or (firstRsnCap m n (off + (m (off + 1)).toNat + 2))
    else none := by
  have hfuel : capsFrom m n n (off + (m (off + 1)).toNat + 2) =
      firstRsnCap m n (off + (m (off + 1)).toNat + 2) :=
    capsFrom_fuel (by omega) (by omega)
  rw [firstRsnCap, capsFrom, hfuel]

/-- Where a walk is: the offset, and what it takes for the octets that remain. -/
structure CapCursor where
  off : Nat
  left : Int
deriving DecidableEq

/-- A turn of the loop that skips an element. -/
def skip (m : Mem) (c : CapCursor) : Option CapCursor :=
  let next := c.off + (m (c.off + 1)).toNat + 2
  if m (c.off + 1) = 0 ∨ c.left < (m (c.off + 1)).toNat + 2 ∨ m c.off = dot11MngRsnId then none
  else some ⟨next, c.left - ((m (next + 1)).toNat + 2)⟩

/-- A walk comes from one place to another. -/
inductive Comes (m : Mem) : CapCursor → CapCursor → Prop where
  | refl (c : CapCursor) : Comes m c c
  | step {c d e : CapCursor} (hskip : skip m c = some d) (h : Comes m d e) : Comes m c e

/-- **A walk is right**: what remains is what is left at each place, it reads inside the buffer, and
it ends with the capabilities of the first RSN element that has some. -/
structure WalksRight (m : Mem) (n fuel off : Nat) : Prop where
  left : ∀ c, Comes m ⟨off, n - off⟩ c → c.left = n - c.off
  inside : Inside m n (capWalk fuel off (n - off))
  result : run m (capWalk fuel off (n - off)) = some (firstRsnCap m n off)

/-! ## One RSN element -/

section

variable {m : Mem} {n : Nat}

theorem rsn_suites {h : IeHeader} (htag : m 0 = dot11MngRsnId) (hh : Nas.wpaIeHeader m n = some h) :
    h.suites = 4 := by
  unfold Nas.wpaIeHeader at hh
  rw [if_pos htag] at hh
  split_ifs at hh
  cases hh
  rfl

theorem header_of_fits (hfits : (m 1).toNat + 2 ≤ n) :
    Nas.wpaIeHeader m n = Nas.wpaIeHeader m ((m 1).toNat + 2) := by
  have hn : bcmValidTlv m n = true := by
    simp only [bcmValidTlv, Bool.and_eq_true, decide_eq_true_eq]
    omega
  have hlen : bcmValidTlv m ((m 1).toNat + 2) = true := by
    simp only [bcmValidTlv, Bool.and_eq_true, decide_eq_true_eq]
    omega
  unfold Nas.wpaIeHeader
  rw [hn, hlen]

theorem cap_of_oneSuite {h : IeHeader} {left : Nat} (hone : OneSuite m h left) :
    (ieFields m (h.suites + left) h.suites).cap = if 18 ≤ left then some (h.suites + 16)
      else none := by
  by_cases hsix : 6 ≤ left
  · have hucast := hone.1 hsix
    rw [ieFields_one (by omega) hucast]
    by_cases htwelve : 12 ≤ left
    · have hmgmt := hone.2 htwelve
      have hroom : h.suites + 12 ≤ h.suites + left ∧ h.suites + 12 + 4 * 1 + 2 ≤ h.suites + left ↔
          18 ≤ left := by omega
      rw [hmgmt]
      simp only [hroom]
    · have hroom : ¬h.suites + 12 ≤ h.suites + left := by omega
      have hshort : ¬18 ≤ left := by omega
      simp only [hroom, hshort, false_and, if_false]
  · rw [ieFields_short (by omega), if_neg (by omega)]

/-- The capabilities at the fixed place, as far as the buffer has them. -/
def fixedCap (m : Mem) (n off : Nat) : UInt8 × UInt8 :=
  if off + 22 ≤ n then (m (off + 20), m (off + 21)) else (0, 0)

/-- The element at an offset has a header and one suite of each kind, as far as the buffer goes. -/
def Accepted (m : Mem) (n off : Nat) : Prop :=
  ∃ h, Nas.wpaIeHeader (elementAt m off) (n - off) = some h ∧
    OneSuite (elementAt m off) h (n - off - h.suites)

/-- The parser reads inside the buffer. -/
def ReadsRest (m : Mem) (n off : Nat) : Prop :=
  ∀ h, Nas.wpaIeHeader (elementAt m off) (n - off) = some h →
    ParseFits (elementAt m off) h (n - off - h.suites)

theorem parse_rest_accepted (sta : Option Bytes) {off : Nat} (htag : m off = dot11MngRsnId)
    (hreads : ReadsRest m n off) (haccepted : Accepted m n off) :
    (run (elementAt m off) (wpaParseIe (n - off) sta)).map (·.cap) = some (fixedCap m n off) := by
  obtain ⟨h, hh, hone⟩ := haccepted
  have hnat : ((n : Int) - off).toNat = n - off := by omega
  have hsuites := rsn_suites (m := elementAt m off) htag hh
  obtain ⟨hle, hpos⟩ := wpaIeHeader_suites_le hh
  have hleft : (n : Int) - off - h.suites = ((n - off - h.suites : Nat) : Int) := by omega
  have hsome := (parseMcast_isSome sta (hreads h hh).1).mpr hone
  rw [wpaParseIe, run_bind, run_wpaIeHeader, hnat, hh]
  simp only [hleft]
  obtain ⟨p, hp⟩ := Option.isSome_iff_exists.mp hsome
  have hcap := (parseMcast_reports (hreads h hh) hp).cap
  rw [cap_of_oneSuite hone] at hcap
  rw [hp, Option.map_some, hcap, hsuites, fixedCap]
  congr 1
  have hroom : 18 ≤ n - off - 4 ↔ off + 22 ≤ n := by omega
  simp only [hroom]
  split <;> rfl

theorem parse_rest_rejected (sta : Option Bytes) {off : Nat} (hreads : ReadsRest m n off)
    (hrejected : ¬Accepted m n off) : run (elementAt m off) (wpaParseIe (n - off) sta) = none := by
  have hnat : ((n : Int) - off).toNat = n - off := by omega
  rw [wpaParseIe, run_bind, run_wpaIeHeader, hnat]
  cases hh : Nas.wpaIeHeader (elementAt m off) (n - off) with
  | none => rfl
  | some h =>
      obtain ⟨hle, hpos⟩ := wpaIeHeader_suites_le hh
      have hleft : (n : Int) - off - h.suites = ((n - off - h.suites : Nat) : Int) := by omega
      simp only [hleft]
      rw [← Option.not_isSome_iff_eq_none, parseMcast_isSome sta (hreads h hh).1]
      exact fun hone => hrejected ⟨h, hh, hone⟩

theorem rsnCapOf_accepted {off : Nat} (htag : m off = dot11MngRsnId)
    (hwhole : off + (m (off + 1)).toNat + 2 ≤ n) (haccepted : Accepted m n off) :
    rsnCapOf m off = if 20 ≤ (m (off + 1)).toNat then some (m (off + 20), m (off + 21))
      else none := by
  obtain ⟨h, hh, hone⟩ := haccepted
  have hsuites := rsn_suites (m := elementAt m off) htag hh
  have hfits : (elementAt m off 1).toNat + 2 ≤ n - off := by
    rw [elementAt]
    omega
  rw [header_of_fits hfits] at hh
  obtain ⟨hle, hpos⟩ := wpaIeHeader_suites_le hh
  have hsum : (m (off + 1)).toNat + 2 = h.suites + ((m (off + 1)).toNat + 2 - h.suites) := by
    rw [elementAt] at hle
    omega
  have hown : OneSuite (elementAt m off) h ((m (off + 1)).toNat + 2 - h.suites) :=
    ⟨fun hlen => hone.1 (by omega), fun hlen => hone.2 (by omega)⟩
  have hcap := cap_of_oneSuite hown
  rw [← hsum, hsuites] at hcap
  have hheader : Nas.wpaIeHeader (elementAt m off) ((m (off + 1)).toNat + 2) = some h := hh
  rw [rsnCapOf, if_pos htag, hheader, Option.bind_some, hsuites, hcap]
  have hroom : 18 ≤ (m (off + 1)).toNat + 2 - 4 ↔ 20 ≤ (m (off + 1)).toNat := by omega
  simp only [hroom]
  split <;> rfl

/-- **One RSN element**: what the walk reports of it is right if and only if it is accepted and has
its capabilities, or there are no others that differ. -/
theorem rsn_result_iff (sta : Option Bytes) {off : Nat} (htag : m off = dot11MngRsnId)
    (hwhole : off + (m (off + 1)).toNat + 2 ≤ n) (hreads : ReadsRest m n off) :
    (run (elementAt m off) (wpaParseIe (n - off) sta)).map (·.cap) = firstRsnCap m n off ↔
      (Accepted m n off → 20 ≤ (m (off + 1)).toNat ∨
        firstRsnCap m n (off + (m (off + 1)).toNat + 2) = some (fixedCap m n off)) ∧
      (¬Accepted m n off → firstRsnCap m n off = none) := by
  by_cases haccepted : Accepted m n off
  · rw [parse_rest_accepted sta htag hreads haccepted, firstRsnCap_eq, if_pos hwhole,
      rsnCapOf_accepted htag hwhole haccepted]
    simp only [haccepted, true_implies, not_true, false_implies, and_true]
    by_cases hlong : 20 ≤ (m (off + 1)).toNat
    · have hroom : off + 22 ≤ n := by omega
      simp [hlong, fixedCap, hroom]
    · simp only [hlong, if_false, Option.none_or, false_or]
      exact eq_comm
  · rw [parse_rest_rejected sta hreads haccepted]
    simp only [haccepted, false_implies, not_false_iff, true_implies, true_and, Option.map_none]
    exact eq_comm

end

/-! ## The walk -/

/-- **Which buffers are walked right**, from an offset on: the walk stops at an element without a
length and there are no capabilities behind it; or at one that is cut off; or at an RSN element; or
it skips an element, and the next one has the same length. -/
inductive CapFits (m : Mem) (n : Nat) : Nat → Prop where
  | empty {off : Nat} (hroom : off + 2 ≤ n) (hlen : m (off + 1) = 0)
      (hnone : firstRsnCap m n off = none) : CapFits m n off
  | cut {off : Nat} (hroom : off + 2 ≤ n) (hlen : m (off + 1) ≠ 0)
      (hcut : n < off + (m (off + 1)).toNat + 2) :
      CapFits m n off
  | rsn {off : Nat} (hlen : m (off + 1) ≠ 0) (hwhole : off + (m (off + 1)).toNat + 2 ≤ n)
      (htag : m off = dot11MngRsnId) (hreads : ReadsRest m n off)
      (haccepted : Accepted m n off → 20 ≤ (m (off + 1)).toNat ∨
        firstRsnCap m n (off + (m (off + 1)).toNat + 2) = some (fixedCap m n off))
      (hrejected : ¬Accepted m n off → firstRsnCap m n off = none) : CapFits m n off
  | skip {off : Nat} (hlen : m (off + 1) ≠ 0) (hwhole : off + (m (off + 1)).toNat + 2 ≤ n)
      (htag : m off ≠ dot11MngRsnId) (hsame : m (off + (m (off + 1)).toNat + 2 + 1) = m (off + 1))
      (hnext : CapFits m n (off + (m (off + 1)).toNat + 2)) : CapFits m n off

section

variable {m : Mem} {n fuel off : Nat}

theorem CapFits.room (h : CapFits m n off) : off + 2 ≤ n := by
  cases h with
  | empty hroom _ _ => exact hroom
  | cut hroom _ _ => exact hroom
  | rsn _ hwhole _ _ _ _ => omega
  | skip _ hwhole _ _ _ => omega

theorem comes_of_stop {c d : CapCursor} (hstop : skip m c = none) (h : Comes m c d) : d = c := by
  cases h with
  | refl => rfl
  | step hskip _ =>
      rw [hstop] at hskip
      cases hskip

/-- **A walk that stops** is right if and only if it reads inside and ends right. -/
theorem walksRight_of_stop (hstop : skip m ⟨off, n - off⟩ = none) :
    WalksRight m n fuel off ↔
      Inside m n (capWalk fuel off (n - off)) ∧
      run m (capWalk fuel off (n - off)) = some (firstRsnCap m n off) := by
  constructor
  · exact fun h => ⟨h.inside, h.result⟩
  · intro h
    refine ⟨fun c hc => ?_, h.1, h.2⟩
    rw [comes_of_stop hstop hc]

theorem skip_eq (hlen : m (off + 1) ≠ 0) (hwhole : off + (m (off + 1)).toNat + 2 ≤ n)
    (htag : m off ≠ dot11MngRsnId) :
    skip m ⟨off, n - off⟩ = some ⟨off + (m (off + 1)).toNat + 2,
      n - off - ((m (off + (m (off + 1)).toNat + 2 + 1)).toNat + 2)⟩ := by
  have hroom : ¬(n : Int) - off < (m (off + 1)).toNat + 2 := by omega
  rw [skip]
  exact if_neg (by simp [hlen, hroom, htag])

variable (fuel) in
theorem capWalk_of_skip (ieLen : Int) (hlen : m (off + 1) ≠ 0)
    (hroom : ¬ieLen < (m (off + 1)).toNat + 2) (htag : m off ≠ dot11MngRsnId) :
    (Inside m n (capWalk (fuel + 1) off ieLen) ↔
      off + 1 < n ∧ off + (m (off + 1)).toNat + 2 + 1 < n ∧
      Inside m n (capWalk fuel (off + (m (off + 1)).toNat + 2)
        (ieLen - ((m (off + (m (off + 1)).toNat + 2 + 1)).toNat + 2)))) ∧
    run m (capWalk (fuel + 1) off ieLen) = run m (capWalk fuel (off + (m (off + 1)).toNat + 2)
      (ieLen - ((m (off + (m (off + 1)).toNat + 2 + 1)).toNat + 2))) := by
  constructor
  · simp only [capWalk, inside_bind, inside_ite, inside_octet, run_octet, inside_pure, hlen, hroom,
      htag, false_implies, true_and, not_false_iff, true_implies]
    constructor
    · exact fun h => ⟨h.1, h.2.2⟩
    · exact fun h => ⟨h.1, by omega, h.2⟩
  · simp only [capWalk, run_bind, run_octet, hlen, hroom, htag, if_false]

/-- **A walk that skips an element** is right if and only if the next one has the same length and
the walk is right from there on. -/
theorem walksRight_of_skip (hlen : m (off + 1) ≠ 0) (hwhole : off + (m (off + 1)).toNat + 2 ≤ n)
    (htag : m off ≠ dot11MngRsnId) :
    WalksRight m n (fuel + 1) off ↔
      m (off + (m (off + 1)).toNat + 2 + 1) = m (off + 1) ∧ off + (m (off + 1)).toNat + 2 + 2 ≤ n ∧
        WalksRight m n fuel (off + (m (off + 1)).toNat + 2) := by
  have hskip := skip_eq hlen hwhole htag
  have hroom : ¬(n : Int) - off < (m (off + 1)).toNat + 2 := by omega
  obtain ⟨hin, hrun⟩ := capWalk_of_skip fuel (n := n) _ hlen hroom htag
  have hspec : firstRsnCap m n off = firstRsnCap m n (off + (m (off + 1)).toNat + 2) := by
    rw [firstRsnCap_eq, if_pos hwhole, rsnCapOf, if_neg htag, Option.none_or]
  -- What the code takes for the octets that remain is right if the lengths are the same.
  have hleft (hsame : m (off + (m (off + 1)).toNat + 2 + 1) = m (off + 1)) :
      (n : Int) - off - ((m (off + (m (off + 1)).toNat + 2 + 1)).toNat + 2) =
        n - ((off + (m (off + 1)).toNat + 2 : Nat) : Int) := by
    rw [hsame]
    omega
  constructor
  · intro h
    have hthere := h.left _ (.step hskip (.refl _))
    have hsame : m (off + (m (off + 1)).toNat + 2 + 1) = m (off + 1) := by
      apply UInt8.toNat_inj.mp
      simp only at hthere
      omega
    obtain ⟨-, hnext, hrest⟩ := hin.mp h.inside
    have hresult := h.result
    rw [hleft hsame] at hrest hskip hrun
    refine ⟨hsame, by omega, ⟨fun c hc => h.left c (.step hskip hc), hrest, ?_⟩⟩
    rw [← hrun, hresult, hspec]
  · intro h
    obtain ⟨hsame, hnext, hright⟩ := h
    rw [hleft hsame] at hin hskip hrun
    refine ⟨fun c hc => ?_, hin.mpr ⟨by omega, by omega, hright.inside⟩, ?_⟩
    · cases hc with
      | refl => rfl
      | step hskip' hc' =>
          rw [hskip] at hskip'
          cases hskip'
          exact hright.left c hc'
    · rw [hrun, hright.result, hspec]

theorem capWalk_of_rsn (hlen : m (off + 1) ≠ 0) (hwhole : off + (m (off + 1)).toNat + 2 ≤ n)
    (htag : m off = dot11MngRsnId) :
    (Inside m n (capWalk (fuel + 1) off (n - off)) ↔ ReadsRest m n off) ∧
      run m (capWalk (fuel + 1) off (n - off)) =
        some ((run (elementAt m off) (wpaParseIe (n - off) (some (List.replicate 16 0)))).map
          (·.cap)) := by
  have hroom : ¬(n : Int) - off < (m (off + 1)).toNat + 2 := by omega
  have hnat : ((n : Int) - off).toNat = n - off := by omega
  have hreads :=
    inside_wpaParseIe_iff (m := elementAt m off) ((n : Int) - off) (some (List.replicate 16 0))
  rw [hnat] at hreads
  constructor
  · simp only [capWalk, inside_bind, inside_ite, inside_octet, run_octet, inside_pure, inside_shift,
      hlen, hroom, htag, false_implies, true_and, not_false_iff, not_true, true_implies, and_true,
      ReadsRest]
    rw [← hreads]
    exact ⟨fun h => h.2.2, fun h => ⟨by omega, by omega, h⟩⟩
  · simp only [capWalk, run_bind, run_octet, hlen, hroom, htag, if_false, if_true,
      run_shift, run_pure]
    rfl

/-- **Which walks are right**, with fuel for all elements. -/
theorem walksRight_iff (hfuel : n < off + 2 * fuel) :
    WalksRight m n fuel off ↔ CapFits m n off := by
  induction fuel generalizing off with
  | zero =>
      refine iff_of_false (fun h => ?_) (fun h => ?_)
      · cases h.result
      · have hroom := h.room
        omega
  | succ fuel ih =>
      by_cases hroom : off + 2 ≤ n
      · by_cases hlen : m (off + 1) = 0
        · have hstop : skip m ⟨off, n - off⟩ = none := if_pos (.inl hlen)
          rw [walksRight_of_stop hstop]
          simp only [capWalk, inside_bind, inside_octet, run_bind, run_octet, inside_pure, run_pure,
            hlen, if_true, and_true, Option.some.injEq]
          constructor
          · exact fun h => .empty hroom hlen h.2.symm
          · intro h
            cases h with
            | empty _ _ hnone => exact ⟨by omega, hnone.symm⟩
            | cut _ hlen' _ => exact absurd hlen hlen'
            | rsn hlen' _ _ _ _ _ => exact absurd hlen hlen'
            | skip hlen' _ _ _ _ => exact absurd hlen hlen'
        · by_cases hwhole : off + (m (off + 1)).toNat + 2 ≤ n
          · have hleft : ¬(n : Int) - off < (m (off + 1)).toNat + 2 := by omega
            by_cases htag : m off = dot11MngRsnId
            · have hstop : skip m ⟨off, n - off⟩ = none := if_pos (.inr (.inr htag))
              rw [walksRight_of_stop hstop, (capWalk_of_rsn hlen hwhole htag).1,
                (capWalk_of_rsn hlen hwhole htag).2, Option.some.injEq]
              constructor
              · intro h
                obtain ⟨haccepted, hrejected⟩ := (rsn_result_iff _ htag hwhole h.1).mp h.2
                exact .rsn hlen hwhole htag h.1 haccepted hrejected
              · intro h
                cases h with
                | empty _ hlen' _ => exact absurd hlen' hlen
                | cut _ _ hcut => omega
                | rsn _ _ _ hreads haccepted hrejected =>
                    exact ⟨hreads, (rsn_result_iff _ htag hwhole hreads).mpr ⟨haccepted, hrejected⟩⟩
                | skip _ _ htag' _ _ => exact absurd htag htag'
            · rw [walksRight_of_skip hlen hwhole htag, ih (by omega)]
              constructor
              · exact fun h => .skip hlen hwhole htag h.1 h.2.2
              · intro h
                cases h with
                | empty _ hlen' _ => exact absurd hlen' hlen
                | cut _ _ hcut => omega
                | rsn _ _ htag' _ _ _ => exact absurd htag' htag
                | skip _ _ _ hsame hnext => exact ⟨hsame, hnext.room, hnext⟩
          · have hleft : (n : Int) - off < (m (off + 1)).toNat + 2 := by omega
            have hstop : skip m ⟨off, n - off⟩ = none := if_pos (.inr (.inl hleft))
            refine iff_of_true ?_ (.cut hroom hlen (by omega))
            rw [walksRight_of_stop hstop, firstRsnCap_eq, if_neg hwhole]
            simp only [capWalk, inside_bind, inside_octet, run_bind, run_octet, inside_pure,
              run_pure, hlen, hleft, if_false, if_true, and_true]
            omega
      · refine iff_of_false (fun h => ?_) (fun h => hroom h.room)
        have hin := h.inside
        simp only [capWalk, inside_bind, inside_octet] at hin
        omega

end

/-! ## Every buffer -/

/-- **The walk ends**: what it takes for the octets that remain goes down by two at least. -/
theorem capWalk_ends (m : Mem) {fuel off : Nat} {ieLen : Int} (h : ieLen < 2 * (fuel + 1)) :
    (run m (capWalk (fuel + 1) off ieLen)).isSome = true := by
  induction fuel generalizing off ieLen with
  | zero =>
      simp only [capWalk, run_bind, run_ite, run_octet, run_pure]
      by_cases hlen : m (off + 1) = 0
      · simp [hlen]
      · have hpos : (m (off + 1)).toNat ≠ 0 := fun hzero => hlen (UInt8.toNat_inj.mp hzero)
        have hshort : ieLen < (m (off + 1)).toNat + 2 := by omega
        simp [hshort]
  | succ fuel ih =>
      have hnext :=
        @ih (off + (m (off + 1)).toNat + 2)
          (ieLen - ((m (off + (m (off + 1)).toNat + 2 + 1)).toNat + 2))
        (by omega)
      rw [capWalk]
      simp only [run_bind, run_ite, run_octet, run_pure]
      split_ifs
      · rfl
      · rfl
      · rfl
      · exact hnext

/-- **Which buffers are walked right.** -/
theorem rsn_cap_iff (m : Mem) (n : Nat) :
    (run m (capWalk (n + 1) 0 n)).isSome = true ∧ (WalksRight m n (n + 1) 0 ↔ CapFits m n 0) :=
  ⟨capWalk_ends m (by omega), walksRight_iff (by omega)⟩

/-- An RSN element with one suite of each kind and capabilities. -/
def joinRsn : Bytes :=
  [0x30, 0x14, 0x01, 0x00, 0x00, 0x0f, 0xac, 0x04, 0x01, 0x00, 0x00, 0x0f, 0xac, 0x04, 0x01, 0x00,
    0x00, 0x0f, 0xac, 0x02, 0x0c, 0x00]

/-- An association request with a name of four octets, eight rates and an RSN element. -/
def joinRequest : Mem :=
  Mem.ofBytes ([0x00, 0x04, 0x68, 0x6f, 0x6d, 0x65] ++
    [0x01, 0x08, 0x82, 0x84, 0x8b, 0x96, 0x0c, 0x12, 0x18, 0x24] ++ joinRsn)

/-- An association request with an empty name. -/
def hiddenRequest : Mem := Mem.ofBytes ([0x00, 0x00] ++ joinRsn)

/-- At the rates there are 250 octets left, and the walk has 246; behind an empty name there are
capabilities, and the walk reports none. -/
theorem join_request_miscounted :
    skip joinRequest ⟨0, 256⟩ = some ⟨6, 246⟩ ∧ (246 : Int) ≠ 256 - 6 ∧
    run hiddenRequest (capWalk 257 0 256) = some none ∧
    firstRsnCap hiddenRequest 256 0 = some (0x0c, 0x00) := by
  decide +kernel

end BroadcomWl.Nas.Element
